import VeriMat.OperationSystem

/-! # What a transport call does in what order

A call reserves its operation before it transmits, records the success of a valid answer before
it commits it, and commits what it received. The protocol is followed by every call of the three
transports, whatever its operations reply. -/
namespace OperationProtocol

open PyText JsonText PyValue Events CircuitBreaker OperationStore AtomicProgram Transports
  ModelTransports OperationSystem

variable {F T R A : Type} [LinearOrder T] [Zero T]

/-! ## The protocol -/

/-- How far a call has come. -/
inductive Progress (R : Type) where
  | idle
  | reserved (operationId requestHash : PyStr)
  | sent (operationId requestHash : PyStr)
  | paid (operationId requestHash : PyStr) (response : R)
  | settled (operationId requestHash : PyStr) (response : R)
  | committed (operationId requestHash : PyStr) (response : R)
  /-- The row was not pending when the response was to be committed. -/
  | stranded
  /-- The answer was no valid response. -/
  | invalid
  /-- A valid response was not committed, or not handed to the caller. -/
  | lost

/-- Operations that neither reserve nor commit, nor are part of the paid call. -/
def Op.passive : Op F T R → Bool
  | .reserve _ _ | .commit _ _ _ | .transmit _ | .receive _ _ => false
  | _ => true

def Progress.allows (admits : PyStr → Prop) : Progress R → Op F T R → Prop
  | .idle, .reserve X _ => admits X
  | .idle, o => Op.passive o = true
  | .reserved X _, .transmit Y => Y = X
  | .reserved _ _, _ => False
  | .sent X _, .receive _ Y => Y = X
  | .sent _ _, _ => False
  | .paid X _ _, .recordSuccess _ Y => Y = X
  | .paid _ _ _, _ => False
  | .settled X requestHash response, .commit Y hash answer =>
    Y = X ∧ hash = requestHash ∧ answer = response
  | .settled _ _ _, _ => False
  | .committed X _ _, .select Y => Y = X
  | .committed _ _ _, .utcnow => True
  | .committed _ _ _, .append _ => True
  | .committed _ _ _, _ => False
  | _, o => Op.passive o = true

/-- A call's valid response, from what it received. -/
abbrev Validity (F R : Type) := (wire : Wire) → Received F wire → Option R

def afterReserve (X requestHash : PyStr) : Except OperationError Bool → Progress R
  | .ok true => .reserved X requestHash
  | _ => .idle

def afterReceive (valid : Validity F R) (X requestHash : PyStr) (wire : Wire) :
    Except OperationError (Received F wire) → Progress R
  | .ok received =>
    match valid wire received with
    | some response => .paid X requestHash response
    | none => .invalid
  | .error _ => .invalid

def afterSuccess (X requestHash : PyStr) (response : R) :
    Except OperationError Unit → Progress R
  | .ok _ => .settled X requestHash response
  | .error _ => .lost

def afterCommit (X requestHash : PyStr) (response : R) : Except OperationError ℕ → Progress R
  | .ok n => if n = 1 then .committed X requestHash response else .stranded
  | .error _ => .lost

def afterAppend (X requestHash : PyStr) (response : R) : Except OperationError Unit → Progress R
  | .ok _ => .committed X requestHash response
  | .error _ => .lost

/-- Where an operation's reply takes the call. -/
def Progress.next (valid : Validity F R) : Progress R → (o : Op F T R) → Reply o → Progress R
  | .idle, .reserve X requestHash, r => afterReserve X requestHash r
  | .reserved X requestHash, .transmit _, _ => .sent X requestHash
  | .sent X requestHash, .receive wire _, r => afterReceive valid X requestHash wire r
  | .paid X requestHash response, .recordSuccess _ _, r => afterSuccess X requestHash response r
  | .settled X requestHash response, .commit _ _ _, r => afterCommit X requestHash response r
  | .committed X requestHash response, .append _, r => afterAppend X requestHash response r
  | g, _, _ => g

/-- The row that a committed response is found in. -/
def Holds (row : OperationRow R T) (requestHash : PyStr) (response : R) : Prop :=
  row.requestSha256 = requestHash ∧ row.status = .completed ∧ row.response = some response

/-- A circuit admits only valid operation ids, and a committed response is found where it was
put. -/
def Progress.possible : Progress R → (o : Op F T R) → Reply o → Prop
  | .idle, .beforeCall _ X, r => r = Except.ok () → ValidId X
  | .committed _ requestHash response, .select _, r =>
    ∃ row : OperationRow R T, r = Except.ok (some row) ∧ Holds row requestHash response
  | _, _, _ => True

/-- The protocol of a call that reserves only operations whose id it has admitted. -/
def protocol (admits : PyStr → Prop) (valid : Validity F R) :
    Protocol (Op F T R) Reply (Progress R) where
  allowed := Progress.allows admits
  replies g o r g' := g.possible o r ∧ g' = g.next valid o r

/-- States that passive operations do not leave. -/
def Progress.inert : Progress R → Bool
  | .idle | .stranded | .invalid | .lost => true
  | _ => false

/-- How a call may end: never with a paid call in the air, and with the response once that is
committed. -/
def Delivers (table : ResponseTable F R A) : Progress R → Except OperationError A → Prop
  | .reserved _ _, _ => False
  | .sent _ _, _ => False
  | .paid _ _ _, _ => False
  | .settled _ _ _, _ => False
  | .committed _ _ response, result => result = .ok (table.read response)
  | _, _ => True

theorem delivers_inert {table : ResponseTable F R A} {g : Progress R} (hg : g.inert = true)
    (result : Except OperationError A) : Delivers table g result := by
  cases g <;> trivial

/-! ## Passive programs -/

/-- No operation of the program reserves, commits or calls the provider. -/
def Passive {α : Type} (p : Program (Op F T R) Reply α) : Prop :=
  p.Follows ⟨fun (_ : Unit) o => Op.passive o = true, fun _ _ _ _ => True⟩ (fun _ _ => True) ()

variable {admits : PyStr → Prop} {valid : Validity F R} {g : Progress R}

theorem allows_of_inert (hg : g.inert = true) {o : Op F T R} (ho : Op.passive o = true) :
    g.allows admits o := by
  cases g with
  | idle => cases o <;> first | exact ho | cases ho
  | stranded => exact ho
  | invalid => exact ho
  | lost => exact ho
  | _ => cases hg

theorem next_of_inert (hg : g.inert = true) {o : Op F T R} (ho : Op.passive o = true)
    (r : Reply o) : g.next valid o r = g := by
  cases g with
  | idle => cases o <;> first | rfl | cases ho
  | stranded => rfl
  | invalid => rfl
  | lost => rfl
  | _ => cases hg

theorem Passive.follows {α : Type} {p : Program (Op F T R) Reply α} (hp : Passive p)
    (hg : g.inert = true) {post : Progress R → α → Prop} (hpost : ∀ a, post g a) :
    p.Follows (protocol admits valid) post g := by
  induction p with
  | done a => exact hpost a
  | step o next ih =>
    obtain ⟨ho, hnext⟩ := hp
    refine ⟨allows_of_inert hg ho, ?_⟩
    rintro r g' ⟨_, rfl⟩
    rw [next_of_inert hg ho]
    exact ih r (hnext r () trivial)

section PassiveRules
variable {α β : Type}

theorem passive_bind {x : Call F T R α} {f : α → Call F T R β} (hx : Passive x.run)
    (hf : ∀ a, Passive (f a).run) : Passive (x >>= f).run := by
  unfold Passive
  rw [follows_run_bind]
  apply Program.Follows.mono _ hx
  intro _ result _
  cases result with
  | ok a => exact hf a
  | error e => trivial

theorem passive_compute (x : Except OperationError α) : Passive (compute x : Call F T R α).run :=
  trivial

theorem passive_pure (a : α) : Passive (pure a : Call F T R α).run := trivial

theorem passive_throw (e : OperationError) : Passive (throw e : Call F T R α).run := trivial

theorem passive_step (o : Op F T R) (ho : Op.passive o = true)
    (next : Reply o → Program (Op F T R) Reply α) (hnext : ∀ r, Passive (next r)) : Passive (.step o next) :=
  ⟨ho, fun r _ _ => hnext r⟩

theorem passive_lookup (table : ResponseTable F R A) (X requestHash : PyStr) :
    Passive (lookup table X requestHash : Call F T R (Option A)).run :=
  passive_bind (passive_step _ rfl _ fun _ => trivial) fun _ => passive_compute _

theorem passive_beforeCall (circuit : Breaker T) (X : PyStr) :
    Passive (Transports.beforeCall circuit X : Call F T R Unit).run :=
  passive_step _ rfl _ fun _ => trivial

theorem passive_recordSuccess (circuit : Breaker T) (X : PyStr) :
    Passive (Transports.recordSuccess circuit X : Call F T R Unit).run :=
  passive_step _ rfl _ fun _ => trivial

theorem passive_recordFailure (circuit : Breaker T) (X reasonCode : PyStr) :
    Passive (Transports.recordFailure circuit X reasonCode : Call F T R Unit).run :=
  passive_step _ rfl _ fun _ => trivial

theorem passive_openSession : Passive (openSession : Call F T R (HttpResult F)).run :=
  passive_step _ rfl _ fun _ => trivial

theorem passive_appendRecord (enabled : Bool) (make : Timestamp → PyVal F) :
    Passive (appendRecord enabled make : ModelCallM F T Unit).run := by
  cases enabled with
  | false => exact passive_pure ()
  | true =>
    exact passive_bind (passive_step _ rfl _ fun _ => trivial) fun _ =>
      passive_step _ rfl _ fun _ => trivial

end PassiveRules

/-! ## One operation, and what follows it -/

section Rules
variable {α β : Type} {X requestHash : PyStr} {response : R}
  {post : Progress R → Except OperationError β → Prop}

theorem follows_compute {Γ : Type} {P : Protocol (Op F T R) Reply Γ}
    {post : Γ → Except OperationError β → Prop} {g : Γ} {x : Except OperationError α}
    {f : α → Call F T R β} :
    (compute x >>= f).run.Follows P post g ↔ continuedBy P post f g x := by
  rw [follows_run_bind]
  rfl

/-- Passive operations leave an inert state as it is. -/
theorem follows_passive {x : Call F T R α} (hx : Passive x.run) (hg : g.inert = true)
    {f : α → Call F T R β} (hf : ∀ result, continuedBy (protocol admits valid) post f g result) :
    (x >>= f).run.Follows (protocol admits valid) post g := by
  rw [follows_run_bind]
  exact hx.follows hg hf

/-- What a circuit has admitted has a valid id. -/
theorem follows_beforeCall {circuit : Breaker T} {f : Unit → Call F T R β}
    (hf : ValidId X → (f ()).run.Follows (protocol admits valid) post .idle)
    (hpost : ∀ e, post .idle (.error e)) :
    (Transports.beforeCall circuit X >>= f).run.Follows (protocol admits valid) post .idle := by
  rw [follows_run_bind]
  refine ⟨rfl, ?_⟩
  rintro r _ ⟨hpossible, rfl⟩
  cases r with
  | error e => exact hpost e
  | ok u => exact hf (hpossible rfl)

theorem follows_reserve (hX : admits X) {f : Bool → Call F T R β} :
    (reserveTransaction X requestHash >>= f).run.Follows (protocol admits valid) post .idle ↔
      ∀ r, continuedBy (protocol admits valid) post f (afterReserve X requestHash r) r := by
  rw [follows_run_bind]
  constructor
  · intro h r
    exact h.2 r _ ⟨trivial, rfl⟩
  · intro h
    refine ⟨hX, ?_⟩
    rintro r _ ⟨_, rfl⟩
    exact h r

theorem follows_transmit {f : Unit → Call F T R β} :
    (transmit X >>= f).run.Follows (protocol admits valid) post (.reserved X requestHash) ↔
      (f ()).run.Follows (protocol admits valid) post (.sent X requestHash) := by
  rw [follows_run_bind]
  constructor
  · intro h
    exact h.2 () _ ⟨trivial, rfl⟩
  · intro h
    refine ⟨rfl, ?_⟩
    rintro _ _ ⟨_, rfl⟩
    exact h

theorem follows_receive {wire : Wire} {f : Received F wire → Call F T R β} :
    (receive wire X >>= f).run.Follows (protocol admits valid) post (.sent X requestHash) ↔
      ∀ r, continuedBy (protocol admits valid) post f (afterReceive valid X requestHash wire r) r := by
  rw [follows_run_bind]
  constructor
  · intro h r
    exact h.2 r _ ⟨trivial, rfl⟩
  · intro h
    refine ⟨rfl, ?_⟩
    rintro r _ ⟨_, rfl⟩
    exact h r

theorem follows_recordSuccess {circuit : Breaker T} {f : Unit → Call F T R β} :
    (Transports.recordSuccess circuit X >>= f).run.Follows (protocol admits valid) post
        (.paid X requestHash response) ↔
      ∀ r, continuedBy (protocol admits valid) post f (afterSuccess X requestHash response r) r := by
  rw [follows_run_bind]
  constructor
  · intro h r
    exact h.2 r _ ⟨trivial, rfl⟩
  · intro h
    refine ⟨rfl, ?_⟩
    rintro r _ ⟨_, rfl⟩
    exact h r

theorem follows_commit {f : ℕ → Call F T R β} :
    (commit X requestHash response >>= f).run.Follows (protocol admits valid) post
        (.settled X requestHash response) ↔
      ∀ r, continuedBy (protocol admits valid) post f (afterCommit X requestHash response r) r := by
  rw [follows_run_bind]
  constructor
  · intro h r
    exact h.2 r _ ⟨trivial, rfl⟩
  · intro h
    refine ⟨⟨rfl, rfl, rfl⟩, ?_⟩
    rintro r _ ⟨_, rfl⟩
    exact h r

/-- A committed response is what the lookup after it selects. -/
theorem follows_select {f : Option (OperationRow R T) → Call F T R β} :
    (select X >>= f).run.Follows (protocol admits valid) post (.committed X requestHash response) ↔
      ∀ row, Holds row requestHash response →
        (f (some row)).run.Follows (protocol admits valid) post (.committed X requestHash response) := by
  rw [follows_run_bind]
  constructor
  · intro h row hrow
    exact h.2 (.ok (some row)) _ ⟨⟨row, rfl, hrow⟩, rfl⟩
  · intro h
    refine ⟨rfl, ?_⟩
    rintro _ _ ⟨⟨row, rfl, hrow⟩, rfl⟩
    exact h row hrow

end Rules

/-! ## Reservations -/

/-- The operation is the caller's if no answer was found. -/
def Reserved (X requestHash : PyStr) (g : Progress R) : Except OperationError (Option A) → Prop
  | .ok none => g = .reserved X requestHash
  | _ => g = .idle

theorem reserve_follows (table : ResponseTable F R A) (X requestHash : PyStr) (hX : admits X) :
    (reserve table X requestHash : Call F T R (Option A)).run.Follows (protocol admits valid)
      (Reserved X requestHash) .idle := by
  rw [reserve, follows_reserve hX]
  intro r
  cases r with
  | error e => rfl
  | ok reserved =>
    cases reserved with
    | true => rfl
    | false =>
      apply follows_passive (passive_lookup table X requestHash) rfl
      intro cached
      cases cached with
      | error e => rfl
      | ok cached =>
        cases cached with
        | none => rfl
        | some answer => rfl

/-! ## Retrieval -/

section Retrieval
variable [PyFloat F]

/-- A list for a search, a dict for a content read, and finite JSON. -/
def retrievalValid (endpoint : Endpoint F) : Validity F (RenderedJson F)
  | .client, response =>
    if endpoint.accepts response then (renderJson response).toOption else none
  | _, _ => none

/-- What the body of the `try` came to: an answer found, or a response and whether it is valid. -/
def Fetched (X requestHash : PyStr) (g : Progress (RenderedJson F)) :
    Except OperationError (PyVal F ⊕ PyVal F) → Prop
  | .ok (.inr response) =>
    match renderJson response with
    | .ok rendered => g = .paid X requestHash rendered
    | .error _ => g = .invalid
  | _ => g.inert = true

variable (circuit : Breaker T) (endpoint : Endpoint F) (X requestHash : PyStr)

theorem fetch_follows (hX : ValidId X) :
    (fetch circuit endpoint X requestHash).run.Follows (protocol ValidId (retrievalValid endpoint))
      (Fetched X requestHash) .idle := by
  rw [fetch, follows_run_bind]
  apply (reserve_follows retrievalTable X requestHash hX).mono
  intro g raced hraced
  cases raced with
  | error e =>
    rw [show g = .idle from hraced]
    rfl
  | ok raced =>
    cases raced with
    | some answer =>
      rw [show g = .idle from hraced, continuedBy_ok]
      apply follows_passive (passive_recordSuccess circuit X) rfl
      intro recorded
      cases recorded with
      | error e => rfl
      | ok u => rfl
    | none =>
      rw [show g = .reserved X requestHash from hraced, continuedBy_ok]
      apply follows_transmit.mpr
      apply follows_receive.mpr
      intro r
      cases r with
      | error e => rfl
      | ok response =>
        rw [continuedBy_ok]
        by_cases haccepts : endpoint.accepts response = true
        · rw [if_pos haccepts, follows_run_pure]
          simp only [afterReceive, retrievalValid, if_pos haccepts, Fetched]
          cases renderJson response with
          | ok rendered => rfl
          | error e => rfl
        · rw [if_neg haccepts, follows_run_throw]
          simp only [afterReceive, retrievalValid, if_neg haccepts, Fetched]
          rfl

omit [PyFloat F] in
/-- The `except` clause never returns. -/
theorem onRetrievalFailure_follows {α : Type} (e : OperationError) (hg : g.inert = true)
    {post : Progress R → Except OperationError α → Prop} (hpost : ∀ e, post g (.error e)) :
    (onRetrievalFailure circuit endpoint X e : Call F T R α).run.Follows (protocol admits valid) post
      g := by
  apply follows_passive (passive_recordFailure circuit X _) hg
  intro recorded
  cases recorded with
  | error e' => exact hpost e'
  | ok u =>
    by_cases he : e.errorClass = .indeterminate
    · rw [continuedBy_ok, if_pos he]
      exact hpost e
    · rw [continuedBy_ok, if_neg he]
      exact hpost _

/-- A valid response is committed, or found to have lost its row. -/
theorem completeRetrieval_follows {response : PyVal F} {rendered : RenderedJson F}
    (h : renderJson response = .ok rendered) :
    (completeRetrieval X requestHash response : Call F T _ _).run.Follows
      (protocol ValidId (retrievalValid endpoint)) (Delivers retrievalTable)
      (.settled X requestHash rendered) := by
  rw [completeRetrieval, h, follows_compute]
  apply follows_commit.mpr
  intro r
  cases r with
  | error e => trivial
  | ok n =>
    rw [continuedBy_ok, afterCommit]
    by_cases hn : n = 1
    · rw [if_pos hn, if_pos hn]
      rfl
    · rw [if_neg hn, if_neg hn]
      trivial

/-- `search` and `content` from the request hash on. -/
theorem retrieve_follows :
    (retrieve circuit endpoint X requestHash).run.Follows (protocol ValidId (retrievalValid endpoint))
      (Delivers retrievalTable) .idle := by
  rw [retrieve]
  apply follows_passive (passive_lookup retrievalTable X requestHash) rfl
  intro cached
  cases cached with
  | error e => trivial
  | ok cached =>
    cases cached with
    | some answer => trivial
    | none =>
      apply follows_beforeCall
      · intro hX
        rw [follows_run_bind, follows_run_tryCatch]
        apply (fetch_follows circuit endpoint X requestHash hX).mono
        intro g outcome houtcome
        cases outcome with
        | error e =>
          apply onRetrievalFailure_follows circuit endpoint X e houtcome
          intro e'
          exact delivers_inert houtcome _
        | ok outcome =>
          cases outcome with
          | inl answer => exact delivers_inert houtcome _
          | inr response =>
            cases hrender : renderJson response with
            | ok rendered =>
              have hg : g = .paid X requestHash rendered := by
                simpa only [Fetched, hrender] using houtcome
              rw [hg]
              apply follows_recordSuccess.mpr
              intro recorded
              cases recorded with
              | error e => trivial
              | ok u => exact completeRetrieval_follows endpoint X requestHash hrender
            | error e =>
              have hg : g = .invalid := by simpa only [Fetched, hrender] using houtcome
              rw [hg]
              apply follows_passive (passive_recordSuccess circuit X) rfl
              intro recorded
              cases recorded with
              | error e' => trivial
              | ok u =>
                rw [continuedBy_ok, completeRetrieval, hrender]
                trivial
      · intro e
        trivial

end Retrieval

/-! ## Model calls -/

section Model
variable [PyFloat F] {table : ResponseTable F ModelResponse ModelResponse}
  (circuit : Breaker T) (X requestHash : PyStr)

omit [PyFloat F] in
/-- The `except` clauses never return. -/
theorem onModelFailure_follows {α : Type} {preserve : OperationError → ModelCallM F T Unit}
    (hpreserve : ∀ e, Passive (preserve e).run) {valid : Validity F ModelResponse}
    {g : Progress ModelResponse} (e : OperationError) (hg : g.inert = true)
    {post : Progress ModelResponse → Except OperationError α → Prop}
    (hpost : ∀ e, post g (.error e)) :
    (onModelFailure circuit X preserve e : ModelCallM F T α).run.Follows (protocol admits valid) post
      g := by
  rw [onModelFailure]
  by_cases he : e.errorClass = .circuitOpen
  · rw [if_pos he]
    exact hpost e
  · rw [if_neg he]
    apply follows_passive (hpreserve e) hg
    intro preserved
    cases preserved with
    | error e' => exact hpost e'
    | ok u =>
      apply follows_passive (passive_recordFailure circuit X _) hg
      intro recorded
      cases recorded with
      | error e' => exact hpost e'
      | ok u => exact hpost e

theorem reserveModel_follows {valid : Validity F ModelResponse} (hX : admits X) :
    (reserveModel circuit X requestHash : ModelCallM F T _).run.Follows (protocol admits valid)
      (Reserved X requestHash) .idle := by
  rw [reserveModel, follows_run_bind]
  apply (reserve_follows modelTable X requestHash hX).mono
  intro g raced hraced
  cases raced with
  | error e => exact hraced
  | ok raced =>
    cases raced with
    | none => exact hraced
    | some answer =>
      rw [show g = .idle from hraced, continuedBy_ok]
      apply follows_passive (passive_recordSuccess circuit X) rfl
      intro recorded
      cases recorded with
      | error e => rfl
      | ok u => rfl

theorem admitRequest_valid {H : Hasher} {request : ModelRequest F} {requestHash : PyStr}
    (h : admitRequest H request = .ok requestHash) : ValidId request.operationId := by
  unfold admitRequest at h
  split_ifs at h with hid
  exact hid

/-- The lookup after a commit finds the committed response. -/
theorem lookup_committed_follows {valid : Validity F ModelResponse} {response : ModelResponse}
    {post : Progress ModelResponse → Except OperationError (Option ModelResponse) → Prop}
    (hpost : post (.committed X requestHash response) (.ok (some response))) :
    (lookup (modelTable : ResponseTable F ModelResponse ModelResponse) X requestHash :
      ModelCallM F T _).run.Follows (protocol admits valid) post
      (.committed X requestHash response) := by
  rw [lookup]
  apply follows_select.mpr
  rintro row ⟨hhash, hstatus, hresponse⟩
  have hread : readRow (modelTable : ResponseTable F ModelResponse ModelResponse) requestHash
      (some row) = .ok (some response) := by
    simp [readRow, hhash, hstatus, hresponse, modelTable]
  rw [hread]
  exact hpost

/-- The response handed on after a commit is the one committed, unless its row was lost. -/
def Committed (X requestHash : PyStr) (response : ModelResponse) (g : Progress ModelResponse)
    (result : Except OperationError ModelResponse) : Prop :=
  g.inert = true ∨ g = .committed X requestHash response ∧ result = .ok response

theorem commitModel_follows {valid : Validity F ModelResponse} {request : ModelRequest F}
    {response : ModelResponse} :
    (commitModel request requestHash response : ModelCallM F T _).run.Follows (protocol admits valid)
      (Committed request.operationId requestHash response)
      (.settled request.operationId requestHash response) := by
  rw [commitModel]
  apply follows_commit.mpr
  intro r
  cases r with
  | error e => exact .inl rfl
  | ok n =>
    rw [continuedBy_ok, afterCommit, follows_run_bind]
    by_cases hn : n = 1
    · rw [if_pos hn]
      apply lookup_committed_follows
      exact .inr ⟨rfl, rfl⟩
    · rw [if_neg hn]
      apply (passive_lookup modelTable request.operationId requestHash).follows rfl
      intro committed
      cases committed with
      | error e => exact .inl rfl
      | ok committed =>
        cases committed with
        | none => exact .inl rfl
        | some answer => exact .inl rfl

/-! ### OpenCode -/

section OpenCode
variable (H : Hasher) (B : Builtins F) (t : OpenCodeTransport T)

/-- A message that decodes. -/
def openCodeValid : Validity F ModelResponse
  | .message, result => (decodeMessage B t.providerId t.modelId result).toOption
  | _, _ => none

/-- What the body of OpenCode's `try` came to. -/
def Answered (X requestHash : PyStr) (g : Progress ModelResponse) :
    Except OperationError (ModelResponse ⊕ ModelResponse) → Prop
  | .ok (.inr response) => g = .paid X requestHash response
  | _ => g.inert = true

theorem fetchOpenCode_follows (hX : ValidId X) :
    (fetchOpenCode B t X requestHash).run.Follows (protocol ValidId (openCodeValid B t))
      (Answered X requestHash) .idle := by
  rw [fetchOpenCode, follows_run_bind]
  apply (reserveModel_follows t.circuit X requestHash hX).mono
  intro g raced hraced
  cases raced with
  | error e =>
    rw [show g = .idle from hraced]
    rfl
  | ok raced =>
    cases raced with
    | some answer =>
      rw [show g = .idle from hraced]
      rfl
    | none =>
      rw [show g = .reserved X requestHash from hraced, continuedBy_ok, follows_run_bind,
        postMessage]
      apply follows_transmit.mpr
      apply follows_receive.mpr
      intro r
      cases r with
      | error e => rfl
      | ok result =>
        rw [continuedBy_ok]
        change continuedBy _ _ _ (afterReceive _ X requestHash .message (.ok result))
          (decodeMessage B t.providerId t.modelId result)
        simp only [afterReceive, openCodeValid]
        cases decodeMessage B t.providerId t.modelId result with
        | error e => rfl
        | ok response => rfl

theorem completeOpenCode_follows (request : ModelRequest F) :
    (completeOpenCode H B t request).run.Follows (protocol ValidId (openCodeValid B t))
      (Delivers (modelTable : ResponseTable F ModelResponse ModelResponse)) .idle := by
  rw [completeOpenCode, follows_compute]
  cases hadmit : admitRequest H request with
  | error e => trivial
  | ok requestHash =>
    have hX := admitRequest_valid hadmit
    apply follows_passive (passive_lookup modelTable request.operationId requestHash) rfl
    intro cached
    cases cached with
    | error e => trivial
    | ok cached =>
      cases cached with
      | some answer => trivial
      | none =>
        apply follows_passive passive_openSession rfl
        intro session
        cases session with
        | error e => trivial
        | ok session =>
          rw [continuedBy_ok]
          by_cases hcreated : sessionCreated session = true
          · rw [if_pos hcreated]
            apply follows_passive (passive_beforeCall t.circuit request.operationId) rfl
            intro admitted
            cases admitted with
            | error e => trivial
            | ok u =>
              rw [continuedBy_ok, follows_run_bind, follows_run_tryCatch]
              apply (fetchOpenCode_follows request.operationId requestHash B t hX).mono
              intro g outcome houtcome
              cases outcome with
              | error e =>
                apply onModelFailure_follows t.circuit request.operationId
                  (fun _ => passive_pure ()) e houtcome
                intro e'
                exact delivers_inert houtcome _
              | ok outcome =>
                cases outcome with
                | inl answer => exact delivers_inert houtcome _
                | inr response =>
                  rw [show g = .paid request.operationId requestHash response from houtcome]
                  apply follows_recordSuccess.mpr
                  intro recorded
                  cases recorded with
                  | error e => trivial
                  | ok u =>
                    apply (commitModel_follows requestHash).mono
                    rintro g result (hinert | ⟨rfl, rfl⟩)
                    · exact delivers_inert hinert _
                    · rfl
          · rw [if_neg hcreated]
            trivial

end OpenCode

/-! ### Claude Code -/

section ClaudeCode
variable (H : Hasher) (B : Builtins F) (t : ClaudeCodeTransport T) (request : ModelRequest F)

/-- The response of a finished process, with its accounting. -/
def claudeResult (result : ProcessResult) :
    Except OperationError (ModelResponse × List (PyStr × PyVal F)) :=
  match readEnvelope t.maxResponseBytes result with
  | .ok payload => decodeEnvelope B t.model payload
  | .error e => .error e

/-- An envelope that decodes. -/
def claudeValid : Validity F ModelResponse
  | .process, result => (claudeResult B t result).toOption.map Prod.fst
  | _, _ => none

/-- Where an envelope takes the call. -/
def Enveloped (X requestHash : PyStr) (g : Progress ModelResponse) :
    Except OperationError (List (PyKey F × PyVal F)) → Prop
  | .ok payload =>
    match decodeEnvelope B t.model payload with
    | .ok (response, _) => g = .paid X requestHash response
    | .error _ => g = .invalid
  | .error _ => g.inert = true

theorem invoke_follows :
    (invoke t X : ModelCallM F T _).run.Follows (protocol ValidId (claudeValid B t))
      (Enveloped B t X requestHash) (.reserved X requestHash) := by
  rw [invoke]
  apply follows_transmit.mpr
  apply follows_receive.mpr
  intro r
  cases r with
  | error e => rfl
  | ok result =>
    rw [continuedBy_ok]
    change Enveloped B t X requestHash (afterReceive _ X requestHash .process (.ok result))
      (readEnvelope t.maxResponseBytes result)
    simp only [afterReceive, claudeValid, claudeResult]
    cases (readEnvelope t.maxResponseBytes result : Except _ (List (PyKey F × PyVal F))) with
    | error e => rfl
    | ok payload =>
      simp only [Enveloped]
      cases decodeEnvelope B t.model payload with
      | error e => rfl
      | ok answer => rfl

/-- A response decoded is a response paid. -/
def Asked (X requestHash : PyStr) (g : Progress ModelResponse) :
    Except OperationError (ModelResponse × List (PyStr × PyVal F)) → Prop
  | .ok (response, _) => g = .paid X requestHash response
  | .error _ => g.inert = true

omit [PyFloat F] in
theorem asked_error {g : Progress ModelResponse} (hg : g.inert = true) (e : OperationError) :
    Asked X requestHash g (.error e : Except _ (ModelResponse × List (PyStr × PyVal F))) := hg

theorem askClaude_follows :
    (askClaude B t request requestHash).run.Follows (protocol ValidId (claudeValid B t))
      (Asked request.operationId requestHash) (.reserved request.operationId requestHash) := by
  have hpreserve : ∀ payload e,
      Passive (preserveEnvelope t request requestHash payload e).run :=
    fun payload e => passive_appendRecord _ _
  rw [askClaude, follows_run_bind, follows_run_tryCatch]
  apply (invoke_follows request.operationId requestHash B t).mono
  intro g enveloped henveloped
  cases enveloped with
  | error e =>
    rw [handledBy_error]
    apply onModelFailure_follows t.circuit request.operationId (hpreserve none) e henveloped
    intro e'
    exact henveloped
  | ok payload =>
    rw [handledBy_ok, continuedBy_ok, follows_run_tryCatch]
    change handledBy _ _ _ g (decodeEnvelope B t.model payload)
    simp only [Enveloped] at henveloped
    cases hdecode : decodeEnvelope B t.model payload with
    | ok answer =>
      rw [hdecode] at henveloped
      exact henveloped
    | error e =>
      rw [hdecode] at henveloped
      have hinert : g.inert = true := by
        rw [henveloped]
        rfl
      apply onModelFailure_follows t.circuit request.operationId (hpreserve (some payload)) e
        hinert
      intro e'
      exact hinert

omit [PyFloat F] in
/-- A record is written, or the caller never sees the response. -/
theorem appendRecord_committed_follows {α : Type} {valid : Validity F ModelResponse}
    {response : ModelResponse} (enabled : Bool) (make : Timestamp → PyVal F)
    {f : Unit → ModelCallM F T α}
    {post : Progress ModelResponse → Except OperationError α → Prop}
    (hok : (f ()).run.Follows (protocol admits valid) post (.committed X requestHash response))
    (hlost : ∀ e, post .lost (.error e)) :
    (appendRecord enabled make >>= f).run.Follows (protocol admits valid) post
      (.committed X requestHash response) := by
  cases enabled with
  | false => exact hok
  | true =>
    rw [appendRecord, if_pos rfl, follows_run_bind, follows_run_bind]
    refine ⟨trivial, ?_⟩
    rintro now _ ⟨_, rfl⟩
    refine ⟨trivial, ?_⟩
    rintro r _ ⟨_, rfl⟩
    cases (show Except OperationError Unit from r) with
    | error e => exact hlost e
    | ok u => exact hok

theorem settleClaude_follows {valid : Validity F ModelResponse} {response : ModelResponse}
    (accounting : List (PyStr × PyVal F)) :
    (settleClaude H t request requestHash response accounting).run.Follows (protocol admits valid)
      (Delivers (modelTable : ResponseTable F ModelResponse ModelResponse))
      (.settled request.operationId requestHash response) := by
  rw [settleClaude, follows_run_bind]
  apply (commitModel_follows requestHash).mono
  rintro g result (hinert | ⟨rfl, rfl⟩)
  · cases result with
    | error e => exact delivers_inert hinert _
    | ok committed =>
      rw [continuedBy_ok]
      apply follows_passive (passive_appendRecord _ _) hinert
      intro logged
      cases logged with
      | error e => exact delivers_inert hinert _
      | ok u =>
        apply follows_passive (passive_appendRecord _ _) hinert
        intro logged
        cases logged with
        | error e => exact delivers_inert hinert _
        | ok u => exact delivers_inert hinert _
  · rw [continuedBy_ok]
    apply appendRecord_committed_follows
    · apply appendRecord_committed_follows
      · rfl
      · intro e
        trivial
    · intro e
      trivial

theorem completeClaudeCode_follows :
    (completeClaudeCode H B t request).run.Follows (protocol ValidId (claudeValid B t))
      (Delivers (modelTable : ResponseTable F ModelResponse ModelResponse)) .idle := by
  rw [completeClaudeCode, follows_compute]
  cases hadmit : admitRequest H request with
  | error e => trivial
  | ok requestHash =>
    have hX := admitRequest_valid hadmit
    apply follows_passive (passive_lookup modelTable request.operationId requestHash) rfl
    intro cached
    cases cached with
    | error e => trivial
    | ok cached =>
      cases cached with
      | some answer =>
        apply follows_passive (passive_appendRecord _ _) rfl
        intro logged
        cases logged with
        | error e => trivial
        | ok u => trivial
      | none =>
        apply follows_passive (passive_beforeCall t.circuit request.operationId) rfl
        intro admitted
        cases admitted with
        | error e => trivial
        | ok u =>
          rw [continuedBy_ok, follows_run_bind, follows_run_tryCatch]
          apply (reserveModel_follows t.circuit request.operationId requestHash hX).mono
          intro g raced hraced
          cases raced with
          | error e =>
            have hinert : g.inert = true := by
              rw [show g = .idle from hraced]
              rfl
            apply onModelFailure_follows t.circuit request.operationId
              (fun _ => passive_pure ()) e hinert
            intro e'
            exact delivers_inert hinert _
          | ok raced =>
            cases raced with
            | some answer =>
              rw [show g = .idle from hraced]
              trivial
            | none =>
              rw [show g = .reserved request.operationId requestHash from hraced, handledBy_ok,
                continuedBy_ok, follows_run_bind]
              apply (askClaude_follows requestHash B t request).mono
              intro g asked hasked
              cases asked with
              | error e => exact delivers_inert hasked _
              | ok answer =>
                rw [show g = .paid request.operationId requestHash answer.1 from hasked,
                  continuedBy_ok]
                apply follows_recordSuccess.mpr
                intro recorded
                cases recorded with
                | error e => trivial
                | ok u => exact settleClaude_follows requestHash H t request answer.2

end ClaudeCode

end Model

end OperationProtocol
