import VeriMat.CircuitBreakerSafety
import VeriMat.OperationRuns

/-! # Paid responses

The transports record the success of a call before they commit its response, and the circuit
refuses the success while it is open or half open for another operation: a response that was
paid for is then neither stored nor returned. In the runs in which no circuit refuses, the
response can be stored and the audit records can be written, no paid response is lost. -/
namespace PaidResponses

open PyText JsonText PyValue PyDict Transaction CircuitBreaker CircuitBreakerSafety OperationStore
  AtomicProgram Transports OperationSystem OperationProtocol OperationRuns

variable {F T R A C : Type}

/-! ## What was paid for -/

section Logs
variable [LinearOrder T] [Zero T]

/-- The process has received this valid response for `X`. -/
def Paid (valid : Validity F R) (log : List (Entry (Op F T R) Reply)) (X : PyStr) (response : R) :
    Prop :=
  ∃ wire received, (⟨.receive wire X, Except.ok received⟩ : Entry (Op F T R) Reply) ∈ log ∧
    valid wire received = some response

/-- The row of `X` was not pending when the response was to be committed. -/
def Superseded (log : List (Entry (Op F T R) Reply)) (X : PyStr) (response : R) : Prop :=
  ∃ requestHash,
    (⟨.commit X requestHash response, Except.ok 0⟩ : Entry (Op F T R) Reply) ∈ log

variable {valid : Validity F R} {log : List (Entry (Op F T R) Reply)} {X : PyStr} {response : R}

theorem Paid.append (h : Paid valid log X response) (e : Entry (Op F T R) Reply) :
    Paid valid (log ++ [e]) X response := by
  obtain ⟨wire, received, hmem, hvalid⟩ := h
  exact ⟨wire, received, List.mem_append_left _ hmem, hvalid⟩

/-- Only receiving pays. -/
theorem paid_append_of_passive {o : Op F T R} {r : Reply o}
    (ho : ∀ wire Y, o ≠ .receive wire Y) (h : Paid valid (log ++ [⟨o, r⟩]) X response) :
    Paid valid log X response := by
  obtain ⟨wire, received, hmem, hvalid⟩ := h
  rcases List.mem_append.mp hmem with hmem | hmem
  · exact ⟨wire, received, hmem, hvalid⟩
  · obtain ⟨rfl, _⟩ := Sigma.mk.inj (List.mem_singleton.mp hmem)
    exact absurd rfl (ho wire X)

theorem paid_append_receive {wire : Wire} {Y : PyStr}
    {r : Except OperationError (Received F wire)}
    (h : Paid valid (log ++ [⟨.receive wire Y, r⟩]) X response) :
    Paid valid log X response ∨
      X = Y ∧ ∃ received, r = .ok received ∧ valid wire received = some response := by
  obtain ⟨wire', received, hmem, hvalid⟩ := h
  rcases List.mem_append.mp hmem with hmem | hmem
  · exact .inl ⟨wire', received, hmem, hvalid⟩
  · obtain ⟨ho, hr⟩ := Sigma.mk.inj (List.mem_singleton.mp hmem)
    obtain ⟨rfl, rfl⟩ := Op.receive.inj ho
    exact .inr ⟨rfl, received, (eq_of_heq hr).symm, hvalid⟩

/-- The one response the process has been given. -/
def OnlyPaid (valid : Validity F R) (log : List (Entry (Op F T R) Reply)) (X : PyStr)
    (response : R) : Prop :=
  Paid valid log X response ∧ ∀ Y r, Paid valid log Y r → Y = X ∧ r = response

/-- What the log says was paid for, by how far the call has come. -/
def Accounted (table : ResponseTable F R A) (valid : Validity F R)
    (log : List (Entry (Op F T R) Reply)) : Progress R → Prop
  | .paid X _ response | .committed X _ response => OnlyPaid valid log X response
  | .settled X _ response =>
    OnlyPaid valid log X response ∧ table.storable response = true
  | .stranded => ∀ X response, Paid valid log X response → Superseded log X response
  | .lost => False
  | _ => ∀ X response, ¬ Paid valid log X response

theorem OnlyPaid.append_passive (h : OnlyPaid valid log X response) {o : Op F T R} (r : Reply o)
    (ho : ∀ wire Y, o ≠ .receive wire Y) : OnlyPaid valid (log ++ [⟨o, r⟩]) X response :=
  ⟨h.1.append _, fun Y r' hpaid => h.2 Y r' (paid_append_of_passive ho hpaid)⟩

/-- The account of a call that receives nothing and stays where it is. -/
theorem Accounted.append_passive {table : ResponseTable F R A} {g : Progress R}
    (h : Accounted table valid log g) {o : Op F T R} (r : Reply o)
    (ho : ∀ wire Y, o ≠ .receive wire Y) : Accounted table valid (log ++ [⟨o, r⟩]) g := by
  cases g with
  | paid X requestHash response => exact OnlyPaid.append_passive h r ho
  | committed X requestHash response => exact OnlyPaid.append_passive h r ho
  | settled X requestHash response => exact ⟨h.1.append_passive r ho, h.2⟩
  | stranded =>
    intro X response hpaid
    obtain ⟨requestHash, hmem⟩ := h X response (paid_append_of_passive ho hpaid)
    exact ⟨requestHash, List.mem_append_left _ hmem⟩
  | lost => exact h
  | _ => exact fun X response hpaid => h X response (paid_append_of_passive ho hpaid)

end Logs

/-! ## The guard -/

section Guard
variable [LinearOrder T] [Zero T] [PyFloat F]

/-- The circuit takes the success of `X`: it is closed, or half open with `X` as its probe. -/
def Takes (db : OperationDb R T) (circuit : Breaker T) (X : PyStr) : Prop :=
  ∃ row, db.circuits.rows.get circuit.circuitId = some row ∧ row.state ≠ .open ∧
    (row.state = .halfOpen → row.probeOperationId = some X)

/-- An operation of a process that holds a paid response finds a circuit that takes its success,
and a response that sqlite3 can store, or writes a record that can be encoded. -/
def UnhinderedOp (table : ResponseTable F R A) (valid : Validity F R) (db : OperationDb R T)
    (log : List (Entry (Op F T R) Reply)) : Op F T R → Prop
  | .recordSuccess circuit X => ∀ response, Paid valid log X response →
    Takes db circuit X ∧ table.storable response = true
  | .append record => (∃ X response, Paid valid log X response) → appended record = .ok ()
  | _ => True

def Unhindered (table : ResponseTable F R A) (valid : C → Validity F R) (db : OperationDb R T)
    (p : Process C (Op F T R) Reply (Except OperationError A)) : Prop :=
  match p.program with
  | .step o _ => UnhinderedOp table (valid p.call) db p.log o
  | .done _ => True

variable [Sub T] {table : ResponseTable F R A} {db db' : OperationDb R T} {X requestHash : PyStr}

theorem perform_recordSuccess {circuit : Breaker T} (htakes : Takes db circuit X)
    (hX : ModelTransports.ValidId X) (hencodes : (encode X).isSome = true)
    {r : Except OperationError Unit}
    (h : perform table db (.recordSuccess circuit X : Op F T R) r db') : r = .ok () := by
  obtain ⟨row, hrow, hopen, hprobe⟩ := htakes
  obtain ⟨now, reply, circuits, houtcome, hreply, _⟩ := h
  obtain ⟨s', haccepted⟩ := recordSuccess_accepted hrow hX hencodes hopen hprobe now
  rw [Outcome, haccepted] at houtcome
  rw [hreply, houtcome.1]
  rfl

/-- A commit that sqlite3 takes writes a pending row, or finds none. -/
theorem perform_commit_storable {response : R} (hstorable : table.storable response = true)
    (hX : (encode X).isSome = true) (hhash : (encode requestHash).isSome = true)
    {r : Except OperationError ℕ}
    (h : perform table db (.commit X requestHash response : Op F T R) r db') :
    r = .ok 1 ∨ r = .ok 0 ∧ ∀ row, db.row X = some row → ¬ Matches row requestHash .pending := by
  obtain ⟨now, h⟩ := h
  cases r with
  | ok n =>
    rcases commitResponse_eq_ok (outcome_ok.mp h) with ⟨rfl, _, _⟩ | ⟨rfl, _, hnone⟩
    · exact .inl rfl
    · exact .inr ⟨rfl, hnone⟩
  | error e =>
    have hraised := outcome_error.mp h
    have hbinds : ∀ {s : PyStr}, (encode s).isSome = true → ¬ (encode s).isNone = true := by
      intro s hs
      rw [← Option.not_isSome, hs]
      exact Bool.false_ne_true
    simp only [commitResponse, bind_eq_error, OperationStore.bindText, raiseIf, hstorable, hbinds hX,
      hbinds hhash] at hraised
    rcases hraised with hraised | ⟨_, _, _, hraised | ⟨_, _, _, hraised | ⟨_, _, _, hraised⟩⟩⟩
    · cases hraised
    · cases hraised
    · cases hraised
    · exact absurd hraised (infallible_updateOperation _ _ _ _ _ _ _)

end Guard

/-! ## What a process knows -/

/-- The operation that a process holds has a valid id. -/
def Admitted : Progress R → Prop
  | .reserved X _ | .sent X _ | .paid X _ _ => ModelTransports.ValidId X
  | _ => True

/-- A reservation either succeeds or changes nothing. -/
theorem afterReserve_of {p : Progress R → Prop} {X requestHash : PyStr}
    (hreserved : p (.reserved X requestHash)) (hidle : p .idle)
    (r : Except OperationError Bool) : p (afterReserve X requestHash r) := by
  cases r with
  | error e => exact hidle
  | ok reserved =>
    cases reserved with
    | true => exact hreserved
    | false => exact hidle

section Steps
variable [PyFloat F] [LinearOrder T] [Zero T] [Sub T] {table : ResponseTable F R A}
  {valid : Validity F R} {db db' : OperationDb R T} {log : List (Entry (Op F T R) Reply)}
  {g g' : Progress R} {o : Op F T R} {r : Reply o}

structure Knows (table : ResponseTable F R A) (valid : Validity F R) (db : OperationDb R T)
    (log : List (Entry (Op F T R) Reply)) (g : Progress R) : Prop where
  row : KnowsRow db g
  admitted : Admitted g
  accounted : Accounted table valid log g

omit [PyFloat F] [Sub T] in
theorem Admitted.move (h : Admitted g)
    (hallows : g.allows ModelTransports.ValidId o) (hmove : Move valid g o r g') : Admitted g' := by
  cases hmove with
  | passive _ _ hg ho => exact h
  | reserve X requestHash =>
    exact afterReserve_of (p := Admitted) hallows trivial _
  | transmit X requestHash => exact h
  | receive X requestHash wire =>
    unfold afterReceive
    split
    · split
      · exact h
      · trivial
    · trivial
  | recordSuccess circuit X requestHash response =>
    unfold afterSuccess
    split <;> trivial
  | commit X requestHash response =>
    unfold afterCommit
    split
    · split <;> trivial
    · trivial
  | select X requestHash response => trivial
  | utcnow X requestHash response => trivial
  | append X requestHash response record =>
    unfold afterAppend
    split <;> trivial

/-- A move of an unhindered process keeps the account. -/
theorem Accounted.move (h : Accounted table valid log g) (hrow : KnowsRow db g)
    (hadmitted : Admitted g) (hmove : Move valid g o r g')
    (hguard : UnhinderedOp table valid db log o) (hperform : perform table db o r db') :
    Accounted table valid (log ++ [⟨o, r⟩]) g' := by
  cases hmove with
  | passive g o r hg ho =>
    apply h.append_passive
    rintro wire Y rfl
    cases ho
  | reserve X requestHash =>
    refine afterReserve_of (p := Accounted table valid _) ?_ ?_ _
    · exact Accounted.append_passive h _ (by rintro wire Y ⟨⟩)
    · exact Accounted.append_passive h _ (by rintro wire Y ⟨⟩)
  | transmit X requestHash => exact Accounted.append_passive h _ (by rintro wire Y ⟨⟩)
  | receive X requestHash wire =>
    -- The first valid response is the only one.
    unfold afterReceive
    split
    · rename_i received
      split
      · rename_i response hvalid
        refine ⟨⟨wire, received, by simp, hvalid⟩, ?_⟩
        intro Y response' hpaid
        rcases paid_append_receive hpaid with hpaid | ⟨rfl, _, hreceived, hvalid'⟩
        · exact absurd hpaid (h Y response')
        · rw [← Except.ok.inj hreceived, hvalid, Option.some.injEq] at hvalid'
          exact ⟨rfl, hvalid'.symm⟩
      · rename_i hvalid
        intro Y response' hpaid
        rcases paid_append_receive hpaid with hpaid | ⟨rfl, _, hreceived, hvalid'⟩
        · exact h Y response' hpaid
        · rw [← Except.ok.inj hreceived, hvalid] at hvalid'
          cases hvalid'
    · intro Y response' hpaid
      rcases paid_append_receive hpaid with hpaid | ⟨rfl, _, hreceived, _⟩
      · exact h Y response' hpaid
      · cases hreceived
  | recordSuccess circuit X requestHash response =>
    obtain ⟨htakes, hstorable⟩ := hguard response h.1
    obtain rfl := perform_recordSuccess htakes hadmitted hrow.1 hperform
    exact ⟨h.append_passive _ (by rintro wire Y ⟨⟩), hstorable⟩
  | commit X requestHash response =>
    rcases perform_commit_storable h.2 hrow.1 hrow.2 hperform with rfl | ⟨rfl, _⟩
    · exact h.1.append_passive _ (by rintro wire Y ⟨⟩)
    · intro Y response' hpaid
      obtain ⟨rfl, rfl⟩ := h.1.2 Y response' (paid_append_of_passive (by rintro wire Y ⟨⟩) hpaid)
      exact ⟨requestHash, by simp⟩
  | select X requestHash response => exact OnlyPaid.append_passive h _ (by rintro wire Y ⟨⟩)
  | utcnow X requestHash response => exact OnlyPaid.append_passive h _ (by rintro wire Y ⟨⟩)
  | append X requestHash response record =>
    have hwritten := hperform.1.trans (hguard ⟨X, response, h.1⟩)
    rw [hwritten]
    exact OnlyPaid.append_passive h _ (by rintro wire Y ⟨⟩)

end Steps

/-! ## Every run -/

section Runs
variable [PyFloat F] [LinearOrder T] [Zero T] [Sub T] {table : ResponseTable F R A}
  {valid : C → Validity F R}
  {M : Machine (OperationDb R T) C (Op F T R) Reply (Except OperationError A)}

/-- A process that was given a valid response and has ended found its row no longer pending, or
has returned the response and the row is completed with it. -/
def NoResponseLost (table : ResponseTable F R A) (valid : C → Validity F R)
    (M : Machine (OperationDb R T) C (Op F T R) Reply (Except OperationError A))
    (G : OperationDb R T → Process C (Op F T R) Reply (Except OperationError A) → Prop) : Prop :=
  ∀ circuits sys, Reaches M G (System.idle (freshDb circuits)) sys → ∀ p ∈ sys.processes,
    ∀ X response, Paid (valid p.call) p.log X response → ∀ result, p.program = .done result →
      Superseded p.log X response ∨ result = .ok (table.read response) ∧
        ∃ row, sys.state.row X = some row ∧ row.status = .completed ∧ row.response = some response

theorem knows_tracking (hM : Conforms table ModelTransports.ValidId valid M) :
    Tracking M (Unhindered table valid) (fun _ => True)
      (fun c => protocol ModelTransports.ValidId (valid c))
      (fun db c log g => Knows table (valid c) db log g) (fun _ => Delivers table) where
  start db c _ := by
    refine ⟨.idle, ⟨trivial, trivial, ?_⟩, hM.follows c⟩
    rintro X response ⟨wire, received, hmem, _⟩
    cases hmem
  act db c log g o next r db' _ hknows hallows hguard hperform := by
    have hstep := hM.perform db o r db' hperform
    have hmove : Move (valid c) g o r (g.next (valid c) o r) := move_of_allows hallows r
    exact ⟨g.next (valid c) o r, ⟨hknows.row.possible hallows hstep, rfl⟩,
      hknows.row.move hmove hstep, hknows.admitted.move hallows hmove,
      hknows.accounted.move hknows.row hknows.admitted hmove hguard hstep⟩
  stable db c log g db' _ hknows hstep :=
    ⟨hknows.row.change (hM.change hstep), hknows.admitted, hknows.accounted⟩

theorem noResponseLost (hM : Conforms table ModelTransports.ValidId valid M) :
    NoResponseLost table valid M (Unhindered table valid) := by
  intro circuits sys h p hp X response hpaid result hdone
  obtain ⟨i, hi, rfl⟩ := List.getElem_of_mem hp
  obtain ⟨g, hknows, hfollows⟩ := (knows_tracking hM).reaches h (fun _ _ => trivial) i _
    (Nat.zero_le i) (List.getElem?_eq_getElem hi)
  rw [hdone] at hfollows
  have haccounted := hknows.accounted
  cases g with
  | committed Y requestHash response' =>
    obtain ⟨rfl, rfl⟩ := haccounted.2 X response hpaid
    obtain ⟨_, row, hrow, _, hstatus, hresponse⟩ := hknows.row
    exact .inr ⟨hfollows, row, hrow, hstatus, hresponse⟩
  | stranded => exact .inl (haccounted X response hpaid)
  | lost => exact haccounted.elim
  | idle => exact absurd hpaid (haccounted X response)
  | invalid => exact absurd hpaid (haccounted X response)
  | reserved Y requestHash => exact hfollows.elim
  | sent Y requestHash => exact hfollows.elim
  | paid Y requestHash response' => exact hfollows.elim
  | settled Y requestHash response' => exact hfollows.elim

end Runs

/-- On a retrieval database and on a model database, in every run of unhindered processes. -/
theorem no_response_lost [PyFloat F] [LinearOrder T] [Zero T] [Sub T] (H : Hasher)
    (B : ModelTransports.Builtins F) :
    NoResponseLost retrievalTable retrievalValidity
        (retrievalMachine H : Machine _ (RetrievalCall F T) _ _ _)
        (Unhindered retrievalTable retrievalValidity) ∧
      NoResponseLost modelTable (modelValidity B)
        (modelMachine H B : Machine _ (ModelCall F T) _ _ _)
        (Unhindered modelTable (modelValidity B)) :=
  ⟨noResponseLost (retrievalMachine_conforms H), noResponseLost (modelMachine_conforms H B)⟩

/-! ## A response lost -/

def zeroHasher : Hasher := ⟨fun _ => List.replicate 64 48, by intro bytes; decide⟩

/-- One failure opens the circuit. -/
def brittleBreaker : Breaker ℤ :=
  { sampleBreaker with failureThreshold := 1, threshold_pos := le_rfl }

def sampleSearch (operationId : PyStr) : RetrievalCall NonFinite ℤ :=
  .search brittleBreaker operationId (py "steel") 1 .none

/-- The provider answers a search with an empty list, or it fails. -/
def sampleEnvironment (answers : Bool) : Environment NonFinite ℤ where
  now := 0
  utcnow := ⟨[], by intro c hc; cases hc⟩
  session := .error (otherError [])
  received
    | .client => if answers then .ok (.list []) else .error (otherError (py "timeout"))
    | _ => .error (otherError [])

abbrev RetrievalProcess :=
  Process (RetrievalCall NonFinite ℤ) (Op NonFinite ℤ (RenderedJson NonFinite)) Reply
    (Except OperationError (PyVal NonFinite))

/-- Two searches are under way when one of them fails and then the other is answered. -/
def strandedRun : List (Turn (RetrievalCall NonFinite ℤ) (Environment NonFinite ℤ)) :=
  [.start (sampleSearch (py "a")), .start (sampleSearch (py "b"))] ++
    List.replicate 4 (.act 0 (sampleEnvironment true)) ++
    List.replicate 6 (.act 1 (sampleEnvironment false)) ++
    List.replicate 2 (.act 0 (sampleEnvironment true))

def sampleCircuits : Circuits ℤ := (⟨empty, []⟩ : Circuits ℤ).register brittleBreaker.circuitId 0

def strandedSystem : System (OperationDb (RenderedJson NonFinite) ℤ) (RetrievalCall NonFinite ℤ)
    (Op NonFinite ℤ (RenderedJson NonFinite)) Reply (Except OperationError (PyVal NonFinite)) :=
  (System.idle (freshDb sampleCircuits)).play (retrievalMachine zeroHasher).program
    (respond retrievalTable) strandedRun

/-- An answer of the provider to the search of `X`. -/
def isAnswer (X : PyStr) : Entry (Op NonFinite ℤ (RenderedJson NonFinite)) Reply → Bool
  | ⟨.receive .client Y, .ok (.list [])⟩ => X == Y
  | _ => false

def isCommit : Entry (Op NonFinite ℤ (RenderedJson NonFinite)) Reply → Bool
  | ⟨.commit _ _ _, _⟩ => true
  | _ => false

/-- A search that was answered, committed nothing, and ended in an error. -/
def isStranded (X : PyStr) (p : RetrievalProcess) : Bool :=
  match p.call, p.program with
  | .search _ _ _ _ _, .done (.error _) => p.log.any (isAnswer X) && !p.log.any isCommit
  | _, _ => false

theorem paid_of_isAnswer {X : PyStr} {log : List (Entry (Op NonFinite ℤ (RenderedJson NonFinite)) Reply)}
    (h : log.any (isAnswer X) = true) :
    ∃ response, Paid (retrievalValid searchEndpoint) log X response := by
  obtain ⟨e, hmem, he⟩ := List.any_eq_true.mp h
  unfold isAnswer at he
  split at he
  · rename_i Y
    obtain rfl : X = Y := by simpa using he
    have hvalid : (retrievalValid searchEndpoint .client (.list [] : PyVal NonFinite)).isSome = true := by
      decide +kernel
    obtain ⟨response, hresponse⟩ := Option.isSome_iff_exists.mp hvalid
    exact ⟨response, .client, _, hmem, hresponse⟩
  · cases he

/-- The circuit opens while a search is in flight, and its answer is neither stored nor
returned. -/
theorem response_lost_to_open_circuit :
    ¬ NoResponseLost retrievalTable retrievalValidity
      (retrievalMachine zeroHasher : Machine _ (RetrievalCall NonFinite ℤ) _ _ _) Unguarded := by
  intro hnone
  have hreached : Reaches (retrievalMachine zeroHasher : Machine _ (RetrievalCall NonFinite ℤ) _ _ _)
      Unguarded (System.idle (freshDb sampleCircuits)) strandedSystem :=
    reaches_play (respond_performs retrievalTable) strandedRun
  have hstranded : strandedSystem.processes.any (isStranded (py "a")) = true := by decide +kernel
  obtain ⟨p, hp, hisStranded⟩ := List.any_eq_true.mp hstranded
  unfold isStranded at hisStranded
  split at hisStranded
  · rename_i circuit operationId query topK filters e hcall hdone
    rw [Bool.and_eq_true, Bool.not_eq_true'] at hisStranded
    obtain ⟨response, hpaid⟩ := paid_of_isAnswer hisStranded.1
    have hpaid' : Paid (retrievalValidity p.call) p.log (py "a") response := by
      rw [hcall]
      exact hpaid
    rcases hnone _ _ hreached p hp _ _ hpaid' _ hdone with ⟨requestHash, hmem⟩ | ⟨hresult, _⟩
    · have hcommit := List.any_eq_false.mp hisStranded.2 _ hmem
      exact hcommit rfl
    · cases hresult
  · cases hisStranded

end PaidResponses
