import VeriMat.JsonWritable
import VeriMat.OperationRuns

/-! # Completed operations

A completed row is never changed, and a call for it that starts later answers from the row alone:
it looks the row up, may write an audit record, and touches neither the circuit nor the
provider. -/
namespace CompletedOperations

open PyText JsonText PyValue PyDict Transaction CircuitBreaker OperationStore AtomicProgram Transports
  ModelTransports OperationSystem OperationProtocol OperationRuns JsonWritable

variable {F T R A C : Type} [PyFloat F]

/-! ## Requests and records -/

theorem requestBytes_writable {request : PyVal F} {bytes : PyBytes}
    (h : requestBytes request = .ok bytes) : Writable request := by
  unfold requestBytes Events.canonicalJson dumps at h
  cases hlower : lower request with
  | error e =>
    rw [hlower] at h
    cases h
  | ok j =>
    rw [hlower] at h
    simp only [Except.map] at h
    cases hencode : encode (render j) with
    | none =>
      rw [hencode] at h
      cases h
    | some bs => exact ⟨j, hlower, by rw [hencode]; rfl⟩

theorem appended_ok {record : PyVal F} (h : Writable record) : appended record = .ok () := by
  obtain ⟨j, hj, hencodes⟩ := h
  have hline : (encode (render j ++ [10])).isNone = false := by
    rw [← Option.not_isSome, encode_append_isSome.mpr ⟨hencodes, rfl⟩]
    rfl
  simp only [appended, Events.canonicalJson, dumps, hj, Except.map, hline]
  rfl

theorem hash_encodes {s : PyStr} (h : Events.isHash s = true) : (encode s).isSome = true := by
  apply encode_ascii
  intro c hc
  simp only [Events.isHash, Bool.and_eq_true, List.all_eq_true] at h
  have hdigit := h.2 c hc
  simp only [Bool.or_eq_true, Bool.and_eq_true, decide_eq_true_eq] at hdigit
  omega

/-- The record of a cached answer can always be written. -/
theorem completedRecord_writable {H : Hasher} {r : ModelRequest F} {requestHash : PyStr}
    {now : Timestamp} {response : ModelResponse} {bytes : PyBytes}
    (hrequest : requestBytes r.hashed = .ok bytes) (hid : (encode r.operationId).isSome = true)
    (hhash : (encode requestHash).isSome = true) (hstorable : response.storable = true) :
    Writable (completedRecord H r requestHash now response none true) := by
  have hfields := (requestBytes_writable hrequest).of_dict
  simp only [List.forall_mem_cons] at hfields
  obtain ⟨hsystem, huser, hschema, _⟩ := hfields
  simp only [ModelResponse.storable, Bool.and_eq_true] at hstorable
  obtain ⟨⟨⟨htext, _⟩, _⟩, hrequestId⟩ := hstorable
  apply writable_dict
  simp only [List.forall_mem_cons, List.not_mem_nil, IsEmpty.forall_iff, implies_true, and_true]
  refine ⟨⟨encode_py _, writable_int _⟩, ⟨encode_py _, writable_str.mpr (encode_ascii now.ascii)⟩,
    ⟨encode_py _, writable_str.mpr (encode_py _)⟩, ⟨encode_py _, writable_str.mpr hid⟩, ⟨encode_py _, writable_str.mpr hhash⟩,
    ⟨encode_py _, hsystem⟩, ⟨encode_py _, huser⟩, ⟨encode_py _, hschema⟩, ⟨encode_py _, writable_str.mpr htext⟩,
    ⟨encode_py _, writable_str.mpr (hash_encodes (H.hexdigest_isHash _))⟩,
    ⟨encode_py _, writable_str.mpr hrequestId⟩, ⟨encode_py _, writable_int _⟩, ⟨encode_py _, writable_int _⟩,
    ⟨encode_py _, writable_none⟩, ⟨encode_py _, writable_bool _⟩, ⟨encode_py _, writable_str.mpr (encode_py _)⟩⟩

/-! ## Rows -/

/-- What holds of the rows of a table: their keys were admitted and can be encoded, and a
completed one has a response that could be stored. -/
def RowsSound (table : ResponseTable F R A) (admits : PyStr → Prop) (db : OperationDb R T) :
    Prop :=
  ∀ X row, db.row X = some row →
    admits X ∧ (encode X).isSome = true ∧ (encode row.requestSha256).isSome = true ∧
      (row.status = .completed → ∃ response, row.response = some response ∧
        table.storable response = true)

section Rows
variable {table : ResponseTable F R A} {admits : PyStr → Prop} {db db' : OperationDb R T}

omit [PyFloat F] in
/-- An update that keeps the request hash, and completes only with what can be stored. -/
theorem RowsSound.modify (h : RowsSound table admits db) {X : PyStr} {row : OperationRow R T}
    (hrow : db.row X = some row) {f : OperationRow R T → OperationRow R T}
    (hhash : (f row).requestSha256 = row.requestSha256)
    (hcompleted : (f row).status = .completed → ∃ response, (f row).response = some response ∧
      table.storable response = true) :
    RowsSound table admits { db with operations := db.operations.modify X f } := by
  intro Y row' hrow'
  rw [row_modify] at hrow'
  by_cases hY : Y = X
  · subst hY
    rw [if_pos rfl, hrow, Option.map_some, Option.some.injEq] at hrow'
    obtain ⟨hadmits, hid, hencodes, _⟩ := h Y row hrow
    rw [← hrow']
    exact ⟨hadmits, hid, by rw [hhash]; exact hencodes, hcompleted⟩
  · rw [if_neg hY] at hrow'
    exact h Y row' hrow'

omit [PyFloat F] in
theorem RowsSound.of_operations (h : RowsSound table admits db)
    (hoperations : db'.operations = db.operations) : RowsSound table admits db' := by
  intro X row hrow
  rw [row_of_operations hoperations] at hrow
  exact h X row hrow

omit [PyFloat F] in
theorem RowsSound.reserved (h : RowsSound table admits db) {X requestHash : PyStr} {now : T}
    (hX : admits X) (hid : (encode X).isSome = true) (hhash : (encode requestHash).isSome = true)
    (hreserves : Reserves db X requestHash now db') : RowsSound table admits db' := by
  cases hreserves with
  | inserted hnew =>
    intro Y row hrow
    rw [row_set] at hrow
    by_cases hY : Y = X
    · subst hY
      rw [if_pos rfl, Option.some.injEq] at hrow
      rw [← hrow]
      exact ⟨hX, hid, hhash, fun hstatus => by cases hstatus⟩
    · rw [if_neg hY] at hrow
      exact h Y row hrow
  | consumed row hrow hmatches =>
    apply h.modify hrow
    · rfl
    · intro hstatus
      cases hstatus

omit [PyFloat F] in
theorem RowsSound.committed (h : RowsSound table admits db) {X requestHash : PyStr}
    {response : R} {now : T} (hstorable : table.storable response = true)
    (hcommits : Commits db X requestHash response now db') : RowsSound table admits db' := by
  obtain ⟨row, hrow, hmatches, rfl⟩ := hcommits
  apply h.modify hrow
  · rfl
  · intro _
    exact ⟨response, rfl, hstorable⟩

omit [PyFloat F] in
theorem RowsSound.reconciled (h : RowsSound table admits db) {args : ReconcileArgs F}
    {action : ReconcileAction} {completion : Option R} {now : T}
    (hreconciles : Reconciles table db args action completion now db') :
    RowsSound table admits db' := by
  obtain ⟨row, hrow, hmatches, hcomplete, hstorable, rfl⟩ := hreconciles
  have hmodified : RowsSound table admits
      { db with
        operations := db.operations.modify args.operationId (reconciled action completion now) } := by
    apply h.modify hrow
    · cases action <;> cases completion <;> rfl
    · intro hstatus
      cases action with
      | complete =>
        cases completion with
        | none => simp at hcomplete
        | some response => exact ⟨response, rfl, hstorable response rfl⟩
      | authorizeRetry => cases hstatus
      | abandon => cases hstatus
  exact hmodified.of_operations rfl

variable [LinearOrder T] [Zero T] [Sub T]

theorem RowsSound.perform (h : RowsSound table admits db) {g : Progress R} {o : Op F T R}
    {r : Reply o} (hallows : g.allows admits o)
    (hperform : OperationSystem.perform table db o r db') : RowsSound table admits db' := by
  have hmove : Move (fun _ _ => none) g o r _ := move_of_allows hallows r
  generalize g.next _ o r = g' at hmove
  cases hmove with
  | passive _ _ _ hg ho => exact h.of_operations (perform_passive ho hperform).1
  | reserve X requestHash =>
    rcases perform_reserve hperform with ⟨_, hid, hhash, now, hreserves⟩ | ⟨_, rfl⟩
    · exact h.reserved hallows hid hhash hreserves
    · exact h
  | transmit X requestHash =>
    rw [show db' = db from hperform]
    exact h
  | receive X requestHash wire =>
    rw [show db' = db from hperform]
    exact h
  | recordSuccess circuit X requestHash response =>
    exact h.of_operations (perform_passive rfl hperform).1
  | commit X requestHash response =>
    rcases perform_commit hperform with ⟨_, hstorable, now, hcommits⟩ | ⟨_, rfl⟩
    · exact h.committed hstorable hcommits
    · exact h
  | select X requestHash response => exact h.of_operations (perform_passive rfl hperform).1
  | utcnow X requestHash response => exact h.of_operations (perform_passive rfl hperform).1
  | append X requestHash response record => exact h.of_operations (perform_passive rfl hperform).1

omit [PyFloat F] [LinearOrder T] [Zero T] [Sub T] in
theorem RowsSound.external (h : RowsSound table admits db)
    (hexternal : External table db db') : RowsSound table admits db' := by
  cases hexternal with
  | reconcile args now r db' hreconcile =>
    cases r with
    | error e =>
      rw [reconcileOperation_error (outcome_error.mp hreconcile)]
      exact h
    | ok u =>
      obtain ⟨action, completion, hchange⟩ := reconcileOperation_eq_ok (outcome_ok.mp hreconcile)
      exact h.reconciled hchange
  | register circuitId now => exact h.of_operations rfl

end Rows

section Runs
variable [LinearOrder T] [Zero T] [Sub T] {table : ResponseTable F R A} {admits : PyStr → Prop}
  {valid : C → Validity F R}
  {M : Machine (OperationDb R T) C (Op F T R) Reply (Except OperationError A)}
  {G : OperationDb R T → Process C (Op F T R) Reply (Except OperationError A) → Prop}
  {sys sys' : System (OperationDb R T) C (Op F T R) Reply (Except OperationError A)}

theorem rowsSound_reaches (hM : Conforms table admits valid M) {circuits : Circuits T}
    (h : Reaches M G (System.idle (freshDb circuits)) sys) :
    RowsSound table admits sys.state := by
  have hfresh : RowsSound table admits (freshDb circuits : OperationDb R T) := by
    intro X row hrow
    cases hrow
  refine (hM.tracking.from_idle h hfresh ?_ ?_).1
  · intro db c log g o r db' hsound _ hallows hperform
    exact hsound.perform hallows (hM.perform db o r db' hperform)
  · intro db db' hsound hexternal
    exact hsound.external (hM.external db db' hexternal)

theorem completed_reaches (hM : Conforms table admits valid M) (h : Reaches M G sys sys')
    {X : PyStr} {row : OperationRow R T} (hrow : sys.state.row X = some row)
    (hstatus : row.status = .completed) : sys'.state.row X = some row :=
  h.invariant hrow
    (fun _ o r _ hdb hs => (hM.change (.inl ⟨o, r, hs⟩)).completed hdb hstatus)
    (fun _ _ hdb hs => (hM.change (.inr hs)).completed hdb hstatus)

end Runs

/-! ## Replays -/

section Replays

/-- Two requests that SHA-256 does not tell apart. -/
def Collide (H : Hasher) (request request' : PyVal F) : Prop :=
  ∃ bytes bytes', requestBytes request = .ok bytes ∧ requestBytes request' = .ok bytes' ∧
    bytes ≠ bytes' ∧ H.hexdigest bytes = H.hexdigest bytes'

/-- How a call for a completed operation ends: with the response for the request the row was
reserved for, with an error for any other. -/
structure Replays (H : Hasher) (table : ResponseTable F R A) (request : PyVal F)
    (row : OperationRow R T) (result : Except OperationError A) : Prop where
  same : fingerprint H request = .ok row.requestSha256 →
    ∃ response, row.response = some response ∧ result = .ok (table.read response)
  other : fingerprint H request ≠ .ok row.requestSha256 → ∃ e, result = .error e
  different : ∀ reserved, fingerprint H reserved = .ok row.requestSha256 →
    requestBytes request ≠ requestBytes reserved → ¬ Collide H request reserved →
    ∃ e, result = .error e

variable {H : Hasher} {table : ResponseTable F R A} {request : PyVal F} {row : OperationRow R T}
  {result : Except OperationError A}

/-- Requests with one hash have one text, or collide. -/
theorem requestBytes_of_fingerprint {reserved : PyVal F} {requestHash : PyStr}
    (hrequest : fingerprint H request = .ok requestHash)
    (hreserved : fingerprint H reserved = .ok requestHash) (hcollide : ¬ Collide H request reserved) :
    requestBytes request = requestBytes reserved := by
  unfold fingerprint at hrequest hreserved
  cases hbytes : requestBytes request with
  | error e =>
    rw [hbytes] at hrequest
    cases hrequest
  | ok bytes =>
    cases hbytes' : requestBytes reserved with
    | error e =>
      rw [hbytes'] at hreserved
      cases hreserved
    | ok bytes' =>
      rw [hbytes] at hrequest
      rw [hbytes'] at hreserved
      by_contra hdifferent
      apply hcollide
      refine ⟨bytes, bytes', hbytes, hbytes', fun heq => hdifferent (by rw [heq]), ?_⟩
      exact Except.ok.inj (hrequest.trans hreserved.symm)

/-- A request with another text than the one the row was reserved for has another hash, unless
SHA-256 takes the two for one. -/
theorem replays_intro
    (hsame : fingerprint H request = .ok row.requestSha256 →
      ∃ response, row.response = some response ∧ result = .ok (table.read response))
    (hother : fingerprint H request ≠ .ok row.requestSha256 → ∃ e, result = .error e) :
    Replays H table request row result where
  same := hsame
  other := hother
  different reserved hreserved hdifferent hcollide := by
    apply hother
    intro hrequest
    exact hdifferent (requestBytes_of_fingerprint hrequest hreserved hcollide)

theorem Replays.of_fingerprint_error {e : OperationError} (h : fingerprint H request = .error e) :
    Replays H table request row (.error e) := by
  apply replays_intro
  · intro hsame
    rw [h] at hsame
    cases hsame
  · intro _
    exact ⟨e, rfl⟩

theorem Replays.of_same {requestHash : PyStr} (h : fingerprint H request = .ok requestHash)
    (hsame : requestHash = row.requestSha256) {response : R} (hresponse : row.response = some response) :
    Replays H table request row (.ok (table.read response)) := by
  apply replays_intro
  · intro _
    exact ⟨response, hresponse, rfl⟩
  · intro hother
    rw [h, hsame] at hother
    exact absurd rfl hother

theorem Replays.of_other {requestHash : PyStr} (h : fingerprint H request = .ok requestHash)
    (hother : requestHash ≠ row.requestSha256) (e : OperationError) :
    Replays H table request row (.error e) := by
  apply replays_intro
  · intro hsame
    rw [h] at hsame
    exact absurd (Except.ok.inj hsame) hother
  · intro _
    exact ⟨e, rfl⟩

/-! ### One call -/

variable [LinearOrder T] [Zero T]

/-- The operations of a call that answers from a row. -/
def replayOp (X : PyStr) : Op F T R → Prop
  | .select Y => Y = X
  | .utcnow => True
  | .append _ => True
  | _ => False

/-- What they reply while the row stands. -/
def replayReply (row : OperationRow R T) : (o : Op F T R) → Reply o → Prop
  | .select _, r => r = Except.ok (some row)
  | .append record, r => r = appended record
  | _, _ => True

/-- The protocol of the calls of an operation whose row is completed; others do as they like. -/
def replayProtocol (X : PyStr) (row : OperationRow R T) (applies : Prop) :
    Protocol (Op F T R) Reply Unit where
  allowed _ o := applies → replayOp X o
  replies _ o r _ := applies → replayReply row o r

section Calls
variable {X requestHash : PyStr} {applies : Prop} {response : R}

/-- A program that the protocol does not bind follows it. -/
theorem follows_of_not_applies {α : Type} {post : Unit → α → Prop} (h : ¬ applies)
    (hpost : ∀ a, post () a) (p : Program (Op F T R) Reply α) :
    p.Follows (replayProtocol X row applies) post () := by
  induction p with
  | done a => exact hpost a
  | step o next ih => exact ⟨fun happlies => absurd happlies h, fun r _ _ => ih r⟩

/-- The lookup finds the row: its response, or that the request is another one. -/
theorem follows_lookup {β : Type} (happlies : applies) (hstatus : row.status = .completed)
    (hresponse : row.response = some response) {f : Option A → Call F T R β}
    {post : Unit → Except OperationError β → Prop}
    (hsame : requestHash = row.requestSha256 →
      (f (some (table.read response))).run.Follows (replayProtocol X row applies) post ())
    (hother : requestHash ≠ row.requestSha256 → ∀ e, post () (.error e)) :
    (lookup table X requestHash >>= f).run.Follows (replayProtocol X row applies) post () := by
  rw [follows_run_bind, lookup, follows_run_bind]
  refine ⟨fun _ => rfl, ?_⟩
  intro r _ hr
  rw [show r = Except.ok (some row) from hr happlies]
  change continuedBy _ _ _ () (readRow table requestHash (some row))
  by_cases hhash : requestHash = row.requestSha256
  · have hread : readRow table requestHash (some row) = .ok (some (table.read response)) := by
      simp [readRow, hhash, hstatus, hresponse]
    rw [hread]
    exact hsame hhash
  · have hread : readRow table requestHash (some row) =
        .error (contractError (reusedText table.kind)) := by
      rw [readRow, if_pos (Ne.symm hhash)]
    rw [hread]
    exact hother hhash _

/-- A record that can be written is written. -/
theorem follows_appendRecord {β : Type} {row : OperationRow ModelResponse T} (happlies : applies)
    (enabled : Bool) {make : Timestamp → PyVal F} (hwritable : ∀ now, Writable (make now))
    {f : Unit → ModelCallM F T β} {post : Unit → Except OperationError β → Prop}
    (hf : (f ()).run.Follows (replayProtocol X row applies) post ()) :
    (appendRecord enabled make >>= f).run.Follows (replayProtocol X row applies) post () := by
  cases enabled with
  | false => exact hf
  | true =>
    rw [follows_run_bind]
    refine ⟨fun _ => trivial, ?_⟩
    intro now _ _
    refine ⟨fun _ => trivial, ?_⟩
    intro r _ hr
    rw [show r = appended (make now) from hr happlies, appended_ok (hwritable now)]
    exact hf

end Calls

/-! ### The transports -/

variable {X : PyStr} {applies : Prop}

/-- A call from its fingerprint on. -/
theorem follows_fingerprint {f : PyStr → Call F T R A}
    (hf : ∀ requestHash, fingerprint H request = .ok requestHash →
      (f requestHash).run.Follows (replayProtocol X row applies)
        (fun _ => Replays H table request row) ()) :
    (compute (fingerprint H request) >>= f).run.Follows (replayProtocol X row applies)
      (fun _ => Replays H table request row) () := by
  rw [follows_compute]
  cases hhash : fingerprint H request with
  | error e => exact .of_fingerprint_error hhash
  | ok requestHash => exact hf requestHash hhash

section Retrieval
variable {row : OperationRow (RenderedJson F) T} {response : RenderedJson F}
  (happlies : applies) (hstatus : row.status = .completed) (hresponse : row.response = some response)
include happlies hstatus hresponse

theorem retrieve_replays (circuit : Breaker T) (endpoint : Endpoint F) {requestHash : PyStr}
    (hhash : fingerprint H request = .ok requestHash) :
    (retrieve circuit endpoint X requestHash).run.Follows (replayProtocol X row applies)
      (fun _ => Replays H retrievalTable request row) () := by
  rw [retrieve]
  apply follows_lookup happlies hstatus hresponse
  · intro hsame
    exact .of_same hhash hsame hresponse
  · intro hother e
    exact .of_other hhash hother e

theorem search_replays (circuit : Breaker T) (query : PyStr) (topK : ℤ) (filters : PyVal F) :
    (search H circuit X query topK filters).run.Follows (replayProtocol X row applies)
      (fun _ => Replays H retrievalTable (searchRequest query topK filters) row) () := by
  rw [search]
  apply follows_fingerprint
  intro requestHash hhash
  exact retrieve_replays happlies hstatus hresponse circuit searchEndpoint hhash

theorem content_replays (circuit : Breaker T) (docId : PyStr) (offset limit : ℤ) :
    (content H circuit X docId offset limit).run.Follows (replayProtocol X row applies)
      (fun _ => Replays H retrievalTable (contentRequest docId offset limit) row) () := by
  rw [content]
  apply follows_fingerprint
  intro requestHash hhash
  exact retrieve_replays happlies hstatus hresponse circuit contentEndpoint hhash

end Retrieval

section Model
variable {row : OperationRow ModelResponse T} {response : ModelResponse} {r : ModelRequest F}

omit [LinearOrder T] [Zero T] in
theorem admitRequest_of_validId (h : ValidId r.operationId) :
    admitRequest H r = fingerprint H r.hashed := by
  rw [admitRequest, if_neg h]

theorem completeOpenCode_replays (B : Builtins F) (t : OpenCodeTransport T) (happlies : applies)
    (hstatus : row.status = .completed) (hresponse : row.response = some response)
    (hid : ValidId r.operationId) :
    (completeOpenCode H B t r).run.Follows (replayProtocol r.operationId row applies)
      (fun _ => Replays H modelTable r.hashed row) () := by
  rw [completeOpenCode, admitRequest_of_validId hid]
  apply follows_fingerprint
  intro requestHash hhash
  apply follows_lookup happlies hstatus hresponse
  · intro hsame
    exact .of_same hhash hsame hresponse
  · intro hother e
    exact .of_other hhash hother e

theorem completeClaudeCode_replays (B : Builtins F) (t : ClaudeCodeTransport T) (happlies : applies)
    (hstatus : row.status = .completed) (hresponse : row.response = some response)
    (hid : ValidId r.operationId) (hencodes : (encode r.operationId).isSome = true)
    (hhashEncodes : (encode row.requestSha256).isSome = true)
    (hstorable : response.storable = true) :
    (completeClaudeCode H B t r).run.Follows (replayProtocol r.operationId row applies)
      (fun _ => Replays H modelTable r.hashed row) () := by
  rw [completeClaudeCode, admitRequest_of_validId hid]
  apply follows_fingerprint
  intro requestHash hhash
  apply follows_lookup happlies hstatus hresponse
  · intro hsame
    apply follows_appendRecord happlies
    · intro now
      cases hbytes : requestBytes r.hashed with
      | error e =>
        rw [fingerprint, hbytes] at hhash
        cases hhash
      | ok bytes =>
        rw [hsame]
        exact completedRecord_writable hbytes hencodes hhashEncodes hstorable
    · exact .of_same hhash hsame hresponse
  · intro hother e
    exact .of_other hhash hother e

end Model

end Replays

/-! ## Every run -/

section Machines
variable [LinearOrder T] [Zero T] [Sub T] {H : Hasher} {table : ResponseTable F R A}
  {admits : PyStr → Prop} {valid : C → Validity F R} {operationId : C → PyStr}
  {request : C → PyVal F}
  {M : Machine (OperationDb R T) C (Op F T R) Reply (Except OperationError A)}
  {G : OperationDb R T → Process C (Op F T R) Reply (Except OperationError A) → Prop}
  {sys sys' : System (OperationDb R T) C (Op F T R) Reply (Except OperationError A)}

/-- The calls of a machine replay a completed row. -/
def AnswersFrom (H : Hasher) (table : ResponseTable F R A) (operationId : C → PyStr)
    (request : C → PyVal F)
    (M : Machine (OperationDb R T) C (Op F T R) Reply (Except OperationError A)) (X : PyStr)
    (row : OperationRow R T) : Prop :=
  ∀ c, operationId c = X → (M.program c).Follows (replayProtocol X row (operationId c = X))
    (fun _ => Replays H table (request c) row) ()

/-- While the row stands, a call for it only looks it up and keeps its audit log. -/
theorem replays_tracking (hM : Conforms table admits valid M) {X : PyStr} {row : OperationRow R T}
    (hencodes : (encode X).isSome = true)
    (hanswers : AnswersFrom H table operationId request M X row) :
    Tracking M G (fun db => db.row X = some row) (fun c => replayProtocol X row (operationId c = X))
      (fun _ c log _ => operationId c = X → ∀ e ∈ log, replayOp X e.1)
      (fun c _ result => operationId c = X → Replays H table (request c) row result) where
  start db c _ := by
    refine ⟨(), ?_, ?_⟩
    · intro _ e he
      cases he
    · by_cases hc : operationId c = X
      · apply (hanswers c hc).mono
        intro _ result hresult _
        exact hresult
      · apply follows_of_not_applies hc
        intro result happlies
        exact absurd happlies hc
  act db c log g o next r db' hrow hlog hallowed _ hperform := by
    have hstep := hM.perform db o r db' hperform
    refine ⟨(), ?_, ?_⟩
    · intro hc
      have hop := hallowed hc
      cases o with
      | select Y =>
        obtain rfl : Y = X := hop
        have hreply := (perform_select hstep).2 hencodes
        rw [hrow] at hreply
        exact hreply
      | append record => exact hstep.1
      | utcnow => trivial
      | _ => cases hop
    · intro hc e he
      rcases List.mem_append.mp he with he | he
      · exact hlog hc e he
      · rw [List.mem_singleton.mp he]
        exact hallowed hc
  stable db c log g db' _ hlog _ := hlog

/-- Once an operation is completed its row is never changed, and a call for it that starts later
performs no operation but lookups and audit records, and answers from the row. -/
structure CompletedForGood (H : Hasher) (table : ResponseTable F R A) (operationId : C → PyStr)
    (request : C → PyVal F)
    (M : Machine (OperationDb R T) C (Op F T R) Reply (Except OperationError A)) : Prop where
  immutable : ∀ circuits sys sys', Reaches M Unguarded (System.idle (freshDb circuits)) sys →
    Reaches M Unguarded sys sys' → ∀ X row, sys.state.row X = some row →
    row.status = .completed → sys'.state.row X = some row
  replayed : ∀ circuits sys sys', Reaches M Unguarded (System.idle (freshDb circuits)) sys →
    Reaches M Unguarded sys sys' → ∀ X row, sys.state.row X = some row →
    row.status = .completed → ∀ (i : ℕ) p, sys.processes.length ≤ i →
    sys'.processes[i]? = some p → operationId p.call = X →
    (∀ e ∈ p.log, replayOp X e.1) ∧
      ∀ result, p.program = .done result → Replays H table (request p.call) row result

/-- The rows that a machine's runs complete are replayed by its calls. -/
theorem completedForGood_of_answers (hM : Conforms table admits valid M)
    (hanswers : ∀ (X : PyStr) (row : OperationRow R T) response, admits X →
      (encode X).isSome = true → (encode row.requestSha256).isSome = true →
      row.status = .completed → row.response = some response → table.storable response = true →
      AnswersFrom H table operationId request M X row) :
    CompletedForGood H table operationId request M where
  immutable _ _ _ _ hlater _ _ hrow hstatus := completed_reaches hM hlater hrow hstatus
  replayed circuits sys sys' hreach hlater X row hrow hstatus i p hi hp hcall := by
    obtain ⟨hadmits, hencodes, hhash, hcompleted⟩ := rowsSound_reaches hM hreach X row hrow
    obtain ⟨response, hresponse, hstorable⟩ := hcompleted hstatus
    have htracking : Tracking M Unguarded _ _ _ _ := replays_tracking hM hencodes
      (hanswers X row response hadmits hencodes hhash hstatus hresponse hstorable)
    obtain ⟨_, hlog, hfollows⟩ := htracking.reaches hlater
      (fun _ h => completed_reaches hM h hrow hstatus) i p hi hp
    refine ⟨hlog hcall, ?_⟩
    intro result hdone
    rw [hdone] at hfollows
    exact hfollows hcall

theorem retrieval_answers {X : PyStr} {row : OperationRow (RenderedJson F) T}
    {response : RenderedJson F} (hstatus : row.status = .completed)
    (hresponse : row.response = some response) :
    AnswersFrom H retrievalTable RetrievalCall.operationId RetrievalCall.hashed
      (retrievalMachine H : Machine _ (RetrievalCall F T) _ _ _) X row := by
  intro c hc
  cases c with
  | search circuit operationId query topK filters =>
    obtain rfl : operationId = X := hc
    exact search_replays rfl hstatus hresponse circuit query topK filters
  | content circuit operationId docId offset limit =>
    obtain rfl : operationId = X := hc
    exact content_replays rfl hstatus hresponse circuit docId offset limit

theorem model_answers (B : Builtins F) {X : PyStr} {row : OperationRow ModelResponse T}
    {response : ModelResponse} (hid : ValidId X) (hencodes : (encode X).isSome = true)
    (hhash : (encode row.requestSha256).isSome = true) (hstatus : row.status = .completed)
    (hresponse : row.response = some response) (hstorable : response.storable = true) :
    AnswersFrom H modelTable (fun c => c.request.operationId) (fun c => c.request.hashed)
      (modelMachine H B : Machine _ (ModelCall F T) _ _ _) X row := by
  intro c hc
  cases c with
  | claudeCode transport r =>
    obtain rfl : r.operationId = X := hc
    exact completeClaudeCode_replays B transport rfl hstatus hresponse hid hencodes hhash hstorable
  | openCode transport r =>
    obtain rfl : r.operationId = X := hc
    exact completeOpenCode_replays B transport rfl hstatus hresponse hid

end Machines

/-- On a retrieval database and on a model database, for every run of the transports' calls and
of the operators' reconciliations. -/
theorem completed_for_good [LinearOrder T] [Zero T] [Sub T] (H : Hasher) (B : Builtins F) :
    CompletedForGood H retrievalTable RetrievalCall.operationId RetrievalCall.hashed
        (retrievalMachine H : Machine _ (RetrievalCall F T) _ _ _) ∧
      CompletedForGood H modelTable (fun c => c.request.operationId) (fun c => c.request.hashed)
        (modelMachine H B : Machine _ (ModelCall F T) _ _ _) := by
  constructor
  · apply completedForGood_of_answers (retrievalMachine_conforms H)
    intro X row response _ _ _ hstatus hresponse _
    exact retrieval_answers hstatus hresponse
  · apply completedForGood_of_answers (modelMachine_conforms H B)
    intro X row response hid hencodes hhash hstatus hresponse hstorable
    exact model_answers B hid hencodes hhash hstatus hresponse hstorable

end CompletedOperations
