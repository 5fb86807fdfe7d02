import VeriMat.ModelTransports

/-! # Processes over an operation database

Any number of processes run transport calls over one database while operators reconcile: what
each atomic operation does to the tables, and what it replies. -/
namespace OperationSystem

open PyText JsonText PyValue PyDict Transaction Events CircuitBreaker OperationStore AtomicProgram
  Transports ModelTransports

variable {F T R A : Type}

/-! ## Operations -/

/-- The outcome of a method of the circuit breaker, whose tables are in the same database. -/
def CircuitOutcome (x : CircuitDb T Unit) (db : OperationDb R T)
    (r : Except OperationError Unit) (db' : OperationDb R T) : Prop :=
  ∃ reply circuits, Outcome x db.circuits reply circuits ∧
    r = reply.mapError circuitRaised ∧ db' = { db with circuits := circuits }

section System
variable [PyFloat F]

/-- A record is appended as one line of canonical JSON. -/
def appended (record : PyVal F) : Except OperationError Unit :=
  match canonicalJson record with
  | .error e => .error (jsonRaised e)
  | .ok text => if (encode (text ++ [10])).isNone then .error surrogatesNotAllowed else .ok ()

variable [LinearOrder T] [Zero T] [Sub T]

/-- What an operation does to the database and what it replies, at whatever time; the replies of
the provider are arbitrary. -/
def perform (table : ResponseTable F R A) :
    OperationDb R T → (o : Op F T R) → Reply o → OperationDb R T → Prop
  | db, .select operationId, r, db' => Outcome (selectOperation operationId) db r db'
  | db, .reserve operationId requestHash, r, db' =>
    ∃ now, Outcome (reserveOperation table operationId requestHash now) db r db'
  | db, .commit operationId requestHash response, r, db' =>
    ∃ now, Outcome (commitResponse table operationId requestHash response now) db r db'
  | db, .beforeCall circuit operationId, r, db' =>
    ∃ now, CircuitOutcome (CircuitBreaker.beforeCall circuit operationId now) db r db'
  | db, .recordSuccess circuit operationId, r, db' =>
    ∃ now, CircuitOutcome (CircuitBreaker.recordSuccess circuit operationId now) db r db'
  | db, .recordFailure circuit operationId reasonCode, r, db' =>
    ∃ now, CircuitOutcome (CircuitBreaker.recordFailure circuit operationId reasonCode now) db r db'
  | db, .append record, r, db' => r = appended record ∧ db' = db
  | db, .session, _, db' => db' = db
  | db, .transmit _, _, db' => db' = db
  | db, .receive _ _, _, db' => db' = db
  | db, .utcnow, _, db' => db' = db

/-- An operator's reconciliation, or the constructor of a circuit. -/
inductive External (table : ResponseTable F R A) (db : OperationDb R T) :
    OperationDb R T → Prop where
  | reconcile (args now r db') (h : Outcome (reconcileOperation table args now) db r db') :
      External table db db'
  | register (circuitId now) :
      External table db { db with circuits := db.circuits.register circuitId now }

/-! ## Running an operation -/

/-- What decides the reply of an operation besides the database. -/
structure Environment (F T : Type) where
  now : T
  utcnow : Timestamp
  session : Except OperationError (HttpResult F)
  received : (wire : Wire) → Except OperationError (Received F wire)

def circuitRan (x : CircuitDb T Unit) (db : OperationDb R T) :
    Except OperationError Unit × OperationDb R T :=
  ((ran x db.circuits).1.mapError circuitRaised, { db with circuits := (ran x db.circuits).2 })

/-- An operation's reply in an environment, and what it leaves of the database. -/
def respond (table : ResponseTable F R A) (env : Environment F T) (db : OperationDb R T) :
    (o : Op F T R) → Reply o × OperationDb R T
  | .select operationId => ran (selectOperation operationId) db
  | .reserve operationId requestHash => ran (reserveOperation table operationId requestHash env.now) db
  | .commit operationId requestHash response =>
    ran (commitResponse table operationId requestHash response env.now) db
  | .beforeCall circuit operationId =>
    circuitRan (CircuitBreaker.beforeCall circuit operationId env.now) db
  | .recordSuccess circuit operationId =>
    circuitRan (CircuitBreaker.recordSuccess circuit operationId env.now) db
  | .recordFailure circuit operationId reasonCode =>
    circuitRan (CircuitBreaker.recordFailure circuit operationId reasonCode env.now) db
  | .append record => (appended record, db)
  | .session => (env.session, db)
  | .transmit _ => ((), db)
  | .receive wire _ => (env.received wire, db)
  | .utcnow => (env.utcnow, db)

omit [PyFloat F] [LinearOrder T] [Zero T] [Sub T] in
theorem circuitOutcome_ran (x : CircuitDb T Unit) (db : OperationDb R T) :
    CircuitOutcome x db (circuitRan x db).1 (circuitRan x db).2 :=
  ⟨_, _, outcome_ran x db.circuits, rfl, rfl⟩

theorem respond_performs (table : ResponseTable F R A) (env : Environment F T)
    (db : OperationDb R T) (o : Op F T R) :
    perform table db o (respond table env db o).1 (respond table env db o).2 := by
  cases o with
  | select operationId => exact outcome_ran _ db
  | reserve operationId requestHash => exact ⟨env.now, outcome_ran _ db⟩
  | commit operationId requestHash response => exact ⟨env.now, outcome_ran _ db⟩
  | beforeCall circuit operationId => exact ⟨env.now, circuitOutcome_ran _ db⟩
  | recordSuccess circuit operationId => exact ⟨env.now, circuitOutcome_ran _ db⟩
  | recordFailure circuit operationId reasonCode => exact ⟨env.now, circuitOutcome_ran _ db⟩
  | append record => exact ⟨rfl, rfl⟩
  | _ => exact rfl

/-! ## Calls -/

inductive RetrievalCall (F T : Type) [LT T] [Zero T] where
  | search (circuit : Breaker T) (operationId query : PyStr) (topK : ℤ) (filters : PyVal F)
  | content (circuit : Breaker T) (operationId docId : PyStr) (offset limit : ℤ)

inductive ModelCall (F T : Type) [LT T] [Zero T] where
  | claudeCode (transport : ClaudeCodeTransport T) (request : ModelRequest F)
  | openCode (transport : OpenCodeTransport T) (request : ModelRequest F)

def RetrievalCall.operationId : RetrievalCall F T → PyStr
  | .search _ operationId _ _ _ => operationId
  | .content _ operationId _ _ _ => operationId

def ModelCall.request : ModelCall F T → ModelRequest F
  | .claudeCode _ request => request
  | .openCode _ request => request

/-- The request that a call's hash is of. -/
def RetrievalCall.hashed : RetrievalCall F T → PyVal F
  | .search _ _ query topK filters => searchRequest query topK filters
  | .content _ _ docId offset limit => contentRequest docId offset limit

variable (H : Hasher) (B : Builtins F)

def RetrievalCall.program : RetrievalCall F T → Call F T (RenderedJson F) (PyVal F)
  | .search circuit operationId query topK filters =>
    Transports.search H circuit operationId query topK filters
  | .content circuit operationId docId offset limit =>
    Transports.content H circuit operationId docId offset limit

def ModelCall.program : ModelCall F T → Call F T ModelResponse ModelResponse
  | .claudeCode transport request => completeClaudeCode H B transport request
  | .openCode transport request => completeOpenCode H B transport request

/-- The processes of a retrieval database. -/
def retrievalMachine : Machine (OperationDb (RenderedJson F) T) (RetrievalCall F T)
    (Op F T (RenderedJson F)) Reply (Except OperationError (PyVal F)) where
  program call := (call.program H).run
  perform := perform retrievalTable
  external := External retrievalTable

/-- The processes of a model database. -/
def modelMachine : Machine (OperationDb ModelResponse T) (ModelCall F T)
    (Op F T ModelResponse) Reply (Except OperationError ModelResponse) where
  program call := (call.program H B).run
  perform := perform (modelTable : ResponseTable F ModelResponse ModelResponse)
  external := External (modelTable : ResponseTable F ModelResponse ModelResponse)

end System

/-! ## What the operations do -/

section Specs
variable {table : ResponseTable F R A} {db db' : OperationDb R T}
  {operationId requestHash : PyStr} {now : T}

theorem bindText_eq_ok {s : PyStr} {u : Unit} :
    (OperationStore.bindText s : OperationTx R T Unit) db = .ok u db' ↔
      (encode s).isSome = true ∧ db' = db := by
  rw [OperationStore.bindText, raiseIf_eq_ok]
  cases encode s <;> simp

theorem selectOperation_eq_ok {row : Option (OperationRow R T)} :
    selectOperation operationId db = .ok row db' ↔
      (encode operationId).isSome = true ∧ row = db.row operationId ∧ db' = db := by
  simp only [selectOperation, bind_eq_ok, bindText_eq_ok, get_apply, EStateM.Result.ok.injEq,
    pure_eq_ok]
  constructor
  · rintro ⟨_, _, ⟨hid, rfl⟩, _, _, ⟨rfl, rfl⟩, rfl, rfl⟩
    exact ⟨hid, rfl, rfl⟩
  · rintro ⟨hid, rfl, rfl⟩
    exact ⟨(), _, ⟨hid, rfl⟩, _, _, ⟨rfl, rfl⟩, rfl, rfl⟩

/-- Whether the condition of an update holds of a row. -/
def Matches (row : OperationRow R T) (requestHash : PyStr) (status : OperationStatus) : Prop :=
  row.requestSha256 = requestHash ∧ row.status = status

theorem updateOperation_eq_ok {ε : Type} {status : OperationStatus}
    {f : OperationRow R T → OperationRow R T} {n : ℕ} :
    (updateOperation operationId requestHash status f : EStateM ε (OperationDb R T) ℕ) db =
        .ok n db' ↔
      (∃ row, db.row operationId = some row ∧ Matches row requestHash status ∧ n = 1 ∧
        db' = { db with operations := db.operations.modify operationId f }) ∨
      (∀ row, db.row operationId = some row → ¬ Matches row requestHash status) ∧ n = 0 ∧
        db' = db := by
  simp only [updateOperation, bind_eq_ok, get_apply, EStateM.Result.ok.injEq]
  have hany : ((db.row operationId).any fun row =>
      row.requestSha256 == requestHash && row.status == status) = true ↔
      ∃ row, db.row operationId = some row ∧ Matches row requestHash status := by
    simp [Option.any_eq_true, Matches]
  constructor
  · rintro ⟨_, _, ⟨rfl, rfl⟩, h⟩
    split_ifs at h with hrow
    · obtain ⟨_, _, hset, hpure⟩ := bind_eq_ok.mp h
      obtain ⟨rfl, rfl⟩ := pure_eq_ok.mp hpure
      obtain ⟨row, hget, hmatches⟩ := hany.mp hrow
      exact .inl ⟨row, hget, hmatches, rfl, set_eq_ok.mp hset⟩
    · obtain ⟨rfl, rfl⟩ := pure_eq_ok.mp h
      refine .inr ⟨?_, rfl, rfl⟩
      intro row hget hmatches
      exact hrow (hany.mpr ⟨row, hget, hmatches⟩)
  · rintro (⟨row, hget, hmatches, rfl, rfl⟩ | ⟨hnone, rfl, rfl⟩)
    · refine ⟨_, _, ⟨rfl, rfl⟩, ?_⟩
      rw [if_pos (hany.mpr ⟨row, hget, hmatches⟩)]
      rfl
    · refine ⟨_, _, ⟨rfl, rfl⟩, ?_⟩
      rw [if_neg]
      · rfl
      · intro hrow
        obtain ⟨row, hget, hmatches⟩ := hany.mp hrow
        exact hnone row hget hmatches

/-- An update never raises. -/
theorem infallible_updateOperation {ε : Type} (operationId requestHash : PyStr)
    (status : OperationStatus) (f : OperationRow R T → OperationRow R T) :
    Infallible (updateOperation operationId requestHash status f :
      EStateM ε (OperationDb R T) ℕ) := by
  intro s e s' h
  rw [updateOperation] at h
  rcases bind_eq_error.mp h with h | ⟨_, _, h₁, h⟩
  · cases h
  · split_ifs at h
    · cases h
    · cases h

/-- The row that an update of this operation leaves, and every other as it was. -/
theorem row_modify (f : OperationRow R T → OperationRow R T) (operationId X : PyStr) :
    ({ db with operations := db.operations.modify operationId f } : OperationDb R T).row X =
      if X = operationId then (db.row operationId).map f else db.row X :=
  Dict.get_modify _ _ _ _

theorem row_set (row : OperationRow R T) (operationId X : PyStr) :
    ({ db with operations := db.operations.set operationId row } : OperationDb R T).row X =
      if X = operationId then some row else db.row X :=
  Dict.get_set _ _ _ _

/-- The two ways to reserve an operation. -/
inductive Reserves (db : OperationDb R T) (operationId requestHash : PyStr) (now : T) :
    OperationDb R T → Prop where
  | inserted (hnew : db.row operationId = none) : Reserves db operationId requestHash now
      { db with
        operations := db.operations.set operationId ⟨requestHash, .pending, none, now, none⟩ }
  | consumed (row) (hrow : db.row operationId = some row)
      (hmatches : Matches row requestHash .retryAuthorized) :
      Reserves db operationId requestHash now
        { db with operations := db.operations.modify operationId (·.reopen now) }

theorem reserveOperation_eq_ok {reserved : Bool}
    (h : reserveOperation table operationId requestHash now db = .ok reserved db') :
    (reserved = false ∧ db' = db) ∨
      reserved = true ∧ (encode operationId).isSome = true ∧
        (encode requestHash).isSome = true ∧ Reserves db operationId requestHash now db' := by
  rw [reserveOperation, immediate_eq_ok, bind_eq_ok] at h
  obtain ⟨existing, db₁, hselect, h⟩ := h
  obtain ⟨hid, hexisting, hdb⟩ := selectOperation_eq_ok.mp hselect
  rw [hexisting, hdb] at h
  cases hrow : db.row operationId with
  | some row =>
    simp only [hrow] at h
    obtain ⟨_, db₂, hcheck, hrest⟩ := bind_eq_ok.mp h
    rw [(raiseIf_eq_ok.mp hcheck).2] at hrest
    split_ifs at hrest with hstatus
    · simp only [bind_eq_ok, bindText_eq_ok, raiseIf_eq_ok, pure_eq_ok] at hrest
      obtain ⟨_, _, ⟨htext, rfl⟩, n, _, hupdate, _, _, ⟨hn, rfl⟩, rfl, rfl⟩ := hrest
      rcases updateOperation_eq_ok.mp hupdate with ⟨row', hrow', hmatches, _, rfl⟩ | ⟨_, rfl, _⟩
      · exact .inr ⟨rfl, hid, htext, .consumed row' hrow' hmatches⟩
      · exact absurd (by decide : (0 : ℕ) ≠ 1) hn
    · exact .inl (pure_eq_ok.mp hrest)
  | none =>
    simp only [hrow, bind_eq_ok, bindText_eq_ok, modify_eq_ok, pure_eq_ok] at h
    obtain ⟨_, _, ⟨_, rfl⟩, _, _, ⟨htext, rfl⟩, _, _, rfl, rfl, rfl⟩ := h
    exact .inr ⟨rfl, hid, htext, .inserted hrow⟩

theorem reserveOperation_error {e : OperationError}
    (h : reserveOperation table operationId requestHash now db = .error e db') : db' = db :=
  immediate_rollback h

/-- The commit of a response to the row it was reserved for. -/
def Commits (db : OperationDb R T) (operationId requestHash : PyStr) (response : R) (now : T)
    (db' : OperationDb R T) : Prop :=
  ∃ row, db.row operationId = some row ∧ Matches row requestHash .pending ∧
    db' = { db with operations := db.operations.modify operationId (·.complete response now) }

theorem commitResponse_eq_ok {response : R} {n : ℕ}
    (h : commitResponse table operationId requestHash response now db = .ok n db') :
    (n = 1 ∧ table.storable response = true ∧
        Commits db operationId requestHash response now db') ∨
      n = 0 ∧ db' = db ∧
        ∀ row, db.row operationId = some row → ¬ Matches row requestHash .pending := by
  simp only [commitResponse, bind_eq_ok, raiseIf_eq_ok, bindText_eq_ok] at h
  obtain ⟨_, _, ⟨hstorable, rfl⟩, _, _, ⟨_, rfl⟩, _, _, ⟨_, rfl⟩, h⟩ := h
  rcases updateOperation_eq_ok.mp h with ⟨row, hrow, hmatches, rfl, rfl⟩ | ⟨hnone, rfl, rfl⟩
  · exact .inl ⟨rfl, by simpa using hstorable, row, hrow, hmatches, rfl⟩
  · exact .inr ⟨rfl, rfl, hnone⟩

theorem commitResponse_error {response : R} {e : OperationError}
    (h : commitResponse table operationId requestHash response now db = .error e db') :
    db' = db := by
  have hatomic : Atomic (commitResponse table operationId requestHash response now) := by
    apply (readOnly_raiseIf _ _).bind_atomic
    intro _ _ _
    apply (readOnly_raiseIf _ _).bind_atomic
    intro _ _ _
    apply (readOnly_raiseIf _ _).bind_atomic
    intro _ _ _
    exact (infallible_updateOperation _ _ _ _).atomic
  exact hatomic _ _ _ h

/-- A reconciliation that took effect. -/
def Reconciles (table : ResponseTable F R A) (db : OperationDb R T) (args : ReconcileArgs F)
    (action : ReconcileAction) (completion : Option R) (now : T) (db' : OperationDb R T) : Prop :=
  ∃ row, db.row args.operationId = some row ∧ Matches row args.requestSha256 .pending ∧
    (action = .complete ↔ completion.isSome = true) ∧
    (∀ response, completion = some response → table.storable response = true) ∧
    db' = { db with
      operations := db.operations.modify args.operationId (reconciled action completion now)
      reconciliations := db.reconciliations ++ [⟨table.kind, args.operationId,
        args.requestSha256, .pending, action, args.actor, args.reason,
        args.evidenceReceiptSha256, now⟩] }

theorem completionOf_eq_ok {args : ReconcileArgs F} {action : ReconcileAction}
    {completion : Option R}
    (h : completionOf table args action db = .ok completion db') :
    (action = .complete ↔ completion.isSome = true) ∧ db' = db := by
  unfold completionOf at h
  split_ifs at h with haction
  · cases hvalid : table.validated args.response with
    | ok response =>
      rw [hvalid] at h
      obtain ⟨rfl, rfl⟩ := pure_eq_ok.mp h
      exact ⟨by simp [haction], rfl⟩
    | error e =>
      rw [hvalid] at h
      cases h
  · simp only [bind_eq_ok, raiseIf_eq_ok, pure_eq_ok] at h
    obtain ⟨_, _, ⟨_, rfl⟩, rfl, rfl⟩ := h
    exact ⟨by simp [haction], rfl⟩

theorem reconcileOperation_eq_ok {args : ReconcileArgs F} {u : Unit}
    (h : reconcileOperation table args now db = .ok u db') :
    ∃ action completion, Reconciles table db args action completion now db' := by
  simp only [reconcileOperation, validateAttestation, bind_eq_ok, orRaise_eq_ok,
    raiseIf_eq_ok] at h
  obtain ⟨action, _, ⟨_, rfl⟩, _, _, ⟨_, rfl⟩, _, _, ⟨_, rfl⟩, _, _, ⟨_, _, ⟨_, rfl⟩, _, _,
    ⟨_, rfl⟩, _, rfl⟩, completion, _, hcompletion, h⟩ := h
  obtain ⟨hcomplete, rfl⟩ := completionOf_eq_ok hcompletion
  simp only [reconcileTransaction, immediate_eq_ok, bind_eq_ok, raiseIf_eq_ok, get_apply,
    EStateM.Result.ok.injEq, orRaise_eq_ok, modify_eq_ok] at h
  obtain ⟨_, _, ⟨_, rfl⟩, _, _, ⟨rfl, rfl⟩, row, _, ⟨hrow, rfl⟩, _, _, ⟨_, rfl⟩, _, _, ⟨_, rfl⟩, _,
    _, ⟨hstorable, rfl⟩, n, _, hupdate, _, _, ⟨hn, rfl⟩, _, _, ⟨_, rfl⟩, rfl⟩ := h
  rcases updateOperation_eq_ok.mp hupdate with ⟨row', hrow', hmatches, _, rfl⟩ | ⟨_, rfl, _⟩
  · refine ⟨action, completion, row', hrow', hmatches, hcomplete, ?_, rfl⟩
    rintro response rfl
    simpa using hstorable
  · exact absurd (by decide : (0 : ℕ) ≠ 1) hn

theorem reconcileOperation_error {args : ReconcileArgs F} {e : RecoveryError}
    (h : reconcileOperation table args now db = .error e db') : db' = db := by
  have hcompletion : ∀ action, ReadOnly (completionOf table args action :
      RecoveryTx R T (Option R)) := by
    intro action
    unfold completionOf
    split_ifs
    · cases table.validated args.response with
      | ok response => exact readOnly_pure _
      | error e => exact readOnly_throw _
    · exact (readOnly_raiseIf _ _).bind fun _ => readOnly_pure _
  have hatomic : Atomic (reconcileOperation table args now) := by
    apply (readOnly_orRaise _ _).bind_atomic
    intro _ action _
    apply (readOnly_raiseIf _ _).bind_atomic
    intro _ _ _
    apply (readOnly_raiseIf _ _).bind_atomic
    intro _ _ _
    apply ((readOnly_raiseIf _ _).bind fun _ => (readOnly_raiseIf _ _).bind fun _ =>
      readOnly_raiseIf _ _).bind_atomic
    intro _ _ _
    apply (hcompletion action).bind_atomic
    intro _ _ _ s e s'
    exact immediate_rollback
  exact hatomic _ _ _ h

theorem circuitOutcome_eq {x : CircuitDb T Unit} {r : Except OperationError Unit}
    (h : CircuitOutcome x db r db') :
    db'.operations = db.operations ∧ db'.reconciliations = db.reconciliations := by
  obtain ⟨_, _, _, _, rfl⟩ := h
  exact ⟨rfl, rfl⟩

end Specs

end OperationSystem
