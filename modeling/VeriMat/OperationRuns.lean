import VeriMat.OperationProtocol

/-! # Runs of transport calls

The changes a step makes to the operation table, the moves a call makes in its protocol, and what
a process knows of the table at each of them. -/
namespace OperationRuns

open PyText JsonText PyValue PyDict Transaction CircuitBreaker OperationStore AtomicProgram Transports
  OperationSystem OperationProtocol

variable {F T R A : Type}

/-! ## Changes -/

/-- What one step of anybody does to the operation table and to the reconciliations. -/
inductive Change (table : ResponseTable F R A) (db : OperationDb R T) :
    OperationDb R T → Prop where
  | kept (db') (hoperations : db'.operations = db.operations)
      (hreconciliations : db'.reconciliations = db.reconciliations) : Change table db db'
  | reserved (X requestHash now db') (h : Reserves db X requestHash now db') : Change table db db'
  | committed (X requestHash response now db') (hstorable : table.storable response = true)
      (h : Commits db X requestHash response now db') : Change table db db'
  | reconciled (args action completion now db')
      (h : Reconciles table db args action completion now db') : Change table db db'

variable {table : ResponseTable F R A} {db db' : OperationDb R T} {X requestHash : PyStr}

theorem change_refl : Change table db db := .kept db rfl rfl

theorem change_of_circuit {x : CircuitDb T Unit} {r : Except OperationError Unit}
    (h : CircuitOutcome x db r db') : Change table db db' :=
  .kept db' (circuitOutcome_eq h).1 (circuitOutcome_eq h).2

theorem external_change [PyFloat F] [LinearOrder T] [Zero T] [Sub T]
    (h : External table db db') : Change table db db' := by
  cases h with
  | reconcile args now r db' h =>
    cases r with
    | error e =>
      rw [reconcileOperation_error (outcome_error.mp h)]
      exact change_refl
    | ok u =>
      obtain ⟨action, completion, hchange⟩ := reconcileOperation_eq_ok (outcome_ok.mp h)
      exact .reconciled args action completion now db' hchange
  | register circuitId now => exact .kept _ rfl rfl

section Perform
variable [PyFloat F] [LinearOrder T] [Zero T] [Sub T]

theorem perform_reserve {r : Except OperationError Bool}
    (h : perform table db (.reserve X requestHash : Op F T R) r db') :
    (r = .ok true ∧ (encode X).isSome = true ∧ (encode requestHash).isSome = true ∧
        ∃ now, Reserves db X requestHash now db') ∨
      r ≠ .ok true ∧ db' = db := by
  obtain ⟨now, h⟩ := h
  cases r with
  | error e => exact .inr ⟨by simp, reserveOperation_error (outcome_error.mp h)⟩
  | ok reserved =>
    rcases reserveOperation_eq_ok (outcome_ok.mp h) with ⟨rfl, rfl⟩ | ⟨rfl, hX, hhash, hreserves⟩
    · exact .inr ⟨by simp, rfl⟩
    · exact .inl ⟨rfl, hX, hhash, now, hreserves⟩

theorem perform_commit {response : R} {r : Except OperationError ℕ}
    (h : perform table db (.commit X requestHash response : Op F T R) r db') :
    (r = .ok 1 ∧ table.storable response = true ∧
        ∃ now, Commits db X requestHash response now db') ∨
      r ≠ .ok 1 ∧ db' = db := by
  obtain ⟨now, h⟩ := h
  cases r with
  | error e => exact .inr ⟨by simp, commitResponse_error (outcome_error.mp h)⟩
  | ok n =>
    rcases commitResponse_eq_ok (outcome_ok.mp h) with ⟨rfl, hstorable, hcommits⟩ | ⟨rfl, rfl, _⟩
    · exact .inl ⟨rfl, hstorable, now, hcommits⟩
    · exact .inr ⟨by simp, rfl⟩

theorem perform_select {r : Except OperationError (Option (OperationRow R T))}
    (h : perform table db (.select X : Op F T R) r db') :
    db' = db ∧ ((encode X).isSome = true → r = .ok (db.row X)) := by
  cases r with
  | error e =>
    have hraised := outcome_error.mp h
    rw [selectOperation] at hraised
    rcases bind_eq_error.mp hraised with hbind | ⟨_, _, _, hrest⟩
    · rw [OperationStore.bindText] at hbind
      refine ⟨raiseIf_error hbind, ?_⟩
      intro hX
      have hfine : ¬ (encode X).isNone = true := by
        rw [← Option.not_isSome, hX]
        exact Bool.false_ne_true
      rw [raiseIf, if_neg hfine] at hbind
      cases hbind
    · cases hrest
  | ok row =>
    obtain ⟨_, rfl, rfl⟩ := selectOperation_eq_ok.mp (outcome_ok.mp h)
    exact ⟨rfl, fun _ => rfl⟩

theorem perform_beforeCall {circuit : Breaker T}
    (h : perform table db (.beforeCall circuit X : Op F T R) (Except.ok ()) db') :
    ModelTransports.ValidId X := by
  obtain ⟨now, reply, circuits, houtcome, hreply, _⟩ := h
  cases reply with
  | error e => cases hreply
  | ok u =>
    have hadmitted := outcome_ok.mp houtcome
    simp only [CircuitBreaker.beforeCall, checkOperation, bind_eq_ok, raiseIf_eq_ok] at hadmitted
    obtain ⟨_, _, ⟨hvalid, _⟩, _⟩ := hadmitted
    exact hvalid

/-- Only reservations and commits change the table. -/
theorem perform_passive {o : Op F T R} (ho : Op.passive o = true) {r : Reply o}
    (h : perform table db o r db') :
    db'.operations = db.operations ∧ db'.reconciliations = db.reconciliations := by
  cases o with
  | select X =>
    rw [(perform_select h).1]
    exact ⟨rfl, rfl⟩
  | beforeCall circuit X => exact circuitOutcome_eq h.choose_spec
  | recordSuccess circuit X => exact circuitOutcome_eq h.choose_spec
  | recordFailure circuit X reasonCode => exact circuitOutcome_eq h.choose_spec
  | session =>
    rw [show db' = db from h]
    exact ⟨rfl, rfl⟩
  | utcnow =>
    rw [show db' = db from h]
    exact ⟨rfl, rfl⟩
  | append record =>
    rw [h.2]
    exact ⟨rfl, rfl⟩
  | reserve X requestHash => cases ho
  | commit X requestHash response => cases ho
  | transmit X => cases ho
  | receive wire X => cases ho

theorem perform_change {o : Op F T R} {r : Reply o} (h : perform table db o r db') :
    Change table db db' := by
  by_cases ho : Op.passive o = true
  · obtain ⟨hoperations, hreconciliations⟩ := perform_passive ho h
    exact .kept db' hoperations hreconciliations
  · cases o with
    | reserve X requestHash =>
      rcases perform_reserve h with ⟨_, _, _, now, hreserves⟩ | ⟨_, rfl⟩
      · exact .reserved X requestHash now db' hreserves
      · exact change_refl
    | commit X requestHash response =>
      rcases perform_commit h with ⟨_, hstorable, now, hcommits⟩ | ⟨_, rfl⟩
      · exact .committed X requestHash response now db' hstorable hcommits
      · exact change_refl
    | transmit X =>
      rw [show db' = db from h]
      exact change_refl
    | receive wire X =>
      rw [show db' = db from h]
      exact change_refl
    | _ => exact absurd rfl ho

end Perform

/-! ### Completed rows -/

theorem row_of_operations {db db' : OperationDb R T} (h : db'.operations = db.operations)
    (X : PyStr) : db'.row X = db.row X := by
  rw [OperationDb.row, OperationDb.row, h]

/-- No change touches a completed row. -/
theorem Change.completed (h : Change table db db') {row : OperationRow R T}
    (hrow : db.row X = some row) (hstatus : row.status = .completed) : db'.row X = some row := by
  have hupdated : ∀ {Y requestHash status} {f : OperationRow R T → OperationRow R T} {row'},
      db.row Y = some row' → Matches row' requestHash status → status ≠ .completed →
      ({ db with operations := db.operations.modify Y f } : OperationDb R T).row X = some row := by
    intro Y requestHash status f row' hrow' hmatches hother
    rw [row_modify, if_neg, hrow]
    rintro rfl
    rw [hrow, Option.some.injEq] at hrow'
    rw [← hrow'] at hmatches
    exact hother (hmatches.2.symm.trans hstatus)
  cases h with
  | kept db' hoperations _ => rw [row_of_operations hoperations, hrow]
  | reserved Y requestHash now db' h =>
    cases h with
    | inserted hnew =>
      rw [row_set, if_neg, hrow]
      rintro rfl
      rw [hnew] at hrow
      cases hrow
    | consumed row' hrow' hmatches => exact hupdated hrow' hmatches (by decide)
  | committed Y requestHash response now db' _ h =>
    obtain ⟨row', hrow', hmatches, rfl⟩ := h
    exact hupdated hrow' hmatches (by decide)
  | reconciled args action completion now db' h =>
    obtain ⟨row', hrow', hmatches, _, _, rfl⟩ := h
    exact hupdated hrow' hmatches (by decide)

/-! ## Moves -/

theorem afterReserve_of_ne {r : Except OperationError Bool} (hr : r ≠ .ok true) :
    afterReserve X requestHash r = (.idle : Progress R) := by
  cases r with
  | error e => rfl
  | ok reserved =>
    cases reserved with
    | false => rfl
    | true => exact absurd rfl hr

theorem afterCommit_inert {response : R} {r : Except OperationError ℕ} (hr : r ≠ .ok 1) :
    (afterCommit X requestHash response r).inert = true := by
  cases r with
  | error e => rfl
  | ok n =>
    rw [afterCommit, if_neg]
    · rfl
    · rintro rfl
      exact hr rfl

section Moves
variable [LinearOrder T] [Zero T]

/-- The moves of a call: what it does where, and where the reply takes it. -/
inductive Move (valid : Validity F R) :
    Progress R → (o : Op F T R) → Reply o → Progress R → Prop where
  | passive (g : Progress R) (o : Op F T R) (r) (hg : g.inert = true) (ho : Op.passive o = true) :
      Move valid g o r g
  | reserve (X requestHash : PyStr) (r) :
      Move valid .idle (.reserve X requestHash) r (afterReserve X requestHash r)
  | transmit (X requestHash : PyStr) :
      Move valid (.reserved X requestHash) (.transmit X) () (.sent X requestHash)
  | receive (X requestHash : PyStr) (wire r) :
      Move valid (.sent X requestHash) (.receive wire X) r
        (afterReceive valid X requestHash wire r)
  | recordSuccess (circuit : Breaker T) (X requestHash : PyStr) (response : R) (r) :
      Move valid (.paid X requestHash response) (.recordSuccess circuit X) r
        (afterSuccess X requestHash response r)
  | commit (X requestHash : PyStr) (response : R) (r) :
      Move valid (.settled X requestHash response) (.commit X requestHash response) r
        (afterCommit X requestHash response r)
  | select (X requestHash : PyStr) (response : R) (r) :
      Move valid (.committed X requestHash response) (.select X) r
        (.committed X requestHash response)
  | utcnow (X requestHash : PyStr) (response : R) (r) :
      Move valid (.committed X requestHash response) .utcnow r
        (.committed X requestHash response)
  | append (X requestHash : PyStr) (response : R) (record : PyVal F) (r) :
      Move valid (.committed X requestHash response) (.append record) r
        (afterAppend X requestHash response r)

/-- Every allowed operation is a move. -/
theorem move_of_allows {valid : Validity F R} {admits : PyStr → Prop} {g : Progress R}
    {o : Op F T R} (h : g.allows admits o) (r : Reply o) :
    Move valid g o r (g.next valid o r) := by
  by_cases hpassive : g.inert = true ∧ Op.passive o = true
  · rw [next_of_inert hpassive.1 hpassive.2]
    exact .passive g o r hpassive.1 hpassive.2
  · cases g with
    | idle =>
      cases o with
      | reserve X requestHash => exact .reserve X requestHash r
      | _ => exact absurd ⟨rfl, h⟩ hpassive
    | reserved X requestHash =>
      cases o with
      | transmit Y =>
        obtain rfl : Y = X := h
        exact .transmit Y requestHash
      | _ => cases h
    | sent X requestHash =>
      cases o with
      | receive wire Y =>
        obtain rfl : Y = X := h
        exact .receive Y requestHash wire r
      | _ => cases h
    | paid X requestHash response =>
      cases o with
      | recordSuccess circuit Y =>
        obtain rfl : Y = X := h
        exact .recordSuccess circuit Y requestHash response r
      | _ => cases h
    | settled X requestHash response =>
      cases o with
      | commit Y hash answer =>
        obtain ⟨rfl, rfl, rfl⟩ := h
        exact .commit Y hash answer r
      | _ => cases h
    | committed X requestHash response =>
      cases o with
      | select Y =>
        obtain rfl : Y = X := h
        exact .select Y requestHash response r
      | utcnow => exact .utcnow X requestHash response r
      | append record => exact .append X requestHash response record r
      | _ => cases h
    | stranded => exact absurd ⟨rfl, h⟩ hpassive
    | invalid => exact absurd ⟨rfl, h⟩ hpassive
    | lost => exact absurd ⟨rfl, h⟩ hpassive

end Moves

/-! ## Knowledge of the table -/

/-- What a process knows of the row it reserved: sqlite3 takes its keys, and a response it
committed stays. -/
def KnowsRow (db : OperationDb R T) : Progress R → Prop
  | .reserved X requestHash | .sent X requestHash | .paid X requestHash _ =>
    (encode X).isSome = true ∧ (encode requestHash).isSome = true
  | .settled X requestHash _ => (encode X).isSome = true ∧ (encode requestHash).isSome = true
  | .committed X requestHash response =>
    (encode X).isSome = true ∧
      ∃ row, db.row X = some row ∧ Holds row requestHash response
  | _ => True

theorem knowsRow_of_inert {g : Progress R} (hg : g.inert = true) : KnowsRow db g := by
  cases g <;> trivial

theorem KnowsRow.change {g : Progress R} (h : KnowsRow db g) (hchange : Change table db db') :
    KnowsRow db' g := by
  cases g with
  | committed X requestHash response =>
    obtain ⟨hX, row, hrow, hholds⟩ := h
    exact ⟨hX, row, hchange.completed hrow hholds.2.1, hholds⟩
  | _ => exact h

section Steps
variable [PyFloat F] [LinearOrder T] [Zero T] [Sub T] {valid : Validity F R}

/-- The protocol's promise about what a committed call selects holds. -/
theorem KnowsRow.possible {g : Progress R} (h : KnowsRow db g) {o : Op F T R} {r : Reply o}
    {admits : PyStr → Prop} (hallows : g.allows admits o) (hperform : perform table db o r db') : g.possible o r := by
  cases g with
  | idle =>
    cases o with
    | beforeCall circuit X =>
      rintro rfl
      exact perform_beforeCall hperform
    | _ => trivial
  | committed X requestHash response =>
    cases o with
    | select Y =>
      obtain rfl : Y = X := hallows
      obtain ⟨hX, row, hrow, hholds⟩ := h
      refine ⟨row, ?_, hholds⟩
      rw [← hrow]
      exact (perform_select hperform).2 hX
    | _ => trivial
  | _ => trivial

/-- A move takes the knowledge along. -/
theorem KnowsRow.move {g g' : Progress R} (h : KnowsRow db g) {o : Op F T R} {r : Reply o}
    (hmove : Move valid g o r g') (hperform : perform table db o r db') : KnowsRow db' g' := by
  have hkept : KnowsRow db' g := h.change (perform_change hperform)
  cases hmove with
  | passive hg ho => exact hkept
  | reserve X requestHash =>
    rcases perform_reserve hperform with ⟨hr, hX, hhash, _⟩ | ⟨hr, _⟩
    · rw [hr]
      exact ⟨hX, hhash⟩
    · rw [afterReserve_of_ne hr]
      trivial
  | transmit X requestHash => exact h
  | receive X requestHash wire =>
    unfold afterReceive
    split
    · split
      · exact h
      · trivial
    · trivial
  | recordSuccess circuit X requestHash response =>
    unfold afterSuccess
    split
    · exact h
    · trivial
  | commit X requestHash response =>
    rcases perform_commit hperform with ⟨hr, _, now, row, hrow, hmatches, rfl⟩ | ⟨hr, _⟩
    · rw [hr]
      refine ⟨h.1, row.complete response now, ?_, hmatches.1, rfl, rfl⟩
      rw [row_modify, if_pos rfl, hrow]
      rfl
    · exact knowsRow_of_inert (afterCommit_inert hr)
  | select X requestHash response => exact hkept
  | utcnow X requestHash response => exact hkept
  | append X requestHash response record =>
    unfold afterAppend
    split
    · exact hkept
    · trivial

/-! ## Machines -/

/-- A machine whose processes follow the protocol over one operation table. -/
structure Conforms {C : Type} (table : ResponseTable F R A) (admits : PyStr → Prop)
    (valid : C → Validity F R) (M : Machine (OperationDb R T) C (Op F T R) Reply (Except OperationError A)) : Prop where
  perform : ∀ db o r db', M.perform db o r db' → OperationSystem.perform table db o r db'
  external : ∀ db db', M.external db db' → External table db db'
  follows : ∀ c, (M.program c).Follows (protocol admits (valid c)) (Delivers table) .idle

/-- An operation database before its first operation. -/
def freshDb (circuits : Circuits T) : OperationDb R T := ⟨empty, [], circuits⟩

theorem Conforms.tracking {C : Type} {admits : PyStr → Prop} {valid : C → Validity F R}
    {M : Machine (OperationDb R T) C (Op F T R) Reply (Except OperationError A)}
    {G : OperationDb R T → Process C (Op F T R) Reply (Except OperationError A) → Prop}
    {I : OperationDb R T → Prop} (h : Conforms table admits valid M) :
    Tracking M G I (fun c => protocol admits (valid c)) (fun db _ _ g => KnowsRow db g)
      (fun _ => Delivers table) where
  start db c _ := ⟨.idle, trivial, h.follows c⟩
  act db c log g o next r db' _ hknows hallows _ hperform := by
    have hstep := h.perform db o r db' hperform
    exact ⟨g.next (valid c) o r, ⟨hknows.possible hallows hstep, rfl⟩,
      hknows.move (move_of_allows hallows r) hstep⟩
  stable db c log g db' _ hknows hstep := by
    rcases hstep with ⟨o, r, hperform⟩ | hexternal
    · exact hknows.change (perform_change (h.perform db o r db' hperform))
    · exact hknows.change (external_change (h.external db db' hexternal))

theorem Conforms.change {C : Type} {admits : PyStr → Prop} {valid : C → Validity F R}
    {M : Machine (OperationDb R T) C (Op F T R) Reply (Except OperationError A)}
    (h : Conforms table admits valid M)
    (hstep : (∃ o r, M.perform db o r db') ∨ M.external db db') : Change table db db' := by
  rcases hstep with ⟨o, r, hperform⟩ | hexternal
  · exact perform_change (h.perform db o r db' hperform)
  · exact external_change (h.external db db' hexternal)

/-- What counts as a valid response of a call. -/
def retrievalValidity : RetrievalCall F T → Validity F (RenderedJson F)
  | .search _ _ _ _ _ => retrievalValid searchEndpoint
  | .content _ _ _ _ _ => retrievalValid contentEndpoint

def modelValidity (B : ModelTransports.Builtins F) : ModelCall F T → Validity F ModelResponse
  | .claudeCode transport _ => claudeValid B transport
  | .openCode transport _ => openCodeValid B transport

theorem retrievalMachine_conforms (H : Hasher) :
    Conforms retrievalTable ModelTransports.ValidId retrievalValidity
      (retrievalMachine H : Machine _ (RetrievalCall F T) _ _ _) where
  perform _ _ _ _ h := h
  external _ _ h := h
  follows c := by
    cases c with
    | search circuit operationId query topK filters =>
      change Program.Follows _ _ (search H circuit operationId query topK filters).run _
      rw [search, follows_compute]
      cases fingerprint H (searchRequest query topK filters) with
      | error e => trivial
      | ok requestHash => exact retrieve_follows circuit searchEndpoint operationId requestHash
    | content circuit operationId docId offset limit =>
      change Program.Follows _ _ (content H circuit operationId docId offset limit).run _
      rw [content, follows_compute]
      cases fingerprint H (contentRequest docId offset limit : PyVal F) with
      | error e => trivial
      | ok requestHash => exact retrieve_follows circuit contentEndpoint operationId requestHash

theorem modelMachine_conforms (H : Hasher) (B : ModelTransports.Builtins F) :
    Conforms modelTable ModelTransports.ValidId (modelValidity B)
      (modelMachine H B : Machine _ (ModelCall F T) _ _ _) where
  perform _ _ _ _ h := h
  external _ _ h := h
  follows c := by
    cases c with
    | claudeCode transport request => exact completeClaudeCode_follows H B transport request
    | openCode transport request => exact completeOpenCode_follows H B transport request

end Steps

end OperationRuns
