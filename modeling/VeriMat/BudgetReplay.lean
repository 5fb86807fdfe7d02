import VeriMat.CompletedOperations
import VeriMat.Interleaving
import VeriMat.TokenBudget

/-! # Resumed runs

`experiments/budget.py`: a sequence of calls is made again over the database of an earlier run. An
operation whose response was returned is completed, and the inner transport would answer it from
its row for nothing; but the wrapper asks for the total first, and refuses the call once the
limit is reached. -/
namespace BudgetReplay

open PyText JsonText PyValue PyDict Transaction CircuitBreaker OperationStore AtomicProgram Transports
  ModelTransports OperationSystem OperationRuns CompletedOperations Interleaving TokenBudget

variable {F T α β : Type} [PyFloat F] [LinearOrder T] [Zero T]

/-! ## The row of a returned response -/

/-- The row that answers a request. -/
structure Answers (H : Hasher) (r : ModelRequest F) (row : OperationRow ModelResponse T) : Prop where
  admitted : ValidId r.operationId
  reserved : fingerprint H r.hashed = .ok row.requestSha256
  completed : row.status = .completed

/-- Whether a call has selected the row that answers its request. -/
def selected (H : Hasher) (r : ModelRequest F) (known : Prop) :
    (o : Op F T ModelResponse) → Reply o → Prop
  | .select X, .ok (some row) => known ∨ X = r.operationId ∧ Answers H r row
  | _, _ => known

def selectProtocol (H : Hasher) (r : ModelRequest F) :
    Protocol (Op F T ModelResponse) Reply Prop where
  allowed _ _ := True
  replies known o reply known' := known' = selected H r known o reply

/-- Whenever the call returns an answer, it has selected the row. -/
def Tells (H : Hasher) (r : ModelRequest F) (known : Prop) (x : ModelCallM F T α)
    (isAnswer : α → Prop) : Prop :=
  x.run.Follows (selectProtocol H r) (fun known result => ∀ a, result = .ok a → isAnswer a → known)
    known

section Tells
variable {H : Hasher} {r : ModelRequest F} {known : Prop} {isAnswer : β → Prop}
  {requestHash : PyStr}

theorem Tells.bind {isFirst : α → Prop} {x : ModelCallM F T α} {f : α → ModelCallM F T β}
    (hx : Tells H r known x isFirst)
    (hf : ∀ a known, (isFirst a → known) → Tells H r known (f a) isAnswer) :
    Tells H r known (x >>= f) isAnswer := by
  rw [Tells, follows_run_bind]
  apply Program.Follows.mono _ hx
  intro known' result hresult
  cases result with
  | ok a => exact hf a known' (hresult a rfl)
  | error e => exact fun _ h => by cases h

theorem Tells.tryCatch {x : ModelCallM F T β} {handler : OperationError → ModelCallM F T β}
    (hx : Tells H r known x isAnswer) (hhandler : ∀ e known, Tells H r known (handler e) isAnswer) :
    Tells H r known (tryCatch x handler) isAnswer := by
  rw [Tells, follows_run_tryCatch]
  apply Program.Follows.mono _ hx
  intro known' result hresult
  cases result with
  | ok a => exact hresult
  | error e => exact hhandler e known'

variable (B : Builtins F)

end Tells

/-! ## What stands in the database -/

section Runs
variable [Sub T] {H : Hasher} {B : Builtins F} {b : BudgetedTransport} {r : ModelRequest F}
  {db db' : OperationDb ModelResponse T} {row : OperationRow ModelResponse T}
  {response : ModelResponse}

/-- The row of a request, selected and completed. -/
def Stands (H : Hasher) (r : ModelRequest F) (db : OperationDb ModelResponse T) : Prop :=
  (encode r.operationId).isSome = true ∧
    ∃ row, db.row r.operationId = some row ∧ Answers H r row

omit [LinearOrder T] [Zero T] [Sub T] in
theorem Stands.change (h : Stands H r db)
    (hchange : Change (modelTable : ResponseTable F ModelResponse ModelResponse) db db') :
    Stands H r db' := by
  obtain ⟨hencodes, row, hrow, hanswers⟩ := h
  exact ⟨hencodes, row, hchange.completed hrow hanswers.completed, hanswers⟩

/-- The completed rows hold what sqlite3 can store. -/
def StorableDb (db : OperationDb ModelResponse T) : Prop :=
  ∀ X row, db.row X = some row → row.status = .completed →
    ∃ response, row.response = some response ∧ response.storable = true

omit [LinearOrder T] [Zero T] [Sub T] in
/-- An update that completes only with what can be stored. -/
theorem StorableDb.modify (h : StorableDb db) {X : PyStr}
    {f : OperationRow ModelResponse T → OperationRow ModelResponse T}
    (hf : ∀ row, (f row).status = .completed →
      ∃ response, (f row).response = some response ∧ response.storable = true) :
    StorableDb { db with operations := db.operations.modify X f } := by
  intro Y row hrow hstatus
  rw [row_modify] at hrow
  by_cases hY : Y = X
  · rw [if_pos hY] at hrow
    obtain ⟨row', _, rfl⟩ := Option.map_eq_some_iff.mp hrow
    exact hf row' hstatus
  · rw [if_neg hY] at hrow
    exact h Y row hrow hstatus

omit [LinearOrder T] [Zero T] [Sub T] in
theorem StorableDb.change (h : StorableDb db)
    (hchange : Change (modelTable : ResponseTable F ModelResponse ModelResponse) db db') :
    StorableDb db' := by
  cases hchange with
  | kept db' hoperations _ =>
    intro X row hrow
    rw [row_of_operations hoperations] at hrow
    exact h X row hrow
  | reserved X requestHash now db' hreserves =>
    cases hreserves with
    | inserted hnew =>
      intro Y row hrow hstatus
      rw [row_set] at hrow
      split_ifs at hrow
      · cases hrow
        cases hstatus
      · exact h Y row hrow hstatus
    | consumed row hrow hmatches => exact h.modify fun _ hstatus => by cases hstatus
  | committed X requestHash response now db' hstorable hcommits =>
    obtain ⟨row, hrow, hmatches, rfl⟩ := hcommits
    exact h.modify fun _ _ => ⟨response, rfl, hstorable⟩
  | reconciled args action completion now db' hreconciles =>
    obtain ⟨row, hrow, hmatches, hcomplete, hstorable, rfl⟩ := hreconciles
    have hmodified : StorableDb { db with
        operations := db.operations.modify args.operationId (reconciled action completion now) } := by
      apply h.modify
      intro row' hstatus
      cases action with
      | complete =>
        cases completion with
        | none => simp at hcomplete
        | some response => exact ⟨response, rfl, hstorable response rfl⟩
      | authorizeRetry => cases hstatus
      | abandon => cases hstatus
    exact hmodified

/-- A completed row that a request is answered from, with its response. -/
structure Replayable (H : Hasher) (r : ModelRequest F) (response : ModelResponse)
    (db : OperationDb ModelResponse T) : Prop where
  encodes : (encode r.operationId).isSome = true
  storable : response.storable = true
  row : ∃ row, db.row r.operationId = some row ∧ Answers H r row ∧ row.response = some response

omit [LinearOrder T] [Zero T] [Sub T] in
theorem Replayable.change (h : Replayable H r response db)
    (hchange : Change (modelTable : ResponseTable F ModelResponse ModelResponse) db db') :
    Replayable H r response db' := by
  obtain ⟨row, hrow, hanswers, hresponse⟩ := h.row
  exact ⟨h.encodes, h.storable, row, hchange.completed hrow hanswers.completed, hanswers, hresponse⟩

end Runs

/-! ## Runs made again -/

section Repeats
variable [Sub T]

abbrev BudgetSystem (F T : Type) [LinearOrder T] [Zero T] :=
  System (OperationDb ModelResponse T) (ModelCall F T) (BudgetOp F T) BudgetReply
    (Except BudgetError ModelResponse)

/-- A call of this request has returned this response. -/
def Returned (sys : BudgetSystem F T) (request : ModelRequest F) (response : ModelResponse) : Prop :=
  ∃ p ∈ sys.processes, p.call.request = request ∧ p.program = .done (.ok response)

/-- The calls can be made again in turn, and an operation whose response was returned returns it
again exactly when the total is below the limit as its turn comes. -/
structure Repeats (H : Hasher) (B : Builtins F) (b : BudgetedTransport) (sys : BudgetSystem F T)
    (calls : List (ModelCall F T)) : Prop where
  possible : ∃ outcomes, InTurn (budgetMachine H B b) sys.state calls outcomes
  repeated : ∀ outcomes, InTurn (budgetMachine H B b) sys.state calls outcomes →
    ∀ (i : ℕ) call response, calls[i]? = some call → Returned sys call.request response →
      ∃ db result, outcomes[i]? = some (db, result) ∧
        (result = .ok response ↔ spentTokens db < b.maxTokens)

end Repeats

end BudgetReplay
