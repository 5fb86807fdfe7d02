import VeriMat.PaidResponses

/-! # Token budgets

`experiments/budget.py`: before and after each call of the inner transport, the wrapper compares
its limit with the tokens of all completed operations in the database that every caller writes
to. -/
namespace TokenBudget

open PyText JsonText PyValue PyDict Transaction Events CircuitBreaker OperationStore AtomicProgram
  Transports ModelTransports OperationSystem OperationRuns

variable {F T : Type}

/-! ## The wrapper -/

/-- `BudgetedTransport`, without its inner transport; a limit under 1000 is refused. -/
structure BudgetedTransport where
  maxTokens : ℤ
  runs : 1000 ≤ maxTokens

/-- A `BudgetExhausted`, before or after the call, or an exception of the inner transport. -/
inductive BudgetError where
  | exhausted (maxTokens : ℤ)
  | crossed (maxTokens : ℤ)
  | inner (e : OperationError)
  deriving DecidableEq

def tokens (r : ModelResponse) : ℤ := r.inputTokens + r.outputTokens

/-- The rows `WHERE status='COMPLETED'`, with what their response columns hold. -/
def completedOperations (db : OperationDb ModelResponse T) : List (PyStr × ModelResponse) :=
  db.operations.items.filterMap fun p =>
    if p.2.status = .completed then p.2.response.map (p.1, ·) else none

/-- `SELECT COALESCE(SUM(input_tokens + output_tokens), 0)`. -/
def spentTokens (db : OperationDb ModelResponse T) : ℤ :=
  ((completedOperations db).map fun p => tokens p.2).sum

/-- An operation of the inner transport, or the query of `_spent`. -/
inductive BudgetOp (F T : Type) [LT T] [Zero T] where
  | inner (o : Op F T ModelResponse)
  | spent

section Programs
variable [LinearOrder T] [Zero T]

def BudgetReply : BudgetOp F T → Type
  | .inner o => Reply o
  | .spent => ℤ

abbrev BudgetCall (F T α : Type) [LinearOrder T] [Zero T] :=
  Fallible (BudgetOp F T) BudgetReply BudgetError α

/-- `_spent`. -/
def spent : BudgetCall F T ℤ := ExceptT.lift (.step .spent .done)

/-- `self.inner.complete(**kwargs)`. -/
def innerComplete (x : ModelCallM F T ModelResponse) : BudgetCall F T ModelResponse :=
  (ExceptT.mk (x.run.embed .inner fun _ r => r) :
    Fallible (BudgetOp F T) BudgetReply OperationError ModelResponse).adapt .inner

/-- `complete`. -/
def complete (b : BudgetedTransport) (x : ModelCallM F T ModelResponse) :
    BudgetCall F T ModelResponse := do
  let before ← spent
  if b.maxTokens ≤ before then throw (.exhausted b.maxTokens)
  else
    let response ← innerComplete x
    let after ← spent
    if b.maxTokens < after then throw (.crossed b.maxTokens)
    else pure response

variable [PyFloat F] [Sub T]

/-- Any number of callers with one limit over one database, each with its own wrapper. -/
def budgetMachine (H : Hasher) (B : Builtins F) (b : BudgetedTransport) :
    Machine (OperationDb ModelResponse T) (ModelCall F T) (BudgetOp F T) BudgetReply
      (Except BudgetError ModelResponse) where
  program call := (complete b (call.program H B)).run
  perform db
    | .inner o, r, db' => perform modelTable db o r db'
    | .spent, total, db' => total = spentTokens db ∧ db' = db
  external := External (modelTable : ResponseTable F ModelResponse ModelResponse)

end Programs

/-! ## What the inner transports return -/

/-- A response whose token counts are counts. -/
def Metered (r : ModelResponse) : Prop := 0 ≤ r.inputTokens ∧ 0 ≤ r.outputTokens

section Answers
variable [LinearOrder T] [Zero T] {X requestHash : PyStr} {α β : Type}

/-- Only metered responses are committed. -/
def mayPerform : Op F T ModelResponse → Prop
  | .commit _ _ response => Metered response
  | _ => True

/-- The response of the call's own row, once it was seen completed. -/
def learn (X : PyStr) (seen : Option ModelResponse) :
    (o : Op F T ModelResponse) → Reply o → Option ModelResponse
  | .select Y, .ok (some row) => if Y = X ∧ row.status = .completed then row.response else seen
  | _, _ => seen

/-- What a call of one operation knows of its row. -/
def answerProtocol (X : PyStr) : Protocol (Op F T ModelResponse) Reply (Option ModelResponse) where
  allowed _ := mayPerform
  replies seen o r seen' := seen' = learn X seen o r

/-- A postcondition for what is returned; any exception may be raised. -/
def Ends (Q : α → Option ModelResponse → Prop) (seen : Option ModelResponse) :
    Except OperationError α → Prop
  | .ok a => Q a seen
  | .error _ => True

/-- A method of an inner transport, with what it returns. -/
def Returns (X : PyStr) (seen : Option ModelResponse) (x : ModelCallM F T α)
    (Q : α → Option ModelResponse → Prop) : Prop :=
  x.run.Follows (answerProtocol X) (Ends Q) seen

variable {seen : Option ModelResponse} {Q : β → Option ModelResponse → Prop}

theorem Returns.bind {Q₁ : α → Option ModelResponse → Prop} {x : ModelCallM F T α}
    {f : α → ModelCallM F T β} (hx : Returns X seen x Q₁)
    (hf : ∀ a seen', Q₁ a seen' → Returns X seen' (f a) Q) : Returns X seen (x >>= f) Q := by
  rw [Returns, follows_run_bind]
  apply hx.mono
  intro seen' r hr
  cases r with
  | ok a => exact hf a seen' hr
  | error e => trivial

theorem Returns.tryCatch {x : ModelCallM F T β} {handler : OperationError → ModelCallM F T β}
    (hx : Returns X seen x Q) (hhandler : ∀ e seen', Returns X seen' (handler e) Q) :
    Returns X seen (tryCatch x handler) Q := by
  rw [Returns, follows_run_tryCatch]
  apply hx.mono
  intro seen' r hr
  cases r with
  | ok a => exact hr
  | error e => exact hhandler e seen'

theorem Returns.weaken {Q' : β → Option ModelResponse → Prop} {x : ModelCallM F T β}
    (hx : Returns X seen x Q) (h : ∀ b seen', Q b seen' → Q' b seen') : Returns X seen x Q' := by
  apply Program.Follows.mono _ hx
  intro seen' r hr
  cases r with
  | ok b => exact h b seen' hr
  | error e => trivial

variable [PyFloat F]

section Decoded
variable {ε γ : Type} {P : γ → Prop}

/-- Whatever a computation returns is as it should be. -/
def OnlyReturns (x : Except ε γ) (P : γ → Prop) : Prop := ∀ c, x = .ok c → P c

theorem onlyReturns_bind {δ : Type} {x : Except ε δ} {f : δ → Except ε γ}
    (hf : ∀ d, OnlyReturns (f d) P) : OnlyReturns (x >>= f) P := by
  cases x with
  | ok d => exact hf d
  | error e => exact fun c hc => by cases hc

theorem onlyReturns_throw (e : ε) : OnlyReturns (throw e : Except ε γ) P :=
  fun c hc => by cases hc

end Decoded

variable (H : Hasher) (B : Builtins F) (r : ModelRequest F)

end Answers

/-! ## The wrapper's protocol -/

/-- What a wrapper knows: its row, and what the last query of `_spent` gave while it knew it. -/
structure Knowledge where
  seen : Option ModelResponse
  checked : Option (ModelResponse × ℤ)

section Protocol
variable [LinearOrder T] [Zero T]

/-- What is returned was in the row when the total was within the limit. -/
def Within (b : BudgetedTransport) (k : Knowledge) : Except BudgetError ModelResponse → Prop
  | .ok response => ∃ total, k.checked = some (response, total) ∧ total ≤ b.maxTokens
  | .error _ => True

end Protocol

/-! ## Completed operations -/

theorem mem_completedOperations {db : OperationDb ModelResponse T} {X : PyStr}
    {response : ModelResponse} :
    (X, response) ∈ completedOperations db ↔
      ∃ row, db.row X = some row ∧ row.status = .completed ∧ row.response = some response := by
  unfold completedOperations
  rw [List.mem_filterMap]
  constructor
  · rintro ⟨⟨Y, row⟩, hmem, hrow⟩
    split_ifs at hrow with hstatus
    obtain ⟨answer, hanswer, heq⟩ := Option.map_eq_some_iff.mp hrow
    cases heq
    exact ⟨row, Dict.get_eq_some.mpr hmem, hstatus, hanswer⟩
  · rintro ⟨row, hrow, hstatus, hresponse⟩
    refine ⟨(X, row), Dict.get_eq_some.mp hrow, ?_⟩
    rw [if_pos hstatus, hresponse]
    rfl

/-- All completed operations are metered. -/
def MeteredDb (db : OperationDb ModelResponse T) : Prop :=
  ∀ p ∈ completedOperations db, Metered p.2

theorem completed_change {table : ResponseTable F ModelResponse ModelResponse}
    {db db' : OperationDb ModelResponse T} (h : Change table db db') {p : PyStr × ModelResponse}
    (hp : p ∈ completedOperations db) : p ∈ completedOperations db' := by
  obtain ⟨row, hrow, hstatus, hresponse⟩ := mem_completedOperations.mp hp
  exact mem_completedOperations.mpr ⟨row, h.completed hrow hstatus, hstatus, hresponse⟩

theorem tokenCount_nonneg {value : Option (PyVal F)} {n : ℤ} (h : tokenCount value = some n) :
    0 ≤ n := by
  unfold tokenCount at h
  split at h
  · split_ifs at h with hn
    cases h
    exact hn
  · cases h

/-- An operator completes with counts only. -/
theorem validatedModelResponse_metered [PyFloat F] (response : Option (PyVal F)) :
    OnlyReturns (validatedModelResponse response) Metered := by
  unfold validatedModelResponse
  dsimp only
  split
  · repeat' first
      | exact onlyReturns_throw _
      | refine onlyReturns_bind fun _ => ?_
      | split
    rename_i hinput _ _ houtput
    rintro _ ⟨⟩
    exact ⟨tokenCount_nonneg hinput, tokenCount_nonneg houtput⟩
  · exact onlyReturns_throw _

section Steps
variable {db db' : OperationDb ModelResponse T}

theorem MeteredDb.of_operations (h : MeteredDb db) (heq : db'.operations = db.operations) :
    MeteredDb db' := by
  unfold MeteredDb completedOperations
  rw [heq]
  exact h

/-- A changed row that is completed has a metered response. -/
theorem MeteredDb.modify (h : MeteredDb db) {X : PyStr} {f : OperationRow ModelResponse T →
    OperationRow ModelResponse T} (hf : ∀ row response, db.row X = some row →
      (f row).status = .completed → (f row).response = some response → Metered response) :
    MeteredDb { db with operations := db.operations.modify X f } := by
  rintro ⟨Y, response⟩ hp
  obtain ⟨row, hrow, hstatus, hresponse⟩ := mem_completedOperations.mp hp
  rw [row_modify] at hrow
  by_cases hY : Y = X
  · subst hY
    rw [if_pos rfl] at hrow
    obtain ⟨row', hrow', rfl⟩ := Option.map_eq_some_iff.mp hrow
    exact hf row' response hrow' hstatus hresponse
  · rw [if_neg hY] at hrow
    exact h _ (mem_completedOperations.mpr ⟨row, hrow, hstatus, hresponse⟩)

theorem MeteredDb.reserved (h : MeteredDb db) {X requestHash : PyStr} {now : T}
    (hreserves : Reserves db X requestHash now db') : MeteredDb db' := by
  cases hreserves with
  | inserted hnew =>
    rintro ⟨Y, response⟩ hp
    obtain ⟨row, hrow, hstatus, hresponse⟩ := mem_completedOperations.mp hp
    rw [row_set] at hrow
    by_cases hY : Y = X
    · rw [if_pos hY] at hrow
      cases hrow
      cases hstatus
    · rw [if_neg hY] at hrow
      exact h _ (mem_completedOperations.mpr ⟨row, hrow, hstatus, hresponse⟩)
  | consumed row hrow hmatches =>
    apply h.modify
    intro row' response _ hstatus
    cases hstatus

theorem MeteredDb.committed (h : MeteredDb db) {X requestHash : PyStr} {response : ModelResponse}
    {now : T} (hmetered : Metered response)
    (hcommits : Commits db X requestHash response now db') : MeteredDb db' := by
  obtain ⟨row, hrow, hmatches, rfl⟩ := hcommits
  apply h.modify
  rintro row' answer _ _ hanswer
  cases hanswer
  exact hmetered

theorem completionOf_metered [PyFloat F] {args : ReconcileArgs F} {action : ReconcileAction}
    {response : ModelResponse}
    (h : completionOf modelTable args action db = .ok (some response) db') : Metered response := by
  unfold completionOf at h
  split_ifs at h
  · cases hvalid : modelTable.validated args.response with
    | ok answer =>
      rw [hvalid] at h
      cases h
      exact validatedModelResponse_metered _ _ hvalid
    | error e =>
      rw [hvalid] at h
      cases h
  · simp only [bind_eq_ok, pure_eq_ok] at h
    obtain ⟨_, _, _, hnone, _⟩ := h
    cases hnone

theorem MeteredDb.reconciled [PyFloat F] (h : MeteredDb db) {args : ReconcileArgs F} {now : T}
    {u : Unit} (hok : reconcileOperation modelTable args now db = .ok u db') : MeteredDb db' := by
  simp only [reconcileOperation, validateAttestation, bind_eq_ok, orRaise_eq_ok,
    raiseIf_eq_ok] at hok
  obtain ⟨action, _, ⟨_, rfl⟩, _, _, ⟨_, rfl⟩, _, _, ⟨_, rfl⟩, _, _, ⟨_, _, ⟨_, rfl⟩, _, _,
    ⟨_, rfl⟩, _, rfl⟩, completion, _, hcompletion, hok⟩ := hok
  obtain ⟨hcomplete, rfl⟩ := completionOf_eq_ok hcompletion
  simp only [reconcileTransaction, immediate_eq_ok, bind_eq_ok, raiseIf_eq_ok, get_apply,
    EStateM.Result.ok.injEq, orRaise_eq_ok, modify_eq_ok] at hok
  obtain ⟨_, _, ⟨_, rfl⟩, _, _, ⟨rfl, rfl⟩, row, _, ⟨hrow, rfl⟩, _, _, ⟨_, rfl⟩, _, _, ⟨_, rfl⟩, _,
    _, ⟨_, rfl⟩, n, _, hupdate, _, _, ⟨hn, rfl⟩, _, _, ⟨_, rfl⟩, rfl⟩ := hok
  rcases updateOperation_eq_ok.mp hupdate with ⟨row', hrow', _, _, rfl⟩ | ⟨_, rfl, _⟩
  · refine MeteredDb.of_operations (h.modify ?_) rfl
    intro row'' response _ hstatus hresponse
    cases action with
    | complete =>
      cases completion with
      | none => simp at hcomplete
      | some answer =>
        cases hresponse
        exact completionOf_metered hcompletion
    | authorizeRetry => cases hstatus
    | abandon => cases hstatus
  · exact absurd (by decide : (0 : ℕ) ≠ 1) hn

variable [PyFloat F] [LinearOrder T] [Zero T] [Sub T]

theorem MeteredDb.perform (h : MeteredDb db) {o : Op F T ModelResponse} {r : Reply o}
    (ho : mayPerform o) (hperform : OperationSystem.perform modelTable db o r db') :
    MeteredDb db' := by
  by_cases hpassive : OperationProtocol.Op.passive o = true
  · exact h.of_operations (perform_passive hpassive hperform).1
  · cases o with
    | reserve X requestHash =>
      rcases perform_reserve hperform with ⟨_, _, _, now, hreserves⟩ | ⟨_, rfl⟩
      · exact h.reserved hreserves
      · exact h
    | commit X requestHash response =>
      rcases perform_commit hperform with ⟨_, _, now, hcommits⟩ | ⟨_, rfl⟩
      · exact h.committed ho hcommits
      · exact h
    | transmit X =>
      rw [show db' = db from hperform]
      exact h
    | receive wire X =>
      rw [show db' = db from hperform]
      exact h
    | _ => exact absurd rfl hpassive

omit [LinearOrder T] [Zero T] [Sub T] in
theorem MeteredDb.external (h : MeteredDb db)
    (hexternal : External (modelTable : ResponseTable F ModelResponse ModelResponse) db db') :
    MeteredDb db' := by
  cases hexternal with
  | reconcile args now r db' hreconcile =>
    cases r with
    | error e =>
      rw [reconcileOperation_error (outcome_error.mp hreconcile)]
      exact h
    | ok u => exact h.reconciled (outcome_ok.mp hreconcile)
  | register circuitId now => exact h.of_operations rfl

/-! ## Runs -/

variable {H : Hasher} {B : Builtins F} {b : BudgetedTransport}

/-- What a wrapper has seen is in the database. -/
def Knows (db : OperationDb ModelResponse T) (X : PyStr) (k : Knowledge) : Prop :=
  ∀ response, k.seen = some response → (X, response) ∈ completedOperations db

omit [LinearOrder T] [Zero T] [Sub T] in
theorem Knows.change {X : PyStr} {k : Knowledge} (h : Knows db X k)
    (hchange : Change (modelTable : ResponseTable F ModelResponse ModelResponse) db db') :
    Knows db' X k :=
  fun response hseen => completed_change hchange (h response hseen)

/-- What a reply tells is in the database. -/
theorem Knows.learn {X : PyStr} {k : Knowledge} (h : Knows db X k) {o : Op F T ModelResponse}
    {r : Reply o} (hperform : OperationSystem.perform modelTable db o r db') :
    Knows db' X ⟨learn X k.seen o r, none⟩ := by
  have hkept := h.change (perform_change hperform)
  cases o with
  | select Y =>
    cases r with
    | error e => exact hkept
    | ok row =>
      cases row with
      | none => exact hkept
      | some row =>
        intro response hresponse
        rw [TokenBudget.learn] at hresponse
        split_ifs at hresponse with hown
        · obtain ⟨rfl, hstatus⟩ := hown
          obtain ⟨_, hrow, rfl⟩ := selectOperation_eq_ok.mp (outcome_ok.mp hperform)
          exact mem_completedOperations.mpr ⟨row, hrow.symm, hstatus, hresponse⟩
        · exact hkept response hresponse
  | _ => exact hkept

/-- The operations whose responses were returned to a caller. -/
def returned (sys : System (OperationDb ModelResponse T) (ModelCall F T) (BudgetOp F T) BudgetReply
    (Except BudgetError ModelResponse)) : List (PyStr × ModelResponse) :=
  sys.processes.filterMap fun p =>
    match p.program with
    | .done (.ok response) => some (p.call.request.operationId, response)
    | _ => none

section Reached
variable {sys sys' : System (OperationDb ModelResponse T) (ModelCall F T) (BudgetOp F T) BudgetReply
  (Except BudgetError ModelResponse)}

/-- What was returned is completed, and no selection of it is beyond the limit. -/
structure Sound (b : BudgetedTransport) (sys : System (OperationDb ModelResponse T) (ModelCall F T)
    (BudgetOp F T) BudgetReply (Except BudgetError ModelResponse)) : Prop where
  completed : ∀ p ∈ returned sys, p ∈ completedOperations sys.state
  within : ∀ ops : List (PyStr × ModelResponse), ops.Nodup → (∀ p ∈ ops, p ∈ returned sys) →
    (ops.map fun p => tokens p.2).sum ≤ b.maxTokens

end Reached

end Steps

/-! ## Two calls -/

def sampleBuiltins : Builtins NonFinite where
  isPrintable _ := true
  object := []
  int
    | .int n => .ok n
    | _ => .error .invalid
  lower := id

/-- The server opens a session and answers every message with 700 tokens. -/
def answering : Environment NonFinite ℤ where
  now := 0
  utcnow := (PaidResponses.sampleEnvironment true).utcnow
  session := .ok ⟨200, [(.str (py "id"), .str (py "s"))]⟩
  received
    | .message => .ok ⟨200, [(.str (py "info"), .dict [(.str (py "providerID"), .str (py "p")),
        (.str (py "modelID"), .str (py "m")), (.str (py "structured"), .dict []),
        (.str (py "tokens"), .dict [(.str (py "input"), .int 400), (.str (py "output"), .int 300)]),
        (.str (py "id"), .str (py "r"))]), (.str (py "parts"), .list [])]⟩
    | _ => .error (otherError [])

def sampleCall (operationId : PyStr) : ModelCall NonFinite ℤ :=
  .openCode ⟨PaidResponses.brittleBreaker, py "p", py "m"⟩ ⟨operationId, [], [], .none⟩

end TokenBudget
