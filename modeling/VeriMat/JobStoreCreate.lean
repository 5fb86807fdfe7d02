import VeriMat.JobStoreRuns

/-! # Idempotent job creation

The key of a job, its task and its budgets are written once. Calls for one key therefore agree on
the job, however far it has advanced in between, and leave every other row alone. -/
namespace JobStoreCreate

open PyText PyValue JsonText Events KeyedTable JobStore JobStoreCalls JobStoreRuns Transaction

variable {F T : Type}

/-- The two rows are for one request. -/
structure SameRequest (j j' : Job T) : Prop where
  key : j'.key = j.key
  task : j'.task = j.task
  calls : j'.maxCalls = j.maxCalls
  tokens : j'.maxTokens = j.maxTokens
  cost : j'.maxCostMicrounits = j.maxCostMicrounits

theorem SameRequest.refl (j : Job T) : SameRequest j j := ⟨rfl, rfl, rfl, rfl, rfl⟩

theorem SameRequest.trans {a b c : Job T} (h : SameRequest a b) (k : SameRequest b c) :
    SameRequest a c :=
  ⟨k.key.trans h.key, k.task.trans h.task, k.calls.trans h.calls, k.tokens.trans h.tokens,
    k.cost.trans h.cost⟩

theorem SameRequest.same {j j' : Job T} (h : SameRequest j j') {a : NewJob} (ha : a.same j) :
    a.same j' :=
  ⟨h.task.trans ha.1, h.calls.trans ha.2.1, h.tokens.trans ha.2.2.1, h.cost.trans ha.2.2.2⟩

/-- Rows of one key are one row. -/
theorem find_hasKey {s : Store T} {j : Job T} (hj : j ∈ s.jobs.rows) :
    s.jobs.find (Job.hasKey j.tenantId j.idempotencyKey) = some j := by
  apply Table.find_of_mem _ hj (by simp [Job.hasKey])
  · intro a ha
    right
    simpa [Job.hasKey, Job.key] using ha
  · intro k k' hk
    rcases hk with hk | hk
    · exact Or.inl hk.symm
    · exact Or.inr hk.symm

/-! ## One call -/

/-- The row a call returns is of its key, and is there for its request. -/
theorem createJob_returns {a : NewJob} {uuid : PyStr} {now : T} {s s' : Store T} {r : Job T}
    (h : createJob a uuid now s = .ok r s') :
    r ∈ s'.jobs.rows ∧ r.tenantId = a.tenantId ∧ r.idempotencyKey = a.idempotencyKey ∧
      a.same r := by
  obtain ⟨_, _, ⟨hrep, rfl⟩ | ⟨hnew, rfl⟩⟩ := createJob_eq_ok.mp h
  · obtain ⟨hm, hk⟩ := Table.mem_of_find hrep.found
    simp only [Job.hasKey, Bool.and_eq_true, beq_iff_eq] at hk
    exact ⟨hm, hk.1, hk.2, hrep.same⟩
  · obtain ⟨t, hins, rfl⟩ := hnew.inserted
    refine ⟨?_, rfl, rfl, rfl, rfl, rfl, rfl⟩
    simp [Table.insert_rows hins]

/-- A call changes no row that is there. -/
theorem createJob_keeps {a : NewJob} {uuid : PyStr} {now : T} {s s' : Store T} {r : Job T}
    (h : createJob a uuid now s = .ok r s') {j : Job T} (hj : j ∈ s.jobs.rows) :
    j ∈ s'.jobs.rows := by
  obtain ⟨_, _, ⟨_, rfl⟩ | ⟨hnew, _⟩⟩ := createJob_eq_ok.mp h
  · exact hj
  · obtain ⟨t, hins, rfl⟩ := hnew.inserted
    rw [Table.insert_rows hins]
    exact List.mem_append_left _ hj

/-! ## Runs -/

variable [LinearOrder T] [Add T]

theorem step_sameRequest {c : Call F T} {j j' : Job T} (h : RowStep c j j') : SameRequest j j' := by
  cases h <;> exact ⟨rfl, rfl, rfl, rfl, rfl⟩

theorem run_sameRequest {j j' : Job T}
    (h : Relation.ReflTransGen (fun a b => ∃ c : Call F T, RowStep c a b) j j') :
    SameRequest j j' := by
  induction h with
  | refl => exact .refl j
  | tail _ hstep ih =>
    obtain ⟨c, hstep⟩ := hstep
    exact ih.trans (step_sameRequest hstep)

variable [PyFloat F] [Zero T]

/-- The key of every row has been bound. -/
theorem keys_bound {s : Store T} (h : Reachable F s) :
    ∀ jobId j, s.job jobId = some j →
      (encode j.tenantId).isSome = true ∧ (encode j.idempotencyKey).isSome = true := by
  refine h.invariant (I := fun s => ∀ jobId j, s.job jobId = some j →
    (encode j.tenantId).isSome = true ∧ (encode j.idempotencyKey).isSome = true) ?_ ?_
  · intro jobId j hj
    cases hj
  · intro s s' c hi hc jobId j' hj'
    cases hj : s.job jobId with
    | none =>
      obtain ⟨a, uuid, now, rfl, rfl, _⟩ := hc.newRow hj hj'
      exact ⟨hc.2.bound.1, hc.2.bound.2.1⟩
    | some j =>
      have hold := hi jobId j hj
      rcases hc.row hj with ⟨hsame, _⟩ | ⟨a, ha, hrow⟩
      · rwa [Option.some.inj (hj'.symm.trans hsame)]
      · rw [Option.some.inj (hj'.symm.trans ha)]
        have hkey := (step_sameRequest hrow).key
        simp only [Job.key, Prod.mk.injEq] at hkey
        rwa [hkey.2.1, hkey.2.2]

/-- The arguments are refused before the store is looked at. -/
def Refused (a : NewJob) : Prop :=
  (isBlank a.tenantId = true ∨ isBlank a.idempotencyKey = true ∨ isBlank a.task = true) ∨
    min (min a.maxCalls a.maxTokens) a.maxCostMicrounits < 0

/-- A call for a key that is there with another task or budget. -/
theorem createJob_conflict {s : Store T} (hs : Reachable F s) {j : Job T} (hj : j ∈ s.jobs.rows)
    {a : NewJob} (ht : a.tenantId = j.tenantId) (hk : a.idempotencyKey = j.idempotencyKey)
    (hne : ¬ a.same j) (uuid : PyStr) (now : T) :
    ∃ e, createJob a uuid now s = .error e s ∧
      (e.errorClass = .idempotencyConflict ∨ Refused a ∧ e.errorClass = .jobStoreError) := by
  by_cases hfields : isBlank a.tenantId = true ∨ isBlank a.idempotencyKey = true ∨
      isBlank a.task = true
  · refine ⟨.fieldsRequired, bind_eq_error.mpr (Or.inl ?_), Or.inr ⟨Or.inl hfields, rfl⟩⟩
    simp only [raiseIf, hfields, if_true]
    rfl
  have hf : raiseIf (isBlank a.tenantId ∨ isBlank a.idempotencyKey ∨ isBlank a.task)
      (.fieldsRequired : StoreError T) s = .ok () s := raiseIf_eq_ok.mpr ⟨hfields, rfl⟩
  by_cases hbud : min (min a.maxCalls a.maxTokens) a.maxCostMicrounits < 0
  · refine ⟨.negativeBudgets, bind_eq_error.mpr (Or.inr ⟨(), s, hf, bind_eq_error.mpr (Or.inl ?_)⟩),
      Or.inr ⟨Or.inr hbud, rfl⟩⟩
    simp only [raiseIf, hbud, if_true]
    rfl
  have hb : raiseIf (min (min a.maxCalls a.maxTokens) a.maxCostMicrounits < 0)
      (.negativeBudgets : StoreError T) s = .ok () s := raiseIf_eq_ok.mpr ⟨hbud, rfl⟩
  obtain ⟨htb, hkb⟩ := keys_bound hs j.jobId j (job_of_mem hj)
  have htx : createJobTransaction a (orElse a.jobId uuid) now s = .error .budgetsDiffer s := by
    refine immediate_eq_error.mpr ⟨rfl, s, ?_⟩
    refine bind_eq_error.mpr (Or.inr ⟨(), s, bindText_eq_ok.mpr ⟨ht ▸ htb, rfl⟩, ?_⟩)
    refine bind_eq_error.mpr (Or.inr ⟨(), s, bindText_eq_ok.mpr ⟨hk ▸ hkb, rfl⟩, ?_⟩)
    refine bind_eq_error.mpr (Or.inr ⟨s, s, rfl, ?_⟩)
    have hfind := find_hasKey hj
    rw [← ht, ← hk] at hfind
    simp only [hfind]
    refine bind_eq_error.mpr (Or.inl ?_)
    simp only [raiseIf, hne, not_false_eq_true, if_true]
    rfl
  refine ⟨.budgetsDiffer, ?_, Or.inl rfl⟩
  refine bind_eq_error.mpr (Or.inr ⟨(), s, hf, bind_eq_error.mpr (Or.inr ⟨(), s, hb, ?_⟩)⟩)
  exact bind_eq_error.mpr (Or.inl htx)

/-- A call for the request of an earlier one returns its job, whatever happened in between. -/
theorem createJob_again {a : NewJob} {uuid : PyStr} {now : T} {s s₁ s₂ : Store T} {r : Job T}
    (h : createJob a uuid now s = .ok r s₁) {es : List (Event F T)} (hrun : Execution s₁ es s₂)
    (jobId : Option PyStr) (uuid' : PyStr) (now' : T) :
    ∃ r', createJob { a with jobId } uuid' now' s₂ = .ok r' s₂ ∧ r'.jobId = r.jobId := by
  obtain ⟨hr, hrt, hrk, hsame⟩ := createJob_returns h
  obtain ⟨r', hr', hsteps⟩ := hrun.row (job_of_mem hr)
  have hreqs := run_sameRequest hsteps
  have hkey := hreqs.key
  simp only [Job.key, Prod.mk.injEq] at hkey
  have hfound := find_hasKey (mem_of_job hr').1
  rw [hkey.2.1, hkey.2.2, hrt, hrk] at hfound
  have hbound : (encode a.tenantId).isSome = true ∧ (encode a.idempotencyKey).isSome = true := by
    obtain ⟨_, _, ⟨hrep, _⟩ | ⟨hnew, _⟩⟩ := createJob_eq_ok.mp h
    · exact hrep.bound
    · exact ⟨hnew.bound.1, hnew.bound.2.1⟩
  obtain ⟨hf, hb, _⟩ := createJob_eq_ok.mp h
  refine ⟨r', ?_, hkey.1⟩
  exact createJob_eq_ok.mpr ⟨hf, hb, Or.inl ⟨⟨hbound, hfound, hreqs.same hsame⟩, rfl⟩⟩

/-- Over any sequence of calls from a new database: one row a key, one job a request, a conflict
for any other request of a key, and no row of another tenant returned or touched. -/
theorem concurrent_creation {s : Store T} (hs : Reachable F s) :
    s.jobs.rows.Pairwise (fun j j' =>
      (j.tenantId, j.idempotencyKey) ≠ (j'.tenantId, j'.idempotencyKey)) ∧
      (∀ (a : NewJob) uuid now r s₁ s₂ (es : List (Event F T)),
        createJob a uuid now s = .ok r s₁ → Execution s₁ es s₂ → ∀ jobId uuid' now',
        ∃ r', createJob { a with jobId } uuid' now' s₂ = .ok r' s₂ ∧ r'.jobId = r.jobId) ∧
      (∀ j ∈ s.jobs.rows, ∀ (a : NewJob) uuid now, a.tenantId = j.tenantId →
        a.idempotencyKey = j.idempotencyKey → ¬ a.same j →
        ∃ e, createJob a uuid now s = .error e s ∧
          (e.errorClass = .idempotencyConflict ∨ Refused a ∧ e.errorClass = .jobStoreError)) ∧
      ∀ (a : NewJob) uuid now,
        (∀ r s', createJob a uuid now s = .ok r s' →
          r.tenantId = a.tenantId ∧ ∀ j ∈ s.jobs.rows, j ∈ s'.jobs.rows) ∧
        ∀ e s', createJob a uuid now s = .error e s' → s' = s := by
  refine ⟨?_, ?_, ?_, ?_⟩
  · refine s.jobs.distinct.imp ?_
    intro j j' hne heq
    exact hne (Or.inr heq)
  · intro a uuid now r s₁ s₂ es h hrun jobId uuid' now'
    exact createJob_again h hrun jobId uuid' now'
  · intro j hj a uuid now ht hk hne
    exact createJob_conflict hs hj ht hk hne uuid now
  · intro a uuid now
    refine ⟨?_, fun e s' => createJob_error⟩
    intro r s' h
    exact ⟨(createJob_returns h).2.1, fun j hj => createJob_keeps h hj⟩

/-! ## A replay after the job has started -/

def sampleRequest : NewJob where
  tenantId := py "tenant"
  idempotencyKey := py "key"
  task := py "task"
  maxCalls := 1
  maxTokens := 1
  maxCostMicrounits := 1
  jobId := none

theorem concurrent_creation_replay :
    ∃ (r : Job ℕ) (s₁ : Store ℕ), createJob sampleRequest (py "job") 1 Store.empty = .ok r s₁ ∧
      ∃ r', createJob { sampleRequest with jobId := some (py "mine") } (py "other") 9
        (next (F := NonFinite) s₁ (.acquireLease (py "job") (py "worker") 10 2)).2 =
          .ok r' (next (F := NonFinite) s₁ (.acquireLease (py "job") (py "worker") 10 2)).2 ∧
        r'.jobId = r.jobId := by
  have hempty : Reachable NonFinite (Store.empty : Store ℕ) := ⟨[], .refl⟩
  obtain ⟨r, s₁, h⟩ : ∃ r s₁, createJob sampleRequest (py "job") (1 : ℕ) Store.empty = .ok r s₁ :=
    returns_iff.mp (by decide +kernel)
  exact ⟨r, s₁, h, (concurrent_creation hempty).2.1 sampleRequest (py "job") 1 r s₁ _ _ h
    (Execution.refl.tail (next_step _ _)) (some (py "mine")) (py "other") 9⟩

end JobStoreCreate
