import VeriMat.JobStoreRuns

/-! # The budget ledger

The running totals of a job are the sums of its usage rows and stay within its budgets. The
three columns are taken together as one vector of amounts. -/
namespace JobStoreBudget

open PyText PyValue JsonText Events KeyedTable JobStore JobStoreCalls JobStoreRuns Transaction

variable {F T : Type}

/-! ## Amounts -/

/-- Calls, tokens and cost. -/
abbrev Amounts := ℤ × ℤ × ℤ

def Usage.amounts (u : Usage T) : Amounts := (u.calls, u.tokens, u.costMicrounits)

def Charge.amounts (c : Charge) : Amounts := (c.calls, c.tokens, c.costMicrounits)

def Job.used (j : Job T) : Amounts := (j.usedCalls, j.usedTokens, j.usedCostMicrounits)

def Job.limits (j : Job T) : Amounts := (j.maxCalls, j.maxTokens, j.maxCostMicrounits)

/-- The usage rows of a job. -/
def usageOf (s : Store T) (jobId : PyStr) : List (Usage T) :=
  s.usageLedger.rows.filter (·.jobId == jobId)

def total (s : Store T) (jobId : PyStr) : Amounts := ((usageOf s jobId).map Usage.amounts).sum

theorem exceeded_eq_nil {c : Charge} {j : Job T} :
    c.exceeded j = [] ↔ Job.used j + Charge.amounts c ≤ Job.limits j := by
  simp only [Charge.exceeded, List.append_eq_nil_iff, ite_eq_right_iff, Job.used, Charge.amounts,
    Job.limits, Prod.mk_add_mk, Prod.mk_le_mk]
  simp [and_assoc]

theorem total_eq (s : Store T) (jobId : PyStr) :
    total s jobId = (((usageOf s jobId).map (·.calls)).sum, ((usageOf s jobId).map (·.tokens)).sum,
      ((usageOf s jobId).map (·.costMicrounits)).sum) := by
  unfold total
  induction usageOf s jobId with
  | nil => rfl
  | cons u l ih =>
    simp only [List.map_cons, List.sum_cons, ih]
    rfl

theorem total_insert {s s' : Store T} {u : Usage T} (h : s.usageLedger.insert u = some s'.usageLedger)
    (jobId : PyStr) :
    total s' jobId = total s jobId + if u.jobId = jobId then Usage.amounts u else 0 := by
  unfold total usageOf
  rw [Table.insert_rows h, List.filter_append, List.map_append, List.sum_append]
  by_cases hid : u.jobId = jobId
  · simp [hid]
  · simp [hid]

/-! ## What a commit does to the usage -/

variable [LinearOrder T] [Add T]

theorem step_charged {c : Charge} {now : T} {jobId : PyStr} {j j' : Job T}
    (h : RowStep (F := F) (.charge jobId c now) j j') :
    jobId = j.jobId ∧ Job.used j' = Job.used j + Charge.amounts c ∧ Job.limits j' = Job.limits j ∧
      Job.used j' ≤ Job.limits j' := by
  cases h with
  | charged usage budgets => exact ⟨rfl, rfl, rfl, exceeded_eq_nil.mp budgets⟩

/-- Only a charge moves the totals. -/
theorem step_used {c : Call F T} {j j' : Job T} (h : RowStep c j j')
    (hc : ∀ jobId ch now, c ≠ .charge jobId ch now) :
    Job.used j' = Job.used j ∧ Job.limits j' = Job.limits j := by
  cases h with
  | charged usage budgets => exact absurd rfl (hc _ _ _)
  | leased | renewed | advanced | moved => exact ⟨rfl, rfl⟩

variable [PyFloat F]

/-- A commit leaves the usage rows alone unless it is a charge. -/
theorem commits_usageLedger {c : Call F T} {s s' : Store T} (h : Commits c s s')
    (hc : ∀ jobId ch now, c ≠ .charge jobId ch now) : s'.usageLedger = s.usageLedger := by
  cases c with
  | createJob a uuid now =>
    obtain ⟨t, _, rfl⟩ := h.2.inserted
    rfl
  | acquireLease id workerId leaseSeconds now =>
    obtain ⟨_, row, h⟩ := h
    rw [h.store, setJob_usageLedger]
  | heartbeat id workerId leaseSeconds now =>
    obtain ⟨row, h⟩ := h
    rw [h.store, setJob_usageLedger]
  | saveCheckpoint id workerId stage checkpointKey payload now =>
    obtain ⟨rendered, _, row, h⟩ := h
    obtain ⟨s₁, hwritten, rfl⟩ := h.written
    exact hwritten.rest.2
  | charge id ch now => exact absurd rfl (hc _ _ _)
  | transition id t now =>
    obtain ⟨row, h⟩ := h
    rw [h.store, setJob_usageLedger]
  | get _ _ | checkpoints _ | runnableJobIds _ _ => exact h.elim

/-- Every usage row is of a job and was bound, and every job has spent what its rows say. -/
structure BudgetInvariant (s : Store T) : Prop where
  owned : ∀ u ∈ s.usageLedger.rows, ∃ j, s.job u.jobId = some j
  bound : ∀ u ∈ s.usageLedger.rows,
    (encode u.jobId).isSome = true ∧ (encode u.chargeKey).isSome = true
  nonneg : ∀ u ∈ s.usageLedger.rows, 0 ≤ Usage.amounts u
  spent : ∀ jobId j, s.job jobId = some j → Job.used j = total s jobId ∧ Job.used j ≤ Job.limits j

omit [LinearOrder T] [Add T] in
theorem budgetInvariant_empty : BudgetInvariant (Store.empty : Store T) := by
  constructor
  · intro u hu
    cases hu
  · intro u hu
    cases hu
  · intro u hu
    cases hu
  · intro jobId j hj
    cases hj

omit [LinearOrder T] [Add T] in
/-- A job without a row has no usage either. -/
theorem BudgetInvariant.total_of_absent {s : Store T} (h : BudgetInvariant s) {jobId : PyStr}
    (hnone : s.job jobId = none) : total s jobId = 0 := by
  have hempty : usageOf s jobId = [] := by
    apply List.filter_eq_nil_iff.mpr
    intro u hu hid
    obtain ⟨j, hj⟩ := h.owned u hu
    rw [beq_iff_eq.mp hid, hnone] at hj
    cases hj
  simp [total, hempty]

theorem budgetInvariant_charge {jobId : PyStr} {ch : Charge} {now : T} {s s' : Store T}
    (hi : BudgetInvariant s) (h : Commits (F := F) (.charge jobId ch now) s s') :
    BudgetInvariant s' := by
  have hrow := h
  obtain ⟨hpos, row, hcharged⟩ := h
  obtain ⟨t, hins, hstore⟩ := hcharged.inserted
  have hins' : s.usageLedger.insert (ch.row jobId now) = some s'.usageLedger := by
    rw [hstore]
    exact hins
  have hkept : ∀ id j, s.job id = some j → ∃ j', s'.job id = some j' := by
    intro id j hj
    rcases Commits.row hrow hj with ⟨hsame, _⟩ | ⟨j', hj', _⟩
    · exact ⟨j, hsame⟩
    · exact ⟨j', hj'⟩
  have hmem : ∀ u ∈ s'.usageLedger.rows, u ∈ s.usageLedger.rows ∨ u = ch.row jobId now := by
    intro u hu
    rw [Table.insert_rows hins'] at hu
    simpa using hu
  constructor
  · intro u hu
    rcases hmem u hu with hold | rfl
    · obtain ⟨j, hj⟩ := hi.owned u hold
      exact hkept _ _ hj
    · exact hkept _ _ hcharged.found
  · intro u hu
    rcases hmem u hu with hold | rfl
    · exact hi.bound u hold
    · exact ⟨hcharged.bound.1, hcharged.bound.2.1⟩
  · intro u hu
    rcases hmem u hu with hold | rfl
    · exact hi.nonneg u hold
    · exact ⟨hpos.1, hpos.2.1, hpos.2.2⟩
  · intro id j' hj'
    rw [total_insert hins']
    rw [hstore, job_setJob] at hj'
    change (if id = jobId then (s.job id).map _ else s.job id) = _ at hj'
    by_cases hid : id = jobId
    · subst hid
      rw [if_pos rfl, hcharged.found, Option.map_some, Option.some.injEq] at hj'
      subst hj'
      obtain ⟨hspent, _⟩ := hi.spent id row hcharged.found
      refine ⟨?_, exceeded_eq_nil.mp hcharged.budgets⟩
      simp only [Charge.row, if_true]
      rw [← hspent]
      rfl
    · rw [if_neg hid] at hj'
      have hne : ¬ (ch.row jobId now : Usage T).jobId = id := fun heq => hid heq.symm
      rw [if_neg hne, add_zero]
      exact hi.spent id j' hj'

theorem budgetInvariant_step {c : Call F T} {s s' : Store T} (hi : BudgetInvariant s)
    (h : Commits c s s') : BudgetInvariant s' := by
  by_cases hcharge : ∃ jobId ch now, c = .charge jobId ch now
  · obtain ⟨jobId, ch, now, rfl⟩ := hcharge
    exact budgetInvariant_charge hi h
  have hc : ∀ jobId ch now, c ≠ .charge jobId ch now := by
    intro jobId ch now heq
    exact hcharge ⟨jobId, ch, now, heq⟩
  have hsame := commits_usageLedger h hc
  have htotal : ∀ id, total s' id = total s id := by
    intro id
    simp [total, usageOf, hsame]
  constructor
  · rw [hsame]
    intro u hu
    obtain ⟨j, hj⟩ := hi.owned u hu
    rcases h.row hj with ⟨hrow, _⟩ | ⟨j', hj', _⟩
    · exact ⟨j, hrow⟩
    · exact ⟨j', hj'⟩
  · rw [hsame]
    exact hi.bound
  · rw [hsame]
    exact hi.nonneg
  · intro id j' hj'
    rw [htotal]
    cases hj : s.job id with
    | none =>
      obtain ⟨a, uuid, now, _, rfl, hb⟩ := h.newRow hj hj'
      rw [hi.total_of_absent hj]
      exact ⟨rfl, hb.1, hb.2.1, hb.2.2⟩
    | some j =>
      rcases h.row hj with ⟨hrow, _⟩ | ⟨a, ha, hstep⟩
      · rw [Option.some.inj (hj'.symm.trans hrow)]
        exact hi.spent id j hj
      · rw [Option.some.inj (hj'.symm.trans ha)]
        obtain ⟨hused, hlim⟩ := step_used hstep hc
        rw [hused, hlim]
        exact hi.spent id j hj

/-! ## Charges -/

variable [Zero T]

theorem reachable_budgetInvariant {s : Store T} (h : Reachable F s) : BudgetInvariant s :=
  h.invariant budgetInvariant_empty fun _ _ _ => budgetInvariant_step

/-- What the usage ledger says of a job. -/
structure Balanced (s : Store T) (j : Job T) : Prop where
  calls : j.usedCalls = ((usageOf s j.jobId).map (·.calls)).sum ∧ 0 ≤ j.usedCalls ∧
    j.usedCalls ≤ j.maxCalls
  tokens : j.usedTokens = ((usageOf s j.jobId).map (·.tokens)).sum ∧ 0 ≤ j.usedTokens ∧
    j.usedTokens ≤ j.maxTokens
  cost : j.usedCostMicrounits = ((usageOf s j.jobId).map (·.costMicrounits)).sum ∧
    0 ≤ j.usedCostMicrounits ∧ j.usedCostMicrounits ≤ j.maxCostMicrounits

omit [LinearOrder T] [Add T] [Zero T] in
theorem BudgetInvariant.balanced {s : Store T} (h : BudgetInvariant s) {j : Job T}
    (hj : j ∈ s.jobs.rows) : Balanced s j := by
  obtain ⟨hspent, hlim⟩ := h.spent j.jobId j (job_of_mem hj)
  have hpos : 0 ≤ Job.used j := by
    rw [hspent]
    apply List.sum_nonneg
    intro x hx
    obtain ⟨u, hu, rfl⟩ := List.mem_map.mp hx
    exact h.nonneg u (List.mem_filter.mp hu).1
  rw [total_eq] at hspent
  simp only [Job.used, Job.limits, Prod.mk.injEq, Prod.mk_le_mk] at hspent hlim
  exact ⟨⟨hspent.1, hpos.1, hlim.1⟩, ⟨hspent.2.1, hpos.2.1, hlim.2.1⟩,
    ⟨hspent.2.2, hpos.2.2, hlim.2.2⟩⟩

omit [LinearOrder T] [Add T] [Zero T] in
theorem usage_found {s : Store T} {u : Usage T} (hu : u ∈ s.usageLedger.rows) :
    s.usageLedger.find (Usage.hasKey u.jobId u.chargeKey) = some u := by
  apply Table.find_of_mem (fun _ _ => Eq.symm) hu (by simp [Usage.hasKey])
  intro a ha
  simpa [Usage.hasKey, Usage.key] using ha

omit [LinearOrder T] [Add T] [Zero T] in
/-- A recorded charge changes nothing. -/
theorem charge_replay {s : Store T} (hi : BudgetInvariant s) {u : Usage T}
    (hu : u ∈ s.usageLedger.rows) {c : Charge} (hkey : c.chargeKey = u.chargeKey) (now : T)
    (hsame : c.same u) : ∃ j, charge u.jobId c now s = .ok j s := by
  obtain ⟨j, hj⟩ := hi.owned u hu
  obtain ⟨hid, hck⟩ := hi.bound u hu
  have ⟨_, hcalls, htokens, hcost⟩ := hsame
  obtain ⟨h₁, h₂, h₃⟩ := hi.nonneg u hu
  refine ⟨j, charge_eq_ok.mpr ⟨⟨?_, ?_, ?_⟩, Or.inl ⟨⟨?_, hj, u, ?_, hsame⟩, rfl⟩⟩⟩
  · exact hcalls ▸ h₁
  · exact htokens ▸ h₂
  · exact hcost ▸ h₃
  · exact ⟨hid, hkey ▸ hck⟩
  · exact hkey ▸ usage_found hu

omit [LinearOrder T] [Add T] [Zero T] in
/-- A charge that does not return leaves the store as it was. -/
theorem charge_raises {jobId : PyStr} {c : Charge} {now : T} {s : Store T}
    (h : ∀ r s', charge jobId c now s ≠ .ok r s') : ∃ e, charge jobId c now s = .error e s := by
  cases hr : charge jobId c now s with
  | ok r s' => exact absurd hr (h r s')
  | error e s' => exact ⟨e, by rw [charge_error hr]⟩

omit [LinearOrder T] [Add T] [Zero T] in
theorem charge_conflict {s : Store T} {u : Usage T} (hu : u ∈ s.usageLedger.rows) {c : Charge}
    (hkey : c.chargeKey = u.chargeKey) (now : T) (hne : ¬ c.same u) :
    ∃ e, charge u.jobId c now s = .error e s := by
  apply charge_raises
  intro r s' h
  have hfound := usage_found hu
  rw [← hkey] at hfound
  obtain ⟨_, ⟨hrep, _⟩ | ⟨row, hnew, _⟩⟩ := charge_eq_ok.mp h
  · obtain ⟨u', hu', hsame⟩ := hrep.recorded
    rw [Option.some.inj (hfound.symm.trans hu')] at hne
    exact hne hsame
  · exact absurd (hnew.fresh.symm.trans hfound) (by simp)

omit [LinearOrder T] [Add T] [Zero T] in
theorem charge_exceeds {s : Store T} {jobId : PyStr} {j : Job T} (hj : s.job jobId = some j)
    {c : Charge} (hfresh : s.usageLedger.find (Usage.hasKey jobId c.chargeKey) = none) (now : T)
    (hex : ¬ Job.used j + Charge.amounts c ≤ Job.limits j) :
    ∃ e, charge jobId c now s = .error e s := by
  apply charge_raises
  intro r s' h
  obtain ⟨_, ⟨hrep, _⟩ | ⟨row, hnew, _⟩⟩ := charge_eq_ok.mp h
  · obtain ⟨u, hu, _⟩ := hrep.recorded
    exact absurd (hfresh.symm.trans hu) (by simp)
  · rw [Option.some.inj (hj.symm.trans hnew.found)] at hex
    exact hex (exceeded_eq_nil.mp hnew.budgets)

/-- Over any sequence of calls from a new database: totals, keys, and the three kinds of charge
that do not spend. -/
theorem budget_ledger {s : Store T} (h : Reachable F s) :
    (∀ j ∈ s.jobs.rows, Balanced s j) ∧
      s.usageLedger.rows.Pairwise (fun u u' => (u.jobId, u.chargeKey) ≠ (u'.jobId, u'.chargeKey)) ∧
      (∀ u ∈ s.usageLedger.rows, ∀ (c : Charge) (now : T), c.chargeKey = u.chargeKey →
        if c.same u then ∃ j, charge u.jobId c now s = .ok j s
        else ∃ e, charge u.jobId c now s = .error e s) ∧
      ∀ j ∈ s.jobs.rows, ∀ (c : Charge) (now : T),
        (∀ u ∈ s.usageLedger.rows, u.jobId = j.jobId → u.chargeKey ≠ c.chargeKey) →
        j.maxCalls < j.usedCalls + c.calls ∨ j.maxTokens < j.usedTokens + c.tokens ∨
          j.maxCostMicrounits < j.usedCostMicrounits + c.costMicrounits →
        ∃ e, charge j.jobId c now s = .error e s := by
  have hi := reachable_budgetInvariant h
  refine ⟨fun _ => hi.balanced, s.usageLedger.distinct, ?_, ?_⟩
  · intro u hu c now hkey
    by_cases hsame : c.same u
    · rw [if_pos hsame]
      exact charge_replay hi hu hkey now hsame
    · rw [if_neg hsame]
      exact charge_conflict hu hkey now hsame
  · intro j hj c now hfresh hex
    apply charge_exceeds (job_of_mem hj)
    · apply Table.find_eq_none.mpr
      intro u hu
      by_cases hid : u.jobId = j.jobId
      · simp [Usage.hasKey, hfresh u hu hid]
      · simp [Usage.hasKey, hid]
    · intro hle
      obtain ⟨h₁, h₂, h₃⟩ := hle
      simp only [Job.used, Charge.amounts, Job.limits, Prod.fst_add, Prod.snd_add] at h₁ h₂ h₃
      omega

/-! ## One job within its budget -/

def sampleCharge : Charge where
  chargeKey := py "call"
  provider := py "provider"
  calls := 1
  tokens := 1
  costMicrounits := 0

def chargeCalls : List (Call NonFinite ℕ) :=
  [.createJob ⟨py "tenant", py "key", py "task", 1, 1, 1, some (py "job")⟩ [] 1,
    .charge (py "job") sampleCharge 2,
    .charge (py "job") { sampleCharge with chargeKey := py "again" } 3]

theorem budget_ledger_spent :
    ∃ s : Store ℕ, (∃ j, s.job (py "job") = some j ∧ Job.used j = (1, 1, 0)) ∧
      ∀ j ∈ s.jobs.rows, Balanced s j := by
  refine ⟨(play (Store.empty : Store ℕ) chargeCalls).2, ?_,
    (budget_ledger ⟨_, play_execution _ chargeCalls⟩).1⟩
  have hused : ((play (Store.empty : Store ℕ) chargeCalls).2.job (py "job")).map Job.used =
      some (1, 1, 0) := by
    decide +kernel
  simpa using hused

end JobStoreBudget
