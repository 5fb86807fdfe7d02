import VeriMat.JobStore

/-! # What a call of the job store can do

For each transaction the guards it checks and the rows it writes; a call that raises leaves the
store as it was. -/
namespace JobStoreCalls

open PyText JsonText PyValue Events KeyedTable Transaction JobStore

variable {T : Type}

/-! ## Statements -/

@[simp] theorem bindText_eq_ok {x : PyStr} {s s' : Store T} {u : Unit} :
    bindText x s = .ok u s' ↔ (encode x).isSome = true ∧ s' = s := by
  simp [bindText, Option.isSome_iff_ne_none]

@[simp] theorem bindInt_eq_ok {n : ℤ} {s s' : Store T} {u : Unit} :
    bindInt n s = .ok u s' ↔ FitsInteger n ∧ s' = s := by
  simp [bindInt]

@[simp] theorem bindOptional_eq_ok {x : Option PyStr} {s s' : Store T} {u : Unit} :
    bindOptional x s = .ok u s' ↔ (∀ y ∈ x, (encode y).isSome = true) ∧ s' = s := by
  cases x with
  | none => simp [bindOptional]
  | some y => simp [bindOptional]

@[simp] theorem selectJob_eq_ok {jobId : PyStr} {s s' : Store T} {row : Job T} :
    selectJob jobId s = .ok row s' ↔
      (encode jobId).isSome = true ∧ s.job jobId = some row ∧ s' = s := by
  simp [selectJob, bind_eq_ok, and_assoc]

theorem insertJob_eq_ok {j : Job T} {s s' : Store T} {u : Unit} :
    insertJob j s = .ok u s' ↔ ∃ t, s.jobs.insert j = some t ∧ s' = { s with jobs := t } := by
  simp [insertJob, bind_eq_ok]

theorem insertCheckpoint_eq_ok {c : Checkpoint T} {s s' : Store T} {u : Unit} :
    insertCheckpoint c s = .ok u s' ↔
      ∃ t, s.checkpoints.insert c = some t ∧ s' = { s with checkpoints := t } := by
  simp [insertCheckpoint, bind_eq_ok]

theorem insertUsage_eq_ok {c : Usage T} {s s' : Store T} {u : Unit} :
    insertUsage c s = .ok u s' ↔
      ∃ t, s.usageLedger.insert c = some t ∧ s' = { s with usageLedger := t } := by
  simp [insertUsage, bind_eq_ok]

/-! ## Reading a row -/

/-- Rows of one id are one row. -/
theorem job_of_mem {s : Store T} {j : Job T} (h : j ∈ s.jobs.rows) : s.job j.jobId = some j := by
  apply Table.find_of_mem _ h (by simp [Job.hasId])
  · intro a ha
    exact Or.inl (by simpa [Job.hasId, Job.key] using ha)
  · rintro k k' (hk | hk)
    · exact Or.inl hk.symm
    · exact Or.inr hk.symm

theorem mem_of_job {s : Store T} {jobId : PyStr} {j : Job T} (h : s.job jobId = some j) :
    j ∈ s.jobs.rows ∧ j.jobId = jobId := by
  obtain ⟨hm, hp⟩ := Table.mem_of_find h
  exact ⟨hm, by simpa [Job.hasId] using hp⟩

theorem job_setJob {s : Store T} {jobId other : PyStr} {f : Job T → Job T}
    {hf : ∀ j, (f j).key = j.key} :
    (s.setJob jobId f hf).job other =
      if other = jobId then (s.job other).map f else s.job other := by
  have hid : ∀ i j, Job.hasId i (f j) = Job.hasId (T := T) i j := by
    intro i j
    have := congrArg Prod.fst (hf j)
    simpa [Job.hasId, Job.key] using congrArg (· == i) this
  unfold Store.job Store.setJob
  by_cases h : other = jobId
  · subst h
    simpa using Table.find_update_self (hid other)
  · simp only [h, if_false]
    apply Table.find_update_other (hid other)
    intro r hr
    have hr : r.jobId = other := by simpa [Job.hasId] using hr
    simp [Job.hasId, hr, h]

@[simp] theorem setJob_checkpoints {s : Store T} {jobId : PyStr} {f : Job T → Job T}
    {hf : ∀ j, (f j).key = j.key} : (s.setJob jobId f hf).checkpoints = s.checkpoints := rfl

@[simp] theorem setJob_usageLedger {s : Store T} {jobId : PyStr} {f : Job T → Job T}
    {hf : ∀ j, (f j).key = j.key} : (s.setJob jobId f hf).usageLedger = s.usageLedger := rfl

@[simp] theorem getJob_eq_ok {jobId : PyStr} {s s' : Store T} {row : Job T} :
    getJob jobId none s = .ok row s' ↔
      (encode jobId).isSome = true ∧ s.job jobId = some row ∧ s' = s :=
  selectJob_eq_ok

theorem getJob_after {jobId : PyStr} {s : Store T} {f : Job T → Job T}
    {hf : ∀ j, (f j).key = j.key} {row : Job T} (hb : (encode jobId).isSome = true)
    (h : s.job jobId = some row) :
    getJob jobId none (s.setJob jobId f hf) = .ok (f row) (s.setJob jobId f hf) := by
  rw [getJob_eq_ok]
  exact ⟨hb, by simp [job_setJob, h], rfl⟩

/-! ## Leases -/

section Leases
variable [LinearOrder T] [Add T]

/-- `acquire_lease` took the lease on this row. -/
structure Leased (s : Store T) (jobId workerId : PyStr) (leaseSeconds now : T) (row : Job T)
    (s' : Store T) : Prop where
  bound : (encode jobId).isSome = true ∧ (encode workerId).isSome = true
  found : s.job jobId = some row
  runnable : row.status ∉ terminal ∧ row.status ≠ .validating
  free : heldByOther row workerId now = none
  store : s' = s.setJob jobId (·.lease workerId leaseSeconds now)
    (Job.lease_key workerId leaseSeconds now)

theorem acquireTransaction_eq_ok {jobId workerId : PyStr} {leaseSeconds now : T} {s s' : Store T}
    {u : Unit} :
    acquireTransaction jobId workerId leaseSeconds now s = .ok u s' ↔
      ∃ row, Leased s jobId workerId leaseSeconds now row s' := by
  unfold acquireTransaction
  rw [immediate_eq_ok]
  constructor
  · intro h
    simp only [bind_eq_ok, selectJob_eq_ok, raiseIf_eq_ok, not_or] at h
    obtain ⟨row, _, ⟨hb, hrow, rfl⟩, _, _, ⟨hrun, rfl⟩, h⟩ := h
    cases hfree : heldByOther row workerId now with
    | some held => simp [hfree] at h
    | none =>
      simp only [hfree, bind_eq_ok, bindText_eq_ok, modify_eq_ok] at h
      obtain ⟨_, _, ⟨hw, rfl⟩, rfl⟩ := h
      exact ⟨row, ⟨hb, hw⟩, hrow, hrun, hfree, rfl⟩
  · rintro ⟨row, h⟩
    simp only [bind_eq_ok, selectJob_eq_ok, raiseIf_eq_ok, not_or]
    refine ⟨row, s, ⟨h.bound.1, h.found, rfl⟩, (), s, ⟨h.runnable, rfl⟩, ?_⟩
    simp only [h.free, bind_eq_ok, bindText_eq_ok, modify_eq_ok]
    exact ⟨(), s, ⟨h.bound.2, rfl⟩, h.store⟩

theorem acquireLease_eq_ok [Zero T] {jobId workerId : PyStr} {leaseSeconds now : T}
    {s s' : Store T} {r : Job T} :
    acquireLease jobId workerId leaseSeconds now s = .ok r s' ↔
      isBlank workerId = false ∧ 0 < leaseSeconds ∧
        ∃ row, Leased s jobId workerId leaseSeconds now row s' ∧
          r = row.lease workerId leaseSeconds now := by
  unfold acquireLease
  simp only [bind_eq_ok, raiseIf_eq_ok, acquireTransaction_eq_ok, not_or, not_le,
    Bool.not_eq_true]
  constructor
  · rintro ⟨_, _, ⟨⟨hw, hl⟩, rfl⟩, _, s₁, ⟨row, h⟩, hget⟩
    rw [h.store, getJob_after h.bound.1 h.found] at hget
    cases hget
    exact ⟨hw, hl, row, h.store ▸ h, rfl⟩
  · rintro ⟨hw, hl, row, h, rfl⟩
    refine ⟨(), s, ⟨⟨hw, hl⟩, rfl⟩, (), s', ⟨row, h⟩, ?_⟩
    rw [h.store]
    exact getJob_after h.bound.1 h.found

theorem acquireLease_error [Zero T] {jobId workerId : PyStr} {leaseSeconds now : T}
    {s s' : Store T} {e : StoreError T}
    (h : acquireLease jobId workerId leaseSeconds now s = .error e s') : s' = s := by
  apply bind_rollback (fun _ _ => raiseIf_error) _ h
  intro _ s₁ h₁ _ s₂ h₂
  rw [(raiseIf_eq_ok.mp h₁).2] at h₂
  apply bind_rollback (fun _ _ => immediate_rollback) _ h₂
  intro _ s₃ h₃ _ s₄ h₄
  obtain ⟨row, hrow⟩ := acquireTransaction_eq_ok.mp h₃
  rw [hrow.store, getJob_after hrow.bound.1 hrow.found] at h₄
  cases h₄

/-- `heartbeat` renewed the lease on this row. -/
structure Renewed (s : Store T) (jobId workerId : PyStr) (leaseSeconds now : T) (row : Job T)
    (s' : Store T) : Prop where
  bound : (encode jobId).isSome = true
  found : s.job jobId = some row
  owner : row.leaseOwner = some workerId
  running : row.status = .running
  live : ∃ expiry, row.leaseExpiresAt = some expiry ∧ now ≤ expiry
  store : s' = s.setJob jobId (·.renew leaseSeconds now) (Job.renew_key leaseSeconds now)

omit [Add T] in
theorem renewable_iff {jobId workerId : PyStr} {now : T} {j : Job T} :
    j.renewable jobId workerId now = true ↔
      j.jobId = jobId ∧ j.leaseOwner = some workerId ∧ j.status = .running ∧
        ∃ expiry, j.leaseExpiresAt = some expiry ∧ now ≤ expiry := by
  cases h : j.leaseExpiresAt with
  | none => simp [Job.renewable, Job.hasId, h]
  | some expiry => simp [Job.renewable, Job.hasId, h, and_assoc]

omit [Add T] in
theorem renewable_count {s : Store T} {jobId workerId : PyStr} {now : T} :
    s.jobs.rows.countP (Job.renewable jobId workerId now) = 1 ↔
      ∃ j ∈ s.jobs.rows, j.renewable jobId workerId now = true := by
  apply Table.countP_eq_one
  intro a b ha hb
  exact Or.inl ((renewable_iff.mp ha).1.trans (renewable_iff.mp hb).1.symm)

omit [Add T] in
/-- The statement of a heartbeat touches the row of the job and no other. -/
theorem update_renewable {s : Store T} {jobId workerId : PyStr} {now : T} {row : Job T}
    (hrow : row ∈ s.jobs.rows) (hren : row.renewable jobId workerId now = true)
    {f : Job T → Job T} {hf : ∀ j, (f j).key = j.key} :
    s.jobs.update (Job.renewable jobId workerId now) f hf =
      s.jobs.update (Job.hasId jobId) f hf := by
  apply Table.update_congr
  intro r hr
  have hid := (renewable_iff.mp hren).1
  by_cases hr' : r.jobId = jobId
  · have heq : some r = some row := by rw [← job_of_mem hr, ← job_of_mem hrow, hr', hid]
    rw [Option.some.inj heq, hren]
    simp [Job.hasId, hid]
  · simp [Job.renewable, Job.hasId, beq_false_of_ne hr']

theorem heartbeatStatement_eq_ok {jobId workerId : PyStr} {leaseSeconds now : T} {s s' : Store T}
    {u : Unit} :
    heartbeatStatement jobId workerId leaseSeconds now s = .ok u s' ↔
      (encode workerId).isSome = true ∧
        ∃ row, Renewed s jobId workerId leaseSeconds now row s' := by
  unfold heartbeatStatement
  simp only [bind_eq_ok, bindText_eq_ok, set_eq_ok, raiseIf_eq_ok, ne_eq, not_not]
  constructor
  · rintro ⟨_, _, ⟨hb, rfl⟩, _, _, ⟨hw, rfl⟩, _, _, hget, _, _, rfl, hcount, rfl⟩
    cases hget
    obtain ⟨row, hrow, hren⟩ := renewable_count.mp hcount
    obtain ⟨hid, howner, hrun, hlive⟩ := renewable_iff.mp hren
    have hfound := job_of_mem hrow
    rw [hid] at hfound
    refine ⟨hw, row, hb, hfound, howner, hrun, hlive, ?_⟩
    unfold Store.setJob
    rw [update_renewable hrow hren]
  · rintro ⟨hw, row, h⟩
    obtain ⟨hrow, hid⟩ := mem_of_job h.found
    have hren : row.renewable jobId workerId now = true :=
      renewable_iff.mpr ⟨hid, h.owner, h.running, h.live⟩
    refine ⟨(), s, ⟨h.bound, rfl⟩, (), s, ⟨hw, rfl⟩, s, s, rfl, (), _, rfl,
      renewable_count.mpr ⟨row, hrow, hren⟩, ?_⟩
    rw [h.store]
    unfold Store.setJob
    rw [update_renewable hrow hren]

/-- A heartbeat is refused after its statement, which then has touched no row. -/
theorem heartbeatStatement_error {jobId workerId : PyStr} {leaseSeconds now : T} {s s' : Store T}
    {e : StoreError T} (h : heartbeatStatement jobId workerId leaseSeconds now s = .error e s') :
    s' = s := by
  unfold heartbeatStatement at h
  apply bind_rollback (fun _ _ => raiseIf_error) _ h
  intro _ s₁ h₁ _ s₂ h₂
  rw [(bindText_eq_ok.mp h₁).2] at h₂
  apply bind_rollback (fun _ _ => raiseIf_error) _ h₂
  intro _ s₃ h₃ e s₄ h₄
  rw [(bindText_eq_ok.mp h₃).2] at h₄
  rcases bind_eq_error.mp h₄ with h₅ | ⟨_, _, hget, h₅⟩
  · cases h₅
  cases hget
  rcases bind_eq_error.mp h₅ with h₆ | ⟨_, s₆, hset, h₆⟩
  · cases h₆
  have hs₄ := raiseIf_error h₆
  rw [set_eq_ok.mp hset] at hs₄ h₆
  by_cases hone : s.jobs.rows.countP (Job.renewable jobId workerId now) = 1
  · simp [raiseIf, hone] at h₆
    cases h₆
  · have hnone : ∀ r ∈ s.jobs.rows, r.renewable jobId workerId now = false := by
      intro r hr
      by_contra hren
      exact hone (renewable_count.mpr ⟨r, hr, by simpa using hren⟩)
    rw [hs₄, Table.update_none hnone]

theorem heartbeat_eq_ok {jobId workerId : PyStr} {leaseSeconds now : T} {s s' : Store T}
    {r : Job T} :
    heartbeat jobId workerId leaseSeconds now s = .ok r s' ↔
      (encode workerId).isSome = true ∧
        ∃ row, Renewed s jobId workerId leaseSeconds now row s' ∧ r = row.renew leaseSeconds now := by
  unfold heartbeat
  simp only [bind_eq_ok, heartbeatStatement_eq_ok]
  constructor
  · rintro ⟨_, s₁, ⟨hw, row, h⟩, hget⟩
    rw [h.store, getJob_after h.bound h.found] at hget
    cases hget
    exact ⟨hw, row, h.store ▸ h, rfl⟩
  · rintro ⟨hw, row, h, rfl⟩
    refine ⟨(), s', ⟨hw, row, h⟩, ?_⟩
    rw [h.store]
    exact getJob_after h.bound h.found

theorem heartbeat_error {jobId workerId : PyStr} {leaseSeconds now : T} {s s' : Store T}
    {e : StoreError T} (h : heartbeat jobId workerId leaseSeconds now s = .error e s') : s' = s := by
  apply bind_rollback (fun _ _ => heartbeatStatement_error) _ h
  intro _ s₁ h₁ _ s₂ h₂
  obtain ⟨_, row, hrow⟩ := heartbeatStatement_eq_ok.mp h₁
  rw [hrow.store, getJob_after hrow.bound hrow.found] at h₂
  cases h₂

end Leases

/-! ## Checkpoints -/

section Checkpoints
variable [LinearOrder T]

/-- The checkpoint is there already with the same content, or it is a new row. -/
inductive Written (s : Store T) (c : Checkpoint T) (s' : Store T) : Prop where
  | replayed (existing : Checkpoint T)
      (found : s.checkpoints.find (Checkpoint.hasKey c.jobId c.checkpointKey) = some existing)
      (same : existing.payload = c.payload ∧ existing.stage = c.stage) (unchanged : s' = s)
  | inserted (t : Table (Checkpoint.key (T := T)) Eq)
      (fresh : s.checkpoints.find (Checkpoint.hasKey c.jobId c.checkpointKey) = none)
      (bound : (encode c.payload).isSome = true) (inserted : s.checkpoints.insert c = some t)
      (store : s' = { s with checkpoints := t })

omit [LinearOrder T] in
theorem recordCheckpoint_eq_ok {c : Checkpoint T} {s s' : Store T} {u : Unit} :
    recordCheckpoint c s = .ok u s' ↔ (encode c.checkpointKey).isSome = true ∧ Written s c s' := by
  unfold recordCheckpoint
  simp only [bind_eq_ok, bindText_eq_ok, get_apply]
  constructor
  · rintro ⟨_, s₁, ⟨hk, hs₁⟩, _, _, hget, h⟩
    rw [hs₁] at hget
    cases hget
    refine ⟨hk, ?_⟩
    cases hfind : s.checkpoints.find (Checkpoint.hasKey c.jobId c.checkpointKey) with
    | some existing =>
      simp only [hfind, raiseIf_eq_ok, not_or, not_not] at h
      exact .replayed existing hfind h.1 h.2
    | none =>
      simp only [hfind, bind_eq_ok, bindText_eq_ok, insertCheckpoint_eq_ok] at h
      obtain ⟨_, _, ⟨hp, rfl⟩, t, hins, rfl⟩ := h
      exact .inserted t hfind hp hins rfl
  · rintro ⟨hk, h⟩
    refine ⟨(), s, ⟨hk, rfl⟩, s, s, rfl, ?_⟩
    cases h with
    | replayed existing found same unchanged =>
      simp only [found, raiseIf_eq_ok, not_or, not_not]
      exact ⟨same, unchanged⟩
    | inserted t fresh bound inserted store =>
      simp only [fresh, bind_eq_ok, bindText_eq_ok, insertCheckpoint_eq_ok]
      exact ⟨(), s, ⟨bound, rfl⟩, t, inserted, store⟩

/-- `save_checkpoint` recorded a checkpoint for this row. -/
structure Checkpointed (s : Store T) (jobId workerId : PyStr) (stage : Stage)
    (checkpointKey rendered : PyStr) (now : T) (row : Job T) (s' : Store T) : Prop where
  bound : (encode jobId).isSome = true ∧ (encode checkpointKey).isSome = true
  found : s.job jobId = some row
  running : row.status = .running
  owner : row.leaseOwner = some workerId
  live : ∃ expiry, row.leaseExpiresAt = some expiry ∧ now ≤ expiry
  forward : row.stage.order ≤ stage.order
  written : ∃ s₁, Written s ⟨jobId, stage, checkpointKey, rendered, now⟩ s₁ ∧
    s' = s₁.setJob jobId (·.advance stage now) (Job.advance_key stage now)

theorem leaseExpired_iff {now : T} {expiry : Option T} :
    ¬ (expiry.all fun e => decide (e < now)) = true ↔ ∃ e, expiry = some e ∧ now ≤ e := by
  cases expiry with
  | none => simp
  | some e => simp

theorem checkpointTransaction_eq_ok {jobId workerId : PyStr} {stage : Stage}
    {checkpointKey rendered : PyStr} {now : T} {s s' : Store T} {u : Unit} :
    checkpointTransaction jobId workerId stage checkpointKey rendered now s = .ok u s' ↔
      ∃ row, Checkpointed s jobId workerId stage checkpointKey rendered now row s' := by
  unfold checkpointTransaction
  rw [immediate_eq_ok]
  simp only [bind_eq_ok, selectJob_eq_ok, raiseIf_eq_ok, recordCheckpoint_eq_ok, modify_eq_ok,
    leaseExpired_iff, not_or, not_not, not_lt]
  constructor
  · rintro ⟨row, _, ⟨hb, hrow, rfl⟩, _, _, ⟨⟨hrun, howner⟩, rfl⟩, _, _, ⟨hlive, rfl⟩, _, _,
      ⟨hfwd, rfl⟩, _, s₁, ⟨hk, hwritten⟩, rfl⟩
    exact ⟨row, ⟨hb, hk⟩, hrow, hrun, howner, hlive, hfwd, s₁, hwritten, rfl⟩
  · rintro ⟨row, h⟩
    obtain ⟨s₁, hwritten, hstore⟩ := h.written
    exact ⟨row, s, ⟨h.bound.1, h.found, rfl⟩, (), s, ⟨⟨h.running, h.owner⟩, rfl⟩, (), s,
      ⟨h.live, rfl⟩, (), s, ⟨h.forward, rfl⟩, (), s₁, ⟨h.bound.2, hwritten⟩, hstore⟩

omit [LinearOrder T] in
theorem Written.rest {s s' : Store T} {c : Checkpoint T} (h : Written s c s') :
    s'.jobs = s.jobs ∧ s'.usageLedger = s.usageLedger := by
  cases h with
  | replayed existing found same unchanged => exact unchanged ▸ ⟨rfl, rfl⟩
  | inserted t fresh bound inserted store => exact store ▸ ⟨rfl, rfl⟩

theorem Checkpointed.get {s s' : Store T} {jobId workerId : PyStr} {stage : Stage}
    {checkpointKey rendered : PyStr} {now : T} {row : Job T}
    (h : Checkpointed s jobId workerId stage checkpointKey rendered now row s') :
    getJob jobId none s' = .ok (row.advance stage now) s' := by
  obtain ⟨s₁, hwritten, hstore⟩ := h.written
  have hfound : s₁.job jobId = some row := by
    rw [Store.job, hwritten.rest.1]
    exact h.found
  rw [hstore]
  exact getJob_after h.bound.1 hfound

variable {F : Type} [PyFloat F]

theorem saveCheckpoint_eq_ok {jobId workerId : PyStr} {stage : Stage} {checkpointKey : PyStr}
    {payload : PyVal F} {now : T} {s s' : Store T} {r : Job T} :
    saveCheckpoint jobId workerId stage checkpointKey payload now s = .ok r s' ↔
      ∃ rendered, renderPayload payload = .ok rendered ∧
        ∃ row, Checkpointed s jobId workerId stage checkpointKey rendered now row s' ∧
          r = row.advance stage now := by
  unfold saveCheckpoint
  cases hp : renderPayload payload with
  | error e => simp
  | ok rendered =>
    simp only [bind_eq_ok, checkpointTransaction_eq_ok, Except.ok.injEq, exists_eq_left']
    constructor
    · rintro ⟨_, s₁, ⟨row, h⟩, hget⟩
      rw [h.get] at hget
      cases hget
      exact ⟨row, h, rfl⟩
    · rintro ⟨row, h, rfl⟩
      exact ⟨(), s', ⟨row, h⟩, h.get⟩

theorem saveCheckpoint_error {jobId workerId : PyStr} {stage : Stage} {checkpointKey : PyStr}
    {payload : PyVal F} {now : T} {s s' : Store T} {e : StoreError T}
    (h : saveCheckpoint jobId workerId stage checkpointKey payload now s = .error e s') :
    s' = s := by
  unfold saveCheckpoint at h
  cases hp : renderPayload payload with
  | error e =>
    simp only [hp] at h
    cases h
    rfl
  | ok rendered =>
    simp only [hp] at h
    apply bind_rollback (fun _ _ => immediate_rollback) _ h
    intro _ s₁ h₁ _ s₂ h₂
    obtain ⟨row, hrow⟩ := checkpointTransaction_eq_ok.mp h₁
    rw [hrow.get] at h₂
    cases h₂

end Checkpoints

/-! ## Charges -/

section Charges

/-- `charge` recorded usage on this row. -/
structure Charged (s : Store T) (jobId : PyStr) (c : Charge) (now : T) (row : Job T)
    (s' : Store T) : Prop where
  bound : (encode jobId).isSome = true ∧ (encode c.chargeKey).isSome = true ∧
    (encode c.provider).isSome = true
  found : s.job jobId = some row
  fresh : s.usageLedger.find (Usage.hasKey jobId c.chargeKey) = none
  budgets : c.exceeded row = []
  inserted : ∃ t, s.usageLedger.insert (c.row jobId now) = some t ∧
    s' = { s with usageLedger := t }.setJob jobId (·.charged c now) (Job.charged_key c now)

/-- `charge` found the usage recorded already. -/
structure ChargeReplayed (s : Store T) (jobId : PyStr) (c : Charge) (row : Job T) : Prop where
  bound : (encode jobId).isSome = true ∧ (encode c.chargeKey).isSome = true
  found : s.job jobId = some row
  recorded : ∃ u, s.usageLedger.find (Usage.hasKey jobId c.chargeKey) = some u ∧ c.same u

theorem chargeTransaction_eq_ok {jobId : PyStr} {c : Charge} {now : T} {s s' : Store T}
    {r : Option (Job T)} :
    chargeTransaction jobId c now s = .ok r s' ↔
      (∃ row, ChargeReplayed s jobId c row ∧ r = some row ∧ s' = s) ∨
        ∃ row, Charged s jobId c now row s' ∧ r = none := by
  unfold chargeTransaction
  rw [immediate_eq_ok]
  simp only [bind_eq_ok, selectJob_eq_ok, bindText_eq_ok, get_apply]
  constructor
  · intro ⟨row, s₁, ⟨hb, hrow, hs₁⟩, _, s₂, ⟨hk, hs₂⟩, _, _, hget, h⟩
    rw [hs₂, hs₁] at hget
    cases hget
    cases hfind : s.usageLedger.find (Usage.hasKey jobId c.chargeKey) with
    | some u =>
      simp only [hfind, bind_eq_ok, raiseIf_eq_ok, not_not, pure_eq_ok] at h
      obtain ⟨_, _, ⟨hsame, hs⟩, hr, hs'⟩ := h
      exact Or.inl ⟨row, ⟨⟨hb, hk⟩, hrow, u, hfind, hsame⟩, hr, hs'.trans hs⟩
    | none =>
      simp only [hfind, bind_eq_ok, raiseIf_eq_ok, bindText_eq_ok, insertUsage_eq_ok,
        modify_eq_ok, pure_eq_ok, ne_eq, not_not] at h
      obtain ⟨_, _, ⟨hbud, rfl⟩, _, _, ⟨hp, rfl⟩, _, _, ⟨t, hins, rfl⟩, _, _, rfl, hr, rfl⟩ := h
      exact Or.inr ⟨row, ⟨⟨hb, hk, hp⟩, hrow, hfind, hbud, t, hins, rfl⟩, hr⟩
  · rintro (⟨row, h, rfl, rfl⟩ | ⟨row, h, rfl⟩)
    · obtain ⟨u, hfind, hsame⟩ := h.recorded
      refine ⟨row, s', ⟨h.bound.1, h.found, rfl⟩, (), s', ⟨h.bound.2, rfl⟩, s', s', rfl, ?_⟩
      simp only [hfind, bind_eq_ok, raiseIf_eq_ok, not_not, pure_eq_ok]
      exact ⟨(), s', ⟨hsame, rfl⟩, trivial, rfl⟩
    · obtain ⟨t, hins, hstore⟩ := h.inserted
      refine ⟨row, s, ⟨h.bound.1, h.found, rfl⟩, (), s, ⟨h.bound.2.1, rfl⟩, s, s, rfl, ?_⟩
      simp only [h.fresh, bind_eq_ok, raiseIf_eq_ok, bindText_eq_ok, insertUsage_eq_ok,
        modify_eq_ok, pure_eq_ok, ne_eq, not_not]
      exact ⟨(), s, ⟨h.budgets, rfl⟩, (), s, ⟨h.bound.2.2, rfl⟩, (), _, ⟨t, hins, rfl⟩, (), _,
        rfl, trivial, hstore⟩

theorem Charged.get {s s' : Store T} {jobId : PyStr} {c : Charge} {now : T} {row : Job T}
    (h : Charged s jobId c now row s') : getJob jobId none s' = .ok (row.charged c now) s' := by
  obtain ⟨t, _, hstore⟩ := h.inserted
  rw [hstore]
  exact getJob_after h.bound.1 h.found

theorem charge_eq_ok {jobId : PyStr} {c : Charge} {now : T} {s s' : Store T} {r : Job T} :
    charge jobId c now s = .ok r s' ↔
      (0 ≤ c.calls ∧ 0 ≤ c.tokens ∧ 0 ≤ c.costMicrounits) ∧
        ((ChargeReplayed s jobId c r ∧ s' = s) ∨
          ∃ row, Charged s jobId c now row s' ∧ r = row.charged c now) := by
  unfold charge
  simp only [bind_eq_ok, raiseIf_eq_ok, chargeTransaction_eq_ok, not_lt, le_min_iff, and_assoc]
  constructor
  · rintro ⟨_, _, h₁, h₂, h₃, rfl, _, s₁, (⟨row, h, rfl, rfl⟩ | ⟨row, h, rfl⟩), hget⟩
    · obtain ⟨rfl, rfl⟩ := pure_eq_ok.mp hget
      exact ⟨h₁, h₂, h₃, Or.inl ⟨h, rfl⟩⟩
    · change getJob jobId none s₁ = _ at hget
      rw [h.get] at hget
      cases hget
      exact ⟨h₁, h₂, h₃, Or.inr ⟨row, h, rfl⟩⟩
  · rintro ⟨h₁, h₂, h₃, (⟨h, rfl⟩ | ⟨row, h, rfl⟩)⟩
    · exact ⟨(), s', h₁, h₂, h₃, rfl, some r, s', Or.inl ⟨r, h, rfl, rfl⟩, rfl⟩
    · exact ⟨(), s, h₁, h₂, h₃, rfl, none, s', Or.inr ⟨row, h, rfl⟩, h.get⟩

theorem charge_error {jobId : PyStr} {c : Charge} {now : T} {s s' : Store T} {e : StoreError T}
    (h : charge jobId c now s = .error e s') : s' = s := by
  apply bind_rollback (fun _ _ => raiseIf_error) _ h
  intro _ s₁ h₁ _ s₂ h₂
  rw [(raiseIf_eq_ok.mp h₁).2] at h₂
  apply bind_rollback (fun _ _ => immediate_rollback) _ h₂
  intro r s₃ h₃ _ s₄ h₄
  rcases chargeTransaction_eq_ok.mp h₃ with ⟨row, _, rfl, _⟩ | ⟨row, hrow, rfl⟩
  · cases h₄
  · change getJob jobId none s₃ = _ at h₄
    rw [hrow.get] at h₄
    cases h₄

end Charges

/-! ## Transitions -/

/-- `transition` moved this row to its target. -/
structure Moved (s : Store T) (jobId : PyStr) (t : Transition) (now : T) (row : Job T)
    (s' : Store T) : Prop where
  bound : (encode jobId).isSome = true ∧ ∀ code ∈ t.errorCode, (encode code).isSome = true
  found : s.job jobId = some row
  version : ∀ v ∈ t.expectedVersion, row.version = v
  allowed : t.target ∈ allowedStatus row.status
  validated : t.target = .succeeded → row.stage = .validate
  store : s' = s.setJob jobId (·.moved t now) (Job.moved_key t now)

theorem transitionTransaction_eq_ok {jobId : PyStr} {t : Transition} {now : T} {s s' : Store T}
    {u : Unit} :
    transitionTransaction jobId t now s = .ok u s' ↔ ∃ row, Moved s jobId t now row s' := by
  unfold transitionTransaction
  rw [immediate_eq_ok]
  have hver : ∀ row : Job T, ¬ (t.expectedVersion.any fun v => row.version ≠ v) = true ↔
      ∀ v ∈ t.expectedVersion, row.version = v := by
    intro row
    cases t.expectedVersion with
    | none => simp
    | some v => simp
  simp only [bind_eq_ok, selectJob_eq_ok, raiseIf_eq_ok, bindOptional_eq_ok, modify_eq_ok, hver,
    not_and, ne_eq, not_not]
  constructor
  · rintro ⟨row, _, ⟨hb, hrow, rfl⟩, _, _, ⟨hv, rfl⟩, _, _, ⟨hall, rfl⟩, _, _, ⟨hval, rfl⟩, _, _,
      ⟨hcode, rfl⟩, hstore⟩
    exact ⟨row, ⟨hb, hcode⟩, hrow, hv, hall, hval, hstore⟩
  · rintro ⟨row, h⟩
    exact ⟨row, s, ⟨h.bound.1, h.found, rfl⟩, (), s, ⟨h.version, rfl⟩, (), s, ⟨h.allowed, rfl⟩, (),
      s, ⟨h.validated, rfl⟩, (), s, ⟨h.bound.2, rfl⟩, h.store⟩

theorem transition_eq_ok {jobId : PyStr} {t : Transition} {now : T} {s s' : Store T} {r : Job T} :
    transition jobId t now s = .ok r s' ↔
      ∃ row, Moved s jobId t now row s' ∧ r = row.moved t now := by
  unfold transition
  simp only [bind_eq_ok, transitionTransaction_eq_ok]
  constructor
  · rintro ⟨_, s₁, ⟨row, h⟩, hget⟩
    rw [h.store, getJob_after h.bound.1 h.found] at hget
    cases hget
    exact ⟨row, h.store ▸ h, rfl⟩
  · rintro ⟨row, h, rfl⟩
    refine ⟨(), s', ⟨row, h⟩, ?_⟩
    rw [h.store]
    exact getJob_after h.bound.1 h.found

theorem transition_error {jobId : PyStr} {t : Transition} {now : T} {s s' : Store T}
    {e : StoreError T} (h : transition jobId t now s = .error e s') : s' = s := by
  apply bind_rollback (fun _ _ => immediate_rollback) _ h
  intro _ s₁ h₁ _ s₂ h₂
  obtain ⟨row, hrow⟩ := transitionTransaction_eq_ok.mp h₁
  rw [hrow.store, getJob_after hrow.bound.1 hrow.found] at h₂
  cases h₂

/-! ## New jobs -/

/-- `create_job` inserted a row. -/
structure Created (s : Store T) (a : NewJob) (identifier : PyStr) (now : T) (s' : Store T) :
    Prop where
  bound : (encode a.tenantId).isSome = true ∧ (encode a.idempotencyKey).isSome = true ∧
    (encode identifier).isSome = true ∧ (encode a.task).isSome = true
  fits : FitsInteger a.maxCalls ∧ FitsInteger a.maxTokens ∧ FitsInteger a.maxCostMicrounits
  newKey : s.jobs.find (Job.hasKey a.tenantId a.idempotencyKey) = none
  inserted : ∃ t, s.jobs.insert (a.row identifier now) = some t ∧ s' = { s with jobs := t }

/-- `create_job` found its key recorded for the same job. -/
structure CreateReplayed (s : Store T) (a : NewJob) (existing : Job T) : Prop where
  bound : (encode a.tenantId).isSome = true ∧ (encode a.idempotencyKey).isSome = true
  found : s.jobs.find (Job.hasKey a.tenantId a.idempotencyKey) = some existing
  same : a.same existing

theorem createJobTransaction_eq_ok {a : NewJob} {identifier : PyStr} {now : T} {s s' : Store T}
    {r : Option (Job T)} :
    createJobTransaction a identifier now s = .ok r s' ↔
      (∃ existing, CreateReplayed s a existing ∧ r = some existing ∧ s' = s) ∨
        (Created s a identifier now s' ∧ r = none) := by
  unfold createJobTransaction
  rw [immediate_eq_ok]
  simp only [bind_eq_ok, bindText_eq_ok, get_apply]
  constructor
  · intro ⟨_, s₁, ⟨ht, hs₁⟩, _, s₂, ⟨hk, hs₂⟩, _, _, hget, h⟩
    rw [hs₂, hs₁] at hget
    cases hget
    cases hfind : s.jobs.find (Job.hasKey a.tenantId a.idempotencyKey) with
    | some existing =>
      simp only [hfind, bind_eq_ok, raiseIf_eq_ok, not_not, pure_eq_ok] at h
      obtain ⟨_, _, ⟨hsame, hs⟩, hr, hs'⟩ := h
      exact Or.inl ⟨existing, ⟨⟨ht, hk⟩, hfind, hsame⟩, hr, hs'.trans hs⟩
    | none =>
      simp only [hfind, bind_eq_ok, bindText_eq_ok, bindInt_eq_ok, insertJob_eq_ok,
        pure_eq_ok] at h
      obtain ⟨_, _, ⟨hi, rfl⟩, _, _, ⟨htask, rfl⟩, _, _, ⟨h₁, rfl⟩, _, _, ⟨h₂, rfl⟩, _, _,
        ⟨h₃, rfl⟩, _, _, ⟨t, hins, rfl⟩, hr, rfl⟩ := h
      exact Or.inr ⟨⟨⟨ht, hk, hi, htask⟩, ⟨h₁, h₂, h₃⟩, hfind, t, hins, rfl⟩, hr⟩
  · rintro (⟨existing, h, rfl, rfl⟩ | ⟨h, rfl⟩)
    · refine ⟨(), s', ⟨h.bound.1, rfl⟩, (), s', ⟨h.bound.2, rfl⟩, s', s', rfl, ?_⟩
      simp only [h.found, bind_eq_ok, raiseIf_eq_ok, not_not, pure_eq_ok]
      exact ⟨(), s', ⟨h.same, rfl⟩, trivial, rfl⟩
    · obtain ⟨ht, hk, hi, htask⟩ := h.bound
      obtain ⟨t, hins, hstore⟩ := h.inserted
      refine ⟨(), s, ⟨ht, rfl⟩, (), s, ⟨hk, rfl⟩, s, s, rfl, ?_⟩
      simp only [h.newKey, bind_eq_ok, bindText_eq_ok, bindInt_eq_ok, insertJob_eq_ok, pure_eq_ok]
      exact ⟨(), s, ⟨hi, rfl⟩, (), s, ⟨htask, rfl⟩, (), s, ⟨h.fits.1, rfl⟩, (), s,
        ⟨h.fits.2.1, rfl⟩, (), s, ⟨h.fits.2.2, rfl⟩, (), _, ⟨t, hins, rfl⟩, trivial, hstore⟩

/-- A new row is found behind the rows it was inserted after. -/
theorem Created.job {s s' : Store T} {a : NewJob} {identifier : PyStr} {now : T}
    (h : Created s a identifier now s') (jobId : PyStr) :
    s'.job jobId =
      (s.job jobId).or (if identifier = jobId then some (a.row identifier now) else none) := by
  obtain ⟨t, hins, hstore⟩ := h.inserted
  rw [hstore]
  unfold Store.job
  simp [Table.find_insert hins, Job.hasId, NewJob.row]

theorem Created.absent {s s' : Store T} {a : NewJob} {identifier : PyStr} {now : T}
    (h : Created s a identifier now s') : s.job identifier = none := by
  obtain ⟨t, hins, _⟩ := h.inserted
  have hclash := Table.insert_isSome.mp ⟨t, hins⟩
  refine Table.find_eq_none.mpr ?_
  intro r hr
  have hne : ¬ r.jobId = identifier := by
    intro heq
    exact hclash r hr (Or.inl heq)
  simp [Job.hasId, hne]

theorem Created.get {s s' : Store T} {a : NewJob} {identifier : PyStr} {now : T}
    (h : Created s a identifier now s') :
    getJob identifier (some a.tenantId) s' = .ok (a.row identifier now) s' := by
  obtain ⟨t, hins, hstore⟩ := h.inserted
  have hnone : s.jobs.find (fun j => j.hasId identifier && j.tenantId == a.tenantId) = none := by
    refine Table.find_eq_none.mpr ?_
    intro r hr
    simp [Table.find_eq_none.mp h.absent r hr]
  have hfind : s'.jobs.find (fun j => j.hasId identifier && j.tenantId == a.tenantId) =
      some (a.row identifier now) := by
    rw [hstore, Table.find_insert hins, hnone]
    simp [NewJob.row, Job.hasId]
  simp only [getJob, bind_eq_ok, bindText_eq_ok, get_apply, orRaise_eq_ok]
  exact ⟨(), s', ⟨h.bound.2.2.1, rfl⟩, (), s', ⟨h.bound.1, rfl⟩, s', s', rfl, hfind, rfl⟩

theorem createJob_eq_ok {a : NewJob} {uuid : PyStr} {now : T} {s s' : Store T} {r : Job T} :
    createJob a uuid now s = .ok r s' ↔
      (isBlank a.tenantId = false ∧ isBlank a.idempotencyKey = false ∧ isBlank a.task = false) ∧
        (0 ≤ a.maxCalls ∧ 0 ≤ a.maxTokens ∧ 0 ≤ a.maxCostMicrounits) ∧
        ((CreateReplayed s a r ∧ s' = s) ∨
          (Created s a (orElse a.jobId uuid) now s' ∧ r = a.row (orElse a.jobId uuid) now)) := by
  unfold createJob
  simp only [bind_eq_ok, raiseIf_eq_ok, createJobTransaction_eq_ok, not_or, not_lt, le_min_iff,
    Bool.not_eq_true, and_assoc]
  constructor
  · rintro ⟨_, _, f₁, f₂, f₃, rfl, _, _, h₁, h₂, h₃, rfl, _, s₁,
      (⟨existing, h, rfl, rfl⟩ | ⟨h, rfl⟩), hget⟩
    · obtain ⟨rfl, rfl⟩ := pure_eq_ok.mp hget
      exact ⟨f₁, f₂, f₃, h₁, h₂, h₃, Or.inl ⟨h, rfl⟩⟩
    · change getJob _ _ s₁ = _ at hget
      rw [h.get] at hget
      cases hget
      exact ⟨f₁, f₂, f₃, h₁, h₂, h₃, Or.inr ⟨h, rfl⟩⟩
  · rintro ⟨f₁, f₂, f₃, h₁, h₂, h₃, (⟨h, rfl⟩ | ⟨h, rfl⟩)⟩
    · exact ⟨(), s', f₁, f₂, f₃, rfl, (), s', h₁, h₂, h₃, rfl, some r, s',
        Or.inl ⟨r, h, rfl, rfl⟩, rfl⟩
    · exact ⟨(), s, f₁, f₂, f₃, rfl, (), s, h₁, h₂, h₃, rfl, none, s', Or.inr ⟨h, rfl⟩, h.get⟩

theorem createJob_error {a : NewJob} {uuid : PyStr} {now : T} {s s' : Store T} {e : StoreError T}
    (h : createJob a uuid now s = .error e s') : s' = s := by
  apply bind_rollback (fun _ _ => raiseIf_error) _ h
  intro _ s₁ h₁ _ s₂ h₂
  rw [(raiseIf_eq_ok.mp h₁).2] at h₂
  apply bind_rollback (fun _ _ => raiseIf_error) _ h₂
  intro _ s₃ h₃ _ s₄ h₄
  rw [(raiseIf_eq_ok.mp h₃).2] at h₄
  apply bind_rollback (fun _ _ => immediate_rollback) _ h₄
  intro r s₅ h₅ _ s₆ h₆
  rcases createJobTransaction_eq_ok.mp h₅ with ⟨existing, _, rfl, _⟩ | ⟨hnew, rfl⟩
  · cases h₆
  · change getJob _ _ s₅ = _ at h₆
    rw [hnew.get] at h₆
    cases h₆

end JobStoreCalls
