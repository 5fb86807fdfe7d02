import VeriMat.JobStoreRuns

/-! # The job state machine

Statuses move along `ALLOWED_STATUS` and rest once terminal, stages only move forward, versions
count the changes of a row, and a success has its `VALIDATE` checkpoint. -/
namespace JobStoreStateMachine

open PyText PyValue JsonText Events KeyedTable JobStore JobStoreCalls JobStoreRuns

variable {F T : Type} [LinearOrder T] [Add T]

/-! ## One row -/

theorem terminal_allowed {status : JobStatus} (h : status ∈ terminal) :
    allowedStatus status = [] := by
  revert h
  cases status <;> simp [terminal, allowedStatus]

theorem step_edge {c : Call F T} {j j' : Job T} (h : RowStep c j j') (hne : j'.status ≠ j.status) :
    j'.status ∈ allowedStatus j.status := by
  cases h with
  | leased worker runnable free =>
    by_cases hq : j.status = .queued ∨ j.status = .retryWait
    · rcases hq with hq | hq
      · simp [Job.lease, hq, allowedStatus]
      · simp [Job.lease, hq, allowedStatus]
    · exact absurd (by simp [Job.lease, hq]) hne
  | moved allowed validated => exact allowed
  | renewed | advanced | charged => exact absurd rfl hne

theorem step_forward {c : Call F T} {j j' : Job T} (h : RowStep c j j') :
    j.stage.order ≤ j'.stage.order := by
  cases h with
  | advanced owner running live forward => exact forward
  | leased | renewed | charged | moved => exact le_refl _

/-- The call is a `save_checkpoint`. -/
def Call.SavesCheckpoint : Call F T → Prop
  | .saveCheckpoint _ _ _ _ _ _ => True
  | _ => False

theorem step_checkpointOnly {c : Call F T} {j j' : Job T} (h : RowStep c j j')
    (hne : j'.stage ≠ j.stage) : Call.SavesCheckpoint c := by
  cases h with
  | advanced => trivial
  | leased | renewed | charged | moved => exact absurd rfl hne

theorem step_version {c : Call F T} {j j' : Job T} (h : RowStep c j j') :
    j'.version = j.version + 1 := by
  cases h <;> rfl

theorem step_terminal {c : Call F T} {j j' : Job T} (h : RowStep c j j')
    (hterm : j.status ∈ terminal) : j'.status = j.status := by
  by_contra hne
  have hedge := step_edge h hne
  rw [terminal_allowed hterm] at hedge
  cases hedge

/-- Only a row in the last stage becomes a success. -/
theorem step_validated {c : Call F T} {j j' : Job T} (h : RowStep c j j')
    (hval : j.status = .succeeded → j.stage = .validate) (hsucc : j'.status = .succeeded) :
    j'.stage = .validate := by
  cases h with
  | leased worker runnable free =>
    by_cases hq : j.status = .queued ∨ j.status = .retryWait
    · simp [Job.lease, hq] at hsucc
    · have hs : j.status = .succeeded := by simpa [Job.lease, hq] using hsucc
      exact absurd (by simp [hs, terminal]) runnable.1
  | advanced owner running live forward => exact absurd (running.symm.trans hsucc) (by simp)
  | renewed | charged => exact hval hsucc
  | moved allowed validated => exact validated hsucc

theorem run_terminal {j j' : Job T}
    (h : Relation.ReflTransGen (fun a b => ∃ c : Call F T, RowStep c a b) j j')
    (hterm : j.status ∈ terminal) : j'.status = j.status := by
  induction h with
  | refl => rfl
  | tail _ hstep ih =>
    obtain ⟨c, hstep⟩ := hstep
    rw [step_terminal hstep (ih ▸ hterm), ih]

theorem run_forward {j j' : Job T}
    (h : Relation.ReflTransGen (fun a b => ∃ c : Call F T, RowStep c a b) j j') :
    j.stage.order ≤ j'.stage.order := by
  induction h with
  | refl => exact le_refl _
  | tail _ hstep ih =>
    obtain ⟨c, hstep⟩ := hstep
    exact ih.trans (step_forward hstep)

/-! ## Checkpoint rows -/

variable [PyFloat F]

/-- A commit leaves the checkpoints alone unless it writes one. -/
theorem commits_checkpoints {c : Call F T} {s s' : Store T} (h : Commits c s s') :
    s'.checkpoints = s.checkpoints ∨
      ∃ row, s.checkpoints.insert row = some s'.checkpoints ∧ Call.SavesCheckpoint c := by
  cases c with
  | createJob a uuid now =>
    obtain ⟨t, _, hstore⟩ := h.2.inserted
    exact Or.inl (hstore ▸ rfl)
  | acquireLease id workerId leaseSeconds now =>
    obtain ⟨_, row, h⟩ := h
    exact Or.inl (h.store ▸ rfl)
  | heartbeat id workerId leaseSeconds now =>
    obtain ⟨row, h⟩ := h
    exact Or.inl (h.store ▸ rfl)
  | saveCheckpoint id workerId stage checkpointKey payload now =>
    obtain ⟨rendered, _, row, h⟩ := h
    obtain ⟨s₁, hwritten, rfl⟩ := h.written
    cases hwritten with
    | replayed existing found same unchanged => exact Or.inl (unchanged ▸ rfl)
    | inserted t fresh bound inserted store =>
      subst store
      exact Or.inr ⟨_, inserted, trivial⟩
  | charge id c now =>
    obtain ⟨_, row, h⟩ := h
    obtain ⟨t, _, hstore⟩ := h.inserted
    exact Or.inl (hstore ▸ rfl)
  | transition id t now =>
    obtain ⟨row, h⟩ := h
    exact Or.inl (h.store ▸ rfl)
  | get _ _ | checkpoints _ | runnableJobIds _ _ => exact h.elim

/-- A checkpoint row is never changed and never lost. -/
theorem commits_keep_checkpoint {c : Call F T} {s s' : Store T} (h : Commits c s s')
    {p : Checkpoint T → Bool} {row : Checkpoint T} (hrow : s.checkpoints.find p = some row) :
    s'.checkpoints.find p = some row := by
  rcases commits_checkpoints h with heq | ⟨r, hins, _⟩
  · rw [heq, hrow]
  · rw [Table.find_insert hins, hrow, Option.some_or]

/-- The stage of a row has a checkpoint, and a success is in the last stage. -/
structure StageInvariant (s : Store T) : Prop where
  checkpointed : ∀ jobId j, s.job jobId = some j → j.stage ≠ .plan →
    ∃ c ∈ s.checkpoints.rows, c.jobId = jobId ∧ c.stage = j.stage
  validated : ∀ jobId j, s.job jobId = some j → j.status = .succeeded → j.stage = .validate

omit [LinearOrder T] [Add T] in
theorem written_stage {s s' : Store T} {c : Checkpoint T} (h : Written s c s') :
    ∃ r ∈ s'.checkpoints.rows, r.jobId = c.jobId ∧ r.stage = c.stage := by
  cases h with
  | replayed existing found same unchanged =>
    obtain ⟨hm, hk⟩ := Table.mem_of_find found
    have hid : existing.jobId = c.jobId := by
      simp only [Checkpoint.hasKey, Bool.and_eq_true, beq_iff_eq] at hk
      exact hk.1
    exact ⟨existing, unchanged ▸ hm, hid, same.2⟩
  | inserted t fresh bound inserted store =>
    subst store
    exact ⟨c, by simp [Table.insert_rows inserted], rfl, rfl⟩

theorem mem_checkpoints {c : Call F T} {s s' : Store T} (h : Commits c s s') {r : Checkpoint T}
    (hr : r ∈ s.checkpoints.rows) : r ∈ s'.checkpoints.rows := by
  rcases commits_checkpoints h with heq | ⟨row, hins, _⟩
  · exact heq ▸ hr
  · rw [Table.insert_rows hins]
    exact List.mem_append_left _ hr

omit [LinearOrder T] [Add T] in
theorem stageInvariant_empty : StageInvariant (Store.empty : Store T) := by
  constructor
  · intro jobId j hj
    cases hj
  · intro jobId j hj
    cases hj

/-- A save leaves its stage in the row and among the checkpoints. -/
theorem stage_step {c : Call F T} {s s' : Store T} (h : Commits c s s') {jobId : PyStr}
    {j j' : Job T} (hj : s.job jobId = some j) (hj' : s'.job jobId = some j')
    (hne : j'.stage ≠ j.stage) : ∃ r ∈ s'.checkpoints.rows, r.jobId = jobId ∧ r.stage = j'.stage := by
  rcases h.row hj with ⟨hsame, _⟩ | ⟨a, ha, hstep⟩
  · cases hsame.symm.trans hj'
    exact absurd rfl hne
  · cases ha.symm.trans hj'
    cases hstep with
    | advanced owner running live forward =>
      obtain ⟨rendered, _, row, h⟩ := h
      obtain ⟨s₁, hwritten, rfl⟩ := h.written
      rw [← (mem_of_job hj).2]
      exact written_stage hwritten
    | leased | renewed | charged | moved => exact absurd rfl hne

theorem stageInvariant_step {c : Call F T} {s s' : Store T} (hi : StageInvariant s)
    (h : Commits c s s') : StageInvariant s' := by
  constructor
  · intro jobId j' hj' hplan
    cases hj : s.job jobId with
    | none =>
      obtain ⟨a, uuid, now, _, rfl, _⟩ := h.newRow hj hj'
      exact absurd rfl hplan
    | some j =>
      by_cases hne : j'.stage = j.stage
      · obtain ⟨r, hr, hid, hst⟩ := hi.checkpointed jobId j hj (hne ▸ hplan)
        exact ⟨r, mem_checkpoints h hr, hid, hst.trans hne.symm⟩
      · exact stage_step h hj hj' hne
  · intro jobId j' hj' hsucc
    cases hj : s.job jobId with
    | none =>
      obtain ⟨a, uuid, now, _, rfl, _⟩ := h.newRow hj hj'
      cases hsucc
    | some j =>
      rcases h.row hj with ⟨hsame, _⟩ | ⟨a, ha, hstep⟩
      · rw [Option.some.inj (hj'.symm.trans hsame)] at hsucc ⊢
        exact hi.validated jobId j hj hsucc
      · cases ha.symm.trans hj'
        exact step_validated hstep (hi.validated jobId j hj) hsucc

/-! ## Runs -/

variable [Zero T]

theorem reachable_stageInvariant {s : Store T} (h : Reachable F s) : StageInvariant s :=
  h.invariant stageInvariant_empty fun _ _ _ => stageInvariant_step

/-- What one call keeps of the state machine. -/
structure CallSound (s : Store T) (e : Event F T) (s' : Store T) : Prop where
  raised : e.returned = false → s' = s
  edge : ∀ jobId j j', s.job jobId = some j → s'.job jobId = some j' → j'.status ≠ j.status →
    j'.status ∈ allowedStatus j.status
  checkpointOnly : ∀ jobId j j', s.job jobId = some j → s'.job jobId = some j' →
    j'.stage ≠ j.stage → Call.SavesCheckpoint e.call
  version : ∀ jobId j j', s.job jobId = some j → s'.job jobId = some j' → j' ≠ j →
    j.version < j'.version

/-- What a whole run keeps of the store it started from. -/
structure RunSound (s s' : Store T) : Prop where
  rows : ∀ jobId j, s.job jobId = some j → ∃ j', s'.job jobId = some j' ∧
    (j.status ∈ terminal → j'.status = j.status) ∧ j.stage.order ≤ j'.stage.order
  payloads : ∀ jobId checkpointKey c,
    s.checkpoints.find (Checkpoint.hasKey jobId checkpointKey) = some c →
    s'.checkpoints.find (Checkpoint.hasKey jobId checkpointKey) = some c

theorem step_callSound {s s' : Store T} {e : Event F T} (h : Step s e s') : CallSound s e s' := by
  have hrow : ∀ {jobId : PyStr} {j j' : Job T}, s.job jobId = some j → s'.job jobId = some j' →
      j' = j ∨ RowStep e.call j j' := by
    intro jobId j j' hj hj'
    rcases h.cases with ⟨heq, _⟩ | ⟨_, hc⟩
    · rw [heq, hj] at hj'
      exact Or.inl (Option.some.inj hj').symm
    · rcases hc.row hj with ⟨hsame, _⟩ | ⟨a, ha, hstep⟩
      · exact Or.inl (Option.some.inj (hj'.symm.trans hsame))
      · cases ha.symm.trans hj'
        exact Or.inr hstep
  constructor
  · intro hret
    rcases h.cases with ⟨heq, _⟩ | ⟨hr, _⟩
    · exact heq
    · exact absurd hr (by simp [hret])
  · intro jobId j j' hj hj' hne
    rcases hrow hj hj' with rfl | hstep
    · exact absurd rfl hne
    · exact step_edge hstep hne
  · intro jobId j j' hj hj' hne
    rcases hrow hj hj' with rfl | hstep
    · exact absurd rfl hne
    · exact step_checkpointOnly hstep hne
  · intro jobId j j' hj hj' hne
    rcases hrow hj hj' with rfl | hstep
    · exact absurd rfl hne
    · rw [step_version hstep]
      exact lt_add_one _

theorem execution_runSound {s s' : Store T} {es : List (Event F T)} (h : Execution s es s') :
    RunSound s s' := by
  constructor
  · intro jobId j hj
    obtain ⟨j', hj', hrun⟩ := h.row hj
    exact ⟨j', hj', run_terminal hrun, run_forward hrun⟩
  · intro jobId checkpointKey c hc
    induction h with
    | refl => exact hc
    | tail h hstep ih =>
      rcases hstep.cases with ⟨heq, _⟩ | ⟨_, hcom⟩
      · exact heq ▸ ih
      · exact commits_keep_checkpoint hcom ih

/-- Over any sequence of calls from a new database: what each call keeps, what every run keeps,
and that a success has a `VALIDATE` checkpoint. -/
theorem state_machine {s : Store T} (h : Reachable F s) :
    (∀ (e : Event F T) s', Step s e s' → CallSound s e s') ∧
      (∀ (es : List (Event F T)) s', Execution s es s' → RunSound s s') ∧
        ∀ jobId j, s.job jobId = some j → j.status = .succeeded →
          ∃ c ∈ s.checkpoints.rows, c.jobId = jobId ∧ c.stage = .validate := by
  refine ⟨fun _ _ => step_callSound, fun _ _ => execution_runSound, ?_⟩
  intro jobId j hj hsucc
  have hi := reachable_stageInvariant h
  have hval := hi.validated jobId j hj hsucc
  obtain ⟨c, hc, hid, hst⟩ := hi.checkpointed jobId j hj (by simp [hval])
  exact ⟨c, hc, hid, hst.trans hval⟩

/-! ## A job from submission to success -/

def sampleJob : NewJob where
  tenantId := py "tenant"
  idempotencyKey := py "key"
  task := py "task"
  maxCalls := 1
  maxTokens := 1
  maxCostMicrounits := 1
  jobId := some (py "job")

def sampleCalls : List (Call NonFinite ℕ) :=
  [.createJob sampleJob [] 1,
    .acquireLease (py "job") (py "worker") 10 2,
    .saveCheckpoint (py "job") (py "worker") .validate (py "final") (.dict []) 3,
    .transition (py "job") ⟨.validating, none, none, false⟩ 4,
    .transition (py "job") ⟨.succeeded, none, none, true⟩ 5]

theorem state_machine_success :
    ∃ s : Store ℕ, Reachable NonFinite s ∧ (∃ j, s.job (py "job") = some j ∧ j.status = .succeeded) ∧
      ∀ jobId j, s.job jobId = some j → j.status = .succeeded →
        ∃ c ∈ s.checkpoints.rows, c.jobId = jobId ∧ c.stage = .validate := by
  have hrun : Reachable NonFinite (play (Store.empty : Store ℕ) sampleCalls).2 :=
    ⟨_, play_execution _ sampleCalls⟩
  refine ⟨_, hrun, ?_, (state_machine hrun).2.2⟩
  have hstatus : ((play (Store.empty : Store ℕ) sampleCalls).2.job (py "job")).map Job.status =
      some .succeeded := by
    decide +kernel
  simpa using hstatus

end JobStoreStateMachine
