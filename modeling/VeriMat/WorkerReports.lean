import VeriMat.JobStoreStateMachine
import VeriMat.OperationStore
import VeriMat.Worker

/-! # What a worker reports

Behind a claim, `run_once` re-reads the job before it reports. The report is of the status that
is committed at that moment unless the last write is refused: `_fail` reads the job, chooses a
target, and writes in a second transaction. -/
namespace WorkerReports

open PyText JsonText PyValue AtomicProgram RelyGuarantee Interleaving Transaction
open KeyedTable JobStoreCalls JobStoreRuns JobStoreStateMachine Worker
open JobStore hiding transition charge saveCheckpoint acquireLease
open Ledger (VerificationReport)

variable {F T : Type} [PyFloat F] [LinearOrder T] [Add T] [Zero T]
variable {H : Events.Host} {w : ExecutionWorker F T}

/-! ## What operations commit -/

/-- The call of the store an operation is. -/
def asCall (w : ExecutionWorker F T) (now : T) : StoreOp F → Call F T
  | .runnableJobIds => .runnableJobIds 100 now
  | .acquire jobId => .acquireLease jobId w.workerId w.leaseSeconds now
  | .get jobId => .get jobId none
  | .checkpoints jobId => .checkpoints jobId
  | .charge jobId c => .charge jobId c now
  | .saveCheckpoint jobId stage key payload =>
    .saveCheckpoint jobId w.workerId stage key payload now
  | .transition jobId t => .transition jobId t now

/-- An operation of the worker changes nothing or commits its call. -/
theorem storeOp_commits_call {o : StoreOp F} {now : T} {s s' : Store T}
    {r : Except (StoreError T) (o.Result T)} (h : Outcome (o.call w now) s r s') :
    s' = s ∨ Commits (asCall w now o) s s' := by
  cases o with
  | runnableJobIds =>
    left
    cases r with
    | ok a => exact (readOnly_runnableJobIds _ _ _).1 _ _ (outcome_ok.mp h)
    | error e => exact (readOnly_runnableJobIds _ _ _).2 _ _ (outcome_error.mp h)
  | acquire jobId =>
    cases r with
    | ok a =>
      obtain ⟨_, s₁, h₁, h₂⟩ := bind_eq_ok.mp (outcome_ok.mp h)
      rw [(raiseIf_eq_ok.mp h₁).2] at h₂
      exact .inr ⟨w.worker_named, acquireTransaction_eq_ok.mp h₂⟩
    | error e =>
      left
      rcases bind_eq_error.mp (outcome_error.mp h) with h | ⟨_, s₁, h₁, h₂⟩
      · exact raiseIf_error h
      · rw [immediate_rollback h₂, (raiseIf_eq_ok.mp h₁).2]
  | get jobId =>
    left
    cases r with
    | ok a => exact (readOnly_getJob jobId none s).1 _ _ (outcome_ok.mp h)
    | error e => exact (readOnly_getJob jobId none s).2 _ _ (outcome_error.mp h)
  | checkpoints jobId =>
    left
    cases r with
    | ok a => exact (readOnly_checkpoints _ _).1 _ _ (outcome_ok.mp h)
    | error e => exact (readOnly_checkpoints _ _).2 _ _ (outcome_error.mp h)
  | charge jobId c =>
    cases r with
    | ok a =>
      obtain ⟨_, s₁, h₁, h₂⟩ := bind_eq_ok.mp (outcome_ok.mp h)
      obtain ⟨hmin, rfl⟩ := raiseIf_eq_ok.mp h₁
      rcases chargeTransaction_eq_ok.mp h₂ with ⟨row, hrow, _, heq⟩ | ⟨row, hrow, _⟩
      · exact .inl heq
      · refine .inr ⟨?_, row, hrow⟩
        simpa [not_lt, and_assoc] using hmin
    | error e =>
      left
      rcases bind_eq_error.mp (outcome_error.mp h) with h | ⟨_, s₁, h₁, h₂⟩
      · exact raiseIf_error h
      · rw [immediate_rollback h₂, (raiseIf_eq_ok.mp h₁).2]
  | saveCheckpoint jobId stage key payload =>
    simp only [StoreOp.call] at h
    cases hp : renderPayload payload with
    | error e =>
      rw [hp] at h
      cases r with
      | ok a => cases outcome_ok.mp h
      | error e' =>
        cases outcome_error.mp h
        exact .inl rfl
    | ok rendered =>
      rw [hp] at h
      cases r with
      | ok a =>
        exact .inr ⟨rendered, hp, checkpointTransaction_eq_ok.mp (outcome_ok.mp h)⟩
      | error e => exact .inl (immediate_rollback (outcome_error.mp h))
  | transition jobId t =>
    cases r with
    | ok a => exact .inr (transitionTransaction_eq_ok.mp (outcome_ok.mp h))
    | error e => exact .inl (immediate_rollback (outcome_error.mp h))

theorem storeOp_commits {o : StoreOp F} {now : T} {s s' : Store T}
    {r : Except (StoreError T) (o.Result T)} (h : Outcome (o.call w now) s r s') :
    s' = s ∨ ∃ c : Call F T, Commits c s s' :=
  (storeOp_commits_call h).imp_right fun hc => ⟨asCall w now o, hc⟩

theorem performs_commits {s s' : World F T} {o : WorkerOp F T} {r : WorkerReply F T o}
    (h : Performs H w s o r s') :
    s'.store = s.store ∨ ∃ c : Call F T, Commits c s.store s'.store := by
  cases o with
  | store o =>
    obtain ⟨now, r', hout, _, _⟩ := h
    exact storeOp_commits hout
  | openLedger tenantId jobId | invoke invocation | finalizer context =>
    obtain rfl : s' = s := h
    exact .inl rfl
  | append tenantId jobId event =>
    obtain ⟨uuid, now, _, rfl⟩ := h
    exact .inl rfl
  | verify tenantId jobId | events tenantId jobId =>
    obtain ⟨_, rfl⟩ := h
    exact .inl rfl

theorem execution_kept {I : Store T → Prop}
    (hstep : ∀ s s' (c : Call F T), I s → Commits c s s' → I s') {s s' : Store T}
    {es : List (JobStoreRuns.Event F T)} (h : Execution s es s') (hs : I s) : I s' := by
  induction h with
  | refl => exact hs
  | tail _ hlast ih =>
    rcases hlast.cases with ⟨heq, _⟩ | ⟨_, hc⟩
    · exact heq ▸ ih
    · exact hstep _ _ _ ih hc

/-- What every commit keeps, the worker and the others keep. -/
theorem kept {I : Store T → Prop} (hstep : ∀ s s' (c : Call F T), I s → Commits c s s' → I s')
    {G : World F T → (o : WorkerOp F T) → WorkerReply F T o → Prop} {α : Type}
    (p : Program (WorkerOp F T) (WorkerReply F T) α) {s : World F T} (hs : I s.store) :
    Ensures (Meeting (Performs H w) G) Others (fun _ s' => I s'.store) p s := by
  refine ensures_kept ?_ ?_ p hs
  · rintro s s' hI ⟨es, hes⟩
    exact execution_kept hstep hes hI
  · intro s o r s' hI hmeets
    rcases performs_commits hmeets.1 with heq | ⟨c, hc⟩
    · exact heq ▸ hI
    · exact hstep _ _ _ hI hc

/-! ## Claimed jobs -/

/-- A job that has been claimed once: its row is there, and is never queued again. -/
def Claimed (jobId : PyStr) (s : Store T) : Prop :=
  ∃ row, s.job jobId = some row ∧ row.status ≠ .queued

omit [PyFloat F] [Zero T] in
theorem rowStep_not_queued {c : Call F T} {j j' : Job T} (h : RowStep c j j')
    (hj : j.status ≠ .queued) : j'.status ≠ .queued := by
  cases h with
  | leased worker runnable free =>
    simp only [Job.lease]
    split_ifs with hstatus
    · simp
    · exact hj
  | renewed | advanced | charged => exact hj
  | moved allowed validated =>
    intro hqueued
    change _ = JobStatus.queued at hqueued
    simp only [Job.moved] at hqueued
    rw [hqueued] at allowed
    revert allowed
    cases j.status <;> decide

omit [Zero T] in
theorem claimed_commits {jobId : PyStr} {s s' : Store T} {c : Call F T} (h : Claimed jobId s)
    (hc : Commits c s s') : Claimed jobId s' := by
  obtain ⟨row, hrow, hstatus⟩ := h
  rcases hc.row hrow with ⟨hsame, _⟩ | ⟨row', hrow', hstep⟩
  · exact ⟨row, hsame, hstatus⟩
  · exact ⟨row', hrow', rowStep_not_queued hstep hstatus⟩

/-- Every checkpoint payload can be read. -/
def Readable (F : Type) [PyFloat F] (s : Store T) : Prop :=
  ∀ c ∈ s.checkpoints.rows, (loads c.payload : Option (Json F)).isSome = true

theorem loads_renderPayload {payload : PyVal F} {rendered : PyStr}
    (h : renderPayload payload = .ok rendered) :
    (loads rendered : Option (Json F)).isSome = true := by
  unfold renderPayload at h
  split at h
  · cases h
  · split at h
    · cases h
    · rename_i hdumps
      obtain rfl := Except.ok.inj h
      exact OperationStore.loads_canonicalJson hdumps

omit [Zero T] in
theorem readable_commits {s s' : Store T} {c : Call F T} (h : Readable F s)
    (hc : Commits c s s') : Readable F s' := by
  intro r hr
  rcases commits_checkpoints hc with heq | ⟨row, hins, hsaves⟩
  · exact h r (heq ▸ hr)
  · cases c with
    | saveCheckpoint jobId workerId stage key payload now =>
      obtain ⟨rendered, hrendered, job, hcheck⟩ := hc
      obtain ⟨s₁, hwritten, rfl⟩ := hcheck.written
      cases hwritten with
      | replayed existing found same unchanged => exact h r (unchanged ▸ hr)
      | inserted t fresh bound inserted store =>
        subst store
        rw [setJob_checkpoints, Table.insert_rows inserted, List.mem_append,
          List.mem_singleton] at hr
        rcases hr with hr | rfl
        · exact h r hr
        · exact loads_renderPayload hrendered
    | createJob | acquireLease | heartbeat | charge | transition | get | checkpoints
    | runnableJobIds => exact hsaves.elim

theorem reachable_readable {s : Store T} (h : Reachable F s) : Readable F s :=
  h.invariant (by intro c hc; cases hc) fun _ _ _ => readable_commits

/-! ## The condition -/

/-- The codes `_fail` writes. -/
def failureCodes : List PyStr :=
  [py "RETRYABLE_STAGE_ERROR", py "BUDGET_EXCEEDED", py "FATAL_STAGE_ERROR", py "LEASE_LOST",
    py "UNHANDLED_STAGE_ERROR"]

/-- `_fail` may write its target: the job is not over, and it does not wait for a retry when that
is what `_fail` wants of it. -/
def Writable (s : Store T) (jobId : PyStr) (target : JobStatus) : Prop :=
  ∀ row, s.job jobId = some row →
    row.status ∉ terminal ∧ (target = .retryWait → row.status ≠ .retryWait)

/-- What stands in no worker's way: `_fail` may write what it wants to, the directory of the
ledger can be made, and a finalizer of the worker's own reports the committed status. -/
def Unhindered (s : World F T) : (o : WorkerOp F T) → WorkerReply F T o → Prop
  | .store (.transition jobId t), _ =>
    (∃ code ∈ t.errorCode, code ∈ failureCodes) → Writable s.store jobId t.target
  | .openLedger _ _, r => r = .ok ()
  | .finalizer context, r => ∀ report, r = .ok report →
    ∃ row, s.store.job context.jobId = some row ∧ report.job.status = row.status
  | _, _ => True

/-! ## Reports -/

/-- The report is of the claimed job, with its committed status. -/
def Reported (jobId : PyStr) (report : WorkerReport F T) (s : World F T) : Prop :=
  report.claimed = true ∧ report.jobId = jobId ∧
    ∃ row, s.store.job jobId = some row ∧ report.status = some row.status

/-- A part of the run returns the committed row. -/
def Held {ε : Type} (jobId : PyStr) : Except ε (Job T) → World F T → Prop
  | .ok j, s => Claimed jobId s.store ∧ s.store.job jobId = some j
  | .error _, s => Claimed jobId s.store

/-- A part of the run returns a row of the job. -/
def Named {ε : Type} (jobId : PyStr) : Except ε (Job T) → World F T → Prop
  | .ok j, s => Claimed jobId s.store ∧ j.jobId = jobId
  | .error _, s => Claimed jobId s.store

omit [PyFloat F] [LinearOrder T] [Add T] [Zero T] in
theorem named_of_held {ε : Type} {jobId : PyStr} {r : Except ε (Job T)} {s : World F T}
    (h : Held jobId r s) : Named jobId r s := by
  cases r with
  | ok j => exact ⟨h.1, (mem_of_job h.2).2⟩
  | error e => exact h

/-- Every run of the worker that nothing hinders. -/
abbrev Always (H : Events.Host) (w : ExecutionWorker F T) {α : Type}
    (post : α → World F T → Prop) (p : Program (WorkerOp F T) (WorkerReply F T) α)
    (s : World F T) : Prop :=
  Ensures (Meeting (Performs H w) Unhindered) Others post p s

section Parts
variable {jobId : PyStr} {s : World F T}

theorem claimed_kept {α : Type} (p : Program (WorkerOp F T) (WorkerReply F T) α)
    (hs : Claimed jobId s.store) : Always H w (fun _ s' => Claimed jobId s'.store) p s :=
  kept (fun _ _ _ => claimed_commits) p hs

/-- A part of which only the claim is known to last. -/
theorem always_bind {ε α β : Type} {post : Except ε β → World F T → Prop}
    {x : Fallible (WorkerOp F T) (WorkerReply F T) ε α}
    {f : α → Fallible (WorkerOp F T) (WorkerReply F T) ε β} (hs : Claimed jobId s.store)
    (hf : ∀ a s', Claimed jobId s'.store → Always H w post (f a).run s')
    (hraised : ∀ e s', Claimed jobId s'.store → post (.error e) s') :
    Always H w post (x >>= f).run s := by
  refine ensures_run_bind.mpr ((claimed_kept x.run hs).weaken ?_)
  intro r s' hs'
  cases r with
  | ok a => exact hf a s' hs'
  | error e => exact hraised e s' hs'

theorem always_getRow {post : Except (Failure F T) (Job T) → World F T → Prop}
    (hid : (encode jobId).isSome = true) (hs : Claimed jobId s.store)
    (h : ∀ s' row, Claimed jobId s'.store → s'.store.job jobId = some row → post (.ok row) s') :
    Always H w post (getRow jobId).run s := by
  rintro s₁ r s₂ ⟨es, hes⟩ ⟨⟨now, r', hout, rfl, _⟩, _⟩
  have hs₁ : Claimed jobId s₁.store := execution_kept (fun _ _ _ => claimed_commits) hes hs
  obtain ⟨row, hrow, _⟩ := id hs₁
  have hget : getJob jobId none s₁.store = .ok row s₁.store := getJob_eq_ok.mpr ⟨hid, hrow, rfl⟩
  simp only [Outcome, StoreOp.call, hget] at hout
  obtain ⟨rfl, hstore⟩ := hout
  exact h s₂ row (hstore ▸ hs₁) (hstore ▸ hrow)

theorem always_held (hid : (encode jobId).isSome = true) (hs : Claimed jobId s.store) :
    Always H w (Held jobId) (getRow jobId).run s :=
  always_getRow hid hs fun _ _ hs' hrow => ⟨hs', hrow⟩

/-! ### The context -/

theorem always_transition (hid : (encode jobId).isSome = true) (hs : Claimed jobId s.store)
    (t : Transition) : Always H w (Held jobId) (transition jobId t).run s :=
  always_bind hs (fun _ _ hs' => always_held hid hs') fun _ _ hs' => hs'

theorem always_saveCheckpoint (hid : (encode jobId).isSome = true) (hs : Claimed jobId s.store)
    (stage : Stage) (key : PyStr) (payload : PyVal F) :
    Always H w (Held jobId) (saveCheckpoint jobId stage key payload).run s :=
  always_bind hs (fun _ _ hs' => always_held hid hs') fun _ _ hs' => hs'

theorem always_charge (hid : (encode jobId).isSome = true) (hs : Claimed jobId s.store)
    (c : Charge) : Always H w (Named jobId) (charge jobId c).run s := by
  refine ensures_run_bind.mpr ?_
  rintro s₁ r s₂ ⟨es, hes⟩ ⟨⟨now, r', hout, rfl, hledger⟩, _⟩
  have hs₁ : Claimed jobId s₁.store := execution_kept (fun _ _ _ => claimed_commits) hes hs
  have hs₂ : Claimed jobId s₂.store := by
    rcases storeOp_commits hout with heq | ⟨_, hc⟩
    · exact heq ▸ hs₁
    · exact claimed_commits hs₁ hc
  cases r' with
  | error e => exact hs₂
  | ok replayed =>
    cases replayed with
    | none => exact (always_held hid hs₂).weaken fun _ _ => named_of_held
    | some row =>
      obtain ⟨_, _, hmin, hcharge⟩ := bind_eq_ok.mp (outcome_ok.mp hout)
      rw [(raiseIf_eq_ok.mp hmin).2] at hcharge
      rcases chargeTransaction_eq_ok.mp hcharge with ⟨row', hreplay, hrow, _⟩ | ⟨_, _, hnone⟩
      · rw [Option.some.injEq] at hrow
        exact ⟨hs₂, hrow ▸ (mem_of_job hreplay.found).2⟩
      · cases hnone

theorem always_chargeAll (hid : (encode jobId).isSome = true) (charges : List Charge)
    {context : Job T} (hs : Claimed jobId s.store) (hcontext : context.jobId = jobId) :
    Always H w (Named jobId) (chargeAll context charges).run s := by
  induction charges generalizing s context with
  | nil => exact ⟨hs, hcontext⟩
  | cons c charges ih =>
    refine ensures_run_bind.mpr ?_
    rw [hcontext]
    refine (always_charge hid hs c).weaken ?_
    intro r s' hr
    cases r with
    | ok j => exact ih hr.1 hr.2
    | error e => exact hr

theorem always_checkpoint (hid : (encode jobId).isSome = true) {context : Job T}
    (hs : Claimed jobId s.store) (hcontext : context.jobId = jobId) (stage : Stage) (key : PyStr)
    (payload : List (PyKey F × PyVal F)) :
    Always H w (Held jobId) (checkpoint context stage key payload).run s := by
  refine always_bind hs ?_ fun _ _ hs' => hs'
  intro receipt s' hs'
  by_cases hok : VerificationReport.ok receipt = true
  · rw [if_pos hok, hcontext]
    exact always_saveCheckpoint hid hs' _ _ _
  · rw [if_neg hok]
    exact hs'

/-! ### The body of the `try` -/

theorem always_runStage (hid : (encode jobId).isSome = true) {job current context : Job T}
    (hs : Claimed jobId s.store) (hcontext : context.jobId = jobId) (stage : Stage) :
    Always H w (Named jobId) (runStage (F := F) job current stage context).run s := by
  unfold runStage
  split
  · exact hs
  · refine always_bind hs ?_ fun _ _ hs' => hs'
    intro result s₁ hs₁
    cases result with
    | none => exact hs₁
    | some result =>
      refine always_bind hs₁ ?_ fun _ _ hs' => hs'
      intro _ s₂ hs₂
      refine ensures_run_bind.mpr ?_
      refine (always_chargeAll hid result.charges hs₂ hcontext).weaken ?_
      intro r s₃ hr
      cases r with
      | error e => exact hr
      | ok context =>
        exact (always_checkpoint hid hr.1 hr.2 _ _ _).weaken fun _ _ => named_of_held

/-- Where the loop may end: with a report, or with a context of the job. -/
def Looped (jobId : PyStr) :
    Except (Failure F T × List Stage) (WorkerReport F T ⊕ Job T × List Stage) → World F T → Prop
  | .ok (.inl report), s => Reported jobId report s
  | .ok (.inr (context, _)), s => Claimed jobId s.store ∧ context.jobId = jobId
  | .error _, s => Claimed jobId s.store

theorem always_runStages {job : Job T} (hid : (encode job.jobId).isSome = true)
    (committed : List PyStr) (stages : List Stage) {context : Job T} (stagesCommitted : List Stage)
    (hs : Claimed job.jobId s.store) (hcontext : context.jobId = job.jobId) :
    Always H w (Looped job.jobId)
      (runStages job committed stages context stagesCommitted).run s := by
  induction stages generalizing s context stagesCommitted with
  | nil => exact ⟨hs, hcontext⟩
  | cons stage stages ih =>
    unfold runStages
    split
    · exact ih stagesCommitted hs hcontext
    · refine ensures_run_bind.mpr (ensures_run_adapt.mpr (always_getRow hid hs ?_))
      intro s₁ current hs₁ hcurrent
      change Ensures _ _ _ (ite _ _ _ : BodyProgram F T _).run s₁
      split
      · exact ⟨rfl, rfl, current, hcurrent, rfl⟩
      · refine ensures_run_bind.mpr (ensures_run_adapt.mpr ?_)
        refine (always_runStage hid hs₁ hcontext stage).weaken ?_
        intro r s₂ hr
        cases r with
        | ok context => exact ih _ hr.1 hr.2
        | error e => exact hr

/-- A finalizer's report has the committed status. -/
def Finalized {ε : Type} (jobId : PyStr) :
    Except ε (FinalizationReport F T) → World F T → Prop
  | .ok report, s => ∃ row, s.store.job jobId = some row ∧ report.job.status = row.status
  | .error _, s => Claimed jobId s.store

theorem always_finalizeWithValidator (hid : (encode jobId).isSome = true) (v : EvidenceValidator F)
    {context : Job T} (hs : Claimed jobId s.store) (hcontext : context.jobId = jobId) :
    Always H w (Finalized jobId) (finalizeWithValidator v context).run s := by
  unfold finalizeWithValidator
  split
  · exact hs
  · refine always_bind hs ?_ fun _ _ hs' => hs'
    intro receipt s₁ hs₁
    refine always_bind hs₁ ?_ fun _ _ hs' => hs'
    intro found s₂ hs₂
    obtain ⟨metrics, issues⟩ := found
    change Ensures _ _ _ (ite _ _ _ : WorkerProgram F T _).run s₂
    split
    · refine ensures_run_bind.mpr ((always_checkpoint hid hs₂ hcontext _ _ _).weaken ?_)
      intro r s₃ hr
      cases r with
      | error e => exact hr
      | ok context =>
        obtain ⟨hs₃, hnamed⟩ := named_of_held hr
        refine ensures_run_bind.mpr ?_
        rw [hnamed]
        refine (always_transition hid hs₃ _).weaken ?_
        intro r s₄ hr
        cases r with
        | error e => exact hr
        | ok context =>
          obtain ⟨hs₄, hnamed⟩ := named_of_held hr
          refine ensures_run_bind.mpr ?_
          rw [hnamed]
          refine (always_transition hid hs₄ _).weaken ?_
          intro r s₅ hr
          cases r with
          | error e => exact hr
          | ok context => exact ⟨context, hr.2, rfl⟩
    · refine ensures_run_bind.mpr ?_
      rw [hcontext]
      refine (always_transition hid hs₂ _).weaken ?_
      intro r s₃ hr
      cases r with
      | error e => exact hr
      | ok context => exact ⟨context, hr.2, rfl⟩

theorem always_finalize (hid : (encode jobId).isSome = true) {context : Job T}
    (hs : Claimed jobId s.store) (hcontext : context.jobId = jobId) :
    Always H w (Finalized jobId) (finalize w context).run s := by
  unfold finalize
  cases w.validator with
  | some v => exact always_finalizeWithValidator hid v hs hcontext
  | none =>
    rintro s₁ r s₂ ⟨es, hes⟩ ⟨hperforms, hunhindered⟩
    obtain rfl : s₂ = s₁ := hperforms
    cases r with
    | ok report => exact hcontext ▸ hunhindered report rfl
    | error e => exact execution_kept (fun _ _ _ => claimed_commits) hes hs

/-- Where the body may end. -/
def Ended (jobId : PyStr) :
    Except (Failure F T × List Stage) (WorkerReport F T) → World F T → Prop
  | .ok report, s => Reported jobId report s
  | .error _, s => Claimed jobId s.store

theorem always_body {job : Job T} (hid : (encode job.jobId).isSome = true)
    (committed : List PyStr) (hs : Claimed job.jobId s.store) :
    Always H w (Ended job.jobId) (body w job committed).run s := by
  refine ensures_run_bind.mpr ((always_runStages hid committed _ [] hs rfl).weaken ?_)
  rintro ((e | (report | ⟨context, stagesCommitted⟩))) s₁ hr
  · exact hr
  · exact hr
  · refine ensures_run_bind.mpr (ensures_run_adapt.mpr ?_)
    refine (always_finalize hid hr.1 hr.2).weaken ?_
    intro r s₂ hr
    cases r with
    | error e => exact hr
    | ok report =>
      obtain ⟨row, hrow, hstatus⟩ := hr
      exact ⟨rfl, rfl, row, hrow, congrArg some hstatus⟩

/-! ### The clauses -/

theorem failureCodes_bound {code : PyStr} (h : code ∈ failureCodes) :
    (encode code).isSome = true := by
  have hall : ∀ code ∈ failureCodes, (encode code).isSome = true := by decide
  exact hall code h

omit [LinearOrder T] [Add T] [Zero T] in
/-- What `_fail` may write is an edge of the state machine. -/
theorem Writable.allowed {s : Store T} {jobId : PyStr} {target : JobStatus}
    (h : Writable s jobId target) {row : Job T} (hrow : s.job jobId = some row)
    (hqueued : row.status ≠ .queued) (htarget : target = .retryWait ∨ target = .failed) :
    target ∈ allowedStatus row.status := by
  obtain ⟨hterminal, hretry⟩ := h row hrow
  revert hterminal hretry hqueued
  rcases htarget with rfl | rfl <;> cases row.status <;> decide

/-- A part that returns the committed row whatever happens. -/
def Settled (jobId : PyStr) (r : Except (Failure F T) (Job T)) (s : World F T) : Prop :=
  ∃ row, r = .ok row ∧ s.store.job jobId = some row

theorem always_settled (hid : (encode jobId).isSome = true) (hs : Claimed jobId s.store) :
    Always H w (Settled jobId) (getRow jobId).run s :=
  always_getRow hid hs fun _ row _ hrow => ⟨row, rfl, hrow⟩

theorem always_failTransition (hid : (encode jobId).isSome = true) (hs : Claimed jobId s.store)
    {target : JobStatus} (htarget : target = .retryWait ∨ target = .failed) {code : PyStr}
    (hcode : code ∈ failureCodes) :
    Always H w (Settled jobId)
      (Worker.transition jobId ⟨target, none, some code, true⟩).run s := by
  refine ensures_run_bind.mpr ?_
  rintro s₁ r s₂ ⟨es, hes⟩ ⟨⟨now, r', hout, rfl, _⟩, hunhindered⟩
  have hs₁ : Claimed jobId s₁.store := execution_kept (fun _ _ _ => claimed_commits) hes hs
  obtain ⟨row, hrow, hqueued⟩ := id hs₁
  have hwritable : Writable s₁.store jobId target := hunhindered ⟨code, rfl, hcode⟩
  have hmoved : Moved s₁.store jobId ⟨target, none, some code, true⟩ now row _ :=
    { bound := ⟨hid, by
        rintro _ ⟨⟩
        exact failureCodes_bound hcode⟩
      found := hrow
      version := by simp
      allowed := hwritable.allowed hrow hqueued htarget
      validated := by rcases htarget with rfl | rfl <;> simp
      store := rfl }
  have hrun : JobStore.transitionTransaction jobId ⟨target, none, some code, true⟩ now s₁.store =
      .ok () _ := transitionTransaction_eq_ok.mpr ⟨row, hmoved⟩
  simp only [Outcome, StoreOp.call, hrun] at hout
  obtain ⟨rfl, hstore⟩ := hout
  have hs₂ : Claimed jobId s₂.store := by
    rw [hstore]
    exact claimed_commits (c := (.transition jobId ⟨target, none, some code, true⟩ now : Call F T))
      hs₁ ⟨row, hmoved⟩
  exact always_settled hid hs₂

theorem always_fail {job : Job T} (hid : (encode job.jobId).isSome = true)
    (hs : Claimed job.jobId s.store) (retryable : Bool) {code : PyStr}
    (hcode : code ∈ failureCodes) :
    Always H w (Settled job.jobId) (fail w job retryable code).run s := by
  refine ensures_run_bind.mpr (always_getRow hid hs ?_)
  intro s₁ current hs₁ hcurrent
  change Ensures _ _ _ (ite _ _ _ : WorkerProgram F T _).run s₁
  split
  · exact ⟨current, rfl, hcurrent⟩
  · rw [(mem_of_job hcurrent).2]
    refine always_failTransition hid hs₁ ?_ hcode
    split
    · exact .inl rfl
    · exact .inr rfl

/-- The run ends with a report of the committed status. -/
def Reports (jobId : PyStr) (outcome : Except (Failure F T) (WorkerReport F T))
    (s : World F T) : Prop :=
  ∃ report, outcome = .ok report ∧ Reported jobId report s

theorem always_failed {job : Job T} (hid : (encode job.jobId).isSome = true)
    (hs : Claimed job.jobId s.store) (stagesCommitted : List Stage) (retryable : Bool)
    {code : PyStr} (hcode : code ∈ failureCodes) :
    Always H w (Reports job.jobId) (failed w job stagesCommitted retryable code).run s := by
  refine ensures_run_bind.mpr ((always_fail hid hs retryable hcode).weaken ?_)
  rintro r s' ⟨row, rfl, hrow⟩
  exact ⟨_, rfl, rfl, rfl, row, hrow, rfl⟩

theorem always_recover {job : Job T} (hid : (encode job.jobId).isSome = true)
    (hs : Claimed job.jobId s.store) (e : Failure F T × List Stage) :
    Always H w (Reports job.jobId) (recover w job e).run s := by
  unfold recover
  cases e.1.clause with
  | retryable => exact always_failed hid hs _ _ (by decide)
  | budget => exact always_failed hid hs _ _ (by decide)
  | fatal => exact always_failed hid hs _ _ (by decide)
  | unhandled => exact always_failed hid hs _ _ (by decide)
  | lease =>
    refine ensures_run_bind.mpr (always_getRow hid hs ?_)
    intro s₁ current hs₁ hcurrent
    change Ensures _ _ _ (ite _ _ _ : WorkerProgram F T _).run s₁
    split
    · exact ⟨_, rfl, rfl, rfl, current, hcurrent, rfl⟩
    · exact always_failed hid hs₁ _ _ (by decide)

/-! ### Behind the claim -/

omit [Add T] [Zero T] in
theorem checkpoints_ok (hid : (encode jobId).isSome = true) {s : Store T} (hs : Readable F s) :
    ∃ rows, JobStore.checkpoints F jobId s = .ok rows s := by
  have hread : ∀ rows : List (JobStore.Checkpoint T), (∀ c ∈ rows, c ∈ s.checkpoints.rows) →
      ∃ records, rows.mapM (JobStore.readCheckpoint (F := F)) s = .ok records s := by
    intro rows
    induction rows with
    | nil => exact fun _ => ⟨[], rfl⟩
    | cons c rows ih =>
      intro hrows
      obtain ⟨records, hrecords⟩ := ih fun c' hc' => hrows c' (List.mem_cons_of_mem _ hc')
      obtain ⟨j, hj⟩ := Option.isSome_iff_exists.mp (hs c (hrows c List.mem_cons_self))
      refine ⟨⟨c, ofJson j⟩ :: records, ?_⟩
      rw [List.mapM_cons, bind_eq_ok]
      refine ⟨⟨c, ofJson j⟩, s, by rw [JobStore.readCheckpoint, hj]; rfl, ?_⟩
      rw [bind_eq_ok]
      exact ⟨records, s, hrecords, rfl⟩
  obtain ⟨records, hrecords⟩ := hread
    ((s.checkpoints.rows.filter (·.jobId == jobId)).insertionSort JobStore.checkpointOrder) (by
      intro c hc
      exact (List.mem_filter.mp ((List.mem_insertionSort _).mp hc)).1)
  refine ⟨records, ?_⟩
  unfold JobStore.checkpoints
  simp only [bind_eq_ok, bindText_eq_ok, get_apply]
  exact ⟨(), s, ⟨hid, rfl⟩, s, s, rfl, hrecords⟩

theorem always_runClaimed {job : Job T} (hid : (encode job.jobId).isSome = true)
    (hs : Claimed job.jobId s.store) (hreadable : Readable F s.store) :
    Always H w (Reports job.jobId) (runClaimed w job).run s := by
  refine ensures_run_bind.mpr ?_
  rintro s₁ r s₂ ⟨es₁, hes₁⟩ ⟨hopened, rfl⟩
  obtain rfl : s₂ = s₁ := hopened
  have hs₂ : Claimed job.jobId s₂.store := execution_kept (fun _ _ _ => claimed_commits) hes₁ hs
  have hreadable₂ : Readable F s₂.store :=
    execution_kept (fun _ _ _ => readable_commits) hes₁ hreadable
  refine ensures_run_bind.mpr ?_
  rintro s₃ r s₄ ⟨es₃, hes₃⟩ ⟨⟨now, r', hout, rfl, _⟩, _⟩
  have hs₃ : Claimed job.jobId s₃.store := execution_kept (fun _ _ _ => claimed_commits) hes₃ hs₂
  obtain ⟨rows, hrows⟩ := checkpoints_ok hid
    (execution_kept (fun _ _ _ => readable_commits) hes₃ hreadable₂)
  simp only [Outcome, StoreOp.call, hrows] at hout
  obtain ⟨rfl, hstore⟩ := hout
  have hs₄ : Claimed job.jobId s₄.store := hstore ▸ hs₃
  refine ensures_run_handle.mpr ((always_body hid _ hs₄).weaken ?_)
  intro r s₅ hr
  cases r with
  | ok report => exact ⟨report, rfl, hr⟩
  | error e => exact always_recover hid hr e

/-! ### The claim -/

/-- A claim that succeeds has taken a job. -/
def Took : Except (Failure F T) (Option (Job T)) → World F T → Prop
  | .ok (some job), s => (encode job.jobId).isSome = true ∧ Claimed job.jobId s.store
  | _, _ => True

omit [Zero T] in
theorem leased_claimed {s s' : Store T} {jobId workerId : PyStr} {leaseSeconds now : T}
    {row : Job T} (h : Leased s jobId workerId leaseSeconds now row s') : Claimed jobId s' := by
  refine ⟨row.lease workerId leaseSeconds now, ?_, ?_⟩
  · rw [h.store, job_setJob, if_pos rfl, h.found]
    rfl
  · simp only [Job.lease]
    split_ifs with hstatus
    · simp
    · exact fun hqueued => hstatus (.inl hqueued)

theorem always_acquireLease (jobId : PyStr) :
    Always H w (fun r s' => Took (r.map some) s') (acquireLease (F := F) (T := T) jobId).run s := by
  refine ensures_run_bind.mpr ?_
  rintro s₁ r s₂ _ ⟨⟨now, r', hout, rfl, _⟩, _⟩
  cases r' with
  | error e => exact trivial
  | ok u =>
    obtain ⟨_, s₃, hcheck, hacquire⟩ := bind_eq_ok.mp (outcome_ok.mp hout)
    obtain ⟨row, hleased⟩ := acquireTransaction_eq_ok.mp hacquire
    refine always_getRow hleased.bound.1 (leased_claimed hleased) ?_
    intro s₄ job hclaimed hjob
    obtain rfl := (mem_of_job hjob).2
    exact ⟨hleased.bound.1, hclaimed⟩

theorem always_claimFirst (candidates : List PyStr) :
    Always H w Took (claimFirst candidates).run s := by
  induction candidates generalizing s with
  | nil => exact trivial
  | cons jobId candidates ih =>
    refine ensures_run_handle.mpr (ensures_run_map.mpr ((always_acquireLease jobId).weaken ?_))
    intro r s' hr
    cases r with
    | ok job => exact hr
    | error e =>
      change Ensures _ _ _ (ite _ _ _ : WorkerProgram F T _).run s'
      split
      · exact ih
      · exact trivial

theorem always_claim : Always H w Took (claim w).run s := by
  unfold claim
  cases w.jobId with
  | some jobId => exact always_claimFirst [jobId]
  | none =>
    refine ensures_run_bind.mpr ?_
    rintro s₁ r s₂ _ _
    cases r with
    | ok candidates => exact always_claimFirst candidates
    | error e => exact trivial

end Parts

/-! ## Runs -/

/-- A run of `run_once` that claims a job, with a condition on its operations. -/
def ClaimedRun (H : Events.Host) (w : ExecutionWorker F T)
    (G : World F T → (o : WorkerOp F T) → WorkerReply F T o → Prop) (s : World F T) (job : Job T)
    (outcome : Except (Failure F T) (WorkerReport F T)) (s' : World F T) : Prop :=
  ∃ s₁, RunsTo (Meeting (Performs H w) G) Others (claim w).run s (.ok (some job)) s₁ ∧
    RunsTo (Meeting (Performs H w) G) Others (runClaimed w job).run s₁ outcome s'

theorem ClaimedRun.runOnce {G : World F T → (o : WorkerOp F T) → WorkerReply F T o → Prop}
    {s s' : World F T} {job : Job T} {outcome : Except (Failure F T) (WorkerReport F T)}
    (h : ClaimedRun H w G s job outcome s') :
    RunsTo (Meeting (Performs H w) G) Others (runOnce w).run s outcome s' := by
  obtain ⟨s₁, hclaim, hrest⟩ := h
  exact hclaim.bind hrest

/-- In every run among any calls of other workers and operators that nothing hinders, a worker
that has claimed a job reports its committed status, and no exception escapes. -/
theorem claimed_reports {s s' : World F T} (hs : Reachable F s.store) {job : Job T}
    {outcome : Except (Failure F T) (WorkerReport F T)}
    (h : ClaimedRun H w Unhindered s job outcome s') : Reports job.jobId outcome s' := by
  obtain ⟨s₁, hclaim, hrest⟩ := h
  obtain ⟨hid, hclaimed⟩ := ensures_iff.mp always_claim _ _ hclaim
  have hreadable : Readable F s₁.store :=
    ensures_iff.mp (kept (fun _ _ _ => readable_commits) (claim w).run (reachable_readable hs)) _ _
      hclaim
  exact ensures_iff.mp (always_runClaimed hid hclaimed hreadable) _ _ hrest

/-! ## Schedules -/

/-- A turn of a schedule: the calls of others before an operation, the clock, and what a handler
or a finalizer raises. -/
structure Turn (F T : Type) where
  others : List (Call F T)
  now : T
  raises : Clause

def interfere (e : Turn F T) (s : World F T) : World F T :=
  { s with store := (play s.store e.others).2 }

def respond (H : Events.Host) (w : ExecutionWorker F T) (e : Turn F T) (s : World F T) :
    (o : WorkerOp F T) → WorkerReply F T o × World F T
  | .store o =>
    ((ran (o.call w e.now) s.store).1.mapError .store,
      { s with store := (ran (o.call w e.now) s.store).2 })
  | .openLedger _ _ => (.ok (), s)
  | .append tenantId jobId event =>
    let a := event.args tenantId jobId [] []
    (((Ledger.append H (s.ledger tenantId jobId) a).map Prod.fst).mapError .ledger,
      { s with ledger := fun t j => if t = tenantId ∧ j = jobId then
          LedgerConcurrent.fileAfter H (s.ledger tenantId jobId) a else s.ledger t j })
  | .verify tenantId jobId => ((Ledger.verify H (s.ledger tenantId jobId)).mapError .ledger, s)
  | .events tenantId jobId => ((Ledger.events H (s.ledger tenantId jobId)).mapError .ledger, s)
  | .invoke _ => (.error (.raised e.raises), s)
  | .finalizer _ => (.error (.raised e.raises), s)

theorem others_interfere (e : Turn F T) (s : World F T) : Others s (interfere e s) :=
  ⟨_, play_execution s.store e.others⟩

theorem performs_respond (e : Turn F T) (s : World F T) (o : WorkerOp F T) :
    Performs H w s o (respond H w e s o).1 (respond H w e s o).2 := by
  cases o with
  | store o => exact ⟨e.now, _, outcome_ran _ _, rfl, rfl⟩
  | append tenantId jobId event => exact ⟨[], [], rfl, rfl⟩
  | verify tenantId jobId | events tenantId jobId => exact ⟨rfl, rfl⟩
  | openLedger tenantId jobId | invoke invocation | finalizer context => rfl

/-- Whether nothing hinders an operation that is played. -/
def unhindered (s : World F T) : (o : WorkerOp F T) → WorkerReply F T o → Bool
  | .store (.transition jobId t), _ => (s.store.job jobId).all fun row =>
    row.status ∉ JobStore.terminal ∧ (t.target = .retryWait → row.status ≠ .retryWait)
  | .openLedger _ _, .ok () => true
  | .openLedger _ _, .error _ => false
  | .finalizer _, .ok _ => false
  | _, _ => true

omit [PyFloat F] [LinearOrder T] [Add T] [Zero T] in
theorem meets_unhindered (s : World F T) (o : WorkerOp F T) (r : WorkerReply F T o)
    (h : unhindered s o r = true) : Unhindered s o r := by
  cases o with
  | store o =>
    cases o with
    | transition jobId t =>
      intro _ row hrow
      simpa [unhindered, hrow, imp_iff_not_or] using h
    | _ => trivial
  | openLedger tenantId jobId =>
    cases r with
    | ok u => rfl
    | error e => simp [unhindered] at h
  | finalizer context =>
    cases r with
    | ok report => simp [unhindered] at h
    | error e =>
      rintro report ⟨⟩
  | _ => trivial

/-! ### A job that fails -/

theorem three_attempts : (1 : ℤ) ≤ 3 := by decide

def sampleWorker : ExecutionWorker NonFinite ℕ where
  workerId := py "worker-a"
  leaseSeconds := 1
  maxAttempts := 3
  jobId := some (py "job")
  validator := none
  worker_named := by decide
  lease_positive := by decide
  attempts_positive := three_attempts

def sampleHost : Events.Host := ⟨fun _ => [], fun _ => none⟩

/-- One queued job. -/
def sampleWorld : World NonFinite ℕ :=
  ⟨(play Store.empty [(.createJob sampleJob [] 0 : Call NonFinite ℕ)]).2, fun _ _ => []⟩

/-- Nobody else does anything, and the handler fails retryably. -/
def alone : Turn NonFinite ℕ := ⟨[], 0, .retryable⟩

/-- Another worker takes the job over and fails retryably before the turn. -/
def takenOver : Turn NonFinite ℕ where
  others := [.acquireLease (py "job") (py "worker-b") 1 5,
    .transition (py "job") ⟨.retryWait, none, some (py "RETRYABLE_STAGE_ERROR"), true⟩ 5]
  now := 5
  raises := .retryable

/-- A schedule of the claim and one of the rest, played one after the other. -/
def playClaimed (check : World NonFinite ℕ → (o : WorkerOp NonFinite ℕ) →
      WorkerReply NonFinite ℕ o → Bool) (es es' : List (Turn NonFinite ℕ)) :
    Option (JobStore.Job ℕ × Except (Failure NonFinite ℕ) (WorkerReport NonFinite ℕ) ×
      World NonFinite ℕ) :=
  match Interleaving.play interfere (respond sampleHost sampleWorker) check
      (claim sampleWorker).run sampleWorld es with
  | some (.ok (some job), s) =>
    (Interleaving.play interfere (respond sampleHost sampleWorker) check
      (runClaimed sampleWorker job).run s es').map fun p => (job, p)
  | _ => none

theorem claimedRun_play {check : World NonFinite ℕ → (o : WorkerOp NonFinite ℕ) →
      WorkerReply NonFinite ℕ o → Bool}
    {G : World NonFinite ℕ → (o : WorkerOp NonFinite ℕ) → WorkerReply NonFinite ℕ o → Prop}
    (hcheck : ∀ s o r, check s o r = true → G s o r) {es es' : List (Turn NonFinite ℕ)}
    {job : JobStore.Job ℕ} {outcome : Except (Failure NonFinite ℕ) (WorkerReport NonFinite ℕ)}
    {s' : World NonFinite ℕ} (h : playClaimed check es es' = some (job, outcome, s')) :
    ClaimedRun sampleHost sampleWorker G sampleWorld job outcome s' := by
  unfold playClaimed at h
  split at h
  · rename_i job₁ s hclaim
    obtain ⟨⟨outcome₁, s₁⟩, hrest, hp⟩ := Option.map_eq_some_iff.mp h
    cases hp
    exact ⟨s, runsTo_play others_interfere performs_respond hcheck hclaim,
      runsTo_play others_interfere performs_respond hcheck hrest⟩
  · cases h

theorem sampleWorld_reachable : Reachable NonFinite sampleWorld.store :=
  ⟨_, play_execution _ _⟩

/-- No exception escapes `run_once` behind a claim, whatever the others do. -/
def FailClosed (F T : Type) [PyFloat F] [LinearOrder T] [Add T] [Zero T] : Prop :=
  ∀ (H : Events.Host) (w : ExecutionWorker F T) (s s' : World F T) (job : JobStore.Job T)
    (outcome : Except (Failure F T) (WorkerReport F T)), Reachable F s.store →
    ClaimedRun H w (fun _ _ _ => True) s job outcome s' → Reports job.jobId outcome s'

def escapes : Except (Failure NonFinite ℕ) (WorkerReport NonFinite ℕ) → Bool
  | .error (.store (.illegalStatus .retryWait .retryWait)) => true
  | _ => false

/-- The job waits for a retry of the worker that took it over when the first one's `_fail` wants
it to. -/
theorem not_failClosed : ¬FailClosed NonFinite ℕ := by
  intro h
  have hplayed : (playClaimed (fun _ _ _ => true) [alone, alone]
      [alone, alone, alone, alone, takenOver, alone]).any (fun p => escapes p.2.1) = true := by
    decide +kernel
  obtain ⟨⟨job, outcome, s'⟩, hrun, hescapes⟩ := (Option.any_eq_true _ _).mp hplayed
  obtain ⟨report, rfl, _⟩ := h _ _ _ _ _ _ sampleWorld_reachable
    (claimedRun_play (fun _ _ _ _ => trivial) hrun)
  cases hescapes

def waits : Except (Failure NonFinite ℕ) (WorkerReport NonFinite ℕ) → Bool
  | .ok report => report.status == some .retryWait
  | .error _ => false

/-- Alone, the worker puts the job back and says so. -/
theorem claimed_reports_alone : ∃ (job : JobStore.Job ℕ) (outcome : _) (s' : World NonFinite ℕ),
    ClaimedRun sampleHost sampleWorker Unhindered sampleWorld job outcome s' ∧
      waits outcome = true ∧ Reports job.jobId outcome s' := by
  have hplayed : (playClaimed unhindered [alone, alone]
      [alone, alone, alone, alone, alone, alone, alone]).any (fun p => waits p.2.1) = true := by
    decide +kernel
  obtain ⟨⟨job, outcome, s'⟩, hrun, hwaits⟩ := (Option.any_eq_true _ _).mp hplayed
  have hclaimed := claimedRun_play meets_unhindered hrun
  exact ⟨job, outcome, s', hclaimed, hwaits, claimed_reports sampleWorld_reachable hclaimed⟩

end WorkerReports
