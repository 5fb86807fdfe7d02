import VeriMat.WorkerReports

/-! # The resume loop

`BaselineTaskRunner.run_task` (`evaluation/baseline_runner.py`) runs its worker on the job it has
created, and again as long as the worker reports `RETRY_WAIT`. The loop has no counter of its own:
each claim adds one to the `attempts` of the row, and `_fail` puts a job back only while they are
fewer than the limit. -/
namespace ResumeLoop

open PyText JsonText PyValue AtomicProgram RelyGuarantee Interleaving Transaction
open KeyedTable JobStoreCalls JobStoreRuns Worker WorkerReports
open JobStore hiding transition charge saveCheckpoint acquireLease
open Ledger (VerificationReport)

variable {F T : Type} [PyFloat F] [LinearOrder T] [Add T] [Zero T]

/-! ## The loop -/

/-- The worker of `run_task`: bound to its job, and with one of two finalizers, which are
`finalize_with_validator` with a validator each. -/
def taskWorker (w : ExecutionWorker F T) (jobId : PyStr) (v : EvidenceValidator F) :
    ExecutionWorker F T :=
  { w with jobId := some jobId, validator := some v }

/-- The loop with so many calls of `run_once` at most: its last report, if it comes to an end. -/
def resume (w : ExecutionWorker F T) : ℕ → WorkerProgram F T (Option (WorkerReport F T))
  | 0 => pure none
  | calls + 1 => do
    let report ← runOnce w
    if report.status = some .retryWait then resume w calls else pure (some report)

/-! ## What the others do -/

/-- No work on the job: it is not claimed, and it is not moved but to `CANCELLED`. -/
def Foreign (jobId : PyStr) : Call F T → Prop
  | .acquireLease id _ _ _ => id ≠ jobId
  | .transition id t _ => id ≠ jobId ∨ t.target = .cancelled
  | _ => True

/-- No other worker acts on the job. -/
def Quiet (jobId : PyStr) (s s' : World F T) : Prop :=
  ∃ es : List (JobStoreRuns.Event F T), Execution s.store es s'.store ∧
    ∀ e ∈ es, Foreign jobId e.call

/-- The job has been claimed so often at least. -/
def Claims (jobId : PyStr) (n : ℤ) (s : Store T) : Prop :=
  ∃ row, s.job jobId = some row ∧ n ≤ row.attempts

/-- The job is in this state, or cancelled. -/
def Rests (jobId : PyStr) (status : JobStatus) (s : Store T) : Prop :=
  ∃ row, s.job jobId = some row ∧ (row.status = status ∨ row.status = .cancelled)

section Stores
variable {jobId : PyStr} {n : ℤ} {status : JobStatus} {s s' : Store T} {c : Call F T}

omit [PyFloat F] [Zero T] in
theorem rowStep_attempts {j j' : Job T} (h : RowStep c j j') : j.attempts ≤ j'.attempts := by
  cases h with
  | leased worker runnable free =>
    change j.attempts ≤ j.attempts + 1
    omega
  | renewed | advanced | charged | moved => exact le_rfl

omit [Zero T] in
theorem claims_commits (h : Claims jobId n s) (hc : Commits c s s') : Claims jobId n s' := by
  obtain ⟨row, hrow, hn⟩ := h
  rcases hc.row hrow with ⟨hsame, _⟩ | ⟨row', hrow', hstep⟩
  · exact ⟨row, hsame, hn⟩
  · exact ⟨row', hrow', hn.trans (rowStep_attempts hstep)⟩

omit [Zero T] in
theorem rests_commits (h : Rests jobId status s) (hc : Commits c s s') (hforeign : Foreign jobId c) :
    Rests jobId status s' := by
  obtain ⟨row, hrow, hstatus⟩ := h
  obtain rfl : row.jobId = jobId := (mem_of_job hrow).2
  rcases hc.row hrow with ⟨hsame, _⟩ | ⟨row', hrow', hstep⟩
  · exact ⟨row, hsame, hstatus⟩
  · refine ⟨row', hrow', ?_⟩
    cases hstep with
    | leased worker runnable free => exact absurd rfl hforeign
    | renewed | advanced | charged => exact hstatus
    | moved allowed validated =>
      rcases hforeign with hother | hcancelled
      · exact absurd rfl hother
      · exact .inr hcancelled

theorem rests_quiet {s s' : World F T} (h : Rests jobId status s.store) (hquiet : Quiet jobId s s') :
    Rests jobId status s'.store := by
  obtain ⟨es, hes, hforeign⟩ := hquiet
  generalize s'.store = v at hes
  induction hes with
  | refl => exact h
  | @tail u v es e hes hlast ih =>
    have hkept := ih fun e' he' => hforeign e' (List.mem_append_left _ he')
    rcases hlast.cases with ⟨heq, _⟩ | ⟨_, hc⟩
    · exact heq ▸ hkept
    · exact rests_commits hkept hc (hforeign e (by simp))

end Stores

/-! ## Parts of a run -/

variable {H : Events.Host} {w : ExecutionWorker F T} {jobId : PyStr} {n : ℤ}

/-- Every run of the worker on a job that no other worker acts on. -/
abbrev Quietly (H : Events.Host) (w : ExecutionWorker F T) (jobId : PyStr) {α : Type}
    (post : α → World F T → Prop) (p : Program (WorkerOp F T) (WorkerReply F T) α)
    (s : World F T) : Prop :=
  Ensures (Performs H w) (Quiet jobId) post p s

section Parts
variable {s : World F T}

theorem claims_quiet {s s' : World F T} (h : Claims jobId n s.store) (hquiet : Quiet jobId s s') :
    Claims jobId n s'.store := by
  obtain ⟨es, hes, _⟩ := hquiet
  exact execution_kept (fun _ _ _ => claims_commits) hes h

theorem claims_performs {s s' : World F T} {o : WorkerOp F T} {r : WorkerReply F T o}
    (h : Claims jobId n s.store) (hperforms : Performs H w s o r s') :
    Claims jobId n s'.store := by
  rcases performs_commits hperforms with heq | ⟨_, hc⟩
  · exact heq ▸ h
  · exact claims_commits h hc

/-- A claim is never taken back. -/
theorem claims_kept {α : Type} (p : Program (WorkerOp F T) (WorkerReply F T) α)
    (hs : Claims jobId n s.store) :
    Quietly H w jobId (fun _ s' => Claims jobId n s'.store) p s :=
  ensures_kept (fun _ _ hs hquiet => claims_quiet hs hquiet)
    (fun _ _ _ _ hs hperforms => claims_performs hs hperforms) p hs

/-- What is said of a value, where an exception is as good. -/
def OnValue {ε α : Type} (P : α → Prop) (r : Except ε α) : Prop := ∀ a, r = .ok a → P a

theorem onValue_error {ε α : Type} {P : α → Prop} {e : ε} : OnValue P (.error e) := by
  rintro a ⟨⟩

theorem onValue_ok {ε α : Type} {P : α → Prop} {a : α} (h : P a) :
    OnValue P (.ok a : Except ε α) := by
  rintro _ ⟨⟩
  exact h

/-- Every run of the part whose value is returned returns such a value. -/
abbrev Yields (H : Events.Host) (w : ExecutionWorker F T) (jobId : PyStr) {ε α : Type}
    (P : α → Prop) (x : Fallible (WorkerOp F T) (WorkerReply F T) ε α) (s : World F T) : Prop :=
  Quietly H w jobId (fun r _ => OnValue P r) x.run s

/-- A part about whose value nothing is known. -/
theorem yields_bind {ε α β : Type} {P : β → Prop}
    {x : Fallible (WorkerOp F T) (WorkerReply F T) ε α}
    {f : α → Fallible (WorkerOp F T) (WorkerReply F T) ε β}
    (hf : ∀ a s', Yields H w jobId P (f a) s') :
    Yields H w jobId P (x >>= f) s := by
  refine ensures_run_bind.mpr ?_
  refine (ensures_kept (I := fun _ => True) (fun _ _ _ _ => trivial)
    (fun _ _ _ _ _ _ => trivial) x.run trivial).weaken ?_
  intro r s' _
  cases r with
  | ok a => exact hf a s'
  | error e => exact onValue_error

/-- A part whose value is of a kind. -/
theorem yields_bind_of {ε α β : Type} {P : α → Prop} {Q : β → Prop}
    {x : Fallible (WorkerOp F T) (WorkerReply F T) ε α}
    {f : α → Fallible (WorkerOp F T) (WorkerReply F T) ε β}
    (hx : Yields H w jobId P x s)
    (hf : ∀ a s', P a → Yields H w jobId Q (f a) s') :
    Yields H w jobId Q (x >>= f) s := by
  refine ensures_run_bind.mpr (hx.weaken ?_)
  intro r s' hr
  cases r with
  | ok a => exact hf a s' (hr a rfl)
  | error e => exact onValue_error

/-! ### The rows of the job -/

theorem yields_getRow (id : PyStr) :
    Yields H w jobId (fun j => j.jobId = id) (getRow id) s := by
  rintro s₁ r s₂ _ ⟨now, r', hout, rfl, _⟩
  cases r' with
  | error e => exact onValue_error
  | ok row =>
    obtain ⟨_, hrow, _⟩ := getJob_eq_ok.mp (outcome_ok.mp hout)
    exact onValue_ok (mem_of_job hrow).2

theorem yields_charge (id : PyStr) (c : Charge) :
    Yields H w jobId (fun j => j.jobId = id) (charge id c) s := by
  refine ensures_run_bind.mpr ?_
  rintro s₁ r s₂ _ ⟨now, r', hout, rfl, _⟩
  cases r' with
  | error e => exact onValue_error
  | ok replayed =>
    cases replayed with
    | none => exact yields_getRow id
    | some row =>
      obtain ⟨_, _, hmin, hcharge⟩ := bind_eq_ok.mp (outcome_ok.mp hout)
      rw [(raiseIf_eq_ok.mp hmin).2] at hcharge
      rcases chargeTransaction_eq_ok.mp hcharge with ⟨row', hreplay, hrow, _⟩ | ⟨_, _, hnone⟩
      · rw [Option.some.injEq] at hrow
        exact onValue_ok (hrow ▸ (mem_of_job hreplay.found).2)
      · cases hnone

theorem yields_chargeAll {id : PyStr} (charges : List Charge) {context : Job T}
    (hcontext : context.jobId = id) :
    Yields H w jobId (fun j => j.jobId = id) (chargeAll context charges) s := by
  induction charges generalizing s context with
  | nil => exact onValue_ok hcontext
  | cons c charges ih =>
    refine yields_bind_of (yields_charge context.jobId c) ?_
    intro j s' hj
    exact ih (hj.trans hcontext)

theorem yields_checkpoint (context : Job T) (stage : Stage) (key : PyStr)
    (payload : List (PyKey F × PyVal F)) :
    Yields H w jobId (fun j => j.jobId = context.jobId)
      (checkpoint context stage key payload) s := by
  refine yields_bind ?_
  intro receipt s'
  by_cases hok : VerificationReport.ok receipt = true
  · rw [if_pos hok]
    exact yields_bind fun _ _ => yields_getRow _
  · rw [if_neg hok]
    exact onValue_error

theorem yields_runStage {id : PyStr} (job current : Job T) (stage : Stage) {context : Job T}
    (hcontext : context.jobId = id) :
    Yields H w jobId (fun j => j.jobId = id)
      (runStage (F := F) job current stage context) s := by
  unfold runStage
  split
  · exact onValue_error
  · refine yields_bind fun result s₁ => ?_
    cases result with
    | none => exact onValue_error
    | some result =>
      refine yields_bind fun _ s₂ => ?_
      refine yields_bind_of (yields_chargeAll result.charges hcontext) ?_
      intro context s₃ hcontext
      exact hcontext ▸ yields_checkpoint context _ _ _

/-! ### The way out -/

/-- The job comes to a state of its own, and from there is cancelled at most. -/
theorem yields_transition (t : Transition) :
    Yields H w jobId (fun j => j.status = t.target ∨ j.status = .cancelled)
      (Worker.transition jobId t) s := by
  refine ensures_run_bind.mpr ?_
  rintro s₁ r s₂ _ ⟨now, r', hout, rfl, _⟩
  cases r' with
  | error e => exact onValue_error
  | ok u =>
    obtain ⟨row, hmoved⟩ := transitionTransaction_eq_ok.mp (outcome_ok.mp hout)
    have hrests : Rests jobId t.target s₂.store := by
      refine ⟨row.moved t now, ?_, .inl rfl⟩
      rw [hmoved.store, job_setJob, if_pos rfl, hmoved.found]
      rfl
    rintro s₃ r s₄ hquiet ⟨now', r', hout', rfl, _⟩
    cases r' with
    | error e => exact onValue_error
    | ok current =>
      obtain ⟨_, hcurrent, _⟩ := getJob_eq_ok.mp (outcome_ok.mp hout')
      obtain ⟨row', hrow', hstatus⟩ := rests_quiet hrests hquiet
      cases hcurrent.symm.trans hrow'
      exact onValue_ok hstatus

/-- The report is not of a job that is put back. -/
def Leaves (report : WorkerReport F T) : Prop := report.status ≠ some .retryWait

theorem yields_fail {job : Job T} (hjob : job.jobId = jobId) (hclaims : Claims jobId n s.store)
    (hlimit : w.maxAttempts ≤ n) (retryable : Bool) (code : PyStr) :
    Yields H w jobId (fun j => j.status ≠ .retryWait) (fail w job retryable code) s := by
  refine ensures_run_bind.mpr ?_
  rintro s₁ r s₂ hquiet ⟨now, r', hout, rfl, _⟩
  cases r' with
  | error e => exact onValue_error
  | ok current =>
    obtain ⟨_, hcurrent, _⟩ := getJob_eq_ok.mp (outcome_ok.mp hout)
    rw [hjob] at hcurrent
    obtain ⟨row, hrow, hn⟩ := claims_quiet hclaims hquiet
    cases hcurrent.symm.trans hrow
    change Ensures _ _ _ (ite _ _ _ : WorkerProgram F T _).run s₂
    split
    · rename_i hterminal
      refine onValue_ok ?_
      intro hstatus
      rw [hstatus] at hterminal
      revert hterminal
      decide
    · -- The attempts are used up, so that the job fails for good.
      rw [if_neg fun h => absurd (h.2.trans_le (hlimit.trans hn)) (lt_irrefl _),
        (mem_of_job hcurrent).2]
      refine (yields_transition _).weaken ?_
      intro r s' hr j hj
      rcases hr j hj with hstatus | hstatus <;> simp [hstatus]

theorem yields_failed {job : Job T} (hjob : job.jobId = jobId) (hclaims : Claims jobId n s.store)
    (hlimit : w.maxAttempts ≤ n) (stagesCommitted : List Stage) (retryable : Bool)
    (code : PyStr) :
    Yields H w jobId Leaves (failed w job stagesCommitted retryable code) s := by
  refine yields_bind_of (yields_fail hjob hclaims hlimit retryable code) ?_
  intro row s' hrow
  exact onValue_ok fun hstatus => hrow (Option.some.inj hstatus)

theorem yields_recover {job : Job T} (hjob : job.jobId = jobId) (hclaims : Claims jobId n s.store)
    (hlimit : w.maxAttempts ≤ n) (e : Failure F T × List Stage) :
    Yields H w jobId Leaves (recover w job e) s := by
  unfold recover
  cases e.1.clause with
  | retryable | budget | fatal | unhandled => exact yields_failed hjob hclaims hlimit _ _ _
  | lease =>
    refine ensures_run_bind.mpr ((claims_kept (getRow job.jobId).run hclaims).weaken ?_)
    intro r s₁ hclaims
    cases r with
    | error e => exact onValue_error
    | ok current =>
      change Ensures _ _ _ (ite _ _ _ : WorkerProgram F T _).run s₁
      split
      · rename_i hcancelled
        exact onValue_ok fun hstatus => by simp [hcancelled] at hstatus
      · exact yields_failed hjob hclaims hlimit _ _ _

theorem yields_finalizeWithValidator (v : EvidenceValidator F) {context : Job T}
    (hcontext : context.jobId = jobId) :
    Yields H w jobId (fun report => report.job.status ≠ .retryWait)
      (finalizeWithValidator v context) s := by
  have hends : ∀ (t : Transition) {context : Job T} {s : World F T}, context.jobId = jobId →
      t.target ≠ .retryWait → Yields H w jobId (fun j => j.status ≠ .retryWait)
        (Worker.transition (F := F) context.jobId t) s := by
    intro t context s hcontext htarget
    rw [hcontext]
    refine (yields_transition t).weaken ?_
    intro r s' hr j hj
    rcases hr j hj with hstatus | hstatus
    · rwa [hstatus]
    · simp [hstatus]
  unfold finalizeWithValidator
  split
  · exact onValue_error
  · refine yields_bind fun receipt s₁ => yields_bind fun found s₂ => ?_
    obtain ⟨metrics, issues⟩ := found
    change Ensures _ _ _ (ite _ _ _ : WorkerProgram F T _).run s₂
    split
    · refine yields_bind_of (yields_checkpoint context _ _ _) ?_
      intro context₁ s₃ hcontext₁
      refine yields_bind_of (P := fun j => j.jobId = context₁.jobId)
        (yields_bind fun _ _ => yields_getRow _) ?_
      intro context₂ s₄ hcontext₂
      refine yields_bind_of
        (hends _ (hcontext₂.trans (hcontext₁.trans hcontext)) (by simp)) ?_
      intro context₃ s₅ hstatus
      exact onValue_ok hstatus
    · refine yields_bind_of (hends _ hcontext (by simp)) ?_
      intro context₁ s₃ hstatus
      exact onValue_ok hstatus

theorem yields_adapt {ε ε' α : Type} {P : α → Prop} {f : ε → ε'}
    {x : Fallible (WorkerOp F T) (WorkerReply F T) ε α} (hx : Yields H w jobId P x s) :
    Yields H w jobId P (x.adapt f) s := by
  refine ensures_run_adapt.mpr (hx.weaken ?_)
  intro r s' hr
  cases r with
  | ok a => exact onValue_ok (hr a rfl)
  | error e => exact onValue_error

/-! ### Behind the claim -/

/-- Where the loop over the stages may end: with a report of a cancelled job, or with a context of
the job. -/
def Looped (jobId : PyStr) : WorkerReport F T ⊕ Job T × List Stage → Prop
  | .inl report => Leaves report
  | .inr (context, _) => context.jobId = jobId

theorem yields_runStages {job : Job T} (committed : List PyStr) (stages : List Stage)
    {context : Job T} (stagesCommitted : List Stage) (hcontext : context.jobId = job.jobId) :
    Yields H w jobId (Looped job.jobId) (runStages job committed stages context stagesCommitted)
      s := by
  induction stages generalizing s context stagesCommitted with
  | nil => exact onValue_ok hcontext
  | cons stage stages ih =>
    unfold runStages
    split
    · exact ih stagesCommitted hcontext
    · refine yields_bind fun current s₁ => ?_
      change Ensures _ _ _ (ite _ _ _ : BodyProgram F T _).run s₁
      split
      · rename_i hcancelled
        exact onValue_ok fun hstatus => by simp [hcancelled] at hstatus
      · refine yields_bind_of (yields_adapt (yields_runStage job current stage hcontext)) ?_
        intro context s₂ hcontext
        exact ih _ hcontext

variable {v : EvidenceValidator F}

theorem yields_body {job : Job T} (hjob : job.jobId = jobId) (committed : List PyStr) :
    Yields H (taskWorker w jobId v) jobId Leaves (body (taskWorker w jobId v) job committed) s := by
  refine yields_bind_of (yields_runStages committed executionStages [] rfl) ?_
  rintro (report | ⟨context, stagesCommitted⟩) s₁ hlooped
  · exact onValue_ok hlooped
  · refine yields_bind_of
      (yields_adapt (yields_finalizeWithValidator v (Eq.trans hlooped hjob))) ?_
    intro finalization s₂ hstatus
    exact onValue_ok fun h => hstatus (Option.some.inj h)

theorem yields_runClaimed {job : Job T} (hjob : job.jobId = jobId)
    (hclaims : Claims jobId n s.store) (hlimit : w.maxAttempts ≤ n) :
    Yields H (taskWorker w jobId v) jobId Leaves (runClaimed (taskWorker w jobId v) job) s := by
  refine ensures_run_bind.mpr ((claims_kept _ hclaims).weaken ?_)
  intro r s₁ hclaims
  cases r with
  | error e => exact onValue_error
  | ok u =>
    refine ensures_run_bind.mpr ((claims_kept _ hclaims).weaken ?_)
    intro r s₂ hclaims
    cases r with
    | error e => exact onValue_error
    | ok rows =>
      refine ensures_run_handle.mpr ?_
      refine ((yields_body hjob _).and (claims_kept _ hclaims)).weaken ?_
      rintro r s₃ ⟨hr, hclaims⟩
      cases r with
      | ok report => exact onValue_ok (hr report rfl)
      | error e => exact yields_recover hjob hclaims hlimit e

/-! ### The claim -/

omit [Zero T] in
theorem leased_claims {s s' : Store T} {workerId : PyStr} {leaseSeconds now : T} {row : Job T}
    (hclaims : Claims jobId n s) (h : Leased s jobId workerId leaseSeconds now row s') :
    Claims jobId (n + 1) s' := by
  obtain ⟨row', hrow', hn⟩ := hclaims
  cases h.found.symm.trans hrow'
  refine ⟨row.lease workerId leaseSeconds now, ?_, ?_⟩
  · rw [h.store, job_setJob, if_pos rfl, h.found]
    rfl
  · change n + 1 ≤ row.attempts + 1
    omega

/-- A claim that has taken the job has counted. -/
def Counted (jobId : PyStr) (n : ℤ) :
    Except (Failure F T) (Option (Job T)) → World F T → Prop
  | .ok (some job), s => job.jobId = jobId ∧ Claims jobId (n + 1) s.store
  | _, _ => True

theorem quietly_acquireLease (hclaims : Claims jobId n s.store) :
    Quietly H w jobId (fun r s' => Counted jobId n (r.map some) s')
      (acquireLease (F := F) (T := T) jobId).run s := by
  refine ensures_run_bind.mpr ?_
  rintro s₁ r s₂ hquiet ⟨now, r', hout, rfl, _⟩
  cases r' with
  | error e => exact trivial
  | ok u =>
    obtain ⟨_, s₃, hcheck, hacquire⟩ := bind_eq_ok.mp (outcome_ok.mp hout)
    rw [(raiseIf_eq_ok.mp hcheck).2] at hacquire
    obtain ⟨row, hleased⟩ := acquireTransaction_eq_ok.mp hacquire
    have hcounted := leased_claims (claims_quiet hclaims hquiet) hleased
    refine ((yields_getRow jobId).and (claims_kept _ hcounted)).weaken ?_
    rintro r s₄ ⟨hr, hclaims⟩
    cases r with
    | ok job => exact ⟨hr job rfl, hclaims⟩
    | error e => exact trivial

theorem quietly_claim (hjob : w.jobId = some jobId) (hclaims : Claims jobId n s.store) :
    Quietly H w jobId (Counted jobId n) (claim w).run s := by
  unfold claim
  rw [hjob]
  refine ensures_run_handle.mpr (ensures_run_map.mpr ((quietly_acquireLease hclaims).weaken ?_))
  intro r s' hr
  cases r with
  | ok job => exact hr
  | error e =>
    change Ensures _ _ _ (ite _ _ _ : WorkerProgram F T _).run s'
    split
    · exact trivial
    · exact trivial

/-! ### `run_once` -/

/-- A report of a job that is put back: one more claim has been counted, and the limit is not yet
reached. -/
def PutBack (w : ExecutionWorker F T) (jobId : PyStr) (n : ℤ)
    (r : Except (Failure F T) (WorkerReport F T)) (s : World F T) : Prop :=
  ∀ report, r = .ok report → report.status = some .retryWait →
    Claims jobId (n + 1) s.store ∧ n + 1 < w.maxAttempts

theorem quietly_runOnce (hclaims : Claims jobId n s.store) :
    Quietly H (taskWorker w jobId v) jobId (PutBack w jobId n) (runOnce (taskWorker w jobId v)).run
      s := by
  refine ensures_run_bind.mpr ((quietly_claim rfl hclaims).weaken ?_)
  rintro ((e | (_ | job))) s₁ hcounted
  · rintro report ⟨⟩
  · rintro report ⟨⟩ ⟨⟩
  · obtain ⟨hjob, hclaims⟩ := hcounted
    rcases le_or_gt w.maxAttempts (n + 1) with hlimit | hlimit
    · refine (yields_runClaimed hjob hclaims hlimit).weaken ?_
      intro r s₂ hr report hreport hstatus
      exact absurd hstatus (hr report hreport)
    · refine (claims_kept _ hclaims).weaken ?_
      intro r s₂ hclaims report hreport hstatus
      exact ⟨hclaims, hlimit⟩

/-! ### The loop -/

theorem quietly_resume (calls : ℕ) (hclaims : Claims jobId n s.store) (hbelow : n < w.maxAttempts)
    (hcalls : w.maxAttempts ≤ n + calls) :
    Quietly H (taskWorker w jobId v) jobId (fun r _ => r ≠ .ok none)
      (resume (taskWorker w jobId v) calls).run s := by
  induction calls generalizing s n with
  | zero => omega
  | succ calls ih =>
    unfold resume
    refine ensures_run_bind.mpr ((quietly_runOnce hclaims).weaken ?_)
    intro r s₁ hr
    cases r with
    | error e => simp [ThenEnsures]
    | ok report =>
      change Ensures _ _ _ (ite _ _ _ : WorkerProgram F T _).run s₁
      split
      · rename_i hstatus
        obtain ⟨hclaims, hbelow⟩ := hr report rfl hstatus
        exact ih hclaims hbelow (by push_cast at hcalls; omega)
      · rintro ⟨⟩

end Parts

/-! ## The limit -/

omit [Zero T] in
theorem attempts_commits {s s' : Store T} {c : Call F T}
    (h : ∀ id row, s.job id = some row → 0 ≤ row.attempts) (hc : Commits c s s') :
    ∀ id row, s'.job id = some row → 0 ≤ row.attempts := by
  intro id row' hrow'
  cases hrow : s.job id with
  | none =>
    obtain ⟨a, uuid, now, _, rfl, _⟩ := hc.newRow hrow hrow'
    exact le_refl _
  | some row =>
    rcases hc.row hrow with ⟨hsame, _⟩ | ⟨row'', hrow'', hstep⟩
    · rw [Option.some.inj (hrow'.symm.trans hsame)]
      exact h id row hrow
    · cases hrow''.symm.trans hrow'
      exact (h id row hrow).trans (rowStep_attempts hstep)

theorem reachable_claims {s : Store T} (hs : Reachable F s) (hjob : (s.job jobId).isSome = true) :
    Claims jobId 0 s := by
  obtain ⟨row, hrow⟩ := Option.isSome_iff_exists.mp hjob
  refine ⟨row, hrow, ?_⟩
  refine hs.invariant (I := fun s => ∀ id row, s.job id = some row → 0 ≤ row.attempts) ?_
    (fun _ _ _ => attempts_commits) jobId row hrow
  rintro id row ⟨⟩

/-- With no other worker on its job, and whatever the handlers, the validator and all earlier calls
of the store have done, the loop comes to an end within `max_attempts` calls of `run_once`, and
each call that claims the job leaves it with more attempts. -/
theorem resume_bounded (H : Events.Host) (w : ExecutionWorker F T) (jobId : PyStr)
    (v : EvidenceValidator F) (s : World F T) (hs : Reachable F s.store)
    (hjob : (s.store.job jobId).isSome = true) :
    Quietly H (taskWorker w jobId v) jobId (fun r _ => r ≠ .ok none)
        (resume (taskWorker w jobId v) w.maxAttempts.toNat).run s ∧
      ∀ (s₁ s₂ s₃ : World F T) (job row : Job T) (outcome : _), s₁.store.job jobId = some row →
        RunsTo (Performs H (taskWorker w jobId v)) (Quiet jobId) (claim (taskWorker w jobId v)).run
          s₁ (.ok (some job)) s₂ →
        RunsTo (Performs H (taskWorker w jobId v)) (Quiet jobId)
          (runClaimed (taskWorker w jobId v) job).run s₂ outcome s₃ →
        ∃ row', s₃.store.job jobId = some row' ∧ row.attempts < row'.attempts := by
  constructor
  · have hlimit := w.attempts_positive
    exact quietly_resume _ (reachable_claims hs hjob) (by omega) (by omega)
  · intro s₁ s₂ s₃ job row outcome hrow hclaim hrest
    have hclaims : Claims jobId row.attempts s₁.store := ⟨row, hrow, le_rfl⟩
    obtain ⟨_, hcounted⟩ := ensures_iff.mp (quietly_claim rfl hclaims) _ _ hclaim
    obtain ⟨row', hrow', hn⟩ := ensures_iff.mp (claims_kept _ hcounted) _ _ hrest
    exact ⟨row', hrow', by omega⟩

/-- A validator that finds nothing wrong. -/
def sampleValidator : EvidenceValidator NonFinite := ⟨py "validator", fun _ => .ok (.dict [], [])⟩

theorem resume_bounded_sample :
    Reachable NonFinite sampleWorld.store ∧
      (sampleWorld.store.job (py "job")).isSome = true ∧
      Quietly sampleHost (taskWorker sampleWorker (py "job") sampleValidator) (py "job")
        (fun r _ => r ≠ .ok none)
        (resume (taskWorker sampleWorker (py "job") sampleValidator)
          sampleWorker.maxAttempts.toNat).run sampleWorld :=
  ⟨sampleWorld_reachable, by decide +kernel,
    (resume_bounded _ _ _ _ _ sampleWorld_reachable (by decide +kernel)).1⟩

end ResumeLoop
