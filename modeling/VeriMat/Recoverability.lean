import VeriMat.WorkerPool

/-! # Jobs that can be taken up again

A worker may crash between any two operations. A job that is not over is found by
`runnable_job_ids` and given to `acquire_lease` again once its lease has run out, unless the worker
stopped between the two transitions of the finalizer: `VALIDATING` is in neither. -/
namespace Recoverability

open PyText JsonText PyValue Events AtomicProgram RelyGuarantee Interleaving Transaction KeyedTable
open JobStoreCalls JobStoreRuns Worker WorkerReports WorkerPool
open JobStore hiding transition charge saveCheckpoint acquireLease

variable {F T : Type}

/-! ## What workers ask of the store -/

/-- A worker never asks for a job to run, it takes a lease. -/
def Tame : WorkerOp F T → Prop
  | .store (.transition _ t) => t.target ≠ .running
  | _ => True

section Programs

theorem tame_getRow (jobId : PyStr) : Only Tame (getRow jobId : WorkerProgram F T (Job T)).run :=
  ⟨trivial, fun _ => trivial⟩

theorem tame_acquireLease (jobId : PyStr) :
    Only Tame (acquireLease jobId : WorkerProgram F T (Job T)).run :=
  only_run_bind ⟨trivial, fun _ => trivial⟩ fun _ => tame_getRow jobId

theorem tame_charge (jobId : PyStr) (c : Charge) :
    Only Tame (charge jobId c : WorkerProgram F T (Job T)).run := by
  refine only_run_bind ⟨trivial, fun _ => trivial⟩ fun replayed => ?_
  cases replayed with
  | some row => exact trivial
  | none => exact tame_getRow jobId

theorem tame_transition (jobId : PyStr) {t : Transition} (ht : t.target ≠ .running) :
    Only Tame (transition jobId t : WorkerProgram F T (Job T)).run :=
  only_run_bind ⟨ht, fun _ => trivial⟩ fun _ => tame_getRow jobId

theorem tame_saveCheckpoint (jobId : PyStr) (stage : Stage) (key : PyStr) (payload : PyVal F) :
    Only Tame (saveCheckpoint jobId stage key payload : WorkerProgram F T (Job T)).run :=
  only_run_bind ⟨trivial, fun _ => trivial⟩ fun _ => tame_getRow jobId

theorem tame_emitAll (context : Job T) (events : List (EventSpec F)) :
    Only Tame (emitAll context events).run := by
  induction events with
  | nil => exact trivial
  | cons event events ih => exact only_run_bind ⟨trivial, fun _ => trivial⟩ fun _ => ih

theorem tame_chargeAll (charges : List Charge) (context : Job T) :
    Only Tame (chargeAll context charges : WorkerProgram F T (Job T)).run := by
  induction charges generalizing context with
  | nil => exact trivial
  | cons c charges ih => exact only_run_bind (tame_charge _ c) fun context => ih context

theorem tame_checkpoint (context : Job T) (stage : Stage) (key : PyStr)
    (payload : List (PyKey F × PyVal F)) :
    Only Tame (checkpoint context stage key payload).run := by
  refine only_run_bind ⟨trivial, fun _ => trivial⟩ fun receipt => ?_
  split
  · exact tame_saveCheckpoint _ _ _ _
  · exact trivial

theorem tame_inspect (v : EvidenceValidator F) (context : Job T)
    (receipt : Ledger.VerificationReport F) : Only Tame (inspect v context receipt).run := by
  unfold inspect
  split
  · refine only_run_bind ?_ fun validated => ?_
    · refine only_run_handle (only_run_map ⟨trivial, fun _ => trivial⟩) fun e => ?_
      split
      · split
        · exact trivial
        · exact trivial
      · exact trivial
    · split
      · exact trivial
      · split
        · exact trivial
        · exact trivial
        · exact trivial
  · exact trivial

theorem tame_finalizeWithValidator (v : EvidenceValidator F) (context : Job T) :
    Only Tame (finalizeWithValidator v context).run := by
  unfold finalizeWithValidator
  split
  · exact trivial
  · refine only_run_bind ⟨trivial, fun _ => trivial⟩ fun receipt => ?_
    refine only_run_bind (tame_inspect v context receipt) fun inspected => ?_
    change Only Tame (ite _ _ _ : WorkerProgram F T (FinalizationReport F T)).run
    split
    · refine only_run_bind (tame_checkpoint _ _ _ _) fun context => ?_
      refine only_run_bind (tame_transition _ (by decide)) fun context => ?_
      exact only_run_bind (tame_transition _ (by decide)) fun context => trivial
    · exact only_run_bind (tame_transition _ (by decide)) fun context => trivial

theorem tame_claimFirst (candidates : List PyStr) :
    Only Tame (claimFirst candidates : WorkerProgram F T (Option (Job T))).run := by
  induction candidates with
  | nil => exact trivial
  | cons jobId candidates ih =>
    refine only_run_handle (only_run_map (tame_acquireLease jobId)) fun e => ?_
    split
    · exact ih
    · exact trivial

theorem tame_runStage (job current context : Job T) (stage : Stage) :
    Only Tame (runStage (F := F) job current stage context).run := by
  unfold runStage
  split
  · exact trivial
  · refine only_run_bind ⟨trivial, fun _ => trivial⟩ fun result => ?_
    cases result with
    | none => exact trivial
    | some result =>
      refine only_run_bind (tame_emitAll _ _) fun _ => ?_
      exact only_run_bind (tame_chargeAll _ _) fun context => tame_checkpoint _ _ _ _

theorem tame_runStages (job : Job T) (committed : List PyStr) (stages : List Stage)
    (context : Job T) (stagesCommitted : List Stage) :
    Only Tame (runStages (F := F) job committed stages context stagesCommitted).run := by
  induction stages generalizing context stagesCommitted with
  | nil => exact trivial
  | cons stage stages ih =>
    rw [runStages]
    split
    · exact ih context stagesCommitted
    · refine only_run_bind (only_run_adapt (tame_getRow _)) fun current => ?_
      split
      · exact trivial
      · refine only_run_bind (only_run_adapt (tame_runStage _ _ _ _)) fun context => ?_
        exact ih context (stagesCommitted ++ [stage])

variable [Zero T] [LT T] (w : ExecutionWorker F T)

theorem tame_claim : Only Tame (claim w).run := by
  unfold claim
  split
  · exact tame_claimFirst _
  · exact only_run_bind ⟨trivial, fun _ => trivial⟩ fun candidates => tame_claimFirst candidates

theorem tame_fail (job : Job T) (retryable : Bool) (code : PyStr) :
    Only Tame (fail w job retryable code).run := by
  refine only_run_bind (tame_getRow _) fun current => ?_
  split
  · exact trivial
  · refine tame_transition _ ?_
    dsimp only
    split <;> decide

theorem tame_body (job : Job T) (committed : List PyStr) : Only Tame (body w job committed).run := by
  refine only_run_bind (tame_runStages _ _ _ _ _) fun ran => ?_
  cases ran with
  | inl report => exact trivial
  | inr p =>
    refine only_run_bind (only_run_adapt ?_) fun finalization => trivial
    unfold finalize
    split
    · exact tame_finalizeWithValidator _ _
    · exact ⟨trivial, fun _ => trivial⟩

theorem tame_failed (job : Job T) (stagesCommitted : List Stage) (retryable : Bool) (code : PyStr) :
    Only Tame (failed w job stagesCommitted retryable code).run :=
  only_run_bind (tame_fail w job retryable code) fun _ => trivial

theorem tame_recover (job : Job T) (e : Failure F T × List Stage) :
    Only Tame (recover w job e).run := by
  unfold recover
  split
  · exact tame_failed w _ _ _ _
  · exact tame_failed w _ _ _ _
  · exact tame_failed w _ _ _ _
  · refine only_run_bind (tame_getRow _) fun current => ?_
    split
    · exact trivial
    · exact tame_failed w _ _ _ _
  · exact tame_failed w _ _ _ _

theorem tame_runOnce : Only Tame (runOnce w).run := by
  refine only_run_bind (tame_claim w) fun claimed => ?_
  cases claimed with
  | none => exact trivial
  | some job =>
    refine only_run_bind ⟨trivial, fun _ => trivial⟩ fun _ => ?_
    refine only_run_bind ⟨trivial, fun _ => trivial⟩ fun rows => ?_
    exact only_run_handle (tame_body w job _) fun e => tame_recover w job e

end Programs

/-! ## Rows that are running have a lease -/

variable [PyFloat F] [LinearOrder T] [Add T] [Zero T]

/-- A row that runs has a lease that runs out, and every id can be looked up. -/
structure Leasable (s : Store T) : Prop where
  leased : ∀ jobId row, s.job jobId = some row → row.status = .running →
    ∃ expiry, row.leaseExpiresAt = some expiry
  bound : ∀ jobId row, s.job jobId = some row → (encode jobId).isSome = true

omit [LinearOrder T] [Add T] [Zero T] in
theorem leasable_empty : Leasable (Store.empty : Store T) := by
  constructor
  · intro jobId row h
    cases h
  · intro jobId row h
    cases h

/-- A call that does not set a row running without a lease. -/
def Leasing : Call F T → Prop
  | .transition _ t _ => t.target ≠ .running
  | _ => True

omit [Zero T] in
theorem Leasable.step {s s' : Store T} (hs : Leasable s) {c : Call F T} (hc : Leasing c)
    (h : Commits c s s') : Leasable s' := by
  constructor
  case leased =>
    intro jobId row' hrow' hrunning
    cases hrow : s.job jobId with
    | none =>
      obtain ⟨a, uuid, now, _, rfl, _⟩ := h.newRow hrow hrow'
      cases hrunning
    | some row =>
      rcases h.row hrow with ⟨hsame, _⟩ | ⟨row'', hrow'', hstep⟩
      · rw [hsame, Option.some.injEq] at hrow'
        subst hrow'
        exact hs.leased jobId row hrow hrunning
      · rw [hrow'', Option.some.injEq] at hrow'
        subst hrow'
        cases hstep with
        | leased worker runnable free => exact ⟨_, rfl⟩
        | renewed owner running live => exact ⟨_, rfl⟩
        | advanced owner running live forward => exact hs.leased jobId row hrow running
        | charged usage budgets => exact hs.leased jobId row hrow hrunning
        | moved allowed validated => exact absurd hrunning hc
  case bound =>
    intro jobId row' hrow'
    cases hrow : s.job jobId with
    | some row => exact hs.bound jobId row hrow
    | none =>
      obtain ⟨a, uuid, now, rfl, rfl, _⟩ := h.newRow hrow hrow'
      have hid : orElse a.jobId uuid = jobId := by
        rw [h.2.job, hrow] at hrow'
        by_contra hne
        rw [if_neg hne] at hrow'
        cases hrow'
      exact hid ▸ h.2.bound.2.2.1

theorem leasable_performed {H : Events.Host} {w : ExecutionWorker F T} {now : T} {s s' : World F T}
    {o : WorkerOp F T} {r : WorkerReply F T o} (hs : Leasable s.store) (ho : Tame o)
    (h : PerformsAt H w now s o r s') : Leasable s'.store := by
  rcases performsAt_commits h with heq | ⟨o', rfl, hc⟩
  · exact heq ▸ hs
  · refine hs.step ?_ hc
    cases o' with
    | transition jobId t => exact ho
    | _ => trivial

theorem leasable_operated {s s' : Site F T} (hs : Leasable s.world.store) (h : Operates s s') :
    Leasable s'.world.store := by
  cases h with
  | reads clock => exact hs
  | submits a uuid returned h =>
    rcases h.cases with ⟨heq, _⟩ | ⟨_, hc⟩
    · exact heq ▸ hs
    · exact hs.step (by simp [Leasing]) hc
  | cancels jobId returned h =>
    rcases h.cases with ⟨heq, _⟩ | ⟨_, hc⟩
    · exact heq ▸ hs
    · exact hs.step (by simp [Leasing]) hc

theorem leasable_reached {H : Events.Host} {s : Site F T} (hs : Leasable s.world.store)
    {sys : Pool F T} (h : Reaches (pool H) Unguarded (System.idle s) sys) :
    Leasable sys.state.world.store := by
  refine (only_reaches (P := fun o : PoolOp F T => Tame o.2) (I := fun s => Leasable s.world.store)
    ?_ h hs ?_ ?_).1
  · exact fun w => Only.embed (tame_runOnce w) fun o ho => ho
  · exact fun s o r s' hs ho hperform => leasable_performed hs ho hperform.2
  · exact fun s s' hs hoperates => leasable_operated hs hoperates

/-! ## Taking a job up again -/

/-- Whoever asks for candidates, with a limit that leaves none out, is given the job. -/
def Listed (s : Store T) (jobId : PyStr) (now : T) : Prop :=
  ∀ limit : ℤ, 1 ≤ limit → s.jobs.rows.length ≤ limit → FitsInteger limit →
    ∃ ids, runnableJobIds limit now s = .ok ids s ∧ jobId ∈ ids

/-- The worker can take the lease. -/
def Acquirable (w : ExecutionWorker F T) (s : Store T) (jobId : PyStr) (now : T) : Prop :=
  ∃ row s', JobStore.acquireLease jobId w.workerId w.leaseSeconds now s = .ok row s'

omit [Add T] [Zero T] in
theorem listed_of_runnable {s : Store T} {jobId : PyStr} {row : Job T}
    (hrow : s.job jobId = some row) {now : T} (h : row.runnable now = true) :
    Listed s jobId now := by
  intro limit hpositive hlength hfits
  have hwhole : ((s.jobs.rows.filter (Job.runnable now)).insertionSort jobOrder).take limit.toNat =
      (s.jobs.rows.filter (Job.runnable now)).insertionSort jobOrder := by
    refine List.take_of_length_le ?_
    have hfilter := List.length_filter_le (Job.runnable now) s.jobs.rows
    rw [List.length_insertionSort]
    omega
  refine ⟨_, ?_, List.mem_map.mpr ⟨row, (List.mem_insertionSort jobOrder).mpr
    (List.mem_filter.mpr ⟨(mem_of_job hrow).1, h⟩), (mem_of_job hrow).2⟩⟩
  rw [runnableJobIds, if_neg (by omega)]
  simp only [bind_eq_ok, bindInt_eq_ok, get_apply]
  exact ⟨(), s, ⟨hfits, rfl⟩, s, s, rfl, by rw [hwhole]; rfl⟩

omit [Add T] [Zero T] in
theorem runnable_of_listed {s : Store T} {jobId : PyStr} {row : Job T}
    (hrow : s.job jobId = some row) {now : T} (hlimit : s.jobs.rows.length ≤ 100)
    (h : Listed s jobId now) : row.runnable now = true := by
  obtain ⟨ids, hids, hmem⟩ := h 100 (by decide) (by exact_mod_cast hlimit) (by decide)
  rw [runnableJobIds, if_neg (by decide)] at hids
  simp only [bind_eq_ok, bindInt_eq_ok, get_apply] at hids
  obtain ⟨_, _, ⟨_, rfl⟩, _, _, hget, hids⟩ := hids
  cases hget
  cases hids
  obtain ⟨row', hrow', hid⟩ := List.mem_map.mp hmem
  obtain ⟨hin, hrunnable⟩ :=
    List.mem_filter.mp ((List.mem_insertionSort _).mp (List.mem_of_mem_take hrow'))
  have heq : some row' = some row := by rw [← job_of_mem hin, hid, hrow]
  exact Option.some.inj heq ▸ hrunnable

omit [PyFloat F] in
theorem acquirable_iff {s : Store T} {jobId : PyStr} {row : Job T} (hrow : s.job jobId = some row)
    (hid : (encode jobId).isSome = true) {w : ExecutionWorker F T}
    (hw : (encode w.workerId).isSome = true) {now : T}
    (hlate : ∀ expiry ∈ row.leaseExpiresAt, expiry < now) :
    Acquirable w s jobId now ↔ row.status ∉ terminal ∧ row.status ≠ .validating := by
  have hfree : heldByOther row w.workerId now = none := by
    rw [heldByOther]
    split
    · rename_i owner expiry _ hexpiry
      rw [if_neg]
      exact fun h => lt_asymm h.2.2 (hlate expiry hexpiry)
    · rfl
  constructor
  · rintro ⟨r, s', hacquired⟩
    obtain ⟨_, _, row', hleased, _⟩ := acquireLease_eq_ok.mp hacquired
    rw [hleased.found, Option.some.injEq] at hrow
    exact hrow ▸ hleased.runnable
  · intro hrunnable
    exact ⟨_, _, acquireLease_eq_ok.mpr ⟨w.worker_named, w.lease_positive, row,
      ⟨⟨hid, hw⟩, hrow, hrunnable, hfree, rfl⟩, rfl⟩⟩

/-- In every state that crashing workers can reach, a job that is not over is found and can be
taken up once its lease has run out, exactly when it is not being validated. -/
theorem recoverable_iff (H : Events.Host) (ledger : PyStr → PyStr → PyBytes) (clock : T)
    (sys : Pool F T)
    (h : Reaches (pool H) Unguarded (System.idle ⟨⟨Store.empty, ledger⟩, clock⟩) sys)
    (jobId : PyStr) (row : Job T) (hrow : sys.state.world.store.job jobId = some row)
    (hstatus : row.status ∉ terminal) (w : ExecutionWorker F T)
    (hw : (encode w.workerId).isSome = true) (now : T)
    (hlate : ∀ expiry ∈ row.leaseExpiresAt, expiry < now) :
    (Listed sys.state.world.store jobId now ∧ Acquirable w sys.state.world.store jobId now) ↔
      row.status ≠ .validating := by
  have hleasable := leasable_reached (s := ⟨⟨Store.empty, ledger⟩, clock⟩) leasable_empty h
  rw [acquirable_iff hrow (hleasable.bound jobId row hrow) hw hlate]
  constructor
  · exact fun h => h.2.2
  · intro hvalidating
    refine ⟨listed_of_runnable hrow ?_, hstatus, hvalidating⟩
    rw [Job.runnable]
    cases hs : row.status with
    | queued => rfl
    | retryWait => rfl
    | running =>
      obtain ⟨expiry, hexpiry⟩ := hleasable.leased jobId row hrow hs
      have hle := (hlate expiry hexpiry).le
      simp [hexpiry, hle]
    | validating => exact absurd hs hvalidating
    | succeeded | failed | cancelled =>
      rw [hs] at hstatus
      exact absurd (by decide) hstatus

/-! ## A crash in the finalizer -/

theorem sampleWorker_attempts : 1 ≤ sampleWorker.maxAttempts := three_attempts

/-- A worker whose validator finds nothing. -/
def validatingWorker : ExecutionWorker NonFinite ℕ :=
  { sampleWorker with
    validator := some ⟨py "cedg-publication-v1", fun _ => .ok (.dict [], [])⟩
    attempts_positive := sampleWorker_attempts }

/-- The clock stands still, and every handler returns an empty result. -/
def answerEmpty (H : Events.Host) (_ : Unit) (s : Site F T) :
    (o : PoolOp F T) → PoolReply F T o × Site F T
  | (_, .invoke _) => (.ok (some ⟨[], [], []⟩), s)
  | o => answer H () s o

theorem perform_answerEmpty (H : Events.Host) (e : Unit) (s : Site F T) (o : PoolOp F T) :
    (pool H).perform s o (answerEmpty H e s o).1 (answerEmpty H e s o).2 := by
  obtain ⟨w, o⟩ := o
  cases o with
  | invoke invocation => exact ⟨rfl, rfl⟩
  | store o => exact perform_answer H () s (w, .store o)
  | openLedger tenantId jobId => exact perform_answer H () s (w, .openLedger tenantId jobId)
  | append tenantId jobId event => exact perform_answer H () s (w, .append tenantId jobId event)
  | verify tenantId jobId => exact perform_answer H () s (w, .verify tenantId jobId)
  | events tenantId jobId => exact perform_answer H () s (w, .events tenantId jobId)
  | finalizer context => exact perform_answer H () s (w, .finalizer context)

/-- One job is submitted, and the worker stops behind the first transition of its finalizer. -/
def stopped : Pool NonFinite ℕ :=
  (System.idle ⟨sampleWorld, 0⟩).play once (answerEmpty sampleHost)
    (.start validatingWorker :: List.replicate 45 (.act 0 ()))

theorem stopped_reached : Reaches (pool sampleHost) Unguarded
    (System.idle ⟨⟨Store.empty, fun _ _ => []⟩, 0⟩) stopped := by
  have hsubmits : (pool sampleHost).external ⟨⟨Store.empty, fun _ _ => []⟩, 0⟩ ⟨sampleWorld, 0⟩ :=
    Operates.submits JobStoreStateMachine.sampleJob [] true rfl
  have hsubmitted := (Reaches.refl (M := pool sampleHost) (G := Unguarded)
    (System.idle ⟨⟨Store.empty, fun _ _ => []⟩, 0⟩)).tail (.external ⟨sampleWorld, 0⟩ hsubmits)
  exact hsubmitted.trans (reaches_play (M := pool sampleHost) (perform_answerEmpty sampleHost) _)

theorem stopped_job : ∃ row, stopped.state.world.store.job (py "job") = some row ∧
    row.status = .validating := by
  have hstatus : (stopped.state.world.store.job (py "job")).map Job.status = some .validating := by
    decide +kernel
  exact Option.map_eq_some_iff.mp hstatus

/-- The job is not over, and at no time is it found or can any worker take it. -/
theorem not_recoverable : ∃ sys : Pool NonFinite ℕ, Reaches (pool sampleHost) Unguarded
    (System.idle ⟨⟨Store.empty, fun _ _ => []⟩, 0⟩) sys ∧
      ∃ row, sys.state.world.store.job (py "job") = some row ∧ row.status ∉ terminal ∧
        ∀ (now : ℕ) (w : ExecutionWorker NonFinite ℕ),
          ¬Listed sys.state.world.store (py "job") now ∧
            ¬Acquirable w sys.state.world.store (py "job") now := by
  obtain ⟨row, hrow, hstatus⟩ := stopped_job
  refine ⟨stopped, stopped_reached, row, hrow, by rw [hstatus]; decide, fun now w => ⟨?_, ?_⟩⟩
  · intro hlisted
    have hrunnable := runnable_of_listed hrow (by decide +kernel) hlisted
    rw [Job.runnable, hstatus] at hrunnable
    cases hrunnable
  · rintro ⟨r, s', hacquired⟩
    obtain ⟨_, _, row', hleased, _⟩ := acquireLease_eq_ok.mp hacquired
    rw [hleased.found, Option.some.injEq] at hrow
    exact hleased.runnable.2 (hrow ▸ hstatus)

theorem recoverable_iff_stopped : ∃ (sys : Pool NonFinite ℕ) (row : JobStore.Job ℕ),
    sys.state.world.store.job (py "job") = some row ∧
      ((Listed sys.state.world.store (py "job") 100 ∧
        Acquirable secondWorker sys.state.world.store (py "job") 100) ↔
          row.status ≠ .validating) := by
  obtain ⟨row, hrow, hstatus⟩ := stopped_job
  have hexpiry : (stopped.state.world.store.job (py "job")).map Job.leaseExpiresAt =
      some (some 1) := by
    decide +kernel
  rw [hrow, Option.map_some, Option.some.injEq] at hexpiry
  refine ⟨stopped, row, hrow, recoverable_iff sampleHost (fun _ _ => []) 0 stopped stopped_reached
    (py "job") row hrow (by rw [hstatus]; decide) secondWorker (by decide) 100 ?_⟩
  intro expiry h
  rw [hexpiry, Option.mem_some_iff] at h
  omega

end Recoverability
