import VeriMat.WorkerReports

/-! # A pool of workers

Any number of workers run `run_once` over one job store, one operation at a time in any order,
while operators submit and cancel jobs and the clock reads anything. A worker that has crashed
takes no further step. Claims and checkpoints look at the lease, `transition` does not: a worker
whose lease was taken over still moves the job. -/
namespace WorkerPool

open PyText JsonText Events AtomicProgram Transaction KeyedTable JobStoreCalls JobStoreRuns Worker
open WorkerReports
open JobStore hiding transition charge saveCheckpoint acquireLease

variable {F T : Type}

/-! ## The pool -/

/-- The shared state, and what the clock reads. -/
structure Site (F T : Type) where
  world : World F T
  clock : T

/-- An operation of a worker. -/
abbrev PoolOp (F T : Type) [Zero T] [LT T] : Type := ExecutionWorker F T × WorkerOp F T

abbrev PoolReply (F T : Type) [Zero T] [LT T] (o : PoolOp F T) : Type := WorkerReply F T o.2

/-- How a `run_once` ends. -/
abbrev Ending (F T : Type) : Type := Except (Failure F T) (WorkerReport F T)

/-- A `run_once` of a worker. -/
def once [Zero T] [LT T] (w : ExecutionWorker F T) :
    Program (PoolOp F T) (PoolReply F T) (Ending F T) :=
  (runOnce w).run.embed (fun o => (w, o)) fun _ r => r

variable [PyFloat F] [LinearOrder T] [Add T] [Zero T]

/-- An operation that is carried out when the clock reads `now`. -/
def PerformsAt (H : Events.Host) (w : ExecutionWorker F T) (now : T) (s : World F T) :
    (o : WorkerOp F T) → WorkerReply F T o → World F T → Prop
  | .store o, r, s' => ∃ r',
    Outcome (o.call w now) s.store r' s'.store ∧ r = r'.mapError .store ∧ s'.ledger = s.ledger
  | o, r, s' => Performs H w s o r s'

/-- What operators do, and the clock: a job is submitted or cancelled, or time passes. -/
inductive Operates : Site F T → Site F T → Prop where
  | reads (s : Site F T) (clock : T) : Operates s ⟨s.world, clock⟩
  | submits {s : Site F T} {store : Store T} (a : NewJob) (uuid : PyStr) (returned : Bool)
      (h : JobStoreRuns.Step s.world.store
        ⟨(.createJob a uuid s.clock : Call F T), returned⟩ store) :
      Operates s ⟨{ s.world with store }, s.clock⟩
  | cancels {s : Site F T} {store : Store T} (jobId : PyStr) (returned : Bool)
      (h : JobStoreRuns.Step s.world.store
        ⟨(.transition jobId ⟨.cancelled, none, none, true⟩ s.clock : Call F T), returned⟩ store) :
      Operates s ⟨{ s.world with store }, s.clock⟩

def pool (H : Events.Host) :
    Machine (Site F T) (ExecutionWorker F T) (PoolOp F T) (PoolReply F T) (Ending F T) where
  program := once
  perform s o r s' := s'.clock = s.clock ∧ PerformsAt H o.1 s.clock s.world o.2 r s'.world
  external := Operates

abbrev Pool (F T : Type) [LinearOrder T] [Zero T] : Type :=
  System (Site F T) (ExecutionWorker F T) (PoolOp F T) (PoolReply F T) (Ending F T)

/-- An operation changes nothing in the store or commits its call. -/
theorem performsAt_commits {H : Events.Host} {w : ExecutionWorker F T} {now : T}
    {s s' : World F T} {o : WorkerOp F T} {r : WorkerReply F T o} (h : PerformsAt H w now s o r s') :
    s'.store = s.store ∨ ∃ o', o = .store o' ∧ Commits (asCall w now o') s.store s'.store := by
  cases o with
  | store o =>
    obtain ⟨r', hout, _, _⟩ := h
    rcases storeOp_commits_call hout with heq | hc
    · exact .inl heq
    · exact .inr ⟨o, rfl, hc⟩
  | openLedger tenantId jobId | invoke invocation | finalizer context =>
    obtain rfl : s' = s := h
    exact .inl rfl
  | append tenantId jobId event =>
    obtain ⟨uuid, now, _, rfl⟩ := h
    exact .inl rfl
  | verify tenantId jobId | events tenantId jobId =>
    obtain ⟨_, rfl⟩ := h
    exact .inl rfl

/-! ## Leases -/

/-- The owner holds a lease on the job that has not run out. -/
def Holds (s : Store T) (jobId owner : PyStr) (now : T) : Prop :=
  ∃ row expiry, s.job jobId = some row ∧ row.leaseOwner = some owner ∧
    row.leaseExpiresAt = some expiry ∧ now < expiry

/-- What a lease protects of a job. -/
def leaseState (j : Job T) : JobStatus × Option PyStr × Option T :=
  (j.status, j.leaseOwner, j.leaseExpiresAt)

/-- A step of the worker leaves alone what other workers hold. -/
def Respects (w : ExecutionWorker F T) (now : T) (s s' : Store T) : Prop :=
  ∀ (jobId : PyStr) (v : ExecutionWorker F T), v.workerId ≠ w.workerId →
    Holds s jobId v.workerId now → (s'.job jobId).map leaseState = (s.job jobId).map leaseState

/-- The worker is about to move a job that another one holds. -/
def Intrudes (w : ExecutionWorker F T) (now : T) (s : Store T) : WorkerOp F T → Prop
  | .store (.transition jobId t) =>
    (∃ v : ExecutionWorker F T, v.workerId ≠ w.workerId ∧ Holds s jobId v.workerId now) ∧
      ∃ row s', Moved s jobId t now row s'
  | _ => False

theorem ne_of_allowed {current target : JobStatus} (h : target ∈ allowedStatus current) :
    target ≠ current := by
  rintro rfl
  revert h
  cases target <;> decide

/-- An operation that does not intrude changes no lease that another worker holds. -/
theorem respects_of_not_intrudes {H : Events.Host} {w : ExecutionWorker F T} {now : T}
    {s s' : World F T} {o : WorkerOp F T} {r : WorkerReply F T o}
    (h : PerformsAt H w now s o r s') (hintrudes : ¬Intrudes w now s.store o) :
    Respects w now s.store s'.store := by
  intro jobId v hother hholds
  rcases performsAt_commits h with heq | ⟨o', rfl, hc⟩
  · rw [heq]
  · obtain ⟨row, expiry, hrow, howner, hexpiry, hlive⟩ := id hholds
    rcases hc.row hrow with ⟨hsame, _⟩ | ⟨row', hrow', hstep⟩
    · rw [hsame, hrow]
    · rw [hrow', hrow]
      cases o' with
      | runnableJobIds | get _ | checkpoints _ => cases hstep
      | acquire id =>
        cases hstep with
        | leased worker runnable free =>
          have hnamed : v.workerId ≠ [] := by
            intro hnil
            have hblank := v.worker_named
            rw [hnil] at hblank
            cases hblank
          rw [heldByOther, howner, hexpiry] at free
          dsimp only at free
          rw [if_pos ⟨hnamed, hother, hlive⟩] at free
          cases free
      | charge id c =>
        cases hstep with
        | charged usage budgets => rfl
      | saveCheckpoint id stage key payload =>
        cases hstep with
        | advanced owner running live forward => rfl
      | transition id t =>
        cases hstep with
        | moved allowed validated =>
          obtain ⟨row'', hmoved⟩ := hc
          have hid : row.jobId = jobId := (mem_of_job hrow).2
          exact (hintrudes ⟨⟨v, hother, hid ▸ hholds⟩, row'', _, hmoved⟩).elim

/-- An operation respects the leases of the others exactly when it does not intrude. -/
theorem respects_iff {H : Events.Host} {w : ExecutionWorker F T} {now : T}
    {s s' : World F T} {o : WorkerOp F T} {r : WorkerReply F T o}
    (h : PerformsAt H w now s o r s') :
    Respects w now s.store s'.store ↔ ¬Intrudes w now s.store o := by
  constructor
  · intro hrespects hintrudes
    cases o with
    | store o =>
      cases o with
      | transition jobId t =>
        obtain ⟨⟨v, hother, hholds⟩, row, s₁, hmoved⟩ := hintrudes
        obtain ⟨r', hout, _, _⟩ := h
        have hran : transitionTransaction jobId t now s.store = .ok () s₁ :=
          transitionTransaction_eq_ok.mpr ⟨row, hmoved⟩
        simp only [Outcome, StoreOp.call, hran] at hout
        have hsame := hrespects jobId v hother hholds
        rw [hout.2, hmoved.store, job_setJob, if_pos rfl, hmoved.found] at hsame
        have hstatus := congrArg Prod.fst (Option.some.inj hsame)
        exact ne_of_allowed hmoved.allowed hstatus
      | _ => exact hintrudes
    | _ => exact hintrudes
  · exact respects_of_not_intrudes h

/-! ## Runs -/

/-- No worker whose turn it is intrudes. -/
def Within (s : Site F T)
    (p : Process (ExecutionWorker F T) (PoolOp F T) (PoolReply F T) (Ending F T)) : Prop :=
  ∀ o next, p.program = .step o next → ¬Intrudes o.1 s.clock s.world.store o.2

/-- The pool in which the operations of the workers respect the leases of the others. -/
def respectful (H : Events.Host) :
    Machine (Site F T) (ExecutionWorker F T) (PoolOp F T) (PoolReply F T) (Ending F T) where
  program := once
  perform s o r s' :=
    (pool H).perform s o r s' ∧ Respects o.1 s.clock s.world.store s'.world.store
  external := Operates

theorem step_respectful {H : Events.Host} {sys sys' : Pool F T}
    (h : AtomicProgram.Step (pool H) Within sys sys') :
    AtomicProgram.Step (respectful H) Unguarded sys sys' := by
  cases h with
  | start c => exact .start c
  | external s hs => exact .external s hs
  | operation i c log o next r s hi hguard hs =>
    exact .operation i c log o next r s hi trivial
      ⟨hs, respects_of_not_intrudes hs.2 (hguard o next rfl)⟩

/-- Every operation of every run respects the leases of the others exactly when it does not
intrude, and a run without intrusions is one in which all leases are respected. -/
theorem leases_respected_iff (H : Events.Host) (s₀ : Site F T) :
    (∀ sys : Pool F T, Reaches (pool H) Unguarded (System.idle s₀) sys →
      ∀ (i : ℕ) c log o next r s, sys.processes[i]? = some ⟨c, log, .step o next⟩ →
        (pool H).perform sys.state o r s →
        (Respects o.1 sys.state.clock sys.state.world.store s.world.store ↔
          ¬Intrudes o.1 sys.state.clock sys.state.world.store o.2)) ∧
    ∀ sys : Pool F T, Reaches (pool H) Within (System.idle s₀) sys →
      Reaches (respectful H) Unguarded (System.idle s₀) sys := by
  constructor
  · intro sys _ i c log o next r s _ hs
    exact respects_iff hs.2
  · intro sys h
    induction h with
    | refl => exact .refl _
    | tail _ hstep ih => exact ih.tail (step_respectful hstep)

/-! ## A lease that is taken over -/

/-- The clock stands still during an operation, and every handler fails retryably. -/
def answer (H : Events.Host) (_ : Unit) (s : Site F T) (o : PoolOp F T) :
    PoolReply F T o × Site F T :=
  let reply := respond H o.1 ⟨[], s.clock, .retryable⟩ s.world o.2
  (reply.1, ⟨reply.2, s.clock⟩)

theorem perform_answer (H : Events.Host) (e : Unit) (s : Site F T) (o : PoolOp F T) :
    (pool H).perform s o (answer H e s o).1 (answer H e s o).2 := by
  refine ⟨rfl, ?_⟩
  obtain ⟨w, o⟩ := o
  cases o with
  | store o => exact ⟨_, outcome_ran _ _, rfl, rfl⟩
  | append tenantId jobId event => exact ⟨[], [], rfl, rfl⟩
  | verify tenantId jobId | events tenantId jobId => exact ⟨rfl, rfl⟩
  | openLedger tenantId jobId | invoke invocation | finalizer context => rfl

def secondWorker : ExecutionWorker NonFinite ℕ :=
  { sampleWorker with
    workerId := py "worker-b"
    leaseSeconds := 10
    worker_named := by decide
    lease_positive := by decide }

/-- The first worker claims the job and its handler fails, after its lease has run out. -/
def overrun : Pool NonFinite ℕ :=
  (System.idle ⟨sampleWorld, 0⟩).play once (answer sampleHost)
    ([.start sampleWorker, .start secondWorker] ++ List.replicate 6 (.act 0 ()))

/-- The second worker takes the job over, and the first one reads it in `_fail`. -/
def takenOverPool : Pool NonFinite ℕ :=
  System.play once (answer sampleHost) { overrun with state := ⟨overrun.state.world, 5⟩ }
    [.act 1 (), .act 1 (), .act 0 ()]

theorem takenOverPool_reached :
    Reaches (pool sampleHost) Unguarded (System.idle ⟨sampleWorld, 0⟩) takenOverPool := by
  have hoverrun : Reaches (pool sampleHost) Unguarded (System.idle ⟨sampleWorld, 0⟩) overrun :=
    reaches_play (M := pool sampleHost) (perform_answer sampleHost) _
  have hreads : (pool sampleHost).external overrun.state ⟨overrun.state.world, 5⟩ :=
    Operates.reads overrun.state 5
  exact (hoverrun.tail (.external _ hreads)).trans (reaches_play (M := pool sampleHost) (perform_answer sampleHost) _)

/-- The worker of the first process, when that has an operation to perform. -/
def nextWorker (sys : Pool NonFinite ℕ) : Option PyStr :=
  match sys.processes[(0 : ℕ)]? with
  | some ⟨_, _, .step o _⟩ => some o.1.workerId
  | _ => none

theorem nextWorker_eq_some {sys : Pool NonFinite ℕ} {workerId : PyStr}
    (h : nextWorker sys = some workerId) :
    ∃ c log o next, sys.processes[(0 : ℕ)]? = some ⟨c, log, .step o next⟩ ∧
      o.1.workerId = workerId := by
  rw [nextWorker] at h
  split at h
  · rename_i c log o next hi
    exact ⟨c, log, o, next, hi, Option.some.inj h⟩
  · cases h

theorem nextWorker_takenOver : nextWorker takenOverPool = some (py "worker-a") := by decide +kernel

/-- The row of the job, as far as leases go. -/
def sampleLease (sys : Pool NonFinite ℕ) : Option (JobStatus × Option PyStr × Option ℕ) :=
  (sys.state.world.store.job (py "job")).map leaseState

/-- The handler of the first worker fails after the second one has taken the job over, and `_fail`
takes it away from that one. -/
theorem lease_not_respected :
    ∃ sys : Pool NonFinite ℕ,
      Reaches (pool sampleHost) Unguarded (System.idle ⟨sampleWorld, 0⟩) sys ∧
        ∃ (i : ℕ) (c : _) (log : _) (o : _) (next : _) (r : _) (s : _),
          sys.processes[i]? = some ⟨c, log, .step o next⟩ ∧
            (pool sampleHost).perform sys.state o r s ∧
            ¬Respects o.1 sys.state.clock sys.state.world.store s.world.store := by
  have hheld : takenOverPool.state.clock = 5 ∧
      sampleLease takenOverPool = some (.running, some (py "worker-b"), some 15) := by
    decide +kernel
  have hmoved : sampleLease (takenOverPool.turn once (answer sampleHost) (.act 0 ())) =
      some (.retryWait, none, none) := by
    decide +kernel
  obtain ⟨c, log, o, next, hi, ho⟩ := nextWorker_eq_some nextWorker_takenOver
  refine ⟨takenOverPool, takenOverPool_reached, 0, c, log, o, next, _, _, hi,
    perform_answer sampleHost () _ o, ?_⟩
  intro hrespects
  have hturn : (takenOverPool.turn once (answer sampleHost) (.act 0 ())).state =
      (answer sampleHost () takenOverPool.state o).2 := by
    rw [System.turn, hi]
    rfl
  obtain ⟨row, hrow, hlease⟩ := Option.map_eq_some_iff.mp hheld.2
  obtain ⟨hstatus, hlease⟩ := Prod.mk.inj hlease
  obtain ⟨howner, hexpiry⟩ := Prod.mk.inj hlease
  have hsame := hrespects (py "job") secondWorker (by rw [ho]; decide)
    ⟨row, 15, hrow, howner, hexpiry, by rw [hheld.1]; decide⟩
  rw [← hturn] at hsame
  have hsame' := hmoved.symm.trans (hsame.trans hheld.2)
  cases hsame'

theorem leases_respected_iff_takenOver :
    ∃ sys : Pool NonFinite ℕ,
      Reaches (pool sampleHost) Unguarded (System.idle ⟨sampleWorld, 0⟩) sys ∧
        ∃ (i : ℕ) (c : _) (log : _) (o : _) (next : _) (r : _) (s : _),
          sys.processes[i]? = some ⟨c, log, .step o next⟩ ∧
            (pool sampleHost).perform sys.state o r s ∧
            (Respects o.1 sys.state.clock sys.state.world.store s.world.store ↔
              ¬Intrudes o.1 sys.state.clock sys.state.world.store o.2) := by
  obtain ⟨c, log, o, next, hi, _⟩ := nextWorker_eq_some nextWorker_takenOver
  have hperform := perform_answer sampleHost () takenOverPool.state o
  exact ⟨takenOverPool, takenOverPool_reached, 0, c, log, o, next, _, _, hi, hperform,
    (leases_respected_iff sampleHost ⟨sampleWorld, 0⟩).1 takenOverPool takenOverPool_reached 0 c log
      o next _ _ hi hperform⟩

end WorkerPool
