import VeriMat.GrowingState
import VeriMat.Recoverability

/-! # What a success rests on

Between a worker's look at the ledger and its transition to `SUCCEEDED` other workers append,
charge, checkpoint and take over. What it has found stays: checkpoint rows and events are never
taken back, so the evidence lasts while the job moves on. -/
namespace EvidenceSuccess

open PyText JsonText PyValue Events AtomicProgram RelyGuarantee Interleaving GrowingState
open Transaction KeyedTable JobStoreCalls JobStoreRuns JobStoreStateMachine Worker WorkerReports
open WorkerPool
open JobStore hiding transition charge saveCheckpoint acquireLease

variable {F T : Type} [PyFloat F]

/-! ## The evidence -/

/-- A checkpoint payload with what `checkpoint` adds, the length and the head of the ledger. -/
def stamped (payload : List (PyKey F × PyVal F)) (es : List (EventEnvelope F)) : PyVal F :=
  .dict (putItem (py "ledger_event_count") (.int es.length)
    (putItem (py "ledger_head") (.str (Ledger.headHash es)) payload))

/-- What `finalize_with_validator` puts in its checkpoint. -/
def finalPayload (v : EvidenceValidator F) (metrics : PyVal F) : List (PyKey F × PyVal F) :=
  [(.str (py "ok"), .bool true), (.str (py "validator_name"), .str v.name),
    (.str (py "validation_metrics"), metrics)]

/-- The job is one of the tenant. -/
def Owned (s : Site F T) (jobId tenantId : PyStr) : Prop :=
  ∃ row, s.world.store.job jobId = some row ∧ row.tenantId = tenantId

/-- A checkpoint of the job under the key. -/
def Kept (s : Site F T) (jobId key : PyStr) : Prop :=
  ∃ c ∈ s.world.store.checkpoints.rows, c.jobId = jobId ∧ c.checkpointKey = key

/-- The checkpoint holds the payload, and the length and the head of some first part of the
ledger that verifies. -/
structure Stamps (H : Host) (s : Site F T) (c : Checkpoint T) (tenantId : PyStr)
    (payload : List (PyKey F × PyVal F)) (recorded : PyBytes) : Prop where
  owned : Owned s c.jobId tenantId
  kept : c ∈ s.world.store.checkpoints.rows
  lasts : recorded <+: s.world.ledger tenantId c.jobId
  stamp : ∃ es, Ledger.events H recorded = .ok es ∧
    renderPayload (stamped payload es) = .ok c.payload

/-- A validator found nothing in a first part of the ledger, and a checkpoint of that part or a
longer one holds what it measured. -/
def Validated (H : Host) (V : EvidenceValidator F → Prop) (s : Site F T)
    (tenantId jobId : PyStr) : Prop :=
  ∃ v inspected es metrics, (V v ∧ Ledger.events H inspected = .ok es ∧
    v.validate es = .ok (metrics, [])) ∧
      ∃ recorded c, (inspected <+: recorded ∧ c.jobId = jobId ∧
        c.checkpointKey = py "evidence-finalization") ∧
          Stamps H s c tenantId (finalPayload v metrics) recorded

structure Evidence (H : Host) (V : EvidenceValidator F → Prop) (s : Site F T)
    (tenantId jobId : PyStr) : Prop where
  stages : ∀ stage ∈ executionStages, Kept s jobId (checkpointKey stage)
  validated : Validated H V s tenantId jobId

/-- The statuses behind the validation. -/
def Passed (status : JobStatus) : Prop := status = .validating ∨ status = .succeeded

/-- Jobs that have passed have evidence, and every checkpoint is stamped. -/
structure Sound (H : Host) (V : EvidenceValidator F → Prop) (s : Site F T) : Prop where
  evidenced : ∀ jobId row, s.world.store.job jobId = some row → Passed row.status →
    Evidence H V s row.tenantId jobId
  checkpointed : ∀ c ∈ s.world.store.checkpoints.rows,
    ∃ tenantId payload recorded, Stamps H s c tenantId payload recorded

/-! ## What only grows -/

structure Grows (s s' : Site F T) : Prop where
  checkpoints : ∀ c ∈ s.world.store.checkpoints.rows, c ∈ s'.world.store.checkpoints.rows
  ledger : ∀ tenantId jobId, s.world.ledger tenantId jobId <+: s'.world.ledger tenantId jobId
  tenant : ∀ jobId row, s.world.store.job jobId = some row →
    ∃ row', s'.world.store.job jobId = some row' ∧ row'.tenantId = row.tenantId

variable {H : Host} {V : EvidenceValidator F → Prop} {tenantId jobId key : PyStr}

omit [PyFloat F] in
theorem upward_kept : Upward Grows fun s : Site F T => Kept s jobId key := by
  rintro s s' h ⟨c, hc, hkey⟩
  exact ⟨c, h.checkpoints c hc, hkey⟩

omit [PyFloat F] in
theorem upward_owned : Upward Grows fun s : Site F T => Owned s jobId tenantId := by
  rintro s s' h ⟨row, hrow, htenant⟩
  obtain ⟨row', hrow', hsame⟩ := h.tenant jobId row hrow
  exact ⟨row', hrow', hsame.trans htenant⟩

theorem upward_stamps {c : Checkpoint T} {payload : List (PyKey F × PyVal F)} {recorded : PyBytes} :
    Upward Grows fun s => Stamps H s c tenantId payload recorded := by
  intro s s' h hs
  exact ⟨upward_owned s s' h hs.owned, h.checkpoints c hs.kept,
    hs.lasts.trans (h.ledger tenantId c.jobId), hs.stamp⟩

theorem upward_validated : Upward Grows fun s : Site F T => Validated H V s tenantId jobId := by
  rintro s s' h ⟨v, inspected, es, metrics, hclean, recorded, c, hkey, hstamps⟩
  exact ⟨v, inspected, es, metrics, hclean, recorded, c, hkey, upward_stamps s s' h hstamps⟩

theorem upward_evidence : Upward Grows fun s : Site F T => Evidence H V s tenantId jobId := by
  intro s s' h hs
  exact ⟨fun stage hstage => upward_kept s s' h (hs.stages stage hstage),
    upward_validated s s' h hs.validated⟩

/-- `append` only adds to the file. -/
theorem prefix_fileAfter (H : Host) (file : PyBytes) (a : Ledger.AppendArgs F) :
    file <+: LedgerConcurrent.fileAfter H file a := by
  rw [LedgerConcurrent.fileAfter]
  cases happend : Ledger.append H file a with
  | error e => exact List.prefix_rfl
  | ok p =>
    obtain ⟨env, file'⟩ := p
    obtain ⟨text, es, _, _, hreplayed | ⟨hash, payload, bytes, hwrote⟩⟩ :=
      LedgerAppend.append_eq_ok happend
    · rw [hreplayed.unchanged]
    · exact hwrote.grown ▸ List.prefix_append file bytes

variable [LinearOrder T] [Add T] [Zero T]

omit [Zero T] in
theorem commits_tenant {c : Call F T} {s s' : Store T} (h : Commits c s s') {row : Job T}
    (hrow : s.job jobId = some row) :
    ∃ row', s'.job jobId = some row' ∧ row'.tenantId = row.tenantId := by
  rcases h.row hrow with ⟨hsame, _⟩ | ⟨row', hrow', hstep⟩
  · exact ⟨row, hsame, rfl⟩
  · refine ⟨row', hrow', ?_⟩
    cases hstep <;> rfl

omit [Zero T] in
theorem grows_of_commits {s s' : Site F T} (hledger : s'.world.ledger = s.world.ledger)
    (h : s'.world.store = s.world.store ∨
      ∃ c : Call F T, Commits c s.world.store s'.world.store) : Grows s s' := by
  constructor
  case ledger => exact fun _ _ => hledger ▸ List.prefix_rfl
  case checkpoints =>
    rcases h with heq | ⟨c, hc⟩
    · exact fun r hr => heq ▸ hr
    · exact fun r hr => mem_checkpoints hc hr
  case tenant =>
    rcases h with heq | ⟨c, hc⟩
    · exact fun jobId row hrow => ⟨row, heq ▸ hrow, rfl⟩
    · exact fun jobId row hrow => commits_tenant hc hrow

/-- What a worker does to the site. -/
abbrev Does (H : Host) (w : ExecutionWorker F T) (s : Site F T) (o : WorkerOp F T)
    (r : WorkerReply F T o) (s' : Site F T) : Prop :=
  (pool H).perform s (w, o) r s'

variable {w : ExecutionWorker F T}

theorem grows_performed {s s' : Site F T} {o : WorkerOp F T} {r : WorkerReply F T o}
    (h : Does H w s o r s') : Grows s s' := by
  obtain ⟨_, h⟩ := h
  cases o with
  | store o =>
    refine grows_of_commits ?_ ?_
    · obtain ⟨r', _, _, hledger⟩ := h
      exact hledger
    · exact (performsAt_commits h).imp_right fun ⟨o', _, hc⟩ => ⟨_, hc⟩
  | openLedger tenantId jobId | invoke invocation | finalizer context =>
    have hsame : s'.world = s.world := h
    exact grows_of_commits (by rw [hsame]) (.inl (by rw [hsame]))
  | verify tenantId jobId | events tenantId jobId =>
    obtain ⟨_, hsame⟩ := h
    exact grows_of_commits (by rw [hsame]) (.inl (by rw [hsame]))
  | append tenantId jobId event =>
    obtain ⟨uuid, now, _, hsame⟩ := h
    have hstore : s'.world.store = s.world.store := by rw [hsame]
    constructor
    case checkpoints => exact fun c hc => hstore ▸ hc
    case tenant => exact fun id row hrow => ⟨row, hstore ▸ hrow, rfl⟩
    case ledger =>
      intro t j
      rw [hsame]
      dsimp only
      by_cases heq : t = tenantId ∧ j = jobId
      · rw [if_pos heq, heq.1, heq.2]
        exact prefix_fileAfter H _ _
      · rw [if_neg heq]

theorem grows_operated {s s' : Site F T} (h : Operates s s') : Grows s s' := by
  cases h with
  | reads clock => exact grows_of_commits rfl (.inl rfl)
  | submits a uuid returned h =>
    refine grows_of_commits rfl ?_
    rcases h.cases with ⟨heq, _⟩ | ⟨_, hc⟩
    · exact .inl heq
    · exact .inr ⟨_, hc⟩
  | cancels jobId returned h =>
    refine grows_of_commits rfl ?_
    rcases h.cases with ⟨heq, _⟩ | ⟨_, hc⟩
    · exact .inl heq
    · exact .inr ⟨_, hc⟩

/-! ## The invariant -/

omit [Zero T] in
/-- A row has passed before or it is moved now. -/
theorem commits_passed {c : Call F T} {s s' : Store T} (h : Commits c s s') {row' : Job T}
    (hrow' : s'.job jobId = some row') (hpassed : Passed row'.status) :
    ∃ row, s.job jobId = some row ∧ (Passed row.status ∨
      ∃ t now, c = .transition jobId t now ∧ Passed t.target) := by
  cases hrow : s.job jobId with
  | none =>
    obtain ⟨a, uuid, now, _, rfl, _⟩ := h.newRow hrow hrow'
    rcases hpassed with hpassed | hpassed <;> cases hpassed
  | some row =>
    refine ⟨row, rfl, ?_⟩
    rcases h.row hrow with ⟨hsame, _⟩ | ⟨row'', hrow'', hstep⟩
    · cases hsame.symm.trans hrow'
      exact .inl hpassed
    · cases hrow''.symm.trans hrow'
      have hid := (mem_of_job hrow).2
      cases hstep with
      | leased worker runnable free =>
        rw [Job.lease] at hpassed
        dsimp only at hpassed
        split at hpassed
        · rcases hpassed with hpassed | hpassed <;> cases hpassed
        · exact .inl hpassed
      | renewed owner running live => exact .inl hpassed
      | advanced owner running live forward => exact .inl hpassed
      | charged usage budgets => exact .inl hpassed
      | moved allowed validated => exact .inr ⟨_, _, by rw [hid], hpassed⟩

/-- What a step has to bring for the rows it moves and the checkpoints it writes. -/
structure Provides (H : Host) (V : EvidenceValidator F → Prop) (s s' : Site F T) : Prop where
  moves : ∀ jobId row', s'.world.store.job jobId = some row' → Passed row'.status →
    ∃ row, s.world.store.job jobId = some row ∧
      (Passed row.status ∨ Evidence H V s row.tenantId jobId)
  writes : ∀ c ∈ s'.world.store.checkpoints.rows, c ∈ s.world.store.checkpoints.rows ∨
    ∃ tenantId payload recorded, Stamps H s' c tenantId payload recorded

omit [LinearOrder T] [Add T] [Zero T] in
theorem Sound.step {s s' : Site F T} (hs : Sound H V s) (hgrows : Grows s s')
    (h : Provides H V s s') : Sound H V s' := by
  constructor
  case evidenced =>
    intro jobId row' hrow' hpassed
    obtain ⟨row, hrow, hbefore⟩ := h.moves jobId row' hrow' hpassed
    have hevidence : Evidence H V s row.tenantId jobId := by
      rcases hbefore with hbefore | hbefore
      · exact hs.evidenced jobId row hrow hbefore
      · exact hbefore
    obtain ⟨row'', hrow'', htenant⟩ := hgrows.tenant jobId row hrow
    cases hrow''.symm.trans hrow'
    rw [htenant]
    exact upward_evidence s s' hgrows hevidence
  case checkpointed =>
    intro c hc
    rcases h.writes c hc with hold | hnew
    · obtain ⟨tenantId, payload, recorded, hstamps⟩ := hs.checkpointed c hold
      exact ⟨tenantId, payload, recorded, upward_stamps s s' hgrows hstamps⟩
    · exact hnew

/-- A call that moves no job past the validation and writes no checkpoint. -/
def Harmless : Call F T → Prop
  | .transition _ t _ => ¬Passed t.target
  | .saveCheckpoint _ _ _ _ _ _ => False
  | _ => True

omit [Zero T] in
theorem provides_of_harmless {s s' : Site F T} (h : s'.world.store = s.world.store ∨
    ∃ c : Call F T, Harmless c ∧ Commits c s.world.store s'.world.store) : Provides H V s s' := by
  rcases h with heq | ⟨c, hharmless, hc⟩
  · constructor
    · intro jobId row hrow hpassed
      exact ⟨row, heq ▸ hrow, .inl hpassed⟩
    · exact fun c hc => .inl (heq ▸ hc)
  · constructor
    · intro jobId row' hrow' hpassed
      obtain ⟨row, hrow, hbefore | ⟨t, now, rfl, htarget⟩⟩ := commits_passed hc hrow' hpassed
      · exact ⟨row, hrow, .inl hbefore⟩
      · exact absurd htarget hharmless
    · intro r hr
      rcases commits_checkpoints hc with heq | ⟨row, _, hsaves⟩
      · exact .inl (heq ▸ hr)
      · cases c with
        | saveCheckpoint _ _ _ _ _ _ => exact hharmless.elim
        | _ => exact hsaves.elim

theorem sound_operated {s s' : Site F T} (hs : Sound H V s) (h : Operates s s') :
    Sound H V s' := by
  refine hs.step (grows_operated h) (provides_of_harmless ?_)
  cases h with
  | reads clock => exact .inl rfl
  | submits a uuid returned h =>
    rcases h.cases with ⟨heq, _⟩ | ⟨_, hc⟩
    · exact .inl heq
    · exact .inr ⟨.createJob a uuid s.clock, trivial, hc⟩
  | cancels jobId returned h =>
    rcases h.cases with ⟨heq, _⟩ | ⟨_, hc⟩
    · exact .inl heq
    · exact .inr ⟨_, by simp [Harmless, Passed], hc⟩

omit [LinearOrder T] [Add T] [Zero T] in
theorem sound_empty (ledger : PyStr → PyStr → PyBytes) (clock : T) :
    Sound H V ⟨⟨Store.empty, ledger⟩, clock⟩ := by
  constructor
  · intro jobId row hrow
    cases hrow
  · intro c hc
    cases hc

/-! ## What workers ask for -/

/-- An operation that moves no job past the validation and writes no checkpoint. -/
def Neutral : WorkerOp F T → Prop
  | .store (.transition _ t) => ¬Passed t.target
  | .store (.saveCheckpoint _ _ _ _) => False
  | _ => True

theorem sound_neutral {s s' : Site F T} {o : WorkerOp F T} {r : WorkerReply F T o}
    (hs : Sound H V s) (h : Does H w s o r s') (ho : Neutral o) : Sound H V s' := by
  refine hs.step (grows_performed h) (provides_of_harmless ?_)
  rcases performsAt_commits h.2 with heq | ⟨o', rfl, hc⟩
  · exact .inl heq
  · refine .inr ⟨_, ?_, hc⟩
    cases o' with
    | transition jobId t => exact ho
    | saveCheckpoint jobId stage key payload => exact ho.elim
    | _ => trivial

section Programs
omit [PyFloat F] [LinearOrder T] [Add T] [Zero T]

theorem neutral_act {o : WorkerOp F T} (ho : Neutral o) : Only Neutral (act o).run :=
  ⟨ho, fun _ => trivial⟩

theorem neutral_getRow (jobId : PyStr) :
    Only Neutral (getRow jobId : WorkerProgram F T (Job T)).run :=
  ⟨trivial, fun _ => trivial⟩

theorem neutral_transition (jobId : PyStr) {t : Transition} (ht : ¬Passed t.target) :
    Only Neutral (transition jobId t : WorkerProgram F T (Job T)).run :=
  only_run_bind ⟨ht, fun _ => trivial⟩ fun _ => neutral_getRow jobId

theorem neutral_emitAll (context : Job T) (events : List (EventSpec F)) :
    Only Neutral (emitAll context events).run := by
  induction events with
  | nil => exact trivial
  | cons event events ih => exact only_run_bind ⟨trivial, fun _ => trivial⟩ fun _ => ih

variable [Zero T] [LT T] (w : ExecutionWorker F T)

theorem neutral_failed (job : Job T) (stagesCommitted : List Stage) (retryable : Bool)
    (code : PyStr) : Only Neutral (failed w job stagesCommitted retryable code).run := by
  refine only_run_bind (only_run_bind (neutral_getRow _) fun current => ?_) fun _ => trivial
  split
  · exact trivial
  · refine neutral_transition _ ?_
    dsimp only
    split <;> simp [Passed]

theorem neutral_recover (job : Job T) (e : Failure F T × List Stage) :
    Only Neutral (recover w job e).run := by
  unfold recover
  split
  · exact neutral_failed w _ _ _ _
  · exact neutral_failed w _ _ _ _
  · exact neutral_failed w _ _ _ _
  · refine only_run_bind (neutral_getRow _) fun current => ?_
    split
    · exact trivial
    · exact neutral_failed w _ _ _ _
  · exact neutral_failed w _ _ _ _

end Programs

/-! ## What holds between the operations -/

/-- The pool of the workers whose validators are among the given ones. -/
def certified (H : Host) (V : EvidenceValidator F → Prop) :
    Machine (Site F T) (ExecutionWorker F T) (PoolOp F T) (PoolReply F T) (Ending F T) :=
  restrict (pool H) fun _ o => ∀ v, o.1.validator = some v → V v

/-- What a part of `run_once` establishes when it returns. -/
abbrev Yields (H : Host) (V : EvidenceValidator F → Prop) (w : ExecutionWorker F T) {ε α : Type}
    (A : Site F T → Prop) (x : Fallible (WorkerOp F T) (WorkerReply F T) ε α)
    (post : α → Site F T → Prop) : Prop :=
  Runs (Does H w) (Interferes (certified H V)) (Sound H V) A x post fun _ _ => True

theorem growing : Growing (Does H w) (Interferes (certified H V)) (Sound H V) Grows := by
  constructor
  · rintro s s' _ (⟨o, r, _, h⟩ | h)
    · exact grows_performed (w := o.1) (o := o.2) h
    · exact grows_operated h
  · exact fun s o r s' _ h => grows_performed h

section Yields
variable {ε α β : Type} {A B : Site F T → Prop}

theorem Yields.bind {x : Fallible (WorkerOp F T) (WorkerReply F T) ε α}
    {f : α → Fallible (WorkerOp F T) (WorkerReply F T) ε β} {J : α → Site F T → Prop}
    {post : β → Site F T → Prop} (hx : Yields H V w A x J)
    (hf : ∀ a, Yields H V w (J a) (f a) post) : Yields H V w A (x >>= f) post :=
  Runs.bind hx hf

/-- What a part establishes, with what lasted meanwhile. -/
theorem Yields.frame {x : Fallible (WorkerOp F T) (WorkerReply F T) ε α}
    {post : α → Site F T → Prop} (hx : Yields H V w A x post) (hB : Upward Grows B) :
    Yields H V w (fun s => A s ∧ B s) x fun a s => post a s ∧ B s :=
  Runs.weaken (growing.frame_runs hx hB) (fun _ _ _ h => h) fun _ _ _ _ => trivial

theorem yields_neutral {x : Fallible (WorkerOp F T) (WorkerReply F T) ε α}
    (hx : Only Neutral x.run) : Yields H V w A x fun _ _ => True := by
  have hkeeps : ∀ (s : Site F T) o r s', Sound H V s → Neutral o → Does H w s o r s' →
      Sound H V s' := fun _ _ _ _ hs ho h => sound_neutral hs h ho
  exact Runs.strengthen (runs_of_only hkeeps hx) fun _ _ _ => trivial

theorem yields_adapt {ε' : Type} {f : ε' → ε}
    {x : Fallible (WorkerOp F T) (WorkerReply F T) ε' α} {post : α → Site F T → Prop}
    (hx : Yields H V w A x post) : Yields H V w A (x.adapt f) post :=
  Runs.adapt hx

theorem yields_carry {x : Fallible (WorkerOp F T) (WorkerReply F T) ε α}
    (hx : Only Neutral x.run) (hB : Upward Grows B) : Yields H V w B x fun _ => B :=
  Runs.weaken (Runs.strengthen ((yields_neutral (A := fun _ => True) hx).frame hB)
    fun _ _ h => ⟨trivial, h⟩) (fun _ _ _ h => h.2) fun _ _ _ h => h

/-- One operation, by what its result says. -/
theorem yields_act {o : WorkerOp F T} {post : o.Result → Site F T → Prop}
    (hpost : ∀ b, Upward Grows (post b))
    (hkeeps : ∀ s r s', Sound H V s → A s → Does H w s o r s' → Sound H V s')
    (hleads : ∀ s b s', A s → Does H w s o (.ok b) s' → post b s') :
    Yields H V w A (act o) post := by
  refine runs_ask ⟨hkeeps, ?_, ?_⟩
  · exact stable_ends (fun b => (growing (w := w)).stable (hpost b)) fun _ => stable_const
  · intro s r s' _ hs h
    cases r with
    | ok b => exact hleads s b s' hs h
    | error e => exact trivial

end Yields

/-! ## The job and its tenant -/

/-- The context is one of the job. -/
def IsContext (jobId : PyStr) (context : Job T) (s : Site F T) : Prop :=
  context.jobId = jobId ∧ Owned s jobId context.tenantId

omit [PyFloat F] [LinearOrder T] [Add T] [Zero T] in
theorem upward_isContext {context : Job T} :
    Upward Grows fun s : Site F T => IsContext jobId context s :=
  upward_const.and upward_owned

omit [PyFloat F] [LinearOrder T] [Add T] [Zero T] in
theorem isContext_of_job {s : Site F T} {row : Job T} (h : s.world.store.job jobId = some row) :
    IsContext jobId row s :=
  ⟨(mem_of_job h).2, row, h, rfl⟩

omit [PyFloat F] [LinearOrder T] [Add T] [Zero T] in
theorem Owned.unique {s : Site F T} {other : PyStr} (h : Owned s jobId tenantId)
    (h' : Owned s jobId other) : tenantId = other := by
  obtain ⟨row, hrow, rfl⟩ := h
  obtain ⟨row', hrow', rfl⟩ := h'
  cases hrow.symm.trans hrow'
  rfl

theorem yields_getRow {A : Site F T → Prop} (jobId : PyStr) :
    Yields H V w A (getRow jobId) (IsContext jobId) := by
  refine yields_act (fun _ => upward_isContext)
    (fun s r s' hs _ h => sound_neutral hs h trivial) ?_
  rintro s row s' _ ⟨_, r', hout, hr, _⟩
  cases r' with
  | error e => cases hr
  | ok row' =>
    cases hr
    obtain ⟨_, hrow, hsame⟩ := getJob_eq_ok.mp (outcome_ok.mp hout)
    exact isContext_of_job (hsame ▸ hrow)

theorem yields_charge {A : Site F T → Prop} (jobId : PyStr) (c : Charge) :
    Yields H V w A (charge jobId c) (IsContext jobId) := by
  refine Yields.bind (J := fun replayed s => ∀ row ∈ replayed, IsContext jobId row s) ?_ ?_
  · refine yields_act (fun _ => upward_forall fun _ => upward_imp fun _ => upward_isContext)
      (fun s r s' hs _ h => sound_neutral hs h trivial) ?_
    rintro s replayed s' _ ⟨_, r', hout, hr, _⟩ row hrow
    cases r' with
    | error e => cases hr
    | ok replayed' =>
      cases hr
      obtain ⟨_, s₁, hcheck, hran⟩ := bind_eq_ok.mp (outcome_ok.mp hout)
      obtain ⟨_, rfl⟩ := raiseIf_eq_ok.mp hcheck
      rcases chargeTransaction_eq_ok.mp hran with ⟨row', hreplayed, rfl, hsame⟩ | ⟨_, _, rfl⟩
      · cases hrow
        exact isContext_of_job (hsame ▸ hreplayed.found)
      · cases hrow
  · intro replayed
    cases replayed with
    | some row => exact runs_pure fun s _ h => h row rfl
    | none => exact yields_getRow jobId

theorem yields_chargeAll (charges : List Charge) (context : Job T) :
    Yields H V w (fun s => IsContext jobId context s) (chargeAll context charges)
      (IsContext jobId) := by
  induction charges generalizing context with
  | nil => exact runs_pure fun s _ h => h
  | cons c charges ih =>
    refine meets_of_known (q := context.jobId = jobId) (fun s _ h => h.1) ?_
    rintro rfl
    exact (yields_charge _ c).bind ih

theorem yields_acquireLease {A : Site F T → Prop} (jobId : PyStr) :
    Yields H V w A (acquireLease jobId) (IsContext jobId) :=
  (yields_neutral (neutral_act (by exact trivial))).bind fun _ => yields_getRow jobId

/-- A claim is of a job. -/
def Claims (claimed : Option (Job T)) (s : Site F T) : Prop :=
  ∀ job ∈ claimed, IsContext job.jobId job s

theorem yields_claimFirst {A : Site F T → Prop} (candidates : List PyStr) :
    Yields H V w A (claimFirst candidates) Claims := by
  induction candidates generalizing A with
  | nil => exact runs_pure fun s _ _ _ h => by cases h
  | cons jobId candidates ih =>
    refine runs_handle (J := fun _ _ => True) (runs_map ?_) fun e => ?_
    · refine Runs.weaken (yields_acquireLease jobId) ?_ fun _ _ _ h => h
      rintro row s _ h job hjob
      cases hjob
      exact ⟨rfl, h.1 ▸ h.2⟩
    · split
      · exact ih
      · exact runs_throw fun _ _ _ => trivial

theorem yields_claim : Yields H V w (fun _ => True) (claim w) Claims := by
  unfold claim
  split
  · exact yields_claimFirst _
  · exact (yields_neutral (neutral_act (by exact trivial))).bind fun _ => yields_claimFirst _

/-! ## Checkpoints -/

omit [Add T] [Zero T] in
/-- The rows of a save: one holds the payload, and the others were there before. -/
theorem checkpointed_rows {s s' : Store T} {stage : Stage} {rendered : PyStr} {now : T}
    {workerId : PyStr} {row : Job T}
    (h : Checkpointed s jobId workerId stage key rendered now row s') :
    (∃ c ∈ s'.checkpoints.rows, (c.jobId = jobId ∧ c.checkpointKey = key) ∧
      c.payload = rendered) ∧
      ∀ c ∈ s'.checkpoints.rows, c ∈ s.checkpoints.rows ∨
        c.jobId = jobId ∧ c.payload = rendered := by
  obtain ⟨s₁, hwritten, rfl⟩ := h.written
  rw [setJob_checkpoints]
  cases hwritten with
  | replayed existing found same unchanged =>
    subst unchanged
    obtain ⟨hmem, hkey⟩ := Table.mem_of_find found
    simp only [Checkpoint.hasKey, Bool.and_eq_true, beq_iff_eq] at hkey
    exact ⟨⟨existing, hmem, hkey, same.1⟩, fun c hc => .inl hc⟩
  | inserted t fresh bound inserted store =>
    subst store
    rw [Table.insert_rows inserted]
    refine ⟨⟨_, List.mem_append_right _ (List.mem_singleton_self _), ⟨rfl, rfl⟩, rfl⟩, ?_⟩
    intro c hc
    rcases List.mem_append.mp hc with hc | hc
    · exact .inl hc
    · rw [List.mem_singleton.mp hc]
      exact .inr ⟨rfl, rfl⟩

/-- What a checkpoint may count on when it is saved. -/
structure Ready (H : Host) (tenantId jobId : PyStr) (recorded : PyBytes)
    (es : List (EventEnvelope F)) (s : Site F T) : Prop where
  read : Ledger.events H recorded = .ok es
  owned : Owned s jobId tenantId
  lasts : recorded <+: s.world.ledger tenantId jobId

omit [PyFloat F] [LinearOrder T] [Add T] [Zero T] in
theorem upward_ledger {recorded : PyBytes} : Upward Grows fun s : Site F T =>
    recorded <+: s.world.ledger tenantId jobId :=
  fun _ _ h hs => hs.trans (h.ledger tenantId jobId)

omit [LinearOrder T] [Add T] [Zero T] in
theorem upward_ready {recorded : PyBytes} {es : List (EventEnvelope F)} :
    Upward Grows fun s : Site F T => Ready H tenantId jobId recorded es s :=
  fun s s' h hs => ⟨hs.read, upward_owned s s' h hs.owned, upward_ledger s s' h hs.lasts⟩

omit [LinearOrder T] [Add T] [Zero T] in
theorem Ready.stamps {s : Site F T} {recorded : PyBytes} {es : List (EventEnvelope F)}
    (h : Ready H tenantId jobId recorded es s) {payload : List (PyKey F × PyVal F)}
    {rendered : PyStr} (hrendered : renderPayload (stamped payload es) = .ok rendered)
    {c : Checkpoint T} (hc : c ∈ s.world.store.checkpoints.rows) (hid : c.jobId = jobId)
    (hpayload : c.payload = rendered) : Stamps H s c tenantId payload recorded := by
  subst hid hpayload
  exact ⟨h.owned, hc, h.lasts, es, h.read, hrendered⟩

/-- The job has such a checkpoint. -/
def Saved (H : Host) (tenantId jobId key : PyStr) (payload : List (PyKey F × PyVal F))
    (recorded : PyBytes) (s : Site F T) : Prop :=
  ∃ c, (c.jobId = jobId ∧ c.checkpointKey = key) ∧ Stamps H s c tenantId payload recorded

omit [LinearOrder T] [Add T] [Zero T] in
theorem upward_saved {payload : List (PyKey F × PyVal F)} {recorded : PyBytes} :
    Upward Grows fun s : Site F T => Saved H tenantId jobId key payload recorded s :=
  upward_exists fun _ => upward_const.and upward_stamps

theorem sound_saved {s s' : Site F T} {stage : Stage} {payload : List (PyKey F × PyVal F)}
    {recorded : PyBytes} {es : List (EventEnvelope F)} {r : Except (Failure F T) Unit}
    (hs : Sound H V s) (hready : Ready H tenantId jobId recorded es s)
    (h : Does H w s (.store (.saveCheckpoint jobId stage key (stamped payload es))) r s') :
    Sound H V s' := by
  have hgrows := grows_performed h
  refine hs.step hgrows ?_
  obtain ⟨_, r', hout, _, _⟩ := h
  rcases storeOp_commits_call hout with heq | hc
  · exact provides_of_harmless (.inl heq)
  · constructor
    · intro id row' hrow' hpassed
      obtain ⟨row, hrow, hbefore | ⟨t, now, hcall, _⟩⟩ := commits_passed hc hrow' hpassed
      · exact ⟨row, hrow, .inl hbefore⟩
      · cases hcall
    · intro c hmem
      obtain ⟨rendered, hrendered, row, hsaved⟩ := hc
      refine ((checkpointed_rows hsaved).2 c hmem).imp_right ?_
      rintro ⟨hid, hpayload⟩
      exact ⟨tenantId, payload, recorded,
        (upward_ready s s' hgrows hready).stamps hrendered hmem hid hpayload⟩

theorem yields_saveCheckpoint (stage : Stage) (key : PyStr) (payload : List (PyKey F × PyVal F))
    (recorded : PyBytes) (es : List (EventEnvelope F)) :
    Yields H V w (Ready H tenantId jobId recorded es)
      (saveCheckpoint jobId stage key (stamped payload es))
      fun context s => IsContext jobId context s ∧
        Saved H tenantId jobId key payload recorded s := by
  refine Yields.bind (J := fun _ => Saved H tenantId jobId key payload recorded) ?_ ?_
  · refine yields_act (fun _ => upward_saved) (fun s r s' hs hready h => sound_saved hs hready h) ?_
    intro s b s' hready h
    have hready' := upward_ready s s' (grows_performed h) hready
    obtain ⟨_, r', hout, hr, _⟩ := h
    cases r' with
    | error e => cases hr
    | ok u =>
      simp only [StoreOp.call] at hout
      cases hrendered : renderPayload (stamped payload es) with
      | error e =>
        rw [hrendered] at hout
        cases outcome_ok.mp hout
      | ok rendered =>
        rw [hrendered] at hout
        obtain ⟨row, hsaved⟩ := checkpointTransaction_eq_ok.mp (outcome_ok.mp hout)
        obtain ⟨c, hc, hkey, hpayload⟩ := (checkpointed_rows hsaved).1
        exact ⟨c, hkey, hready'.stamps hrendered hc hkey.1 hpayload⟩
  · intro u
    exact ((yields_getRow jobId).frame upward_saved).strengthen fun s _ h => ⟨trivial, h⟩

/-- What a positive receipt says. -/
def Receipt (H : Host) (tenantId jobId : PyStr) (inspected : PyBytes)
    (receipt : Ledger.VerificationReport F) (s : Site F T) : Prop :=
  receipt.ok = true → ∃ recorded, ∃ es : List (EventEnvelope F),
    (inspected <+: recorded ∧ receipt = ⟨true, es.length, Ledger.headHash es, none⟩) ∧
      Ready H tenantId jobId recorded es s

omit [LinearOrder T] [Add T] [Zero T] in
theorem upward_receipt {inspected : PyBytes} {receipt : Ledger.VerificationReport F} :
    Upward Grows fun s : Site F T => Receipt H tenantId jobId inspected receipt s :=
  upward_imp fun _ => upward_exists fun _ => upward_exists fun _ => upward_const.and upward_ready

theorem yields_verify (tenantId jobId : PyStr) (inspected : PyBytes) :
    Yields H V w (fun s => Owned s jobId tenantId ∧ inspected <+: s.world.ledger tenantId jobId)
      (act (.verify tenantId jobId)) (Receipt H tenantId jobId inspected) := by
  refine yields_act (fun _ => upward_receipt) (fun s r s' hs _ h => sound_neutral hs h trivial) ?_
  intro s receipt s' hs h hok
  have howned := upward_owned s s' (grows_performed h) hs.1
  obtain ⟨_, hr, hsame⟩ := h
  cases hverify : Ledger.verify (F := F) H (s.world.ledger tenantId jobId) with
  | error e =>
    rw [hverify] at hr
    cases hr
  | ok report =>
    rw [hverify] at hr
    cases hr
    obtain ⟨es, hread, rfl⟩ := LedgerChain.verify_ok_iff.mp ⟨hverify, hok⟩
    exact ⟨_, es, ⟨hs.2, rfl⟩, hread, howned, by rw [hsame]⟩

/-- A checkpoint is stamped with a part of the ledger no shorter than one seen before. -/
theorem yields_checkpoint (context : Job T) (stage : Stage) (key : PyStr)
    (payload : List (PyKey F × PyVal F)) (inspected : PyBytes) :
    Yields H V w (fun s => Owned s context.jobId context.tenantId ∧
        inspected <+: s.world.ledger context.tenantId context.jobId)
      (checkpoint context stage key payload)
      fun result s => ∃ recorded, inspected <+: recorded ∧ IsContext context.jobId result s ∧
        Saved H context.tenantId context.jobId key payload recorded s := by
  refine (yields_verify context.tenantId context.jobId inspected).bind fun receipt => ?_
  split
  case isTrue hok =>
    refine Program.Meets.strengthen (A := fun s => ∃ recorded, ∃ es : List (EventEnvelope F),
      (inspected <+: recorded ∧ receipt = ⟨true, es.length, Ledger.headHash es, none⟩) ∧
        Ready H context.tenantId context.jobId recorded es s) ?_ fun s _ h => h hok
    refine meets_exists fun recorded => meets_exists fun es => ?_
    refine meets_of_known (fun s _ h => h.1) ?_
    rintro ⟨hlonger, rfl⟩
    refine Runs.weaken (Runs.strengthen (yields_saveCheckpoint stage key payload recorded es)
      fun s _ h => h.2) ?_ fun _ _ _ h => h
    exact fun result s _ h => ⟨recorded, hlonger, h⟩
  case isFalse => exact runs_throw fun _ _ _ => trivial

/-! ## The finalizer -/

/-- The validator found nothing in this first part of the ledger. -/
def Clean (H : Host) (v : EvidenceValidator F) (tenantId jobId : PyStr) (metrics : PyVal F)
    (inspected : PyBytes) (s : Site F T) : Prop :=
  (∃ es, Ledger.events H inspected = .ok es ∧ v.validate es = .ok (metrics, [])) ∧
    inspected <+: s.world.ledger tenantId jobId

theorem yields_events {A : Site F T → Prop} (tenantId jobId : PyStr) :
    Yields H V w A (act (.events tenantId jobId)) fun es s =>
      ∃ inspected, Ledger.events H inspected = .ok es ∧
        inspected <+: s.world.ledger tenantId jobId := by
  refine yields_act (fun _ => upward_exists fun _ => upward_const.and upward_ledger)
    (fun s r s' hs _ h => sound_neutral hs h trivial) ?_
  rintro s es s' _ ⟨_, hr, hsame⟩
  cases hread : Ledger.events (F := F) H (s.world.ledger tenantId jobId) with
  | error e =>
    rw [hread] at hr
    cases hr
  | ok es' =>
    rw [hread] at hr
    cases hr
    exact ⟨_, hread, by rw [hsame]⟩

theorem yields_inspect {A : Site F T → Prop} (v : EvidenceValidator F) (context : Job T)
    (receipt : Ledger.VerificationReport F) :
    Yields H V w A (inspect v context receipt) fun p s => p.2 = [] →
      ∃ inspected, Clean H v context.tenantId context.jobId p.1 inspected s := by
  unfold inspect
  split
  · refine Yields.bind (J := fun validated s => ∀ es, validated = .ok es → ∃ inspected,
      Ledger.events H inspected = .ok es ∧
        inspected <+: s.world.ledger context.tenantId context.jobId) ?_ fun validated => ?_
    · refine runs_handle (J := fun _ _ => True) (runs_map ?_) fun e => ?_
      · refine Runs.weaken (yields_events _ _) ?_ fun _ _ _ h => h
        rintro es s _ h es' heq
        cases heq
        exact h
      · split
        · split
          · refine runs_pure fun s _ _ es heq => ?_
            cases heq
          · exact runs_throw fun _ _ _ => trivial
        · exact runs_throw fun _ _ _ => trivial
    · split
      · refine runs_pure fun s _ _ heq => ?_
        cases heq
      case h_2 events =>
        split
        case h_1 metrics issues hvalidate =>
          refine runs_pure fun s _ h heq => ?_
          obtain ⟨inspected, hread, hlasts⟩ := h events rfl
          rw [List.map_eq_nil_iff.mp heq] at hvalidate
          exact ⟨inspected, ⟨events, hread, hvalidate⟩, hlasts⟩
        · refine runs_pure fun s _ _ heq => ?_
          cases heq
        · exact runs_throw fun _ _ _ => trivial
  · refine runs_pure fun s _ _ heq => ?_
    cases heq

/-- The job may move past the validation. -/
def MayPass (H : Host) (V : EvidenceValidator F → Prop) (tenantId jobId : PyStr)
    (s : Site F T) : Prop :=
  Owned s jobId tenantId ∧ Evidence H V s tenantId jobId

theorem sound_moved {s s' : Site F T} {t : Transition} {r : Except (Failure F T) Unit}
    (hs : Sound H V s) (hpass : MayPass H V tenantId jobId s)
    (h : Does H w s (.store (.transition jobId t)) r s') : Sound H V s' := by
  refine hs.step (grows_performed h) ?_
  obtain ⟨_, r', hout, _, _⟩ := h
  rcases storeOp_commits_call hout with heq | hc
  · exact provides_of_harmless (.inl heq)
  · constructor
    · intro id row' hrow' hpassed
      obtain ⟨row, hrow, hbefore | ⟨t', now, hcall, _⟩⟩ := commits_passed hc hrow' hpassed
      · exact ⟨row, hrow, .inl hbefore⟩
      · cases hcall
        have htenant := hpass.1.unique ⟨row, hrow, rfl⟩
        exact ⟨row, hrow, .inr (htenant ▸ hpass.2)⟩
    · intro c hmem
      rcases commits_checkpoints hc with heq | ⟨_, _, hsaves⟩
      · exact .inl (heq ▸ hmem)
      · exact hsaves.elim

theorem yields_move (jobId : PyStr) (t : Transition) :
    Yields H V w (MayPass H V tenantId jobId) (transition jobId t) fun result s =>
      result.jobId = jobId ∧ MayPass H V tenantId jobId s := by
  have hupward : Upward Grows fun s : Site F T => MayPass H V tenantId jobId s :=
    upward_owned.and upward_evidence
  refine Yields.bind (J := fun _ => MayPass H V tenantId jobId) ?_ ?_
  · refine yields_act (fun _ => hupward) (fun s r s' hs hpass h => sound_moved hs hpass h) ?_
    exact fun s b s' hpass h => hupward s s' (grows_performed h) hpass
  · intro u
    refine Runs.weaken (Runs.strengthen
      ((yields_getRow (A := fun _ => True) jobId).frame hupward) fun s _ h => ⟨trivial, h⟩) ?_
      fun _ _ _ h => h
    exact fun result s _ h => ⟨h.1.1, h.2⟩

/-- Every stage has its checkpoint. -/
def Staged (jobId : PyStr) (s : Site F T) : Prop :=
  ∀ stage ∈ executionStages, Kept s jobId (checkpointKey stage)

omit [PyFloat F] [LinearOrder T] [Add T] [Zero T] in
theorem upward_staged : Upward Grows fun s : Site F T => Staged jobId s :=
  upward_forall fun _ => upward_imp fun _ => upward_kept

theorem yields_finalizeWithValidator {v : EvidenceValidator F} (hv : V v) (context : Job T) :
    Yields H V w (fun s => Owned s context.jobId context.tenantId ∧ Staged context.jobId s)
      (finalizeWithValidator v context) fun _ _ => True := by
  have hupward : Upward Grows fun s : Site F T =>
      Owned s context.jobId context.tenantId ∧ Staged context.jobId s :=
    upward_owned.and upward_staged
  unfold finalizeWithValidator
  split
  · exact runs_throw fun _ _ _ => trivial
  · refine (yields_carry (neutral_act (by exact trivial)) hupward).bind fun receipt => ?_
    refine Yields.bind (Runs.strengthen
      ((yields_inspect (A := fun _ => True) v context receipt).frame hupward)
      fun s _ h => ⟨trivial, h⟩) fun inspected => ?_
    obtain ⟨metrics, issues⟩ := inspected
    change Yields H V w _ (ite _ _ _ : WorkerProgram F T (FinalizationReport F T)) _
    split
    case isTrue hempty =>
      refine Program.Meets.strengthen (A := fun s => ∃ part,
        Clean H v context.tenantId context.jobId metrics part s ∧
          Owned s context.jobId context.tenantId ∧ Staged context.jobId s) ?_ ?_
      · refine meets_exists fun part => ?_
        refine meets_of_known (fun s _ h => h.1.1) ?_
        rintro ⟨es, hread, hclean⟩
        refine Yields.bind (J := fun result s => result.jobId = context.jobId ∧
          MayPass H V context.tenantId context.jobId s) ?_ fun result => ?_
        · refine Runs.weaken (Runs.strengthen ((yields_checkpoint context .validate
            (py "evidence-finalization") (finalPayload v metrics) part).frame hupward) ?_) ?_
              fun _ _ _ h => h
          · exact fun s _ h => ⟨⟨h.2.1, h.1.2⟩, h.2⟩
          · rintro result s _ ⟨⟨recorded, hlonger, hcontext, c, hkey, hstamps⟩, howned, hstaged⟩
            exact ⟨hcontext.1, howned, hstaged, v, part, es, metrics, ⟨hv, hread, hclean⟩,
              recorded, c, ⟨hlonger, hkey⟩, hstamps⟩
        · refine meets_of_known (fun s _ h => h.1) fun hid => ?_
          rw [hid]
          refine Yields.bind (Runs.strengthen (yields_move _ _) fun s _ h => h.2) fun moved => ?_
          refine meets_of_known (fun s _ h => h.1) fun hid => ?_
          rw [hid]
          refine Yields.bind (Runs.strengthen (yields_move _ _) fun s _ h => h.2) fun moved => ?_
          exact runs_pure fun _ _ _ => trivial
      · rintro s _ ⟨hinspected, h⟩
        obtain ⟨part, hpart⟩ := hinspected (List.isEmpty_iff.mp hempty)
        exact ⟨part, hpart, h⟩
    case isFalse =>
      exact (yields_neutral (neutral_transition _ (by simp [Passed]))).bind fun _ =>
        runs_pure fun _ _ _ => trivial

/-! ## The stages -/

omit [LinearOrder T] [Add T] [Zero T] in
theorem Saved.kept {payload : List (PyKey F × PyVal F)} {recorded : PyBytes} {s : Site F T}
    (h : Saved H tenantId jobId key payload recorded s) : Kept s jobId key := by
  obtain ⟨c, hkey, hstamps⟩ := h
  exact ⟨c, hstamps.kept, hkey⟩

theorem yields_runStage (job current : Job T) (stage : Stage) (context : Job T) :
    Yields H V w (fun s => IsContext jobId context s) (runStage job current stage context)
      fun result s => IsContext jobId result s ∧ Kept s jobId (checkpointKey stage) := by
  unfold runStage
  split
  · exact runs_throw fun _ _ _ => trivial
  · refine (yields_carry (neutral_act (by exact trivial)) upward_isContext).bind fun result => ?_
    cases result with
    | none => exact runs_throw fun _ _ _ => trivial
    | some result =>
      refine (yields_carry (neutral_emitAll _ _) upward_isContext).bind fun _ => ?_
      refine (yields_chargeAll _ _).bind fun charged => ?_
      refine meets_of_known (q := charged.jobId = jobId) (fun s _ h => h.1) ?_
      rintro rfl
      refine Runs.weaken (Runs.strengthen
        (yields_checkpoint charged stage (checkpointKey stage) _ [])
        fun s _ h => ⟨h.2, List.nil_prefix⟩) ?_ fun _ _ _ h => h
      rintro result s _ ⟨recorded, _, hcontext, hsaved⟩
      exact ⟨hcontext, hsaved.kept⟩

/-- What the stages start from: the checkpoints of the job that were read. -/
def Resumes (job : Job T) (committed : List PyStr) (context : Job T) (s : Site F T) : Prop :=
  IsContext job.jobId context s ∧ ∀ key ∈ committed, Kept s job.jobId key

theorem yields_runStages (job : Job T) (committed : List PyStr) (stages : List Stage)
    (context : Job T) (stagesCommitted : List Stage) :
    Yields H V w (Resumes job committed context)
      (runStages job committed stages context stagesCommitted) fun ran s =>
        ∀ p, ran = .inr p → IsContext job.jobId p.1 s ∧
          ∀ stage ∈ stages, Kept s job.jobId (checkpointKey stage) := by
  have hcommitted : Upward Grows fun s : Site F T => ∀ key ∈ committed, Kept s job.jobId key :=
    upward_forall fun _ => upward_imp fun _ => upward_kept
  induction stages generalizing context stagesCommitted with
  | nil =>
    refine runs_pure fun s _ h p heq => ?_
    cases heq
    exact ⟨h.1, by simp⟩
  | cons stage stages ih =>
    -- the rest of the stages, with the checkpoint of the first
    have hrest : ∀ context stagesCommitted, Yields H V w
        (fun s => Resumes job committed context s ∧ Kept s job.jobId (checkpointKey stage))
        (runStages job committed stages context stagesCommitted) fun ran s =>
          ∀ p, ran = .inr p → IsContext job.jobId p.1 s ∧
            ∀ st ∈ stage :: stages, Kept s job.jobId (checkpointKey st) := by
      intro context stagesCommitted
      refine Runs.weaken ((ih context stagesCommitted).frame upward_kept) ?_ fun _ _ _ h => h
      rintro ran s _ ⟨hran, hkept⟩ p heq
      exact ⟨(hran p heq).1, List.forall_mem_cons.mpr ⟨hkept, (hran p heq).2⟩⟩
    rw [runStages]
    split
    case isTrue hmem =>
      exact Runs.strengthen (hrest context stagesCommitted) fun s _ h => ⟨h, h.2 _ hmem⟩
    case isFalse =>
      refine Yields.bind (yields_adapt (yields_carry (neutral_getRow _)
        (upward_isContext.and hcommitted))) fun current => ?_
      split
      · refine runs_pure fun s _ _ p heq => ?_
        cases heq
      · refine Yields.bind (yields_adapt ((yields_runStage _ _ stage context).frame hcommitted))
          fun result => ?_
        exact Runs.strengthen (hrest result _) fun s _ h => ⟨⟨h.1.1, h.2⟩, h.1.2⟩

theorem yields_finalize (hw : ∀ v, w.validator = some v → V v) (context : Job T) :
    Yields H V w (fun s => Owned s context.jobId context.tenantId ∧ Staged context.jobId s)
      (finalize w context) fun _ _ => True := by
  unfold finalize
  split
  case h_1 v hvalidator => exact yields_finalizeWithValidator (hw v hvalidator) context
  case h_2 => exact yields_neutral (neutral_act trivial)

theorem yields_body (hw : ∀ v, w.validator = some v → V v) (job : Job T)
    (committed : List PyStr) :
    Yields H V w (Resumes job committed job) (body w job committed) fun _ _ => True := by
  refine (yields_runStages job committed executionStages job []).bind fun ran => ?_
  cases ran with
  | inl report => exact runs_pure fun _ _ _ => trivial
  | inr p =>
    refine meets_of_known (q := p.1.jobId = job.jobId) (fun s _ h => (h p rfl).1.1) fun hid => ?_
    refine Yields.bind (J := fun _ _ => True) (yields_adapt (Runs.strengthen
      (yields_finalize hw p.1) ?_)) fun _ => runs_pure fun _ _ _ => trivial
    intro s _ h
    obtain ⟨hcontext, hstages⟩ := h p rfl
    rw [hid]
    exact ⟨hcontext.2, hstages⟩

/-! ## `run_once` -/

omit [Zero T] [Add T] in
theorem checkpoints_rows {s s' : Store T} {records : List (CheckpointRecord F T)}
    (h : JobStore.checkpoints F jobId s = .ok records s') :
    ∀ r ∈ records, r.row ∈ s.checkpoints.rows ∧ r.row.jobId = jobId := by
  have hread : ∀ (rows : List (Checkpoint T)) (records : List (CheckpointRecord F T))
      (s s' : Store T), rows.mapM readCheckpoint s = .ok records s' →
      ∀ r ∈ records, r.row ∈ rows := by
    intro rows
    induction rows with
    | nil =>
      intro records s s' h
      cases h
      exact fun r hr => by cases hr
    | cons c rows ih =>
      intro records s s' h
      rw [List.mapM_cons] at h
      obtain ⟨record, s₁, hfirst, h⟩ := bind_eq_ok.mp h
      obtain ⟨rest, s₂, hrest, h⟩ := bind_eq_ok.mp h
      cases h
      have hrow : record.row = c := by
        rw [readCheckpoint] at hfirst
        cases hload : loads (F := F) c.payload with
        | some j =>
          rw [hload] at hfirst
          cases hfirst
          rfl
        | none =>
          rw [hload] at hfirst
          cases hfirst
      intro r hr
      rcases List.mem_cons.mp hr with rfl | hr
      · exact hrow ▸ List.mem_cons_self
      · exact List.mem_cons_of_mem _ (ih rest _ _ hrest r hr)
  unfold JobStore.checkpoints at h
  simp only [bind_eq_ok, bindText_eq_ok, get_apply] at h
  obtain ⟨_, _, ⟨_, rfl⟩, _, _, hget, h⟩ := h
  cases hget
  intro r hr
  have hmem := (List.mem_insertionSort _).mp (hread _ _ _ _ h r hr)
  obtain ⟨hrow, hid⟩ := List.mem_filter.mp hmem
  exact ⟨hrow, by simpa using hid⟩

theorem yields_checkpoints {A : Site F T → Prop} (jobId : PyStr) :
    Yields H V w A (act (.store (.checkpoints jobId))) fun (rows : List (CheckpointRecord F T)) s =>
      ∀ key ∈ rows.map (·.row.checkpointKey), Kept s jobId key := by
  refine yields_act (fun _ => upward_forall fun _ => upward_imp fun _ => upward_kept)
    (fun s r s' hs _ h => sound_neutral hs h trivial) ?_
  intro s rows s' _ h key hkey
  obtain ⟨record, hrecord, rfl⟩ := List.mem_map.mp hkey
  refine upward_kept s s' (grows_performed h) ?_
  obtain ⟨_, r', hout, hr, _⟩ := h
  cases r' with
  | error e => cases hr
  | ok rows' =>
    cases hr
    obtain ⟨hrow, hid⟩ := checkpoints_rows (outcome_ok.mp hout) record hrecord
    exact ⟨record.row, hrow, hid, rfl⟩

theorem yields_runClaimed (hw : ∀ v, w.validator = some v → V v) (job : Job T) :
    Yields H V w (IsContext job.jobId job) (runClaimed w job) fun _ _ => True := by
  refine (yields_carry (neutral_act (by exact trivial)) upward_isContext).bind fun _ => ?_
  refine Yields.bind (Runs.strengthen
    ((yields_checkpoints (A := fun _ => True) job.jobId).frame upward_isContext)
    fun s _ h => ⟨trivial, h⟩) fun rows => ?_
  refine runs_handle (J := fun _ _ => True) (Runs.strengthen (yields_body hw job _) ?_) fun e => ?_
  · exact fun s _ h => ⟨h.2, h.1⟩
  · exact yields_neutral (neutral_recover w job e)

theorem yields_runOnce (hw : ∀ v, w.validator = some v → V v) :
    Yields H V w (fun _ => True) (runOnce w) fun _ _ => True := by
  refine yields_claim.bind fun claimed => ?_
  cases claimed with
  | none => exact runs_pure fun _ _ _ => trivial
  | some job => exact Runs.strengthen (yields_runClaimed hw job) fun s _ h => h job rfl

/-! ## The pool -/

omit [PyFloat F] [Add T] in
theorem only_once (w : ExecutionWorker F T) :
    Only (fun o : PoolOp F T => o.1 = w) (once w) := by
  have honly : ∀ p : Program (WorkerOp F T) (WorkerReply F T) (Ending F T),
      Only (fun _ => True) p := by
    intro p
    induction p with
    | done a => exact trivial
    | step o next ih => exact ⟨trivial, ih⟩
  exact (honly _).embed fun _ _ => rfl

theorem meets_once (w : ExecutionWorker F T) :
    Program.Meets (certified H V).perform (Interferes (certified H V)) (Sound H V)
      (fun _ _ => True) (once w) fun _ => True := by
  by_cases hw : ∀ v, w.validator = some v → V v
  · exact meets_embed (fun s o r s' h => h.2)
      (Program.Meets.weaken (yields_runOnce hw) fun _ _ _ _ => trivial)
  · -- none of its operations is performed
    refine meets_of_only ?_ (only_once w)
    rintro s o r s' _ rfl ⟨hcertified, _⟩
    exact absurd hcertified hw

theorem sound_reached {ledger : PyStr → PyStr → PyBytes} {clock : T} {sys : Pool F T}
    (h : Reaches (pool H) (Asks fun _ o => ∀ v, o.1.validator = some v → V v)
      (System.idle ⟨⟨Store.empty, ledger⟩, clock⟩) sys) : Sound H V sys.state := by
  have hrun : Reaches (certified H V) Unguarded (System.idle ⟨⟨Store.empty, ledger⟩, clock⟩) sys :=
    reaches_restrict h
  exact (sound meets_once stable_const (fun _ _ hs h => sound_operated hs h)
    (sound_empty ledger clock) trivial hrun).1.1

/-- The validators of the workers in the pool. -/
def Validators (sys : Pool F T) (v : EvidenceValidator F) : Prop :=
  ∃ p ∈ sys.processes, p.call.validator = some v

theorem sound_pool {ledger : PyStr → PyStr → PyBytes} {clock : T} {sys : Pool F T}
    (h : Reaches (pool H) Unguarded (System.idle ⟨⟨Store.empty, ledger⟩, clock⟩) sys) :
    Sound H (Validators sys) sys.state := by
  refine sound_reached (reaches_mono ?_ (reaches_among only_once h))
  intro s p hasks
  rw [Asks] at hasks ⊢
  split
  · trivial
  case h_2 o next heq =>
    rw [heq] at hasks
    obtain ⟨q, hq, hcall⟩ := hasks
    exact fun v hv => ⟨q, hq, hcall ▸ hv⟩

/-- In every run of any number of workers, with crashes, lost leases and operators, a job that is
being validated or has succeeded has a checkpoint for each stage, and a validator of the pool
found nothing in a first part of the ledger that the job still has. -/
theorem success_evidenced (H : Host) (ledger : PyStr → PyStr → PyBytes) (clock : T)
    (sys : Pool F T)
    (h : Reaches (pool H) Unguarded (System.idle ⟨⟨Store.empty, ledger⟩, clock⟩) sys)
    (jobId : PyStr) (row : Job T) (hrow : sys.state.world.store.job jobId = some row)
    (hstatus : row.status = .validating ∨ row.status = .succeeded) :
    Evidence H (Validators sys) sys.state row.tenantId jobId :=
  (sound_pool h).evidenced jobId row hrow hstatus

theorem success_evidenced_stopped : ∃ row : Job ℕ,
    Recoverability.stopped.state.world.store.job (py "job") = some row ∧
      Evidence sampleHost (Validators Recoverability.stopped) Recoverability.stopped.state
        row.tenantId (py "job") := by
  obtain ⟨row, hrow, hstatus⟩ := Recoverability.stopped_job
  exact ⟨row, hrow, success_evidenced sampleHost (fun _ _ => []) 0 Recoverability.stopped
    Recoverability.stopped_reached (py "job") row hrow (.inl hstatus)⟩

/-- In every run each checkpoint row names the length and the head hash of a first part of the
ledger that verifies and that the job still has. -/
theorem checkpoints_stamped (H : Host) (ledger : PyStr → PyStr → PyBytes) (clock : T)
    (sys : Pool F T)
    (h : Reaches (pool H) Unguarded (System.idle ⟨⟨Store.empty, ledger⟩, clock⟩) sys)
    (c : Checkpoint T) (hc : c ∈ sys.state.world.store.checkpoints.rows) :
    ∃ tenantId payload recorded, Stamps H sys.state c tenantId payload recorded :=
  (sound_pool h).checkpointed c hc

theorem checkpoints_stamped_stopped :
    ∃ c ∈ Recoverability.stopped.state.world.store.checkpoints.rows,
      ∃ tenantId payload recorded, Stamps (F := NonFinite) sampleHost Recoverability.stopped.state c
        tenantId payload recorded := by
  have hrows : Recoverability.stopped.state.world.store.checkpoints.rows ≠ [] := by decide +kernel
  obtain ⟨c, hc⟩ := List.exists_mem_of_ne_nil _ hrows
  exact ⟨c, hc, checkpoints_stamped sampleHost (fun _ _ => []) 0 Recoverability.stopped
    Recoverability.stopped_reached c hc⟩

end EvidenceSuccess
