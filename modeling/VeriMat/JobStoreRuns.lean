import VeriMat.JobStoreCalls

/-! # Runs of the job store

The calls any number of connections make, in the order their transactions commit. A call that
raises changes nothing; a call that returns has committed what its structure in
`JobStoreCalls` says, or has changed nothing either. -/
namespace JobStoreRuns

open PyText PyValue JsonText Events KeyedTable Transaction JobStore JobStoreCalls

/-! ## Reads -/

section Reads
variable {T : Type}

theorem readOnly_getJob (jobId : PyStr) (tenantId : Option PyStr) :
    ReadOnly (getJob jobId tenantId : Db T (Job T)) := by
  cases tenantId with
  | none =>
    exact (readOnly_raiseIf _ _).bind fun _ => readOnly_get.bind fun _ => readOnly_orRaise _ _
  | some tenant =>
    exact (readOnly_raiseIf _ _).bind fun _ => (readOnly_raiseIf _ _).bind fun _ =>
      readOnly_get.bind fun _ => readOnly_orRaise _ _

theorem readOnly_checkpoints {F : Type} [PyFloat F] [LinearOrder T] (jobId : PyStr) :
    ReadOnly (checkpoints F jobId : Db T (List (CheckpointRecord F T))) := by
  refine (readOnly_raiseIf _ _).bind fun _ => readOnly_get.bind fun s => readOnly_mapM ?_ _
  intro row
  unfold readCheckpoint
  split
  · exact readOnly_pure _
  · exact readOnly_throw _

theorem readOnly_runnableJobIds [LinearOrder T] (limit : ℤ) (now : T) :
    ReadOnly (runnableJobIds limit now : Db T (List PyStr)) := by
  unfold runnableJobIds
  split
  · exact readOnly_pure _
  · exact (readOnly_raiseIf _ _).bind fun _ => readOnly_get.bind fun _ => readOnly_pure _

end Reads

/-! ## Calls -/

inductive Call (F T : Type) where
  | createJob (a : NewJob) (uuid : PyStr) (now : T)
  | acquireLease (jobId workerId : PyStr) (leaseSeconds now : T)
  | heartbeat (jobId workerId : PyStr) (leaseSeconds now : T)
  | saveCheckpoint (jobId workerId : PyStr) (stage : Stage) (checkpointKey : PyStr)
      (payload : PyVal F) (now : T)
  | charge (jobId : PyStr) (c : Charge) (now : T)
  | transition (jobId : PyStr) (t : Transition) (now : T)
  | get (jobId : PyStr) (tenantId : Option PyStr)
  | checkpoints (jobId : PyStr)
  | runnableJobIds (limit : ℤ) (now : T)

/-- The job whose row a call writes. -/
def Call.writes {F T : Type} : Call F T → Option PyStr
  | .acquireLease jobId _ _ _ | .heartbeat jobId _ _ _ | .saveCheckpoint jobId _ _ _ _ _
  | .charge jobId _ _ | .transition jobId _ _ => some jobId
  | .createJob _ _ _ | .get _ _ | .checkpoints _ | .runnableJobIds _ _ => none

/-- A call that may return without a commit: a read, or one made before. -/
def Call.repeatable {F T : Type} : Call F T → Bool
  | .createJob _ _ _ | .charge _ _ _ | .get _ _ | .checkpoints _ | .runnableJobIds _ _ => true
  | .acquireLease _ _ _ _ | .heartbeat _ _ _ _ | .saveCheckpoint _ _ _ _ _ _
  | .transition _ _ _ => false

variable {F T : Type} [PyFloat F] [LinearOrder T] [Add T]

/-- What a call commits when it changes the store. -/
def Commits : Call F T → Store T → Store T → Prop
  | .createJob a uuid now, s, s' =>
    (0 ≤ a.maxCalls ∧ 0 ≤ a.maxTokens ∧ 0 ≤ a.maxCostMicrounits) ∧
      Created s a (orElse a.jobId uuid) now s'
  | .acquireLease jobId workerId leaseSeconds now, s, s' =>
    isBlank workerId = false ∧ ∃ row, Leased s jobId workerId leaseSeconds now row s'
  | .heartbeat jobId workerId leaseSeconds now, s, s' =>
    ∃ row, Renewed s jobId workerId leaseSeconds now row s'
  | .saveCheckpoint jobId workerId stage checkpointKey payload now, s, s' =>
    ∃ rendered, renderPayload payload = .ok rendered ∧
      ∃ row, Checkpointed s jobId workerId stage checkpointKey rendered now row s'
  | .charge jobId c now, s, s' =>
    (0 ≤ c.calls ∧ 0 ≤ c.tokens ∧ 0 ≤ c.costMicrounits) ∧ ∃ row, Charged s jobId c now row s'
  | .transition jobId t now, s, s' => ∃ row, Moved s jobId t now row s'
  | .get _ _, _, _ | .checkpoints _, _, _ | .runnableJobIds _ _, _, _ => False

/-! ## Rows -/

/-- What a commit does to a row that it changes. -/
inductive RowStep : Call F T → Job T → Job T → Prop where
  | leased {j : Job T} {workerId : PyStr} {leaseSeconds now : T} (worker : isBlank workerId = false)
      (runnable : j.status ∉ terminal ∧ j.status ≠ .validating)
      (free : heldByOther j workerId now = none) :
      RowStep (.acquireLease j.jobId workerId leaseSeconds now) j (j.lease workerId leaseSeconds now)
  | renewed {j : Job T} {workerId : PyStr} {leaseSeconds now expiry : T}
      (owner : j.leaseOwner = some workerId) (running : j.status = .running)
      (live : j.leaseExpiresAt = some expiry ∧ now ≤ expiry) :
      RowStep (.heartbeat j.jobId workerId leaseSeconds now) j (j.renew leaseSeconds now)
  | advanced {j : Job T} {workerId : PyStr} {stage : Stage} {checkpointKey : PyStr}
      {payload : PyVal F} {now expiry : T} (owner : j.leaseOwner = some workerId)
      (running : j.status = .running) (live : j.leaseExpiresAt = some expiry ∧ now ≤ expiry)
      (forward : j.stage.order ≤ stage.order) :
      RowStep (.saveCheckpoint j.jobId workerId stage checkpointKey payload now) j
        (j.advance stage now)
  | charged {j : Job T} {c : Charge} {now : T}
      (usage : 0 ≤ c.calls ∧ 0 ≤ c.tokens ∧ 0 ≤ c.costMicrounits) (budgets : c.exceeded j = []) :
      RowStep (.charge j.jobId c now) j (j.charged c now)
  | moved {j : Job T} {t : Transition} {now : T} (allowed : t.target ∈ allowedStatus j.status)
      (validated : t.target = .succeeded → j.stage = .validate) :
      RowStep (.transition j.jobId t now) j (j.moved t now)

theorem Commits.row {c : Call F T} {s s' : Store T} (h : Commits c s s') {jobId : PyStr}
    {j : Job T} (hj : s.job jobId = some j) :
    (s'.job jobId = some j ∧ c.writes ≠ some jobId) ∨
      ∃ j', s'.job jobId = some j' ∧ RowStep c j j' := by
  obtain rfl : j.jobId = jobId := (mem_of_job hj).2
  cases c with
  | createJob a uuid now =>
    left
    rw [h.2.job, hj]
    exact ⟨rfl, by simp [Call.writes]⟩
  | acquireLease id workerId leaseSeconds now =>
    obtain ⟨hw, row, h⟩ := h
    rw [h.store, job_setJob]
    by_cases heq : j.jobId = id
    · subst heq
      cases h.found.symm.trans hj
      exact Or.inr ⟨j.lease workerId leaseSeconds now, by simp [hj], .leased hw h.runnable h.free⟩
    · exact Or.inl ⟨by simpa [heq] using hj, by simp [Call.writes, Ne.symm heq]⟩
  | heartbeat id workerId leaseSeconds now =>
    obtain ⟨row, h⟩ := h
    rw [h.store, job_setJob]
    by_cases heq : j.jobId = id
    · subst heq
      cases h.found.symm.trans hj
      obtain ⟨expiry, hlive⟩ := h.live
      exact Or.inr ⟨j.renew leaseSeconds now, by simp [hj], .renewed h.owner h.running hlive⟩
    · exact Or.inl ⟨by simpa [heq] using hj, by simp [Call.writes, Ne.symm heq]⟩
  | saveCheckpoint id workerId stage checkpointKey payload now =>
    obtain ⟨rendered, _, row, h⟩ := h
    obtain ⟨s₁, hwritten, hstore⟩ := h.written
    have hj₁ : s₁.job j.jobId = some j := by
      rw [Store.job, hwritten.rest.1]
      exact hj
    rw [hstore, job_setJob]
    by_cases heq : j.jobId = id
    · subst heq
      cases h.found.symm.trans hj
      obtain ⟨expiry, hlive⟩ := h.live
      exact Or.inr ⟨j.advance stage now, by simp [hj₁],
        .advanced h.owner h.running hlive h.forward⟩
    · exact Or.inl ⟨by simpa [heq] using hj₁, by simp [Call.writes, Ne.symm heq]⟩
  | charge id c now =>
    obtain ⟨hc, row, h⟩ := h
    obtain ⟨t, _, hstore⟩ := h.inserted
    have hj₁ : Store.job { s with usageLedger := t } j.jobId = some j := hj
    rw [hstore, job_setJob]
    by_cases heq : j.jobId = id
    · subst heq
      cases h.found.symm.trans hj
      exact Or.inr ⟨j.charged c now, by simp [hj₁], .charged hc h.budgets⟩
    · exact Or.inl ⟨by simpa [heq] using hj₁, by simp [Call.writes, Ne.symm heq]⟩
  | transition id t now =>
    obtain ⟨row, h⟩ := h
    rw [h.store, job_setJob]
    by_cases heq : j.jobId = id
    · subst heq
      cases h.found.symm.trans hj
      exact Or.inr ⟨j.moved t now, by simp [hj], .moved h.allowed h.validated⟩
    · exact Or.inl ⟨by simpa [heq] using hj, by simp [Call.writes, Ne.symm heq]⟩
  | get _ _ | checkpoints _ | runnableJobIds _ _ => exact h.elim

/-- A row that appears is a new job's. -/
theorem Commits.newRow {c : Call F T} {s s' : Store T} (h : Commits c s s') {jobId : PyStr}
    {j : Job T} (hnone : s.job jobId = none) (hj : s'.job jobId = some j) :
    ∃ a uuid now, c = .createJob a uuid now ∧ j = a.row jobId now ∧
      (0 ≤ a.maxCalls ∧ 0 ≤ a.maxTokens ∧ 0 ≤ a.maxCostMicrounits) := by
  cases c with
  | createJob a uuid now =>
    rw [h.2.job, hnone] at hj
    by_cases hid : orElse a.jobId uuid = jobId
    · simp only [hid, if_true, Option.none_or, Option.some.injEq] at hj
      exact ⟨a, uuid, now, rfl, hj.symm, h.1⟩
    · simp [hid] at hj
  | acquireLease id workerId leaseSeconds now =>
    obtain ⟨_, row, h⟩ := h
    rw [h.store, job_setJob, hnone] at hj
    simp at hj
  | heartbeat id workerId leaseSeconds now =>
    obtain ⟨row, h⟩ := h
    rw [h.store, job_setJob, hnone] at hj
    simp at hj
  | saveCheckpoint id workerId stage checkpointKey payload now =>
    obtain ⟨rendered, _, row, h⟩ := h
    obtain ⟨s₁, hwritten, hstore⟩ := h.written
    have hnone₁ : s₁.job jobId = none := by
      rw [Store.job, hwritten.rest.1]
      exact hnone
    rw [hstore, job_setJob, hnone₁] at hj
    simp at hj
  | charge id c now =>
    obtain ⟨_, row, h⟩ := h
    obtain ⟨t, _, hstore⟩ := h.inserted
    have hnone₁ : Store.job { s with usageLedger := t } jobId = none := hnone
    rw [hstore, job_setJob, hnone₁] at hj
    simp at hj
  | transition id t now =>
    obtain ⟨row, h⟩ := h
    rw [h.store, job_setJob, hnone] at hj
    simp at hj
  | get _ _ | checkpoints _ | runnableJobIds _ _ => exact h.elim

/-! ## Runs -/

variable [Zero T]

/-- The method a call is of, its result dropped. -/
def Call.run : Call F T → Db T Unit
  | .createJob a uuid now => do let _ ← JobStore.createJob a uuid now
  | .acquireLease jobId workerId leaseSeconds now => do
    let _ ← JobStore.acquireLease jobId workerId leaseSeconds now
  | .heartbeat jobId workerId leaseSeconds now => do
    let _ ← JobStore.heartbeat jobId workerId leaseSeconds now
  | .saveCheckpoint jobId workerId stage checkpointKey payload now => do
    let _ ← JobStore.saveCheckpoint jobId workerId stage checkpointKey payload now
  | .charge jobId c now => do let _ ← JobStore.charge jobId c now
  | .transition jobId t now => do let _ ← JobStore.transition jobId t now
  | .get jobId tenantId => do let _ ← getJob jobId tenantId
  | .checkpoints jobId => do let _ ← JobStore.checkpoints F jobId
  | .runnableJobIds limit now => do let _ ← JobStore.runnableJobIds limit now

/-- A call that raises leaves the store as it was. -/
theorem run_error {c : Call F T} {s s' : Store T} {e : StoreError T}
    (h : c.run s = .error e s') : s' = s := by
  cases c with
  | createJob a uuid now =>
    rcases bind_eq_error.mp h with h | ⟨_, _, _, h⟩
    · exact createJob_error h
    · cases h
  | acquireLease jobId workerId leaseSeconds now =>
    rcases bind_eq_error.mp h with h | ⟨_, _, _, h⟩
    · exact acquireLease_error h
    · cases h
  | heartbeat jobId workerId leaseSeconds now =>
    rcases bind_eq_error.mp h with h | ⟨_, _, _, h⟩
    · exact heartbeat_error h
    · cases h
  | saveCheckpoint jobId workerId stage checkpointKey payload now =>
    rcases bind_eq_error.mp h with h | ⟨_, _, _, h⟩
    · exact saveCheckpoint_error h
    · cases h
  | charge jobId c now =>
    rcases bind_eq_error.mp h with h | ⟨_, _, _, h⟩
    · exact charge_error h
    · cases h
  | transition jobId t now =>
    rcases bind_eq_error.mp h with h | ⟨_, _, _, h⟩
    · exact transition_error h
    · cases h
  | get jobId tenantId =>
    rcases bind_eq_error.mp h with h | ⟨_, _, _, h⟩
    · exact (readOnly_getJob _ _ _).2 _ _ h
    · cases h
  | checkpoints jobId =>
    rcases bind_eq_error.mp h with h | ⟨_, _, _, h⟩
    · exact (readOnly_checkpoints _ _).2 _ _ h
    · cases h
  | runnableJobIds limit now =>
    rcases bind_eq_error.mp h with h | ⟨_, _, _, h⟩
    · exact (readOnly_runnableJobIds _ _ _).2 _ _ h
    · cases h

/-- A call that returns has committed what it is for, or has changed nothing. -/
theorem run_ok {c : Call F T} {s s' : Store T} (h : c.run s = .ok () s') :
    (s' = s ∧ c.repeatable = true) ∨ Commits c s s' := by
  cases c with
  | createJob a uuid now =>
    obtain ⟨_, s₁, h₁, h₂⟩ := bind_eq_ok.mp h
    rw [(pure_eq_ok.mp h₂).2]
    obtain ⟨_, hb, ⟨_, hs⟩ | ⟨hnew, _⟩⟩ := createJob_eq_ok.mp h₁
    · exact Or.inl ⟨hs, rfl⟩
    · exact Or.inr ⟨hb, hnew⟩
  | acquireLease jobId workerId leaseSeconds now =>
    obtain ⟨_, s₁, h₁, h₂⟩ := bind_eq_ok.mp h
    rw [(pure_eq_ok.mp h₂).2]
    obtain ⟨hw, _, row, hrow, _⟩ := acquireLease_eq_ok.mp h₁
    exact Or.inr ⟨hw, row, hrow⟩
  | heartbeat jobId workerId leaseSeconds now =>
    obtain ⟨_, s₁, h₁, h₂⟩ := bind_eq_ok.mp h
    rw [(pure_eq_ok.mp h₂).2]
    obtain ⟨_, row, hrow, _⟩ := heartbeat_eq_ok.mp h₁
    exact Or.inr ⟨row, hrow⟩
  | saveCheckpoint jobId workerId stage checkpointKey payload now =>
    obtain ⟨_, s₁, h₁, h₂⟩ := bind_eq_ok.mp h
    rw [(pure_eq_ok.mp h₂).2]
    obtain ⟨rendered, hp, row, hrow, _⟩ := saveCheckpoint_eq_ok.mp h₁
    exact Or.inr ⟨rendered, hp, row, hrow⟩
  | charge jobId c now =>
    obtain ⟨_, s₁, h₁, h₂⟩ := bind_eq_ok.mp h
    rw [(pure_eq_ok.mp h₂).2]
    obtain ⟨hc, ⟨_, hs⟩ | ⟨row, hrow, _⟩⟩ := charge_eq_ok.mp h₁
    · exact Or.inl ⟨hs, rfl⟩
    · exact Or.inr ⟨hc, row, hrow⟩
  | transition jobId t now =>
    obtain ⟨_, s₁, h₁, h₂⟩ := bind_eq_ok.mp h
    rw [(pure_eq_ok.mp h₂).2]
    obtain ⟨row, hrow, _⟩ := transition_eq_ok.mp h₁
    exact Or.inr ⟨row, hrow⟩
  | get jobId tenantId =>
    obtain ⟨_, s₁, h₁, h₂⟩ := bind_eq_ok.mp h
    exact Or.inl ⟨(pure_eq_ok.mp h₂).2.trans ((readOnly_getJob _ _ _).1 _ _ h₁), rfl⟩
  | checkpoints jobId =>
    obtain ⟨_, s₁, h₁, h₂⟩ := bind_eq_ok.mp h
    exact Or.inl ⟨(pure_eq_ok.mp h₂).2.trans ((readOnly_checkpoints _ _).1 _ _ h₁), rfl⟩
  | runnableJobIds limit now =>
    obtain ⟨_, s₁, h₁, h₂⟩ := bind_eq_ok.mp h
    exact Or.inl ⟨(pure_eq_ok.mp h₂).2.trans ((readOnly_runnableJobIds _ _ _).1 _ _ h₁), rfl⟩

/-- A call and whether it returned. -/
structure Event (F T : Type) where
  call : Call F T
  returned : Bool

/-- One call, from the store it finds to the store it leaves. -/
def Step (s : Store T) (e : Event F T) (s' : Store T) : Prop :=
  if e.returned then e.call.run s = .ok () s' else ∃ x, e.call.run s = .error x s'

theorem Step.cases {s s' : Store T} {e : Event F T} (h : Step s e s') :
    (s' = s ∧ (e.returned = false ∨ e.call.repeatable = true)) ∨
      (e.returned = true ∧ Commits e.call s s') := by
  unfold Step at h
  by_cases hr : e.returned = true
  · simp only [hr, if_true] at h
    rcases run_ok h with ⟨hs, hrep⟩ | hc
    · exact Or.inl ⟨hs, Or.inr hrep⟩
    · exact Or.inr ⟨hr, hc⟩
  · simp only [hr] at h
    obtain ⟨x, h⟩ := h
    exact Or.inl ⟨run_error h, Or.inl (by simpa using hr)⟩

inductive Execution (s : Store T) : List (Event F T) → Store T → Prop where
  | refl : Execution s [] s
  | tail {u v : Store T} {es : List (Event F T)} {e : Event F T} :
      Execution s es u → Step u e v → Execution s (es ++ [e]) v

/-- The event a call makes of a store, and the store it leaves. -/
def next (s : Store T) (c : Call F T) : Event F T × Store T :=
  match c.run s with
  | .ok _ s' => (⟨c, true⟩, s')
  | .error _ s' => (⟨c, false⟩, s')

/-- The calls one after the other. -/
def play (s : Store T) : List (Call F T) → List (Event F T) × Store T
  | [] => ([], s)
  | c :: cs => ((next s c).1 :: (play (next s c).2 cs).1, (play (next s c).2 cs).2)

/-- A store some run from a new database leaves. -/
def Reachable (F : Type) [PyFloat F] (s : Store T) : Prop :=
  ∃ es : List (Event F T), Execution Store.empty es s

theorem Execution.append {s u v : Store T} {es es' : List (Event F T)} (h : Execution s es u)
    (k : Execution u es' v) : Execution s (es ++ es') v := by
  induction k with
  | refl => simpa using h
  | tail k hstep ih =>
    rw [← List.append_assoc]
    exact ih.tail hstep

theorem next_step (s : Store T) (c : Call F T) : Step s (next s c).1 (next s c).2 := by
  unfold next Step
  cases h : c.run s with
  | ok u s' => simpa using h
  | error e s' => simpa using ⟨e, h⟩

theorem next_call (s : Store T) (c : Call F T) : (next s c).1.call = c := by
  unfold next
  cases c.run s <;> rfl

/-- Every sequence of calls has a run. -/
theorem play_execution (s : Store T) (cs : List (Call F T)) :
    Execution s (play s cs).1 (play s cs).2 := by
  induction cs generalizing s with
  | nil => exact .refl
  | cons c cs ih =>
    have hfirst : Execution s [(next s c).1] (next s c).2 := Execution.refl.tail (next_step s c)
    exact hfirst.append (ih (next s c).2)

theorem Reachable.after {s v : Store T} (h : Reachable F s) {es : List (Event F T)}
    (k : Execution s es v) : Reachable F v := by
  obtain ⟨es', h⟩ := h
  exact ⟨es' ++ es, h.append k⟩

theorem Execution.snoc_inv {s v : Store T} {es : List (Event F T)} {e : Event F T}
    (h : Execution s (es ++ [e]) v) : ∃ u, Execution s es u ∧ Step u e v := by
  generalize hes : es ++ [e] = es' at h
  cases h with
  | refl => exact absurd hes (by simp)
  | tail h hstep =>
    obtain ⟨rfl, he⟩ := List.append_inj' hes rfl
    cases he
    exact ⟨_, h, hstep⟩

theorem Execution.single_inv {s v : Store T} {e : Event F T} (h : Execution s [e] v) :
    Step s e v := by
  rw [← List.nil_append [e]] at h
  obtain ⟨u, hu, hstep⟩ := h.snoc_inv
  generalize hnil : ([] : List (Event F T)) = es at hu
  cases hu with
  | refl => exact hstep
  | tail => exact absurd hnil (by simp)

theorem Execution.split {s v : Store T} {es es' : List (Event F T)}
    (h : Execution s (es ++ es') v) : ∃ u, Execution s es u ∧ Execution u es' v := by
  induction es' using List.reverseRecOn generalizing v with
  | nil => exact ⟨v, by simpa using h, .refl⟩
  | append_singleton es' e ih =>
    rw [← List.append_assoc] at h
    obtain ⟨w, hw, hstep⟩ := h.snoc_inv
    obtain ⟨u, hu, hrest⟩ := ih hw
    exact ⟨u, hu, hrest.tail hstep⟩

/-- What every commit keeps holds of every reachable store. -/
theorem Reachable.invariant {I : Store T → Prop} (hinit : I Store.empty)
    (hstep : ∀ s s' (c : Call F T), I s → Commits c s s' → I s') {s : Store T}
    (h : Reachable F s) : I s := by
  obtain ⟨es, h⟩ := h
  induction h with
  | refl => exact hinit
  | tail h hs ih =>
    rcases hs.cases with ⟨heq, _⟩ | ⟨_, hc⟩
    · exact heq ▸ ih
    · exact hstep _ _ _ ih hc

/-- A row is never lost, and a run takes it through row steps. -/
theorem Execution.row {s s' : Store T} {es : List (Event F T)} (h : Execution s es s')
    {jobId : PyStr} {j : Job T} (hj : s.job jobId = some j) :
    ∃ j', s'.job jobId = some j' ∧
      Relation.ReflTransGen (fun a b => ∃ c : Call F T, RowStep c a b) j j' := by
  induction h with
  | refl => exact ⟨j, hj, .refl⟩
  | tail h hstep ih =>
    obtain ⟨a, ha, hrun⟩ := ih
    rcases hstep.cases with ⟨heq, _⟩ | ⟨_, hc⟩
    · exact ⟨a, heq ▸ ha, hrun⟩
    · rcases hc.row ha with ⟨hsame, _⟩ | ⟨b, hb, hab⟩
      · exact ⟨a, hsame, hrun⟩
      · exact ⟨b, hb, hrun.tail ⟨_, hab⟩⟩

end JobStoreRuns
