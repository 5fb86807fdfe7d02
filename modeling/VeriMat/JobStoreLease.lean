import VeriMat.JobStoreRuns

/-! # Leases

Who holds the lease of a job is a fold over the calls that returned: the last acquisition not
followed by a release. The row says the same, and its expiry is the last one set. -/
namespace JobStoreLease

open PyText PyValue JsonText Events KeyedTable JobStore JobStoreCalls JobStoreRuns Transaction

variable {F T : Type}

/-- The worker whose acquisition of the job an event is. -/
def acquirer (jobId : PyStr) (e : Event F T) : Option PyStr :=
  match e.call with
  | .acquireLease id workerId _ _ =>
    if e.returned = true ∧ id = jobId then some workerId else none
  | _ => none

/-- The worker whose acquisition or renewal an event is, and the expiry it sets. -/
def sets [Add T] (jobId : PyStr) (e : Event F T) : Option (PyStr × T) :=
  match e.call with
  | .acquireLease id workerId leaseSeconds now | .heartbeat id workerId leaseSeconds now =>
    if e.returned = true ∧ id = jobId then some (workerId, now + leaseSeconds) else none
  | _ => none

/-- The event is a transition that releases the lease of the job. -/
def releases (jobId : PyStr) (e : Event F T) : Bool :=
  match e.call with
  | .transition id t _ => e.returned && id == jobId && t.releaseLease
  | _ => false

/-- The instant a call was given. -/
def callTime : Call F T → Option T
  | .createJob _ _ now | .acquireLease _ _ _ now | .heartbeat _ _ _ now
  | .saveCheckpoint _ _ _ _ _ now | .charge _ _ now | .transition _ _ now
  | .runnableJobIds _ now => some now
  | .get _ _ | .checkpoints _ => none

/-- The holder of the lease after an event. -/
def ownerAfter (jobId : PyStr) (owner : Option PyStr) (e : Event F T) : Option PyStr :=
  if releases jobId e then none else (acquirer jobId e).or owner

def holder (jobId : PyStr) (es : List (Event F T)) : Option PyStr :=
  es.foldl (ownerAfter jobId) none

/-- The last acquisition is behind every release. -/
theorem holder_eq_some {jobId workerId : PyStr} {es : List (Event F T)}
    (h : holder jobId es = some workerId) :
    ∃ before e after, es = before ++ e :: after ∧ acquirer jobId e = some workerId ∧
      ∀ x ∈ after, acquirer jobId x = none ∧ releases jobId x = false := by
  induction es using List.reverseRecOn with
  | nil => cases h
  | append_singleton es e ih =>
    simp only [holder, List.foldl_append, List.foldl_cons, List.foldl_nil] at h
    unfold ownerAfter at h
    by_cases hr : releases jobId e = true
    · simp [hr] at h
    · rw [if_neg hr] at h
      cases ha : acquirer jobId e with
      | some w =>
        rw [ha, Option.some_or] at h
        exact ⟨es, e, [], rfl, ha.trans h, by simp⟩
      | none =>
        rw [ha, Option.none_or] at h
        obtain ⟨before, x, after, rfl, hx, hafter⟩ := ih h
        refine ⟨before, x, after ++ [e], by simp, hx, ?_⟩
        intro y hy
        rcases List.mem_append.mp hy with hy | hy
        · exact hafter y hy
        · rw [List.mem_singleton.mp hy]
          exact ⟨ha, by simpa using hr⟩

variable [LinearOrder T] [Add T]

/-! ## The holder of a row -/

theorem step_owner {c : Call F T} {j j' : Job T} (h : RowStep c j j') :
    j'.leaseOwner = ownerAfter j.jobId j.leaseOwner ⟨c, true⟩ := by
  cases h with
  | leased worker runnable free => simp [ownerAfter, releases, acquirer, Job.lease]
  | renewed owner running live => simp [ownerAfter, releases, acquirer, Job.renew]
  | advanced owner running live forward =>
    simp [ownerAfter, releases, acquirer, Job.advance]
  | charged usage budgets => simp [ownerAfter, releases, acquirer, Job.charged]
  | moved allowed validated =>
    rename_i t now
    by_cases hr : t.releaseLease = true
    · simp [ownerAfter, releases, Job.moved, hr]
    · simp [ownerAfter, releases, acquirer, Job.moved, hr]

omit [LinearOrder T] [Add T] in
/-- An event that does not write the row, or that raised, neither takes nor releases its lease. -/
theorem idle_event {jobId : PyStr} {e : Event F T}
    (h : e.returned = false ∨ e.call.repeatable = true ∨ e.call.writes ≠ some jobId) :
    releases jobId e = false ∧ acquirer jobId e = none := by
  obtain ⟨c, returned⟩ := e
  cases c with
  | acquireLease id workerId leaseSeconds now =>
    have hidle : ¬ (returned = true ∧ id = jobId) := by
      rintro ⟨rfl, rfl⟩
      simp [Call.repeatable, Call.writes] at h
    simp [releases, acquirer, hidle]
  | transition id t now =>
    have hidle : ¬ (returned = true ∧ id = jobId) := by
      rintro ⟨rfl, rfl⟩
      simp [Call.repeatable, Call.writes] at h
    simp only [releases, acquirer, and_true]
    by_contra hr
    simp only [Bool.not_eq_false, Bool.and_eq_true, beq_iff_eq] at hr
    exact hidle hr.1
  | _ => simp [releases, acquirer]

omit [LinearOrder T] [Add T] in
theorem ownerAfter_idle {jobId : PyStr} {owner : Option PyStr} {e : Event F T}
    (h : e.returned = false ∨ e.call.repeatable = true ∨ e.call.writes ≠ some jobId) :
    ownerAfter jobId owner e = owner := by
  obtain ⟨hr, ha⟩ := idle_event h
  simp [ownerAfter, hr, ha]

variable [PyFloat F]

/-- A new row has no holder, and no call that returned has taken its lease before. -/
theorem newRow_idle {c : Call F T} {s s' : Store T} (h : Commits c s s') {jobId : PyStr}
    (hnone : s.job jobId = none) : c.repeatable = true ∨ c.writes ≠ some jobId := by
  cases c with
  | createJob | charge | get | checkpoints | runnableJobIds => exact Or.inl rfl
  | acquireLease id workerId leaseSeconds now =>
    obtain ⟨_, row, h⟩ := h
    right
    intro heq
    rw [← Option.some.inj heq, h.found] at hnone
    cases hnone
  | heartbeat id workerId leaseSeconds now =>
    obtain ⟨row, h⟩ := h
    right
    intro heq
    rw [← Option.some.inj heq, h.found] at hnone
    cases hnone
  | saveCheckpoint id workerId stage checkpointKey payload now =>
    obtain ⟨rendered, _, row, h⟩ := h
    right
    intro heq
    rw [← Option.some.inj heq, h.found] at hnone
    cases hnone
  | transition id t now =>
    obtain ⟨row, h⟩ := h
    right
    intro heq
    rw [← Option.some.inj heq, h.found] at hnone
    cases hnone

variable [Zero T]

/-- After any run the row's owner is the holder of the history. -/
theorem owner_eq_holder {s : Store T} {es : List (Event F T)} (h : Execution Store.empty es s)
    (jobId : PyStr) : (s.job jobId).bind Job.leaseOwner = holder jobId es := by
  induction h with
  | refl => rfl
  | @tail u v es e h hstep ih =>
    simp only [holder, List.foldl_append, List.foldl_cons, List.foldl_nil]
    change _ = ownerAfter jobId (holder jobId es) e
    rw [← ih]
    rcases hstep.cases with ⟨rfl, hidle⟩ | ⟨hret, hc⟩
    · rw [ownerAfter_idle]
      rcases hidle with hidle | hidle
      · exact Or.inl hidle
      · exact Or.inr (Or.inl hidle)
    · cases hj : u.job jobId with
      | none =>
        rw [ownerAfter_idle (Or.inr (newRow_idle hc hj))]
        cases hj' : v.job jobId with
        | none => rfl
        | some j =>
          obtain ⟨a, uuid, now, _, rfl, _⟩ := hc.newRow hj hj'
          rfl
      | some j =>
        rcases hc.row hj with ⟨hsame, hwrites⟩ | ⟨j', hj', hrow⟩
        · rw [hsame, ownerAfter_idle (Or.inr (Or.inr hwrites))]
        · have he : (⟨e.call, true⟩ : Event F T) = e := by rw [← hret]
          rw [hj', Option.bind_some, Option.bind_some, step_owner hrow, (mem_of_job hj).2, he]

/-! ## A lease that has not run out -/

/-- The row is leased to the worker until the expiry. -/
structure LeasedTo (s : Store T) (jobId workerId : PyStr) (expiry : T) (j : Job T) : Prop where
  found : s.job jobId = some j
  bound : (encode jobId).isSome = true
  worker : workerId ≠ []
  owner : j.leaseOwner = some workerId
  expires : j.leaseExpiresAt = some expiry

omit [PyFloat F] [Add T] [Zero T] in
theorem LeasedTo.held {s : Store T} {jobId workerId : PyStr} {expiry : T} {j : Job T}
    (h : LeasedTo s jobId workerId expiry j) {other : PyStr} (hne : other ≠ workerId) {now : T}
    (hlive : now < expiry) : heldByOther j other now = some (workerId, expiry) := by
  simp only [heldByOther, h.owner, h.expires]
  rw [if_pos ⟨h.worker, hne.symm, hlive⟩]

/-- Every worker that holds a lease has a name. -/
theorem owner_named {s : Store T} (h : Reachable F s) :
    ∀ jobId j workerId, s.job jobId = some j → j.leaseOwner = some workerId → workerId ≠ [] := by
  refine h.invariant (I := fun s => ∀ jobId j workerId, s.job jobId = some j →
    j.leaseOwner = some workerId → workerId ≠ []) ?_ ?_
  · intro jobId j workerId hj
    cases hj
  · intro s s' c hi hc jobId j' workerId hj' howner
    cases hj : s.job jobId with
    | none =>
      obtain ⟨a, uuid, now, _, rfl, _⟩ := hc.newRow hj hj'
      cases howner
    | some j =>
      rcases hc.row hj with ⟨hsame, _⟩ | ⟨a, ha, hrow⟩
      · rw [Option.some.inj (hj'.symm.trans hsame)] at howner
        exact hi jobId j workerId hj howner
      · rw [Option.some.inj (hj'.symm.trans ha)] at howner
        have hold := hi jobId j workerId hj
        cases hrow with
        | leased worker runnable free =>
          simp only [Job.lease, Option.some.injEq] at howner
          intro hnil
          rw [howner, hnil] at worker
          cases worker
        | renewed | advanced | charged => exact hold howner
        | moved allowed validated =>
          simp only [Job.moved] at howner
          split at howner
          · cases howner
          · exact hold howner

/-- A step that neither releases nor renews the lease leaves it while it has not run out. -/
theorem step_leasedTo {s s' : Store T} {e : Event F T} (hstep : Step s e s') {jobId workerId : PyStr}
    {expiry : T} {j : Job T} (h : LeasedTo s jobId workerId expiry j)
    (hrel : releases jobId e = false) (hset : ∀ p ∈ sets jobId e, p.1 ≠ workerId)
    (htime : ∀ t ∈ callTime e.call, t < expiry) :
    ∃ j', LeasedTo s' jobId workerId expiry j' := by
  rcases hstep.cases with ⟨rfl, _⟩ | ⟨hret, hc⟩
  · exact ⟨j, h⟩
  rcases hc.row h.found with ⟨hsame, _⟩ | ⟨j', hj', hrow⟩
  · exact ⟨j, hsame, h.bound, h.worker, h.owner, h.expires⟩
  have hid := (mem_of_job h.found).2
  obtain ⟨c, returned⟩ := e
  cases hrow with
  | @leased _ other leaseSeconds now worker runnable free =>
    have hne : other ≠ workerId := hset (other, now + leaseSeconds) (by simp_all [sets])
    have hlive : now < expiry := htime now rfl
    rw [h.held hne hlive] at free
    cases free
  | @renewed _ other leaseSeconds now _ owner running live =>
    have hne : other ≠ workerId := hset (other, now + leaseSeconds) (by simp_all [sets])
    exact absurd (Option.some.inj (owner.symm.trans h.owner)) hne
  | advanced | charged => exact ⟨_, hj', h.bound, h.worker, h.owner, h.expires⟩
  | @moved _ t now allowed validated =>
    have hkeep : t.releaseLease = false := by simp_all [releases]
    exact ⟨_, hj', h.bound, h.worker, by simp [Job.moved, hkeep, h.owner],
      by simp [Job.moved, hkeep, h.expires]⟩

theorem run_leasedTo {s s' : Store T} {es : List (Event F T)} (hrun : Execution s es s')
    {jobId workerId : PyStr} {expiry : T} {j : Job T} (h : LeasedTo s jobId workerId expiry j)
    (hquiet : ∀ x ∈ es, releases jobId x = false ∧ ∀ p ∈ sets jobId x, p.1 ≠ workerId)
    (htime : ∀ x ∈ es, ∀ t ∈ callTime x.call, t < expiry) :
    ∃ j', LeasedTo s' jobId workerId expiry j' := by
  induction hrun with
  | refl => exact ⟨j, h⟩
  | @tail u v es e hrun hstep ih =>
    obtain ⟨a, ha⟩ := ih (fun x hx => hquiet x (List.mem_append_left _ hx))
      (fun x hx => htime x (List.mem_append_left _ hx))
    have hlast : e ∈ es ++ [e] := List.mem_append_right _ (List.mem_singleton_self e)
    exact step_leasedTo hstep ha (hquiet e hlast).1 (hquiet e hlast).2 (htime e hlast)

/-- An acquisition or renewal leaves the row leased until the expiry it sets. -/
theorem sets_leasedTo {s s' : Store T} {e : Event F T} (hs : Reachable F s) (hstep : Step s e s')
    {jobId workerId : PyStr} {expiry : T} (h : sets jobId e = some (workerId, expiry)) :
    ∃ j, LeasedTo s' jobId workerId expiry j := by
  obtain ⟨c, returned⟩ := e
  cases c with
  | acquireLease id w leaseSeconds now =>
    simp only [sets, Option.ite_none_right_eq_some, Option.some.injEq, Prod.mk.injEq] at h
    obtain ⟨⟨rfl, rfl⟩, rfl, rfl⟩ := h
    rcases hstep.cases with ⟨_, hret | hrep⟩ | ⟨_, hw, row, hrow⟩
    · cases hret
    · cases hrep
    · refine ⟨row.lease w leaseSeconds now, ?_, hrow.bound.1, ?_, rfl, rfl⟩
      · rw [hrow.store, job_setJob]
        simp [hrow.found]
      · rintro rfl
        cases hw
  | heartbeat id w leaseSeconds now =>
    simp only [sets, Option.ite_none_right_eq_some, Option.some.injEq, Prod.mk.injEq] at h
    obtain ⟨⟨rfl, rfl⟩, rfl, rfl⟩ := h
    rcases hstep.cases with ⟨_, hret | hrep⟩ | ⟨_, row, hrow⟩
    · cases hret
    · cases hrep
    · refine ⟨row.renew leaseSeconds now, ?_, hrow.bound,
        owner_named hs _ _ _ hrow.found hrow.owner, hrow.owner, rfl⟩
      rw [hrow.store, job_setJob]
      simp [hrow.found]
  | _ => cases h

/-- Another worker's acquisition of a leased row is refused. -/
theorem acquire_refused {s : Store T} {jobId workerId other : PyStr} {expiry now : T} {j : Job T}
    (h : LeasedTo s jobId workerId expiry j) (hne : other ≠ workerId) (hlive : now < expiry)
    (leaseSeconds : T) :
    ∃ e, acquireLease jobId other leaseSeconds now s = .error e s ∧
      (e.errorClass = .leaseConflict ∨
        (isBlank other = true ∨ leaseSeconds ≤ 0) ∧ e = .workerAndLeaseRequired) := by
  have hheld := h.held hne hlive
  cases hr : acquireLease jobId other leaseSeconds now s with
  | ok r s' =>
    obtain ⟨_, _, row, hrow, _⟩ := acquireLease_eq_ok.mp hr
    rw [Option.some.inj (h.found.symm.trans hrow.found)] at hheld
    exact absurd (hrow.free.symm.trans hheld) (by simp)
  | error e s' =>
    refine ⟨e, by rw [acquireLease_error hr], ?_⟩
    rcases bind_eq_error.mp hr with hargs | ⟨_, s₁, hargs, hr⟩
    · right
      refine ⟨?_, (raiseIf_raised hargs).1⟩
      by_contra hvalid
      simp [raiseIf, hvalid] at hargs
      cases hargs
    left
    rw [(raiseIf_eq_ok.mp hargs).2] at hr
    rcases bind_eq_error.mp hr with htx | ⟨_, s₂, htx, _⟩
    · obtain ⟨_, s₃, hbody⟩ := immediate_eq_error.mp htx
      have hrow : selectJob jobId s = .ok j s := selectJob_eq_ok.mpr ⟨h.bound, h.found, rfl⟩
      rcases bind_eq_error.mp hbody with hsel | ⟨a, s₄, hsel, hbody⟩
      · rw [hrow] at hsel
        cases hsel
      rw [hrow] at hsel
      cases hsel
      rcases bind_eq_error.mp hbody with hrun | ⟨_, s₅, _, hbody⟩
      · rw [(raiseIf_raised hrun).1]
        rfl
      · rw [hheld] at hbody
        cases hbody
        rfl
    · obtain ⟨row, hrow⟩ := acquireTransaction_eq_ok.mp htx
      rw [Option.some.inj (h.found.symm.trans hrow.found)] at hheld
      exact absurd (hrow.free.symm.trans hheld) (by simp)

/-! ## Mutual exclusion -/

/-- The worker made the last acquisition, no release is behind it, and the row is running under a
lease that has not run out. -/
structure Holds (es : List (Event F T)) (s : Store T) (jobId workerId : PyStr) (now : T) : Prop where
  latest : ∃ before e after, es = before ++ e :: after ∧ acquirer jobId e = some workerId ∧
    ∀ x ∈ after, acquirer jobId x = none ∧ releases jobId x = false
  row : ∃ j expiry, s.job jobId = some j ∧ j.status = .running ∧ j.leaseExpiresAt = some expiry ∧
    now ≤ expiry

/-- The instants of the calls never go back. -/
def Clocked (cs : List (Call F T)) : Prop := (cs.filterMap callTime).Pairwise (· ≤ ·)

theorem holds_of_row {es : List (Event F T)} {s : Store T} (h : Execution Store.empty es s)
    {jobId workerId : PyStr} {now : T} {j : Job T} (hj : s.job jobId = some j)
    (howner : j.leaseOwner = some workerId) (hrun : j.status = .running)
    (hlive : ∃ expiry, j.leaseExpiresAt = some expiry ∧ now ≤ expiry) :
    Holds es s jobId workerId now := by
  constructor
  · apply holder_eq_some
    rw [← owner_eq_holder h, hj, Option.bind_some, howner]
  · obtain ⟨expiry, hexp, hle⟩ := hlive
    exact ⟨j, expiry, hj, hrun, hexp, hle⟩

omit [PyFloat F] [Add T] [Zero T] in
theorem before_expiry {es : List (Event F T)} {c : Call F T} {now expiry : T}
    (h : Clocked (es.map Event.call ++ [c])) (hc : callTime c = some now) (hlt : now < expiry) :
    ∀ x ∈ es, ∀ t ∈ callTime x.call, t < expiry := by
  intro x hx t ht
  unfold Clocked at h
  rw [List.filterMap_append, List.pairwise_append] at h
  have hle : t ≤ now := by
    apply h.2.2
    · exact List.mem_filterMap.mpr ⟨x.call, List.mem_map_of_mem hx, ht⟩
    · simp [hc]
  exact hle.trans_lt hlt

/-- A worker renews or checkpoints only under its own live lease, and while the last expiry it set
lies ahead and no transition has released the lease, no other worker acquires it. -/
theorem lease_exclusion {es : List (Event F T)} {s : Store T} (h : Execution Store.empty es s)
    (jobId workerId : PyStr) :
    (∀ leaseSeconds now r s', heartbeat jobId workerId leaseSeconds now s = .ok r s' →
      Holds es s jobId workerId now) ∧
      (∀ stage checkpointKey (payload : PyVal F) now r s',
        saveCheckpoint jobId workerId stage checkpointKey payload now s = .ok r s' →
          Holds es s jobId workerId now) ∧
      ∀ before e after expiry, es = before ++ e :: after →
        sets jobId e = some (workerId, expiry) →
        (∀ x ∈ after, releases jobId x = false ∧ ∀ p ∈ sets jobId x, p.1 ≠ workerId) →
        ∀ other leaseSeconds now, other ≠ workerId → now < expiry →
          Clocked (es.map Event.call ++ [.acquireLease jobId other leaseSeconds now]) →
          ∃ err, acquireLease jobId other leaseSeconds now s = .error err s ∧
            (err.errorClass = .leaseConflict ∨
              (isBlank other = true ∨ leaseSeconds ≤ 0) ∧ err = .workerAndLeaseRequired) := by
  refine ⟨?_, ?_, ?_⟩
  · intro leaseSeconds now r s' hr
    obtain ⟨_, row, hrow, _⟩ := heartbeat_eq_ok.mp hr
    exact holds_of_row h hrow.found hrow.owner hrow.running hrow.live
  · intro stage checkpointKey payload now r s' hr
    obtain ⟨rendered, _, row, hrow, _⟩ := saveCheckpoint_eq_ok.mp hr
    exact holds_of_row h hrow.found hrow.owner hrow.running hrow.live
  · intro before e after expiry hes hset hquiet other leaseSeconds now hne hlt hclock
    have htime := before_expiry hclock rfl hlt
    rw [hes] at h htime
    obtain ⟨u, hu, hrest⟩ := h.split
    rw [← List.singleton_append] at hrest
    obtain ⟨v, hv, hafter⟩ := hrest.split
    obtain ⟨j, hj⟩ := sets_leasedTo ⟨_, hu⟩ hv.single_inv hset
    obtain ⟨j', hj'⟩ := run_leasedTo hafter hj hquiet fun x hx => htime x (by simp [hx])
    exact acquire_refused hj' hne hlt leaseSeconds

/-! ## Two workers on one job -/

/-- A new job, which the first worker then acquires. -/
def leasedRun : List (Event NonFinite ℕ) × Store ℕ :=
  let created := next (F := NonFinite) (Store.empty : Store ℕ)
    (.createJob ⟨py "tenant", py "key", py "task", 1, 1, 1, some (py "job")⟩ [] 1)
  let leased := next (F := NonFinite) created.2 (.acquireLease (py "job") (py "first") 10 2)
  ([created.1, leased.1], leased.2)

theorem leasedRun_execution : Execution Store.empty leasedRun.1 leasedRun.2 :=
  (Execution.refl.tail (next_step _ _)).tail (next_step _ _)

theorem lease_exclusion_second :
    (∃ r s', heartbeat (py "job") (py "first") 10 5 leasedRun.2 = .ok r s') ∧
      Holds leasedRun.1 leasedRun.2 (py "job") (py "first") 5 ∧
      ∃ err, acquireLease (py "job") (py "second") 10 5 leasedRun.2 = .error err leasedRun.2 ∧
        (err.errorClass = .leaseConflict ∨
          (isBlank (py "second") = true ∨ (10 : ℕ) ≤ 0) ∧ err = .workerAndLeaseRequired) := by
  have hok : ∃ r s', heartbeat (py "job") (py "first") 10 5 leasedRun.2 = .ok r s' :=
    returns_iff.mp (by decide +kernel)
  obtain ⟨r, s', hr⟩ := hok
  have hx := lease_exclusion leasedRun_execution (py "job") (py "first")
  have hset : leasedRun.1.map (sets (py "job")) = [none, some (py "first", 12)] := by
    decide +kernel
  have htimes : (leasedRun.1.map Event.call).filterMap callTime = [1, 2] := by
    simp [leasedRun, next_call, callTime]
  refine ⟨⟨r, s', hr⟩, hx.1 10 5 r s' hr,
    hx.2.2 [leasedRun.1.head (by simp [leasedRun])] (leasedRun.1.getLast (by simp [leasedRun])) []
      12 rfl ?_ (by simp) (py "second") 10 5 (by decide) (by decide) ?_⟩
  · simp only [leasedRun, List.map_cons, List.map_nil, List.cons.injEq, and_true] at hset
    exact hset.2
  · rw [Clocked, List.filterMap_append, htimes]
    simp [callTime]

end JobStoreLease
