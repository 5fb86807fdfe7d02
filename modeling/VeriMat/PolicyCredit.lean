import VeriMat.PolicyRefresh

/-! # Delayed credit

What a history adds to the credit of a strategy: the outcomes it commits, one for each
application, and of these only those of applications to another task family. A status after a
refresh is a function of that credit, so that the order of the history does not matter. -/
namespace PolicyCredit

open PyText JsonText PyValue KeyedTable Transaction PolicyStore PolicyRefresh

variable {F T : Type} [PyFloat F] {H : PolicyHost F} {db db' : PolicyDatabase F T}

/-! ## What the methods do -/

omit [PyFloat F] in
theorem applicableStrategy_eq_ok {strategyId tenantId : PyStr} {s : Strategy T} :
    applicableStrategy strategyId tenantId db = .ok s db' →
      db' = db ∧ db.strategies.find (Strategy.hasId strategyId tenantId) = some s := by
  simp only [applicableStrategy, bind_eq_ok, bindText_eq_ok, get_apply, EStateM.Result.ok.injEq,
    orRaise_eq_ok, raiseIf_eq_ok, pure_eq_ok]
  rintro ⟨_, _, ⟨_, rfl⟩, _, _, ⟨_, rfl⟩, _, _, ⟨rfl, rfl⟩, _, _, ⟨hfind, rfl⟩, _, _, ⟨_, rfl⟩, rfl,
    rfl⟩
  exact ⟨rfl, hfind⟩

omit [PyFloat F] in
theorem knownApplication_eq_ok {applicationId tenantId : PyStr} {a : Application T} :
    knownApplication applicationId tenantId db = .ok a db' →
      db' = db ∧ db.applications.find (Application.hasId applicationId tenantId) = some a := by
  simp only [knownApplication, bind_eq_ok, bindText_eq_ok, get_apply, EStateM.Result.ok.injEq,
    orRaise_eq_ok]
  rintro ⟨_, _, ⟨_, rfl⟩, _, _, ⟨_, rfl⟩, _, _, ⟨rfl, rfl⟩, hfind, rfl⟩
  exact ⟨rfl, hfind⟩

/-- An enqueued event is a new row of the outbox and nothing else. -/
theorem enqueue_eq_ok {e : OutboxEvent F} {stamp : Stamp T} {u : Unit}
    (h : enqueue e stamp db = .ok u db') :
    ∃ t, db' = { db with policyOutbox := t } := by
  rw [enqueue] at h
  cases hdumps : dumps e.payload with
  | error cause =>
    rw [hdumps] at h
    cases h
  | ok rendered =>
    rw [hdumps] at h
    obtain ⟨t, _, hdb'⟩ := insertOutbox_eq_ok.mp h
    exact ⟨t, hdb'⟩

/-- What a proposal does: nothing for a known pattern, or one new strategy. -/
theorem proposeStrategy_eq_ok {a : Proposal} {uuid : PyStr} {now : T} {stamp : Stamp T}
    {strategyId : PyStr} (h : proposeStrategy H a uuid now stamp db = .ok strategyId db') :
    db' = db ∨ ∃ key t outbox, db.strategies.insert (a.row (Events.orElse a.strategyId uuid) key now) = some t ∧
      db' = { db with strategies := t, policyOutbox := outbox } := by
  simp only [proposeStrategy, bind_eq_ok, raiseIf_eq_ok, immediate_eq_ok, bindText_eq_ok,
    get_apply, EStateM.Result.ok.injEq] at h
  obtain ⟨_, _, ⟨_, rfl⟩, _, _, ⟨_, rfl⟩, key, _, hkey, _, _, ⟨_, rfl⟩, _, _, ⟨rfl, rfl⟩, h⟩ := h
  rw [strategyKey, map_eq_ok] at hkey
  obtain ⟨_, hencoded, _⟩ := hkey
  obtain ⟨_, rfl⟩ := encoded_eq_ok.mp hencoded
  generalize Table.find _ _ = found at h
  cases found with
  | some existing => exact .inl (pure_eq_ok.mp h).2
  | none =>
    simp only [insertStrategy, bind_eq_ok, bindText_eq_ok, encoded_eq_ok, get_apply,
      EStateM.Result.ok.injEq, orRaise_eq_ok, set_eq_ok, pure_eq_ok] at h
    obtain ⟨_, _, ⟨_, rfl⟩, _, _, ⟨_, rfl⟩, _, _, ⟨_, rfl⟩, pattern, _, ⟨_, rfl⟩, _, _,
      ⟨_, _, ⟨rfl, rfl⟩, t, _, ⟨ht, rfl⟩, rfl⟩, _, _, henqueue, _, rfl⟩ := h
    obtain ⟨outbox, rfl⟩ := enqueue_eq_ok henqueue
    exact .inr ⟨key, t, outbox, ht, rfl⟩

/-- What an application does: nothing for a known key, or one new row. -/
theorem recordApplication_eq_ok {a : ApplicationCall} {uuid : PyStr} {now : T} {stamp : Stamp T}
    {applicationId : PyStr} (h : recordApplication H a uuid now stamp db = .ok applicationId db') :
    db' = db ∨ ∃ row t outbox, db.applications.insert row = some t ∧
      db' = { db with applications := t, policyOutbox := outbox } := by
  simp only [recordApplication, bind_eq_ok, raiseIf_eq_ok, immediate_eq_ok, bindText_eq_ok,
    encoded_eq_ok, get_apply, EStateM.Result.ok.injEq] at h
  obtain ⟨_, _, hstrategy, _, _, ⟨_, rfl⟩, query, _, ⟨_, rfl⟩, _, _, hagain, _, _, ⟨_, rfl⟩, _, _,
    ⟨rfl, rfl⟩, h⟩ := h
  obtain ⟨rfl, _⟩ := applicableStrategy_eq_ok hstrategy
  obtain ⟨rfl, _⟩ := applicableStrategy_eq_ok hagain
  generalize Table.find _ _ = found at h
  cases found with
  | some existing =>
    simp only [bind_eq_ok, raiseIf_eq_ok, pure_eq_ok] at h
    obtain ⟨_, _, ⟨_, rfl⟩, _, rfl⟩ := h
    exact .inl rfl
  | none =>
    simp only [insertApplication, bind_eq_ok, bindText_eq_ok, get_apply, EStateM.Result.ok.injEq,
      orRaise_eq_ok, set_eq_ok, pure_eq_ok] at h
    obtain ⟨_, _, ⟨_, rfl⟩, _, _, ⟨_, rfl⟩, _, _, ⟨_, rfl⟩, _, _,
      ⟨_, _, ⟨rfl, rfl⟩, t, _, ⟨ht, rfl⟩, rfl⟩, _, _, henqueue, _, rfl⟩ := h
    obtain ⟨outbox, rfl⟩ := enqueue_eq_ok henqueue
    exact .inr ⟨_, t, outbox, ht, rfl⟩

/-- An outcome committed for the first time. -/
structure Credited (db : PolicyDatabase F T) (a : OutcomeCall F) (now : T)
    (application : Application T) (db' : PolicyDatabase F T) : Prop where
  evaluator : a.evaluatorKind ∈ allowedEvaluators
  found : db.applications.find (Application.hasId a.applicationId a.tenantId) = some application
  first : db.outcomes.find (OutcomeRow.hasId a.applicationId) = none
  store : ∃ t outbox, db.outcomes.insert (a.row now) = some t ∧
    db' = { db with outcomes := t, policyOutbox := outbox }

theorem recordOutcome_eq_ok {a : OutcomeCall F} {now : T} {stamp : Stamp T} {u : Unit}
    (h : recordOutcome H a now stamp db = .ok u db') :
    (db' = db ∧ ∃ o, db.outcomes.find (OutcomeRow.hasId a.applicationId) = some o) ∨
      ∃ application, Credited db a now application db' := by
  simp only [recordOutcome, bind_eq_ok, raiseIf_eq_ok, not_not, immediate_eq_ok, get_apply,
    EStateM.Result.ok.injEq] at h
  obtain ⟨_, _, ⟨hevaluator, rfl⟩, _, _, ⟨_, rfl⟩, _, _, ⟨_, rfl⟩, _, _, hknown, application, _,
    hagain, _, _, ⟨rfl, rfl⟩, h⟩ := h
  obtain ⟨rfl, _⟩ := knownApplication_eq_ok hknown
  obtain ⟨rfl, hfound⟩ := knownApplication_eq_ok hagain
  generalize hfirst : Table.find _ _ = found at h
  cases found with
  | some o => exact .inl ⟨(raiseIf_eq_ok.mp h).2, o, rfl⟩
  | none =>
    simp only [bindInt, insertOutcome, bind_eq_ok, raiseIf_eq_ok, encoded_eq_ok, get_apply,
      EStateM.Result.ok.injEq, orRaise_eq_ok, set_eq_ok] at h
    obtain ⟨_, _, ⟨_, rfl⟩, _, _, ⟨_, rfl⟩, evidence, _, ⟨_, rfl⟩, _, _,
      ⟨_, _, ⟨rfl, rfl⟩, t, _, ⟨ht, rfl⟩, rfl⟩, henqueue⟩ := h
    obtain ⟨outbox, rfl⟩ := enqueue_eq_ok henqueue
    exact .inr ⟨application, hevaluator, hfound, hfirst, t, outbox, ht, rfl⟩

/-! ## What a call leaves -/

omit [PyFloat F] in
theorem readOnly_bindText (s : PyStr) : ReadOnly (bindText s : PolicyDb F T Unit) :=
  readOnly_raiseIf _ _

omit [PyFloat F] in
theorem readOnly_encoded (s : PyStr) : ReadOnly (encoded s : PolicyDb F T PyBytes) :=
  readOnly_orRaise _ _

omit [PyFloat F] in
theorem readOnly_applicableStrategy (strategyId tenantId : PyStr) :
    ReadOnly (applicableStrategy strategyId tenantId : PolicyDb F T (Strategy T)) :=
  (readOnly_bindText _).bind fun _ => (readOnly_bindText _).bind fun _ => readOnly_get.bind fun _ =>
    (readOnly_orRaise _ _).bind fun _ => (readOnly_raiseIf _ _).bind fun _ => readOnly_pure _

omit [PyFloat F] in
theorem readOnly_knownApplication (applicationId tenantId : PyStr) :
    ReadOnly (knownApplication applicationId tenantId : PolicyDb F T (Application T)) :=
  (readOnly_bindText _).bind fun _ => (readOnly_bindText _).bind fun _ => readOnly_get.bind fun _ =>
    readOnly_orRaise _ _

theorem readOnly_scoreRows (H : PolicyHost F) (tenantId : PyStr) :
    ReadOnly (scoreRows H tenantId : PolicyDb F T (List (StrategyScore F))) :=
  (readOnly_bindText _).bind fun _ => readOnly_get.bind fun _ => readOnly_pure _

/-- A transaction leaves the state as it was when it raises. -/
theorem atomic_immediate {σ ε α : Type} (body : EStateM ε σ α) : Atomic (immediate body) :=
  fun _ _ _ h => immediate_rollback h

/-! ## What an operation leaves -/

/-- An operation of the store that writes. -/
inductive Operation (F T : Type) where
  | call (c : Call F T)
  | bindSequenceIntervention (a : Binding) (now : T) (stamp : Stamp T)
  | markDispatched (tenantId eventId : PyStr) (now : T)

def Operation.run (H : PolicyHost F) : Operation F T → PolicyDb F T Unit
  | .call c => c.run H
  | .bindSequenceIntervention a now stamp => do
    let _ ← PolicyStore.bindSequenceIntervention H a now stamp
  | .markDispatched tenantId eventId now => PolicyStore.markDispatched tenantId eventId now

/-- What an operation leaves, whether it returned or raised. -/
def Operation.after (H : PolicyHost F) (o : Operation F T) (db : PolicyDatabase F T) :
    PolicyDatabase F T :=
  (ran (o.run H) db).2

/-- The store after a sequence of operations. -/
def Operation.history (H : PolicyHost F) (db : PolicyDatabase F T) (ops : List (Operation F T)) :
    PolicyDatabase F T :=
  ops.foldl (fun db o => o.after H db) db

/-- The tables that credit is counted from are as they were. -/
structure Untouched (db db' : PolicyDatabase F T) : Prop where
  strategies : db'.strategies = db.strategies
  applications : db'.applications = db.applications
  outcomes : db'.outcomes = db.outcomes

omit [PyFloat F] in
theorem Untouched.refl (db : PolicyDatabase F T) : Untouched db db := ⟨rfl, rfl, rfl⟩

omit [PyFloat F] in
theorem Untouched.trans {db₁ db₂ db₃ : PolicyDatabase F T} (h : Untouched db₁ db₂)
    (h' : Untouched db₂ db₃) : Untouched db₁ db₃ :=
  ⟨h'.strategies.trans h.strategies, h'.applications.trans h.applications,
    h'.outcomes.trans h.outcomes⟩

omit [PyFloat F] in
theorem aside_of_readOnly {α : Type} {x : PolicyDb F T α} (hx : ReadOnly x) : Leaves Untouched x :=
  hx.leaves Untouched.refl

omit [PyFloat F] in
theorem aside_bind {α β : Type} {x : PolicyDb F T α} {f : α → PolicyDb F T β}
    (hx : Leaves Untouched x) (hf : ∀ a, Leaves Untouched (f a)) : Leaves Untouched (x >>= f) :=
  hx.bind hf fun _ _ _ => Untouched.trans

omit [PyFloat F] in
theorem aside_insertIntervention (i : SequenceIntervention T) :
    Leaves Untouched (insertIntervention i : PolicyDb F T Unit) := by
  have hatomic : Atomic (insertIntervention i : PolicyDb F T Unit) :=
    readOnly_get.bind_atomic fun _ _ _ => (readOnly_orRaise _ _).bind_atomic fun _ _ _ =>
      (infallible_set _).atomic
  refine leaves_iff.mpr fun db => ⟨?_, ?_⟩
  · intro u db' h
    simp only [insertIntervention, bind_eq_ok, get_apply, EStateM.Result.ok.injEq, orRaise_eq_ok,
      set_eq_ok] at h
    obtain ⟨_, _, ⟨rfl, rfl⟩, t, _, ⟨_, rfl⟩, rfl⟩ := h
    exact ⟨rfl, rfl, rfl⟩
  · intro e db' h
    rw [hatomic db e db' h]
    exact .refl db

theorem aside_enqueue (e : OutboxEvent F) (stamp : Stamp T) :
    Leaves Untouched (enqueue e stamp : PolicyDb F T Unit) := by
  rw [enqueue]
  cases dumps e.payload with
  | error cause => exact aside_of_readOnly (readOnly_throw _)
  | ok rendered =>
    have hatomic : Atomic (insertOutbox (e.row rendered stamp) : PolicyDb F T Unit) :=
      readOnly_get.bind_atomic fun _ _ _ => (readOnly_orRaise _ _).bind_atomic fun _ _ _ =>
        (infallible_set _).atomic
    refine leaves_iff.mpr fun db => ⟨?_, ?_⟩
    · intro u db' h
      obtain ⟨t, _, rfl⟩ := insertOutbox_eq_ok.mp h
      exact ⟨rfl, rfl, rfl⟩
    · intro e db' h
      rw [hatomic db e db' h]
      exact .refl db

theorem aside_bindIntervention (a : Binding) (rendered : PyStr) (now : T) (stamp : Stamp T) :
    Leaves Untouched (bindIntervention a rendered now stamp : PolicyDb F T Unit) := by
  refine aside_bind (aside_of_readOnly (readOnly_bindText _)) fun _ => ?_
  refine aside_bind (aside_of_readOnly (readOnly_bindText _)) fun _ => ?_
  refine aside_bind (aside_of_readOnly (readOnly_raiseIf _ _)) fun _ => ?_
  refine aside_bind (aside_of_readOnly readOnly_get) fun db => ?_
  generalize Table.find _ _ = found
  cases found with
  | some existing => exact aside_of_readOnly (readOnly_raiseIf _ _)
  | none =>
    refine aside_bind (aside_of_readOnly (readOnly_bindText _)) fun _ => ?_
    refine aside_bind (aside_of_readOnly (readOnly_bindText _)) fun _ => ?_
    refine aside_bind (aside_of_readOnly (readOnly_bindText _)) fun _ => ?_
    exact aside_bind (aside_insertIntervention _) fun _ => aside_enqueue _ stamp

omit [PyFloat F] in
theorem readOnly_forM_bindText (l : List PyStr) :
    ReadOnly (l.forM bindText : PolicyDb F T PUnit) := by
  induction l with
  | nil => exact readOnly_pure _
  | cons x l ih => exact (readOnly_bindText x).bind fun _ => ih

theorem aside_bindSequenceIntervention (a : Binding) (now : T) (stamp : Stamp T) :
    Leaves Untouched (bindSequenceIntervention H a now stamp) := by
  refine aside_bind (aside_of_readOnly (readOnly_raiseIf _ _)) fun _ => ?_
  refine aside_bind (aside_of_readOnly (readOnly_bindText _)) fun _ => ?_
  refine aside_bind (aside_of_readOnly (readOnly_forM_bindText _)) fun _ => ?_
  refine aside_bind (aside_of_readOnly readOnly_get) fun db => ?_
  refine aside_bind (aside_of_readOnly (readOnly_raiseIf _ _)) fun _ => ?_
  cases asciiDumps (.list (a.strategyIds.map .str) : PyVal F) with
  | error cause => exact aside_of_readOnly (readOnly_throw _)
  | ok rendered =>
    refine aside_bind ((aside_bindIntervention a rendered now stamp).immediate Untouched.refl)
      fun _ => ?_
    exact aside_of_readOnly ((readOnly_scoreRows H _).bind fun _ =>
      readOnly_mapM (fun _ => readOnly_orRaise _ _) _)

omit [PyFloat F] in
theorem aside_markDispatched (tenantId eventId : PyStr) (now : T) :
    Leaves Untouched (markDispatched tenantId eventId now : PolicyDb F T Unit) := by
  refine aside_bind (aside_of_readOnly (readOnly_bindText _)) fun _ => ?_
  refine aside_bind (aside_of_readOnly (readOnly_bindText _)) fun _ => ?_
  refine leaves_iff.mpr fun db => ⟨?_, ?_⟩
  · intro u db' h
    simp only [bind_eq_ok, get_apply, EStateM.Result.ok.injEq, set_eq_ok, raiseIf_eq_ok] at h
    obtain ⟨_, _, ⟨rfl, rfl⟩, _, _, rfl, _, rfl⟩ := h
    exact ⟨rfl, rfl, rfl⟩
  · intro e db' h
    simp only [bind_eq_error, get_apply, EStateM.Result.ok.injEq, set_eq_ok] at h
    rcases h with h | ⟨_, _, ⟨rfl, rfl⟩, h⟩
    · cases h
    · rcases h with h | ⟨_, _, rfl, h⟩
      · cases h
      · rw [raiseIf_error h]
        exact ⟨rfl, rfl, rfl⟩

/-- What an operation does to the store. -/
inductive Effect (H : PolicyHost F) (db : PolicyDatabase F T) :
    Operation F T → PolicyDatabase F T → Prop where
  | kept (o db') (h : Untouched db db') : Effect H db o db'
  | proposed (a : Proposal) (uuid now stamp key t outbox)
      (inserted : db.strategies.insert (a.row (Events.orElse a.strategyId uuid) key now) = some t) :
      Effect H db (.call (.proposeStrategy a uuid now stamp))
        { db with strategies := t, policyOutbox := outbox }
  | applied (a uuid now stamp row t outbox) (inserted : db.applications.insert row = some t) :
      Effect H db (.call (.recordApplication a uuid now stamp))
        { db with applications := t, policyOutbox := outbox }
  | credited (a now stamp application db') (h : Credited db a now application db') :
      Effect H db (.call (.recordOutcome a now stamp)) db'
  | refreshed (a : RefreshCall F T) (db')
      (h : Moved H db a.tenantId a.θ a.now (a.scores H db) (a.rows H db) db') :
      Effect H db (.call a.call) db'

/-- A call that raises leaves the store as it was. -/
theorem run_atomic (c : Call F T) : Atomic (c.run H) := by
  cases c with
  | proposeStrategy a uuid now stamp =>
    refine Atomic.bind_infallible ?_ fun _ => infallible_pure ()
    refine (readOnly_raiseIf _ _).bind_atomic fun _ _ _ => ?_
    refine (readOnly_raiseIf _ _).bind_atomic fun _ _ _ => ?_
    exact ((readOnly_encoded _).map _).bind_atomic fun _ _ _ => atomic_immediate _
  | recordApplication a uuid now stamp =>
    refine Atomic.bind_infallible ?_ fun _ => infallible_pure ()
    refine (readOnly_applicableStrategy _ _).bind_atomic fun _ _ _ => ?_
    refine (readOnly_raiseIf _ _).bind_atomic fun _ _ _ => ?_
    exact (readOnly_encoded _).bind_atomic fun _ _ _ => atomic_immediate _
  | recordOutcome a now stamp =>
    refine (readOnly_raiseIf _ _).bind_atomic fun _ _ _ => ?_
    refine (readOnly_raiseIf _ _).bind_atomic fun _ _ _ => ?_
    refine (readOnly_raiseIf _ _).bind_atomic fun _ _ _ => ?_
    exact (readOnly_knownApplication _ _).bind_atomic fun _ _ _ => atomic_immediate _
  | refreshStatuses tenantId θ now stamp =>
    refine Atomic.bind_infallible ?_ fun _ => infallible_pure ()
    refine (readOnly_raiseIf _ _).bind_atomic fun _ _ _ => ?_
    intro db e db' h
    rcases bind_eq_error.mp h with hraised | ⟨_, db₁, hmoved, hraised⟩
    · exact immediate_rollback hraised
    · -- the scores have been read before, under the same tenant
      simp only [immediate_eq_ok, bind_eq_ok, scoreRows_eq_ok] at hmoved
      obtain ⟨_, _, ⟨hbound, _⟩, _⟩ := hmoved
      have hreads : scoreRows H tenantId db₁ = .ok ((db₁.ofTenant tenantId).map (db₁.score H)) db₁ :=
        scoreRows_eq_ok.mpr ⟨hbound, rfl, rfl⟩
      rw [hreads] at hraised
      cases hraised

theorem refreshCall_of_ok {tenantId : PyStr} {θ : Thresholds F} {now : T} {stamp : ℕ → Stamp T}
    {scores : List (StrategyScore F)}
    (h : refreshStatuses H tenantId θ now stamp db = .ok scores db') :
    ∃ a : RefreshCall F T, a.tenantId = tenantId ∧ a.θ = θ ∧ a.now = now ∧ a.stamp = stamp := by
  simp only [refreshStatuses, bind_eq_ok, raiseIf_eq_ok, not_not, immediate_eq_ok,
    scoreRows_eq_ok] at h
  obtain ⟨_, _, ⟨hvalid, _⟩, _, _, _, hbound, _⟩ := h
  exact ⟨⟨tenantId, θ, now, stamp, hbound, hvalid⟩, rfl, rfl, rfl, rfl⟩

theorem call_effect {c : Call F T} {u : Unit} (hrun : c.run H db = .ok u db') :
    Effect H db (.call c) db' := by
  cases c with
  | proposeStrategy a uuid now stamp =>
    obtain ⟨_, db₁, hpropose, hpure⟩ := bind_eq_ok.mp hrun
    rw [(pure_eq_ok.mp hpure).2]
    rcases proposeStrategy_eq_ok hpropose with rfl | ⟨key, t, outbox, hinserted, rfl⟩
    · exact .kept _ _ (.refl _)
    · exact .proposed a uuid now stamp key t outbox hinserted
  | recordApplication a uuid now stamp =>
    obtain ⟨_, db₁, happly, hpure⟩ := bind_eq_ok.mp hrun
    rw [(pure_eq_ok.mp hpure).2]
    rcases recordApplication_eq_ok happly with rfl | ⟨row, t, outbox, hinserted, rfl⟩
    · exact .kept _ _ (.refl _)
    · exact .applied a uuid now stamp row t outbox hinserted
  | recordOutcome a now stamp =>
    rcases recordOutcome_eq_ok hrun with ⟨rfl, _⟩ | ⟨application, hcredited⟩
    · exact .kept _ _ (.refl _)
    · exact .credited a now stamp application db' hcredited
  | refreshStatuses tenantId θ now stamp =>
    obtain ⟨scores, db₁, hrefresh, hpure⟩ := bind_eq_ok.mp hrun
    rw [(pure_eq_ok.mp hpure).2]
    obtain ⟨a, rfl, rfl, rfl, rfl⟩ := refreshCall_of_ok hrefresh
    exact .refreshed a db₁ (refresh_eq_ok.1 scores db₁ hrefresh).1

theorem after_effect (o : Operation F T) : Effect H db o (o.after H db) := by
  cases o with
  | call c =>
    cases hrun : c.run H db with
    | ok u db' =>
      have hafter : Operation.after H (.call c) db = db' := by
        rw [Operation.after, Operation.run, ran, hrun]
      rw [hafter]
      exact call_effect hrun
    | error e db' =>
      have hafter : Operation.after H (.call c) db = db := by
        rw [Operation.after, Operation.run, ran, hrun]
        exact run_atomic c db e db' hrun
      rw [hafter]
      exact .kept _ _ (.refl db)
  | bindSequenceIntervention a now stamp =>
    refine .kept _ _ (aside_bind (aside_bindSequenceIntervention a now stamp) (fun _ => ?_) db)
    exact aside_of_readOnly (readOnly_pure ())
  | markDispatched tenantId eventId now =>
    exact .kept _ _ (aside_markDispatched tenantId eventId now db)

/-! ## Credit as a count -/

/-- An outcome as it counts for a strategy. -/
structure Credit where
  strategyId : PyStr
  targetFamily : PyStr
  evaluator : PyStr
  success : Bool
  deriving DecidableEq, Repr

/-- The outcome credits this strategy, which came from this task family. -/
def Credit.counts (strategyId family : PyStr) (x : Credit) : Bool :=
  x.strategyId == strategyId && x.targetFamily != family

def creditOf (a : Application T) (o : OutcomeRow F T) : Credit :=
  ⟨a.strategyId, a.targetTaskFamily, o.evaluatorKind, o.success⟩

/-- The application of an outcome. -/
def applicationOf (db : PolicyDatabase F T) (o : OutcomeRow F T) : Option (Application T) :=
  db.applications.find fun a => a.applicationId == o.applicationId

/-- What the outcomes of a store, in the order they were committed, credit. -/
def credits (db : PolicyDatabase F T) (outcomes : List (OutcomeRow F T)) : List Credit :=
  outcomes.filterMap fun o => (applicationOf db o).map fun a => creditOf a o

section Counting
variable {α β κ : Type} [DecidableEq κ]

/-- A lookup that gains one hit gains one element, wherever its key stands. -/
theorem filterMap_gain (key : α → κ) {f g : α → Option β} {k : κ} {b : β} {l : List α}
    (hkeys : (l.map key).Nodup) (hother : ∀ x, key x ≠ k → g x = f x)
    (hold : ∀ x, key x = k → f x = none) (hnew : ∀ x, key x = k → g x = some b) :
    (l.filterMap g).Perm (l.filterMap f ++ if k ∈ l.map key then [b] else []) := by
  induction l with
  | nil => simp
  | cons x l ih =>
    obtain ⟨hx, hl⟩ := List.nodup_cons.mp hkeys
    by_cases hk : key x = k
    · -- the hit: no later element has the key
      have hrest : k ∉ l.map key := hk ▸ hx
      have htail := ih hl
      rw [if_neg hrest, List.append_nil] at htail
      rw [List.filterMap_cons_some (hnew x hk), List.filterMap_cons_none (hold x hk), if_pos]
      · exact (htail.cons b).trans (List.perm_append_singleton b _).symm
      · rw [← hk]
        exact List.mem_cons_self
    · have hmem : k ∈ (x :: l).map key ↔ k ∈ l.map key := by
        simp [Ne.symm hk]
      simp only [hmem]
      cases hf : f x with
      | none =>
        rw [List.filterMap_cons_none ((hother x hk).trans hf), List.filterMap_cons_none hf]
        exact ih hl
      | some c =>
        rw [List.filterMap_cons_some ((hother x hk).trans hf), List.filterMap_cons_some hf]
        exact (ih hl).cons c

end Counting

omit [PyFloat F] in
theorem applicationIds_nodup (db : PolicyDatabase F T) :
    (db.applications.rows.map (·.applicationId)).Nodup := by
  refine List.pairwise_map.mpr (db.applications.distinct.imp ?_)
  intro a b hab heq
  exact hab (Or.inl heq)

omit [PyFloat F] in
theorem outcomeIds_nodup (db : PolicyDatabase F T) :
    (db.outcomes.rows.map (·.applicationId)).Nodup := by
  refine List.pairwise_map.mpr (db.outcomes.distinct.imp ?_)
  intro a b hab heq
  exact hab heq

/-- The application of an outcome is one of these. -/
def ofSome (db : PolicyDatabase F T) (p : Application T → Bool) (o : OutcomeRow F T) : Bool :=
  (applicationOf db o).any p

omit [PyFloat F] in
theorem ofSome_iff (p : Application T → Bool) (o : OutcomeRow F T) :
    ofSome db p o = true ↔
      o.applicationId ∈ (db.applications.rows.filter p).map (·.applicationId) := by
  rw [ofSome, List.mem_map, Option.any_eq_true_iff_get]
  constructor
  · rintro ⟨hsome, hp⟩
    obtain ⟨a, ha⟩ := Option.isSome_iff_exists.mp hsome
    have hget : (applicationOf db o).get hsome = a := by
      simp [ha]
    rw [hget] at hp
    obtain ⟨hmem, hid⟩ := Table.mem_of_find ha
    exact ⟨a, List.mem_filter.mpr ⟨hmem, hp⟩, beq_iff_eq.mp hid⟩
  · rintro ⟨a, ha, hid⟩
    obtain ⟨hmem, hp⟩ := List.mem_filter.mp ha
    have hfound : applicationOf db o = some a := by
      refine Table.find_of_mem twoKeysClash_symm hmem (beq_iff_eq.mpr hid) ?_
      intro b hb
      exact Or.inl ((beq_iff_eq.mp hb).trans hid.symm)
    refine ⟨by rw [hfound, Option.isSome_some], ?_⟩
    simpa [hfound] using hp

omit [PyFloat F] in
variable (db) in
/-- The join of applications and outcomes, counted from the side of the outcomes. -/
theorem join_perm (p : Application T → Bool) {outcomes : List (OutcomeRow F T)}
    (hids : (outcomes.map (·.applicationId)).Nodup) :
    ((db.applications.rows.filter p).filterMap fun a =>
      outcomes.find? (OutcomeRow.hasId a.applicationId)).Perm (outcomes.filter (ofSome db p)) := by
  induction outcomes using List.reverseRecOn with
  | nil => simp
  | append_singleton outcomes o ih =>
    rw [List.map_append, List.nodup_append] at hids
    obtain ⟨hold, _, hnew⟩ := hids
    have hfresh : ∀ x ∈ outcomes, x.applicationId ≠ o.applicationId := by
      intro x hx
      exact hnew _ (List.mem_map_of_mem hx) _ (by simp)
    have hgain := filterMap_gain (·.applicationId) (k := o.applicationId) (b := o)
      (l := db.applications.rows.filter p)
      (f := fun a => outcomes.find? (OutcomeRow.hasId a.applicationId))
      (g := fun a => (outcomes ++ [o]).find? (OutcomeRow.hasId a.applicationId))
      ((applicationIds_nodup db).sublist (List.filter_sublist.map _)) ?_ ?_ ?_
    · refine hgain.trans ?_
      rw [List.filter_append]
      refine (ih hold).append ?_
      by_cases hp : ofSome db p o = true
      · rw [if_pos ((ofSome_iff p o).mp hp), List.filter_cons_of_pos hp]
        exact List.Perm.refl _
      · rw [if_neg (mt (ofSome_iff p o).mpr hp), List.filter_cons_of_neg hp]
        exact List.Perm.refl _
    · intro a ha
      have hmiss : OutcomeRow.hasId a.applicationId o = false := by
        rw [OutcomeRow.hasId, beq_eq_false_iff_ne]
        exact Ne.symm ha
      simp [List.find?_append, hmiss]
    · intro a ha
      rw [List.find?_eq_none]
      intro x hx
      rw [OutcomeRow.hasId, ha, beq_iff_eq]
      exact hfresh x hx
    · intro a ha
      have hnone : outcomes.find? (OutcomeRow.hasId a.applicationId) = none := by
        rw [List.find?_eq_none]
        intro x hx
        rw [OutcomeRow.hasId, ha, beq_iff_eq]
        exact hfresh x hx
      have hhit : OutcomeRow.hasId a.applicationId o = true := by
        rw [OutcomeRow.hasId, ha, beq_self_eq_true]
      simp [List.find?_append, hnone, hhit]

omit [PyFloat F] in
variable (db) in
/-- The credit of a strategy is a count over what the outcomes credit. -/
theorem countP_credit (s : Strategy T) (q : Bool → Bool) :
    (db.credit s).countP (fun o => q o.success) =
      (credits db db.outcomes.rows).countP fun x =>
        x.counts s.strategyId s.sourceTaskFamily && q x.success := by
  have hperm := join_perm db
    (fun a => a.strategyId == s.strategyId && a.targetTaskFamily != s.sourceTaskFamily)
    (outcomeIds_nodup db)
  have hcount : (db.credit s).countP (fun o => q o.success) = _ :=
    hperm.countP_eq (fun o => q o.success)
  rw [hcount, List.countP_filter, credits, List.countP_filterMap]
  apply List.countP_congr
  intro o _
  rw [ofSome]
  cases applicationOf db o with
  | none => simp
  | some a => simp [creditOf, Credit.counts, and_comm]

/-- The counts of a score. -/
theorem score_counts (H : PolicyHost F) (db : PolicyDatabase F T) (s : Strategy T) :
    (db.score H s).evaluations = (credits db db.outcomes.rows).countP (fun x =>
        x.counts s.strategyId s.sourceTaskFamily) ∧
      (db.score H s).successes = (credits db db.outcomes.rows).countP (fun x =>
        x.counts s.strategyId s.sourceTaskFamily && x.success) := by
  have hall := countP_credit db s fun _ => true
  have hsuccess := countP_credit db s id
  simp only [List.countP_true, Bool.and_true] at hall
  exact ⟨hall, hsuccess⟩

/-! ## How a store grows -/

/-- What a status refresh leaves of a strategy. -/
structure Origin where
  strategyId : PyStr
  tenantId : PyStr
  sourceTaskFamily : PyStr
  deriving DecidableEq, Repr

def origin (s : Strategy T) : Origin := ⟨s.strategyId, s.tenantId, s.sourceTaskFamily⟩

/-- The outcomes are of recorded applications, as the foreign key asks. -/
def Linked (db : PolicyDatabase F T) : Prop :=
  ∀ o ∈ db.outcomes.rows, (applicationOf db o).isSome = true

structure LinkedDatabase (F T : Type) where
  database : PolicyDatabase F T
  linked : Linked database

/-- Nothing is deleted, and a retired strategy is neither changed nor made. -/
structure Grows (db db' : PolicyDatabase F T) : Prop where
  strategies : db.strategies.rows.map origin <+: db'.strategies.rows.map origin
  applications : db.applications.rows <+: db'.applications.rows
  outcomes : db.outcomes.rows <+: db'.outcomes.rows
  linked : Linked db → Linked db'
  retired : ∀ s, s.status = .retired → (s ∈ db'.strategies.rows ↔ s ∈ db.strategies.rows)

omit [PyFloat F] in
theorem Untouched.grows (h : Untouched db db') : Grows db db' := by
  have happlication : ∀ o, applicationOf db' o = applicationOf db o := by
    intro o
    rw [applicationOf, applicationOf, h.applications]
  refine ⟨?_, ?_, ?_, ?_, ?_⟩
  · rw [h.strategies]
  · rw [h.applications]
  · rw [h.outcomes]
  · intro hlinked o ho
    rw [h.outcomes] at ho
    rw [happlication]
    exact hlinked o ho
  · intro s _
    rw [h.strategies]

omit [PyFloat F] in
theorem Grows.trans {db₁ db₂ db₃ : PolicyDatabase F T} (h : Grows db₁ db₂) (h' : Grows db₂ db₃) :
    Grows db₁ db₃ where
  strategies := h.strategies.trans h'.strategies
  applications := h.applications.trans h'.applications
  outcomes := h.outcomes.trans h'.outcomes
  linked hlinked := h'.linked (h.linked hlinked)
  retired s hs := (h'.retired s hs).trans (h.retired s hs)

omit [PyFloat F] in
/-- An outcome keeps its application. -/
theorem applicationOf_grows (h : db.applications.rows <+: db'.applications.rows)
    {o : OutcomeRow F T} (ho : (applicationOf db o).isSome = true) :
    applicationOf db' o = applicationOf db o := by
  obtain ⟨rest, hrest⟩ := h
  obtain ⟨a, ha⟩ := Option.isSome_iff_exists.mp ho
  rw [applicationOf, Table.find] at ha ⊢
  rw [← hrest, List.find?_append, ha, Option.some_or]
  exact ha.symm

theorem settle_origin {tenantId : PyStr} {θ : Thresholds F} {now : T}
    (scores : List (StrategyScore F)) (s : Strategy T) :
    origin (settle tenantId θ now scores s) = origin s := by
  induction scores generalizing s with
  | nil => rfl
  | cons score scores ih =>
    rw [settle, ih]
    by_cases h : (θ.moves score && s.hasId score.strategyId tenantId) = true
    · rw [if_pos h]
      rfl
    · rw [if_neg h]

theorem target_ne_retired (θ : Thresholds F) (score : StrategyScore F) :
    θ.target score ≠ .retired := by
  rw [Thresholds.target]
  split_ifs <;> exact StrategyStatus.noConfusion

/-- A refresh neither moves a retired strategy nor retires one. -/
theorem Moved.retired {a : RefreshCall F T}
    (h : Moved H db a.tenantId a.θ a.now (a.scores H db) (a.rows H db) db') (s : Strategy T)
    (hs : s.status = .retired) : s ∈ db'.strategies.rows ↔ s ∈ db.strategies.rows := by
  have hsettle : ∀ x ∈ db.strategies.rows,
      settle a.tenantId a.θ a.now (a.scores H db) x = x ∨
        (x.status ≠ .retired ∧
          (settle a.tenantId a.θ a.now (a.scores H db) x).status ≠ .retired) := by
    intro x hx
    by_cases htenant : x.tenantId = a.tenantId
    · rw [RefreshCall.scores, settle_strategy _ _ _ hx htenant]
      by_cases hmove : x.status ≠ .retired ∧ a.θ.target (db.score H x) ≠ x.status
      · rw [if_pos hmove]
        exact .inr ⟨hmove.1, target_ne_retired _ _⟩
      · rw [if_neg hmove]
        exact .inl rfl
    · left
      apply settle_of_foreign
      intro score _
      simp [Strategy.hasId, htenant]
  rw [h.strategies, List.mem_map]
  constructor
  · rintro ⟨x, hx, rfl⟩
    rcases hsettle x hx with heq | ⟨_, hlive⟩
    · rwa [heq]
    · exact absurd hs hlive
  · intro hmem
    refine ⟨s, hmem, ?_⟩
    rcases hsettle s hmem with heq | ⟨hlive, _⟩
    · exact heq
    · exact absurd hs hlive

theorem Effect.grows {o : Operation F T} (h : Effect H db o db') : Grows db db' := by
  cases h with
  | kept o db' h => exact h.grows
  | proposed a uuid now stamp key t outbox inserted =>
    refine ⟨?_, List.prefix_refl _, List.prefix_refl _, fun hlinked => hlinked, ?_⟩
    · rw [Table.insert_rows inserted, List.map_append]
      exact List.prefix_append _ _
    · intro s hs
      rw [Table.insert_rows inserted, List.mem_append, List.mem_singleton]
      constructor
      · rintro (hmem | rfl)
        · exact hmem
        · cases hs
      · exact Or.inl
  | applied a uuid now stamp row t outbox inserted =>
    have hprefix : db.applications.rows <+: t.rows := by
      rw [Table.insert_rows inserted]
      exact List.prefix_append _ _
    refine ⟨List.prefix_refl _, hprefix, List.prefix_refl _, ?_, fun _ _ => Iff.rfl⟩
    intro hlinked o ho
    rw [applicationOf_grows hprefix (hlinked o ho)]
    exact hlinked o ho
  | credited a now stamp application db' h =>
    obtain ⟨t, outbox, inserted, rfl⟩ := h.store
    refine ⟨List.prefix_refl _, List.prefix_refl _, ?_, ?_, fun _ _ => Iff.rfl⟩
    · rw [Table.insert_rows inserted]
      exact List.prefix_append _ _
    · intro hlinked o ho
      rw [Table.insert_rows inserted, List.mem_append, List.mem_singleton] at ho
      rcases ho with hold | rfl
      · exact hlinked o hold
      · -- the new outcome is of the application it was looked up by
        obtain ⟨hmem, hid⟩ := Table.mem_of_find h.found
        simp only [Application.hasId, Bool.and_eq_true] at hid
        exact List.find?_isSome.mpr ⟨application, hmem, hid.1⟩
  | refreshed a db' h =>
    refine ⟨?_, ?_, ?_, ?_, Moved.retired h⟩
    · rw [h.strategies, List.map_map]
      have horigin : origin ∘ settle a.tenantId a.θ a.now (a.scores H db) =
          (origin : Strategy T → Origin) := funext fun s => settle_origin _ s
      rw [horigin]
    · rw [h.applications]
    · rw [h.outcomes]
    · intro hlinked o ho
      rw [h.outcomes] at ho
      rw [applicationOf, h.applications]
      exact hlinked o ho

theorem history_grows (H : PolicyHost F) (db : PolicyDatabase F T) (ops : List (Operation F T)) :
    Grows db (Operation.history H db ops) := by
  induction ops generalizing db with
  | nil => exact (Untouched.refl db).grows
  | cons o ops ih => exact (after_effect o).grows.trans (ih (o.after H db))

/-! ## Two histories -/

/-- The strategies a history created. -/
def created (start final : PolicyDatabase F T) : List Origin :=
  (final.strategies.rows.drop start.strategies.rows.length).map origin

/-- What a history committed, in the order it did. -/
def committed (start final : PolicyDatabase F T) : List Credit :=
  credits final (final.outcomes.rows.drop start.outcomes.rows.length)

omit [PyFloat F] in
theorem Grows.origins (h : Grows db db') :
    db'.strategies.rows.map origin = db.strategies.rows.map origin ++ created db db' := by
  obtain ⟨rest, hrest⟩ := h.strategies
  rw [created, List.map_drop, ← hrest, ← List.length_map (f := origin), List.drop_left]

omit [PyFloat F] in
theorem Grows.credits (h : Grows db db') (hlinked : Linked db) :
    credits db' db'.outcomes.rows = PolicyCredit.credits db db.outcomes.rows ++ committed db db' := by
  obtain ⟨rest, hrest⟩ := h.outcomes
  have hold : PolicyCredit.credits db' db.outcomes.rows =
      PolicyCredit.credits db db.outcomes.rows := by
    apply List.filterMap_congr
    intro o ho
    rw [applicationOf_grows h.applications (hlinked o ho)]
  rw [committed, ← hold, ← hrest, List.drop_left, PolicyCredit.credits, PolicyCredit.credits,
    PolicyCredit.credits, List.filterMap_append]

theorem counts_congr {db₁ db₂ : PolicyDatabase F T} {s₁ s₂ : Strategy T}
    (horigin : origin s₂ = origin s₁)
    (hcredits : (credits db₂ db₂.outcomes.rows).Perm (credits db₁ db₁.outcomes.rows)) :
    (db₂.score H s₂).evaluations = (db₁.score H s₁).evaluations ∧
      (db₂.score H s₂).successes = (db₁.score H s₁).successes := by
  obtain ⟨hevaluations₁, hsuccesses₁⟩ := score_counts H db₁ s₁
  obtain ⟨hevaluations₂, hsuccesses₂⟩ := score_counts H db₂ s₂
  simp only [origin, Origin.mk.injEq] at horigin
  obtain ⟨hid, _, hfamily⟩ := horigin
  rw [hevaluations₁, hsuccesses₁, hevaluations₂, hsuccesses₂, hid, hfamily]
  exact ⟨hcredits.countP_eq _, hcredits.countP_eq _⟩

/-- Two strategies of two stores that a score tells apart in nothing that is counted. -/
structure SameStanding (H : PolicyHost F) (db db' : PolicyDatabase F T) (s s' : Strategy T) :
    Prop where
  origin : origin s' = origin s
  status : s'.status = s.status
  evaluations : (db'.score H s').evaluations = (db.score H s).evaluations
  successes : (db'.score H s').successes = (db.score H s).successes

/-- The outcome is the first of its application, from an allowed evaluator, and the application
is to another task family than the strategy came from. -/
structure Counted (db : PolicyDatabase F T) (a : OutcomeCall F) (s : Strategy T) : Prop where
  evaluator : a.evaluatorKind ∈ allowedEvaluators
  first : db.outcomes.find (OutcomeRow.hasId a.applicationId) = none
  family : ∃ application,
    db.applications.find (Application.hasId a.applicationId a.tenantId) = some application ∧
      application.strategyId = s.strategyId ∧ application.targetTaskFamily ≠ s.sourceTaskFamily

/-- Credit does not depend on the order it came in; outcomes that are not `Counted` add nothing,
and retired strategies stay as they are. -/
structure DelayedCredit (T : Type) (H : PolicyHost F) : Prop where
  order_independent : ∀ (start : LinkedDatabase F T) (ops ops' : List (Operation F T)),
    (created start.database (Operation.history H start.database ops)).Perm
      (created start.database (Operation.history H start.database ops')) →
    (committed start.database (Operation.history H start.database ops)).Perm
      (committed start.database (Operation.history H start.database ops')) →
    ∀ tenantId θ now stamp now' stamp' scores scores' final final',
      refreshStatuses H tenantId θ now stamp (Operation.history H start.database ops) =
        .ok scores final →
      refreshStatuses H tenantId θ now' stamp' (Operation.history H start.database ops') =
        .ok scores' final' →
      ∀ s ∈ final.strategies.rows, s.tenantId = tenantId → s.status ≠ .retired →
        ∃ s' ∈ final'.strategies.rows, SameStanding H final final' s s'
  uncounted : ∀ (db : PolicyDatabase F T) (a : OutcomeCall F) now stamp,
    ∀ s ∈ db.strategies.rows, ¬Counted db a s →
      (((Call.recordOutcome a now stamp).after H db).score H s).evaluations =
          (db.score H s).evaluations ∧
        (((Call.recordOutcome a now stamp).after H db).score H s).successes =
          (db.score H s).successes
  retired : ∀ (db : PolicyDatabase F T) (ops : List (Operation F T)), ∀ s ∈ db.strategies.rows,
    s.status = .retired → s ∈ (Operation.history H db ops).strategies.rows

omit [PyFloat F] in
/-- What a first outcome credits. -/
theorem Credited.credits {a : OutcomeCall F} {now : T} {application : Application T}
    (h : Credited db a now application db') :
    credits db' db'.outcomes.rows =
      PolicyCredit.credits db db.outcomes.rows ++ [creditOf application (a.row now)] := by
  obtain ⟨t, outbox, inserted, rfl⟩ := h.store
  obtain ⟨hmem, hid⟩ := Table.mem_of_find h.found
  simp only [Application.hasId, Bool.and_eq_true] at hid
  have happlication : applicationOf db (a.row now) = some application := by
    refine Table.find_of_mem twoKeysClash_symm hmem hid.1 ?_
    intro b hb
    exact Or.inl ((beq_iff_eq.mp hb).trans (beq_iff_eq.mp hid.1).symm)
  have hsame : ∀ o, applicationOf { db with outcomes := t, policyOutbox := outbox } o =
      applicationOf db o := fun _ => rfl
  simp only [PolicyCredit.credits, hsame]
  rw [Table.insert_rows inserted, List.filterMap_append]
  simp only [List.filterMap_cons, happlication, Option.map_some, List.filterMap_nil]

theorem uncounted {a : OutcomeCall F} {now : T} {stamp : Stamp T} {s : Strategy T}
    (h : ¬Counted db a s) :
    (((Call.recordOutcome a now stamp).after H db).score H s).evaluations =
        (db.score H s).evaluations ∧
      (((Call.recordOutcome a now stamp).after H db).score H s).successes =
        (db.score H s).successes := by
  have heffect : Effect H db (.call (.recordOutcome a now stamp))
      ((Call.recordOutcome a now stamp).after H db) := after_effect _
  generalize (Call.recordOutcome a now stamp).after H db = db' at heffect ⊢
  obtain ⟨hevaluations, hsuccesses⟩ := score_counts H db s
  obtain ⟨hevaluations', hsuccesses'⟩ := score_counts H db' s
  cases heffect with
  | kept _ _ h =>
    refine counts_congr rfl ?_
    rw [credits, credits, h.outcomes]
    simp only [applicationOf, h.applications]
    exact List.Perm.refl _
  | credited _ _ _ application _ hcredited =>
    have hmiss : (creditOf application (a.row now)).counts s.strategyId s.sourceTaskFamily =
        false := by
      by_contra hcounts
      rw [Bool.not_eq_false, Credit.counts, Bool.and_eq_true, beq_iff_eq, bne_iff_ne] at hcounts
      exact h ⟨hcredited.evaluator, hcredited.first, application, hcredited.found, hcounts⟩
    rw [hevaluations, hsuccesses, hevaluations', hsuccesses', hcredited.credits,
      List.countP_append, List.countP_append, List.countP_singleton, List.countP_singleton, hmiss]
    simp

theorem order_independent {start db₁ db₂ final₁ final₂ : PolicyDatabase F T}
    (hlinked : Linked start) (hgrows₁ : Grows start db₁) (hgrows₂ : Grows start db₂)
    (hcreated : (created start db₁).Perm (created start db₂))
    (hcommitted : (committed start db₁).Perm (committed start db₂)) {tenantId : PyStr}
    {θ : Thresholds F} {now₁ now₂ : T} {stamp₁ stamp₂ : ℕ → Stamp T}
    {scores₁ scores₂ : List (StrategyScore F)}
    (hrun₁ : refreshStatuses H tenantId θ now₁ stamp₁ db₁ = .ok scores₁ final₁)
    (hrun₂ : refreshStatuses H tenantId θ now₂ stamp₂ db₂ = .ok scores₂ final₂) :
    ∀ s ∈ final₁.strategies.rows, s.tenantId = tenantId → s.status ≠ .retired →
      ∃ s' ∈ final₂.strategies.rows, SameStanding H final₁ final₂ s s' := by
  have hmoved : ∀ {now stamp scores} {db final : PolicyDatabase F T},
      refreshStatuses H tenantId θ now stamp db = .ok scores final →
        Grows db final ∧ Settled H tenantId θ final ∧
          credits final final.outcomes.rows = credits db db.outcomes.rows ∧
          final.strategies.rows.map origin = db.strategies.rows.map origin := by
    intro now stamp scores db final hrun
    obtain ⟨a, rfl, rfl, rfl, rfl⟩ := refreshCall_of_ok hrun
    have hm := (refresh_eq_ok.1 scores final hrun).1
    have horigin : origin ∘ settle a.tenantId a.θ a.now (a.scores H db) =
        (origin : Strategy T → Origin) := funext fun s => settle_origin _ s
    refine ⟨(Effect.refreshed a final hm).grows, hm.settled, ?_, ?_⟩
    · simp only [credits, applicationOf, hm.applications, hm.outcomes]
    · rw [hm.strategies, List.map_map, horigin]
  obtain ⟨hgrow₁, hsettled₁, hcredits₁, horigins₁⟩ := hmoved hrun₁
  obtain ⟨hgrow₂, hsettled₂, hcredits₂, horigins₂⟩ := hmoved hrun₂
  -- the two stores agree on what is counted and on what there is
  have hcredits : (credits final₂ final₂.outcomes.rows).Perm
      (credits final₁ final₁.outcomes.rows) := by
    rw [hcredits₁, hcredits₂, hgrows₁.credits hlinked, hgrows₂.credits hlinked]
    exact hcommitted.symm.append_left _
  have horigins : (final₁.strategies.rows.map origin).Perm
      (final₂.strategies.rows.map origin) := by
    rw [horigins₁, horigins₂, hgrows₁.origins, hgrows₂.origins]
    exact hcreated.append_left _
  intro s hs htenant hlive
  obtain ⟨s', hs', horigin⟩ := List.mem_map.mp (horigins.subset (List.mem_map_of_mem hs))
  obtain ⟨hevaluations, hsuccesses⟩ := counts_congr (H := H) horigin hcredits
  have hfields := horigin
  simp only [origin, Origin.mk.injEq] at hfields
  have hlive' : s'.status ≠ .retired := by
    -- a strategy retired in one is retired from the start, so in the other
    intro hretired
    have hstart := ((hgrows₂.trans hgrow₂).retired s' hretired).mp hs'
    have hfinal := ((hgrows₁.trans hgrow₁).retired s' hretired).mpr hstart
    have heq : s' = s :=
      final₁.strategies.eq_of_clash twoKeysClash_symm hfinal hs (Or.inl hfields.1)
    rw [heq] at hretired
    exact hlive hretired
  refine ⟨s', hs', horigin, ?_, hevaluations, hsuccesses⟩
  rw [hsettled₁ s hs htenant hlive, hsettled₂ s' hs' (hfields.2.1.trans htenant) hlive']
  apply target_congr hevaluations
  rw [scored (H := H) final₂ s', scored (H := H) final₁ s, hevaluations, hsuccesses]

theorem delayedCredit (T : Type) (H : PolicyHost F) : DelayedCredit T H where
  order_independent start ops ops' hcreated hcommitted _ _ _ _ _ _ _ _ _ _ hrun hrun' :=
    order_independent start.linked (history_grows H _ ops) (history_grows H _ ops') hcreated
      hcommitted hrun hrun'
  uncounted _ _ _ _ _ _ h := uncounted h
  retired db ops s hs hretired := ((history_grows H db ops).retired s hretired).mpr hs

end PolicyCredit
