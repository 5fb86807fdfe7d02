import VeriMat.GrowingState
import VeriMat.OrderedRunner
import VeriMat.PolicyFlush

/-! # What an ordered run may credit

Any number of ordered runs bind, execute, apply and credit at once, and crash between any two
operations. A bound intervention is never changed, so that whoever executes a task does so with
the strategies that were bound first; credit goes through an application that goes through an
intervention, of which a delayed one names at most one strategy. -/
namespace OrderedRuns

open PyText JsonText PyValue KeyedTable AtomicProgram RelyGuarantee Interleaving GrowingState
open Transaction PolicyStore PolicyRefresh PolicyCredit PolicyAudit PolicyDelivery PolicyFlush
open PolicyRecall OrderedRunner

variable {F T : Type} [PyFloat F]

/-! ## The store -/

section Store
variable {H : PolicyHost F} {db db' : PolicyDatabase F T}

/-- The tables that carry the provenance of credit are as they were. -/
structure Aside (db db' : PolicyDatabase F T) : Prop where
  interventions : db'.sequenceInterventions = db.sequenceInterventions
  applications : db'.applications = db.applications
  outcomes : db'.outcomes = db.outcomes

omit [PyFloat F] in
theorem Aside.refl (db : PolicyDatabase F T) : Aside db db := ⟨rfl, rfl, rfl⟩

omit [PyFloat F] in
theorem aside_readOnly {α : Type} {x : PolicyDb F T α} (hx : ReadOnly x) :
    Aside db (ran x db).2 :=
  hx.leaves Aside.refl db

theorem aside_proposeStrategy (a : Proposal) (uuid : PyStr) (now : T) (stamp : Stamp T) :
    Aside db (ran (proposeStrategy H a uuid now stamp) db).2 := by
  cases hrun : proposeStrategy H a uuid now stamp db with
  | ok strategyId db' =>
    rw [ran_ok hrun]
    rcases proposeStrategy_eq_ok hrun with rfl | ⟨key, t, outbox, -, rfl⟩
    · exact .refl _
    · exact ⟨rfl, rfl, rfl⟩
  | error e db' =>
    have hraised : (Call.proposeStrategy a uuid now stamp).run H db = .error e db' :=
      bind_eq_error.mpr (.inl hrun)
    rw [ran_error hrun, run_atomic _ _ _ _ hraised]
    exact .refl db

theorem aside_refreshStatuses (tenantId : PyStr) (θ : Thresholds F) (now : T)
    (stamp : ℕ → Stamp T) :
    Aside db (ran (refreshStatuses H tenantId θ now stamp) db).2 := by
  cases hrun : refreshStatuses H tenantId θ now stamp db with
  | ok scores db' =>
    obtain ⟨a, rfl, rfl, rfl, rfl⟩ := refreshCall_of_ok hrun
    have hmoved := (refresh_eq_ok.1 scores db' hrun).1
    rw [ran_ok hrun]
    exact ⟨hmoved.interventions, hmoved.applications, hmoved.outcomes⟩
  | error e db' =>
    have hraised : (Call.refreshStatuses tenantId θ now stamp).run H db = .error e db' :=
      bind_eq_error.mpr (.inl hrun)
    rw [ran_error hrun, run_atomic _ _ _ _ hraised]
    exact .refl db

omit [PyFloat F] in
theorem readOnly_applicationHasOutcome (tenantId applicationId : PyStr) :
    ReadOnly (applicationHasOutcome tenantId applicationId : PolicyDb F T Bool) :=
  (readOnly_bindText _).bind fun _ => (readOnly_bindText _).bind fun _ =>
    readOnly_get.bind fun _ => readOnly_pure _

omit [PyFloat F] in
theorem aside_markDispatched (tenantId eventId : PyStr) (now : T) :
    Aside db (ran (markDispatched tenantId eventId now : PolicyDb F T Unit) db).2 := by
  rcases ran_markDispatched db tenantId eventId now with hsame | hmarked
  · rw [hsame]
    exact .refl db
  · rw [hmarked]
    exact ⟨rfl, rfl, rfl⟩

/-! ### Applications -/

/-- What a recorded application leaves: one of this key and this strategy, new or not. -/
structure Recorded (db : PolicyDatabase F T) (a : ApplicationCall) (applicationId : PyStr)
    (row : Application T) : Prop where
  recorded : row ∈ db.applications.rows
  applicationId : row.applicationId = applicationId
  tenant : row.tenantId = a.tenantId
  strategy : row.strategyId = a.strategyId
  key : row.idempotencyKey = a.idempotencyKey

theorem recordApplication_recorded {a : ApplicationCall} {uuid : PyStr} {now : T}
    {stamp : Stamp T} {applicationId : PyStr}
    (h : recordApplication H a uuid now stamp db = .ok applicationId db') :
    ∃ row, Recorded db' a applicationId row ∧ (db' = db ∨
      ∃ t outbox, db.applications.insert row = some t ∧
        db' = { db with applications := t, policyOutbox := outbox }) := by
  simp only [recordApplication, bind_eq_ok, raiseIf_eq_ok, immediate_eq_ok, bindText_eq_ok,
    encoded_eq_ok, get_apply, EStateM.Result.ok.injEq] at h
  obtain ⟨_, _, hstrategy, _, _, ⟨_, rfl⟩, query, _, ⟨_, rfl⟩, _, _, hagain, _, _, ⟨_, rfl⟩, _, _,
    ⟨rfl, rfl⟩, h⟩ := h
  obtain ⟨rfl, _⟩ := applicableStrategy_eq_ok hstrategy
  obtain ⟨rfl, _⟩ := applicableStrategy_eq_ok hagain
  generalize hfind : Table.find _ _ = found at h
  cases found with
  | some existing =>
    simp only [bind_eq_ok, raiseIf_eq_ok, pure_eq_ok, not_not] at h
    obtain ⟨_, _, ⟨hsame, rfl⟩, rfl, rfl⟩ := h
    obtain ⟨hmem, hkey⟩ := Table.mem_of_find hfind
    simp only [Application.hasKey, Bool.and_eq_true, beq_iff_eq] at hkey
    exact ⟨existing, ⟨hmem, rfl, hkey.1, hsame.1, hkey.2⟩, .inl rfl⟩
  | none =>
    simp only [insertApplication, bind_eq_ok, bindText_eq_ok, get_apply, EStateM.Result.ok.injEq,
      orRaise_eq_ok, set_eq_ok, pure_eq_ok] at h
    obtain ⟨_, _, ⟨_, rfl⟩, _, _, ⟨_, rfl⟩, _, _, ⟨_, rfl⟩, _, _,
      ⟨_, _, ⟨rfl, rfl⟩, t, _, ⟨ht, rfl⟩, rfl⟩, _, _, henqueue, rfl, rfl⟩ := h
    obtain ⟨outbox, rfl⟩ := enqueue_eq_ok henqueue
    refine ⟨_, ⟨?_, rfl, rfl, rfl, rfl⟩, .inr ⟨t, outbox, ht, rfl⟩⟩
    rw [Table.insert_rows ht]
    exact List.mem_append_right _ List.mem_cons_self

/-! ### Interventions -/

/-- What a binding does to the interventions: they stay, and its own row may come, where its place
has none. -/
structure Settles (a : Binding) (db db' : PolicyDatabase F T) : Prop where
  kept : ∀ i ∈ db.sequenceInterventions.rows, i ∈ db'.sequenceInterventions.rows
  fresh : ∀ i ∈ db'.sequenceInterventions.rows, i ∈ db.sequenceInterventions.rows ∨
    Bindable a.strategyIds ∧ (∃ now, i = a.row (interventionText a.strategyIds) now) ∧
      ∀ old ∈ db.sequenceInterventions.rows, ¬sequenceClash old.key i.key

omit [PyFloat F] in
theorem Settles.refl (a : Binding) (db : PolicyDatabase F T) : Settles a db db :=
  ⟨fun _ hi => hi, fun _ hi => .inl hi⟩

omit [PyFloat F] in
theorem Settles.trans {a : Binding} {db₁ db₂ db₃ : PolicyDatabase F T} (h : Settles a db₁ db₂)
    (h' : Settles a db₂ db₃) : Settles a db₁ db₃ := by
  refine ⟨fun i hi => h'.kept i (h.kept i hi), ?_⟩
  intro i hi
  rcases h'.fresh i hi with hi | ⟨hids, hrow, hnew⟩
  · exact h.fresh i hi
  · exact .inr ⟨hids, hrow, fun old hold => hnew old (h.kept old hold)⟩

omit [PyFloat F] in
theorem settles_bind {a : Binding} {α β : Type} {x : PolicyDb F T α} {f : α → PolicyDb F T β}
    (hx : Leaves (Settles a) x) (hf : ∀ b, Leaves (Settles a) (f b)) :
    Leaves (Settles a) (x >>= f) :=
  hx.bind hf fun _ _ _ => Settles.trans

omit [PyFloat F] in
theorem settles_readOnly {a : Binding} {α : Type} {x : PolicyDb F T α} (hx : ReadOnly x) :
    Leaves (Settles a) x :=
  hx.leaves (Settles.refl a)

omit [PyFloat F] in
theorem settles_insertIntervention {a : Binding} (hids : Bindable a.strategyIds) (now : T) :
    Leaves (Settles a) (insertIntervention (a.row (interventionText a.strategyIds) now) :
      PolicyDb F T Unit) := by
  refine leaves_iff.mpr fun db => ⟨?_, ?_⟩
  · intro u db' h
    obtain ⟨t, ht, hset⟩ := orRaise_bind_ok.mp (get_bind_ok.mp h)
    obtain rfl := set_eq_ok.mp hset
    have hrows := Table.insert_rows ht
    constructor
    · intro i hi
      exact hrows ▸ List.mem_append_left _ hi
    · intro i hi
      rcases List.mem_append.mp (hrows ▸ hi) with hi | hi
      · exact .inl hi
      · rw [List.mem_singleton.mp hi]
        exact .inr ⟨hids, ⟨now, rfl⟩, Table.insert_isSome.mp ⟨t, ht⟩⟩
  · intro e db' h
    have hatomic : Atomic (insertIntervention (a.row (interventionText a.strategyIds) now) :
        PolicyDb F T Unit) :=
      readOnly_get.bind_atomic fun _ _ _ => (readOnly_orRaise _ _).bind_atomic fun _ _ _ =>
        (infallible_set _).atomic
    rw [hatomic db e db' h]
    exact .refl a db

theorem settles_enqueue (a : Binding) (e : OutboxEvent F) (stamp : Stamp T) :
    Leaves (Settles a) (enqueue e stamp : PolicyDb F T Unit) := by
  rw [enqueue]
  cases dumps e.payload with
  | error cause => exact settles_readOnly (readOnly_throw _)
  | ok rendered =>
    have hatomic : Atomic (insertOutbox (e.row rendered stamp) : PolicyDb F T Unit) :=
      readOnly_get.bind_atomic fun _ _ _ => (readOnly_orRaise _ _).bind_atomic fun _ _ _ =>
        (infallible_set _).atomic
    refine leaves_iff.mpr fun db => ⟨?_, ?_⟩
    · intro u db' h
      obtain ⟨t, _, rfl⟩ := insertOutbox_eq_ok.mp h
      exact ⟨fun _ hi => hi, fun _ hi => .inl hi⟩
    · intro e db' h
      rw [hatomic db e db' h]
      exact .refl a db

theorem settles_bindIntervention {a : Binding} (hids : Bindable a.strategyIds) (now : T)
    (stamp : Stamp T) :
    Leaves (Settles a) (bindIntervention a (interventionText a.strategyIds) now stamp :
      PolicyDb F T Unit) := by
  refine settles_bind (settles_readOnly (readOnly_bindText _)) fun _ => ?_
  refine settles_bind (settles_readOnly (readOnly_bindText _)) fun _ => ?_
  refine settles_bind (settles_readOnly (readOnly_raiseIf _ _)) fun _ => ?_
  refine settles_bind (settles_readOnly readOnly_get) fun db => ?_
  generalize Table.find _ _ = found
  cases found with
  | some existing => exact settles_readOnly (readOnly_raiseIf _ _)
  | none =>
    refine settles_bind (settles_readOnly (readOnly_bindText _)) fun _ => ?_
    refine settles_bind (settles_readOnly (readOnly_bindText _)) fun _ => ?_
    refine settles_bind (settles_readOnly (readOnly_bindText _)) fun _ => ?_
    exact settles_bind (settles_insertIntervention hids now) fun _ => settles_enqueue a _ stamp

omit [PyFloat F] in
theorem bindable_of_forM {ids : List PyStr} {u : PUnit}
    (h : (ids.forM bindText : PolicyDb F T PUnit) db = .ok u db') : Bindable ids ∧ db' = db := by
  induction ids with
  | nil => exact ⟨by simp [Bindable], (pure_eq_ok.mp h).2⟩
  | cons s ids ih =>
    obtain ⟨_, _, hbind, hrest⟩ := bind_eq_ok.mp h
    obtain ⟨hs, rfl⟩ := bindText_eq_ok.mp hbind
    obtain ⟨hids, rfl⟩ := ih hrest
    exact ⟨List.forall_mem_cons.mpr ⟨hs, hids⟩, rfl⟩

omit [PyFloat F] in
/-- Reads in front of what settles a binding; it may count on what they returned. -/
theorem settles_behind {a : Binding} {α β : Type} {x : PolicyDb F T α} {f : α → PolicyDb F T β}
    (hx : ReadOnly x) (hf : ∀ b, x db = .ok b db → Settles a db (ran (f b) db).2) :
    Settles a db (ran (x >>= f) db).2 := by
  cases hrun : x db with
  | ok b db₁ =>
    obtain rfl := (hx db).1 b db₁ hrun
    have hbind : (x >>= f) db₁ = f b db₁ := by
      change EStateM.bind x f db₁ = _
      rw [EStateM.bind, hrun]
    have hran : ran (x >>= f) db₁ = ran (f b) db₁ := by rw [ran, ran, hbind]
    rw [hran]
    exact hf b hrun
  | error e db₁ =>
    have hraised : (x >>= f) db = .error e db₁ := bind_eq_error.mpr (.inl hrun)
    rw [ran_error hraised, (hx db).2 e db₁ hrun]
    exact .refl a db

/-- Only ids that can be encoded are bound at all. -/
theorem settles_bindSequenceIntervention (a : Binding) (now : T) (stamp : Stamp T)
    (db : PolicyDatabase F T) :
    Settles a db (ran (bindSequenceIntervention H a now stamp) db).2 := by
  refine settles_behind (readOnly_raiseIf _ _) fun _ _ => ?_
  refine settles_behind (readOnly_bindText _) fun _ _ => ?_
  refine settles_behind (readOnly_forM_bindText _) fun _ hforM => ?_
  refine settles_behind readOnly_get fun _ _ => ?_
  refine settles_behind (readOnly_raiseIf _ _) fun _ _ => ?_
  have hids := (bindable_of_forM hforM).1
  rw [asciiDumps_strings hids]
  refine settles_bind ((settles_bindIntervention hids now stamp).immediate (Settles.refl a))
    (fun _ => ?_) db
  exact settles_readOnly ((readOnly_scoreRows H _).bind fun _ => readOnly_scoresOf _ _)

/-- The intervention is the one a binding asks for. -/
structure Binds (a : Binding) (i : SequenceIntervention T) : Prop where
  tenant : i.tenantId = a.tenantId
  run : i.runId = a.runId
  method : i.methodId = a.methodId
  index : i.sequenceIndex = a.sequenceIndex
  same : a.same (interventionText a.strategyIds) i

theorem bindIntervention_eq_ok {a : Binding} {now : T} {stamp : Stamp T} {u : Unit}
    (h : bindIntervention a (interventionText a.strategyIds) now stamp db = .ok u db') :
    ∃ i ∈ db'.sequenceInterventions.rows, Binds a i := by
  simp only [bindIntervention, bind_eq_ok, bindText_eq_ok, bindInt, raiseIf_eq_ok, get_apply,
    EStateM.Result.ok.injEq] at h
  obtain ⟨_, _, ⟨-, rfl⟩, _, _, ⟨-, rfl⟩, _, _, ⟨-, rfl⟩, _, _, ⟨rfl, rfl⟩, h⟩ := h
  generalize hfind : Table.find _ _ = found at h
  cases found with
  | some existing =>
    obtain ⟨hsame, rfl⟩ := raiseIf_eq_ok.mp h
    obtain ⟨hmem, hat⟩ := Table.mem_of_find hfind
    simp only [SequenceIntervention.isAt, Bool.and_eq_true, beq_iff_eq] at hat
    obtain ⟨⟨⟨htenant, hrun⟩, hmethod⟩, hindex⟩ := hat
    exact ⟨existing, hmem, htenant, hrun, hmethod, hindex, not_not.mp hsame⟩
  | none =>
    simp only [insertIntervention, bind_eq_ok, bindText_eq_ok, get_apply,
      EStateM.Result.ok.injEq, orRaise_eq_ok, set_eq_ok] at h
    obtain ⟨_, _, ⟨-, rfl⟩, _, _, ⟨-, rfl⟩, _, _, ⟨-, rfl⟩, _, _,
      ⟨_, _, ⟨rfl, rfl⟩, t, _, ⟨ht, rfl⟩, rfl⟩, henqueue⟩ := h
    obtain ⟨outbox, rfl⟩ := enqueue_eq_ok henqueue
    refine ⟨a.row (interventionText a.strategyIds) now, ?_, rfl, rfl, rfl, rfl, rfl, rfl, rfl, rfl⟩
    rw [Table.insert_rows ht]
    exact List.mem_append_right _ List.mem_cons_self

/-- Whoever binds gets the scores of what is bound then. -/
theorem bindSequenceIntervention_eq_ok {a : Binding} {now : T} {stamp : Stamp T}
    {selected : List (StrategyScore F)}
    (h : bindSequenceIntervention H a now stamp db = .ok selected db') :
    Bindable a.strategyIds ∧ selected.map (·.strategyId) = a.strategyIds ∧
      ∃ i ∈ db'.sequenceInterventions.rows, Binds a i := by
  obtain ⟨-, hvalid⟩ := raiseIf_bind_ok.mp h
  obtain ⟨_, db₁, htenant, htexts⟩ := bind_eq_ok.mp hvalid
  obtain ⟨_, db₂, hforM, hget⟩ := bind_eq_ok.mp htexts
  obtain ⟨hids, rfl⟩ := bindable_of_forM hforM
  have hread := get_bind_ok.mp hget
  obtain ⟨-, hrendered⟩ := raiseIf_bind_ok.mp hread
  rw [asciiDumps_strings hids] at hrendered
  obtain ⟨_, db₃, hbound, hreturn⟩ := bind_eq_ok.mp hrendered
  obtain ⟨scores, db₄, hscores, hselected⟩ := bind_eq_ok.mp hreturn
  obtain ⟨rfl, -⟩ := mem_scoreRows hscores
  obtain ⟨rfl, hgiven⟩ := scoresOf_eq_ok hselected
  exact ⟨hids, hgiven, bindIntervention_eq_ok (immediate_eq_ok.mp hbound)⟩

/-! ### Outcomes -/

/-- What credit does to the outcomes: they stay, and one of this application may come. -/
structure Settled (applicationId : PyStr) (db db' : PolicyDatabase F T) : Prop where
  interventions : db'.sequenceInterventions = db.sequenceInterventions
  applications : db'.applications = db.applications
  outcomes : ∀ o ∈ db'.outcomes.rows, o ∈ db.outcomes.rows ∨ o.applicationId = applicationId

theorem settled_recordOutcome (a : OutcomeCall F) (now : T) (stamp : Stamp T) :
    Settled a.applicationId db (ran (recordOutcome H a now stamp) db).2 := by
  cases hrun : recordOutcome H a now stamp db with
  | ok u db' =>
    rw [ran_ok hrun]
    rcases recordOutcome_eq_ok hrun with ⟨rfl, -⟩ | ⟨application, hcredited⟩
    · exact ⟨rfl, rfl, fun _ ho => .inl ho⟩
    · obtain ⟨t, outbox, ht, rfl⟩ := hcredited.store
      refine ⟨rfl, rfl, ?_⟩
      intro o ho
      rcases List.mem_append.mp (Table.insert_rows ht ▸ ho) with ho | ho
      · exact .inl ho
      · rw [List.mem_singleton.mp ho]
        exact .inr rfl
  | error e db' =>
    have hraised : (Call.recordOutcome a now stamp).run H db = .error e db' := hrun
    rw [ran_error hrun, run_atomic _ _ _ _ hraised]
    exact ⟨rfl, rfl, fun _ ho => .inl ho⟩

end Store

/-! ## Where credit comes from -/

/-- The place an intervention is bound to. -/
def placeOf (i : SequenceIntervention T) : Place :=
  ⟨i.tenantId, i.runId, i.methodId, i.sequenceIndex⟩

/-- The place a binding asks for. -/
def placeAsked (a : Binding) : Place := ⟨a.tenantId, a.runId, a.methodId, a.sequenceIndex⟩

/-- The intervention names these strategies. -/
structure Names (i : SequenceIntervention T) (ids : List PyStr) : Prop where
  bindable : Bindable ids
  text : i.strategyIds = interventionText ids

theorem Names.unique {i : SequenceIntervention T} {ids ids' : List PyStr} (h : Names i ids)
    (h' : Names i ids') : ids = ids' :=
  interventionText_injective h.bindable h'.bindable (h.text.symm.trans h'.text)

def Delayed (i : SequenceIntervention T) : Prop :=
  i.memoryMode = MemoryMode.delayedExternalCredit.value

/-- The application is one of a strategy the intervention names. -/
structure Uses (i : SequenceIntervention T) (a : Application T) : Prop where
  tenant : a.tenantId = i.tenantId
  named : ∃ ids, Names i ids ∧ a.strategyId ∈ ids
  key : a.idempotencyKey = applicationKey (placeOf i) a.strategyId

/-- The execution is one with the strategies the intervention names. -/
structure Follows (i : SequenceIntervention T) (a : TaskCall F) : Prop where
  place : a.place = placeOf i
  challenge : a.challengeId = i.challengeId
  named : Names i a.strategyIds

section Provenance

/-- Everything leads back to an intervention that is bound. -/
structure Provenance (s : Bench F T) : Prop where
  bound : ∀ i ∈ s.interventions, ∃ ids, Names i ids ∧ (Delayed i → ids.length ≤ 1)
  applied : ∀ a ∈ s.applications, ∃ i ∈ s.interventions, Uses i a
  credited : ∀ o ∈ s.outcomes, ∃ a ∈ s.applications,
    a.applicationId = o.applicationId ∧ ∃ i ∈ s.interventions, Delayed i ∧ Uses i a
  executed : ∀ e ∈ s.executions, ∃ i ∈ s.interventions, Follows i e.task
  evaluated : ∀ e ∈ s.evaluations, ⟨e.1, some e.2⟩ ∈ s.executions ∧ e.1.strategies ≠ [] ∧
    ∃ i ∈ s.interventions, Delayed i ∧ Follows i e.1

/-- Nothing bound, applied or executed is taken back. -/
structure Grows (s s' : Bench F T) : Prop where
  interventions : ∀ i ∈ s.interventions, i ∈ s'.interventions
  applications : ∀ a ∈ s.applications, a ∈ s'.applications
  executions : ∀ e ∈ s.executions, e ∈ s'.executions

omit [PyFloat F] in
theorem Grows.refl (s : Bench F T) : Grows s s := ⟨fun _ h => h, fun _ h => h, fun _ h => h⟩

/-- None of this changes. -/
structure Quiet (s s' : Bench F T) : Prop where
  store : Aside s.db s'.db
  executions : s'.executions = s.executions
  evaluations : s'.evaluations = s.evaluations

variable {s s' : Bench F T}

omit [PyFloat F] in
theorem Quiet.refl (s : Bench F T) : Quiet s s := ⟨.refl _, rfl, rfl⟩

omit [PyFloat F] in
theorem Quiet.grows (h : Quiet s s') : Grows s s' := by
  refine ⟨?_, ?_, ?_⟩
  · intro i hi
    rwa [Bench.interventions, Bench.db, h.store.interventions]
  · intro a ha
    rwa [Bench.applications, Bench.db, h.store.applications]
  · intro e he
    rwa [h.executions]

omit [PyFloat F] in
/-- What is led back stays led back, when only interventions and executions are added to it. -/
theorem Provenance.after (hs : Provenance s) (h : Grows s s')
    (hbound : ∀ i ∈ s'.interventions, i ∈ s.interventions ∨
      ∃ ids, Names i ids ∧ (Delayed i → ids.length ≤ 1))
    (happlied : ∀ a ∈ s'.applications, a ∈ s.applications ∨
      ∃ i ∈ s'.interventions, Uses i a)
    (hcredited : ∀ o ∈ s'.outcomes, o ∈ s.outcomes ∨ ∃ a ∈ s'.applications,
      a.applicationId = o.applicationId ∧ ∃ i ∈ s'.interventions, Delayed i ∧ Uses i a)
    (hexecuted : ∀ e ∈ s'.executions, e ∈ s.executions ∨
      ∃ i ∈ s'.interventions, Follows i e.task)
    (hevaluated : ∀ e ∈ s'.evaluations, e ∈ s.evaluations ∨ ⟨e.1, some e.2⟩ ∈ s'.executions ∧
      e.1.strategies ≠ [] ∧ ∃ i ∈ s'.interventions, Delayed i ∧ Follows i e.1) :
    Provenance s' := by
  refine ⟨?_, ?_, ?_, ?_, ?_⟩
  · intro i hi
    rcases hbound i hi with hi | hnew
    · exact hs.bound i hi
    · exact hnew
  · intro a ha
    rcases happlied a ha with ha | hnew
    · obtain ⟨i, hi, huses⟩ := hs.applied a ha
      exact ⟨i, h.interventions i hi, huses⟩
    · exact hnew
  · intro o ho
    rcases hcredited o ho with ho | hnew
    · obtain ⟨a, ha, hid, i, hi, hdelayed, huses⟩ := hs.credited o ho
      exact ⟨a, h.applications a ha, hid, i, h.interventions i hi, hdelayed, huses⟩
    · exact hnew
  · intro e he
    rcases hexecuted e he with he | hnew
    · obtain ⟨i, hi, hfollows⟩ := hs.executed e he
      exact ⟨i, h.interventions i hi, hfollows⟩
    · exact hnew
  · intro e he
    rcases hevaluated e he with he | hnew
    · obtain ⟨hexecution, hselected, i, hi, hdelayed, hfollows⟩ := hs.evaluated e he
      exact ⟨h.executions _ hexecution, hselected, i, h.interventions i hi, hdelayed, hfollows⟩
    · exact hnew

omit [PyFloat F] in
theorem Quiet.provenance (h : Quiet s s') (hs : Provenance s) : Provenance s' := by
  refine hs.after h.grows ?_ ?_ ?_ ?_ ?_
  · intro i hi
    rw [Bench.interventions, Bench.db, h.store.interventions] at hi
    exact .inl hi
  · intro a ha
    rw [Bench.applications, Bench.db, h.store.applications] at ha
    exact .inl ha
  · intro o ho
    rw [Bench.outcomes, Bench.db, h.store.outcomes] at ho
    exact .inl ho
  · intro e he
    rw [h.executions] at he
    exact .inl he
  · intro e he
    rw [h.evaluations] at he
    exact .inl he

end Provenance

/-! ## One operation -/

section Operations
variable [LinearOrder T] {H : AuditHost F T} {s s' : Bench F T}

/-- An operation that neither binds, executes, applies nor credits. -/
def Passive : OrderedOp F → Prop
  | .bind _ => False
  | .runTask _ => False
  | .recordApplication _ => False
  | .evaluate .. => False
  | .recordOutcome _ => False
  | _ => True

omit [PyFloat F] [LinearOrder T] in
theorem carries_ok {α : Type} {x : PolicyDb F T α} {a : α} (h : Carries x s (.ok a) s') :
    x s.db = .ok a s'.db := by
  obtain ⟨hreply, rfl⟩ := h
  cases hrun : x s.db with
  | ok b db' =>
    rw [ran_ok hrun] at hreply ⊢
    obtain rfl := Except.ok.inj hreply
    rfl
  | error e db' =>
    rw [ran_error hrun] at hreply
    cases hreply

omit [PyFloat F] [LinearOrder T] in
theorem quiet_carries {α : Type} {x : PolicyDb F T α} {reply : Except (OrderedError F) α}
    (h : Carries x s reply s') (hx : Aside s.db (ran x s.db).2) : Quiet s s' := by
  obtain ⟨-, rfl⟩ := h
  exact ⟨hx, rfl, rfl⟩

theorem quiet_flush {o : FlushOp F} {r : FlushReply F T o} {audit : Audit F T}
    (h : PolicyAudit.Performs H s.audit o r audit ∨ Killed H s.audit o r audit) :
    Aside s.db audit.db := by
  rcases h with h | h
  · cases o with
    | pendingEvents tenantId limit =>
      obtain ⟨-, rfl⟩ := h
      exact aside_readOnly (readOnly_pendingEvents tenantId limit)
    | append c =>
      obtain ⟨_, _, _, _, rfl⟩ := h
      exact .refl _
    | markDispatched tenantId eventId =>
      obtain ⟨now, _, rfl⟩ := h
      exact aside_markDispatched tenantId eventId now
    | verify =>
      obtain ⟨-, rfl⟩ := h
      exact .refl _
  · cases o with
    | append c =>
      obtain ⟨-, _, _, _, _, _, rfl⟩ := h
      exact .refl _
    | _ => exact h.elim

theorem quiet_passive {o : OrderedOp F} {reply : OrderedReply F T o} (ho : Passive o)
    (h : OrderedRunner.Performs H s o reply s') : Quiet s s' := by
  cases o with
  | sequenceIntervention p =>
    exact quiet_carries h (aside_readOnly readOnly_sequenceIntervention)
  | recallUncredited tenantId family limit =>
    exact quiet_carries h (aside_readOnly readOnly_recallUncredited)
  | recallActive tenantId family limit =>
    exact quiet_carries h (aside_readOnly readOnly_recallActive)
  | recallCandidate tenantId family =>
    exact quiet_carries h (aside_readOnly readOnly_recallCandidate)
  | applicationHasOutcome tenantId applicationId =>
    exact quiet_carries h (aside_readOnly (readOnly_applicationHasOutcome _ _))
  | refreshStatuses tenantId θ =>
    obtain ⟨now, stamp, h⟩ := h
    exact quiet_carries h (aside_refreshStatuses tenantId θ now stamp)
  | proposeStrategy a =>
    obtain ⟨uuid, now, stamp, h⟩ := h
    exact quiet_carries h (aside_proposeStrategy a uuid now stamp)
  | flush o =>
    obtain ⟨r, audit, -, rfl, h⟩ := h
    exact ⟨quiet_flush h, rfl, rfl⟩
  | counterQueries tenantId jobId =>
    obtain rfl := h
    exact .refl _
  | strategyCandidates tenantId jobId =>
    obtain rfl := h
    exact .refl _
  | auditLinks ledgerRelpath =>
    obtain rfl := h
    exact .refl _
  | linkAudit ledgerRelpath jobId challengeId report =>
    obtain rfl := h
    exact .refl _
  | verifyTask ledgerRelpath =>
    obtain rfl := h
    exact .refl _
  | _ => exact ho.elim

/-! ### Operations that leave a trace -/

theorem grows_bind {a : Binding} {reply : OrderedReply F T (.bind a)}
    (h : OrderedRunner.Performs H s (.bind a) reply s') : Grows s s' := by
  obtain ⟨now, stamp, -, rfl⟩ := h
  have hsettles := settles_bindSequenceIntervention (H := H.policy) a now stamp s.db
  have huntouched := aside_bindSequenceIntervention (H := H.policy) a now stamp s.db
  refine ⟨hsettles.kept, ?_, fun _ he => he⟩
  intro row hrow
  rwa [Bench.applications, Bench.db, Bench.withDb, huntouched.applications]

theorem provenance_bind {a : Binding} {reply : OrderedReply F T (.bind a)}
    (hs : Provenance s) (h : OrderedRunner.Performs H s (.bind a) reply s')
    (hone : (∃ i ∈ s.interventions, placeOf i = placeAsked a) ∨
      (a.memoryMode = MemoryMode.delayedExternalCredit.value → a.strategyIds.length ≤ 1)) :
    Provenance s' := by
  have hgrows := grows_bind h
  obtain ⟨now, stamp, -, rfl⟩ := h
  have hsettles := settles_bindSequenceIntervention (H := H.policy) a now stamp s.db
  have huntouched := aside_bindSequenceIntervention (H := H.policy) a now stamp s.db
  refine hs.after hgrows ?_ ?_ ?_ (fun _ he => .inl he) fun _ he => .inl he
  · intro i hi
    rcases hsettles.fresh i hi with hold | ⟨hids, ⟨at', rfl⟩, hnew⟩
    · exact .inl hold
    · refine .inr ⟨a.strategyIds, ⟨hids, rfl⟩, ?_⟩
      intro hdelayed
      rcases hone with ⟨old, hold, hplace⟩ | hone
      · -- a place has one intervention only
        obtain ⟨htenant, hrun, hmethod, hindex⟩ := Place.mk.inj hplace
        refine absurd ?_ (hnew old hold)
        exact ⟨by rw [SequenceIntervention.key, htenant, hrun, hmethod]; rfl, .inl hindex⟩
      · exact hone hdelayed
  · intro row hrow
    rw [Bench.applications, Bench.db, Bench.withDb, huntouched.applications] at hrow
    exact .inl hrow
  · intro o ho
    rw [Bench.outcomes, Bench.db, Bench.withDb, huntouched.outcomes] at ho
    exact .inl ho

theorem grows_runTask {a : TaskCall F} {reply : OrderedReply F T (.runTask a)}
    (h : OrderedRunner.Performs H s (.runTask a) reply s') : Grows s s' := by
  obtain rfl := h
  exact ⟨fun _ h => h, fun _ h => h, fun _ h => List.mem_append_left _ h⟩

theorem provenance_runTask {a : TaskCall F} {reply : OrderedReply F T (.runTask a)}
    (hs : Provenance s) (h : OrderedRunner.Performs H s (.runTask a) reply s')
    (hbound : ∃ i ∈ s.interventions, Follows i a) : Provenance s' := by
  have hgrows := grows_runTask h
  obtain rfl := h
  refine hs.after hgrows (fun _ h => .inl h) (fun _ h => .inl h) (fun _ h => .inl h) ?_
    fun _ h => .inl h
  intro e he
  rcases List.mem_append.mp he with he | he
  · exact .inl he
  · rw [List.mem_singleton.mp he]
    exact .inr hbound

theorem grows_evaluate {a : TaskCall F} {prediction : Prediction}
    {reply : OrderedReply F T (.evaluate a prediction)}
    (h : OrderedRunner.Performs H s (.evaluate a prediction) reply s') : Grows s s' := by
  obtain rfl := h
  exact ⟨fun _ h => h, fun _ h => h, fun _ h => h⟩

theorem provenance_evaluate {a : TaskCall F} {prediction : Prediction}
    {reply : OrderedReply F T (.evaluate a prediction)} (hs : Provenance s)
    (h : OrderedRunner.Performs H s (.evaluate a prediction) reply s')
    (hexecuted : ⟨a, some prediction⟩ ∈ s.executions) (hselected : a.strategies ≠ [])
    (hbound : ∃ i ∈ s.interventions, Delayed i ∧ Follows i a) : Provenance s' := by
  have hgrows := grows_evaluate h
  obtain rfl := h
  refine hs.after hgrows (fun _ h => .inl h) (fun _ h => .inl h) (fun _ h => .inl h)
    (fun _ h => .inl h) ?_
  intro e he
  rcases List.mem_append.mp he with he | he
  · exact .inl he
  · rw [List.mem_singleton.mp he]
    exact .inr ⟨hexecuted, hselected, hbound⟩

/-- What recording an application leaves, and what its reply says of it. -/
theorem performs_recordApplication {a : ApplicationCall}
    {reply : OrderedReply F T (.recordApplication a)}
    (h : OrderedRunner.Performs H s (.recordApplication a) reply s') :
    s' = s ∧ (∃ e, reply = .error e) ∨ ∃ applicationId row, reply = .ok applicationId ∧
      Recorded s'.db a applicationId row ∧ (s' = s ∨ ∃ t outbox,
        s.db.applications.insert row = some t ∧
          s' = s.withDb { s.db with applications := t, policyOutbox := outbox }) := by
  obtain ⟨uuid, now, stamp, rfl, rfl⟩ := h
  cases hrun : recordApplication H.policy a uuid now stamp s.db with
  | error e db' =>
    have hraised : (Call.recordApplication a uuid now stamp).run H.policy s.db = .error e db' :=
      bind_eq_error.mpr (.inl hrun)
    rw [ran_error hrun, run_atomic _ _ _ _ hraised]
    exact .inl ⟨rfl, _, rfl⟩
  | ok applicationId db' =>
    rw [ran_ok hrun]
    obtain ⟨row, hrecorded, hrows⟩ := recordApplication_recorded hrun
    refine .inr ⟨applicationId, row, rfl, hrecorded, ?_⟩
    rcases hrows with rfl | ⟨t, outbox, ht, rfl⟩
    · exact .inl rfl
    · exact .inr ⟨t, outbox, ht, rfl⟩

theorem grows_recordApplication {a : ApplicationCall}
    {reply : OrderedReply F T (.recordApplication a)}
    (h : OrderedRunner.Performs H s (.recordApplication a) reply s') : Grows s s' := by
  rcases performs_recordApplication h with ⟨rfl, -⟩ | ⟨_, row, -, -, hrows⟩
  · exact .refl _
  · rcases hrows with rfl | ⟨t, outbox, ht, rfl⟩
    · exact .refl _
    · refine ⟨fun _ h => h, ?_, fun _ h => h⟩
      intro old hold
      have hrow : old ∈ t.rows := by
        rw [Table.insert_rows ht]
        exact List.mem_append_left _ hold
      exact hrow

/-- The application a call asks for is one of a strategy the intervention names. -/
structure UsedBy (a : ApplicationCall) (i : SequenceIntervention T) : Prop where
  tenant : a.tenantId = i.tenantId
  named : ∃ ids, Names i ids ∧ a.strategyId ∈ ids
  key : a.idempotencyKey = applicationKey (placeOf i) a.strategyId

omit [PyFloat F] [LinearOrder T] in
theorem Recorded.uses {db : PolicyDatabase F T} {a : ApplicationCall} {applicationId : PyStr}
    {row : Application T} {i : SequenceIntervention T} (h : Recorded db a applicationId row)
    (hused : UsedBy a i) : Uses i row := by
  refine ⟨h.tenant.trans hused.tenant, ?_, ?_⟩
  · rw [h.strategy]
    exact hused.named
  · rw [h.key, h.strategy]
    exact hused.key

theorem provenance_recordApplication {a : ApplicationCall}
    {reply : OrderedReply F T (.recordApplication a)} (hs : Provenance s)
    (h : OrderedRunner.Performs H s (.recordApplication a) reply s')
    (hbound : ∃ i ∈ s.interventions, UsedBy a i) : Provenance s' := by
  have hgrows := grows_recordApplication h
  rcases performs_recordApplication h with ⟨rfl, -⟩ | ⟨_, row, -, hrecorded, hrows⟩
  · exact hs
  · rcases hrows with rfl | ⟨t, outbox, ht, rfl⟩
    · exact hs
    · obtain ⟨i, hi, hused⟩ := hbound
      refine hs.after hgrows (fun _ h => .inl h) ?_ (fun _ h => .inl h) (fun _ h => .inl h)
        fun _ h => .inl h
      intro old hold
      have hrow : old ∈ t.rows := hold
      rw [Table.insert_rows ht] at hrow
      rcases List.mem_append.mp hrow with hrow | hrow
      · exact .inl hrow
      · rw [List.mem_singleton.mp hrow]
        exact .inr ⟨i, hi, hrecorded.uses hused⟩

/-- Credit changes nothing but the outcomes. -/
theorem performs_recordOutcome {a : OutcomeCall F} {reply : OrderedReply F T (.recordOutcome a)}
    (h : OrderedRunner.Performs H s (.recordOutcome a) reply s') :
    Settled a.applicationId s.db s'.db ∧ s'.executions = s.executions ∧
      s'.evaluations = s.evaluations := by
  obtain ⟨now, stamp, -, rfl⟩ := h
  exact ⟨settled_recordOutcome a now stamp, rfl, rfl⟩

theorem grows_recordOutcome {a : OutcomeCall F} {reply : OrderedReply F T (.recordOutcome a)}
    (h : OrderedRunner.Performs H s (.recordOutcome a) reply s') : Grows s s' := by
  obtain ⟨hsettled, hexecutions, -⟩ := performs_recordOutcome h
  refine ⟨?_, ?_, ?_⟩
  · intro i hi
    rwa [Bench.interventions, hsettled.interventions]
  · intro row hrow
    rwa [Bench.applications, hsettled.applications]
  · intro e he
    rwa [hexecutions]

theorem provenance_recordOutcome {a : OutcomeCall F}
    {reply : OrderedReply F T (.recordOutcome a)} (hs : Provenance s)
    (h : OrderedRunner.Performs H s (.recordOutcome a) reply s')
    (hused : ∃ row ∈ s.applications, row.applicationId = a.applicationId ∧
      ∃ i ∈ s.interventions, Delayed i ∧ Uses i row) : Provenance s' := by
  obtain ⟨hsettled, hexecutions, hevaluations⟩ := performs_recordOutcome h
  refine hs.after (grows_recordOutcome h) ?_ ?_ ?_ ?_ ?_
  · intro i hi
    rw [Bench.interventions, hsettled.interventions] at hi
    exact .inl hi
  · intro row hrow
    rw [Bench.applications, hsettled.applications] at hrow
    exact .inl hrow
  · intro o ho
    rcases hsettled.outcomes o ho with hold | hnew
    · exact .inl hold
    · rw [Bench.applications, Bench.interventions, hsettled.applications, hsettled.interventions,
        hnew]
      exact .inr hused
  · intro e he
    rw [hexecutions] at he
    exact .inl he
  · intro e he
    rw [hevaluations] at he
    exact .inl he

theorem performs_grows {o : OrderedOp F} {reply : OrderedReply F T o}
    (h : (orderedRuns H).perform s o reply s') : Grows s s' := by
  rcases h with h | ⟨-, rfl⟩
  · by_cases ho : Passive o
    · exact (quiet_passive ho h).grows
    · cases o with
      | bind a => exact grows_bind h
      | runTask a => exact grows_runTask h
      | recordApplication a => exact grows_recordApplication h
      | evaluate a prediction => exact grows_evaluate h
      | recordOutcome a => exact grows_recordOutcome h
      | _ => exact absurd trivial ho
  · exact .refl _

end Operations

/-! ## Programs -/

section Programs
variable [LinearOrder T] {H : AuditHost F T} {α β : Type} {A : Bench F T → Prop}

/-- A program among any other runs; what it raises is left open. -/
abbrev RunsAmong (H : AuditHost F T) (A : Bench F T → Prop) (x : OrderedProgram F T α)
    (post : α → Bench F T → Prop) : Prop :=
  Runs (orderedRuns H).perform (Interferes (orderedRuns H)) Provenance A x post fun _ _ => True

variable (H) in
theorem growing :
    Growing (orderedRuns H).perform (Interferes (orderedRuns H)) Provenance Grows := by
  refine ⟨?_, fun s o reply s' _ h => performs_grows h⟩
  rintro s s' - (⟨o, reply, h⟩ | h)
  · exact performs_grows h
  · exact h.elim

/-- An operation; it may also raise without having been performed. -/
theorem runs_act {o : OrderedOp F} {post : o.Result T → Bench F T → Prop}
    (hpost : ∀ a, Upward Grows (post a))
    (hkeeps : ∀ s reply s', Provenance s → A s → OrderedRunner.Performs H s o reply s' →
      Provenance s')
    (hleads : ∀ s a s', Provenance s → A s → OrderedRunner.Performs H s o (.ok a) s' →
      post a s') : RunsAmong H A (act o) post := by
  refine runs_ask ⟨?_, stable_ends (fun a => (growing H).stable (hpost a)) fun _ =>
    stable_const, ?_⟩
  · rintro s reply s' hs hA (h | ⟨-, rfl⟩)
    · exact hkeeps s reply s' hs hA h
    · exact hs
  · intro s reply s' hs hA h
    cases reply with
    | error e => exact trivial
    | ok a =>
      rcases h with h | ⟨hraised, -⟩
      · exact hleads s a s' hs hA h
      · cases hraised

/-- What only grows outlasts a passive part. -/
theorem runs_passive (hA : Upward Grows A) {x : OrderedProgram F T α} (hx : Only Passive x.run) :
    RunsAmong H A x fun _ => A := by
  have hkeeps : ∀ s (o : OrderedOp F) (reply : OrderedReply F T o) s', Provenance s → Passive o →
      (orderedRuns H).perform s o reply s' → Provenance s' := by
    rintro s o reply s' hs ho (h | ⟨-, rfl⟩)
    · exact (quiet_passive ho h).provenance hs
    · exact hs
  have hruns := (growing H).frame_runs (runs_of_only hkeeps hx) hA
  refine (hruns.strengthen fun s _ hs => ⟨trivial, hs⟩).weaken ?_ ?_
  · exact fun _ _ _ hs => hs.2
  · exact fun _ _ _ _ => trivial

/-- A part carries along what only grows. -/
theorem runs_frame {B : Bench F T → Prop} {x : OrderedProgram F T α}
    {post : α → Bench F T → Prop} (hx : RunsAmong H A x post) (hB : Upward Grows B) :
    RunsAmong H (fun s => A s ∧ B s) x fun a s => post a s ∧ B s :=
  ((growing H).frame_runs hx hB).weaken (fun _ _ _ hs => hs) fun _ _ _ _ => trivial

theorem runs_keep {x : OrderedProgram F T α} {post : α → Bench F T → Prop}
    (hx : RunsAmong H A x post) (hA : Upward Grows A) :
    RunsAmong H A x fun a s => post a s ∧ A s :=
  (runs_frame hx hA).strengthen fun _ _ hs => ⟨hs, hs⟩

omit [PyFloat F] [LinearOrder T] in
theorem only_act {o : OrderedOp F} (ho : Passive o) :
    Only Passive (act o : OrderedProgram F T _).run :=
  ⟨ho, fun _ => trivial⟩

/-! ### What a task counts on -/

/-- The intervention is the one of a task of a run, and names these strategies. -/
structure BoundTo (c : OrderedCall F) (sequenceIndex : ℤ) (challengeId : PyStr) (ids : List PyStr)
    (i : SequenceIntervention T) : Prop where
  place : placeOf i = c.place sequenceIndex
  challenge : i.challengeId = challengeId
  mode : i.memoryMode = c.method.memory.value
  named : Names i ids

def Bound (c : OrderedCall F) (sequenceIndex : ℤ) (challengeId : PyStr) (ids : List PyStr)
    (s : Bench F T) : Prop :=
  ∃ i ∈ s.interventions, BoundTo c sequenceIndex challengeId ids i

/-- The application has been recorded for the task. -/
def Applied (c : OrderedCall F) (sequenceIndex : ℤ) (challengeId : PyStr) (ids : List PyStr)
    (applicationId : PyStr) (s : Bench F T) : Prop :=
  ∃ row ∈ s.applications, row.applicationId = applicationId ∧
    ∃ i ∈ s.interventions, BoundTo c sequenceIndex challengeId ids i ∧ Uses i row

variable {c : OrderedCall F} {sequenceIndex : ℤ} {challengeId orderSha256 : PyStr}
  {ids : List PyStr} {task : BlindTask}

omit [PyFloat F] [LinearOrder T] in
theorem upward_bound : Upward Grows (Bound (T := T) c sequenceIndex challengeId ids) := by
  rintro s s' h ⟨i, hi, hbound⟩
  exact ⟨i, h.interventions i hi, hbound⟩

omit [PyFloat F] [LinearOrder T] in
theorem upward_applied {applicationId : PyStr} :
    Upward Grows (Applied (T := T) c sequenceIndex challengeId ids applicationId) := by
  rintro s s' h ⟨row, hrow, hid, i, hi, hbound, huses⟩
  exact ⟨row, h.applications row hrow, hid, i, h.interventions i hi, hbound, huses⟩

omit [PyFloat F] [LinearOrder T] in
theorem upward_executed {e : Execution F} :
    Upward Grows fun s : Bench F T => e ∈ s.executions :=
  fun _ _ h he => h.executions e he

/-! ### Selecting -/

/-- What is proposed for a task: where its place has no intervention yet, at most one strategy
under delayed credit. -/
def Proposed (c : OrderedCall F) (sequenceIndex : ℤ) (proposed : List (StrategyScore F))
    (s : Bench F T) : Prop :=
  (∃ i ∈ s.interventions, placeOf i = c.place sequenceIndex) ∨
    (c.method.memory = .delayedExternalCredit → proposed.length ≤ 1)

omit [PyFloat F] [LinearOrder T] in
theorem upward_proposed {proposed : List (StrategyScore F)} :
    Upward Grows (Proposed (T := T) c sequenceIndex proposed) := by
  rintro s s' h (⟨i, hi, hplace⟩ | hone)
  · exact .inl ⟨i, h.interventions i hi, hplace⟩
  · exact .inr hone

theorem runs_select : RunsAmong H (fun _ => True) (select c task sequenceIndex)
    fun proposed _ => c.method.memory = .delayedExternalCredit → proposed.length ≤ 1 := by
  unfold select
  by_cases hreplay : c.method.memory = .uncreditedReplay
  · rw [if_pos hreplay]
    refine (runs_passive upward_const (only_act (o := .recallUncredited _ _ _) trivial)).weaken ?_
      fun _ _ _ h => h
    intro proposed s _ _ hdelayed
    rw [hreplay] at hdelayed
    cases hdelayed
  · rw [if_neg hreplay]
    refine Runs.bind (runs_passive upward_const (only_act trivial)) fun active => ?_
    refine Runs.bind (runs_passive upward_const (only_act trivial)) fun candidate => ?_
    have hactive : (active.take 1).length ≤ 1 := List.length_take_le _ _
    cases candidate with
    | none => exact runs_pure fun _ _ _ _ => hactive
    | some score =>
      dsimp only
      by_cases hexplore : active.isEmpty = true ∨ sequenceIndex % c.explorationPeriod = 0
      · rw [if_pos hexplore]
        exact runs_pure fun _ _ _ _ => le_rfl
      · rw [if_neg hexplore]
        exact runs_pure fun _ _ _ _ => hactive

theorem runs_propose : RunsAmong H (fun _ => True) (propose c task sequenceIndex)
    (Proposed c sequenceIndex) := by
  refine Runs.bind (J := fun persisted s => ∀ proposed, persisted = some proposed →
    Proposed c sequenceIndex proposed s) (runs_act ?_ ?_ ?_) fun persisted => ?_
  · intro persisted
    exact upward_forall fun proposed => upward_imp fun _ => upward_proposed
  · intro s reply s' hs _ h
    exact (quiet_passive (o := .sequenceIntervention _) trivial h).provenance hs
  · rintro s persisted s' - - h proposed rfl
    have hfound := carries_ok h
    obtain ⟨i, hi, hat, -⟩ := sequenceIntervention_eq_ok hfound
    have hsame := (readOnly_sequenceIntervention s.db).1 _ _ hfound
    simp only [SequenceIntervention.isAt, Bool.and_eq_true, beq_iff_eq] at hat
    obtain ⟨⟨⟨htenant, hrun⟩, hmethod⟩, hindex⟩ := hat
    refine .inl ⟨i, ?_, ?_⟩
    · rwa [Bench.interventions, hsame]
    · rw [placeOf, htenant, hrun, hmethod, hindex]
  · cases persisted with
    | some proposed => exact runs_pure fun s _ hs => hs proposed rfl
    | none =>
      refine (runs_select.strengthen fun _ _ _ => trivial).weaken ?_ fun _ _ _ h => h
      exact fun proposed s _ h => .inr h

/-! ### Binding and executing -/

theorem memoryMode_injective {m m' : MemoryMode} (h : m.value = m'.value) : m = m' := by
  revert h
  cases m <;> cases m' <;> decide

/-- Whatever is proposed, the strategies that come back are those that are bound. -/
theorem runs_binding {proposed : List (StrategyScore F)} :
    RunsAmong H (Proposed c sequenceIndex proposed)
      (act (.bind (c.binding task sequenceIndex orderSha256 proposed)))
      fun selected => Bound c sequenceIndex task.challengeId (selected.map (·.strategyId)) := by
  refine runs_act (fun _ => upward_bound) ?_ ?_
  · intro s reply s' hs hproposed h
    refine provenance_bind hs h ?_
    rcases hproposed with hbound | hone
    · exact .inl hbound
    · refine .inr fun hmode => ?_
      rw [OrderedCall.binding, List.length_map]
      exact hone (memoryMode_injective hmode)
  · rintro s selected s' - - ⟨now, stamp, h⟩
    obtain ⟨hids, hselected, i, hi, hbinds⟩ := bindSequenceIntervention_eq_ok (carries_ok h)
    obtain ⟨hchallenge, -, hmode, htext⟩ := hbinds.same
    refine ⟨i, hi, ?_, hchallenge, hmode, ?_, ?_⟩
    · rw [placeOf, hbinds.tenant, hbinds.run, hbinds.method, hbinds.index]
      rfl
    · rwa [hselected]
    · rwa [hselected]

omit [PyFloat F] [LinearOrder T] in
theorem BoundTo.follows {i : SequenceIntervention T} {selected : List (StrategyScore F)}
    (h : BoundTo c sequenceIndex challengeId (selected.map (·.strategyId)) i) :
    Follows i ⟨c.place sequenceIndex, challengeId, selected⟩ :=
  ⟨h.place.symm, h.challenge.symm, h.named⟩

theorem runs_execution {selected : List (StrategyScore F)} :
    RunsAmong H (Bound c sequenceIndex challengeId (selected.map (·.strategyId)))
      (act (.runTask ⟨c.place sequenceIndex, challengeId, selected⟩))
      fun prediction s => Bound c sequenceIndex challengeId (selected.map (·.strategyId)) s ∧
        ⟨⟨c.place sequenceIndex, challengeId, selected⟩, some prediction⟩ ∈ s.executions := by
  refine runs_act (fun _ => upward_bound.and upward_executed) ?_ ?_
  · rintro s reply s' hs ⟨i, hi, hbound⟩ h
    exact provenance_runTask hs h ⟨i, hi, hbound.follows⟩
  · intro s prediction s' _ hbound h
    refine ⟨upward_bound s s' (grows_runTask h) hbound, ?_⟩
    obtain rfl := h
    exact List.mem_append_right _ List.mem_cons_self

/-! ### Applying and crediting -/

theorem runs_application {jobId family renderedQuery strategyId : PyStr}
    (hstrategy : strategyId ∈ ids) :
    RunsAmong H (Bound c sequenceIndex challengeId ids)
      (act (.recordApplication
        (applicationCall (c.place sequenceIndex) jobId family renderedQuery strategyId)))
      fun applicationId => Applied c sequenceIndex challengeId ids applicationId := by
  refine runs_act (fun _ => upward_applied) ?_ ?_
  · rintro s reply s' hs ⟨i, hi, hbound⟩ h
    refine provenance_recordApplication hs h ⟨i, hi, ?_, ⟨ids, hbound.named, hstrategy⟩, ?_⟩
    · exact congrArg Place.tenantId hbound.place.symm
    · rw [hbound.place]
      rfl
  · rintro s applicationId s' - ⟨i, hi, hbound⟩ h
    have hgrows := grows_recordApplication h
    rcases performs_recordApplication h with ⟨-, e, hraised⟩ | ⟨id, row, hreply, hrecorded, -⟩
    · cases hraised
    · obtain rfl := Except.ok.inj hreply
      refine ⟨row, hrecorded.recorded, hrecorded.applicationId, i, hgrows.interventions i hi,
        hbound, hrecorded.uses ⟨?_, ⟨ids, hbound.named, hstrategy⟩, ?_⟩⟩
      · exact congrArg Place.tenantId hbound.place.symm
      · rw [hbound.place]
        rfl

/-- What the credit of a task counts on. -/
def AllApplied (c : OrderedCall F) (sequenceIndex : ℤ) (challengeId : PyStr) (ids : List PyStr)
    (applications : List PyStr) (s : Bench F T) : Prop :=
  ∀ id ∈ applications, Applied c sequenceIndex challengeId ids id s

omit [PyFloat F] [LinearOrder T] in
theorem upward_allApplied {applications : List PyStr} :
    Upward Grows (AllApplied (T := T) c sequenceIndex challengeId ids applications) :=
  upward_forall fun _ => upward_imp fun _ => upward_applied

omit [PyFloat F] [LinearOrder T] in
theorem allApplied_cons {s : Bench F T} {id : PyStr} {applications : List PyStr} :
    AllApplied c sequenceIndex challengeId ids (id :: applications) s ↔
      Applied c sequenceIndex challengeId ids id s ∧
        AllApplied c sequenceIndex challengeId ids applications s :=
  List.forall_mem_cons

theorem runs_applications {jobId family renderedQuery : PyStr}
    {selected : List (StrategyScore F)} (hids : ∀ score ∈ selected, score.strategyId ∈ ids) :
    RunsAmong H (Bound c sequenceIndex challengeId ids)
      (recordApplications (c.place sequenceIndex) jobId family renderedQuery selected)
      (AllApplied c sequenceIndex challengeId ids) := by
  induction selected with
  | nil => exact runs_pure fun _ _ _ _ hid => absurd hid List.not_mem_nil
  | cons strategy selected ih =>
    refine Runs.bind (runs_keep (runs_application (hids strategy List.mem_cons_self))
      upward_bound) fun applicationId => ?_
    have hrest := ih fun score hscore => hids score (List.mem_cons_of_mem _ hscore)
    refine Runs.bind (runs_keep (hrest.strengthen fun _ _ hs => hs.2)
      (upward_applied.and upward_bound)) fun applications => ?_
    exact runs_pure fun _ _ hs => allApplied_cons.mpr ⟨hs.2.1, hs.1⟩

theorem runs_pending {tenantId : PyStr} {applications : List PyStr} :
    RunsAmong H (AllApplied c sequenceIndex challengeId ids applications)
      (pendingApplications tenantId applications)
      (AllApplied c sequenceIndex challengeId ids) := by
  induction applications with
  | nil => exact runs_pure fun _ _ hs => hs
  | cons applicationId applications ih =>
    refine Runs.bind (runs_passive upward_allApplied (only_act trivial)) fun done => ?_
    refine Runs.bind (runs_keep (ih.strengthen fun _ _ hs => (allApplied_cons.mp hs).2)
      upward_allApplied) fun pending => ?_
    refine runs_pure fun s _ hs => ?_
    cases done with
    | true => exact hs.1
    | false => exact allApplied_cons.mpr ⟨(allApplied_cons.mp hs.2).1, hs.1⟩

theorem runs_outcomes {outcome : CreditOutcome F} {prediction : Prediction} {pending : List PyStr}
    (hdelayed : c.method.memory = .delayedExternalCredit) :
    RunsAmong H (AllApplied c sequenceIndex challengeId ids pending)
      (recordOutcomes c.tenantId outcome prediction pending) fun _ _ => True := by
  induction pending with
  | nil => exact runs_pure fun _ _ _ => trivial
  | cons applicationId pending ih =>
    refine Runs.bind (J := fun _ => AllApplied c sequenceIndex challengeId ids pending)
      (runs_act (fun _ => upward_allApplied) ?_ ?_) fun _ => ih
    · intro s reply s' hs happlied h
      obtain ⟨row, hrow, hid, i, hi, hbound, huses⟩ := (allApplied_cons.mp happlied).1
      refine provenance_recordOutcome hs h ⟨row, hrow, hid, i, hi, ?_, huses⟩
      rw [Delayed, hbound.mode, hdelayed]
    · intro s _ s' _ happlied h
      exact upward_allApplied s s' (grows_recordOutcome h) (allApplied_cons.mp happlied).2

theorem runs_applySelected {jobId family : PyStr} {selected : List (StrategyScore F)}
    {counterQueries : Option (List PyStr)} :
    RunsAmong H (Bound c sequenceIndex challengeId (selected.map (·.strategyId)))
      (applySelected (c.place sequenceIndex) jobId family selected counterQueries)
      (AllApplied c sequenceIndex challengeId (selected.map (·.strategyId))) := by
  unfold applySelected
  by_cases happlied : isApplied selected counterQueries = true
  · rw [if_pos happlied]
    exact runs_applications fun score hscore => List.mem_map_of_mem hscore
  · rw [if_neg happlied]
    exact runs_pure fun _ _ _ _ hid => absurd hid List.not_mem_nil

/-- The task has been executed with the strategies that are bound to it. -/
def Executed (c : OrderedCall F) (sequenceIndex : ℤ) (challengeId : PyStr)
    (selected : List (StrategyScore F)) (prediction : Prediction) (s : Bench F T) : Prop :=
  Bound c sequenceIndex challengeId (selected.map (·.strategyId)) s ∧
    ⟨⟨c.place sequenceIndex, challengeId, selected⟩, some prediction⟩ ∈ s.executions

variable {selected : List (StrategyScore F)} {prediction : Prediction}

omit [PyFloat F] [LinearOrder T] in
theorem upward_wasExecuted :
    Upward Grows (Executed (T := T) c sequenceIndex challengeId selected prediction) :=
  upward_bound.and upward_executed

theorem runs_creditPending {pending : List PyStr}
    (hdelayed : c.method.memory = .delayedExternalCredit) :
    RunsAmong H (fun s => AllApplied c sequenceIndex challengeId
        (selected.map (·.strategyId)) pending s ∧
        Executed c sequenceIndex challengeId selected prediction s)
      (creditPending c ⟨c.place sequenceIndex, challengeId, selected⟩ prediction pending)
      fun _ _ => True := by
  unfold creditPending
  by_cases hnone : pending = []
  · rw [if_pos hnone]
    exact runs_pure fun _ _ _ => trivial
  · rw [if_neg hnone]
    refine Runs.bind (J := fun _ => AllApplied c sequenceIndex challengeId
      (selected.map (·.strategyId)) pending) (runs_act (fun _ => upward_allApplied) ?_ ?_)
      fun outcome => runs_outcomes hdelayed
    · rintro s reply s' hs ⟨happlied, ⟨i, hi, hbound⟩, hexecuted⟩ h
      refine provenance_evaluate hs h hexecuted ?_ ⟨i, hi, ?_, hbound.follows⟩
      · -- what is pending was applied, and so selected
        rintro rfl
        obtain ⟨applicationId, hpending⟩ := List.exists_mem_of_ne_nil _ hnone
        obtain ⟨row, -, -, i', -, hbound', huses⟩ := happlied applicationId hpending
        obtain ⟨ids, hnamed, hstrategy⟩ := huses.named
        rw [hnamed.unique hbound'.named] at hstrategy
        exact List.not_mem_nil hstrategy
      · rw [Delayed, hbound.mode, hdelayed]
    · rintro s _ s' - ⟨happlied, -⟩ h
      exact upward_allApplied s s' (grows_evaluate h) happlied

/-- The credit of a task leaves what it counts on. -/
theorem runs_creditTask {applications : List PyStr} :
    RunsAmong H (fun s => AllApplied c sequenceIndex challengeId
        (selected.map (·.strategyId)) applications s ∧
        Executed c sequenceIndex challengeId selected prediction s)
      (creditTask c ⟨c.place sequenceIndex, challengeId, selected⟩ prediction applications)
      fun _ s => AllApplied c sequenceIndex challengeId (selected.map (·.strategyId))
        applications s ∧ Executed c sequenceIndex challengeId selected prediction s := by
  refine (runs_keep (?_ : RunsAmong H _ _ fun _ _ => True)
    (upward_allApplied.and upward_wasExecuted)).weaken (fun _ _ _ hs => hs.2) fun _ _ _ h => h
  unfold creditTask
  by_cases hcredit : c.method.memory = .delayedExternalCredit ∧ applications ≠ []
  · rw [if_pos hcredit]
    refine Runs.bind (runs_frame runs_pending upward_wasExecuted) fun pending => ?_
    refine Runs.bind (runs_creditPending hcredit.1) fun _ => ?_
    exact Runs.bind (runs_passive upward_const (only_act trivial)) fun _ =>
      runs_pure fun _ _ _ => trivial
  · rw [if_neg hcredit]
    exact runs_pure fun _ _ _ => trivial

/-! ### The rest of a task -/

omit [PyFloat F] [LinearOrder T] in
theorem only_proposeStrategies {tenantId jobId family : PyStr}
    (candidates : List StrategyCandidate) : Only Passive
      (proposeStrategies tenantId jobId family candidates : OrderedProgram F T _).run := by
  induction candidates with
  | nil => exact only_run_pure _
  | cons candidate candidates ih =>
    exact only_run_bind (only_act trivial) fun _ => only_run_bind ih fun _ => only_run_pure _

omit [PyFloat F] [LinearOrder T] in
theorem only_proposeDecided {tenantId jobId family : PyStr}
    {candidates : Option (List StrategyCandidate)} : Only Passive
      (proposeDecided tenantId jobId family prediction candidates : OrderedProgram F T _).run := by
  unfold proposeDecided
  by_cases hcompleted : prediction.completed = true
  · rw [if_pos hcompleted]
    exact only_proposeStrategies _
  · rw [if_neg hcompleted]
    exact only_run_pure _

omit [PyFloat F] [LinearOrder T] in
theorem only_linkPolicy {report : PolicyFlushReport} {links : ℕ} : Only Passive
    (linkPolicy prediction challengeId report links : OrderedProgram F T Unit).run := by
  unfold linkPolicy
  by_cases hlink : links = 0 ∧ report.ledgerEvents ≠ 0
  · rw [if_pos hlink]
    cases jobIdOf prediction.ledgerRelpath with
    | none => exact only_run_throw _
    | some jobId => exact only_act trivial
  · rw [if_neg hlink]
    exact only_run_pure _

/-- The operations of a part all go to the same kind of operation of the whole. -/
theorem only_embed {Op Op' : Type} {Reply : Op → Type} {Reply' : Op' → Type} {P : Op' → Prop}
    {f : Op → Op'} {back : ∀ o, Reply' (f o) → Reply o} (hf : ∀ o, P (f o))
    (p : Program Op Reply α) : Only P (p.embed f back) := by
  induction p with
  | done a => trivial
  | step o next ih => exact ⟨hf o, fun r => ih (back o r)⟩

omit [PyFloat F] [LinearOrder T] in
theorem only_bindPolicyReceipt :
    Only Passive (bindPolicyReceipt c prediction challengeId : OrderedProgram F T _).run := by
  have hflush : Only Passive (flushPolicy c : OrderedProgram F T _).run :=
    Only.bind (only_embed (fun _ => trivial) _) fun _ => trivial
  refine only_run_bind hflush fun flushed => ?_
  cases flushed with
  | none => exact only_run_throw _
  | some report =>
    refine only_run_bind (only_act trivial) fun links => ?_
    by_cases hlinks : 1 < links
    · rw [if_pos hlinks]
      exact only_run_throw _
    · rw [if_neg hlinks]
      refine only_run_bind only_linkPolicy fun _ => ?_
      refine only_run_bind (only_act trivial) fun receipt => ?_
      by_cases hok : receipt.ok = false
      · rw [if_pos hok]
        exact only_run_throw _
      · rw [if_neg hok]
        exact only_run_pure _

/-- What a step of the report says is so. -/
def Reported (c : OrderedCall F) (step : OrderedStep) (s : Bench F T) : Prop :=
  Bound c step.sequenceIndex step.challengeId step.strategyIds s ∧
    AllApplied c step.sequenceIndex step.challengeId step.strategyIds step.applicationIds s

omit [PyFloat F] [LinearOrder T] in
theorem upward_reported {step : OrderedStep} : Upward Grows (Reported (T := T) c step) :=
  upward_bound.and upward_allApplied

theorem runs_step : RunsAmong H (fun _ => True) (runStep c orderSha256 task sequenceIndex)
    fun step => Reported c step.2 := by
  refine Runs.bind runs_propose fun proposed => ?_
  refine Runs.bind runs_binding fun selected => ?_
  refine Runs.bind (J := fun prediction =>
    Executed c sequenceIndex task.challengeId selected prediction) runs_execution
    fun prediction => ?_
  cases jobIdOf prediction.ledgerRelpath with
  | none => exact runs_throw fun _ _ _ => trivial
  | some jobId =>
    refine Runs.bind (runs_passive upward_wasExecuted (only_act trivial)) fun counterQueries => ?_
    refine Runs.bind (runs_keep (runs_applySelected.strengthen fun _ _ hs => hs.1)
      upward_wasExecuted) fun applications => ?_
    refine Runs.bind runs_creditTask fun _ => ?_
    refine Runs.bind (runs_passive (upward_allApplied.and upward_wasExecuted) (only_act trivial))
      fun candidates => ?_
    refine Runs.bind (runs_passive (upward_allApplied.and upward_wasExecuted) only_proposeDecided)
      fun proposedIds => ?_
    refine Runs.bind (runs_passive (upward_allApplied.and upward_wasExecuted)
      only_bindPolicyReceipt) fun receipt => ?_
    exact runs_pure fun _ _ hs => ⟨hs.2.1, hs.1⟩

/-! ### A run -/

theorem runs_steps {tasks : List BlindTask} :
    RunsAmong H (fun _ => True) (runSteps c orderSha256 tasks sequenceIndex)
      fun steps s => ∀ x ∈ steps, Reported c x.2 s := by
  induction tasks generalizing sequenceIndex with
  | nil => exact runs_pure fun _ _ _ _ hx => absurd hx List.not_mem_nil
  | cons task tasks ih =>
    refine Runs.bind runs_step fun step => ?_
    refine Runs.bind ((runs_frame ih upward_reported).strengthen fun _ _ hs => ⟨trivial, hs⟩)
      fun steps => ?_
    exact runs_pure fun _ _ hs => List.forall_mem_cons.mpr ⟨hs.2, hs.1⟩

theorem runs_run : RunsAmong H (fun _ => True) (run H.policy c)
    fun steps s => ∀ x ∈ steps, Reported c x.2 s := by
  unfold run
  cases checkCall H.policy c with
  | error e => exact runs_throw fun _ _ _ => trivial
  | ok order => exact runs_steps

end Programs

/-! ## The runs of a pool -/

section Pool
variable [LinearOrder T] {H : AuditHost F T}
  {sys : System (Bench F T) (OrderedCall F) (OrderedOp F) (OrderedReply F T)
    (Except (OrderedError F) (List (Prediction × OrderedStep)))}

omit [PyFloat F] [LinearOrder T] in
theorem provenance_initial : Provenance (Bench.initial : Bench F T) := by
  refine ⟨?_, ?_, ?_, ?_, ?_⟩ <;> intro _ h <;> exact absurd h List.not_mem_nil

theorem sequenceClash_symm (k k' : SequenceKey) (h : sequenceClash k k') : sequenceClash k' k :=
  ⟨h.1.symm, h.2.imp Eq.symm Eq.symm⟩

/-- In every state of any runs, everything leads back to an intervention, and a report that has
been returned says what is bound and applied. -/
theorem provenance_reaches (h : Reaches (orderedRuns H) Unguarded (System.idle Bench.initial) sys) :
    Provenance sys.state ∧ ∀ (i : ℕ) p steps, sys.processes[i]? = some p →
      p.program = .done (.ok steps) → ∀ x ∈ steps, Reported p.call x.2 sys.state := by
  obtain ⟨⟨hprovenance, -⟩, hdone⟩ := sound (fun c => runs_run) (fun _ _ _ _ _ => trivial)
    (fun _ _ _ h => h.elim) provenance_initial trivial h
  exact ⟨hprovenance, fun i p steps hp hprogram => hdone i p (.ok steps) hp hprogram⟩

omit [PyFloat F] [LinearOrder T] in
/-- An intervention for delayed credit that a strategy was applied under names it alone. -/
theorem Provenance.alone {s : Bench F T} (hs : Provenance s) {i : SequenceIntervention T}
    (hi : i ∈ s.interventions) (hdelayed : Delayed i) {strategyId : PyStr} {ids : List PyStr}
    (hids : Names i ids) (hstrategy : strategyId ∈ ids) : ids = [strategyId] := by
  obtain ⟨ids', hnamed, hone⟩ := hs.bound i hi
  obtain rfl := hnamed.unique hids
  obtain ⟨id, rfl⟩ := List.length_eq_one_iff.mp
    (le_antisymm (hone hdelayed) (List.length_pos_of_mem hstrategy))
  rw [List.mem_singleton.mp hstrategy]

omit [PyFloat F] [LinearOrder T] in
/-- So that it has one application. -/
theorem Provenance.attributable {s : Bench F T} (hs : Provenance s) {i : SequenceIntervention T}
    (hi : i ∈ s.interventions) (hdelayed : Delayed i) {a a' : Application T}
    (ha : a ∈ s.applications) (ha' : a' ∈ s.applications) (huses : Uses i a)
    (huses' : Uses i a') : a = a' := by
  obtain ⟨ids, hids, hstrategy⟩ := huses.named
  obtain ⟨ids', hids', hstrategy'⟩ := huses'.named
  have hsame : a.strategyId = a'.strategyId := by
    have hone := hs.alone hi hdelayed hids hstrategy
    rw [hids'.unique hids, hone] at hstrategy'
    exact (List.mem_singleton.mp hstrategy').symm
  refine Table.eq_of_clash _ twoKeysClash_symm ha ha' (.inr ?_)
  rw [Application.key, Application.key, huses.tenant, huses'.tenant, huses.key, huses'.key, hsame]

/-- The outcome is the only one of an intervention for delayed credit, which names exactly the
strategy that is credited. -/
def Attributed (s : Bench F T) (o : OutcomeRow F T) : Prop :=
  ∃ a ∈ s.applications, a.applicationId = o.applicationId ∧
    ∃ i ∈ s.interventions, Delayed i ∧ Uses i a ∧ Names i [a.strategyId] ∧
      ∀ o' ∈ s.outcomes, ∀ a' ∈ s.applications,
        a'.applicationId = o'.applicationId → Uses i a' → o' = o

/-- Credit is given for what was bound: in every state that any ordered runs of one store reach,
wherever they crash, are started again and interleave, a place is always executed with the same
strategies; every outcome is the only one of an intervention for delayed credit, which names
exactly the strategy that is credited; the evaluator is asked about executions of such
interventions only; and a report says what is bound and applied. -/
theorem credit_attributable
    (h : Reaches (orderedRuns H) Unguarded (System.idle Bench.initial) sys) :
    (∀ e ∈ sys.state.executions, ∀ e' ∈ sys.state.executions, e.task.place = e'.task.place →
      e.task.challengeId = e'.task.challengeId ∧ e.task.strategyIds = e'.task.strategyIds) ∧
    (∀ o ∈ sys.state.outcomes, Attributed sys.state o) ∧
    (∀ e ∈ sys.state.evaluations, ⟨e.1, some e.2⟩ ∈ sys.state.executions ∧
      ∃ strategy, e.1.strategies = [strategy] ∧
        ∃ i ∈ sys.state.interventions, Delayed i ∧ Follows i e.1) ∧
    ∀ (i : ℕ) p steps, sys.processes[i]? = some p → p.program = .done (.ok steps) →
      ∀ x ∈ steps, Reported p.call x.2 sys.state := by
  obtain ⟨hs, hreports⟩ := provenance_reaches h
  refine ⟨?_, ?_, ?_, hreports⟩
  · intro e he e' he' hplace
    obtain ⟨i, hi, hfollows⟩ := hs.executed e he
    obtain ⟨i', hi', hfollows'⟩ := hs.executed e' he'
    have hsame : placeOf i = placeOf i' := by
      rw [← hfollows.place, ← hfollows'.place, hplace]
    obtain ⟨htenant, hrun, hmethod, hindex⟩ := Place.mk.inj hsame
    have hkey : sequenceClash i.key i'.key :=
      ⟨by rw [SequenceIntervention.key, htenant, hrun, hmethod]; rfl, .inl hindex⟩
    obtain rfl := Table.eq_of_clash _ sequenceClash_symm hi hi' hkey
    exact ⟨hfollows.challenge.trans hfollows'.challenge.symm,
      hfollows.named.unique hfollows'.named⟩
  · intro o ho
    obtain ⟨a, ha, hid, i, hi, hdelayed, huses⟩ := hs.credited o ho
    obtain ⟨ids, hids, hstrategy⟩ := huses.named
    have hone := hs.alone hi hdelayed hids hstrategy
    refine ⟨a, ha, hid, i, hi, hdelayed, huses, hone ▸ hids, ?_⟩
    intro o' ho' a' ha' hid' huses'
    obtain rfl := hs.attributable hi hdelayed ha ha' huses huses'
    exact Table.eq_of_clash _ (fun _ _ => Eq.symm) ho' ho (hid'.symm.trans hid)
  · rintro ⟨a, prediction⟩ he
    obtain ⟨hexecution, hselected, i, hi, hdelayed, hfollows⟩ := hs.evaluated _ he
    refine ⟨hexecution, ?_⟩
    obtain ⟨strategy, hstrategy⟩ := List.exists_mem_of_ne_nil _ hselected
    have hone := hs.alone hi hdelayed hfollows.named (List.mem_map_of_mem hstrategy)
    obtain ⟨strategy', hlist⟩ := List.length_eq_one_iff.mp
      ((List.length_map _).symm.trans (congrArg List.length hone))
    exact ⟨strategy', hlist, i, hi, hdelayed, hfollows⟩

end Pool

/-! ## A restarted run -/

section Responses
variable [LinearOrder T] (H : AuditHost F T)

/-- What the clock, the generator of ids and what is not modelled give. -/
structure Surroundings (F T : Type) where
  now : T
  uuid : PyStr
  prediction : Option Prediction
  counterQueries : List PyStr
  outcome : CreditOutcome F
  candidates : List StrategyCandidate

/-- A call of the store. -/
def carried {α : Type} (x : PolicyDb F T α) (s : Bench F T) :
    Except (OrderedError F) α × Bench F T :=
  ((ran x s.db).1.mapError .store, s.withDb (ran x s.db).2)

/-- What an operation gives; a process crashes where it would flush, or where a task has no
prediction. -/
def respond (e : Surroundings F T) (s : Bench F T) :
    (o : OrderedOp F) → OrderedReply F T o × Bench F T
  | .sequenceIntervention p => carried
    (sequenceIntervention H.policy p.tenantId p.runId p.methodId p.sequenceIndex) s
  | .recallUncredited tenantId family limit =>
    carried (recallUncredited H.policy tenantId family limit) s
  | .recallActive tenantId family limit => carried (recallActive H.policy tenantId family limit) s
  | .recallCandidate tenantId family =>
    carried (recallCandidateForEvaluation H.policy tenantId family) s
  | .bind a => carried (bindSequenceIntervention H.policy a e.now ⟨e.uuid, e.now⟩) s
  | .runTask a =>
    match e.prediction with
    | none => (.error .raised, s)
    | some prediction =>
      (.ok prediction, { s with executions := s.executions ++ [⟨a, some prediction⟩] })
  | .counterQueries .. => (.ok (some e.counterQueries), s)
  | .recordApplication a =>
    carried (recordApplication H.policy a e.uuid e.now ⟨e.uuid, e.now⟩) s
  | .applicationHasOutcome tenantId applicationId =>
    carried (applicationHasOutcome tenantId applicationId) s
  | .evaluate a prediction =>
    (.ok e.outcome, { s with evaluations := s.evaluations ++ [(a, prediction)] })
  | .recordOutcome a => carried (recordOutcome H.policy a e.now ⟨e.uuid, e.now⟩) s
  | .refreshStatuses tenantId θ =>
    carried (refreshStatuses H.policy tenantId θ e.now fun _ => ⟨e.uuid, e.now⟩) s
  | .strategyCandidates .. => (.ok (some e.candidates), s)
  | .proposeStrategy a => carried (proposeStrategy H.policy a e.uuid e.now ⟨e.uuid, e.now⟩) s
  | .flush _ => (.error .raised, s)
  | .auditLinks _ => (.error .raised, s)
  | .linkAudit .. => (.error .raised, s)
  | .verifyTask _ => (.error .raised, s)

theorem performs_respond (e : Surroundings F T) (s : Bench F T) (o : OrderedOp F) :
    (orderedRuns H).perform s o (respond H e s o).1 (respond H e s o).2 := by
  cases o with
  | bind a => exact .inl ⟨_, _, rfl, rfl⟩
  | recordApplication a => exact .inl ⟨_, _, _, rfl, rfl⟩
  | recordOutcome a => exact .inl ⟨_, _, rfl, rfl⟩
  | refreshStatuses tenantId θ => exact .inl ⟨_, _, rfl, rfl⟩
  | proposeStrategy a => exact .inl ⟨_, _, _, rfl, rfl⟩
  | runTask a =>
    cases hprediction : e.prediction with
    | none =>
      simp only [respond, hprediction]
      exact .inr ⟨rfl, rfl⟩
    | some prediction =>
      simp only [respond, hprediction]
      exact .inl rfl
  | counterQueries tenantId jobId => exact .inl rfl
  | evaluate a prediction => exact .inl rfl
  | strategyCandidates tenantId jobId => exact .inl rfl
  | sequenceIntervention p => exact .inl ⟨rfl, rfl⟩
  | recallUncredited tenantId family limit => exact .inl ⟨rfl, rfl⟩
  | recallActive tenantId family limit => exact .inl ⟨rfl, rfl⟩
  | recallCandidate tenantId family => exact .inl ⟨rfl, rfl⟩
  | applicationHasOutcome tenantId applicationId => exact .inl ⟨rfl, rfl⟩
  | _ => exact .inr ⟨rfl, rfl⟩

end Responses

/-- The digests of the texts hashed below. -/
def orderedDigest (bytes : PyBytes) : PyStr :=
  if bytes = memoryMarker then
    py "48ae3979bb91cf6bfa2b7c7a0681db791648e28dd46dc5e2cd84a0c012fb6bf3"
  else if bytes = py "ref" then
    py "3ff6c05723bb069d19953340320fa9512f0be584742703e60226ded28bb43861"
  else if bytes = py "[\"c0\"]" then
    py "a3851fde85fb4c75014fe5b4d53cf2cdc58afd44432bbe5a681a57a21e207f1e"
  else if bytes = py "[\"c1\"]" then
    py "bc56b594c5cc4e2dac04fa978d45acafe7a78e5c16c84167faf3704d01e052d9"
  else digest bytes

theorem orderedDigest_isHash (bytes : PyBytes) : Events.isHash (orderedDigest bytes) = true := by
  unfold orderedDigest
  split_ifs
  · exact isHash_py _ (by decide)
  · exact isHash_py _ (by decide)
  · exact isHash_py _ (by decide)
  · exact isHash_py _ (by decide)
  · exact digest_isHash bytes

def orderedHost : AuditHost Halves ℕ :=
  { sampleHost with
    policy := { plainHost with sha256 := orderedDigest }
    policy_digest := orderedDigest_isHash }

theorem period_positive : (1 : ℤ) ≤ 3 := by decide

def orderedCall (runId challengeId family : PyStr) : OrderedCall Halves where
  tenantId := py "tenant"
  explorationPeriod := 3
  positive := period_positive
  tasks := [some ⟨challengeId, family⟩]
  method := ⟨py "m", true, true, .delayedExternalCredit⟩
  runId := runId
  evaluated := true
  thresholds := ⟨3, .half, .zero⟩
  flushRounds := 1

def goes (now : ℕ) (prediction : Option Prediction) : Surroundings Halves ℕ where
  now := now
  uuid := decimal now
  prediction := prediction
  counterQueries := [memoryMarker]
  outcome := ⟨py "known_answer", true, true, .zero, py "ref"⟩
  candidates := [⟨py "boundary_probe", py "pattern"⟩]

def done : Prediction := ⟨true, 1, 1, py "t/j/events.jsonl", [], 0⟩

/-- The first run proposes a strategy and crashes; the second binds it and crashes before its
task; started again, it executes, applies and credits what was bound, and crashes. -/
def restarted : System (Bench Halves ℕ) (OrderedCall Halves) (OrderedOp Halves)
    (OrderedReply Halves ℕ) (Except (OrderedError Halves) (List (Prediction × OrderedStep))) :=
  (System.idle Bench.initial).play (orderedRuns orderedHost).program (respond orderedHost)
    ([.start (orderedCall (py "a") (py "c0") (py "f0"))] ++
      (List.range 9).map (fun n => .act 0 (goes n (some done))) ++
      [.start (orderedCall (py "b") (py "c1") (py "f1"))] ++
      (List.range 5).map (fun n => .act 1 (goes (10 + n) none)) ++
      [.start (orderedCall (py "b") (py "c1") (py "f1"))] ++
      (List.range 9).map fun n => .act 2 (goes (20 + n) (some done)))

theorem reaches_restarted :
    Reaches (orderedRuns orderedHost) Unguarded (System.idle Bench.initial) restarted :=
  reaches_play (performs_respond orderedHost) _

theorem credited_restarted :
    restarted.state.outcomes.length = 1 ∧ restarted.state.interventions.length = 2 := by
  decide +kernel

theorem credit_attributable_restarted :
    (restarted.state.outcomes.length = 1 ∧ restarted.state.interventions.length = 2) ∧
      ∀ o ∈ restarted.state.outcomes, Attributed restarted.state o :=
  ⟨credited_restarted, (credit_attributable reaches_restarted).2.1⟩

end OrderedRuns
