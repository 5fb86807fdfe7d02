import VeriMat.EnvelopeRoundTrip
import VeriMat.JsonWritable
import VeriMat.PolicyStore

/-! # Status refreshes

A refresh moves every strategy to the status its counts call for and writes one outbox row for
each strategy it moves. The idempotency key of that row is a digest of the move, and a move may
come again: the unique index of the outbox then refuses it, and with it the whole refresh. -/
namespace PolicyRefresh

open PyText JsonText PyValue PyDisplay KeyedTable Transaction PolicyStore
open EnvelopeRoundTrip (lower_strDict)
open JsonWritable (encode_ascii hexDigit_lt)

variable {F T : Type} [PyFloat F]

/-! ## Statements -/

omit [PyFloat F] in
@[simp] theorem bindText_eq_ok {x : PyStr} {db db' : PolicyDatabase F T} {u : Unit} :
    bindText x db = .ok u db' ↔ (encode x).isSome = true ∧ db' = db := by
  simp [bindText, Option.isSome_iff_ne_none]

omit [PyFloat F] in
@[simp] theorem encoded_eq_ok {x : PyStr} {db db' : PolicyDatabase F T} {b : PyBytes} :
    encoded x db = .ok b db' ↔ encode x = some b ∧ db' = db := by
  simp [encoded]

omit [PyFloat F] in
theorem insertOutbox_eq_ok {e : OutboxRow T} {db db' : PolicyDatabase F T} {u : Unit} :
    insertOutbox e db = .ok u db' ↔
      ∃ t, db.policyOutbox.insert e = some t ∧ db' = { db with policyOutbox := t } := by
  simp [insertOutbox, bind_eq_ok]

theorem scoreRows_eq_ok {H : PolicyHost F} {tenantId : PyStr} {db db' : PolicyDatabase F T}
    {scores : List (StrategyScore F)} :
    scoreRows H tenantId db = .ok scores db' ↔
      (encode tenantId).isSome = true ∧ scores = (db.ofTenant tenantId).map (db.score H) ∧
        db' = db := by
  simp only [scoreRows, bind_eq_ok, bindText_eq_ok, get_apply, pure_eq_ok,
    EStateM.Result.ok.injEq]
  constructor
  · rintro ⟨_, _, ⟨hb, rfl⟩, _, _, ⟨rfl, rfl⟩, rfl, rfl⟩
    exact ⟨hb, rfl, rfl⟩
  · rintro ⟨hb, rfl, rfl⟩
    exact ⟨(), db', ⟨hb, rfl⟩, db', db', ⟨rfl, rfl⟩, rfl, rfl⟩

/-! ## The key of a move -/

theorem hexText_ascii (width n : ℕ) : ∀ c ∈ hexText width n, c < 128 := by
  induction width generalizing n with
  | zero => simp [hexText]
  | succ width ih =>
    intro c hc
    rcases List.mem_append.mp hc with hc | hc
    · exact ih _ c hc
    · rw [List.mem_singleton.mp hc]
      exact hexDigit_lt (Nat.mod_lt _ (by omega))

theorem asciiChar_ascii (c : ℕ) : ∀ d ∈ asciiChar c, d < 128 := by
  intro d hd
  have hescape : ∀ n, d ∈ [92, 117] ++ hexText 4 n → d < 128 := by
    intro n hn
    rcases List.mem_append.mp hn with hn | hn
    · simp only [List.mem_cons, List.not_mem_nil, or_false] at hn
      omega
    · exact hexText_ascii _ _ d hn
  unfold asciiChar at hd
  split_ifs at hd with h₁ h₂
  · rw [List.mem_singleton.mp hd]
    omega
  · exact hescape _ hd
  · rcases List.mem_append.mp hd with hd | hd
    · exact hescape _ hd
    · exact hescape _ hd

/-- The JSON of a move. -/
def moved (score : StrategyScore F) (target : StrategyStatus) : Json F :=
  .obj [(py "evaluations", .int score.evaluations), (py "from_status", .str score.status.value),
    (py "strategy_id", .str score.strategyId), (py "successes", .int score.successes),
    (py "to_status", .str target.value), (py "wilson_lower", .float score.wilsonLower)]

/-- The text the key of a move is the digest of. -/
def movedText (score : StrategyScore F) (target : StrategyStatus) : PyStr :=
  (render (moved score target)).flatMap asciiChar

variable (H : PolicyHost F)

def transitionKey (score : StrategyScore F) (target : StrategyStatus) : PyStr :=
  py "strategy:" ++ score.strategyId ++ py ":transition:" ++
    H.sha256 ((encode (movedText score target)).getD [])

/-- The score comes from the host. -/
def Scored (score : StrategyScore F) : Prop :=
  score.wilsonLower = H.wilsonLower score.successes score.evaluations

variable {H}

theorem dumps_transition {score : StrategyScore F} (h : Scored H score) (target : StrategyStatus) :
    dumps (score.transition target) = .ok (render (moved score target)) := by
  have hfinite : (PyFloat.value score.wilsonLower).isFinite = true := by
    rw [h]
    exact H.wilson_finite _ _
  have hlower : lower (score.transition target) = .ok (moved score target) := by
    apply lower_strDict (s := [(py "evaluations", .int score.evaluations),
      (py "from_status", .str score.status.value), (py "strategy_id", .str score.strategyId),
      (py "successes", .int score.successes), (py "to_status", .str target.value),
      (py "wilson_lower", .float score.wilsonLower)])
    · rfl
    · simp [lower, hfinite]
  rw [dumps, hlower]
  rfl

theorem encode_movedText (score : StrategyScore F) (target : StrategyStatus) :
    ∃ bytes, encode (movedText score target) = some bytes := by
  apply Option.isSome_iff_exists.mp
  apply encode_ascii
  intro c hc
  obtain ⟨d, _, hd⟩ := List.mem_flatMap.mp hc
  exact asciiChar_ascii d c hd

/-! ## One move -/

variable {db db' : PolicyDatabase F T} {tenantId : PyStr} {θ : Thresholds F} {now : T}

/-- The outbox row of a move. -/
def moveRow (H : PolicyHost F) (tenantId : PyStr) (θ : Thresholds F) (score : StrategyScore F)
    (stamp : Stamp T) : OutboxRow T where
  eventId := stamp.uuid
  tenantId := tenantId
  eventType := py "policy.status_changed"
  aggregateType := py "strategy"
  aggregateId := score.strategyId
  payload := render (moved score (θ.target score))
  idempotencyKey := transitionKey H score (θ.target score)
  createdAt := stamp.now
  dispatchedAt := none

theorem changeStatus_eq_ok {score : StrategyScore F} (h : Scored H score) {stamp : Stamp T}
    {u : Unit} :
    changeStatus H tenantId θ score now stamp db = .ok u db' ↔
      ∃ t, db.policyOutbox.insert (moveRow H tenantId θ score stamp) = some t ∧
        db' = { db.setStatus tenantId score.strategyId (θ.target score) now with
          policyOutbox := t } := by
  obtain ⟨bytes, hbytes⟩ := encode_movedText score (θ.target score)
  have hdumps := dumps_transition h (θ.target score)
  have hascii : asciiDumps (score.transition (θ.target score)) =
      .ok (movedText score (θ.target score)) := by
    rw [asciiDumps, hdumps]
    rfl
  have hevent : enqueue (score.event tenantId (θ.target score) (H.sha256 bytes)) stamp =
      (insertOutbox (moveRow H tenantId θ score stamp) : PolicyDb F T Unit) := by
    have hpayload : (score.event tenantId (θ.target score) (H.sha256 bytes)).payload =
        score.transition (θ.target score) := rfl
    rw [enqueue, hpayload, hdumps]
    simp only [OutboxEvent.row, StrategyScore.event, moveRow, transitionKey, hbytes,
      Option.getD_some]
  rw [changeStatus, hascii]
  simp only [bind_eq_ok, modify_eq_ok, encoded_eq_ok, hbytes, Option.some.injEq]
  constructor
  · rintro ⟨_, _, rfl, _, _, ⟨rfl, rfl⟩, hins⟩
    rw [hevent] at hins
    exact insertOutbox_eq_ok.mp hins
  · intro hins
    refine ⟨(), _, rfl, bytes, _, ⟨rfl, rfl⟩, ?_⟩
    rw [hevent]
    exact insertOutbox_eq_ok.mpr hins

/-! ## All moves -/

/-- The strategies after the moves of these scores. -/
def settle (tenantId : PyStr) (θ : Thresholds F) (now : T) :
    List (StrategyScore F) → Strategy T → Strategy T
  | [], s => s
  | score :: scores, s =>
    settle tenantId θ now scores
      (if θ.moves score && s.hasId score.strategyId tenantId then
        s.withStatus (θ.target score) now else s)

/-- The outbox rows of the moves. -/
def moveRows (H : PolicyHost F) (tenantId : PyStr) (θ : Thresholds F) (stamp : ℕ → Stamp T) :
    List (StrategyScore F) → ℕ → List (OutboxRow T)
  | [], _ => []
  | score :: scores, i =>
    if θ.moves score then
      moveRow H tenantId θ score (stamp i) :: moveRows H tenantId θ stamp scores (i + 1)
    else moveRows H tenantId θ stamp scores i

/-- No row of the outbox, old or new, clashes with another. -/
def AllNew (db : PolicyDatabase F T) (rows : List (OutboxRow T)) : Prop :=
  (db.policyOutbox.rows ++ rows).Pairwise fun e e' => ¬twoKeysClash e.key e'.key

/-- The store after the moves. -/
structure Moved (H : PolicyHost F) (db : PolicyDatabase F T) (tenantId : PyStr)
    (θ : Thresholds F) (now : T) (scores : List (StrategyScore F)) (rows : List (OutboxRow T))
    (db' : PolicyDatabase F T) : Prop where
  strategies : db'.strategies.rows = db.strategies.rows.map (settle tenantId θ now scores)
  applications : db'.applications = db.applications
  outcomes : db'.outcomes = db.outcomes
  outbox : db'.policyOutbox.rows = db.policyOutbox.rows ++ rows
  interventions : db'.sequenceInterventions = db.sequenceInterventions

theorem settle_cons_unmoved {score : StrategyScore F} {scores : List (StrategyScore F)}
    (h : θ.moves score = false) :
    settle (T := T) tenantId θ now (score :: scores) = settle tenantId θ now scores := by
  funext s
  rw [settle, h]
  rfl

variable (db tenantId θ now) in
theorem changeStatuses_eq_ok {scores : List (StrategyScore F)} (h : ∀ x ∈ scores, Scored H x)
    (stamp : ℕ → Stamp T) {i : ℕ} :
    (∀ u db', changeStatuses H tenantId θ now stamp scores i db = .ok u db' →
      Moved H db tenantId θ now scores (moveRows H tenantId θ stamp scores i) db') ∧
    ((∃ u db', changeStatuses H tenantId θ now stamp scores i db = .ok u db') ↔
      AllNew db (moveRows H tenantId θ stamp scores i)) := by
  induction scores generalizing db i with
  | nil =>
    simp only [changeStatuses, pure_eq_ok, moveRows]
    constructor
    · rintro u db' ⟨_, rfl⟩
      have hid : settle (T := T) tenantId θ now [] = id := rfl
      exact ⟨by rw [hid, List.map_id], rfl, rfl, by rw [List.append_nil], rfl⟩
    · rw [AllNew, List.append_nil]
      exact ⟨fun _ => db.policyOutbox.distinct, fun _ => ⟨(), db, trivial, rfl⟩⟩
  | cons score scores ih =>
    obtain ⟨hscore, hscores⟩ := List.forall_mem_cons.mp h
    by_cases hmoves : θ.moves score = true
    · -- the strategy moves: its row goes into the outbox first
      simp only [changeStatuses, moveRows, hmoves, if_true, bind_eq_ok,
        changeStatus_eq_ok hscore]
      have hrest : ∀ t, db.policyOutbox.insert (moveRow H tenantId θ score (stamp i)) = some t →
          t.rows = db.policyOutbox.rows ++ [moveRow H tenantId θ score (stamp i)] :=
        fun t ht => Table.insert_rows ht
      constructor
      · rintro u db' ⟨_, db₁, ⟨t, ht, hdb₁⟩, hdb'⟩
        have hm := (ih _ hscores).1 u db' hdb'
        rw [hdb₁] at hm
        refine ⟨?_, hm.applications, hm.outcomes, ?_, hm.interventions⟩
        · rw [hm.strategies]
          simp only [PolicyDatabase.setStatus, Table.update, List.map_map]
          apply List.map_congr_left
          intro s _
          simp only [Function.comp, settle, hmoves, Bool.true_and]
        · rw [hm.outbox, hrest t ht, List.append_assoc]
          rfl
      · constructor
        · rintro ⟨u, db', _, db₁, ⟨t, ht, hdb₁⟩, hdb'⟩
          have hnew := (ih _ hscores).2.mp ⟨u, db', hdb'⟩
          rw [hdb₁, AllNew, hrest t ht, List.append_assoc] at hnew
          exact hnew
        · intro hnew
          have hinsert : ∃ t, db.policyOutbox.insert (moveRow H tenantId θ score (stamp i)) = some t := by
            rw [Table.insert_isSome]
            intro e he
            exact (List.pairwise_append.mp hnew).2.2 e he _ List.mem_cons_self
          obtain ⟨t, ht⟩ := hinsert
          have hnew' : AllNew { db.setStatus tenantId score.strategyId (θ.target score) now with
              policyOutbox := t } (moveRows H tenantId θ stamp scores (i + 1)) := by
            rw [AllNew, hrest t ht, List.append_assoc]
            exact hnew
          obtain ⟨u, db', hdb'⟩ := (ih _ hscores).2.mpr hnew'
          exact ⟨u, db', (), _, ⟨t, ht, rfl⟩, hdb'⟩
    · -- the strategy stays
      rw [Bool.not_eq_true] at hmoves
      simp only [changeStatuses, moveRows, hmoves, Bool.false_eq_true, if_false]
      refine ⟨?_, (ih _ hscores).2⟩
      intro u db' hdb'
      have hm := (ih _ hscores).1 u db' hdb'
      refine ⟨?_, hm.applications, hm.outcomes, hm.outbox, hm.interventions⟩
      rw [settle_cons_unmoved hmoves]
      exact hm.strategies

/-! ## Where the strategies end -/

theorem withStatus_hasId (status : StrategyStatus) (s : Strategy T) (strategyId : PyStr) :
    (s.withStatus status now).hasId strategyId tenantId = s.hasId strategyId tenantId := rfl

/-- A strategy that no score is of stays as it is. -/
theorem settle_of_foreign {scores : List (StrategyScore F)} {s : Strategy T}
    (h : ∀ score ∈ scores, s.hasId score.strategyId tenantId = false) :
    settle tenantId θ now scores s = s := by
  induction scores with
  | nil => rfl
  | cons score scores ih =>
    obtain ⟨hscore, hscores⟩ := List.forall_mem_cons.mp h
    rw [settle, hscore, Bool.and_false]
    exact ih hscores

/-- A strategy settles by its own score. -/
theorem settle_of_mem {scores : List (StrategyScore F)} {s : Strategy T}
    (hids : (scores.map (·.strategyId)).Nodup) {score : StrategyScore F} (hscore : score ∈ scores)
    (hid : s.hasId score.strategyId tenantId = true) :
    settle tenantId θ now scores s =
      if θ.moves score then s.withStatus (θ.target score) now else s := by
  induction scores with
  | nil => cases hscore
  | cons x scores ih =>
    obtain ⟨hx, hscores⟩ := List.nodup_cons.mp hids
    have hother : ∀ y : StrategyScore F, y.strategyId ≠ score.strategyId →
        s.hasId y.strategyId tenantId = false := by
      intro y hy
      have heq : s.strategyId = score.strategyId := by
        have h := hid
        simp only [Strategy.hasId, Bool.and_eq_true, beq_iff_eq] at h
        exact h.1
      simp [Strategy.hasId, heq, Ne.symm hy]
    rw [settle]
    rcases List.mem_cons.mp hscore with rfl | hmem
    · rw [hid, Bool.and_true]
      apply settle_of_foreign
      intro y hy
      have hne : y.strategyId ≠ score.strategyId := by
        intro heq
        exact hx (List.mem_map.mpr ⟨y, hy, heq⟩)
      by_cases hmoves : θ.moves score = true
      · rw [if_pos hmoves, withStatus_hasId]
        exact hother y hne
      · rw [if_neg hmoves]
        exact hother y hne
    · have hne : x.strategyId ≠ score.strategyId := by
        intro heq
        exact hx (List.mem_map.mpr ⟨score, hmem, heq.symm⟩)
      rw [hother x hne, Bool.and_false]
      exact ih hscores hmem

omit [PyFloat F] in
/-- A status update leaves what a score is counted from. -/
theorem credit_congr {s s' : Strategy T} (hid : s'.strategyId = s.strategyId)
    (hfamily : s'.sourceTaskFamily = s.sourceTaskFamily)
    (happlications : db'.applications = db.applications) (houtcomes : db'.outcomes = db.outcomes) :
    db'.credit s' = db.credit s := by
  rw [PolicyDatabase.credit, PolicyDatabase.credit, happlications, houtcomes, hid, hfamily]

theorem target_congr {x y : StrategyScore F} (hcount : x.evaluations = y.evaluations)
    (hwilson : x.wilsonLower = y.wilsonLower) : θ.target x = θ.target y := by
  simp only [Thresholds.target, hcount, hwilson]

theorem target_score (H : PolicyHost F) {s s' : Strategy T} (h : db'.credit s' = db.credit s) :
    θ.target (db'.score H s') = θ.target (db.score H s) := by
  apply target_congr
  · simp only [PolicyDatabase.score, h]
  · simp only [PolicyDatabase.score, h]

theorem scored (db : PolicyDatabase F T) (s : Strategy T) : Scored H (db.score H s) := rfl

omit [PyFloat F] in
theorem mem_ofTenant {s : Strategy T} :
    s ∈ db.ofTenant tenantId ↔ s ∈ db.strategies.rows ∧ s.tenantId = tenantId := by
  rw [PolicyDatabase.ofTenant, List.mem_insertionSort, List.mem_filter, beq_iff_eq]

theorem scores_nodup (H : PolicyHost F) (db : PolicyDatabase F T) (tenantId : PyStr) :
    (((db.ofTenant tenantId).map (db.score H)).map (·.strategyId)).Nodup := by
  have hids : (((db.ofTenant tenantId).map (db.score H)).map (·.strategyId)) =
      (db.ofTenant tenantId).map (·.strategyId) := by
    rw [List.map_map]
    rfl
  rw [hids]
  have hperm := (List.perm_insertionSort strategyOrder
    (db.strategies.rows.filter (·.tenantId == tenantId))).map (·.strategyId)
  refine hperm.nodup_iff.mpr (List.pairwise_map.mpr ?_)
  apply (db.strategies.distinct.filter _).imp
  intro a b hab heq
  exact hab (Or.inl heq)

variable (H θ now) in
/-- What the moves of a refresh make of a strategy of the tenant. -/
theorem settle_strategy {s : Strategy T} (hs : s ∈ db.strategies.rows)
    (htenant : s.tenantId = tenantId) :
    settle tenantId θ now ((db.ofTenant tenantId).map (db.score H)) s =
      if s.status ≠ .retired ∧ θ.target (db.score H s) ≠ s.status then
        s.withStatus (θ.target (db.score H s)) now else s := by
  rw [settle_of_mem (scores_nodup H db tenantId)
    (List.mem_map_of_mem (mem_ofTenant.mpr ⟨hs, htenant⟩))]
  · have hmoves : θ.moves (db.score H s) = true ↔
        s.status ≠ .retired ∧ θ.target (db.score H s) ≠ s.status := by
      simp [Thresholds.moves, PolicyDatabase.score]
    by_cases h : θ.moves (db.score H s) = true
    · rw [if_pos h, if_pos (hmoves.mp h)]
    · rw [if_neg h, if_neg (mt hmoves.mpr h)]
  · simp [Strategy.hasId, PolicyDatabase.score, htenant]

/-! ## A whole refresh -/

/-- The strategies of the tenant stand where their counts put them; the retired ones stay. -/
def Settled (H : PolicyHost F) (tenantId : PyStr) (θ : Thresholds F) (db : PolicyDatabase F T) :
    Prop :=
  ∀ s ∈ db.strategies.rows, s.tenantId = tenantId → s.status ≠ .retired →
    s.status = θ.target (db.score H s)

theorem Moved.settled {rows : List (OutboxRow T)}
    (h : Moved H db tenantId θ now ((db.ofTenant tenantId).map (db.score H)) rows db') :
    Settled H tenantId θ db' := by
  intro s' hs' htenant hlive
  rw [h.strategies] at hs'
  obtain ⟨s, hs, rfl⟩ := List.mem_map.mp hs'
  have hkept : (settle tenantId θ now ((db.ofTenant tenantId).map (db.score H)) s).tenantId =
      tenantId → s.tenantId = tenantId := by
    intro heq
    by_cases hforeign : s.tenantId = tenantId
    · exact hforeign
    · rwa [settle_of_foreign] at heq
      intro score _
      simp [Strategy.hasId, hforeign]
  have hs₁ := settle_strategy H θ now hs (hkept htenant)
  rw [hs₁] at hlive ⊢
  by_cases hmove : s.status ≠ .retired ∧ θ.target (db.score H s) ≠ s.status
  · rw [if_pos hmove, target_score H (credit_congr rfl rfl h.applications h.outcomes)]
    rfl
  · rw [if_neg hmove] at hlive ⊢
    rw [target_score H (credit_congr rfl rfl h.applications h.outcomes)]
    by_contra hne
    exact hmove ⟨hlive, Ne.symm hne⟩

/-- The arguments of a refresh that its checks accept. -/
structure RefreshCall (F T : Type) [PyFloat F] where
  tenantId : PyStr
  θ : Thresholds F
  now : T
  stamp : ℕ → Stamp T
  tenant_bound : (encode tenantId).isSome = true
  thresholds_valid : θ.Valid

/-- The scores a refresh goes by. -/
def RefreshCall.scores (a : RefreshCall F T) (H : PolicyHost F) (db : PolicyDatabase F T) :
    List (StrategyScore F) :=
  (db.ofTenant a.tenantId).map (db.score H)

/-- The outbox rows a refresh has to write. -/
def RefreshCall.rows (a : RefreshCall F T) (H : PolicyHost F) (db : PolicyDatabase F T) :
    List (OutboxRow T) :=
  moveRows H a.tenantId a.θ a.stamp (a.scores H db) 0

def RefreshCall.run (a : RefreshCall F T) (H : PolicyHost F) :
    PolicyDb F T (List (StrategyScore F)) :=
  refreshStatuses H a.tenantId a.θ a.now a.stamp

theorem refresh_eq_ok {a : RefreshCall F T} :
    (∀ scores db', a.run H db = .ok scores db' →
      Moved H db a.tenantId a.θ a.now (a.scores H db) (a.rows H db) db' ∧
        scores = a.scores H db') ∧
    ((∃ scores db', a.run H db = .ok scores db') ↔ AllNew db (a.rows H db)) := by
  have hscored : ∀ x ∈ a.scores H db, Scored H x := by
    intro x hx
    obtain ⟨s, _, rfl⟩ := List.mem_map.mp hx
    exact scored db s
  have hmoves := changeStatuses_eq_ok db a.tenantId a.θ a.now hscored a.stamp (i := 0)
  have hrun : ∀ scores db', a.run H db = .ok scores db' ↔
      changeStatuses H a.tenantId a.θ a.now a.stamp (a.scores H db) 0 db = .ok () db' ∧
        scores = a.scores H db' := by
    intro scores db'
    simp only [RefreshCall.run, refreshStatuses, bind_eq_ok, raiseIf_eq_ok, not_not,
      immediate_eq_ok, scoreRows_eq_ok, a.tenant_bound, true_and]
    constructor
    · rintro ⟨_, _, ⟨_, rfl⟩, _, db₁, ⟨_, _, ⟨rfl, rfl⟩, hchange⟩, rfl, rfl⟩
      exact ⟨hchange, rfl⟩
    · rintro ⟨hchange, rfl⟩
      exact ⟨(), db, ⟨a.thresholds_valid, rfl⟩, (), db', ⟨_, db, ⟨rfl, rfl⟩, hchange⟩, rfl, rfl⟩
  constructor
  · intro scores db' h
    obtain ⟨hchange, hscores⟩ := (hrun scores db').mp h
    exact ⟨hmoves.1 () db' hchange, hscores⟩
  · constructor
    · rintro ⟨scores, db', h⟩
      exact hmoves.2.mp ⟨(), db', ((hrun scores db').mp h).1⟩
    · intro hnew
      obtain ⟨_, db', hchange⟩ := hmoves.2.mpr hnew
      exact ⟨_, db', (hrun _ db').mpr ⟨hchange, rfl⟩⟩

/-- The refresh returns, and the strategies stand where their counts put them. -/
def Refreshes (H : PolicyHost F) (a : RefreshCall F T) (db : PolicyDatabase F T) : Prop :=
  ∃ scores db', a.run H db = .ok scores db' ∧ Settled H a.tenantId a.θ db'

/-- After any history a refresh does its work exactly when every outbox row it writes is new. -/
theorem refreshes_iff (H : PolicyHost F) (calls : List (Call F T)) (a : RefreshCall F T) :
    Refreshes H a (history H .empty calls) ↔
      AllNew (history H .empty calls) (a.rows H (history H .empty calls)) := by
  constructor
  · rintro ⟨scores, db', hrun, _⟩
    exact refresh_eq_ok.2.mp ⟨scores, db', hrun⟩
  · intro hnew
    obtain ⟨scores, db', hrun⟩ := refresh_eq_ok.2.mpr hnew
    exact ⟨scores, db', hrun, (refresh_eq_ok.1 scores db' hrun).1.settled⟩

/-! ### A move that comes again -/

/-- Floats enough for thresholds. -/
inductive Halves where
  | nan
  | inf
  | negInf
  | zero
  | half
  deriving DecidableEq

instance : PyFloat Halves where
  ofText s := if s = py "0.0" then .zero else if s = py "0.5" then .half else .nan
  repr
    | .nan => py "nan"
    | .inf => py "inf"
    | .negInf => py "-inf"
    | .zero => py "0.0"
    | .half => py "0.5"
  value
    | .nan => .nan
    | .inf => .inf
    | .negInf => .negInf
    | .zero => .finite 0
    | .half => .finite (1 / 2)
  nan := .nan
  inf := .inf
  negInf := .negInf
  value_nan := rfl
  value_inf := rfl
  value_negInf := rfl
  ofText_repr x h := by cases x <;> first | rfl | cases h
  scan_repr x h := by cases x <;> first | rfl | cases h

/-- A host whose digest is the text itself. -/
def plainHost : PolicyHost Halves where
  sha256 bytes := bytes
  lower s := s
  wilsonLower _ _ := .half
  successRate _ _ := .half
  mean _ := .zero
  wilson_finite _ _ := rfl

def refreshAt (minEvaluations : ℤ) (now : ℕ) (h : 1 ≤ minEvaluations) : RefreshCall Halves ℕ where
  tenantId := py "tenant"
  θ := ⟨minEvaluations, .half, .zero⟩
  now := now
  stamp i := ⟨py "event-" ++ decimal (100 * now + i), now⟩
  tenant_bound := rfl
  thresholds_valid := ⟨h, (by decide +kernel : isNonnegative Halves.zero = true),
    (by decide +kernel : floatLe Halves.zero Halves.half = true),
    (by decide +kernel : isAtMostOne Halves.half = true)⟩

def RefreshCall.call (a : RefreshCall F T) : Call F T :=
  .refreshStatuses a.tenantId a.θ a.now a.stamp

/-- A strategy is credited once, activated, and put back under a stricter threshold. -/
def creditedHistory : List (Call Halves ℕ) :=
  [.proposeStrategy ⟨py "tenant", py "boundary_probe", py "pattern", py "job", py "family",
      some (py "s")⟩ [] 0 ⟨py "event-0", 0⟩,
    .recordApplication ⟨py "tenant", py "s", py "target", py "other", py "query", py "key",
      some (py "a")⟩ [] 1 ⟨py "event-1", 1⟩,
    .recordOutcome ⟨py "tenant", py "a", py "known_answer", true, true, .zero, 0, 0, py "ref"⟩ 2
      ⟨py "event-2", 2⟩,
    (refreshAt 1 3 (by decide)).call, (refreshAt 2 4 (by decide)).call]

/-- The same activation is then refused. -/
theorem not_refreshes_again :
    ¬Refreshes plainHost (refreshAt 1 5 (by decide)) (history plainHost .empty creditedHistory) := by
  have hraises : returns ((refreshAt 1 5 (by decide)).run plainHost)
      (history plainHost .empty creditedHistory) = false := by decide +kernel
  rintro ⟨scores, db', hrun, _⟩
  rw [returns_iff.mpr ⟨scores, db', hrun⟩] at hraises
  cases hraises

end PolicyRefresh
