import VeriMat.PolicyCredit

/-! # The rows of the policy outbox

What a mutation leaves in the outbox can be sent: its labels are there, and its payload is the
text of a durable JSON object. A mutation adds rows behind those already there and changes
none of them. -/
namespace PolicyOutbox

open PyText JsonText PyValue KeyedTable Transaction PolicyStore PolicyRefresh PolicyCredit
open DurablePayload JsonWritable
open Events (isSensitiveKey isHash orElse)

variable {F T : Type} [PyFloat F] {H : PolicyHost F}

/-! ## Durable payloads -/

/-- A value without dicts that can be written. -/
structure Plain (v : PyVal F) : Prop where
  writable : Writable v
  flat : allKeys v = []
  agrees : KeyOrderAgrees v

theorem plain_str {s : PyStr} (h : (encode s).isSome = true) : Plain (.str s : PyVal F) :=
  ⟨writable_str.mpr h, rfl, trivial⟩

theorem plain_int (n : ℤ) : Plain (.int n : PyVal F) := ⟨writable_int n, rfl, trivial⟩

theorem plain_bool (b : Bool) : Plain (.bool b : PyVal F) := ⟨writable_bool b, rfl, trivial⟩

theorem plain_float {x : F} (h : (PyFloat.value x).isFinite = true) :
    Plain (.float x : PyVal F) :=
  ⟨writable_float h, rfl, trivial⟩

theorem plain_texts {l : List PyStr} (h : ∀ s ∈ l, (encode s).isSome = true) :
    Plain (.list (l.map fun s => .str s) : PyVal F) := by
  refine ⟨writable_texts.mpr h, ?_, ?_⟩
  · rw [allKeys, List.eq_nil_iff_forall_not_mem]
    intro k hk
    obtain ⟨v, hv, hk⟩ := mem_allKeysElems.mp hk
    obtain ⟨s, _, rfl⟩ := List.mem_map.mp hv
    cases hk
  · rw [KeyOrderAgrees, elemsAgree_iff]
    intro v hv
    obtain ⟨s, _, rfl⟩ := List.mem_map.mp hv
    trivial

/-- Names a payload may have. -/
def Names (keys : List PyStr) : Prop :=
  keys.Nodup ∧ ∀ k ∈ keys, (encode k).isSome = true ∧ isSensitiveKey k = false

instance (keys : List PyStr) : Decidable (Names keys) := inferInstanceAs (Decidable (_ ∧ _))

/-- A payload: a dict of plain values. -/
def Payload (v : PyVal F) : Prop :=
  ∃ fields : List (PyStr × PyVal F), v = .dict (fields.map fun p => (.str p.1, p.2)) ∧
    Names (fields.map Prod.fst) ∧ ∀ p ∈ fields, Plain p.2

/-- The text of an object that the ledger accepts, as `json.dumps` writes it. -/
structure DurableText (F : Type) [PyFloat F] (text : PyStr) (members : List (PyStr × Json F)) :
    Prop where
  render : text = render (.obj members)
  finite : (Json.obj members).Finite
  sorted : NamesSorted (.obj members)
  names : ∀ n ∈ names (.obj members), isSensitiveKey n = false
  encodes : (encode text).isSome = true

/-- Different text keys are sorted as their texts are. -/
theorem keys_agree {keys : List PyStr} (h : keys.Nodup) :
    (keys.map fun k => (.str k : PyKey F)).Pairwise TextOrderAgrees := by
  refine List.pairwise_map.mpr (h.imp ?_)
  intro a b hab
  have hlt : keyLT (.str b : PyKey F) (.str a) ↔ b < a := by
    simp [keyLT, PyKey.isStr, PyKey.isNumber, PyKey.strValue]
  rw [TextOrderAgrees]
  by_cases hba : b < a
  · rw [if_pos (hlt.mpr hba)]
    exact hba
  · rw [if_neg (mt hlt.mp hba)]
    exact lt_of_le_of_ne (not_lt.mp hba) hab

theorem Payload.durable {v : PyVal F} (h : Payload v) :
    ∃ text members, dumps v = .ok text ∧ DurableText F text members := by
  obtain ⟨fields, rfl, hnames, hplain⟩ := h
  obtain ⟨j, hj, hencodes⟩ := writable_dict fun p hp =>
    ⟨(hnames.2 p.1 (List.mem_map_of_mem hp)).1, (hplain p hp).writable⟩
  obtain ⟨_, members, _, rfl, _⟩ := lower_dict_inv hj
  refine ⟨render (.obj members), members, by rw [dumps, hj]; rfl, rfl, lower_finite _ _ hj, ?_, ?_,
    hencodes⟩
  · rw [namesSorted_lower_iff _ _ hj, KeyOrderAgrees, itemsAgree_iff, List.map_map]
    refine ⟨?_, ?_⟩
    · have hkeys := keys_agree (F := F) hnames.1
      rwa [List.map_map] at hkeys
    · intro p hp
      obtain ⟨q, hq, rfl⟩ := List.mem_map.mp hp
      exact (hplain q hq).agrees
  · intro n hn
    obtain ⟨k, hk, rfl⟩ := (mem_names_lower _ _ hj n).mp hn
    obtain ⟨p, hp, hk⟩ := mem_allKeysItems.mp hk
    obtain ⟨q, hq, rfl⟩ := List.mem_map.mp hp
    rcases hk with rfl | hk
    · exact (hnames.2 q.1 (List.mem_map_of_mem hq)).2
    · rw [(hplain q hq).flat] at hk
      cases hk

/-! ## Rows that can be sent -/

/-- A row of which only the id of its aggregate may be blank. -/
structure Sendable (F : Type) [PyFloat F] (e : OutboxRow T) : Prop where
  eventId : (encode e.eventId).isSome = true
  eventType : Label e.eventType
  aggregateType : Label e.aggregateType
  aggregateId : (encode e.aggregateId).isSome = true
  idempotencyKey : Label e.idempotencyKey
  payload : ∃ members, DurableText F e.payload members

/-- The rows of a database hold texts that were bound, and its outbox can be sent. -/
structure Sound (db : PolicyDatabase F T) : Prop where
  strategies : ∀ s ∈ db.strategies.rows, (encode s.strategyId).isSome = true
  applications : ∀ a ∈ db.applications.rows,
    (encode a.strategyId).isSome = true ∧ (encode a.targetJobId).isSome = true
  outbox : ∀ e ∈ db.policyOutbox.rows, Sendable F e

theorem sound_empty : Sound (.empty : PolicyDatabase F T) := by
  constructor
  · intro s hs
    cases hs
  · intro a ha
    cases ha
  · intro e he
    cases he

/-- The outbox has new rows behind the old ones. -/
def Grows (db db' : PolicyDatabase F T) : Prop :=
  ∃ new, db'.policyOutbox.rows = db.policyOutbox.rows ++ new ∧ ∀ e ∈ new, e.dispatchedAt = none

omit [PyFloat F] in
theorem grows_of_eq {db db' : PolicyDatabase F T} (h : db'.policyOutbox = db.policyOutbox) :
    Grows db db' :=
  ⟨[], by rw [h, List.append_nil], by simp⟩

omit [PyFloat F] in
theorem grows_refl (db : PolicyDatabase F T) : Grows db db := grows_of_eq rfl

omit [PyFloat F] in
theorem grows_trans (db₁ db₂ db₃ : PolicyDatabase F T) (h : Grows db₁ db₂) (h' : Grows db₂ db₃) :
    Grows db₁ db₃ := by
  obtain ⟨new, hrows, hnew⟩ := h
  obtain ⟨new', hrows', hnew'⟩ := h'
  refine ⟨new ++ new', by rw [hrows', hrows, List.append_assoc], ?_⟩
  intro e he
  exact (List.mem_append.mp he).elim (hnew e) (hnew' e)

/-- A computation that keeps the database sound and adds rows to the outbox. -/
def Adds {α : Type} (x : PolicyDb F T α) (post : α → Prop) : Prop := Yields Sound Grows x post

section Computations
variable {α β : Type} {post : α → Prop}

theorem Adds.bind {post' : β → Prop} {x : PolicyDb F T α} {f : α → PolicyDb F T β}
    (hx : Adds x post) (hf : ∀ a, post a → Adds (f a) post') : Adds (x >>= f) post' :=
  Yields.bind hx hf grows_trans

theorem Adds.weaken {post' : α → Prop} {x : PolicyDb F T α} (hx : Adds x post)
    (h : ∀ a, post a → post' a) : Adds x post' :=
  Yields.weaken hx h

theorem adds_pure {a : α} (h : post a) : Adds (pure a : PolicyDb F T α) post :=
  yields_pure grows_refl h

theorem adds_throw {e : PolicyError} : Adds (throw e : PolicyDb F T α) post :=
  yields_throw grows_refl

theorem adds_get : Adds (get : PolicyDb F T (PolicyDatabase F T)) Sound := yields_get grows_refl

theorem adds_raiseIf {c : Prop} [Decidable c] {e : PolicyError} :
    Adds (raiseIf c e : PolicyDb F T Unit) fun _ => ¬c :=
  yields_raiseIf grows_refl

theorem adds_orRaise {o : Option α} {e : PolicyError} :
    Adds (orRaise o e : PolicyDb F T α) fun a => o = some a :=
  yields_orRaise grows_refl

theorem Adds.immediate {body : PolicyDb F T α} (h : Adds body post) : Adds (immediate body) post :=
  Yields.immediate h grows_refl

theorem adds_readOnly {x : PolicyDb F T α} (h : ReadOnly x) : Adds x fun _ => True :=
  h.yields grows_refl fun _ _ _ _ => trivial

theorem adds_bindText (s : PyStr) :
    Adds (bindText s : PolicyDb F T Unit) fun _ => (encode s).isSome = true := by
  refine (readOnly_bindText s).yields grows_refl ?_
  intro db u _ h
  exact (bindText_eq_ok.mp h).1

theorem adds_encoded (s : PyStr) :
    Adds (encoded s : PolicyDb F T PyBytes) fun _ => (encode s).isSome = true := by
  refine (readOnly_encoded s).yields grows_refl ?_
  intro db b _ h
  rw [(encoded_eq_ok.mp h).1]
  rfl

/-- A step that leaves the state alone when it raises. -/
theorem adds_of_ok {x : PolicyDb F T α} (hx : Atomic x)
    (h : ∀ db a db', Sound db → x db = .ok a db' → Sound db' ∧ Grows db db' ∧ post a) :
    Adds x post := by
  intro db hdb
  cases hran : x db with
  | ok a db' =>
    rw [ran_ok hran]
    obtain ⟨hsound, hgrows, hpost⟩ := h db a db' hdb hran
    refine ⟨hsound, hgrows, ?_⟩
    intro b db₁ hb
    cases hb
    exact hpost
  | error e db' =>
    rw [ran_error hran, hx db e db' hran]
    refine ⟨hdb, grows_refl db, ?_⟩
    intro b db₁ hb
    cases hb

end Computations

/-! ## Statements -/

section Statements

omit [PyFloat F] in
/-- One row inserted, or none. -/
theorem atomic_insert {ρ : Type} {κ : Type} {key : ρ → κ} {clash : κ → κ → Prop}
    (field : PolicyDatabase F T → Option (Table key clash))
    (put : PolicyDatabase F T → Table key clash → PolicyDatabase F T) (e : PolicyError) :
    Atomic (do
      let db ← get
      let t ← orRaise (field db) e
      set (put db t) : PolicyDb F T Unit) :=
  readOnly_get.bind_atomic fun _ _ _ => (readOnly_orRaise _ _).bind_atomic fun _ _ _ =>
    (infallible_set _).atomic

theorem adds_insertStrategy {s : Strategy T} (h : (encode s.strategyId).isSome = true) :
    Adds (insertStrategy s : PolicyDb F T Unit) fun _ => True := by
  refine adds_of_ok (atomic_insert _ _ _) ?_
  intro db u db' hdb hok
  simp only [insertStrategy, bind_eq_ok, get_apply, EStateM.Result.ok.injEq, orRaise_eq_ok,
    set_eq_ok] at hok
  obtain ⟨_, _, ⟨rfl, rfl⟩, t, _, ⟨ht, rfl⟩, rfl⟩ := hok
  refine ⟨⟨?_, hdb.applications, hdb.outbox⟩, grows_of_eq rfl, trivial⟩
  intro s' hs'
  rw [Table.insert_rows ht] at hs'
  rcases List.mem_append.mp hs' with hs' | hs'
  · exact hdb.strategies s' hs'
  · rw [List.mem_singleton.mp hs']
    exact h

theorem adds_insertApplication {a : Application T}
    (h : (encode a.strategyId).isSome = true ∧ (encode a.targetJobId).isSome = true) :
    Adds (insertApplication a : PolicyDb F T Unit) fun _ => True := by
  refine adds_of_ok (atomic_insert _ _ _) ?_
  intro db u db' hdb hok
  simp only [insertApplication, bind_eq_ok, get_apply, EStateM.Result.ok.injEq, orRaise_eq_ok,
    set_eq_ok] at hok
  obtain ⟨_, _, ⟨rfl, rfl⟩, t, _, ⟨ht, rfl⟩, rfl⟩ := hok
  refine ⟨⟨hdb.strategies, ?_, hdb.outbox⟩, grows_of_eq rfl, trivial⟩
  intro a' ha'
  rw [Table.insert_rows ht] at ha'
  rcases List.mem_append.mp ha' with ha' | ha'
  · exact hdb.applications a' ha'
  · rw [List.mem_singleton.mp ha']
    exact h

theorem adds_insertOutcome (o : OutcomeRow F T) :
    Adds (insertOutcome o : PolicyDb F T Unit) fun _ => True := by
  refine adds_of_ok (atomic_insert _ _ _) ?_
  intro db u db' hdb hok
  simp only [insertOutcome, bind_eq_ok, get_apply, EStateM.Result.ok.injEq, orRaise_eq_ok,
    set_eq_ok] at hok
  obtain ⟨_, _, ⟨rfl, rfl⟩, t, _, ⟨_, rfl⟩, rfl⟩ := hok
  exact ⟨⟨hdb.strategies, hdb.applications, hdb.outbox⟩, grows_of_eq rfl, trivial⟩

theorem adds_insertIntervention (i : SequenceIntervention T) :
    Adds (insertIntervention i : PolicyDb F T Unit) fun _ => True := by
  refine adds_of_ok (atomic_insert _ _ _) ?_
  intro db u db' hdb hok
  simp only [insertIntervention, bind_eq_ok, get_apply, EStateM.Result.ok.injEq, orRaise_eq_ok,
    set_eq_ok] at hok
  obtain ⟨_, _, ⟨rfl, rfl⟩, t, _, ⟨_, rfl⟩, rfl⟩ := hok
  exact ⟨⟨hdb.strategies, hdb.applications, hdb.outbox⟩, grows_of_eq rfl, trivial⟩

/-- An event with labels and a payload. -/
structure Tellable (e : OutboxEvent F) : Prop where
  eventType : Label e.eventType
  aggregateType : Label e.aggregateType
  aggregateId : (encode e.aggregateId).isSome = true
  idempotencyKey : Label e.idempotencyKey
  payload : Payload e.payload

theorem adds_enqueue {e : OutboxEvent F} {stamp : Stamp T} (h : Tellable e)
    (hstamp : (encode stamp.uuid).isSome = true) :
    Adds (enqueue e stamp : PolicyDb F T Unit) fun _ => True := by
  obtain ⟨text, members, hdumps, hdurable⟩ := h.payload.durable
  rw [enqueue, hdumps]
  refine adds_of_ok (atomic_insert _ _ _) ?_
  intro db u db' hdb hok
  obtain ⟨t, ht, rfl⟩ := insertOutbox_eq_ok.mp hok
  have hrows := Table.insert_rows ht
  refine ⟨⟨hdb.strategies, hdb.applications, ?_⟩, ⟨_, hrows, ?_⟩, trivial⟩
  · intro row hrow
    rw [hrows] at hrow
    rcases List.mem_append.mp hrow with hrow | hrow
    · exact hdb.outbox row hrow
    · rw [List.mem_singleton.mp hrow]
      exact ⟨hstamp, h.eventType, h.aggregateType, h.aggregateId, h.idempotencyKey,
        members, hdurable⟩
  · intro row hrow
    rw [List.mem_singleton.mp hrow]
    rfl

end Statements

/-! ## Events -/

section Events

theorem encodes_kind {kind : PyStr} (h : kind ∈ allowedKinds) : (encode kind).isSome = true := by
  simp only [allowedKinds, List.mem_cons, List.not_mem_nil, or_false] at h
  rcases h with rfl | rfl | rfl <;> rfl

theorem encodes_evaluator {kind : PyStr} (h : kind ∈ allowedEvaluators) :
    (encode kind).isSome = true := by
  simp only [allowedEvaluators, List.mem_cons, List.not_mem_nil, or_false] at h
  rcases h with rfl | rfl | rfl <;> rfl

theorem encodes_status (status : StrategyStatus) : (encode status.value).isSome = true := by
  cases status <;> rfl

/-- The digest of a host is hexadecimal. -/
def HexDigest (H : PolicyHost F) : Prop := ∀ bytes, isHash (H.sha256 bytes) = true

/-- The names of the payloads. -/
theorem names_payloads : ∀ keys ∈ [
    [py "strategy_id", py "kind", py "pattern_sha256", py "source_job_id", py
      "source_task_family"],
    [py "strategy_id", py "application_id", py "target_job_id", py "target_task_family", py
      "rendered_query_sha256"],
    [py "strategy_id", py "application_id", py "target_job_id", py "evaluator_kind", py "success",
      py "false_gap_avoided", py "valid_finding_delta", py "calls", py "tokens", py
      "evidence_ref_sha256"],
    [py "strategy_id", py "from_status", py "to_status", py "evaluations", py "successes", py
      "wilson_lower"],
    [py "run_id", py "method_id", py "sequence_index", py "challenge_id", py "order_sha256", py
      "memory_mode", py "strategy_ids"]], Names keys := by
  decide +kernel

theorem tellable_proposal (hH : HexDigest H) {a : Proposal} {identifier : PyStr} (pattern : PyBytes)
    (hkind : a.kind ∈ allowedKinds) (hid : (encode identifier).isSome = true)
    (hjob : (encode a.sourceJobId).isSome = true)
    (hfamily : (encode a.sourceTaskFamily).isSome = true) :
    Tellable (a.event H identifier pattern) := by
  have hlabel : Label (py "strategy:") := ⟨rfl, rfl⟩
  have hnames := names_payloads _ (.head _)
  refine ⟨⟨rfl, rfl⟩, ⟨rfl, rfl⟩, hid, (hlabel.append hid).append rfl,
    [(py "strategy_id", .str identifier), (py "kind", .str a.kind),
      (py "pattern_sha256", .str (H.sha256 pattern)), (py "source_job_id", .str a.sourceJobId),
      (py "source_task_family", .str a.sourceTaskFamily)], rfl, hnames, ?_⟩
  simp only [List.forall_mem_cons, List.not_mem_nil, false_implies, implies_true, and_true]
  exact ⟨plain_str hid, plain_str (encodes_kind hkind), plain_str (encodes_of_isHash (hH _)),
    plain_str hjob, plain_str hfamily⟩

theorem tellable_application (hH : HexDigest H) {a : ApplicationCall} {identifier : PyStr}
    (query : PyBytes) (hstrategy : (encode a.strategyId).isSome = true)
    (hid : (encode identifier).isSome = true) (hjob : (encode a.targetJobId).isSome = true)
    (hfamily : (encode a.targetTaskFamily).isSome = true) :
    Tellable (a.event identifier (H.sha256 query) : OutboxEvent F) := by
  have hlabel : Label (py "application:") := ⟨rfl, rfl⟩
  have hnames := names_payloads _ (.tail _ (.head _))
  refine ⟨⟨rfl, rfl⟩, ⟨rfl, rfl⟩, hstrategy, (hlabel.append hid).append rfl,
    [(py "strategy_id", .str a.strategyId), (py "application_id", .str identifier),
      (py "target_job_id", .str a.targetJobId),
      (py "target_task_family", .str a.targetTaskFamily),
      (py "rendered_query_sha256", .str (H.sha256 query))], rfl, hnames, ?_⟩
  simp only [List.forall_mem_cons, List.not_mem_nil, false_implies, implies_true, and_true]
  exact ⟨plain_str hstrategy, plain_str hid, plain_str hjob, plain_str hfamily,
    plain_str (encodes_of_isHash (hH _))⟩

theorem tellable_outcome (hH : HexDigest H) {a : OutcomeCall F} {application : Application T}
    (evidence : PyBytes) (hkind : a.evaluatorKind ∈ allowedEvaluators)
    (hdelta : isFiniteFloat a.validFindingDelta = true)
    (hid : (encode a.applicationId).isSome = true)
    (hstrategy : (encode application.strategyId).isSome = true)
    (hjob : (encode application.targetJobId).isSome = true) :
    Tellable (a.event H application evidence) := by
  have hlabel : Label (py "application:") := ⟨rfl, rfl⟩
  have hnames := names_payloads _ (.tail _ (.tail _ (.head _)))
  refine ⟨⟨rfl, rfl⟩, ⟨rfl, rfl⟩, hstrategy, (hlabel.append hid).append rfl,
    [(py "strategy_id", .str application.strategyId), (py "application_id", .str a.applicationId),
      (py "target_job_id", .str application.targetJobId),
      (py "evaluator_kind", .str a.evaluatorKind), (py "success", .bool a.success),
      (py "false_gap_avoided", .bool a.falseGapAvoided),
      (py "valid_finding_delta", .float a.validFindingDelta), (py "calls", .int a.calls),
      (py "tokens", .int a.tokens), (py "evidence_ref_sha256", .str (H.sha256 evidence))], rfl,
    hnames, ?_⟩
  simp only [List.forall_mem_cons, List.not_mem_nil, false_implies, implies_true, and_true]
  exact ⟨plain_str hstrategy, plain_str hid, plain_str hjob, plain_str (encodes_evaluator hkind),
    plain_bool _, plain_bool _, plain_float hdelta, plain_int _, plain_int _,
    plain_str (encodes_of_isHash (hH _))⟩

theorem tellable_status {score : StrategyScore F} {target : StrategyStatus} {hash : PyStr}
    (tenantId : PyStr) (hscore : Scored H score) (hid : (encode score.strategyId).isSome = true)
    (hhash : isHash hash = true) : Tellable (score.event tenantId target hash) := by
  have hlabel : Label (py "strategy:") := ⟨rfl, rfl⟩
  have hnames := names_payloads _ (.tail _ (.tail _ (.tail _ (.head _))))
  have hfinite : (PyFloat.value score.wilsonLower).isFinite = true := by
    rw [hscore]
    exact H.wilson_finite _ _
  refine ⟨⟨rfl, rfl⟩, ⟨rfl, rfl⟩, hid,
    ((hlabel.append hid).append rfl).append (encodes_of_isHash hhash),
    [(py "strategy_id", .str score.strategyId), (py "from_status", .str score.status.value),
      (py "to_status", .str target.value), (py "evaluations", .int score.evaluations),
      (py "successes", .int score.successes), (py "wilson_lower", .float score.wilsonLower)], rfl,
    hnames, ?_⟩
  simp only [List.forall_mem_cons, List.not_mem_nil, false_implies, implies_true, and_true]
  exact ⟨plain_str hid, plain_str (encodes_status _), plain_str (encodes_status _), plain_int _,
    plain_int _, plain_float hfinite⟩

theorem tellable_binding {a : Binding} (hrun : (encode a.runId).isSome = true)
    (hmethod : (encode a.methodId).isSome = true)
    (hchallenge : (encode a.challengeId).isSome = true)
    (horder : (encode a.orderSha256).isSome = true) (hmode : (encode a.memoryMode).isSome = true)
    (hids : ∀ s ∈ a.strategyIds, (encode s).isSome = true) :
    Tellable (a.event : OutboxEvent F) := by
  have hlabel : Label (py "sequence:") := ⟨rfl, rfl⟩
  have hnames := names_payloads _ (.tail _ (.tail _ (.tail _ (.tail _ (.head _)))))
  have hcolon : (encode (py ":")).isSome = true := rfl
  refine ⟨⟨rfl, rfl⟩, ⟨rfl, rfl⟩, ?_, ?_,
    [(py "run_id", .str a.runId), (py "method_id", .str a.methodId),
      (py "sequence_index", .int a.sequenceIndex), (py "challenge_id", .str a.challengeId),
      (py "order_sha256", .str a.orderSha256), (py "memory_mode", .str a.memoryMode),
      (py "strategy_ids", .list (a.strategyIds.map .str))], rfl, hnames, ?_⟩
  · exact encode_append_isSome.mpr ⟨encode_append_isSome.mpr ⟨hrun, hcolon⟩, hmethod⟩
  · have hindex : (encode (intText a.sequenceIndex)).isSome = true :=
      encode_ascii (intText_ascii _)
    exact (((((hlabel.append hrun).append hcolon).append hmethod).append hcolon).append
      hindex).append rfl
  · simp only [List.forall_mem_cons, List.not_mem_nil, false_implies, implies_true, and_true]
    exact ⟨plain_str hrun, plain_str hmethod, plain_int _, plain_str hchallenge, plain_str horder,
      plain_str hmode, plain_texts hids⟩

end Events

/-! ## Mutations -/

section Mutations

theorem adds_proposeStrategy (hH : HexDigest H) (a : Proposal) (uuid : PyStr) (now : T)
    {stamp : Stamp T} (hstamp : (encode stamp.uuid).isSome = true) :
    Adds (proposeStrategy H a uuid now stamp) fun _ => True := by
  refine adds_raiseIf.bind fun _ hkind => ?_
  refine adds_raiseIf.bind fun _ _ => ?_
  refine (adds_readOnly ((readOnly_encoded _).map _)).bind fun key _ => ?_
  refine Adds.immediate ((adds_bindText _).bind fun _ _ => adds_get.bind fun db _ => ?_)
  generalize Table.find _ _ = found
  cases found with
  | some existing => exact adds_pure trivial
  | none =>
    refine (adds_bindText _).bind fun _ hid => ?_
    refine (adds_bindText _).bind fun _ hjob => ?_
    refine (adds_bindText _).bind fun _ hfamily => ?_
    refine (adds_encoded _).bind fun pattern _ => ?_
    refine (adds_insertStrategy hid).bind fun _ _ => ?_
    have htellable := tellable_proposal hH pattern (not_not.mp hkind) hid hjob hfamily
    exact (adds_enqueue htellable hstamp).bind fun _ _ => adds_pure trivial

theorem adds_applicableStrategy (strategyId tenantId : PyStr) :
    Adds (applicableStrategy strategyId tenantId : PolicyDb F T (Strategy T)) fun _ =>
      (encode strategyId).isSome = true :=
  (adds_bindText _).bind fun _ hid => (adds_bindText _).bind fun _ _ => adds_get.bind fun _ _ =>
    adds_orRaise.bind fun _ _ => adds_raiseIf.bind fun _ _ => adds_pure hid

theorem adds_recordApplication (hH : HexDigest H) (a : ApplicationCall) (uuid : PyStr) (now : T)
    {stamp : Stamp T} (hstamp : (encode stamp.uuid).isSome = true) :
    Adds (recordApplication H a uuid now stamp) fun _ => True := by
  refine (adds_applicableStrategy _ _).bind fun _ _ => ?_
  refine adds_raiseIf.bind fun _ _ => ?_
  refine (adds_encoded _).bind fun query _ => ?_
  refine Adds.immediate ((adds_applicableStrategy _ _).bind fun _ hstrategy => ?_)
  refine (adds_bindText _).bind fun _ _ => adds_get.bind fun db _ => ?_
  generalize Table.find _ _ = found
  cases found with
  | some existing => exact adds_raiseIf.bind fun _ _ => adds_pure trivial
  | none =>
    refine (adds_bindText _).bind fun _ hid => ?_
    refine (adds_bindText _).bind fun _ hjob => ?_
    refine (adds_bindText _).bind fun _ hfamily => ?_
    refine (adds_insertApplication ⟨hstrategy, hjob⟩).bind fun _ _ => ?_
    have htellable := tellable_application hH query hstrategy hid hjob hfamily
    exact (adds_enqueue htellable hstamp).bind fun _ _ => adds_pure trivial

theorem adds_knownApplication (applicationId tenantId : PyStr) :
    Adds (knownApplication applicationId tenantId : PolicyDb F T (Application T)) fun a =>
      (encode applicationId).isSome = true ∧ (encode a.strategyId).isSome = true ∧
        (encode a.targetJobId).isSome = true := by
  refine (adds_bindText _).bind fun _ hid => (adds_bindText _).bind fun _ _ => ?_
  refine adds_get.bind fun db hdb => adds_orRaise.weaken fun a hfound => ⟨hid, ?_⟩
  exact hdb.applications a (Table.mem_of_find hfound).1

theorem adds_recordOutcome (hH : HexDigest H) (a : OutcomeCall F) (now : T) {stamp : Stamp T}
    (hstamp : (encode stamp.uuid).isSome = true) :
    Adds (recordOutcome H a now stamp) fun _ => True := by
  refine adds_raiseIf.bind fun _ hevaluator => ?_
  refine adds_raiseIf.bind fun _ hvalid => ?_
  refine adds_raiseIf.bind fun _ _ => ?_
  refine (adds_knownApplication _ _).bind fun _ _ => Adds.immediate ?_
  refine (adds_knownApplication _ _).bind fun application hknown => ?_
  obtain ⟨hid, hstrategy, hjob⟩ := hknown
  refine adds_get.bind fun db _ => ?_
  generalize Table.find _ _ = found
  cases found with
  | some existing => exact adds_raiseIf.weaken fun _ _ => trivial
  | none =>
    refine (adds_readOnly (readOnly_raiseIf _ _)).bind fun _ _ => ?_
    refine (adds_readOnly (readOnly_raiseIf _ _)).bind fun _ _ => ?_
    refine (adds_encoded _).bind fun evidence _ => ?_
    refine (adds_insertOutcome _).bind fun _ _ => ?_
    have hdelta : isFiniteFloat a.validFindingDelta = true := by
      rw [not_or, Bool.not_eq_false] at hvalid
      exact hvalid.2
    exact adds_enqueue
      (tellable_outcome hH evidence (not_not.mp hevaluator) hdelta hid hstrategy hjob) hstamp

theorem adds_scoreRows (tenantId : PyStr) :
    Adds (scoreRows H tenantId : PolicyDb F T (List (StrategyScore F))) fun scores =>
      ∀ score ∈ scores, (encode score.strategyId).isSome = true ∧ Scored H score := by
  refine (adds_bindText _).bind fun _ _ => adds_get.bind fun db hdb => adds_pure ?_
  intro score hscore
  obtain ⟨s, hs, rfl⟩ := List.mem_map.mp hscore
  exact ⟨hdb.strategies s (mem_ofTenant.mp hs).1, scored db s⟩

theorem adds_setStatus (tenantId strategyId : PyStr) (status : StrategyStatus) (now : T) :
    Adds (modify fun db : PolicyDatabase F T => db.setStatus tenantId strategyId status now)
      fun _ => True := by
  refine adds_of_ok (infallible_modify _).atomic ?_
  intro db u db' hdb hok
  rw [modify_eq_ok] at hok
  subst hok
  refine ⟨⟨?_, hdb.applications, hdb.outbox⟩, grows_of_eq rfl, trivial⟩
  intro s hs
  rw [PolicyDatabase.setStatus, Table.mem_update] at hs
  obtain ⟨s₀, hs₀, rfl⟩ := hs
  have hsame := hdb.strategies s₀ hs₀
  split
  · exact hsame
  · exact hsame

theorem adds_changeStatus (hH : HexDigest H) (tenantId : PyStr) (θ : Thresholds F)
    {score : StrategyScore F} (now : T) {stamp : Stamp T}
    (hid : (encode score.strategyId).isSome = true) (hscore : Scored H score)
    (hstamp : (encode stamp.uuid).isSome = true) :
    Adds (changeStatus H tenantId θ score now stamp) fun _ => True := by
  refine (adds_setStatus _ _ _ _).bind fun _ _ => ?_
  cases asciiDumps (score.transition (θ.target score)) with
  | error cause => exact adds_throw
  | ok text =>
    refine (adds_encoded _).bind fun bytes _ => ?_
    exact adds_enqueue (tellable_status tenantId hscore hid (hH bytes)) hstamp

theorem adds_changeStatuses (hH : HexDigest H) (tenantId : PyStr) (θ : Thresholds F) (now : T)
    {stamp : ℕ → Stamp T} (hstamp : ∀ i, (encode (stamp i).uuid).isSome = true)
    {scores : List (StrategyScore F)}
    (h : ∀ score ∈ scores, (encode score.strategyId).isSome = true ∧ Scored H score) (i : ℕ) :
    Adds (changeStatuses H tenantId θ now stamp scores i) fun _ => True := by
  induction scores generalizing i with
  | nil => exact adds_pure trivial
  | cons score scores ih =>
    obtain ⟨⟨hid, hscore⟩, hscores⟩ := List.forall_mem_cons.mp h
    rw [changeStatuses]
    by_cases hmoves : θ.moves score = true
    · rw [if_pos hmoves]
      exact (adds_changeStatus hH tenantId θ now hid hscore (hstamp i)).bind fun _ _ =>
        ih hscores (i + 1)
    · rw [if_neg hmoves]
      exact ih hscores i

theorem adds_refreshStatuses (hH : HexDigest H) (tenantId : PyStr) (θ : Thresholds F) (now : T)
    {stamp : ℕ → Stamp T} (hstamp : ∀ i, (encode (stamp i).uuid).isSome = true) :
    Adds (refreshStatuses H tenantId θ now stamp) fun _ => True := by
  have hbody : Adds (immediate do
      let scores ← scoreRows H tenantId
      changeStatuses H tenantId θ now stamp scores 0) fun _ => True :=
    Adds.immediate ((adds_scoreRows tenantId).bind fun scores hscores =>
      adds_changeStatuses hH tenantId θ now hstamp hscores 0)
  exact adds_raiseIf.bind fun _ _ => hbody.bind fun _ _ =>
    (adds_scoreRows tenantId).weaken fun _ _ => trivial

theorem adds_bindIntervention {a : Binding} (rendered : PyStr) (now : T) {stamp : Stamp T}
    (hids : ∀ s ∈ a.strategyIds, (encode s).isSome = true)
    (hstamp : (encode stamp.uuid).isSome = true) :
    Adds (bindIntervention a rendered now stamp : PolicyDb F T Unit) fun _ => True := by
  refine (adds_bindText _).bind fun _ hrun => ?_
  refine (adds_bindText _).bind fun _ hmethod => ?_
  refine (adds_readOnly (readOnly_raiseIf _ _)).bind fun _ _ => adds_get.bind fun db _ => ?_
  generalize Table.find _ _ = found
  cases found with
  | some existing => exact adds_raiseIf.weaken fun _ _ => trivial
  | none =>
    refine (adds_bindText _).bind fun _ hchallenge => ?_
    refine (adds_bindText _).bind fun _ horder => ?_
    refine (adds_bindText _).bind fun _ hmode => ?_
    refine (adds_insertIntervention _).bind fun _ _ => ?_
    exact adds_enqueue (tellable_binding hrun hmethod hchallenge horder hmode hids) hstamp

theorem adds_bindTexts (l : List PyStr) :
    Adds (l.forM bindText : PolicyDb F T PUnit) fun _ => ∀ s ∈ l, (encode s).isSome = true := by
  induction l with
  | nil => exact adds_pure (by simp)
  | cons s l ih =>
    refine (adds_bindText s).bind fun _ hs => ih.weaken fun _ hl => ?_
    exact List.forall_mem_cons.mpr ⟨hs, hl⟩

theorem adds_bindSequenceIntervention (a : Binding) (now : T) {stamp : Stamp T}
    (hstamp : (encode stamp.uuid).isSome = true) :
    Adds (bindSequenceIntervention H a now stamp) fun _ => True := by
  refine adds_raiseIf.bind fun _ _ => (adds_bindText _).bind fun _ _ => ?_
  refine (adds_bindTexts _).bind fun _ hids => adds_get.bind fun db _ => ?_
  refine adds_raiseIf.bind fun _ _ => ?_
  cases asciiDumps (.list (a.strategyIds.map .str) : PyVal F) with
  | error cause => exact adds_throw
  | ok rendered =>
    refine (adds_bindIntervention rendered now hids hstamp).immediate.bind fun _ _ => ?_
    refine (adds_scoreRows _).bind fun scores _ => ?_
    exact adds_readOnly (readOnly_mapM (fun _ => readOnly_orRaise _ _) _)

/-- An operation of the store that is no acknowledgement, with ids that can be bound. -/
def Mutates : Operation F T → Prop
  | .call (.proposeStrategy _ _ _ stamp) | .call (.recordApplication _ _ _ stamp)
  | .call (.recordOutcome _ _ stamp) | .bindSequenceIntervention _ _ stamp =>
    (encode stamp.uuid).isSome = true
  | .call (.refreshStatuses _ _ _ stamp) => ∀ i, (encode (stamp i).uuid).isSome = true
  | .markDispatched .. => False

/-- A mutation keeps the database sound and adds rows to the outbox. -/
theorem mutation_adds (hH : HexDigest H) {o : Operation F T} (ho : Mutates o)
    {db : PolicyDatabase F T} (hdb : Sound db) : Sound (o.after H db) ∧ Grows db (o.after H db) := by
  have hadds : Adds (o.run H) fun _ => True := by
    cases o with
    | call c =>
      cases c with
      | proposeStrategy a uuid now stamp =>
        exact (adds_proposeStrategy hH a uuid now ho).bind fun _ _ => adds_pure trivial
      | recordApplication a uuid now stamp =>
        exact (adds_recordApplication hH a uuid now ho).bind fun _ _ => adds_pure trivial
      | recordOutcome a now stamp => exact adds_recordOutcome hH a now ho
      | refreshStatuses tenantId θ now stamp =>
        exact (adds_refreshStatuses hH tenantId θ now ho).bind fun _ _ => adds_pure trivial
    | bindSequenceIntervention a now stamp =>
      exact (adds_bindSequenceIntervention a now ho).bind fun _ _ => adds_pure trivial
    | markDispatched tenantId eventId now => exact ho.elim
  exact ⟨(hadds db hdb).1, (hadds db hdb).2.1⟩

end Mutations

end PolicyOutbox
