import VeriMat.DurablePayload

/-! # Envelopes written and read back

The line `to_json` writes for a built envelope reads back to that envelope with its payload
replaced by the dict the reader makes of it. Whether the reader accepts it is then a question
about the payload alone. -/
namespace EnvelopeRoundTrip

open PyText JsonText PyValue Events DurablePayload

variable {F : Type} [PyFloat F]

/-! ## Validation -/

theorem validate_eq_ok {H : Host} {e : EventEnvelope F} :
    e.validate H = .ok () ↔
      equalsInt e.schemaVersion 1 = true ∧ lessThanInt e.sequence 1 = some false ∧
        (∀ p ∈ e.requiredFields, isBlankField p.2 = false) ∧
        checkOccurredAt H e.occurredAt = .ok () ∧
        validateDurablePayload e.payload (py "payload") = .ok () ∧
        checkPreviousHash e.previousHash = .ok () ∧ checkEventHash H e = .ok () := by
  have hblank : (e.requiredFields.find? fun p => isBlankField p.2) = none ↔
      ∀ p ∈ e.requiredFields, isBlankField p.2 = false := by
    simp [List.find?_eq_none]
  rw [← hblank]
  unfold EventEnvelope.validate
  cases equalsInt e.schemaVersion 1 with
  | false => simp
  | true =>
    cases lessThanInt e.sequence 1 with
    | none => simp
    | some b =>
      cases b with
      | true => simp
      | false =>
        cases e.requiredFields.find? fun p => isBlankField p.2 with
        | some p => simp
        | none =>
          cases checkOccurredAt H e.occurredAt with
          | error x => simp [bind, Except.bind]
          | ok u =>
            cases validateDurablePayload e.payload (py "payload") with
            | error x => simp [bind, Except.bind]
            | ok u =>
              cases checkPreviousHash e.previousHash with
              | error x => simp [bind, Except.bind]
              | ok u => simp [bind, Except.bind]

theorem checkEventHash_eq_ok {H : Host} {e : EventEnvelope F} :
    checkEventHash H e = .ok () ↔
      ∃ h, e.eventHash = .str h ∧ isHash h = true ∧ e.calculatedHash H = .ok h := by
  constructor
  · intro hok
    unfold checkEventHash at hok
    split at hok
    · rename_i s hs
      split_ifs at hok with hh
      cases hc : e.calculatedHash H with
      | error x => simp [hc] at hok
      | ok h =>
        by_cases hhs : h = s
        · exact ⟨s, hs, hh, congrArg Except.ok hhs⟩
        · simp [hc, hhs] at hok
    · cases hok
  · rintro ⟨h, hs, hh, hc⟩
    simp [checkEventHash, hs, hh, hc]

theorem fromJson_eq_ok {H : Host} {line : PyStr} {e : EventEnvelope F} :
    EventEnvelope.fromJson H line = .ok e ↔
      readEnvelope line = some e ∧ e.validate H = .ok () := by
  unfold EventEnvelope.fromJson
  cases readEnvelope (F := F) line with
  | none => simp
  | some e' =>
    constructor
    · intro h
      cases hv : e'.validate H with
      | error x => simp [bind, Except.bind, hv] at h
      | ok u =>
        simp only [bind, Except.bind, hv, Except.ok.injEq] at h
        exact ⟨congrArg some h, h ▸ hv⟩
    · rintro ⟨he, hv⟩
      cases he
      simp [bind, Except.bind, hv]

theorem build_eq_ok {H : Host} {a : BuildArgs F} {e : EventEnvelope F} :
    EventEnvelope.build H a = .ok e ↔
      ∃ h, a.provisional.calculatedHash H = .ok h ∧ e = a.envelope h ∧ e.validate H = .ok () := by
  unfold EventEnvelope.build
  cases a.provisional.calculatedHash H with
  | error x => simp
  | ok h =>
    constructor
    · intro hok
      cases hv : (a.envelope h).validate H with
      | error x => simp [hv] at hok
      | ok u =>
        have he : a.envelope h = e := by simpa [hv] using hok
        exact ⟨h, rfl, he.symm, he ▸ hv⟩
    · rintro ⟨h', hc, rfl, hv⟩
      cases hc
      simp [hv]

/-! ## What is written -/

/-- The members of the hashed object, given the JSON of the payload. -/
def unsignedMembers (a : BuildArgs F) (payload : Json F) : List (PyStr × Json F) :=
  [(py "aggregate_id", .str a.aggregateId), (py "aggregate_type", .str a.aggregateType),
    (py "event_id", .str a.eventId), (py "event_type", .str a.eventType),
    (py "idempotency_key", .str a.idempotencyKey), (py "job_id", .str a.jobId),
    (py "occurred_at", .str (orElse a.occurredAt a.now)), (py "payload", payload),
    (py "previous_hash", .str a.previousHash), (py "schema_version", .int 1),
    (py "sequence", .int a.sequence), (py "tenant_id", .str a.tenantId)]

/-- The members of a written line. -/
def lineMembers (a : BuildArgs F) (hash : PyStr) (payload : Json F) : List (PyStr × Json F) :=
  [(py "aggregate_id", .str a.aggregateId), (py "aggregate_type", .str a.aggregateType),
    (py "event_hash", .str hash), (py "event_id", .str a.eventId),
    (py "event_type", .str a.eventType), (py "idempotency_key", .str a.idempotencyKey),
    (py "job_id", .str a.jobId), (py "occurred_at", .str (orElse a.occurredAt a.now)),
    (py "payload", payload), (py "previous_hash", .str a.previousHash),
    (py "schema_version", .int 1), (py "sequence", .int a.sequence),
    (py "tenant_id", .str a.tenantId)]

/-- A dict with string keys is written as its members once they are sorted. -/
theorem lower_strDict {kvs : List (PyKey F × PyVal F)} {s : List (PyStr × PyVal F)}
    {members : List (PyStr × Json F)}
    (hs : sortItems kvs = .ok (s.map fun p => (.str p.1, p.2)))
    (hm : List.Forall₂ (fun p m => m.1 = p.1 ∧ lower p.2 = .ok m.2) s members) :
    lower (.dict kvs) = .ok (.obj members) := by
  have hitems : (s.map fun p => ((PyKey.str p.1 : PyKey F), p.2)).map
      (fun p => (p.1, lower p.2)) = members.map fun m => (PyKey.str m.1, .ok m.2) := by
    clear hs
    induction hm with
    | nil => rfl
    | cons hp _ ih =>
      rw [List.map_cons, List.map_cons, List.map_cons, ih, hp.1, hp.2]
  rw [lower, lowerItems_eq, sortItems_map, hs]
  simp only [Except.map]
  rw [hitems, lowerMembers_str]

/-- The other way round: a written dict gives back its members one by one. -/
theorem lower_strDict_inv {kvs : List (PyKey F × PyVal F)} {s : List (PyStr × PyVal F)}
    {j : Json F} (hs : sortItems kvs = .ok (s.map fun p => (.str p.1, p.2)))
    (h : lower (.dict kvs) = .ok j) :
    ∃ members, j = .obj members ∧
      List.Forall₂ (fun p m => m.1 = p.1 ∧ lower p.2 = .ok m.2) s members := by
  obtain ⟨sorted, members, hsorted, rfl, hm⟩ := lower_dict_inv h
  rw [hs] at hsorted
  cases hsorted
  exact ⟨members, rfl,
    (List.forall₂_map_left_iff.mp hm).imp fun _ _ hpm => ⟨hpm.2.2, hpm.2.1⟩⟩

/-- The fields the hash covers, in the order they are written. -/
def sortedUnsigned (e : EventEnvelope F) : List (PyStr × PyVal F) :=
  [(py "aggregate_id", e.aggregateId), (py "aggregate_type", e.aggregateType),
    (py "event_id", e.eventId), (py "event_type", e.eventType),
    (py "idempotency_key", e.idempotencyKey), (py "job_id", e.jobId),
    (py "occurred_at", e.occurredAt), (py "payload", e.payload),
    (py "previous_hash", e.previousHash), (py "schema_version", e.schemaVersion),
    (py "sequence", e.sequence), (py "tenant_id", e.tenantId)]

/-- All fields, in the order they are written. -/
def sortedFields (e : EventEnvelope F) : List (PyStr × PyVal F) :=
  [(py "aggregate_id", e.aggregateId), (py "aggregate_type", e.aggregateType),
    (py "event_hash", e.eventHash), (py "event_id", e.eventId), (py "event_type", e.eventType),
    (py "idempotency_key", e.idempotencyKey), (py "job_id", e.jobId),
    (py "occurred_at", e.occurredAt), (py "payload", e.payload),
    (py "previous_hash", e.previousHash), (py "schema_version", e.schemaVersion),
    (py "sequence", e.sequence), (py "tenant_id", e.tenantId)]

theorem lower_unsignedDict (a : BuildArgs F) {payload : Json F}
    (h : lower a.payload = .ok payload) :
    lower a.provisional.unsignedDict = .ok (.obj (unsignedMembers a payload)) := by
  apply lower_strDict (s := sortedUnsigned a.provisional)
  · rfl
  · simp [sortedUnsigned, BuildArgs.provisional, unsignedMembers, lower, h]

theorem lower_asdict (a : BuildArgs F) (hash : PyStr) {payload : Json F}
    (h : lower a.payload = .ok payload) :
    lower (a.envelope hash).asdict = .ok (.obj (lineMembers a hash payload)) := by
  apply lower_strDict (s := sortedFields (a.envelope hash))
  · rfl
  · simp [sortedFields, BuildArgs.envelope, BuildArgs.provisional, lineMembers, lower, h]

/-- An envelope that passes its checks has a payload json.dumps can write. -/
theorem payload_lower {H : Host} {e : EventEnvelope F} (h : e.validate H = .ok ()) :
    ∃ payload, lower e.payload = .ok payload :=
  (validateDurablePayload_eq_ok.mp (validate_eq_ok.mp h).2.2.2.2.1).2.2

theorem toJson_envelope {H : Host} {a : BuildArgs F} {hash : PyStr} {payload : Json F}
    (hp : lower a.payload = .ok payload) (hv : (a.envelope hash).validate H = .ok ()) :
    (a.envelope hash).toJson H = .ok (render (.obj (lineMembers a hash payload))) := by
  have htext : canonicalJson (a.envelope hash).asdict =
      .ok (render (.obj (lineMembers a hash payload))) := by
    rw [canonicalJson, dumps, lower_asdict a hash hp]
    rfl
  simp [EventEnvelope.toJson, bind, Except.bind, hv, htext]

/-! ## What is read -/

/-- The envelope with its payload replaced by what the reader makes of the payload's JSON. -/
def reread (a : BuildArgs F) (hash : PyStr) (payload : Json F) : EventEnvelope F :=
  { a.envelope hash with payload := ofJson payload.dedup }

theorem finite_lineMembers {a : BuildArgs F} {hash : PyStr} {payload : Json F}
    (h : payload.Finite) : (Json.obj (lineMembers a hash payload)).Finite := by
  rw [Json.Finite, finiteMembers_iff]
  simp [lineMembers, Json.Finite, h]

omit [PyFloat F] in
theorem lineMembers_names (a : BuildArgs F) (hash : PyStr) (payload : Json F) :
    (lineMembers a hash payload).map Prod.fst =
      [py "aggregate_id", py "aggregate_type", py "event_hash", py "event_id", py "event_type",
        py "idempotency_key", py "job_id", py "occurred_at", py "payload", py "previous_hash",
        py "schema_version", py "sequence", py "tenant_id"] := rfl

omit [PyFloat F] in
theorem dedup_lineMembers (a : BuildArgs F) (hash : PyStr) (payload : Json F) :
    (Json.obj (lineMembers a hash payload)).dedup =
      .obj (lineMembers a hash payload.dedup) := by
  have hn : ((dedupMembers (lineMembers a hash payload)).map Prod.fst).Nodup := by
    rw [dedupMembers_names, lineMembers_names]
    decide
  rw [Json.dedup, ofPairs_of_nodup hn, dedupMembers_eq]
  simp [lineMembers, Json.dedup]

omit [PyFloat F] in
theorem ofMapping_lineMembers (a : BuildArgs F) (hash : PyStr) (payload : Json F) :
    ofMapping (lineMembers a hash payload.dedup) = some (reread a hash payload) := rfl

/-- A written line, whatever white space stands around it, reads back. -/
theorem readEnvelope_padded {a : BuildArgs F} {hash : PyStr} {payload : Json F}
    (h : payload.Finite) {w t : PyStr} (hw : ∀ c ∈ w, isWs c = true)
    (ht : ∀ c ∈ t, isWs c = true) :
    readEnvelope (w ++ (render (.obj (lineMembers a hash payload)) ++ t)) =
      some (reread a hash payload) := by
  rw [readEnvelope, loads, parse_padded (finite_lineMembers h) hw ht, Option.map_some,
    dedup_lineMembers]
  exact ofMapping_lineMembers a hash payload

theorem readEnvelope_line (a : BuildArgs F) (hash : PyStr) {payload : Json F}
    (h : payload.Finite) {t : PyStr} (ht : ∀ c ∈ t, isWs c = true) :
    readEnvelope (render (.obj (lineMembers a hash payload)) ++ t) =
      some (reread a hash payload) :=
  readEnvelope_padded h (w := []) (by simp) ht

/-- The hash depends on the payload's JSON only. -/
theorem calculatedHash_congr {H : Host} {e : EventEnvelope F} {v w : PyVal F}
    (h : lower v = lower w) :
    ({ e with payload := v } : EventEnvelope F).calculatedHash H =
      ({ e with payload := w } : EventEnvelope F).calculatedHash H := by
  have hd : dumps ({ e with payload := v } : EventEnvelope F).unsignedDict =
      dumps ({ e with payload := w } : EventEnvelope F).unsignedDict := by
    simp only [dumps, EventEnvelope.unsignedDict, lower, lowerItems, h]
  simp only [EventEnvelope.calculatedHash, contentHash, canonicalJson, hd]

/-- The re-read envelope passes when its payload does and keeps its JSON. -/
theorem validate_reread {H : Host} {a : BuildArgs F} {hash : PyStr} {payload : Json F}
    (hv : (a.envelope hash).validate H = .ok ()) (hp : lower a.payload = .ok payload)
    (hsorted : NamesSorted payload)
    (hok : validateDurablePayload (ofJson payload.dedup) (py "payload") = .ok ()) :
    (reread a hash payload).validate H = .ok () := by
  have hlower : lower (ofJson payload.dedup) = lower a.payload := by
    rw [dedup_of_sorted payload hsorted, lower_ofJson payload (lower_finite _ _ hp),
      sortNames_of_sorted payload hsorted, hp]
  obtain ⟨hschema, hseq, hblank, htime, _, hprev, hhash⟩ := validate_eq_ok.mp hv
  refine validate_eq_ok.mpr ⟨hschema, hseq, hblank, htime, hok, hprev, ?_⟩
  obtain ⟨h, hs, hh, hc⟩ := checkEventHash_eq_ok.mp hhash
  exact checkEventHash_eq_ok.mpr ⟨h, hs, hh, (calculatedHash_congr hlower).trans hc⟩

/-! ## Durable payloads -/

/-- What the reader of a durable payload is promised: its canonical JSON parses, names no
secret, and reads back to a payload that is accepted and has the same canonical JSON, hence
the same hash in every envelope; and every envelope built around it can be read back. -/
structure RoundTrips (v : PyVal F) (field : PyStr) : Prop where
  payload : ∃ text, ∃ raw j : Json F, canonicalJson v = .ok text ∧ parse text = some raw ∧
    (∀ n ∈ names raw, isSensitiveKey n = false) ∧ loads text = some j ∧
    validateDurablePayload (ofJson j) field = .ok () ∧ canonicalJson (ofJson j) = .ok text ∧
    ∀ (H : Host) (e : EventEnvelope F),
      ({ e with payload := ofJson j } : EventEnvelope F).calculatedHash H =
        ({ e with payload := v } : EventEnvelope F).calculatedHash H
  envelope : ∀ (H : Host) (a : BuildArgs F) (e : EventEnvelope F), a.payload = v →
    EventEnvelope.build H a = .ok e →
      ∃ text, ∃ e' : EventEnvelope F, e.toJson H = .ok text ∧ EventEnvelope.fromJson H text = .ok e'

/-- An accepted dict, the object it is written as, and the names in it. -/
theorem accepted_obj {v : PyVal F} {field : PyStr}
    (h : validateDurablePayload v field = .ok ()) :
    ∃ members, lower v = .ok (.obj members) ∧
      ((∀ n ∈ names (.obj members), isSensitiveKey n = false) ↔
        ∀ k ∈ hiddenKeys v, isSensitiveKey k.jsonText = false) := by
  obtain ⟨⟨kvs, rfl⟩, hs, j, hj⟩ := validateDurablePayload_eq_ok.mp h
  obtain ⟨_, members, _, rfl, _⟩ := lower_dict_inv hj
  have hcover := sensitivePaths_iff (.dict kvs) field
  simp only [hs, true_and, Sensitive, Bool.not_eq_true] at hcover
  refine ⟨members, hj, ?_⟩
  rw [hcover]
  simp only [mem_names_lower _ _ hj, forall_exists_index, and_imp, forall_apply_eq_imp_iff₂]

/-- A payload that keeps its canonical JSON has its keys in the order of their texts. -/
theorem RoundTrips.keyOrderAgrees {v : PyVal F} {field : PyStr} (hr : RoundTrips v field) :
    KeyOrderAgrees v := by
  obtain ⟨text, raw, j, ht, hraw, _, hl, _, hc, _⟩ := hr.payload
  cases hv : lower v with
  | error e => simp [canonicalJson, dumps, hv, Except.map] at ht
  | ok k =>
    have hfin := lower_finite _ _ hv
    have htext : render k = text := by simpa [canonicalJson, dumps, hv, Except.map] using ht
    subst htext
    have hj : j = k.dedup := by simpa [loads, parse_render_self hfin] using hl.symm
    subst hj
    rw [canonicalJson, dumps_ofJson (finite_dedup _ hfin), Except.ok.injEq] at hc
    rw [← namesSorted_lower_iff v _ hv, ← sortNames_dedup_eq_self_iff]
    exact render_injective (finite_sortNames _ (finite_dedup _ hfin)) hfin hc

/-- An accepted payload keeps the promise exactly when, in each of its dicts, Python sorts
the keys as it sorts their texts, and no sensitive key is inside a tuple. -/
theorem roundTrips_iff (v : PyVal F) (field : PyStr)
    (h : validateDurablePayload v field = .ok ()) :
    RoundTrips v field ↔
      KeyOrderAgrees v ∧ ∀ k ∈ hiddenKeys v, isSensitiveKey k.jsonText = false := by
  obtain ⟨members, hj, hnames⟩ := accepted_obj h
  have hfin := lower_finite _ _ hj
  have htext : canonicalJson v = .ok (render (.obj members)) := by
    rw [canonicalJson, dumps, hj]
    rfl
  have hparse : parse (render (.obj members)) = some (.obj members) := parse_render_self hfin
  constructor
  · intro hr
    refine ⟨hr.keyOrderAgrees, hnames.mp ?_⟩
    obtain ⟨text, raw, j, ht, hraw, hn, _⟩ := hr.payload
    rw [htext] at ht
    cases ht
    rw [hparse] at hraw
    cases hraw
    exact hn
  · rintro ⟨hagree, hhidden⟩
    have hns := (namesSorted_lower_iff v _ hj).mpr hagree
    have hded := dedup_of_sorted _ hns
    have hloads : loads (render (.obj members)) = some (.obj members) := by
      rw [loads, hparse, Option.map_some, hded]
    have haccept : ∀ field, validateDurablePayload (ofJson (.obj members)) field = .ok () :=
      fun field => (validateDurablePayload_ofJson hfin).mpr (hnames.mpr hhidden)
    have hlower : lower (ofJson (.obj members)) = lower v := by
      rw [lower_ofJson _ hfin, sortNames_of_sorted _ hns, hj]
    refine ⟨⟨_, _, _, htext, hparse, hnames.mpr hhidden, hloads, haccept field, ?_,
      fun H e => calculatedHash_congr hlower⟩, ?_⟩
    · rw [canonicalJson, dumps, hlower]
      exact htext
    · rintro H a e rfl hb
      obtain ⟨hash, _, rfl, hv⟩ := build_eq_ok.mp hb
      have hread : readEnvelope (render (.obj (lineMembers a hash (.obj members)))) =
          some (reread a hash (.obj members)) := by
        simpa using readEnvelope_line a hash hfin (t := []) (by simp)
      refine ⟨_, reread a hash (.obj members), toJson_envelope hj hv,
        fromJson_eq_ok.mpr ⟨hread, ?_⟩⟩
      exact validate_reread hv hj hns (hded.symm ▸ haccept _)

theorem roundTrips_iff_tuple :
    RoundTrips (.dict [(.str (py "b"), .tuple [.int 1]), (.str (py "a"), .bool true)] :
        PyVal NonFinite) (py "payload") ↔
      KeyOrderAgrees (.dict [(.str (py "b"), .tuple [.int 1]), (.str (py "a"), .bool true)] :
          PyVal NonFinite) ∧
        ∀ k ∈ hiddenKeys (.dict [(.str (py "b"), .tuple [.int 1]),
          (.str (py "a"), .bool true)] : PyVal NonFinite), isSensitiveKey k.jsonText = false :=
  roundTrips_iff _ _ rfl

/-- Keys 9 and 10 are written in numeric order and read back in text order. -/
theorem not_roundTrips_numericKeys :
    ¬∀ (v : PyVal NonFinite) (field : PyStr),
      validateDurablePayload v field = .ok () → RoundTrips v field := by
  intro hall
  have hr := (hall (.dict [(.int 9, .none), (.int 10, .none)]) (py "payload") rfl).keyOrderAgrees
  exact absurd hr.1 (by decide)

end EnvelopeRoundTrip
