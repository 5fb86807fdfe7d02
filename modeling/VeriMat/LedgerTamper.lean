import VeriMat.LedgerChain

/-! # Tamper evidence

The head hash of a verified ledger pins its events: the hash of an event covers every other
field through its canonical JSON, the previous hash included, so two verified files with one
head hash agree event by event, however their lines are spaced and formatted. -/
namespace LedgerTamper

open PyText JsonText PyValue Events Ledger DurablePayload EnvelopeRoundTrip LedgerChain

variable {F : Type} [PyFloat F]

/-! ## Fields that were read -/

theorem finite_of_lower (j : Json F) : ∀ x, lower (ofJson j) = .ok x → j.Finite := by
  induction j using Json.nested with
  | null => exact fun _ _ => trivial
  | bool b => exact fun _ _ => trivial
  | int n => exact fun _ _ => trivial
  | float y =>
    intro x h
    rw [ofJson, lower] at h
    split_ifs at h with hy
    exact hy
  | str s => exact fun _ _ => trivial
  | arr xs ih =>
    intro x h
    rw [ofJson, lower] at h
    obtain ⟨js, _, hjs⟩ := lower_list_inv h
    rw [Json.Finite, finiteElems_iff]
    intro y hy
    rw [ofElems_eq] at hjs
    obtain ⟨z, _, hz⟩ := exists_right hjs (List.mem_map_of_mem hy)
    exact ih y hy z hz
  | obj kvs ih =>
    intro x h
    rw [ofJson] at h
    obtain ⟨sorted, members, hs, _, hm⟩ := lower_dict_inv h
    rw [Json.Finite, finiteMembers_iff]
    intro p hp
    have hmem : (PyKey.str p.1, ofJson p.2) ∈ sorted := by
      rw [(sortItems_perm hs).mem_iff, ofMembers_eq]
      exact List.mem_map_of_mem (f := fun p : PyStr × Json F => (PyKey.str p.1, ofJson p.2)) hp
    obtain ⟨z, _, _, hz, _⟩ := exists_right hm hmem
    exact ih p hp _ hz

/-- The two values are written as the same JSON. -/
def SameJson (v w : PyVal F) : Prop := ∃ x, lower v = .ok x ∧ lower w = .ok x

/-- A value some JSON text reads to. -/
def FromJson (v : PyVal F) : Prop := ∃ j, v = ofJson j ∧ j.dedup = j

theorem SameJson.pyEq {v w : PyVal F} (h : SameJson v w) (hv : FromJson v) (hw : FromJson w) :
    pyEq v w = true := by
  obtain ⟨x, hx, hx'⟩ := h
  obtain ⟨j, rfl, hj⟩ := hv
  obtain ⟨k, rfl, hk⟩ := hw
  have hfj := finite_of_lower j x hx
  have hfk := finite_of_lower k x hx'
  rw [lower_ofJson j hfj, Except.ok.injEq] at hx
  rw [lower_ofJson k hfk, Except.ok.injEq] at hx'
  exact pyEq_ofJson j k hfj hj hk (hx.trans hx'.symm)

omit [PyFloat F] in
theorem mem_of_lookup {kvs : List (PyStr × Json F)} {name : PyStr} {j : Json F}
    (h : kvs.lookup name = some j) : ∃ p ∈ kvs, p.2 = j := by
  induction kvs with
  | nil => simp at h
  | cons p kvs ih =>
    rw [List.lookup_cons] at h
    split at h
    · exact ⟨p, by simp, Option.some.inj h⟩
    · obtain ⟨q, hq, hqj⟩ := ih h
      exact ⟨q, List.mem_cons_of_mem _ hq, hqj⟩

theorem mem_of_mapM {α β : Type} {f : α → Option β} {xs : List α} {ys : List β}
    (h : xs.mapM f = some ys) : ∀ y ∈ ys, ∃ x ∈ xs, f x = some y := by
  induction xs generalizing ys with
  | nil =>
    cases h
    simp
  | cons x xs ih =>
    simp only [List.mapM_cons, bind, pure, Option.bind_eq_some_iff, Option.some.injEq] at h
    obtain ⟨y, hy, ys, hys, rfl⟩ := h
    refine List.forall_mem_cons.mpr ⟨⟨x, by simp, hy⟩, fun z hz => ?_⟩
    obtain ⟨w, hw, hwz⟩ := ih hys z hz
    exact ⟨w, List.mem_cons_of_mem _ hw, hwz⟩

omit [PyFloat F] in
theorem ofFields_fields {vs : List (PyVal F)} {e : EventEnvelope F} (h : ofFields vs = some e) :
    e.fields = vs := by
  unfold ofFields at h
  split at h
  · cases h
    rfl
  · cases h

omit [PyFloat F] in
theorem ofMapping_fields {kvs : List (PyStr × Json F)} {e : EventEnvelope F}
    (h : ofMapping kvs = some e) : ∀ v ∈ e.fields, ∃ p ∈ kvs, v = ofJson p.2 := by
  unfold ofMapping at h
  split_ifs at h
  split at h
  · rename_i vs hvs
    rw [ofFields_fields h]
    intro v hv
    obtain ⟨name, _, hname⟩ := mem_of_mapM hvs v hv
    obtain ⟨j, hj, rfl⟩ := Option.map_eq_some_iff.mp hname
    obtain ⟨p, hp, rfl⟩ := mem_of_lookup hj
    exact ⟨p, hp, rfl⟩
  · cases h

/-- Every field of an envelope that was read is a value read from JSON. -/
theorem readEnvelope_fields {line : PyStr} {e : EventEnvelope F}
    (h : readEnvelope line = some e) : ∀ v ∈ e.fields, FromJson v := by
  unfold readEnvelope at h
  split at h
  · rename_i kvs hl
    obtain ⟨raw, _, hraw⟩ := Option.map_eq_some_iff.mp hl
    have hd : (Json.obj kvs).dedup = .obj kvs := by rw [← hraw, dedup_dedup]
    intro v hv
    obtain ⟨p, hp, rfl⟩ := ofMapping_fields h v hv
    exact ⟨p.2, rfl, (obj_dedup_eq_self hd).2 p hp⟩
  · cases h

/-! ## The hash covers every field -/

/-- The bytes an event's hash is taken of. -/
def hashedBytes (e : EventEnvelope F) : Option PyBytes :=
  match canonicalJson e.unsignedDict with
  | .error _ => none
  | .ok text => encode text

theorem calculatedHash_eq_ok {H : Host} {e : EventEnvelope F} {h : PyStr}
    (hc : e.calculatedHash H = .ok h) : ∃ b, hashedBytes e = some b ∧ H.sha256 b = h := by
  unfold EventEnvelope.calculatedHash contentHash at hc
  unfold hashedBytes
  cases ht : canonicalJson e.unsignedDict with
  | error x => simp [ht] at hc
  | ok text =>
    cases hb : encode text with
    | none => simp [ht, hb] at hc
    | some b =>
      simp only [ht, hb, Except.ok.injEq] at hc
      exact ⟨b, hb, hc⟩

/-- Equal hashed bytes come from the same JSON in every hashed field. -/
theorem sameJson_of_hashedBytes {e e' : EventEnvelope F} {b : PyBytes}
    (h : hashedBytes e = some b) (h' : hashedBytes e' = some b) :
    List.Forall₂ (fun p q => SameJson p.2 q.2) (sortedUnsigned e) (sortedUnsigned e') := by
  have hlower : ∀ e : EventEnvelope F, hashedBytes e = some b →
      ∃ members : List (PyStr × Json F), encode (render (.obj members)) = some b ∧
        (Json.obj members).Finite ∧
        List.Forall₂ (fun p m => m.1 = p.1 ∧ lower p.2 = .ok m.2) (sortedUnsigned e) members := by
    intro e he
    unfold hashedBytes canonicalJson dumps at he
    cases hj : lower e.unsignedDict with
    | error x => simp [hj, Except.map] at he
    | ok j =>
      have hs : sortItems (F := F) [(.str (py "schema_version"), e.schemaVersion),
          (.str (py "sequence"), e.sequence), (.str (py "event_id"), e.eventId),
          (.str (py "occurred_at"), e.occurredAt), (.str (py "tenant_id"), e.tenantId),
          (.str (py "job_id"), e.jobId), (.str (py "aggregate_type"), e.aggregateType),
          (.str (py "aggregate_id"), e.aggregateId), (.str (py "event_type"), e.eventType),
          (.str (py "payload"), e.payload), (.str (py "idempotency_key"), e.idempotencyKey),
          (.str (py "previous_hash"), e.previousHash)] =
          .ok ((sortedUnsigned e).map fun p => (.str p.1, p.2)) := rfl
      obtain ⟨members, rfl, hm⟩ := lower_strDict_inv hs hj
      simp only [hj, Except.map] at he
      exact ⟨members, he, lower_finite _ _ hj, hm⟩
  obtain ⟨members, he, hf, hm⟩ := hlower e h
  obtain ⟨members', he', hf', hm'⟩ := hlower e' h'
  have htext : render (.obj members) = render (.obj members') :=
    Option.some.inj ((decode_encode he).symm.trans (decode_encode he'))
  have hmembers : members = members' := by simpa using render_injective hf hf' htext
  subst hmembers
  clear he he' hf hf' htext h h' hlower
  generalize sortedUnsigned e = s at hm
  generalize sortedUnsigned e' = s' at hm'
  induction hm generalizing s' with
  | nil =>
    cases hm'
    exact .nil
  | cons hp _ ih =>
    cases hm' with
    | cons hp' hm' => exact .cons ⟨_, hp.2, hp'.2⟩ (ih _ hm')

/-- The two envelopes are equal in Python and are written as the same line. -/
structure SameEvent (e e' : EventEnvelope F) : Prop where
  eq : e.eq e' = true
  line : canonicalJson e.asdict = canonicalJson e'.asdict

theorem sameEvent_of_hashedBytes {H : Host} {line line' : PyStr} {e e' : EventEnvelope F}
    {b : PyBytes} (hr : EventEnvelope.fromJson H line = .ok e)
    (hr' : EventEnvelope.fromJson H line' = .ok e') (h : hashedBytes e = some b)
    (h' : hashedBytes e' = some b) (hhash : e.eventHash = e'.eventHash) : SameEvent e e' := by
  have hread := readEnvelope_fields (fromJson_eq_ok.mp hr).1
  have hread' := readEnvelope_fields (fromJson_eq_ok.mp hr').1
  have hsame := sameJson_of_hashedBytes h h'
  have hval : SameJson e.eventHash e'.eventHash := by
    obtain ⟨hs, _, _⟩ := hashOf_valid (fromJson_eq_ok.mp hr).2
    rw [← hhash, hs]
    exact ⟨.str (hashOf e), rfl, rfl⟩
  have hfields : List.Forall₂ SameJson e.fields e'.fields := by
    simp only [sortedUnsigned, List.forall₂_cons] at hsame
    obtain ⟨haid, hatype, hid, htype, hkey, hjob, htime, hpay, hprev, hschema, hseq, htenant, _⟩ :=
      hsame
    simp only [EventEnvelope.fields, List.forall₂_cons]
    exact ⟨hschema, hseq, hid, htime, htenant, hjob, hatype, haid, htype, hpay, hkey, hprev, hval,
      .nil⟩
  constructor
  · refine pyEqElems_of_forall₂ ?_
    have hall := List.forall₂_iff_zip.mp hfields
    refine List.forall₂_iff_zip.mpr ⟨hall.1, fun {v w} hvw => ?_⟩
    have hmem := List.of_mem_zip hvw
    exact (hall.2 hvw).pyEq (hread v hmem.1) (hread' w hmem.2)
  · have hl : List.Forall₂ (fun v w => lower v = lower w) e.fields e'.fields :=
      hfields.imp (by rintro v w ⟨x, hx, hx'⟩; exact hx.trans hx'.symm)
    simp only [EventEnvelope.fields, List.forall₂_cons, List.forall₂_nil_left_iff, and_true] at hl
    simp only [canonicalJson, dumps, EventEnvelope.asdict, lower, lowerItems, hl]

/-! ## Two verified files -/

/-- SHA-256 has no collision on the canonical JSON of the events of two ledgers. -/
def CollisionFree (H : Host) (es es' : List (EventEnvelope F)) : Prop :=
  Set.InjOn H.sha256 {b | ∃ e ∈ es ++ es', hashedBytes e = some b}

theorem sameEvents_of_headHash {H : Host} {es es' : List (EventEnvelope F)}
    (h : Recorded H es) (h' : Recorded H es') (hinj : CollisionFree H es es')
    (hhead : headHash es = headHash es') : List.Forall₂ SameEvent es es' := by
  rw [headHash_eq, headHash_eq] at hhead
  refine h.linked.forall₂_of_head_eq h'.linked ?_ ?_ hhead
  · intro e he e' he' hd
    obtain ⟨⟨line, hl⟩, _⟩ := h.of_mem he
    obtain ⟨⟨line', hl'⟩, _⟩ := h'.of_mem he'
    obtain ⟨hs, _, hc⟩ := hashOf_valid (fromJson_eq_ok.mp hl).2
    obtain ⟨hs', _, hc'⟩ := hashOf_valid (fromJson_eq_ok.mp hl').2
    obtain ⟨b, hb, hsha⟩ := calculatedHash_eq_ok hc
    obtain ⟨b', hb', hsha'⟩ := calculatedHash_eq_ok hc'
    have hbb : b = b' := hinj ⟨e, by simp [he], hb⟩ ⟨e', by simp [he'], hb'⟩
      (hsha.trans (hd.trans hsha'.symm))
    subst hbb
    exact sameEvent_of_hashedBytes hl hl' hb hb' (by rw [hs, hs', hd])
  · intro e he e' he' hsame
    obtain ⟨_, pre, ha⟩ := h.of_mem he
    obtain ⟨_, pre', ha'⟩ := h'.of_mem he'
    have hp := isStr_eq_true.mp ha.previousHash
    have hp' := isStr_eq_true.mp ha'.previousHash
    have heq := hsame.eq
    simp only [EventEnvelope.eq, EventEnvelope.fields, pyEqElems, hp, hp', pyEq,
      Bool.and_eq_true, beq_iff_eq] at heq
    rw [prevOf, prevOf, hp, hp']
    exact heq.2.2.2.2.2.2.2.2.2.2.2.1

/-- Two files that verify with the same head hash hold the same events, in number and
position by position. -/
theorem same_events_of_same_head {H : Host} {file file' : PyBytes}
    {r r' : VerificationReport F} (hv : verify H file = .ok r) (hok : r.ok = true)
    (hv' : verify H file' = .ok r') (hok' : r'.ok = true) (hne : r.headHash ≠ [])
    (hhead : r.headHash = r'.headHash)
    (hinj : ∀ es es' : List (EventEnvelope F), events H file = .ok es →
      events H file' = .ok es' → CollisionFree H es es') :
    ∃ es es' : List (EventEnvelope F), events H file = .ok es ∧ events H file' = .ok es' ∧
      es ≠ [] ∧ es.length = es'.length ∧ List.Forall₂ SameEvent es es' := by
  obtain ⟨es, hes, rfl⟩ := verify_ok_iff.mp ⟨hv, hok⟩
  obtain ⟨es', hes', rfl⟩ := verify_ok_iff.mp ⟨hv', hok'⟩
  have hsame := sameEvents_of_headHash (loadLocked_recorded hes) (loadLocked_recorded hes')
    (hinj es es' hes hes') hhead
  refine ⟨es, es', hes, hes', ?_, hsame.length_eq, hsame⟩
  rintro rfl
  exact hne rfl

/-- Every event of the file was hashed over these bytes. -/
def hashesOnly (b : PyBytes) (r : Except (LedgerError F) (List (EventEnvelope F))) : Bool :=
  match r with
  | .ok es => es.all fun e => hashedBytes e == some b
  | .error _ => false

theorem collisionFree_of_hashesOnly {H : Host} {b : PyBytes} {es es' : List (EventEnvelope F)}
    (h : hashesOnly b (.ok es) = true) (h' : hashesOnly b (.ok es') = true) :
    CollisionFree H es es' := by
  have hall : ∀ e ∈ es ++ es', hashedBytes e = some b := by
    intro e he
    rcases List.mem_append.mp he with he | he
    · simpa using List.all_eq_true.mp h e he
    · simpa using List.all_eq_true.mp h' e he
  rintro c ⟨e, he, hc⟩ d ⟨e', he', hd⟩ _
  rw [hall e he] at hc
  rw [hall e' he'] at hd
  exact Option.some.inj (hc.symm.trans hd)

/-- A line on its own and the same line behind a blank one, without its line feed. -/
theorem same_events_of_same_head_blankLine :
    ∃ es es' : List (EventEnvelope NonFinite),
      events sampleHost (sampleLine ++ [10]) = .ok es ∧
        events sampleHost ([32, 10] ++ sampleLine) = .ok es' ∧ es ≠ [] ∧
        es.length = es'.length ∧ List.Forall₂ SameEvent es es' := by
  have hv : verifiesTo (F := NonFinite) sampleHost (sampleLine ++ [10]) sampleHash = true := by
    decide +kernel
  have hv' : verifiesTo (F := NonFinite) sampleHost ([32, 10] ++ sampleLine) sampleHash = true := by
    decide +kernel
  have hb : hashesOnly (F := NonFinite) (render (.obj (unsignedMembers sampleArgs (.obj []))))
      (events sampleHost (sampleLine ++ [10])) = true := by
    decide +kernel
  have hb' : hashesOnly (F := NonFinite) (render (.obj (unsignedMembers sampleArgs (.obj []))))
      (events sampleHost ([32, 10] ++ sampleLine)) = true := by
    decide +kernel
  obtain ⟨r, hr, hok, hh⟩ := verifiesTo_iff.mp hv
  obtain ⟨r', hr', hok', hh'⟩ := verifiesTo_iff.mp hv'
  refine same_events_of_same_head hr hok hr' hok' ?_ (hh.trans hh'.symm) fun es es' he he' => ?_
  · rw [hh]
    decide
  · exact collisionFree_of_hashesOnly (he ▸ hb) (he' ▸ hb')

end LedgerTamper
