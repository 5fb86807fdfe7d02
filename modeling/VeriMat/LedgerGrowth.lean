import VeriMat.JsonWritable
import VeriMat.LedgerConcurrent

/-! # What an append leaves to be read

An append that was let through has put one line behind the file, or as much of it as was
written before the process died. Whatever can be read of the file then is what could be read
before, and at most the one new event behind it. -/
namespace LedgerGrowth

open PyText JsonText PyValue Events Ledger DurablePayload EnvelopeRoundTrip LedgerChain
open LedgerTamper LedgerLines LedgerAppend LedgerConcurrent JsonWritable

variable {F : Type} [PyFloat F] {H : Host}

/-! ## A line that was cut off -/

/-- Where an object is read behind the last line end, only white space stands between. -/
theorem blank_before_object {es₁ es : List (EventEnvelope F)} {s b : PyStr} {v : Json F}
    (hs : 10 ∉ s) (hreads : Reads H es₁ (lines s) es) (h : ObjectText (s ++ 123 :: b) v) :
    (∀ c ∈ s, isWs c = true) ∧ ObjectText (123 :: b) v ∧ es = es₁ := by
  by_cases hblank : isBlank s = true
  · obtain ⟨hws, hrest⟩ := h.of_append (List.all_eq_true.mp hblank)
    exact ⟨hws, hrest, (reads_blank_text hblank).mp hreads⟩
  · have hne : s ≠ [] := by
      rintro rfl
      exact hblank rfl
    rw [lines_unterminated hs hne, reads_singleton (by simpa using hblank)] at hreads
    obtain ⟨e, he, _, _⟩ := hreads
    obtain ⟨w, hw, _⟩ := fromJson_objectText he
    have hnil := (hw.append h).2
    rw [skipWs_cons (by rfl)] at hnil
    cases hnil

theorem reads_cut {s q : PyStr} {es es₂ : List (EventEnvelope F)} {a : BuildArgs F} {hash : PyStr}
    {payload : Json F} (hp : payload.Finite)
    (hq : q <+: render (.obj (lineMembers a hash payload)) ++ [10])
    (h : Reads H [] (lines s) es) (h₂ : Reads H [] (lines (s ++ q)) es₂) :
    es₂ = es ∨ es₂ = es ++ [reread a hash payload] ∧ ∀ c ∈ tailOf s, isWs c = true := by
  have hfin : (Json.obj (lineMembers a hash payload)).Finite := finite_lineMembers hp
  rcases List.prefix_concat_iff.mp hq with rfl | hq
  · obtain ⟨hws, _, _, hes⟩ := (reads_written hp h).mp h₂
    exact .inr ⟨hes, hws⟩
  cases q with
  | nil =>
    rw [List.append_nil] at h₂
    exact .inl (h₂.det h)
  | cons c b =>
    have hbrace : ∃ b, render (.obj (lineMembers a hash payload)) = 123 :: b := ⟨_, rfl⟩
    obtain ⟨b', hb'⟩ := hbrace
    have hc : c = 123 := by
      rw [hb', List.cons_prefix_cons] at hq
      exact hq.1
    subst hc
    -- the cut line and what stands before it in its line are read as one
    have hfeed : 10 ∉ tailOf s ++ 123 :: b := by
      rw [List.mem_append, not_or]
      exact ⟨tailOf_noFeed s, fun hmem => (render_noFeed hfin).1 (hq.subset hmem)⟩
    have hlines : lines (s ++ 123 :: b) = lines (headOf s) ++ [tailOf s ++ 123 :: b] := by
      conv_lhs => rw [← headOf_append_tailOf s, List.append_assoc]
      rw [lines_append (headOf_endsLine s), lines_unterminated hfeed (by simp)]
    rw [← headOf_append_tailOf s, lines_append (headOf_endsLine s)] at h
    obtain ⟨es₁, hhead, htail⟩ := h.append_inv
    rw [hlines] at h₂
    obtain ⟨es₁', hhead', hlast⟩ := h₂.append_inv
    obtain rfl := hhead.det hhead'
    rw [reads_singleton (by simp [isBlank, isSpace])] at hlast
    obtain ⟨e, he, _, rfl⟩ := hlast
    obtain ⟨v, hv, _⟩ := fromJson_objectText he
    obtain ⟨hws, hobject, rfl⟩ := blank_before_object (tailOf_noFeed s) htail hv
    obtain ⟨t, ht⟩ := hq
    by_cases hnil : t = []
    · rw [hnil, List.append_nil] at ht
      have hread : readEnvelope (tailOf s ++ 123 :: b) = some (reread a hash payload) := by
        have hpadded : readEnvelope (tailOf s ++ (render (.obj (lineMembers a hash payload)) ++ [])) =
            some (reread a hash payload) := readEnvelope_padded hp hws (by simp)
        rwa [List.append_nil, ← ht] at hpadded
      rw [(fromJson_eq_ok.mp he).1, Option.some.injEq] at hread
      exact .inr ⟨by rw [hread], hws⟩
    · exact absurd hobject (not_objectText_of_cut hfin ht hnil v)

/-! ## Files without carriage returns -/

/-- The text of the file has no carriage return. -/
def NoReturn (file : PyBytes) : Prop := ∀ text, decode file = some text → 13 ∉ text

/-- Both readers agree on such a file. -/
theorem NoReturn.events {file : PyBytes} (h : NoReturn file) :
    events (F := F) H file = loadLocked H lines file := by
  rw [Ledger.events, loadLocked, loadLocked]
  cases hdecode : decode file with
  | none => rfl
  | some text =>
    simp only [universalLines_of_noReturn (h text hdecode)]

/-- The reader of `append` gets through the file. -/
def Readable (H : Host) (file : PyBytes) (es : List (EventEnvelope F)) : Prop :=
  loadLocked H lines file = .ok es

theorem Readable.det {file : PyBytes} {es es' : List (EventEnvelope F)} (h : Readable H file es)
    (h' : Readable H file es') : es = es' :=
  Except.ok.inj (h.symm.trans h')

/-- Only white space stands behind the last line feed. -/
def Whole (file : PyBytes) : Prop :=
  ∀ text, decode file = some text → ∀ c ∈ tailOf text, isWs c = true

theorem Readable.ended {file : PyBytes} {es : List (EventEnvelope F)} (h : Readable H file es)
    (hwhole : Whole file) : Ended H file es := by
  obtain ⟨text, ht, hr⟩ := loadLocked_eq_ok.mp h
  exact ⟨text, ht, hr, hwhole text ht⟩

theorem ended_iff {file : PyBytes} {es : List (EventEnvelope F)} :
    Ended H file es ↔ Readable H file es ∧ Whole file := by
  refine ⟨?_, fun h => h.1.ended h.2⟩
  rintro ⟨text, ht, hr, htail⟩
  refine ⟨loadLocked_eq_ok.mpr ⟨text, ht, hr⟩, ?_⟩
  intro text' ht'
  rw [ht, Option.some.injEq] at ht'
  rw [← ht']
  exact htail

/-! ## Growth -/

/-- What an append that was let through has left of the file: all it writes, or a part. -/
def Grown (H : Host) (file : PyBytes) (a : AppendArgs F) (file₂ : PyBytes) : Prop :=
  ∃ env file' k, append H file a = .ok (env, file') ∧ file₂ = file'.take (file.length + k)

theorem grown_of_append {file file' : PyBytes} {a : AppendArgs F} {env : EventEnvelope F}
    (h : append H file a = .ok (env, file')) : Grown H file a file' :=
  ⟨env, file', file'.length, h, (List.take_of_length_le (by omega)).symm⟩

/-- The file of a replay is the one before; otherwise some bytes of the line stand behind it. -/
theorem grown_cases {file file₂ : PyBytes} {a : AppendArgs F} (h : Grown H file a file₂) :
    ∃ text es, decode file = some text ∧ Reads H [] (lines text) es ∧
      (file₂ = file ∨ ∃ env file' hash payload bytes k,
        Wrote H file a es env file' hash payload bytes ∧ file₂ = file ++ bytes.take k) := by
  obtain ⟨env, file', k, happ, rfl⟩ := h
  obtain ⟨text, es, ht, hr, hcase⟩ := append_eq_ok happ
  refine ⟨text, es, ht, hr, ?_⟩
  rcases hcase with hrep | ⟨hash, payload, bytes, hwrote⟩
  · left
    rw [hrep.unchanged, List.take_of_length_le (by omega)]
  · right
    refine ⟨env, file', hash, payload, bytes, k, hwrote, ?_⟩
    rw [hwrote.grown, List.take_length_add_append]

theorem Grown.noReturn {file file₂ : PyBytes} {a : AppendArgs F} (h : Grown H file a file₂)
    (hfile : NoReturn file) : NoReturn file₂ := by
  obtain ⟨text, es, ht, _, rfl | ⟨env, file', hash, payload, bytes, k, hwrote, rfl⟩⟩ := grown_cases h
  · exact hfile
  intro text₂ ht₂
  have hfin : (Json.obj (lineMembers (a.buildArgs es) hash payload)).Finite :=
    finite_lineMembers (lower_finite _ _ hwrote.lowered)
  rw [decode_append ht] at ht₂
  obtain ⟨q, hq, rfl⟩ := Option.map_eq_some_iff.mp ht₂
  rcases decode_take hwrote.encoded k with hnone | ⟨q', hprefix, _, hsome⟩
  · rw [hnone] at hq
    cases hq
  · rw [hsome, Option.some.injEq] at hq
    subst hq
    rw [List.mem_append, not_or]
    refine ⟨hfile text ht, fun hmem => ?_⟩
    simpa [(render_noFeed hfin).2] using hprefix.subset hmem

/-- At most the new event is read behind those that were read before. -/
theorem Grown.reads {file file₂ : PyBytes} {a : AppendArgs F} {es es₂ : List (EventEnvelope F)}
    (h : Grown H file a file₂) (hes : Readable H file es) (hes₂ : Readable H file₂ es₂) :
    es₂ = es ∨ ∃ hash payload, ¬KeyRecorded es a ∧ lower a.payload = .ok payload ∧
      es₂ = es ++ [reread (a.buildArgs es) hash payload] := by
  obtain ⟨text, es', ht, hr, hcase⟩ := grown_cases h
  obtain rfl := hes.det (loadLocked_eq_ok.mpr ⟨text, ht, hr⟩)
  rcases hcase with rfl | ⟨env, file', hash, payload, bytes, k, hwrote, rfl⟩
  · exact .inl (hes₂.det hes)
  obtain ⟨text₂, ht₂, hr₂⟩ := loadLocked_eq_ok.mp hes₂
  rw [decode_append ht] at ht₂
  obtain ⟨q, hq, rfl⟩ := Option.map_eq_some_iff.mp ht₂
  rcases decode_take hwrote.encoded k with hnone | ⟨q', hprefix, _, hsome⟩
  · rw [hnone] at hq
    cases hq
  · rw [hsome, Option.some.injEq] at hq
    subst hq
    rcases reads_cut (lower_finite _ _ hwrote.lowered) hprefix hr hr₂ with rfl | ⟨rfl, _⟩
    · exact .inl rfl
    · exact .inr ⟨hash, payload, hwrote.newKey, hwrote.lowered, rfl⟩

/-- A file that grew could be read. -/
theorem Grown.readable {file file₂ : PyBytes} {a : AppendArgs F} (h : Grown H file a file₂) :
    ∃ es : List (EventEnvelope F), Readable H file es := by
  obtain ⟨text, es, ht, hr, _⟩ := grown_cases h
  exact ⟨es, loadLocked_eq_ok.mpr ⟨text, ht, hr⟩⟩

/-- A new event behind a line that was not ended leaves a file that cannot be read. -/
theorem unreadable_of_append {file file' : PyBytes} {a : AppendArgs F}
    {es : List (EventEnvelope F)} {env : EventEnvelope F} (hes : Readable H file es)
    (hwhole : ¬Whole file) (hkey : ¬KeyRecorded es a)
    (happ : append H file a = .ok (env, file')) (es₂ : List (EventEnvelope F)) :
    ¬Readable H file' es₂ := by
  intro hes₂
  obtain ⟨text, es', ht, hr, hcase⟩ := append_eq_ok happ
  obtain rfl := hes.det (loadLocked_eq_ok.mpr ⟨text, ht, hr⟩)
  rcases hcase with hrep | ⟨hash, payload, bytes, hwrote⟩
  · exact hkey ⟨env, hrep.recorded, hrep.key⟩
  · obtain ⟨text₂, ht₂, hr₂⟩ := loadLocked_eq_ok.mp hes₂
    rw [hwrote.grown, decode_append ht, decode_encode hwrote.encoded] at ht₂
    obtain rfl := Option.some.inj ht₂
    obtain ⟨htail, _⟩ := (reads_written (lower_finite _ _ hwrote.lowered) hr).mp hr₂
    apply hwhole
    intro text' ht'
    rw [ht, Option.some.injEq] at ht'
    rw [← ht']
    exact htail

/-! ## Events that an append lets through -/

/-- The fields of the event an append would write. -/
def AppendArgs.texts (a : AppendArgs F) : List PyStr :=
  [a.newId, orElse a.occurredAt a.now, a.tenantId, a.jobId, a.aggregateType, a.aggregateId,
    a.eventType, a.idempotencyKey]

/-- An event that can be written. -/
structure Admissible (H : Host) (a : AppendArgs F) : Prop where
  texts : ∀ s ∈ AppendArgs.texts a, Label s
  date : checkOccurredAt (F := F) H (.str (orElse a.occurredAt a.now)) = .ok ()
  durable : validateDurablePayload a.payload (py "payload") = .ok ()
  writable : Writable a.payload

theorem headHash_cases {es : List (EventEnvelope F)} (h : Recorded H es) :
    headHash es = [] ∨ isHash (headHash es) = true := by
  cases h with
  | nil => exact .inl rfl
  | @snoc es line e _ he _ =>
    right
    obtain ⟨hash, heq, hhash, _⟩ :=
      checkEventHash_eq_ok.mp (validate_eq_ok.mp (fromJson_eq_ok.mp he).2).2.2.2.2.2.2
    have hhead : headHash (es ++ [e]) = hash := by
      rw [headHash, List.getLast?_concat]
      simp only [hashOf, heq]
    rw [hhead]
    exact hhash

theorem encodes_str {s : PyStr} (h : (encode s).isSome = true) :
    (encode (render (.str s : Json F))).isSome = true :=
  (quote_encodes s).mpr h

theorem encodes_int (n : ℤ) : (encode (render (.int n : Json F))).isSome = true :=
  encode_ascii (intText_ascii n)

section Admissible
variable {a : AppendArgs F} {es : List (EventEnvelope F)} {payload : Json F}

theorem headHash_encodes (h : Recorded H es) : (encode (headHash es)).isSome = true := by
  rcases headHash_cases h with hnil | hhash
  · rw [hnil]
    rfl
  · exact encodes_of_isHash hhash

/-- The text of an admissible event can be encoded. -/
theorem Admissible.encodes (ha : Admissible H a) (hes : Recorded H es)
    (hp : (encode (render payload)).isSome = true) :
    (encode (render (.obj (unsignedMembers (a.buildArgs es) payload)))).isSome = true ∧
      ∀ hash, isHash hash = true →
        (encode (render (.obj (lineMembers (a.buildArgs es) hash payload)) ++ [10])).isSome =
          true := by
  have htexts := ha.texts
  simp only [AppendArgs.texts, List.forall_mem_cons, List.not_mem_nil, false_implies,
    implies_true, and_true] at htexts
  obtain ⟨hid, htime, htenant, hjob, htype, haggregate, hevent, hkey⟩ := htexts
  have hhead := headHash_encodes hes
  constructor
  · rw [render_obj_encodes]
    simp only [unsignedMembers, AppendArgs.buildArgs, List.forall_mem_cons, List.not_mem_nil,
      false_implies, implies_true, and_true]
    exact ⟨⟨rfl, encodes_str haggregate.2⟩, ⟨rfl, encodes_str htype.2⟩, ⟨rfl, encodes_str hid.2⟩,
      ⟨rfl, encodes_str hevent.2⟩, ⟨rfl, encodes_str hkey.2⟩, ⟨rfl, encodes_str hjob.2⟩,
      ⟨rfl, encodes_str htime.2⟩, ⟨rfl, hp⟩, ⟨rfl, encodes_str hhead⟩, ⟨rfl, encodes_int _⟩,
      ⟨rfl, encodes_int _⟩, rfl, encodes_str htenant.2⟩
  · intro hash hhash
    rw [encode_append_isSome, render_obj_encodes]
    refine ⟨?_, rfl⟩
    simp only [lineMembers, AppendArgs.buildArgs, List.forall_mem_cons, List.not_mem_nil,
      false_implies, implies_true, and_true]
    exact ⟨⟨rfl, encodes_str haggregate.2⟩, ⟨rfl, encodes_str htype.2⟩,
      ⟨rfl, encodes_str (encodes_of_isHash hhash)⟩, ⟨rfl, encodes_str hid.2⟩,
      ⟨rfl, encodes_str hevent.2⟩, ⟨rfl, encodes_str hkey.2⟩, ⟨rfl, encodes_str hjob.2⟩,
      ⟨rfl, encodes_str htime.2⟩, ⟨rfl, hp⟩, ⟨rfl, encodes_str hhead⟩, ⟨rfl, encodes_int _⟩,
      ⟨rfl, encodes_int _⟩, rfl, encodes_str htenant.2⟩

/-- An admissible event is valid behind the events on record. -/
theorem Admissible.valid (ha : Admissible H a) (hes : Recorded H es) {hash : PyStr}
    (hhash : isHash hash = true)
    (hcalculated : (a.buildArgs es).provisional.calculatedHash H = .ok hash) :
    ((a.buildArgs es).envelope hash).validate H = .ok () := by
  have htexts := ha.texts
  simp only [AppendArgs.texts, List.forall_mem_cons, List.not_mem_nil, false_implies,
    implies_true, and_true] at htexts
  obtain ⟨hid, htime, htenant, hjob, htype, haggregate, hevent, hkey⟩ := htexts
  refine validate_eq_ok.mpr ⟨rfl, ?_, ?_, ha.date, ha.durable, ?_, ?_⟩
  · have hpos : ¬ ((es.length + 1 : ℕ) : ℤ) < 1 := by omega
    simp only [BuildArgs.envelope, BuildArgs.provisional, AppendArgs.buildArgs, lessThanInt, hpos,
      decide_false]
  · simp only [EventEnvelope.requiredFields, BuildArgs.envelope, BuildArgs.provisional,
      AppendArgs.buildArgs, List.forall_mem_cons, isBlankField, List.not_mem_nil, false_implies,
      implies_true, and_true]
    exact ⟨hid.1, htime.1, htenant.1, hjob.1, htype.1, haggregate.1, hevent.1, hkey.1⟩
  · simp only [BuildArgs.envelope, BuildArgs.provisional, AppendArgs.buildArgs, checkPreviousHash,
      truthy]
    rcases headHash_cases hes with hnil | hhead
    · simp [hnil]
    · simp [hhead]
  · exact checkEventHash_eq_ok.mpr ⟨hash, rfl, hhash, hcalculated⟩

theorem writeNew_of_build {hash : PyStr} {written : PyBytes} (file : PyBytes)
    (hbuild : EventEnvelope.build H (a.buildArgs es) = .ok ((a.buildArgs es).envelope hash))
    (hlower : lower a.payload = .ok payload)
    (hvalid : ((a.buildArgs es).envelope hash).validate H = .ok ())
    (hwritten : encode (render (.obj (lineMembers (a.buildArgs es) hash payload)) ++ [10]) =
      some written) :
    writeNew H file a es = .ok ((a.buildArgs es).envelope hash, file ++ written) := by
  have htext : ((a.buildArgs es).envelope hash).toJson H =
      .ok (render (.obj (lineMembers (a.buildArgs es) hash payload))) :=
    toJson_envelope hlower hvalid
  unfold writeNew
  rw [hbuild]
  dsimp only
  rw [htext]
  dsimp only
  rw [hwritten]

/-- An admissible event under a new key is let through. -/
theorem Admissible.accepts (ha : Admissible H a) (hdigest : ∀ bytes, isHash (H.sha256 bytes) = true)
    {file : PyBytes} (hread : Readable H file es) (hkey : ¬KeyRecorded es a)
    (hhead : a.expectedHead = none) : ∃ env file', append H file a = .ok (env, file') := by
  have hrecorded := loadLocked_recorded hread
  obtain ⟨payload, hlower, hencodes⟩ := ha.writable
  obtain ⟨hunsigned, hline⟩ := ha.encodes hrecorded hencodes
  obtain ⟨bytes, hbytes⟩ := Option.isSome_iff_exists.mp hunsigned
  have hhash := hdigest bytes
  have hcalculated : (a.buildArgs es).provisional.calculatedHash H = .ok (H.sha256 bytes) := by
    rw [EventEnvelope.calculatedHash, contentHash, canonicalJson, dumps,
      lower_unsignedDict (a.buildArgs es) hlower]
    simp only [Except.map, hbytes]
  have hvalid := ha.valid hrecorded hhash hcalculated
  obtain ⟨written, hwritten⟩ := Option.isSome_iff_exists.mp (hline _ hhash)
  obtain ⟨_, hsemantic, _⟩ : ∃ s, a.semantic = .ok s ∧ True :=
    ⟨_, (semanticFingerprint_eq (lower_str _) (lower_str _) (lower_str _) (lower_str _)
      (lower_str _) hlower).1, trivial⟩
  have hnone : es.find? (fun e => isStr e.idempotencyKey a.idempotencyKey) = none :=
    List.find?_eq_none.mpr fun e he hk => hkey ⟨e, he, hk⟩
  refine ⟨(a.buildArgs es).envelope (H.sha256 bytes), file ++ written, ?_⟩
  have hbuild : EventEnvelope.build H (a.buildArgs es) =
      .ok ((a.buildArgs es).envelope (H.sha256 bytes)) :=
    build_eq_ok.mpr ⟨_, hcalculated, rfl, hvalid⟩
  have hwrite := writeNew_of_build file hbuild hlower hvalid hwritten
  rw [Readable] at hread
  simp only [append, hread, hsemantic, hnone, hhead, hwrite]

end Admissible

/-- What was written was admissible in its texts. -/
theorem texts_of_wrote {file file' : PyBytes} {a : AppendArgs F} {es : List (EventEnvelope F)}
    {env : EventEnvelope F} {hash : PyStr} {payload : Json F} {bytes : PyBytes}
    (h : Wrote H file a es env file' hash payload bytes) :
    isBlank a.aggregateId = false ∧ (encode a.jobId).isSome = true := by
  constructor
  · have hvalid := h.valid
    rw [h.returned] at hvalid
    have hfields := (validate_eq_ok.mp hvalid).2.2.1
    exact hfields (py "aggregate_id", .str a.aggregateId) (by
      simp [EventEnvelope.requiredFields, BuildArgs.envelope, BuildArgs.provisional,
        AppendArgs.buildArgs])
  · have hencodes : (encode (render (.obj (lineMembers (a.buildArgs es) hash payload)) ++
        [10])).isSome = true := by
      rw [h.encoded]
      rfl
    rw [encode_append_isSome, render_obj_encodes] at hencodes
    exact (quote_encodes _).mp (hencodes.1 (py "job_id", .str a.jobId) (by
      simp [lineMembers, AppendArgs.buildArgs])).2

/-- What an append that returns has done: nothing for a recorded key, and for a new one a line
that is read when the last line was ended and spoils the file otherwise. -/
inductive Appends (H : Host) (file : PyBytes) (es : List (EventEnvelope F)) (a : AppendArgs F) :
    PyBytes → Prop where
  | replayed (recorded : KeyRecorded es a) : Appends H file es a file
  | written (file' hash payload) (newKey : ¬KeyRecorded es a) (whole : Whole file)
      (texts : isBlank a.aggregateId = false ∧ (encode a.jobId).isSome = true)
      (lowered : lower a.payload = .ok payload)
      (ended : Ended H file' (es ++ [reread (a.buildArgs es) hash payload])) :
      Appends H file es a file'
  | spoilt (file') (newKey : ¬KeyRecorded es a) (notWhole : ¬Whole file)
      (unreadable : ∀ es' : List (EventEnvelope F), ¬Readable H file' es') : Appends H file es a file'

theorem append_appends {file file' : PyBytes} {a : AppendArgs F} {es : List (EventEnvelope F)}
    {env : EventEnvelope F} (hes : Readable H file es) (hobj : JsonObject a.payload)
    (hfresh : ∀ e ∈ es, e.eventId ≠ .str a.newId) (happ : append H file a = .ok (env, file')) :
    Appends H file es a file' := by
  obtain ⟨text, es', ht, hr, hcase⟩ := append_eq_ok happ
  obtain rfl := hes.det (loadLocked_eq_ok.mpr ⟨text, ht, hr⟩)
  rcases hcase with hrep | ⟨hash, payload, bytes, hwrote⟩
  · rw [hrep.unchanged]
    exact .replayed ⟨env, hrep.recorded, hrep.key⟩
  · by_cases hwhole : Whole file
    · exact .written file' hash payload hwrote.newKey hwhole (texts_of_wrote hwrote) hwrote.lowered
        ((hes.ended hwhole).wrote hobj hfresh hwrote)
    · exact .spoilt file' hwrote.newKey hwhole
        (unreadable_of_append hes hwhole hwrote.newKey happ)

end LedgerGrowth
