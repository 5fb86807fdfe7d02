import VeriMat.LedgerAppend
import VeriMat.JsonAscii

/-! # Torn writes

A file that appends produced, cut after any number of bytes. A cut inside a character makes
every reader raise; a cut inside a line is reported; a cut that loses no more than the last
line feed goes unnoticed, and it is the next append that then spoils the file. -/
namespace LedgerTornWrite

open PyText JsonText PyValue Events Ledger DurablePayload EnvelopeRoundTrip LedgerChain
open LedgerTamper LedgerLines LedgerAppend

variable {F : Type} [PyFloat F] {H : Host}

/-! ## A line that is read is valid or reported -/

omit [PyFloat F] in
/-- The hashed members are members of the line, but for the payload. -/
theorem mem_lineMembers (a : BuildArgs F) (hash : PyStr) (payload payload' : Json F) :
    ∀ p ∈ unsignedMembers a payload',
      p ∈ lineMembers a hash payload ∨ p = (py "payload", payload') := by
  simp [unsignedMembers, lineMembers]

/-- The text a re-read event is hashed over can be encoded when the line could. -/
theorem encode_unsigned {a : BuildArgs F} {hash : PyStr} {payload : Json F} {t : PyStr}
    {bytes : PyBytes} (hp : payload.Finite)
    (h : encode (render (.obj (lineMembers a hash payload)) ++ t) = some bytes) :
    (encode (render (.obj (unsignedMembers a (sortNames payload.dedup))))).isSome = true := by
  have hall : ∀ c ∈ render (.obj (lineMembers a hash payload)), (encodeChar c).isSome = true := by
    have := encode_isSome_iff.mp (Option.isSome_iff_exists.mpr ⟨_, h⟩)
    exact fun c hc => this c (List.mem_append_left _ hc)
  have hfin : (Json.obj (unsignedMembers a (sortNames payload.dedup))).Finite := by
    rw [Json.Finite, finiteMembers_iff]
    simp [unsignedMembers, Json.Finite, finite_sortNames _ (finite_dedup _ hp)]
  refine encode_isSome_iff.mpr fun c hc => ?_
  obtain ⟨_, hc | hc⟩ := written_render _ hfin c hc
  · simp [encodeChar, hc]
  by_cases hlt : c < 128
  · simp [encodeChar, hlt]
  · refine hall c (mem_render (by omega) _ (mem_charsMembers.mpr ?_))
    obtain ⟨p, hmem, hc⟩ := mem_charsMembers.mp hc
    rcases mem_lineMembers a hash payload _ p hmem with hmem | rfl
    · exact ⟨p, hmem, hc⟩
    · exact ⟨(py "payload", payload), by simp [lineMembers],
        hc.imp_right fun hc => chars_dedup payload c ((mem_chars_sortNames _).mp hc)⟩

/-- Checking a re-read event ends in a verdict on the event, not in another exception. -/
theorem validate_reread_cases {a : BuildArgs F} {hash : PyStr} {payload : Json F} {t : PyStr}
    {bytes : PyBytes} (hp : lower a.payload = .ok payload)
    (hv : (a.envelope hash).validate H = .ok ())
    (he : encode (render (.obj (lineMembers a hash payload)) ++ t) = some bytes) :
    (reread a hash payload).validate H = .ok () ∨
      ∃ issue, (reread a hash payload).validate H = .error (.validation issue) := by
  obtain ⟨hschema, hseq, hblank, htime, _, hprev, hhash⟩ := validate_eq_ok.mp hv
  obtain ⟨s, hs, hh, _⟩ := checkEventHash_eq_ok.mp hhash
  have hfin := lower_finite _ _ hp
  have hlower : lower (reread a hash payload).unsignedDict =
      .ok (.obj (unsignedMembers a (sortNames payload.dedup))) := by
    exact lower_unsignedDict { a with payload := ofJson payload.dedup }
      (lower_ofJson _ (finite_dedup _ hfin))
  obtain ⟨b, hb⟩ := Option.isSome_iff_exists.mp (encode_unsigned hfin he)
  have hcalc : (reread a hash payload).calculatedHash H = .ok (H.sha256 b) := by
    rw [EventEnvelope.calculatedHash, contentHash, canonicalJson, dumps, hlower]
    simp only [Except.map, hb]
  have hcheck : checkEventHash H (reread a hash payload) = .ok () ∨
      checkEventHash H (reread a hash payload) = .error (.validation .eventHashMismatch) := by
    have hs' : (reread a hash payload).eventHash = .str s := hs
    simp only [checkEventHash, hs', hh, if_true, hcalc]
    split_ifs <;> simp
  have hfind : ((reread a hash payload).requiredFields.find? fun p => isBlankField p.2) = none :=
    List.find?_eq_none.mpr fun p hp => by simpa using hblank p hp
  have hschema' : equalsInt (reread a hash payload).schemaVersion 1 = true := hschema
  have hseq' : lessThanInt (reread a hash payload).sequence 1 = some false := hseq
  have htime' : checkOccurredAt H (reread a hash payload).occurredAt = .ok () := htime
  have hprev' : checkPreviousHash (reread a hash payload).previousHash = .ok () := hprev
  unfold EventEnvelope.validate
  simp only [hschema', hseq', hfind, htime', hprev', bind, Except.bind, Bool.not_true,
    Bool.false_eq_true, if_false]
  rcases validateDurablePayload_cases (reread a hash payload).payload (py "payload") with
    hpay | ⟨issue, hpay⟩
  · rw [hpay]
    exact hcheck.imp_right fun h => ⟨_, h⟩
  · rw [hpay]
    exact Or.inr ⟨issue, rfl⟩

/-- The loader on one written line: the event is taken, or an integrity error names it. -/
theorem load_written {a : AppendArgs F} {es : List (EventEnvelope F)} {hash : PyStr}
    {payload : Json F} {t l : PyStr} {bytes : PyBytes} (n : ℕ)
    (hp : lower a.payload = .ok payload)
    (hv : ((a.buildArgs es).envelope hash).validate H = .ok ())
    (he : encode (render (.obj (lineMembers (a.buildArgs es) hash payload)) ++ t) = some bytes)
    (hl : isBlank l = false)
    (hread : readEnvelope l = some (reread (a.buildArgs es) hash payload)) :
    loadLines H es n [l] = .ok (es ++ [reread (a.buildArgs es) hash payload]) ∨
      ∃ issue, loadLines (F := F) H es n [l] = .error (.integrity issue) := by
  rcases validate_reread_cases hp hv he with hval | ⟨issue, hval⟩
  · have hfrom := fromJson_eq_ok.mpr ⟨hread, hval⟩
    simp only [loadLines, hl, hfrom, Bool.false_eq_true, if_false]
    unfold checkEvent
    split_ifs with h₁ h₂ h₃ h₄ h₅ h₆
    · exact Or.inr ⟨_, rfl⟩
    · exact Or.inr ⟨_, rfl⟩
    · cases h₃
    · exact Or.inr ⟨_, rfl⟩
    · cases h₅
    · exact Or.inr ⟨_, rfl⟩
    · exact Or.inl rfl
  · have hfrom : EventEnvelope.fromJson (F := F) H l = .error (.validation issue) := by
      simp only [EventEnvelope.fromJson, hread, hval, bind, Except.bind]
    right
    refine ⟨.event n issue, ?_⟩
    simp only [loadLines, hl, hfrom, Bool.false_eq_true, if_false]

/-- The loader on one line that is no event. -/
theorem load_unreadable {es : List (EventEnvelope F)} {l : PyStr} (n : ℕ)
    (hl : isBlank l = false) (hread : readEnvelope (F := F) l = none) :
    loadLines H es n [l] = .error (.integrity (.event n .invalidJson)) := by
  simp only [loadLines, hl, EventEnvelope.fromJson, hread, Bool.false_eq_true, if_false]

/-! ## Files that appends produced -/

/-- The files a sequence of successful appends leaves, from the missing one on. -/
inductive Produced (F : Type) [PyFloat F] (H : Host) : PyBytes → Prop where
  | missing : Produced F H []
  | append {file file' : PyBytes} {a : AppendArgs F} {env : EventEnvelope F} :
      Produced F H file → append H file a = .ok (env, file') → Produced F H file'

/-- The events a file's lines spell out, before any of them is checked. -/
def fileEvents (file : PyBytes) : List (EventEnvelope F) :=
  match decode file with
  | some text => (universalLines text).filterMap readEnvelope
  | none => []

/-- A produced text: terminated lines with no carriage return. -/
structure Produces (file : PyBytes) (text : PyStr) : Prop where
  encoded : encode text = some file
  ends : EndsLine text
  noReturn : 13 ∉ text

/-- What a write adds to a produced file. -/
theorem wrote_produces {file file' : PyBytes} {text : PyStr} {a : AppendArgs F}
    {es : List (EventEnvelope F)} {env : EventEnvelope F} {hash : PyStr} {payload : Json F}
    {bytes : PyBytes} (hw : Wrote H file a es env file' hash payload bytes)
    (h : Produces file text) :
    Produces file'
      (text ++ (render (.obj (lineMembers (a.buildArgs es) hash payload)) ++ [10])) := by
  have hfin : (Json.obj (lineMembers (a.buildArgs es) hash payload)).Finite :=
    finite_lineMembers (lower_finite _ _ hw.lowered)
  refine ⟨encode_append_eq_some.mpr ⟨_, _, h.encoded, hw.encoded, hw.grown⟩, Or.inr ?_, ?_⟩
  · exact ⟨_, (List.append_assoc _ _ _).symm⟩
  · simp [h.noReturn, (render_noFeed hfin).2]

theorem Produced.text {file : PyBytes} (h : Produced F H file) : ∃ text, Produces file text := by
  induction h with
  | missing => exact ⟨[], rfl, Or.inl rfl, by simp⟩
  | append _ happ ih =>
    obtain ⟨text, ht⟩ := ih
    obtain ⟨_, es, _, _, hrep | ⟨hash, payload, bytes, hw⟩⟩ := append_eq_ok happ
    · exact ⟨text, hrep.unchanged ▸ ht⟩
    · exact ⟨_, wrote_produces hw ht⟩

/-! ## The cut -/

/-- What `verify` makes of a cut file: a report on the events in front of the cut, or a
report that the file is not sound. -/
def Reported (H : Host) (file : PyBytes) (n : ℕ) : Prop :=
  (∃ issue, events (F := F) H (file.take n) = .error (.integrity issue)) ∨
    ∃ es : List (EventEnvelope F), events H (file.take n) = .ok es ∧ es <+: fileEvents file

theorem readEnvelope_blank {l : PyStr} (hl : isBlank l = true) : readEnvelope (F := F) l = none := by
  cases h : readEnvelope (F := F) l with
  | none => rfl
  | some e =>
    obtain ⟨v, hv, _⟩ := readEnvelope_objectText h
    rw [← List.append_nil l] at hv
    obtain ⟨n, b, r, hs, _⟩ := (hv.of_append (List.all_eq_true.mp hl)).2
    cases hs

theorem reads_filterMap {es₀ es₁ : List (EventEnvelope F)} {ls : List PyStr}
    (h : Reads H es₀ ls es₁) : es₁ = es₀ ++ ls.filterMap readEnvelope := by
  induction h with
  | done => simp
  | blank hb _ ih => rw [List.filterMap_cons, readEnvelope_blank hb, ih]
  | event _ hf _ _ ih => simp [(fromJson_eq_ok.mp hf).1, ih]

theorem fileEvents_produces {file : PyBytes} {text : PyStr} (h : Produces file text) :
    fileEvents (F := F) file = (lines text).filterMap readEnvelope := by
  rw [fileEvents, decode_encode h.encoded]
  simp only [universalLines_of_noReturn h.noReturn]

theorem fileEvents_wrote {file file' : PyBytes} {text : PyStr} {a : AppendArgs F}
    {es : List (EventEnvelope F)} {env : EventEnvelope F} {hash : PyStr} {payload : Json F}
    {bytes : PyBytes} (hw : Wrote H file a es env file' hash payload bytes)
    (h : Produces file text) :
    fileEvents file' = fileEvents file ++ [reread (a.buildArgs es) hash payload] := by
  have hp := lower_finite _ _ hw.lowered
  have hfin : (Json.obj (lineMembers (a.buildArgs es) hash payload)).Finite :=
    finite_lineMembers hp
  have hread := readEnvelope_line (a.buildArgs es) hash hp (t := [10]) (by simp [isWs])
  have hline := lines_terminated (render_noFeed hfin).1 []
  rw [fileEvents_produces (wrote_produces hw h), fileEvents_produces h, lines_append h.ends,
    hline, List.filterMap_append]
  simp [hread]

/-- A cut inside the last write, or behind it. -/
theorem reported_wrote {file file' : PyBytes} {text : PyStr} {a : AppendArgs F}
    {es : List (EventEnvelope F)} {env : EventEnvelope F} {hash : PyStr} {payload : Json F}
    {bytes : PyBytes} (hw : Wrote H file a es env file' hash payload bytes)
    (h : Produces file text) (hr : Reads H [] (lines text) es) (k : ℕ)
    (hdec : (decode (file ++ bytes.take k)).isSome = true) :
    (∃ issue, events (F := F) H (file ++ bytes.take k) = .error (.integrity issue)) ∨
      ∃ es' : List (EventEnvelope F),
        events H (file ++ bytes.take k) = .ok es' ∧ es' <+: fileEvents file' := by
  have hp := lower_finite _ _ hw.lowered
  have hfin : (Json.obj (lineMembers (a.buildArgs es) hash payload)).Finite :=
    finite_lineMembers hp
  have hfile := decode_append (decode_encode h.encoded) (bytes.take k)
  have hvalid : ((a.buildArgs es).envelope hash).validate H = .ok () := hw.returned ▸ hw.valid
  have hes : es = fileEvents file := by
    rw [fileEvents_produces h]
    exact reads_filterMap hr
  rw [fileEvents_wrote hw h, ← hes]
  rcases decode_take hw.encoded k with hnone | ⟨q, hq, _, hsome⟩
  · simp [hfile, hnone] at hdec
  have hret : 13 ∉ text ++ q := by
    rw [List.mem_append, not_or]
    refine ⟨h.noReturn, fun hc => ?_⟩
    simpa [(render_noFeed hfin).2] using hq.subset hc
  obtain ⟨m, hm⟩ := loadLines_append hr 1 (lines q)
  have hev : events (F := F) H (file ++ bytes.take k) = loadLines H es m (lines q) := by
    rw [events, loadLocked, hfile, hsome]
    simp only [Option.map_some]
    rw [universalLines_of_noReturn hret, lines_append h.ends, hm]
  rw [hev]
  by_cases hne : q = []
  · subst hne
    exact Or.inr ⟨es, rfl, List.prefix_append _ _⟩
  have hblank : isBlank q = false := by
    obtain ⟨c, u, rfl⟩ := List.exists_cons_of_ne_nil hne
    obtain ⟨b, hb⟩ : ∃ b, render (.obj (lineMembers (a.buildArgs es) hash payload)) = 123 :: b :=
      ⟨_, rfl⟩
    rw [hb, List.cons_append, List.cons_prefix_cons] at hq
    rw [hq.1]
    rfl
  have hwhole : ∀ t : PyStr, (∀ c ∈ t, isWs c = true) →
      q = render (.obj (lineMembers (a.buildArgs es) hash payload)) ++ t → lines q = [q] →
        (∃ issue, loadLines (F := F) H es m (lines q) = .error (.integrity issue)) ∨
          ∃ es' : List (EventEnvelope F), loadLines H es m (lines q) = .ok es' ∧
            es' <+: es ++ [reread (a.buildArgs es) hash payload] := by
    intro t ht hqt hlines
    have hread := readEnvelope_line (a.buildArgs es) hash hp ht
    rw [← hqt] at hread
    rw [hlines]
    rcases load_written m hw.lowered hvalid hw.encoded hblank hread with hok | herr
    · exact Or.inr ⟨_, hok, List.prefix_rfl⟩
    · exact Or.inl herr
  rcases List.prefix_concat_iff.mp hq with rfl | hq
  · exact hwhole [10] (by simp [isWs]) rfl (lines_terminated (render_noFeed hfin).1 [])
  · have hlines : lines q = [q] :=
      lines_unterminated (fun hc => (render_noFeed hfin).1 (hq.subset hc)) hne
    obtain ⟨t, ht⟩ := hq
    by_cases htn : t = []
    · subst htn
      exact hwhole [] (by simp) (by simpa using ht) hlines
    · left
      have hread : readEnvelope (F := F) q = none := by
        cases hr : readEnvelope (F := F) q with
        | none => rfl
        | some e =>
          obtain ⟨v, hv, _⟩ := readEnvelope_objectText hr
          exact absurd hv (not_objectText_of_cut hfin ht htn v)
      rw [hlines]
      exact ⟨_, load_unreadable m hblank hread⟩

/-- Wherever a produced file is cut between two characters, `verify` reports. -/
theorem Produced.reported {file : PyBytes} (h : Produced F H file) (n : ℕ)
    (hdec : (decode (file.take n)).isSome = true) : Reported (F := F) H file n := by
  induction h with
  | missing => exact Or.inr ⟨[], by simp [events, loadLocked, decode, universalLines,
      translateNewlines, loadLines], List.nil_prefix⟩
  | @append file file' a env hprod happ ih =>
    obtain ⟨text, ht⟩ := hprod.text
    obtain ⟨text', es, ht', hr, hrep | ⟨hash, payload, bytes, hw⟩⟩ := append_eq_ok happ
    · rw [hrep.unchanged] at hdec ⊢
      exact ih hdec
    · rw [decode_encode ht.encoded] at ht'
      cases ht'
      unfold Reported
      rw [hw.grown, List.take_append] at hdec ⊢
      by_cases hn : n ≤ file.length
      · rw [Nat.sub_eq_zero_of_le hn, List.take_zero, List.append_nil] at hdec ⊢
        rw [← hw.grown, fileEvents_wrote hw ht]
        refine (ih hdec).imp_right ?_
        rintro ⟨es', he, hpre⟩
        exact ⟨es', he, hpre.trans (List.prefix_append _ _)⟩
      · rw [List.take_of_length_le (by omega)] at hdec ⊢
        rw [← hw.grown]
        exact reported_wrote hw ht hr _ hdec

/-! ## Appends after the cut -/

/-- A payload whose JSON keeps its canonical form and hides no sensitive key. -/
def Durable (v : PyVal F) : Prop :=
  KeyOrderAgrees v ∧ ∀ k ∈ hiddenKeys v, isSensitiveKey k.jsonText = false

/-- SHA-256 does not give an event and its re-read form one hash over different JSON. -/
def NoRereadCollision (H : Host) (env : EventEnvelope F) : Prop :=
  ∀ j, lower env.payload = .ok j → Set.InjOn H.sha256
    {b | hashedBytes env = some b ∨ hashedBytes { env with payload := ofJson j.dedup } = some b}

/-- The re-read event is valid exactly when its payload is durable. -/
theorem validate_reread_iff {a : BuildArgs F} {hash : PyStr} {payload : Json F}
    (hp : lower a.payload = .ok payload) (hv : (a.envelope hash).validate H = .ok ())
    (hinj : NoRereadCollision H (a.envelope hash)) :
    (reread a hash payload).validate H = .ok () ↔ Durable a.payload := by
  have hfin := lower_finite _ _ hp
  obtain ⟨members, hm, hnames⟩ := accepted_obj (validate_eq_ok.mp hv).2.2.2.2.1
  have hpm : payload = .obj members := Except.ok.inj (hp.symm.trans hm)
  subst hpm
  have hsorted := namesSorted_lower_iff _ _ hp
  constructor
  · intro hr
    obtain ⟨_, _, _, _, hpay, _, hcheck⟩ := validate_eq_ok.mp hr
    obtain ⟨h, hs, _, hc⟩ := checkEventHash_eq_ok.mp hcheck
    obtain ⟨h', hs', _, hc'⟩ := checkEventHash_eq_ok.mp (validate_eq_ok.mp hv).2.2.2.2.2.2
    have hhash : h = h' := PyVal.str.inj (hs.symm.trans hs')
    obtain ⟨b, hb, hsha⟩ := calculatedHash_eq_ok hc
    obtain ⟨b', hb', hsha'⟩ := calculatedHash_eq_ok hc'
    have hbb : b = b' :=
      hinj _ hp (Or.inr hb) (Or.inl hb') (hsha.trans (hhash.trans hsha'.symm))
    subst hbb
    have hsame := sameJson_of_hashedBytes hb hb'
    simp only [sortedUnsigned, List.forall₂_cons] at hsame
    obtain ⟨_, _, _, _, _, _, _, ⟨x, hx, hx'⟩, _⟩ := hsame
    have hx' : lower a.payload = .ok x := hx'
    rw [hp] at hx'
    cases hx'
    have hns : NamesSorted (Json.obj members) := by
      rw [← sortNames_dedup_eq_self_iff]
      exact Except.ok.inj ((lower_ofJson _ (finite_dedup _ hfin)).symm.trans hx)
    refine ⟨hsorted.mp hns, hnames.mp ?_⟩
    have hpay : validateDurablePayload (ofJson (Json.obj members).dedup) (py "payload") = .ok () :=
      hpay
    rw [dedup_of_sorted _ hns] at hpay
    exact (validateDurablePayload_ofJson hfin).mp hpay
  · rintro ⟨hagree, hhidden⟩
    have hns := hsorted.mpr hagree
    refine validate_reread hv hp hns ?_
    rw [dedup_of_sorted _ hns]
    exact (validateDurablePayload_ofJson hfin).mpr (hnames.mpr hhidden)

/-- What an append to a verified file has to meet for the file to verify afterwards. -/
def Sound (H : Host) (file : PyBytes) (a : AppendArgs F) : Prop :=
  ∀ text es, decode file = some text → events H file = .ok es →
    KeyRecorded es a ∨
      ((∀ c ∈ lastLine text, isWs c = true) ∧ (∀ e ∈ es, e.eventId ≠ .str a.newId) ∧
        Durable a.payload)

theorem append_extends_iff {file file' : PyBytes} {a : AppendArgs F} {env : EventEnvelope F}
    {es₀ es : List (EventEnvelope F)} (hes : events H file = .ok es) (hpre : es₀ <+: es)
    (happ : append H file a = .ok (env, file')) (hinj : NoRereadCollision H env) :
    (∃ es', events H file' = .ok es' ∧ es₀ <+: es') ↔ Sound H file a := by
  obtain ⟨text, es₁, ht, hr, hcase⟩ := append_eq_ok happ
  obtain ⟨text', ht', hr'⟩ := loadLocked_eq_ok.mp hes
  rw [ht] at ht'
  cases ht'
  obtain rfl := reads_agree hr hr'
  have hsound : Sound H file a ↔ KeyRecorded es₁ a ∨
      ((∀ c ∈ lastLine text, isWs c = true) ∧ (∀ e ∈ es₁, e.eventId ≠ .str a.newId) ∧
        Durable a.payload) := by
    constructor
    · exact fun h => h text es₁ ht hes
    · intro h text' es' ht' hes'
      rw [ht] at ht'
      rw [hes] at hes'
      cases ht'
      cases hes'
      exact h
  rw [hsound]
  rcases hcase with hrep | ⟨hash, payload, bytes, hw⟩
  · refine iff_of_true ⟨es₁, hrep.unchanged ▸ hes, hpre⟩ (Or.inl ⟨env, hrep.recorded, hrep.key⟩)
  · have hval := validate_reread_iff (a := a.buildArgs es₁) hw.lowered
      (hw.returned ▸ hw.valid) (hw.returned ▸ hinj)
    have hdur : Durable (a.buildArgs es₁).payload ↔ Durable a.payload := Iff.rfl
    constructor
    · rintro ⟨es', he, _⟩
      obtain ⟨hws, hid, hv, _⟩ := (events_wrote_iff ht hes hw).mp he
      exact Or.inr ⟨hws, hid, hval.mp hv⟩
    · rintro (hkey | ⟨hws, hid, hd⟩)
      · exact absurd hkey hw.newKey
      · exact ⟨_, (events_wrote_iff ht hes hw).mpr ⟨hws, hid, hval.mpr hd, rfl⟩,
          hpre.trans (List.prefix_append _ _)⟩

/-- Every successful append of a sequence leaves a file that reads to an extension of these
events; one that fails leaves the file alone. -/
def KeepsReading (H : Host) (es : List (EventEnvelope F)) : PyBytes → List (AppendArgs F) → Prop
  | _, [] => True
  | file, a :: as =>
    match append H file a with
    | .ok (_, file') =>
      (∃ es', events H file' = .ok es' ∧ es <+: es') ∧ KeepsReading H es file' as
    | .error _ => KeepsReading H es file as

/-- Every successful append of a sequence is sound where it is made. -/
def AllSound (H : Host) : PyBytes → List (AppendArgs F) → Prop
  | _, [] => True
  | file, a :: as =>
    match append H file a with
    | .ok (_, file') => Sound H file a ∧ AllSound H file' as
    | .error _ => AllSound H file as

/-- No event of a sequence of appends collides with its re-read form. -/
def NoCollisions (H : Host) : PyBytes → List (AppendArgs F) → Prop
  | _, [] => True
  | file, a :: as =>
    match append H file a with
    | .ok (env, file') => NoRereadCollision H env ∧ NoCollisions H file' as
    | .error _ => NoCollisions H file as

theorem keepsReading_iff {as : List (AppendArgs F)} {file : PyBytes}
    {es₀ es : List (EventEnvelope F)} (hes : events H file = .ok es) (hpre : es₀ <+: es)
    (hinj : NoCollisions H file as) : KeepsReading H es₀ file as ↔ AllSound H file as := by
  induction as generalizing file es with
  | nil => exact Iff.rfl
  | cons a as ih =>
    unfold KeepsReading AllSound
    unfold NoCollisions at hinj
    cases happ : append H file a with
    | error x =>
      simp only [happ] at hinj ⊢
      exact ih hes hpre hinj
    | ok q =>
      obtain ⟨env, file'⟩ := q
      simp only [happ] at hinj ⊢
      rw [append_extends_iff hes hpre happ hinj.1]
      refine and_congr_right fun hs => ?_
      obtain ⟨es', hes', hpre'⟩ := (append_extends_iff hes hpre happ hinj.1).mpr hs
      exact ih hes' hpre' hinj.2

/-- What is promised of a cut file: a report that it is not sound; or a report on some first
events of the original file, which every later successful append extends. -/
def TornSafe (H : Host) (file : PyBytes) (n : ℕ) (as : List (AppendArgs F)) : Prop :=
  (∃ r : VerificationReport F, verify H (file.take n) = .ok r ∧ r.ok = false) ∨
    ∃ (r : VerificationReport F) (es : List (EventEnvelope F)),
      verify H (file.take n) = .ok r ∧ r.ok = true ∧ events H (file.take n) = .ok es ∧
        es <+: fileEvents file ∧ KeepsReading H es (file.take n) as

/-- A produced file keeps the promise at a cut exactly when the cut is not inside a
character and, should the prefix verify, every later append that succeeds is sound. -/
theorem tornSafe_iff {file : PyBytes} (hprod : Produced F H file) (n : ℕ)
    (as : List (AppendArgs F)) (hinj : NoCollisions H (file.take n) as) :
    TornSafe H file n as ↔
      (decode (file.take n)).isSome = true ∧
        ((∃ r : VerificationReport F, verify H (file.take n) = .ok r ∧ r.ok = true) →
          AllSound H (file.take n) as) := by
  constructor
  · intro h
    have hdec : (decode (file.take n)).isSome = true := by
      cases hd : decode (file.take n) with
      | some text => rfl
      | none =>
        have hv : verify (F := F) H (file.take n) = .error .unicodeDecodeError := by
          simp [verify, events, loadLocked, hd]
        rcases h with ⟨r, hr, _⟩ | ⟨r, _, hr, _⟩ <;> simp [hv] at hr
    refine ⟨hdec, ?_⟩
    rintro ⟨r, hr, hok⟩
    rcases h with ⟨r', hr', hbad⟩ | ⟨_, es, _, _, hes, _, hkeep⟩
    · rw [hr] at hr'
      cases hr'
      rw [hok] at hbad
      cases hbad
    · exact (keepsReading_iff hes List.prefix_rfl hinj).mp hkeep
  · rintro ⟨hdec, hsound⟩
    rcases hprod.reported n hdec with ⟨issue, herr⟩ | ⟨es, hes, hpre⟩
    · exact Or.inl ⟨⟨false, 0, [], some issue⟩, by simp [verify, herr], rfl⟩
    · obtain ⟨hr, hok⟩ := verify_ok_iff.mpr ⟨es, hes, rfl⟩
      exact Or.inr ⟨_, es, hr, hok, hes, hpre,
        (keepsReading_iff hes List.prefix_rfl hinj).mpr (hsound ⟨_, hr, hok⟩)⟩

/-- A payload read from JSON, or a JSON object, is hashed over the same bytes when re-read. -/
theorem noRereadCollision_of_fromJson {env : EventEnvelope F} (h : FromJson env.payload) :
    NoRereadCollision H env := by
  obtain ⟨k, hk, hded⟩ := h
  intro j hj
  have hfin : k.Finite := finite_of_lower k j (hk ▸ hj)
  rw [hk, lower_ofJson k hfin, Except.ok.injEq] at hj
  have hsorted : NamesSorted j := by
    have := namesSorted_sortNames_dedup k
    rwa [hded, hj] at this
  have hlower : lower (ofJson j.dedup) = lower env.payload := by
    rw [dedup_of_sorted j hsorted, lower_ofJson j (hj ▸ finite_sortNames k hfin),
      sortNames_of_sorted j hsorted, hk, lower_ofJson k hfin, hj]
  have hsame : hashedBytes { env with payload := ofJson j.dedup } = hashedBytes env := by
    simp only [hashedBytes, canonicalJson, dumps, EventEnvelope.unsignedDict, lower, lowerItems,
      hlower]
  rintro b hb b' hb' _
  simp only [hsame, or_self, Set.mem_ofPred_eq] at hb hb'
  exact Option.some.inj (hb.symm.trans hb')

/-- Appends of JSON objects need no assumption on SHA-256. -/
theorem noCollisions_of_jsonObjects {as : List (AppendArgs F)}
    (h : ∀ a ∈ as, JsonObject a.payload) (file : PyBytes) : NoCollisions H file as := by
  induction as generalizing file with
  | nil => trivial
  | cons a as ih =>
    have ih := fun file => ih (fun b hb => h b (List.mem_cons_of_mem _ hb)) file
    unfold NoCollisions
    cases happ : append H file a with
    | error x => exact ih file
    | ok q =>
      refine ⟨noRereadCollision_of_fromJson ?_, ih q.2⟩
      obtain ⟨_, es, _, hr, hrep | ⟨hash, payload, bytes, hw⟩⟩ := append_eq_ok happ
      · obtain ⟨⟨line, hl⟩, _⟩ := (hr.recorded .nil).of_mem hrep.recorded
        exact readEnvelope_fields (fromJson_eq_ok.mp hl).1 _ (by simp [EventEnvelope.fields])
      · obtain ⟨kvs, hk, _, hd⟩ := h a (by simp)
        rw [hw.returned]
        exact ⟨_, hk, hd⟩

/-- A produced file that verifies without its last byte, and an append that then spoils it. -/
theorem exists_lostFeed :
    ∃ file, Produced NonFinite secondHost file ∧
      verifies NonFinite secondHost (file.take (file.length - 1)) = true ∧
      appendsTo secondHost (file.take (file.length - 1)) (sampleAppend (py "e2") (py "k2"))
        (fun file' => !verifies NonFinite secondHost file') = true := by
  have hfirst : appendsTo secondHost [] (sampleAppend (py "e1") (py "k1"))
      (fun file => file == sampleLine ++ [10]) = true := by
    decide +kernel
  have hv : verifies NonFinite secondHost sampleLine = true := by
    decide +kernel
  have ha : appendsTo secondHost sampleLine (sampleAppend (py "e2") (py "k2"))
      (fun file' => !verifies NonFinite secondHost file') = true := by
    decide +kernel
  obtain ⟨env, file, happ, hfile⟩ := appendsTo_iff.mp hfirst
  have htake : file.take (file.length - 1) = sampleLine := by
    rw [beq_iff_eq.mp hfile, List.length_append, List.length_singleton, Nat.add_sub_cancel,
      List.take_left]
  rw [← htake] at hv ha
  exact ⟨file, .append .missing happ, hv, ha⟩

theorem tornSafe_iff_lostFeed :
    ∃ file, Produced NonFinite secondHost file ∧
      verifies NonFinite secondHost (file.take (file.length - 1)) = true ∧
      (TornSafe secondHost file (file.length - 1) [sampleAppend (py "e2") (py "k2")] ↔
        (decode (file.take (file.length - 1))).isSome = true ∧
          ((∃ r : VerificationReport NonFinite,
            verify secondHost (file.take (file.length - 1)) = .ok r ∧ r.ok = true) →
            AllSound secondHost (file.take (file.length - 1))
              [sampleAppend (py "e2") (py "k2")])) := by
  obtain ⟨file, hprod, hv, _⟩ := exists_lostFeed
  have hobj : ∀ a ∈ [sampleAppend (py "e2") (py "k2")], JsonObject a.payload := by
    intro a ha
    rw [List.mem_singleton.mp ha]
    exact jsonObject_empty
  exact ⟨file, hprod, hv, tornSafe_iff hprod _ _ (noCollisions_of_jsonObjects hobj _)⟩

/-- A cut may lose no more than the last line feed: the prefix verifies, and the next event
goes on in the line of the last one. -/
theorem not_tornSafe_lostFeed :
    ¬∀ (H : Host) (file : PyBytes) (n : ℕ) (as : List (AppendArgs NonFinite)),
      Produced NonFinite H file → TornSafe H file n as := by
  intro hall
  obtain ⟨file, hprod, hv, ha⟩ := exists_lostFeed
  obtain ⟨r, hr, hok⟩ := verifies_iff.mp hv
  obtain ⟨env, file', happ, hbad⟩ := appendsTo_iff.mp ha
  rcases hall _ _ (file.length - 1) [sampleAppend (py "e2") (py "k2")] hprod with
    ⟨r', hr', hbad'⟩ | ⟨_, es, _, _, _, _, hkeep⟩
  · rw [hr] at hr'
    cases hr'
    rw [hok] at hbad'
    cases hbad'
  · simp only [KeepsReading, happ] at hkeep
    obtain ⟨⟨es', hes', _⟩, _⟩ := hkeep
    rw [verifies_iff.mpr ⟨_, verify_ok_iff.mpr ⟨es', hes', rfl⟩⟩] at hbad
    cases hbad

end LedgerTornWrite
