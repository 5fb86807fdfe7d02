import VeriMat.LedgerLines
import VeriMat.LedgerTamper

/-! # Appending to a ledger

`append` checks less than the reader does: it does not look for the event id among the
recorded events, and it does not ask whether the last line of the file was ended. What a
file reads to after an append is decided by these two. -/
namespace LedgerAppend

open PyText JsonText PyValue Events Ledger DurablePayload EnvelopeRoundTrip LedgerChain
open LedgerTamper LedgerLines

variable {F : Type} [PyFloat F] {H : Host}

/-! ## What an append returns -/

/-- The idempotency key is on record. -/
def KeyRecorded (es : List (EventEnvelope F)) (a : AppendArgs F) : Prop :=
  ∃ e ∈ es, isStr e.idempotencyKey a.idempotencyKey = true

/-- A replay returns the recorded event with the same semantics and writes nothing. -/
structure Replayed (file : PyBytes) (a : AppendArgs F) (es : List (EventEnvelope F))
    (env : EventEnvelope F) (file' : PyBytes) : Prop where
  recorded : env ∈ es
  key : isStr env.idempotencyKey a.idempotencyKey = true
  semantic : ∃ s, a.semantic = .ok s ∧ envelopeSemantic env = .ok s
  unchanged : file' = file

/-- A new event is validated and written behind the last byte of the file. -/
structure Wrote (H : Host) (file : PyBytes) (a : AppendArgs F) (es : List (EventEnvelope F))
    (env : EventEnvelope F) (file' : PyBytes) (hash : PyStr) (payload : Json F)
    (bytes : PyBytes) : Prop where
  newKey : ¬KeyRecorded es a
  lowered : lower a.payload = .ok payload
  returned : env = (a.buildArgs es).envelope hash
  valid : env.validate H = .ok ()
  encoded : encode (render (.obj (lineMembers (a.buildArgs es) hash payload)) ++ [10]) = some bytes
  grown : file' = file ++ bytes

theorem writeNew_eq_ok {file : PyBytes} {a : AppendArgs F} {es : List (EventEnvelope F)}
    {env : EventEnvelope F} {file' : PyBytes} (hkey : ¬KeyRecorded es a)
    (h : writeNew H file a es = .ok (env, file')) :
    ∃ hash payload bytes, Wrote H file a es env file' hash payload bytes := by
  unfold writeNew at h
  cases hb : EventEnvelope.build H (a.buildArgs es) with
  | error x => simp [hb] at h
  | ok e =>
    obtain ⟨hash, _, rfl, hv⟩ := build_eq_ok.mp hb
    obtain ⟨payload, hp⟩ := payload_lower hv
    simp only [hb, toJson_envelope hp hv] at h
    cases he : encode (render (.obj (lineMembers (a.buildArgs es) hash payload)) ++ [10]) with
    | none => simp [he] at h
    | some bytes =>
      simp only [he, Except.ok.injEq, Prod.mk.injEq] at h
      obtain ⟨rfl, rfl⟩ := h
      exact ⟨hash, payload, bytes, hkey, hp, rfl, hv, he, rfl⟩

/-- An append that returns has read the file, and either replays or writes. -/
theorem append_eq_ok {file : PyBytes} {a : AppendArgs F} {env : EventEnvelope F}
    {file' : PyBytes} (h : append H file a = .ok (env, file')) :
    ∃ text es, decode file = some text ∧ Reads H [] (lines text) es ∧
      (Replayed file a es env file' ∨
        ∃ hash payload bytes, Wrote H file a es env file' hash payload bytes) := by
  unfold append at h
  cases hl : loadLocked (F := F) H lines file with
  | error x => simp [hl] at h
  | ok es =>
    obtain ⟨text, ht, hr⟩ := loadLocked_eq_ok.mp hl
    refine ⟨text, es, ht, hr, ?_⟩
    cases hs : a.semantic with
    | error x => simp [hl, hs] at h
    | ok semantic =>
      simp only [hl, hs] at h
      cases hf : es.find? fun e => isStr e.idempotencyKey a.idempotencyKey with
      | some existing =>
        left
        rw [hf] at h
        cases hes : envelopeSemantic existing with
        | error x => simp [hes] at h
        | ok s =>
          simp only [hes] at h
          split_ifs at h with heq
          cases h
          have hk := List.find?_some hf
          exact ⟨List.mem_of_find?_eq_some hf, hk, ⟨_, hs, heq ▸ hes⟩, rfl⟩
      | none =>
        right
        have hkey : ¬KeyRecorded es a := by
          rintro ⟨e, he, hk⟩
          exact List.find?_eq_none.mp hf e he hk
        rw [hf] at h
        cases hx : a.expectedHead with
        | none =>
          rw [hx] at h
          exact writeNew_eq_ok hkey h
        | some expected =>
          simp only [hx] at h
          split_ifs at h
          exact writeNew_eq_ok hkey h

/-! ## What is read afterwards -/

/-- The text behind the last line end of either kind. -/
def lastLine (s : PyStr) : PyStr := (s.reverse.takeWhile fun c => c != 10 && c != 13).reverse

theorem tailOf_feed (s : PyStr) : tailOf (s.map feed) = lastLine s := by
  have hfun : ((· != 10) ∘ feed : ℕ → Bool) = fun c => c != 10 && c != 13 := by
    funext c
    unfold Function.comp feed
    split_ifs with h
    · subst h; rfl
    · simp [h]
  rw [tailOf, lastLine, ← List.map_reverse, List.takeWhile_map, hfun, ← List.map_reverse]
  refine map_feed_of_notMem fun h => ?_
  have := List.all_eq_true.mp List.all_takeWhile 13 (List.mem_reverse.mp h)
  cases this

/-- A line that goes on behind the last line end is read as one with what stands there. -/
theorem reads_line_behind {s l : PyStr} (hl : 10 ∉ l) {es : List (EventEnvelope F)}
    (h : Reads H [] (lines s) es) (es₂ : List (EventEnvelope F)) :
    ∃ es₁, Reads H [] (lines (headOf s)) es₁ ∧ Reads H es₁ (lines (tailOf s)) es ∧
      (Reads H [] (lines (s ++ (l ++ [10]))) es₂ ↔
        Reads H es₁ [tailOf s ++ l ++ [10]] es₂) := by
  have hs := headOf_append_tailOf s
  have hend := headOf_endsLine s
  rw [← hs, lines_append hend] at h
  obtain ⟨es₁, h₁, h₂⟩ := h.append_inv
  have htail : 10 ∉ tailOf s ++ l := by simp [tailOf_noFeed, hl]
  have hlines : lines (s ++ (l ++ [10])) = lines (headOf s) ++ [tailOf s ++ l ++ [10]] := by
    conv_lhs => rw [← hs]
    have := lines_terminated htail []
    rw [lines_nil] at this
    rw [List.append_assoc, lines_append hend, ← List.append_assoc, this]
  refine ⟨es₁, h₁, h₂, ?_⟩
  rw [hlines]
  constructor
  · intro hr
    obtain ⟨es₃, h₃, h₄⟩ := hr.append_inv
    rwa [h₁.det h₃]
  · exact h₁.append

theorem reads_singleton {l : PyStr} (hl : isBlank l = false) {es es₂ : List (EventEnvelope F)} :
    Reads H es [l] es₂ ↔
      ∃ e, EventEnvelope.fromJson H l = .ok e ∧ Admits es e ∧ es₂ = es ++ [e] := by
  constructor
  · intro h
    cases h with
    | blank hb _ => rw [hl] at hb; cases hb
    | event _ hf ha h =>
      cases h
      exact ⟨_, hf, ha, rfl⟩
  · rintro ⟨e, hf, ha, rfl⟩
    exact .event hl hf ha .done

/-- A written line is read behind white space only, and as the re-read envelope. -/
theorem reads_written {s : PyStr} {es es₂ : List (EventEnvelope F)} {a : BuildArgs F}
    {hash : PyStr} {payload : Json F} (hp : payload.Finite) (h : Reads H [] (lines s) es) :
    Reads H [] (lines (s ++ (render (.obj (lineMembers a hash payload)) ++ [10]))) es₂ ↔
      (∀ c ∈ tailOf s, isWs c = true) ∧ (reread a hash payload).validate H = .ok () ∧
        Admits es (reread a hash payload) ∧ es₂ = es ++ [reread a hash payload] := by
  have hfin : (Json.obj (lineMembers a hash payload)).Finite := finite_lineMembers hp
  have hobj := objectText_render hfin
  generalize hline : render (.obj (lineMembers a hash payload)) = line at *
  have hfeed : 10 ∉ line := hline ▸ (render_noFeed hfin).1
  have hstart : ∃ b, line = 123 :: b := hline ▸ ⟨_, rfl⟩
  obtain ⟨b, hb⟩ := hstart
  obtain ⟨es₁, h₁, h₂, hiff⟩ := reads_line_behind hfeed h es₂
  have hblank : isBlank (tailOf s ++ line ++ [10]) = false := by
    simp [isBlank, hb, isSpace]
  rw [hiff, reads_singleton hblank]
  constructor
  · rintro ⟨e, hf, ha, rfl⟩
    obtain ⟨v, hv, _⟩ := fromJson_objectText hf
    have hws : ∀ c ∈ tailOf s, isWs c = true := by
      by_cases ht : isBlank (tailOf s) = true
      · rw [List.append_assoc] at hv
        exact (hv.of_append (List.all_eq_true.mp ht)).1
      · have hne : tailOf s ≠ [] := fun hn => ht (by rw [hn]; rfl)
        rw [lines_unterminated (tailOf_noFeed s) hne,
          reads_singleton (by simpa using ht)] at h₂
        obtain ⟨e', hf', _, _⟩ := h₂
        obtain ⟨w, hw, _⟩ := fromJson_objectText hf'
        rw [List.append_assoc] at hv
        have hnil := (hw.append hv).2
        rw [hb, List.cons_append, skipWs_cons (by rfl)] at hnil
        cases hnil
    have hread : readEnvelope (tailOf s ++ (line ++ [10])) = some (reread a hash payload) := by
      rw [← hline]
      exact readEnvelope_padded hp hws (by simp [isWs])
    obtain ⟨hr, hval⟩ := fromJson_eq_ok.mp hf
    rw [List.append_assoc, hread] at hr
    cases hr
    have hes : es = es₁ := (reads_blank_text (List.all_eq_true.mpr fun c hc =>
      isSpace_of_isWs (hws c hc))).mp h₂
    exact ⟨hws, hval, hes ▸ ha, hes ▸ rfl⟩
  · rintro ⟨hws, hval, ha, rfl⟩
    have hread : readEnvelope (tailOf s ++ (line ++ [10])) = some (reread a hash payload) := by
      rw [← hline]
      exact readEnvelope_padded hp hws (by simp [isWs])
    have hes : es = es₁ := (reads_blank_text (List.all_eq_true.mpr fun c hc =>
      isSpace_of_isWs (hws c hc))).mp h₂
    refine ⟨_, fromJson_eq_ok.mpr ⟨?_, hval⟩, hes ▸ ha, hes ▸ rfl⟩
    rw [List.append_assoc]
    exact hread

theorem pyEq_str {v : PyVal F} {s : PyStr} : pyEq v (.str s) = isStr v s := by
  cases v <;> simp [pyEq, isStr, numberOf, sameNumber]

/-- The loader admits a new event unless its id is on record. -/
theorem admits_reread_iff {es : List (EventEnvelope F)} {a : AppendArgs F} {hash : PyStr}
    {payload : Json F} (hkey : ¬KeyRecorded es a) :
    Admits es (reread (a.buildArgs es) hash payload) ↔
      ∀ e ∈ es, e.eventId ≠ .str a.newId := by
  have hid : ∀ e : EventEnvelope F, pyEq e.eventId (.str a.newId) = false ↔
      e.eventId ≠ .str a.newId := by
    intro e
    rw [pyEq_str, ← Bool.not_eq_true, isStr_eq_true]
  constructor
  · exact fun h e he => (hid e).mp (h.freshId e he)
  · intro h
    refine ⟨?_, ?_, rfl, fun e he => (hid e).mpr (h e he), rfl, fun e he => ?_⟩
    · exact beq_self_eq_true _
    · exact beq_self_eq_true _
    · change pyEq e.idempotencyKey (.str a.idempotencyKey) = false
      rw [pyEq_str, ← Bool.not_eq_true]
      exact fun hk => hkey ⟨e, he, hk⟩

/-- What the file reads to once an append has written to it. -/
theorem events_wrote_iff {file file' : PyBytes} {a : AppendArgs F}
    {es es₂ : List (EventEnvelope F)} {env : EventEnvelope F} {hash : PyStr} {payload : Json F}
    {bytes : PyBytes} {text : PyStr} (ht : decode file = some text)
    (hes : events H file = .ok es) (hw : Wrote H file a es env file' hash payload bytes) :
    events H file' = .ok es₂ ↔
      (∀ c ∈ lastLine text, isWs c = true) ∧ (∀ e ∈ es, e.eventId ≠ .str a.newId) ∧
        (reread (a.buildArgs es) hash payload).validate H = .ok () ∧
        es₂ = es ++ [reread (a.buildArgs es) hash payload] := by
  have hp := lower_finite _ _ hw.lowered
  have hfin : (Json.obj (lineMembers (a.buildArgs es) hash payload)).Finite :=
    finite_lineMembers hp
  obtain ⟨text', ht', hr⟩ := loadLocked_eq_ok.mp hes
  rw [ht] at ht'
  cases ht'
  have hdec : decode file' =
      some (text ++ (render (.obj (lineMembers (a.buildArgs es) hash payload)) ++ [10])) := by
    rw [hw.grown, decode_append ht, decode_encode hw.encoded]
    rfl
  have hfeed : (render (.obj (lineMembers (a.buildArgs es) hash payload)) ++ [10]).map feed =
      render (.obj (lineMembers (a.buildArgs es) hash payload)) ++ [10] := by
    refine map_feed_of_notMem fun h => ?_
    simp [(render_noFeed hfin).2] at h
  rw [reads_universalLines] at hr
  rw [events, loadLocked_eq_ok, hdec]
  simp only [Option.some.injEq, exists_eq_left']
  rw [reads_universalLines, List.map_append, hfeed, reads_written hp hr, tailOf_feed,
    admits_reread_iff hw.newKey]
  tauto

/-! ## The payloads an append is documented for -/

/-- A JSON object: string keys, each once, and finite values. -/
def JsonObject (v : PyVal F) : Prop :=
  ∃ kvs, v = ofJson (.obj kvs) ∧ (Json.obj kvs).Finite ∧ (Json.obj kvs).dedup = .obj kvs

theorem asdict_congr {e : EventEnvelope F} {v w : PyVal F} (h : lower v = lower w) :
    canonicalJson ({ e with payload := v } : EventEnvelope F).asdict =
      canonicalJson ({ e with payload := w } : EventEnvelope F).asdict := by
  simp only [canonicalJson, dumps, EventEnvelope.asdict, lower, lowerItems, h]

theorem pyEq_str_self (s : PyStr) : pyEq (F := F) (.str s) (.str s) = true := by
  simp [pyEq]

theorem pyEq_int_self (n : ℤ) : pyEq (F := F) (.int n) (.int n) = true := by
  simp [pyEq, numberOf, sameNumber]

/-- The envelope with a JSON object as its payload is re-read as it was returned. -/
theorem reread_sameEvent {a : BuildArgs F} {hash : PyStr} {payload : Json F}
    (hobj : JsonObject a.payload) (hp : lower a.payload = .ok payload) :
    NamesSorted payload ∧ SameEvent (reread a hash payload) (a.envelope hash) := by
  obtain ⟨kvs, hk, hfin, hded⟩ := hobj
  rw [hk, lower_ofJson _ hfin, Except.ok.injEq] at hp
  have hsorted : NamesSorted payload := by
    have := namesSorted_sortNames_dedup (Json.obj kvs)
    rwa [hded, hp] at this
  have hself := dedup_of_sorted payload hsorted
  have hsort := sortNames_of_sorted payload hsorted
  have hpf : payload.Finite := hp ▸ finite_sortNames _ hfin
  refine ⟨hsorted, ?_, ?_⟩
  · have hpay : pyEq (ofJson payload.dedup) a.payload = true := by
      rw [hself, hk]
      exact pyEq_ofJson payload _ hpf hself hded (hsort.trans hp.symm)
    simp only [EventEnvelope.eq, EventEnvelope.fields, reread, BuildArgs.envelope,
      BuildArgs.provisional, pyEqElems, pyEq_str_self, pyEq_int_self, hpay, Bool.and_self]
  · refine asdict_congr (e := a.envelope hash) ?_
    change lower (ofJson payload.dedup) = lower a.payload
    rw [hself, hk, lower_ofJson _ hpf, hsort, lower_ofJson _ hfin, hp]

/-- A JSON object that was accepted is accepted again from its JSON. -/
theorem validate_reread_jsonObject {a : BuildArgs F} {hash : PyStr} {payload : Json F}
    (hobj : JsonObject a.payload) (hp : lower a.payload = .ok payload)
    (hv : (a.envelope hash).validate H = .ok ()) : (reread a hash payload).validate H = .ok () := by
  obtain ⟨hsorted, -⟩ : NamesSorted payload ∧ SameEvent (reread a hash payload) (a.envelope hash) :=
    reread_sameEvent hobj hp
  refine validate_reread hv hp hsorted ?_
  obtain ⟨members, hm, hnames⟩ := accepted_obj (validate_eq_ok.mp hv).2.2.2.2.1
  have hpm : payload = .obj members := Except.ok.inj (hp.symm.trans hm)
  subst hpm
  rw [dedup_of_sorted _ hsorted]
  refine (validateDurablePayload_ofJson (lower_finite _ _ hp)).mpr (hnames.mpr ?_)
  obtain ⟨kvs, hk, _⟩ := hobj
  change ∀ k ∈ hiddenKeys a.payload, _
  rw [hk, hiddenKeys_ofJson]
  simp

/-! ## Every append keeps the ledger verifiable -/

/-- What a caller is promised after an append: the file verifies, and holds the old events
and the returned one behind them, or the old events with the returned one among them. -/
structure KeepsLedger (H : Host) (a : AppendArgs F) (es : List (EventEnvelope F))
    (env : EventEnvelope F) (file' : PyBytes) : Prop where
  verifies : ∃ r : VerificationReport F, verify H file' = .ok r ∧ r.ok = true
  events : ∃ es', events H file' = .ok es' ∧
    ((∃ e, es' = es ++ [e] ∧ SameEvent e env) ∨
      (es' = es ∧ env ∈ es ∧ isStr env.idempotencyKey a.idempotencyKey = true ∧
        envelopeSemantic env = a.semantic))

/-- An append to a verified file keeps the promise exactly when it is a replay, or its event
id is not on record and nothing but spaces and tabs stands behind the last line end. -/
theorem append_keeps_ledger_iff {file file' : PyBytes} {a : AppendArgs F}
    {r : VerificationReport F} {env : EventEnvelope F} (hv : verify H file = .ok r)
    (hok : r.ok = true) (hobj : JsonObject a.payload)
    (happ : append H file a = .ok (env, file')) :
    ∃ text es, decode file = some text ∧ events H file = .ok es ∧
      (KeepsLedger H a es env file' ↔
        KeyRecorded es a ∨
          (∀ e ∈ es, e.eventId ≠ .str a.newId) ∧ ∀ c ∈ lastLine text, isWs c = true) := by
  obtain ⟨es, hes, -⟩ := verify_ok_iff.mp ⟨hv, hok⟩
  obtain ⟨text, es₁, ht, hr, hcase⟩ := append_eq_ok happ
  obtain ⟨text', ht', hr'⟩ := loadLocked_eq_ok.mp hes
  rw [ht] at ht'
  cases ht'
  obtain rfl := reads_agree hr hr'
  refine ⟨text, es₁, ht, hes, ?_⟩
  rcases hcase with hrep | ⟨hash, payload, bytes, hw⟩
  · refine iff_of_true ⟨?_, es₁, ?_, Or.inr ⟨rfl, hrep.recorded, hrep.key, ?_⟩⟩
      (Or.inl ⟨env, hrep.recorded, hrep.key⟩)
    · exact ⟨r, hrep.unchanged ▸ hv, hok⟩
    · exact hrep.unchanged ▸ hes
    · obtain ⟨s, hs, hs'⟩ := hrep.semantic
      exact hs'.trans hs.symm
  · have hiff := fun es₂ => (events_wrote_iff ht hes hw : events H file' = .ok es₂ ↔ _)
    constructor
    · intro hk
      obtain ⟨es₂, he₂, _⟩ := hk.events
      obtain ⟨hws, hid, _, _⟩ := (hiff es₂).mp he₂
      exact Or.inr ⟨hid, hws⟩
    · rintro (hkey | ⟨hid, hws⟩)
      · exact absurd hkey hw.newKey
      · have hvalid : ((a.buildArgs es₁).envelope hash).validate H = .ok () := hw.returned ▸ hw.valid
        have hval := validate_reread_jsonObject hobj hw.lowered hvalid
        have he₂ := (hiff _).mpr ⟨hws, hid, hval, rfl⟩
        refine ⟨⟨_, verify_ok_iff.mpr ⟨_, he₂, rfl⟩⟩, _, he₂, Or.inl ⟨_, rfl, ?_⟩⟩
        rw [hw.returned]
        exact (reread_sameEvent hobj hw.lowered).2

/-! ## Two appends -/

/-- `verify` reports the file sound. -/
def verifies (F : Type) [PyFloat F] (H : Host) (file : PyBytes) : Bool :=
  match verify (F := F) H file with
  | .ok r => r.ok
  | .error _ => false

theorem verifies_iff {file : PyBytes} :
    verifies F H file = true ↔
      ∃ r : VerificationReport F, verify H file = .ok r ∧ r.ok = true := by
  unfold verifies
  cases verify (F := F) H file <;> simp

/-- The append succeeds and leaves a file with this property. -/
def appendsTo (H : Host) (file : PyBytes) (a : AppendArgs F) (p : PyBytes → Bool) : Bool :=
  match append H file a with
  | .ok (_, file') => p file'
  | .error _ => false

theorem appendsTo_iff {file : PyBytes} {a : AppendArgs F} {p : PyBytes → Bool} :
    appendsTo H file a p = true ↔ ∃ env file', append H file a = .ok (env, file') ∧ p file' = true := by
  unfold appendsTo
  cases append H file a with
  | error x => simp
  | ok q => simp [Prod.ext_iff]

/-- The append of an event under this id and idempotency key. -/
def sampleAppend (eventId key : PyStr) : AppendArgs NonFinite where
  tenantId := py "t"
  jobId := py "j"
  aggregateType := py "job"
  aggregateId := py "j"
  eventType := py "created"
  payload := .dict []
  idempotencyKey := key
  eventId := some eventId
  occurredAt := some (py "2026-01-01T00:00:00+00:00")
  expectedHead := none
  uuid := []
  now := []

theorem jsonObject_empty : JsonObject (F := F) (.dict []) :=
  ⟨[], rfl, trivial, rfl⟩

theorem append_keeps_ledger_iff_first :
    ∃ env file' text es, append sampleHost [] (sampleAppend (py "e1") (py "k1")) =
        .ok (env, file') ∧ decode [] = some text ∧ events sampleHost [] = .ok es ∧
      (KeepsLedger sampleHost (sampleAppend (py "e1") (py "k1")) es env file' ↔
        KeyRecorded es (sampleAppend (py "e1") (py "k1")) ∨
          (∀ e ∈ es, e.eventId ≠ .str (sampleAppend (py "e1") (py "k1")).newId) ∧
            ∀ c ∈ lastLine text, isWs c = true) := by
  have h : appendsTo sampleHost [] (sampleAppend (py "e1") (py "k1")) (fun _ => true) = true := by
    decide +kernel
  obtain ⟨env, file', happ, _⟩ := appendsTo_iff.mp h
  obtain ⟨text, es, ht, hes, hiff⟩ :=
    append_keeps_ledger_iff (r := ⟨true, 0, [], none⟩) rfl rfl jsonObject_empty happ
  exact ⟨env, file', text, es, happ, ht, hes, hiff⟩

/-- The second event of a ledger, under this id. -/
def secondArgs (eventId : PyStr) : BuildArgs NonFinite :=
  { sampleArgs with
    sequence := 2
    eventId := eventId
    idempotencyKey := py "k2"
    previousHash := sampleHash }

/-- SHA-256 on the first event, and on the second one under two ids. -/
def secondHost : Host where
  sha256 b :=
    if b = render (.obj (unsignedMembers (secondArgs (py "e1")) (.obj []))) then
      py "be3b9770af2dcaaf6b3388030c35bc4104ca9cc9a7ce35a2dcb200d53223f4d2"
    else if b = render (.obj (unsignedMembers (secondArgs (py "e2")) (.obj []))) then
      py "6e34f217ed8f19b39e54169b33280ca3038f94e59b18fd6c7e4baa75293c5ecc"
    else sampleHost.sha256 b
  fromisoformat := sampleHost.fromisoformat

/-- A second event under the id of the first is written and can never be read. -/
theorem not_append_keeps_ledger_duplicateId :
    ¬∀ (H : Host) (file file' : PyBytes) (a : AppendArgs NonFinite)
      (r : VerificationReport NonFinite) (es : List (EventEnvelope NonFinite))
      (env : EventEnvelope NonFinite), verify H file = .ok r → r.ok = true →
        events H file = .ok es → JsonObject a.payload → append H file a = .ok (env, file') →
          KeepsLedger H a es env file' := by
  intro hall
  have hv : verifies NonFinite secondHost (sampleLine ++ [10]) = true := by
    decide +kernel
  have ha : appendsTo secondHost (sampleLine ++ [10]) (sampleAppend (py "e1") (py "k2"))
      (fun file' => !verifies NonFinite secondHost file') = true := by
    decide +kernel
  obtain ⟨r, hr, hok⟩ := verifies_iff.mp hv
  obtain ⟨es, hes, _⟩ := verify_ok_iff.mp ⟨hr, hok⟩
  obtain ⟨env, file', happ, hbad⟩ := appendsTo_iff.mp ha
  obtain ⟨r', hr', hok'⟩ :=
    (hall _ _ _ _ _ _ _ hr hok hes jsonObject_empty happ).verifies
  rw [verifies_iff.mpr ⟨r', hr', hok'⟩] at hbad
  cases hbad

end LedgerAppend
