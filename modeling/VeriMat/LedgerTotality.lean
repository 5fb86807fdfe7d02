import VeriMat.LedgerTamper

/-! # When verification answers

`verify` turns integrity errors into a report. The checks of an event take its fields for what
their annotations say, so a field of another type, or content without a canonical text, can
raise something else; so can bytes that are not UTF-8. `Orderly` says when none of this
happens. -/
namespace LedgerTotality

open PyText JsonText PyValue Events Ledger LedgerChain EnvelopeRoundTrip LedgerTamper

variable {F : Type} [PyFloat F] {H : Host}

/-! ## Bytes that are not UTF-8 -/

/-- The text of the longest beginning of a file that can be decoded. -/
def decodePrefix (file : PyBytes) : PyStr :=
  ((List.range (file.length + 1)).reverse.findSome? fun n => decode (file.take n)).getD []

/-- The lines the loop sees. A text file decodes a buffer at a time, so before bytes that are not
UTF-8 it hands out the lines of the buffers before theirs, however many these are. -/
def handedLines (handed : ℕ) (file : PyBytes) : List PyStr :=
  match decode file with
  | some text => universalLines text
  | none => (universalLines (decodePrefix file)).take handed

/-- `EventLedger.events` on a file whose text layer hands out so many lines. -/
def eventsBuffered (H : Host) (handed : ℕ) (file : PyBytes) :
    Except (LedgerError F) (List (EventEnvelope F)) :=
  match loadLines H [] 1 (handedLines handed file) with
  | .error x => .error x
  | .ok es => if (decode file).isSome then .ok es else .error .unicodeDecodeError

/-- `EventLedger.verify`, likewise. -/
def verifyBuffered (H : Host) (handed : ℕ) (file : PyBytes) :
    Except (LedgerError F) (VerificationReport F) :=
  match eventsBuffered H handed file with
  | .ok es => .ok ⟨true, es.length, headHash es, none⟩
  | .error (.integrity issue) => .ok ⟨false, 0, [], some issue⟩
  | .error e => .error e

/-- An exception `_load_locked` does not translate. -/
def Untranslated (x : LedgerError F) : Prop := ∀ issue, x ≠ .integrity issue

/-- The first checks of `validate` pass. -/
structure Named (e : EventEnvelope F) : Prop where
  schemaVersion : equalsInt e.schemaVersion 1 = true
  sequence : lessThanInt e.sequence 1 = some false
  fields : ∀ p ∈ e.requiredFields, isBlankField p.2 = false

/-- So do those of the time and of the payload. -/
structure Dated (H : Host) (e : EventEnvelope F) : Prop extends Named e where
  occurredAt : checkOccurredAt H e.occurredAt = .ok ()
  payload : validateDurablePayload e.payload (py "payload") = .ok ()

/-- So does that of the previous hash. -/
structure Chained (H : Host) (e : EventEnvelope F) : Prop extends Dated H e where
  previousHash : checkPreviousHash e.previousHash = .ok ()

/-- The first value the checks come to that they cannot take is of this kind. -/
inductive Escapes (H : Host) (es : List (EventEnvelope F)) (e : EventEnvelope F) : Prop where
  | sequence (hschema : equalsInt e.schemaVersion 1 = true) (h : lessThanInt e.sequence 1 = none)
  | occurredAt (hnamed : Named e) (h : ∀ s, e.occurredAt ≠ .str s)
  | previousHash (hdated : Dated H e) (htruthy : truthy e.previousHash = true)
      (h : ∀ s, e.previousHash ≠ .str s)
  | eventHash (hchained : Chained H e) (h : ∀ s, e.eventHash ≠ .str s)
  | content (hchained : Chained H e) (hash : PyStr) (hhash : e.eventHash = .str hash)
      (hformat : isHash hash = true) (h : hashedBytes e = none)
  | eventId (hvalid : e.validate H = .ok ())
      (hsequence : equalsInt e.sequence (es.length + 1 : ℕ) = true)
      (hprevious : isStr e.previousHash (headHash es) = true) (h : hashable e.eventId = false)
  | idempotencyKey (hvalid : e.validate H = .ok ())
      (hsequence : equalsInt e.sequence (es.length + 1 : ℕ) = true)
      (hprevious : isStr e.previousHash (headHash es) = true) (hid : hashable e.eventId = true)
      (hfresh : ∀ x ∈ es, pyEq x.eventId e.eventId = false)
      (h : hashable e.idempotencyKey = false)

/-! ## The checks one by one -/

omit [PyFloat F] in
theorem checkOccurredAt_of_not_str {v : PyVal F} (h : ∀ s, v ≠ .str s) :
    checkOccurredAt H v = .error .attributeError := by
  cases v with
  | str s => exact absurd rfl (h s)
  | _ => rfl

theorem checkPreviousHash_of_not_str {v : PyVal F} (htruthy : truthy v = true)
    (h : ∀ s, v ≠ .str s) : checkPreviousHash v = .error .typeError := by
  unfold checkPreviousHash
  rw [if_pos htruthy]
  cases v with
  | str s => exact absurd rfl (h s)
  | _ => rfl

/-- Only content without a canonical UTF-8 text has no digest. -/
theorem calculatedHash_error {e : EventEnvelope F} {x : EventError}
    (h : e.calculatedHash H = .error x) :
    hashedBytes e = none ∧ ∀ issue, x ≠ .validation issue := by
  unfold EventEnvelope.calculatedHash contentHash at h
  unfold hashedBytes
  cases ht : canonicalJson e.unsignedDict with
  | error cause =>
    rw [ht] at h
    cases h
    refine ⟨rfl, fun issue => ?_⟩
    cases cause <;> simp [JsonError.raised]
  | ok text =>
    cases hb : encode text with
    | none =>
      simp only [ht, hb, Except.error.injEq] at h
      exact ⟨hb, fun issue => by simp [← h]⟩
    | some bytes => simp [ht, hb] at h

theorem calculatedHash_of_none {e : EventEnvelope F} (h : hashedBytes e = none) :
    ∃ x, e.calculatedHash H = .error x := by
  cases hc : e.calculatedHash H with
  | error x => exact ⟨x, rfl⟩
  | ok hash =>
    obtain ⟨bytes, hb, _⟩ := calculatedHash_eq_ok hc
    rw [h] at hb
    cases hb

/-- What the loop does with a line that is not blank. -/
def takeLine (H : Host) (es : List (EventEnvelope F)) (n : ℕ) (raw : PyStr) :
    Except (LedgerError F) (EventEnvelope F) :=
  match EventEnvelope.fromJson H raw with
  | .error (.validation issue) => .error (.integrity (.event n issue))
  | .error e => .error (.event e)
  | .ok e =>
    match checkEvent es n e with
    | .error x => .error x
    | .ok () => .ok e

theorem takeLine_invalid {es : List (EventEnvelope F)} {n : ℕ} {raw : PyStr} {e : EventEnvelope F}
    {x : EventError} (he : readEnvelope raw = some e) (hv : e.validate H = .error x)
    (hx : ∀ issue, x ≠ .validation issue) : takeLine H es n raw = .error (.event x) := by
  have hf : EventEnvelope.fromJson (F := F) H raw = .error x := by
    rw [EventEnvelope.fromJson, he]
    simp only [bind, Except.bind, hv]
  unfold takeLine
  rw [hf]
  cases x with
  | validation issue => exact absurd rfl (hx issue)
  | _ => rfl

theorem takeLine_valid {es : List (EventEnvelope F)} {n : ℕ} {raw : PyStr} {e : EventEnvelope F}
    (he : readEnvelope raw = some e) (hv : e.validate H = .ok ()) :
    takeLine H es n raw =
      match checkEvent es n e with
      | .error x => .error x
      | .ok () => .ok e := by
  unfold takeLine
  rw [fromJson_eq_ok.mpr ⟨he, hv⟩]

/-- The reasons are those for which a check raises. -/
theorem Escapes.takeLine {es : List (EventEnvelope F)} {n : ℕ} {raw : PyStr} {e : EventEnvelope F}
    (h : Escapes H es e) (he : readEnvelope raw = some e) :
    ∃ x, takeLine H es n raw = .error x ∧ Untranslated x := by
  have hinvalid : ∀ x : EventError, e.validate H = .error x → (∀ issue, x ≠ .validation issue) →
      ∃ x, LedgerTotality.takeLine H es n raw = .error x ∧ Untranslated x :=
    fun x hv hx => ⟨.event x, takeLine_invalid he hv hx, fun _ => by simp⟩
  have hnamed : Named e → e.validate H = (do
      checkOccurredAt H e.occurredAt
      validateDurablePayload e.payload (py "payload")
      checkPreviousHash e.previousHash
      checkEventHash H e) := by
    intro hn
    have hfields : (e.requiredFields.find? fun p => isBlankField p.2) = none :=
      List.find?_eq_none.mpr fun p hp => by simp [hn.fields p hp]
    unfold EventEnvelope.validate
    simp only [hn.schemaVersion, Bool.not_true, Bool.false_eq_true, if_false, hn.sequence, hfields]
  cases h with
  | sequence hschema hsequence =>
    refine hinvalid .typeError ?_ fun _ => by simp
    unfold EventEnvelope.validate
    simp only [hschema, Bool.not_true, Bool.false_eq_true, if_false, hsequence]
  | occurredAt hn hstr =>
    refine hinvalid .attributeError ?_ fun _ => by simp
    rw [hnamed hn, checkOccurredAt_of_not_str hstr]
    rfl
  | previousHash hd htruthy hstr =>
    refine hinvalid .typeError ?_ fun _ => by simp
    rw [hnamed hd.toNamed, hd.occurredAt, hd.payload, checkPreviousHash_of_not_str htruthy hstr]
    rfl
  | eventHash hc hstr =>
    refine hinvalid .typeError ?_ fun _ => by simp
    have hhash : checkEventHash H e = .error .typeError := by
      unfold checkEventHash
      cases heq : e.eventHash with
      | str s => exact absurd heq (hstr s)
      | _ => rfl
    rw [hnamed hc.toNamed, hc.occurredAt, hc.payload, hc.previousHash, hhash]
    rfl
  | content hc hash hs hformat hnone =>
    obtain ⟨x, hx⟩ := calculatedHash_of_none (H := H) hnone
    refine hinvalid x ?_ (calculatedHash_error hx).2
    have hhash : checkEventHash H e = .error x := by
      unfold checkEventHash
      simp only [hs, hformat, if_true, hx]
    rw [hnamed hc.toNamed, hc.occurredAt, hc.payload, hc.previousHash, hhash]
    rfl
  | eventId hvalid hsequence hprevious hid =>
    refine ⟨.typeError, ?_, fun _ => by simp⟩
    rw [takeLine_valid he hvalid, checkEvent]
    simp only [hsequence, hprevious, hid, Bool.not_true, Bool.not_false, Bool.false_eq_true,
      if_false, if_true]
  | idempotencyKey hvalid hsequence hprevious hid hfresh hkey =>
    refine ⟨.typeError, ?_, fun _ => by simp⟩
    have hnew : es.any (fun x => pyEq x.eventId e.eventId) = false := by simpa using hfresh
    rw [takeLine_valid he hvalid, checkEvent]
    simp only [hsequence, hprevious, hid, hnew, hkey, Bool.not_true, Bool.not_false,
      Bool.false_eq_true, if_false, if_true]

/-- No line that is reached behind valid ones has a value its checks cannot take. -/
def AllTaken (H : Host) (es : List (EventEnvelope F)) (lines : List PyStr) : Prop :=
  ∀ before raw after es' e, lines = before ++ raw :: after → Reads H es before es' →
    isBlank raw = false → readEnvelope raw = some e → ¬Escapes H es' e

/-- The file holds a chain of events. -/
def ValidChain (F : Type) [PyFloat F] (H : Host) (file : PyBytes) : Prop :=
  ∃ text, decode file = some text ∧ ∃ es : List (EventEnvelope F), Reads H [] (universalLines text) es

/-- Verification returns a report, and not a good one of what is no chain. -/
def Answers (F : Type) [PyFloat F] (H : Host) (handed : ℕ) (file : PyBytes) : Prop :=
  ∃ r : VerificationReport F, verifyBuffered H handed file = .ok r ∧
    (¬ValidChain F H file → r.ok = false)

/-- The loop stops at a line it refuses before it meets bytes that are not UTF-8, and no line it
reaches has a value the checks cannot take. -/
structure Orderly (F : Type) [PyFloat F] (H : Host) (handed : ℕ) (file : PyBytes) : Prop where
  encoded : (decode file).isSome = true ∨
    ¬∃ es : List (EventEnvelope F), Reads H [] (handedLines handed file) es
  taken : AllTaken (F := F) H [] (handedLines handed file)

end LedgerTotality
