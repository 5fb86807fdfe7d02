import VeriMat.Ledger
import VeriMat.HashChain
import VeriMat.EnvelopeRoundTrip

/-! # Loaded ledgers

What `_load_locked` promises about the events it returns, whichever way the file was split
into lines: each of them was read from a line, is valid, and was admitted behind the events
before it, so that the events form a hash chain. -/
namespace LedgerChain

open PyText JsonText PyValue Events Ledger EnvelopeRoundTrip

variable {F : Type} [PyFloat F]

/-! ## One event -/

/-- The checks of the loader on an event behind the events already read. -/
structure Admits (es : List (EventEnvelope F)) (e : EventEnvelope F) : Prop where
  sequence : equalsInt e.sequence (es.length + 1 : ℕ) = true
  previousHash : isStr e.previousHash (headHash es) = true
  hashableId : hashable e.eventId = true
  freshId : ∀ x ∈ es, pyEq x.eventId e.eventId = false
  hashableKey : hashable e.idempotencyKey = true
  freshKey : ∀ x ∈ es, pyEq x.idempotencyKey e.idempotencyKey = false

theorem checkEvent_eq_ok {es : List (EventEnvelope F)} {n : ℕ} {e : EventEnvelope F} :
    checkEvent es n e = .ok () ↔ Admits es e := by
  unfold checkEvent
  constructor
  · intro h
    split_ifs at h with h₁ h₂ h₃ h₄ h₅ h₆
    exact ⟨by simpa using h₁, by simpa using h₂, by simpa using h₃, by simpa using h₄,
      by simpa using h₅, by simpa using h₆⟩
  · intro h
    have hid : es.any (fun x => pyEq x.eventId e.eventId) = false := by
      simpa using h.freshId
    have hkey : es.any (fun x => pyEq x.idempotencyKey e.idempotencyKey) = false := by
      simpa using h.freshKey
    simp only [h.sequence, h.previousHash, h.hashableId, hid, h.hashableKey, hkey,
      Bool.not_true, Bool.false_eq_true, if_false]

/-! ## A run over lines -/

/-- The successful runs of the loader: the line numbers matter to its errors only. -/
inductive Reads (H : Host) :
    List (EventEnvelope F) → List PyStr → List (EventEnvelope F) → Prop where
  | done {es} : Reads H es [] es
  | blank {es raw rest es'} : isBlank raw = true → Reads H es rest es' →
      Reads H es (raw :: rest) es'
  | event {es raw rest es' e} : isBlank raw = false → EventEnvelope.fromJson H raw = .ok e →
      Admits es e → Reads H (es ++ [e]) rest es' → Reads H es (raw :: rest) es'

theorem loadLines_eq_ok {H : Host} {es : List (EventEnvelope F)} {n : ℕ} {ls : List PyStr}
    {es' : List (EventEnvelope F)} :
    loadLines H es n ls = .ok es' ↔ Reads H es ls es' := by
  constructor
  · intro h
    induction ls generalizing es n with
    | nil =>
      cases h
      exact .done
    | cons raw rest ih =>
      unfold loadLines at h
      split at h
      · exact .blank (by assumption) (ih h)
      · rename_i hb
        cases hf : EventEnvelope.fromJson (F := F) H raw with
        | error x => cases x <;> simp [hf] at h
        | ok e =>
          rw [hf] at h
          cases ha : checkEvent es n e with
          | error x => simp [ha] at h
          | ok u =>
            simp only [ha] at h
            exact .event (by simpa using hb) hf (checkEvent_eq_ok.mp ha) (ih h)
  · intro h
    induction h generalizing n with
    | done => rfl
    | blank hb _ ih => rw [loadLines, if_pos hb, ih]
    | event hb hf ha _ ih =>
      rw [loadLines, if_neg (by simp [hb]), hf]
      simp only [checkEvent_eq_ok.mpr ha, ih]

/-- Lines that were read can be taken off the front of a run. -/
theorem loadLines_append {H : Host} {es₀ es₁ : List (EventEnvelope F)} {ls : List PyStr}
    (h : Reads H es₀ ls es₁) (n : ℕ) (ls' : List PyStr) :
    ∃ m, loadLines H es₀ n (ls ++ ls') = loadLines H es₁ m ls' := by
  induction h generalizing n with
  | done => exact ⟨n, rfl⟩
  | blank hb _ ih =>
    obtain ⟨m, hm⟩ := ih (n + 1)
    exact ⟨m, by rw [List.cons_append, loadLines, if_pos hb, hm]⟩
  | event hb hf ha _ ih =>
    obtain ⟨m, hm⟩ := ih (n + 1)
    refine ⟨m, ?_⟩
    rw [List.cons_append, loadLines, if_neg (by simp [hb]), hf]
    simp only [checkEvent_eq_ok.mpr ha, hm]

theorem Reads.append {H : Host} {es₀ es₁ es₂ : List (EventEnvelope F)} {ls ls' : List PyStr}
    (h : Reads H es₀ ls es₁) (h' : Reads H es₁ ls' es₂) : Reads H es₀ (ls ++ ls') es₂ := by
  induction h with
  | done => exact h'
  | blank hb _ ih => exact .blank hb (ih h')
  | event hb hf ha _ ih => exact .event hb hf ha (ih h')

theorem Reads.append_inv {H : Host} {es₀ es₂ : List (EventEnvelope F)} {ls ls' : List PyStr}
    (h : Reads H es₀ (ls ++ ls') es₂) : ∃ es₁, Reads H es₀ ls es₁ ∧ Reads H es₁ ls' es₂ := by
  induction ls generalizing es₀ with
  | nil => exact ⟨es₀, .done, h⟩
  | cons raw rest ih =>
    cases h with
    | blank hb h =>
      obtain ⟨es₁, h₁, h₂⟩ := ih h
      exact ⟨es₁, .blank hb h₁, h₂⟩
    | event hb hf ha h =>
      obtain ⟨es₁, h₁, h₂⟩ := ih h
      exact ⟨es₁, .event hb hf ha h₁, h₂⟩

theorem Reads.det {H : Host} {es₀ es₁ es₂ : List (EventEnvelope F)} {ls : List PyStr}
    (h : Reads H es₀ ls es₁) (h' : Reads H es₀ ls es₂) : es₁ = es₂ := by
  have h₁ := loadLines_eq_ok (n := 0).mpr h
  rw [loadLines_eq_ok.mpr h'] at h₁
  exact (Except.ok.inj h₁).symm

theorem reads_blank {H : Host} {es es' : List (EventEnvelope F)} {ls : List PyStr}
    (hls : ∀ l ∈ ls, isBlank l = true) : Reads H es ls es' ↔ es' = es := by
  constructor
  · intro h
    induction h with
    | done => rfl
    | blank _ _ ih => exact ih fun l hl => hls l (List.mem_cons_of_mem _ hl)
    | event hb _ _ _ _ => simp [hls] at hb
  · rintro rfl
    induction ls with
    | nil => exact .done
    | cons l ls ih =>
      exact .blank (hls l (by simp)) (ih fun m hm => hls m (List.mem_cons_of_mem _ hm))

/-! ## The events of a run -/

/-- Event lists a loader can return. -/
inductive Recorded (H : Host) : List (EventEnvelope F) → Prop where
  | nil : Recorded H []
  | snoc {es line e} : Recorded H es → EventEnvelope.fromJson H line = .ok e → Admits es e →
      Recorded H (es ++ [e])

theorem Reads.recorded {H : Host} {es es' : List (EventEnvelope F)} {ls : List PyStr}
    (h : Reads H es ls es') (hes : Recorded H es) : Recorded H es' := by
  induction h with
  | done => exact hes
  | blank _ _ ih => exact ih hes
  | event _ hf ha _ ih => exact ih (.snoc hes hf ha)

theorem loadLocked_eq_ok {H : Host} {split : PyStr → List PyStr} {file : PyBytes}
    {es : List (EventEnvelope F)} :
    loadLocked H split file = .ok es ↔
      ∃ text, decode file = some text ∧ Reads H [] (split text) es := by
  unfold loadLocked
  cases decode file with
  | none => simp
  | some text => simp [loadLines_eq_ok]

theorem loadLocked_recorded {H : Host} {split : PyStr → List PyStr} {file : PyBytes}
    {es : List (EventEnvelope F)} (h : loadLocked H split file = .ok es) : Recorded H es := by
  obtain ⟨_, _, hr⟩ := loadLocked_eq_ok.mp h
  exact hr.recorded .nil

/-- A report that the file is sound is a report on the events that were read. -/
theorem verify_ok_iff {H : Host} {file : PyBytes} {r : VerificationReport F} :
    verify H file = .ok r ∧ r.ok = true ↔
      ∃ es : List (EventEnvelope F), events H file = .ok es ∧ r = ⟨true, es.length, headHash es, none⟩ := by
  unfold verify
  cases events (F := F) H file with
  | ok es =>
    simp only [Except.ok.injEq, exists_eq_left']
    constructor
    · rintro ⟨rfl, _⟩; rfl
    · rintro rfl; exact ⟨rfl, rfl⟩
  | error x =>
    cases x with
    | integrity issue =>
      simp only [Except.ok.injEq, reduceCtorEq, false_and, exists_false, iff_false, not_and]
      rintro rfl
      simp
    | _ => simp

theorem Recorded.of_mem {H : Host} {es : List (EventEnvelope F)} (h : Recorded H es)
    {e : EventEnvelope F} (he : e ∈ es) :
    (∃ line, EventEnvelope.fromJson (F := F) H line = .ok e) ∧ ∃ pre, Admits pre e := by
  induction h with
  | nil => simp at he
  | snoc _ hf ha ih =>
    rcases List.mem_append.mp he with he | he
    · exact ih he
    · rw [List.mem_singleton.mp he]
      exact ⟨⟨_, hf⟩, _, ha⟩

/-- The text of a previous hash. -/
def prevOf (e : EventEnvelope F) : PyStr :=
  match e.previousHash with
  | .str h => h
  | _ => []

omit [PyFloat F] in
theorem isStr_eq_true {v : PyVal F} {s : PyStr} : isStr v s = true ↔ v = .str s := by
  cases v <;> simp [isStr]

omit [PyFloat F] in
theorem headHash_eq (es : List (EventEnvelope F)) : headHash es = HashChain.head hashOf [] es := by
  unfold headHash HashChain.head
  cases es.getLast? <;> rfl

theorem hashOf_valid {H : Host} {e : EventEnvelope F} (h : e.validate H = .ok ()) :
    e.eventHash = .str (hashOf e) ∧ isHash (hashOf e) = true ∧
      e.calculatedHash H = .ok (hashOf e) := by
  obtain ⟨_, _, _, _, _, _, hh⟩ := validate_eq_ok.mp h
  obtain ⟨s, hs, hhash, hc⟩ := checkEventHash_eq_ok.mp hh
  have : hashOf e = s := by rw [hashOf, hs]
  rw [this]
  exact ⟨hs, hhash, hc⟩

/-- The events a loader returns form a hash chain. -/
theorem Recorded.linked {H : Host} {es : List (EventEnvelope F)} (h : Recorded H es) :
    HashChain.Linked hashOf prevOf [] es := by
  induction h with
  | nil => exact .nil
  | snoc _ hf ha ih =>
    refine .snoc ih ?_ ?_
    · rw [prevOf, isStr_eq_true.mp ha.previousHash, headHash_eq]
    · intro hnil
      have hh := (hashOf_valid (fromJson_eq_ok.mp hf).2).2.1
      rw [hnil] at hh
      cases hh

/-! ## A recorded event -/

def sampleArgs : BuildArgs NonFinite where
  sequence := 1
  eventId := py "e1"
  tenantId := py "t"
  jobId := py "j"
  aggregateType := py "job"
  aggregateId := py "j"
  eventType := py "created"
  payload := .dict []
  idempotencyKey := py "k1"
  previousHash := []
  occurredAt := some (py "2026-01-01T00:00:00+00:00")
  now := []

/-- The SHA-256 digest of the event's canonical JSON. -/
def sampleHash : PyStr :=
  py "e04149d9a86a6fcb0ce632c81d4e1f3b24b9ac905a41e726d8a8598dcc22eee0"

def sampleHost : Host where
  sha256 b := if b = render (.obj (unsignedMembers sampleArgs (.obj []))) then sampleHash else []
  fromisoformat s := if s = py "2026-01-01T00:00:00+00:00" then some true else none

def sampleLine : PyStr := render (.obj (lineMembers sampleArgs sampleHash (.obj [])))

/-- `verify` reports the file sound, with this head hash. -/
def verifiesTo (H : Host) (file : PyBytes) (head : PyStr) : Bool :=
  match verify (F := F) H file with
  | .ok r => r.ok && r.headHash == head
  | .error _ => false

theorem verifiesTo_iff {H : Host} {file : PyBytes} {head : PyStr} :
    verifiesTo (F := F) H file head = true ↔
      ∃ r : VerificationReport F, verify H file = .ok r ∧ r.ok = true ∧ r.headHash = head := by
  unfold verifiesTo
  cases verify (F := F) H file <;> simp

end LedgerChain
