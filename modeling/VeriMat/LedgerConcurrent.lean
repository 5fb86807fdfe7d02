import VeriMat.LedgerAppend

/-! # Many writers on one ledger

Each `append` holds the exclusive lock from its first read to its last write, so the calls of
any number of processes take effect one after the other, in the order in which they got the
lock. A run is that order. -/
namespace LedgerConcurrent

open PyText JsonText PyValue Events Ledger DurablePayload EnvelopeRoundTrip LedgerChain
open LedgerTamper LedgerLines LedgerAppend

variable {F : Type} [PyFloat F] {H : Host}

/-! ## Runs -/

/-- The file one call leaves: an exception leaves it as it was. -/
def fileAfter (H : Host) (file : PyBytes) (a : AppendArgs F) : PyBytes :=
  match append H file a with
  | .ok (_, file') => file'
  | .error _ => file

/-- The file a run of calls leaves. -/
def run (H : Host) (file : PyBytes) (calls : List (AppendArgs F)) : PyBytes :=
  calls.foldl (fileAfter H) file

/-- The event one call appended, if it wrote one. -/
def written (H : Host) (file : PyBytes) (a : AppendArgs F) : List (EventEnvelope F) :=
  match append H file a with
  | .ok (env, file') => if file' = file then [] else [env]
  | .error _ => []

/-- The events the calls of a run appended, in the order of their locks. -/
def appended (H : Host) : PyBytes → List (AppendArgs F) → List (EventEnvelope F)
  | _, [] => []
  | file, a :: calls => written H file a ++ appended H (fileAfter H file a) calls

/-- No id is used twice or is on record. -/
structure FreshIds (es : List (EventEnvelope F)) (calls : List (AppendArgs F)) : Prop where
  distinct : (calls.map AppendArgs.newId).Nodup
  new : ∀ a ∈ calls, ∀ e ∈ es, e.eventId ≠ .str a.newId

/-! ## The same event semantics -/

/-- The same JSON value, whatever the order of its members. -/
def SameValue (v w : PyVal F) : Prop :=
  ∃ j k, v = ofJson j ∧ w = ofJson k ∧ sortNames j = sortNames k

/-- The recorded event says what the call wants to record. -/
structure SameSemantics (e : EventEnvelope F) (a : AppendArgs F) : Prop where
  tenantId : e.tenantId = .str a.tenantId
  jobId : e.jobId = .str a.jobId
  aggregateType : e.aggregateType = .str a.aggregateType
  aggregateId : e.aggregateId = .str a.aggregateId
  eventType : e.eventType = .str a.eventType
  payload : SameValue e.payload a.payload

theorem lower_eq_str {v : PyVal F} {s : PyStr} : lower v = .ok (.str s) ↔ v = .str s := by
  constructor
  · intro h
    cases v with
    | str t =>
      simp only [lower, Except.ok.injEq, Json.str.injEq] at h
      rw [h]
    | list xs =>
      obtain ⟨js, hjs, _⟩ := lower_list_inv (by rwa [lower] at h)
      cases hjs
    | tuple xs =>
      obtain ⟨js, hjs, _⟩ := lower_list_inv (by rwa [lower] at h)
      cases hjs
    | dict kvs =>
      obtain ⟨_, members, _, hm, _⟩ := lower_dict_inv h
      cases hm
    | float x =>
      rw [lower] at h
      split_ifs at h
      cases h
    | _ => cases h
  · rintro rfl
    rfl

theorem lower_eq_of_sameValue {v w : PyVal F} {x y : Json F} (hx : lower v = .ok x)
    (hy : lower w = .ok y) (h : SameValue v w) : x = y := by
  obtain ⟨j, k, rfl, rfl, hjk⟩ := h
  rw [lower_ofJson j (finite_of_lower j x hx), Except.ok.injEq] at hx
  rw [lower_ofJson k (finite_of_lower k y hy), Except.ok.injEq] at hy
  rw [← hx, ← hy, hjk]

theorem sameValue_of_lower_eq {v w : PyVal F} {x : Json F} (hv : FromJson v) (hw : FromJson w)
    (hx : lower v = .ok x) (hy : lower w = .ok x) : SameValue v w := by
  obtain ⟨j, rfl, _⟩ := hv
  obtain ⟨k, rfl, _⟩ := hw
  rw [lower_ofJson j (finite_of_lower j x hx), Except.ok.injEq] at hx
  rw [lower_ofJson k (finite_of_lower k x hy), Except.ok.injEq] at hy
  exact ⟨j, k, rfl, rfl, hx.trans hy.symm⟩

/-- The members of a semantic fingerprint. -/
def semanticMembers (tenantId jobId aggregateType aggregateId eventType payload : Json F) :
    List (PyStr × Json F) :=
  [(py "aggregate_id", aggregateId), (py "aggregate_type", aggregateType),
    (py "event_type", eventType), (py "job_id", jobId), (py "payload", payload),
    (py "tenant_id", tenantId)]

theorem lower_str (s : PyStr) : lower (.str s : PyVal F) = .ok (.str s) := rfl

theorem semanticFingerprint_eq {v₁ v₂ v₃ v₄ v₅ v₆ : PyVal F} {j₁ j₂ j₃ j₄ j₅ j₆ : Json F}
    (h₁ : lower v₁ = .ok j₁) (h₂ : lower v₂ = .ok j₂) (h₃ : lower v₃ = .ok j₃)
    (h₄ : lower v₄ = .ok j₄) (h₅ : lower v₅ = .ok j₅) (h₆ : lower v₆ = .ok j₆) :
    semanticFingerprint v₁ v₂ v₃ v₄ v₅ v₆ =
        .ok (render (.obj (semanticMembers j₁ j₂ j₃ j₄ j₅ j₆))) ∧
      (Json.obj (semanticMembers j₁ j₂ j₃ j₄ j₅ j₆)).Finite := by
  have hl : lower (.dict [(.str (py "tenant_id"), v₁), (.str (py "job_id"), v₂),
      (.str (py "aggregate_type"), v₃), (.str (py "aggregate_id"), v₄),
      (.str (py "event_type"), v₅), (.str (py "payload"), v₆)]) =
      .ok (.obj (semanticMembers j₁ j₂ j₃ j₄ j₅ j₆)) := by
    apply lower_strDict (s := [(py "aggregate_id", v₄), (py "aggregate_type", v₃),
      (py "event_type", v₅), (py "job_id", v₂), (py "payload", v₆), (py "tenant_id", v₁)])
    · rfl
    · simp [semanticMembers, h₁, h₂, h₃, h₄, h₅, h₆]
  refine ⟨?_, lower_finite _ _ hl⟩
  rw [semanticFingerprint, canonicalJson, dumps, hl]
  rfl

/-- Every field of an event that was read came from JSON and can be written as JSON. -/
theorem fields_of_fromJson {line : PyStr} {e : EventEnvelope F}
    (h : EventEnvelope.fromJson H line = .ok e) :
    ∀ p ∈ sortedUnsigned e, FromJson p.2 ∧ ∃ x, lower p.2 = .ok x := by
  obtain ⟨hr, hv⟩ := fromJson_eq_ok.mp h
  obtain ⟨_, _, hc⟩ := hashOf_valid hv
  obtain ⟨b, hb, _⟩ := calculatedHash_eq_ok hc
  have hsame := sameJson_of_hashedBytes hb hb
  intro p hp
  constructor
  · apply readEnvelope_fields hr
    simp only [sortedUnsigned, List.mem_cons, List.not_mem_nil, or_false] at hp
    rcases hp with rfl | rfl | rfl | rfl | rfl | rfl | rfl | rfl | rfl | rfl | rfl | rfl <;>
      simp [EventEnvelope.fields]
  · obtain ⟨x, hx, _⟩ := (List.forall₂_same.mp hsame) p hp
    exact ⟨x, hx⟩

theorem jsonObject_lower {v : PyVal F} (h : JsonObject v) :
    FromJson v ∧ ∃ x, lower v = .ok x := by
  obtain ⟨kvs, rfl, hfin, hded⟩ := h
  exact ⟨⟨_, rfl, hded⟩, _, lower_ofJson _ hfin⟩

/-- Two fingerprints are one text exactly when the semantics agree, in every value nested in
the payload. -/
theorem fingerprints_agree {line : PyStr} {e : EventEnvelope F} {a : AppendArgs F}
    (h : EventEnvelope.fromJson H line = .ok e) (hobj : JsonObject a.payload) :
    ∃ s t, envelopeSemantic e = .ok s ∧ a.semantic = .ok t ∧ (s = t ↔ SameSemantics e a) := by
  have hfields := fields_of_fromJson h
  simp only [sortedUnsigned, List.forall_mem_cons] at hfields
  obtain ⟨⟨_, x₄, h₄⟩, ⟨_, x₃, h₃⟩, -, ⟨_, x₅, h₅⟩, -, ⟨_, x₂, h₂⟩, -, ⟨hp, x₆, h₆⟩, -, -, -,
    ⟨_, x₁, h₁⟩, -⟩ := hfields
  obtain ⟨hq, y, hy⟩ := jsonObject_lower hobj
  obtain ⟨he, hfe⟩ := semanticFingerprint_eq h₁ h₂ h₃ h₄ h₅ h₆
  obtain ⟨ha, hfa⟩ := semanticFingerprint_eq (lower_str a.tenantId) (lower_str a.jobId)
    (lower_str a.aggregateType) (lower_str a.aggregateId) (lower_str a.eventType) hy
  refine ⟨_, _, he, ha, ?_⟩
  have hmembers : render (.obj (semanticMembers x₁ x₂ x₃ x₄ x₅ x₆)) =
      render (.obj (semanticMembers (.str a.tenantId) (.str a.jobId) (.str a.aggregateType)
        (.str a.aggregateId) (.str a.eventType) y)) ↔
      x₄ = .str a.aggregateId ∧ x₃ = .str a.aggregateType ∧ x₅ = .str a.eventType ∧
        x₂ = .str a.jobId ∧ x₆ = y ∧ x₁ = .str a.tenantId := by
    constructor
    · intro htext
      simpa [semanticMembers] using render_injective hfe hfa htext
    · rintro ⟨rfl, rfl, rfl, rfl, rfl, rfl⟩
      rfl
  rw [hmembers]
  constructor
  · rintro ⟨rfl, rfl, rfl, rfl, rfl, rfl⟩
    exact ⟨lower_eq_str.mp h₁, lower_eq_str.mp h₂, lower_eq_str.mp h₃, lower_eq_str.mp h₄,
      lower_eq_str.mp h₅, sameValue_of_lower_eq hp hq h₆ hy⟩
  · intro hs
    refine ⟨?_, ?_, ?_, ?_, lower_eq_of_sameValue h₆ hy hs.payload, ?_⟩
    · exact Except.ok.inj (h₄.symm.trans (lower_eq_str.mpr hs.aggregateId))
    · exact Except.ok.inj (h₃.symm.trans (lower_eq_str.mpr hs.aggregateType))
    · exact Except.ok.inj (h₅.symm.trans (lower_eq_str.mpr hs.eventType))
    · exact Except.ok.inj (h₂.symm.trans (lower_eq_str.mpr hs.jobId))
    · exact Except.ok.inj (h₁.symm.trans (lower_eq_str.mpr hs.tenantId))

/-! ## What a call is answered -/

/-- A call that reads the ledger is answered by the key it brings: the stored event for the
same semantics, a conflict for others, and a stale head is refused for a new key. -/
structure Answers (H : Host) (file : PyBytes) (es : List (EventEnvelope F)) (a : AppendArgs F) :
    Prop where
  replay : ∀ e ∈ es, isStr e.idempotencyKey a.idempotencyKey = true → SameSemantics e a →
    append H file a = .ok (e, file)
  conflict : ∀ e ∈ es, isStr e.idempotencyKey a.idempotencyKey = true → ¬SameSemantics e a →
    append H file a = .error (.idempotencyConflict a.idempotencyKey) ∧ fileAfter H file a = file
  stale : ¬KeyRecorded es a → ∀ expected, a.expectedHead = some expected →
    expected ≠ headHash es →
      append H file a = .error (.integrity (.optimisticAppend expected (headHash es))) ∧
        fileAfter H file a = file

theorem fileAfter_error {file : PyBytes} {a : AppendArgs F} {x : LedgerError F}
    (h : append H file a = .error x) : fileAfter H file a = file := by
  rw [fileAfter, h]

/-- Keys are pairwise different in Python. -/
def KeysDistinct (es : List (EventEnvelope F)) : Prop :=
  es.Pairwise fun e e' => pyEq e.idempotencyKey e'.idempotencyKey = false

theorem recorded_keysDistinct {es : List (EventEnvelope F)} (h : Recorded H es) :
    KeysDistinct es := by
  induction h with
  | nil => exact .nil
  | snoc _ _ ha ih =>
    refine List.pairwise_append.mpr ⟨ih, List.pairwise_singleton _ _, ?_⟩
    intro e he e' he'
    rw [List.mem_singleton.mp he']
    exact ha.freshKey e he

/-- The event under a key is the one the loop of `append` stops at. -/
theorem find_key_eq {es : List (EventEnvelope F)} (h : KeysDistinct es) {e : EventEnvelope F}
    {key : PyStr} (he : e ∈ es) (hk : isStr e.idempotencyKey key = true) :
    es.find? (fun e => isStr e.idempotencyKey key) = some e := by
  induction es with
  | nil => cases he
  | cons x es ih =>
    obtain ⟨hx, hes⟩ := List.pairwise_cons.mp h
    rcases List.mem_cons.mp he with rfl | he
    · exact List.find?_cons_of_pos hk
    · have hne : isStr x.idempotencyKey key = false := by
        have := hx e he
        rwa [isStr_eq_true.mp hk, pyEq_str] at this
      rw [List.find?_cons_of_neg (by simp [hne])]
      exact ih hes he

theorem append_answers {file : PyBytes} {es : List (EventEnvelope F)} {a : AppendArgs F}
    (hl : loadLocked H lines file = .ok es) (hobj : JsonObject a.payload) :
    Answers H file es a := by
  have hrec := loadLocked_recorded hl
  have hfound : ∀ e ∈ es, isStr e.idempotencyKey a.idempotencyKey = true →
      ∃ s t : PyStr, (s = t ↔ SameSemantics e a) ∧ append H file a =
        if s = t then .ok (e, file) else .error (.idempotencyConflict a.idempotencyKey) := by
    intro e he hk
    obtain ⟨⟨line, hline⟩, _⟩ := hrec.of_mem he
    obtain ⟨s, t, hs, ht, hst⟩ := fingerprints_agree hline hobj
    refine ⟨s, t, hst, ?_⟩
    simp only [append, hl, ht, find_key_eq (recorded_keysDistinct hrec) he hk, hs]
  constructor
  · intro e he hk hsame
    obtain ⟨s, t, hst, happ⟩ := hfound e he hk
    rw [happ, if_pos (hst.mpr hsame)]
  · intro e he hk hsame
    obtain ⟨s, t, hst, happ⟩ := hfound e he hk
    rw [if_neg (mt hst.mp hsame)] at happ
    exact ⟨happ, fileAfter_error happ⟩
  · intro hkey expected hx hne
    obtain ⟨_, y, hy⟩ := jsonObject_lower hobj
    obtain ⟨ha, _⟩ := semanticFingerprint_eq (lower_str a.tenantId) (lower_str a.jobId)
      (lower_str a.aggregateType) (lower_str a.aggregateId) (lower_str a.eventType) hy
    have hnone : es.find? (fun e => isStr e.idempotencyKey a.idempotencyKey) = none :=
      List.find?_eq_none.mpr fun e he hk => hkey ⟨e, he, hk⟩
    have happ : append H file a =
        .error (.integrity (.optimisticAppend expected (headHash es))) := by
      rw [append, hl]
      simp only [AppendArgs.semantic, ha, hnone, hx, if_neg hne]
    exact ⟨happ, fileAfter_error happ⟩

/-! ## One call -/

/-- The call finds its way through the file: the reader of `append`, which ends lines at line
feeds only, reads it, and unless the call writes nothing (its key is on record, or its head
is stale) nothing but white space stands behind the last line end. -/
def Safe (H : Host) (file : PyBytes) (a : AppendArgs F) : Prop :=
  ∃ text, ∃ es : List (EventEnvelope F), decode file = some text ∧
    loadLocked H lines file = .ok es ∧
    (KeyRecorded es a ∨ (∃ expected, a.expectedHead = some expected ∧ expected ≠ headHash es) ∨
      ∀ c ∈ lastLine text, isWs c = true)

theorem append_not_written {file : PyBytes} {a : AppendArgs F} {r : _}
    (h : append H file a = r) (hr : ∀ env file', r = .ok (env, file') → file' = file) :
    fileAfter H file a = file ∧ written H file a = [] := by
  unfold fileAfter written
  rw [h]
  cases r with
  | error x => exact ⟨rfl, rfl⟩
  | ok q =>
    obtain ⟨env, file'⟩ := q
    have hf : file' = file := hr env file' rfl
    simp [hf]

/-- A safe call leaves a file that reads to the old events and the one it appended, if any. -/
theorem events_fileAfter {file : PyBytes} {es : List (EventEnvelope F)} {a : AppendArgs F}
    (hes : events H file = .ok es) (hobj : JsonObject a.payload)
    (hnew : ∀ e ∈ es, e.eventId ≠ .str a.newId) (hsafe : Safe H file a) :
    ∃ new, events H (fileAfter H file a) = .ok (es ++ new) ∧
      List.Forall₂ SameEvent new (written H file a) ∧ ∀ e ∈ new, e.eventId = .str a.newId := by
  have hkeep : fileAfter H file a = file → written H file a = [] →
      ∃ new, events H (fileAfter H file a) = .ok (es ++ new) ∧
        List.Forall₂ SameEvent new (written H file a) ∧ ∀ e ∈ new, e.eventId = .str a.newId := by
    intro hf hw
    refine ⟨[], ?_, ?_, by simp⟩
    · rw [hf, hes, List.append_nil]
    · rw [hw]
      exact .nil
  obtain ⟨text, es', ht, hl, hcase⟩ := hsafe
  cases happ : append H file a with
  | error x =>
    obtain ⟨hf, hw⟩ := append_not_written happ (by simp)
    exact hkeep hf hw
  | ok q =>
    obtain ⟨env, file'⟩ := q
    obtain ⟨text', es₁, ht', hr, hdone⟩ := append_eq_ok happ
    rw [ht] at ht'
    cases ht'
    obtain ⟨text', ht', hr'⟩ := loadLocked_eq_ok.mp hes
    rw [ht] at ht'
    cases ht'
    obtain rfl := reads_agree hr hr'
    have hl' : loadLocked H lines file = .ok es₁ := loadLocked_eq_ok.mpr ⟨text, ht, hr⟩
    rw [hl] at hl'
    cases hl'
    rcases hdone with hrep | ⟨hash, payload, bytes, hwrote⟩
    · obtain ⟨hf, hw⟩ := append_not_written happ (by simpa using hrep.unchanged)
      exact hkeep hf hw
    · have hws : ∀ c ∈ lastLine text, isWs c = true := by
        rcases hcase with hkey | ⟨expected, hx, hne⟩ | hws
        · exact absurd hkey hwrote.newKey
        · have hstale := (append_answers hl hobj).stale hwrote.newKey expected hx hne
          rw [hstale.1] at happ
          cases happ
        · exact hws
      have hvalid : ((a.buildArgs es').envelope hash).validate H = .ok () :=
        hwrote.returned ▸ hwrote.valid
      have hval := validate_reread_jsonObject hobj hwrote.lowered hvalid
      have hgrown : file' ≠ file := by
        rw [hwrote.grown]
        intro hf
        have hnil : bytes = [] := by simpa using hf
        have hdec := decode_encode hwrote.encoded
        rw [hnil] at hdec
        cases hdec
      have hfile : fileAfter H file a = file' := by rw [fileAfter, happ]
      have hw : written H file a = [env] := by
        rw [written, happ]
        simp [hgrown]
      refine ⟨[reread (a.buildArgs es') hash payload], ?_, ?_, ?_⟩
      · rw [hfile]
        exact (events_wrote_iff ht hes hwrote).mpr ⟨hws, hnew, hval, rfl⟩
      · rw [hw, hwrote.returned]
        exact .cons (reread_sameEvent hobj hwrote.lowered).2 .nil
      · intro e he
        rw [List.mem_singleton.mp he]
        rfl

/-! ## Whole runs -/

theorem run_cons (file : PyBytes) (a : AppendArgs F) (calls : List (AppendArgs F)) :
    run H file (a :: calls) = run H (fileAfter H file a) calls := rfl

theorem run_singleton (file : PyBytes) (a : AppendArgs F) : run H file [a] = fileAfter H file a :=
  rfl

theorem run_append (file : PyBytes) (pre post : List (AppendArgs F)) :
    run H file (pre ++ post) = run H (run H file pre) post :=
  List.foldl_append

/-- Every call of the run is safe at the file it finds. -/
def SafeRun (H : Host) (file : PyBytes) (calls : List (AppendArgs F)) : Prop :=
  ∀ pre a post, calls = pre ++ a :: post → Safe H (run H file pre) a

theorem SafeRun.initial {file : PyBytes} {pre post : List (AppendArgs F)}
    (h : SafeRun H file (pre ++ post)) : SafeRun H file pre := by
  intro before a after heq
  refine h before a (after ++ post) ?_
  rw [heq, List.append_assoc, List.cons_append]

theorem SafeRun.cons_inv {file : PyBytes} {a : AppendArgs F} {calls : List (AppendArgs F)}
    (h : SafeRun H file (a :: calls)) : Safe H file a ∧ SafeRun H (fileAfter H file a) calls := by
  constructor
  · exact h [] a calls rfl
  · intro pre b post heq
    exact h (a :: pre) b post (by rw [heq, List.cons_append])

omit [PyFloat F] in
theorem FreshIds.initial {es : List (EventEnvelope F)} {pre post : List (AppendArgs F)}
    (h : FreshIds es (pre ++ post)) : FreshIds es pre := by
  constructor
  · exact (List.nodup_append.mp (List.map_append ▸ h.distinct)).1
  · exact fun a ha => h.new a (List.mem_append_left _ ha)

omit [PyFloat F] in
/-- The other ids stay fresh behind a call that uses up its own. -/
theorem FreshIds.step {es new : List (EventEnvelope F)} {a : AppendArgs F}
    {calls : List (AppendArgs F)} (h : FreshIds es (a :: calls))
    (hnew : ∀ e ∈ new, e.eventId = .str a.newId) : FreshIds (es ++ new) calls := by
  obtain ⟨hnotin, hdistinct⟩ := List.nodup_cons.mp h.distinct
  refine ⟨hdistinct, fun b hb e he => ?_⟩
  rcases List.mem_append.mp he with he | he
  · exact h.new b (by simp [hb]) e he
  · rw [hnew e he]
    intro heq
    have hid : a.newId = b.newId := by simpa using heq
    exact hnotin (hid ▸ List.mem_map_of_mem hb)

/-- The events after a run of safe calls: those before it, and the appended ones in order. -/
theorem events_run {file : PyBytes} {es : List (EventEnvelope F)} {calls : List (AppendArgs F)}
    (hes : events H file = .ok es) (hobj : ∀ a ∈ calls, JsonObject a.payload)
    (hfresh : FreshIds es calls) (hsafe : SafeRun H file calls) :
    ∃ new, events H (run H file calls) = .ok (es ++ new) ∧
      List.Forall₂ SameEvent new (appended H file calls) := by
  induction calls generalizing file es with
  | nil =>
    refine ⟨[], ?_, .nil⟩
    rw [List.append_nil]
    exact hes
  | cons a calls ih =>
    obtain ⟨hobja, hobjs⟩ := List.forall_mem_cons.mp hobj
    obtain ⟨hsafea, hsafes⟩ := hsafe.cons_inv
    obtain ⟨new, hnew, hsame, hids⟩ :=
      events_fileAfter hes hobja (hfresh.new a (by simp)) hsafea
    obtain ⟨later, hlater, hsame'⟩ := ih hnew hobjs (hfresh.step hids) hsafes
    refine ⟨new ++ later, ?_, List.rel_append hsame hsame'⟩
    rw [run_cons, hlater, List.append_assoc]

/-- What the callers of one ledger are promised, whatever the order of their locks. -/
structure Idempotent (H : Host) (file : PyBytes) (es : List (EventEnvelope F))
    (calls : List (AppendArgs F)) : Prop where
  ledger : ∃ new, events H (run H file calls) = .ok (es ++ new) ∧ KeysDistinct (es ++ new) ∧
    List.Forall₂ SameEvent new (appended H file calls)
  answers : ∀ pre a post, calls = pre ++ a :: post → ∃ es',
    events H (run H file pre) = .ok es' ∧ Answers H (run H file pre) es' a

/-- A verified ledger keeps the promise in every run all of whose calls are safe. -/
theorem concurrent_appends {file : PyBytes} {r : VerificationReport F}
    {calls : List (AppendArgs F)} (hv : verify H file = .ok r) (hok : r.ok = true)
    (hobj : ∀ a ∈ calls, JsonObject a.payload) (hsafe : SafeRun H file calls) :
    ∃ es, events H file = .ok es ∧ (FreshIds es calls → Idempotent H file es calls) := by
  obtain ⟨es, hes, _⟩ := verify_ok_iff.mp ⟨hv, hok⟩
  refine ⟨es, hes, fun hfresh => ⟨?_, ?_⟩⟩
  · obtain ⟨new, hnew, hsame⟩ := events_run hes hobj hfresh hsafe
    exact ⟨new, hnew, recorded_keysDistinct (loadLocked_recorded hnew), hsame⟩
  · rintro pre a post rfl
    obtain ⟨new, hnew, _⟩ := events_run hes (fun b hb => hobj b (List.mem_append_left _ hb))
      hfresh.initial hsafe.initial
    obtain ⟨text, es', ht, hl, _⟩ := hsafe pre a post rfl
    have hagree : es' = es ++ new := by
      obtain ⟨text₁, ht₁, hr₁⟩ := loadLocked_eq_ok.mp hl
      obtain ⟨text₂, ht₂, hr₂⟩ := loadLocked_eq_ok.mp hnew
      rw [ht₁, Option.some.injEq] at ht₂
      subst ht₂
      exact reads_agree hr₁ hr₂
    subst hagree
    exact ⟨_, hnew, append_answers hl (hobj a (by simp))⟩

/-! ## Ledgers whose last line is ended -/

/-- The reader of `append` reads these events, and only white space follows the last line
feed. -/
def Ended (H : Host) (file : PyBytes) (es : List (EventEnvelope F)) : Prop :=
  ∃ text, decode file = some text ∧ Reads H [] (lines text) es ∧ ∀ c ∈ tailOf text, isWs c = true

theorem mem_tailOf_of_mem_lastLine {s : PyStr} {c : ℕ} (h : c ∈ lastLine s) : c ∈ tailOf s := by
  rw [lastLine, List.mem_reverse] at h
  rw [tailOf, List.mem_reverse]
  have hsub : (s.reverse.takeWhile fun c => c != 10 && c != 13) =
      (s.reverse.takeWhile (· != 10)).takeWhile (· != 13) := by
    rw [List.takeWhile_takeWhile]
    congr 1
    funext d
    by_cases h₁ : d = 10 <;> by_cases h₂ : d = 13 <;> simp [h₁, h₂]
  rw [hsub] at h
  exact (List.takeWhile_prefix _).subset h

theorem Ended.safe {file : PyBytes} {es : List (EventEnvelope F)} (h : Ended H file es)
    (a : AppendArgs F) : Safe H file a := by
  obtain ⟨text, ht, hr, htail⟩ := h
  exact ⟨text, es, ht, loadLocked_eq_ok.mpr ⟨text, ht, hr⟩,
    Or.inr (Or.inr fun c hc => htail c (mem_tailOf_of_mem_lastLine hc))⟩

theorem tailOf_ended (s : PyStr) : tailOf (s ++ [10]) = [] := by
  simp [tailOf]

/-- A line written behind the last line end is read, and ends the ledger again. -/
theorem Ended.wrote {file file' : PyBytes} {es : List (EventEnvelope F)} {a : AppendArgs F}
    {env : EventEnvelope F} {hash : PyStr} {payload : Json F} {bytes : PyBytes}
    (h : Ended H file es) (hobj : JsonObject a.payload)
    (hnew : ∀ e ∈ es, e.eventId ≠ .str a.newId)
    (hwrote : Wrote H file a es env file' hash payload bytes) :
    Ended H file' (es ++ [reread (a.buildArgs es) hash payload]) := by
  obtain ⟨text, ht, hr, htail⟩ := h
  have hvalid : ((a.buildArgs es).envelope hash).validate H = .ok () :=
    hwrote.returned ▸ hwrote.valid
  refine ⟨text ++ (render (.obj (lineMembers (a.buildArgs es) hash payload)) ++ [10]), ?_, ?_, ?_⟩
  · rw [hwrote.grown, decode_append ht, decode_encode hwrote.encoded]
    rfl
  · refine (reads_written (lower_finite _ _ hwrote.lowered) hr).mpr
      ⟨htail, validate_reread_jsonObject hobj hwrote.lowered hvalid, ?_, rfl⟩
    exact (admits_reread_iff hwrote.newKey).mpr hnew
  · rw [← List.append_assoc, tailOf_ended]
    simp

/-- A safe call leaves an ended ledger ended. -/
theorem ended_fileAfter {file : PyBytes} {es : List (EventEnvelope F)} {a : AppendArgs F}
    (h : Ended H file es) (hobj : JsonObject a.payload)
    (hnew : ∀ e ∈ es, e.eventId ≠ .str a.newId) :
    ∃ new, Ended H (fileAfter H file a) (es ++ new) ∧ ∀ e ∈ new, e.eventId = .str a.newId := by
  have hkeep : fileAfter H file a = file →
      ∃ new, Ended H (fileAfter H file a) (es ++ new) ∧
        ∀ e ∈ new, e.eventId = .str a.newId := by
    intro hf
    refine ⟨[], ?_, by simp⟩
    rwa [hf, List.append_nil]
  cases happ : append H file a with
  | error x => exact hkeep (fileAfter_error happ)
  | ok q =>
    obtain ⟨env, file'⟩ := q
    have hfile : fileAfter H file a = file' := by
      rw [fileAfter, happ]
    obtain ⟨text, ht, hr, htail⟩ := id h
    obtain ⟨text', es', ht', hr', hdone⟩ := append_eq_ok happ
    rw [ht, Option.some.injEq] at ht'
    subst ht'
    obtain rfl := hr.det hr'
    rcases hdone with hrep | ⟨hash, payload, bytes, hwrote⟩
    · exact hkeep (hfile.trans hrep.unchanged)
    · refine ⟨[reread (a.buildArgs es) hash payload], ?_, ?_⟩
      · rw [hfile]
        exact h.wrote hobj hnew hwrote
      · intro e he
        rw [List.mem_singleton.mp he]
        rfl

/-- In a ledger whose last line is ended no call is ever unsafe. -/
theorem Ended.safeRun {file : PyBytes} {es : List (EventEnvelope F)}
    {calls : List (AppendArgs F)} (h : Ended H file es)
    (hobj : ∀ a ∈ calls, JsonObject a.payload) (hfresh : FreshIds es calls) :
    SafeRun H file calls := by
  induction calls generalizing file es with
  | nil =>
    intro pre a post heq
    simp at heq
  | cons a calls ih =>
    obtain ⟨hobja, hobjs⟩ := List.forall_mem_cons.mp hobj
    obtain ⟨new, hended, hids⟩ := ended_fileAfter h hobja (hfresh.new a (by simp))
    have hlater := ih hended hobjs (hfresh.step hids)
    intro pre b post heq
    rcases List.cons_eq_append_iff.mp heq with ⟨rfl, hb⟩ | ⟨pre', rfl, hpost⟩
    · cases hb
      exact h.safe a
    · exact hlater pre' b post hpost

/-- Two calls under one key on an empty ledger: the second one is a replay. -/
theorem concurrent_appends_replay :
    ∃ es, events sampleHost [] = .ok es ∧
      (FreshIds es [sampleAppend (py "e1") (py "k1"), sampleAppend (py "e3") (py "k1")] →
        Idempotent sampleHost [] es
          [sampleAppend (py "e1") (py "k1"), sampleAppend (py "e3") (py "k1")]) := by
  have hobj : ∀ a ∈ [sampleAppend (py "e1") (py "k1"), sampleAppend (py "e3") (py "k1")],
      JsonObject a.payload := by
    intro a ha
    simp only [List.mem_cons, List.not_mem_nil, or_false] at ha
    rcases ha with rfl | rfl <;> exact jsonObject_empty
  have hended : Ended sampleHost [] ([] : List (EventEnvelope NonFinite)) :=
    ⟨[], rfl, .done, by simp [tailOf]⟩
  have hfresh : FreshIds ([] : List (EventEnvelope NonFinite))
      [sampleAppend (py "e1") (py "k1"), sampleAppend (py "e3") (py "k1")] :=
    ⟨by decide, by simp⟩
  exact concurrent_appends (r := ⟨true, 0, [], none⟩) rfl rfl hobj (hended.safeRun hobj hfresh)

/-- A new event behind an unended line leaves a ledger that can never be read again. -/
theorem not_concurrent_appends_unended :
    ¬∀ (H : Host) (file : PyBytes) (r : VerificationReport NonFinite)
      (calls : List (AppendArgs NonFinite)), verify H file = .ok r → r.ok = true →
        (∀ a ∈ calls, JsonObject a.payload) → ∃ es, events H file = .ok es ∧
          (FreshIds es calls → Idempotent H file es calls) := by
  intro hall
  have hv : verifies NonFinite secondHost sampleLine = true := by
    decide +kernel
  have ha : appendsTo secondHost sampleLine (sampleAppend (py "e2") (py "k2"))
      (fun file' => !verifies NonFinite secondHost file') = true := by
    decide +kernel
  have hid : (events (F := NonFinite) secondHost sampleLine).toOption.all (fun es =>
      es.all fun e => !isStr e.eventId (py "e2")) = true := by
    decide +kernel
  obtain ⟨r, hr, hok⟩ := verifies_iff.mp hv
  obtain ⟨es, hes, hkeeps⟩ := hall _ _ _ [sampleAppend (py "e2") (py "k2")] hr hok
    (List.forall_mem_singleton.mpr jsonObject_empty)
  have hfresh : FreshIds es [sampleAppend (py "e2") (py "k2")] := by
    refine ⟨List.nodup_singleton _, fun a ha e he heq => ?_⟩
    rw [List.mem_singleton.mp ha] at heq
    rw [hes] at hid
    have hne : (!isStr e.eventId (py "e2")) = true := List.all_eq_true.mp hid e he
    have hnew : (sampleAppend (py "e2") (py "k2")).newId = py "e2" := rfl
    rw [heq, hnew] at hne
    simp [isStr] at hne
  obtain ⟨new, hnew, _⟩ := (hkeeps hfresh).ledger
  obtain ⟨env, file', happ, hbad⟩ := appendsTo_iff.mp ha
  have hfile : run secondHost sampleLine [sampleAppend (py "e2") (py "k2")] = file' := by
    rw [run_singleton, fileAfter, happ]
  rw [hfile] at hnew
  rw [verifies_iff.mpr ⟨_, verify_ok_iff.mpr ⟨_, hnew, rfl⟩⟩] at hbad
  cases hbad

end LedgerConcurrent
