import VeriMat.CorpusRuns

/-! # The closure of a built corpus

What holds of every corpus the builder returns, whatever the source answered: the candidate bound,
references within the corpus, texts under their digests, no text twice, and slices of the
candidates in which each stands once. -/
namespace CorpusClosure

open PyText JsonText PyValue PyDict KeyedRecords SurveyRecords SurveyRoundTrip CorpusBuild CorpusRuns
open Verification (Interpreter)

variable {F : Type}

/-! ## Slices -/

/-- Lists that together have no repetition hold each of their elements once. -/
theorem countP_of_flatten {α : Type} [BEq α] [LawfulBEq α] {slices : List (List α)}
    (hn : slices.flatten.Nodup) {a : α} (h : a ∈ slices.flatten) :
    slices.countP (fun s => decide (a ∈ s)) = 1 := by
  induction slices with
  | nil => cases h
  | cons s slices ih =>
    rw [List.flatten_cons] at h hn
    obtain ⟨_, hrest, hdisjoint⟩ := List.nodup_append.mp hn
    by_cases ha : a ∈ s
    · have hnone : slices.countP (fun s => decide (a ∈ s)) = 0 := by
        rw [List.countP_eq_zero]
        intro t ht hat
        exact hdisjoint a ha a (List.mem_flatten.mpr ⟨t, ht, of_decide_eq_true hat⟩) rfl
      rw [List.countP_cons_of_pos (by simpa using ha), hnone]
    · have hlater : a ∈ slices.flatten := (List.mem_append.mp h).resolve_left ha
      rw [List.countP_cons_of_neg (by simpa using ha), ih hrest hlater]

/-! ## Passages -/

section Passages
variable [PyFloat F] {I : Interpreter}

/-- A built passage carries the digest of its text, and an identifier made of its document, its
offset and that digest. -/
theorem digests_build {n : NewPassage F} {p : SurveyPassage F}
    (h : SurveyPassage.build I n = .ok p) :
    textDigest I p.text = .ok p.contentSha256 ∧
      digestId I (py "psg") [.str p.docId, ofJson (F := F) (optInt p.offset),
        .str p.contentSha256] = .ok p.passageId := by
  rw [SurveyPassage.build] at h
  obtain ⟨digest, hdigest, h⟩ := bind_eq_ok.mp h
  obtain ⟨passageId, hid, h⟩ := bind_eq_ok.mp h
  cases h
  exact ⟨hdigest, hid⟩

/-- Passages of one document, offset and text have one identifier. -/
theorem passageId_congr {n m : NewPassage F} {p q : SurveyPassage F}
    (hp : SurveyPassage.build I n = .ok p) (hq : SurveyPassage.build I m = .ok q)
    (hdocId : p.docId = q.docId) (hoffset : p.offset = q.offset) (htext : p.text = q.text) :
    p.passageId = q.passageId := by
  obtain ⟨hdigest, hid⟩ := digests_build hp
  obtain ⟨hdigest', hid'⟩ := digests_build hq
  rw [htext, hdigest'] at hdigest
  have hsha : q.contentSha256 = p.contentSha256 := Except.ok.inj hdigest
  rw [hdocId, hoffset, ← hsha, hid'] at hid
  exact (Except.ok.inj hid).symm

omit [PyFloat F] in
theorem checkPassage_recorded {c : SurveyCorpus F} {p : SurveyPassage F}
    (h : c.checkPassage I p = .ok ()) :
    (c.documents.get p.docId).isSome = true ∧ (c.queries.get p.queryId).isSome = true := by
  rw [SurveyCorpus.checkPassage, bind_eq_ok] at h
  obtain ⟨_, _, h⟩ := h
  obtain ⟨_, hdocument, hquery⟩ := bind_eq_ok.mp h
  rw [refuseIf_eq_ok] at hdocument hquery
  exact ⟨Option.isSome_iff_ne_none.mpr hdocument, Option.isSome_iff_ne_none.mpr hquery⟩

end Passages

/-! ## Closure -/

/-- The slices of the candidates that every probe question was asked over. -/
structure Sliced (B : CorpusBuilder F) (topic : SurveyTopic) (c : SurveyCorpus F)
    (log : List (Executed F)) (slices : List (List PyStr)) : Prop where
  calls : log.filterMap evidenceCall = topic.probeQuestions.flatMap fun question =>
    slices.map fun shard => (shard, ⟨question, B.semanticTopK, shard⟩)
  once : ∀ docId, (c.documents.get docId).isSome → slices.countP (fun s => decide (docId ∈ s)) = 1
  candidates : ∀ shard ∈ slices, ∀ docId ∈ shard, (c.documents.get docId).isSome
  size : ∀ shard ∈ slices, (shard.length : ℤ) ≤ max 1 B.scopeShardSize

structure Closed (I : Interpreter) (B : CorpusBuilder F) (topic : SurveyTopic)
    (c : SurveyCorpus F) (log : List (Executed F)) : Prop where
  few : documentCount c ≤ B.maxCandidates
  recorded : ∀ p ∈ c.passages.values,
    (c.documents.get p.docId).isSome ∧ (c.queries.get p.queryId).isSome
  text : ∀ p ∈ c.passages.values,
    B.minPassageChars ≤ p.text.length ∧ textDigest I p.text = .ok p.contentSha256
  once : ∀ key key' p p', c.passages.get key = some p → c.passages.get key' = some p' →
    p.docId = p'.docId → p.offset = p'.offset → p.text = p'.text → key = key'
  sliced : ∃ slices, Sliced B topic c log slices

section Closure
variable [PyFloat F] {I : Interpreter} {P : Conversions F} {B : CorpusBuilder F}
variable {topic : SurveyTopic} {c : SurveyCorpus F} {log : List (Executed F)}

theorem Gathered.kept (hc : Gathered I B c) {key : PyStr} {p : SurveyPassage F}
    (h : c.passages.get key = some p) : key = p.passageId ∧ Kept I B p := by
  have hmem := Dict.get_eq_some.mp h
  exact ⟨hc.passages.own _ hmem, hc.passages.valid _ hmem⟩

omit [PyFloat F] in
theorem sliced_shards (h : log.filterMap evidenceCall = evidenceCalls B topic c) :
    Sliced B topic c log (shards B (sortedKeys c)) where
  calls := h
  once docId hdocId := by
    apply countP_of_flatten
    · rw [flatten_shards]
      exact nodup_sortedKeys c
    · rw [flatten_shards]
      exact mem_sortedKeys.mpr hdocId
  candidates shard hshard docId hdocId :=
    mem_sortedKeys.mp ((mem_shards hshard).1.subset hdocId)
  size shard hshard := (mem_shards hshard).2

/-- Every corpus the builder returns is closed. -/
theorem build_closed (I : Interpreter) (P : Conversions F) (B : CorpusBuilder F)
    (topic : SurveyTopic) (c : SurveyCorpus F) (log : List (Executed F))
    (h : build I P B topic [] = .ok (c, log)) : Closed I B topic c log := by
  have hfinished := build_finished h
  have hc := hfinished.trace.gathered (gathered_new topic)
  obtain ⟨_, hvalid⟩ := validate_eq_ok.mp hfinished.valid
  constructor
  case few => exact hc.few
  case recorded => exact fun p hp => checkPassage_recorded (hvalid p hp)
  case text =>
    intro p hp
    obtain ⟨key, hkey⟩ := Dict.mem_values.mp hp
    obtain ⟨_, hkept⟩ := Gathered.kept hc hkey
    obtain ⟨n, hbuilt⟩ := hkept.built
    exact ⟨hkept.long, (digests_build hbuilt).1⟩
  case once =>
    intro key key' p p' hp hp' hdocId hoffset htext
    obtain ⟨rfl, hkept⟩ := Gathered.kept hc hp
    obtain ⟨rfl, hkept'⟩ := Gathered.kept hc hp'
    obtain ⟨n, hbuilt⟩ := hkept.built
    obtain ⟨m, hbuilt'⟩ := hkept'.built
    exact passageId_congr hbuilt hbuilt' hdocId hoffset htext
  case sliced => exact ⟨_, sliced_shards hfinished.calls⟩

end Closure

/-! ### A corpus of one document -/

def sampleId : PyStr := List.replicate 64 97

/-- One document, in which every question finds the same passage. -/
def sampleSource : LiteratureSource NonFinite where
  metaSearch _ _ := .ok [(.str (py "results"), .list [.dict [(.str (py "doc_id"), .str sampleId),
    (.str (py "title"), .str (py "On oxides"))]])]
  agenticSearch _ _ := .ok [.dict [(.str (py "doc_id"), .str sampleId),
    (.str (py "chunk"), .str (py "Oxides harden."))]]

def sampleBuilder : CorpusBuilder NonFinite where
  source := sampleSource
  maxCandidates := 3
  semanticTopK := 50
  minPassageChars := 10
  scopeShardSize := 25
  citationFloor := 50
  documentProbeTemplates := []
  candidate := by decide
  scope := by decide

theorem build_closed_sample : ∃ c log,
    build QuoteGate.sampleInterpreter sampleConversions sampleBuilder SurveyRoundTrip.sampleTopic [] =
      .ok (c, log) ∧ c.passages.values.length = 1 ∧
      Closed QuoteGate.sampleInterpreter sampleBuilder SurveyRoundTrip.sampleTopic c log := by
  have hone : (build QuoteGate.sampleInterpreter sampleConversions sampleBuilder
      SurveyRoundTrip.sampleTopic []).toOption.map (·.1.passages.values.length) = some 1 := by
    decide +kernel
  cases hran : build QuoteGate.sampleInterpreter sampleConversions sampleBuilder
    SurveyRoundTrip.sampleTopic [] with
  | error e =>
    rw [hran] at hone
    cases hone
  | ok p =>
    rw [hran] at hone
    exact ⟨p.1, p.2, rfl, Option.some.inj hone, build_closed _ _ _ _ p.1 p.2 hran⟩

end CorpusClosure
