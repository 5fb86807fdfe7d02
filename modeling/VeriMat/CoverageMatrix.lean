import VeriMat.GapCandidates
import VeriMat.ClosedVocabularies
import VeriMat.SurveyRoundTrip
import VeriMat.QuoteGate

/-! # The coverage matrix

A cell holds the relations of its key and no others, in the order of their identifiers. The
detector of contradictions asks for opposed directions and for two documents, but not that the
documents be those of the opposed relations. -/
namespace GapCandidates

open PyText JsonText PyValue PyDict KeyedRecords Grouping Events SurveyRecords RelationExtraction
open Verification (Interpreter)

variable {F : Type}

/-! ## Lists without repetition -/

theorem mem_distinct {values : List PyStr} {v : PyStr} : v ∈ distinct values ↔ v ∈ values := by
  constructor
  · intro h
    obtain ⟨p, hp, rfl⟩ := List.mem_map.mp h
    obtain ⟨w, hw, rfl⟩ := List.mem_map.mp (mem_ofPairs hp)
    exact hw
  · exact ClosedVocabularies.mem_distinct

theorem nodup_distinct (values : List PyStr) : (distinct values).Nodup := ofPairs_nodup _

theorem mem_sortedSet {values : List PyStr} {v : PyStr} : v ∈ sortedSet values ↔ v ∈ values := by
  rw [sortedSet, List.mem_insertionSort, List.mem_dedup]

theorem nodup_sortedSet (values : List PyStr) : (sortedSet values).Nodup :=
  (List.perm_insertionSort _ _).nodup_iff.mpr (List.nodup_dedup values)

/-- Two different names occur. -/
theorem two_le_length_iff {names : List PyStr} (h : names.Nodup) :
    2 ≤ names.length ↔ ∃ a ∈ names, ∃ b ∈ names, a ≠ b := by
  constructor
  · intro hlength
    match names, h, hlength with
    | a :: b :: names, h, _ =>
      refine ⟨a, List.mem_cons_self, b, by simp, ?_⟩
      rintro rfl
      exact (List.nodup_cons.mp h).1 List.mem_cons_self
  · rintro ⟨a, ha, b, hb, hne⟩
    have hsub : [a, b] ⊆ names := by simp [ha, hb]
    exact (List.subperm_of_subset (by simpa using hne) hsub).length_le

/-! ## Cells -/

/-- The relations of a cell, in the order of their identifiers. -/
def relationsAt (I : Interpreter) (result : ExtractionResult) (key : CoverageKey) :
    List ExtractedRelation :=
  withKey (coverageKey I) (sortedValues result.relations) key

theorem mem_sortedValues {d : Dict PyStr ExtractedRelation} {r : ExtractedRelation} :
    r ∈ sortedValues d ↔ r ∈ d.values :=
  ((List.perm_insertionSort _ d.items).map Prod.snd).mem_iff

theorem mem_relationsAt {I : Interpreter} {result : ExtractionResult} {key : CoverageKey}
    {r : ExtractedRelation} :
    r ∈ relationsAt I result key ↔ r ∈ result.relations.values ∧ coverageKey I r = key := by
  rw [relationsAt, mem_withKey, mem_sortedValues]

section Matrix
variable {I : Interpreter} {result : ExtractionResult} {corpus : SurveyCorpus F}

theorem get_coverageMatrix (key : CoverageKey) : (coverageMatrix I result corpus).get key =
    if relationsAt I result key = [] then none
    else some (coverageCell corpus key (relationsAt I result key)) := by
  rw [coverageMatrix, get_mapItems, get_groupBy, ← relationsAt]
  by_cases h : relationsAt I result key = []
  · rw [if_pos h, if_pos h]
    rfl
  · rw [if_neg h, if_neg h]
    rfl

theorem get_coverageMatrix_eq_some {key : CoverageKey} {cell : CoverageCell} :
    (coverageMatrix I result corpus).get key = some cell ↔
      relationsAt I result key ≠ [] ∧
        cell = coverageCell corpus key (relationsAt I result key) := by
  rw [get_coverageMatrix]
  by_cases h : relationsAt I result key = []
  · simp [h]
  · rw [if_neg h, Option.some.injEq]
    exact ⟨fun heq => ⟨h, heq.symm⟩, fun heq => heq.2.symm⟩

/-- A cell knows its place. -/
theorem key_of_get {key : CoverageKey} {cell : CoverageCell}
    (h : (coverageMatrix I result corpus).get key = some cell) : cell.key = key := by
  rw [(get_coverageMatrix_eq_some.mp h).2]
  rfl

end Matrix

theorem mem_orderedCells {cells : Dict CoverageKey CoverageCell} {cell : CoverageCell} :
    cell ∈ orderedCells cells ↔ ∃ key, cells.get key = some cell := by
  have hperm : (orderedCells cells).Perm cells.values :=
    (List.perm_insertionSort _ cells.items).map Prod.snd
  rw [hperm.mem_iff, Dict.mem_values]

/-! ## Contradictions -/

/-- The document of a relation, if its passage is in the corpus. -/
def docOf (corpus : SurveyCorpus F) (r : ExtractedRelation) : Option PyStr :=
  (corpus.passages.get r.passageId).map (·.docId)

theorem mem_docIds {corpus : SurveyCorpus F} {key : CoverageKey}
    {relations : List ExtractedRelation} {d : PyStr} :
    d ∈ (coverageCell corpus key relations).docIds ↔
      ∃ r ∈ relations, docOf corpus r = some d := by
  simp only [coverageCell, docIdsOf, mem_distinct, List.mem_map, List.mem_filterMap, docOf,
    Option.map_eq_some_iff]
  constructor
  · rintro ⟨p, ⟨_, ⟨r, hr, rfl⟩, hp⟩, rfl⟩
    exact ⟨r, hr, p, hp, rfl⟩
  · rintro ⟨r, hr, p, hp, rfl⟩
    exact ⟨p, ⟨_, ⟨r, hr, rfl⟩, hp⟩, rfl⟩

/-- The relations come from two documents. -/
def Spans (corpus : SurveyCorpus F) (relations : List ExtractedRelation) : Prop :=
  ∃ r ∈ relations, ∃ s ∈ relations, ∃ d d', docOf corpus r = some d ∧
    docOf corpus s = some d' ∧ d ≠ d'

theorem spans_iff {corpus : SurveyCorpus F} {key : CoverageKey}
    {relations : List ExtractedRelation} :
    2 ≤ (coverageCell corpus key relations).docIds.length ↔ Spans corpus relations := by
  have hnodup : (coverageCell corpus key relations).docIds.Nodup := nodup_distinct _
  rw [two_le_length_iff hnodup]
  constructor
  · rintro ⟨d, hd, d', hd', hne⟩
    obtain ⟨r, hr, hrd⟩ := mem_docIds.mp hd
    obtain ⟨s, hs, hsd⟩ := mem_docIds.mp hd'
    exact ⟨r, hr, s, hs, d, d', hrd, hsd, hne⟩
  · rintro ⟨r, hr, s, hs, d, d', hrd, hsd, hne⟩
    exact ⟨d, mem_docIds.mpr ⟨r, hr, hrd⟩, d', mem_docIds.mpr ⟨s, hs, hsd⟩, hne⟩

/-- Relations of opposed directions, whatever their documents. -/
def Clash (relations : List ExtractedRelation) : Prop :=
  ∃ pair ∈ opposed, (∃ r ∈ relations, r.direction = pair.1) ∧
    ∃ r ∈ relations, r.direction = pair.2

theorem clashes_iff {corpus : SurveyCorpus F} {key : CoverageKey}
    {relations : List ExtractedRelation} :
    (coverageCell corpus key relations).clashes ≠ [] ↔ Clash relations := by
  have hmem : ∀ pair, pair ∈ (coverageCell corpus key relations).clashes ↔ pair ∈ opposed ∧
      (∃ r ∈ relations, r.direction = pair.1) ∧ ∃ r ∈ relations, r.direction = pair.2 := by
    intro pair
    simp only [CoverageCell.clashes, List.mem_filter, decide_eq_true_eq, coverageCell,
      mem_sortedSet, List.mem_map]
  constructor
  · intro h
    obtain ⟨pair, hpair⟩ := List.exists_mem_of_ne_nil _ h
    exact ⟨pair, (hmem pair).mp hpair⟩
  · rintro ⟨pair, hpair⟩
    exact List.ne_nil_of_mem ((hmem pair).mpr hpair)

theorem subjectOf_inj {key key' : CoverageKey} : subjectOf key = subjectOf key' ↔ key = key' := by
  constructor
  · intro h
    have hitems := congrArg Dict.items h
    simp only [subjectOf, List.cons.injEq, Prod.mk.injEq, true_and, and_true] at hitems
    exact Prod.ext hitems.1 (Prod.ext hitems.2.1 hitems.2.2)
  · rintro rfl
    rfl

/-- Before the bound, the cell is reported as contradictory. -/
def Reported (I : Interpreter) (result : ExtractionResult) (corpus : SurveyCorpus F)
    (key : CoverageKey) : Prop :=
  ∃ c ∈ (contradictions (orderedCells (coverageMatrix I result corpus)) : List (GapCandidate F)),
    c.subject = subjectOf key

theorem reported_iff {I : Interpreter} {result : ExtractionResult} {corpus : SurveyCorpus F}
    {key : CoverageKey} : Reported I result corpus key ↔
      Clash (relationsAt I result key) ∧ Spans corpus (relationsAt I result key) := by
  have hclashes : (coverageCell corpus key (relationsAt I result key)).clashes ≠ [] ↔ _ :=
    clashes_iff
  have hdocuments : 2 ≤ (coverageCell corpus key (relationsAt I result key)).docIds.length ↔ _ :=
    spans_iff
  rw [Reported, ← hclashes, ← hdocuments]
  simp only [contradictions, List.mem_map, List.mem_filter, decide_eq_true_eq, mem_orderedCells]
  constructor
  · rintro ⟨c, ⟨cell, ⟨⟨key', hget⟩, hclash, hspans⟩, rfl⟩, hsubject⟩
    have hkey : cell.key = key := subjectOf_inj.mp hsubject
    rw [key_of_get hget] at hkey
    rw [← hkey, ← (get_coverageMatrix_eq_some.mp hget).2]
    exact ⟨hclash, hspans⟩
  · rintro ⟨hclash, hspans⟩
    have hne : relationsAt I result key ≠ [] := by
      intro hnil
      have hnone : (coverageCell corpus key []).docIds.length = 0 := rfl
      rw [hnil, hnone] at hspans
      cases hspans
    exact ⟨_, ⟨_, ⟨⟨key, get_coverageMatrix_eq_some.mpr ⟨hne, rfl⟩⟩, hclash, hspans⟩, rfl⟩, rfl⟩

/-- Two relations of opposed directions with passages of two documents. -/
def Contradicts (corpus : SurveyCorpus F) (relations : List ExtractedRelation) : Prop :=
  ∃ pair ∈ opposed, ∃ r ∈ relations, ∃ s ∈ relations, r.direction = pair.1 ∧
    s.direction = pair.2 ∧ ∃ d d', docOf corpus r = some d ∧ docOf corpus s = some d' ∧ d ≠ d'

theorem Contradicts.clash {corpus : SurveyCorpus F} {relations : List ExtractedRelation}
    (h : Contradicts corpus relations) : Clash relations ∧ Spans corpus relations := by
  obtain ⟨pair, hpair, r, hr, s, hs, hrd, hsd, hdocs⟩ := h
  exact ⟨⟨pair, hpair, ⟨r, hr, hrd⟩, s, hs, hsd⟩, r, hr, s, hs, hdocs⟩

/-- The relations with one of two directions. -/
def directed (pair : PyStr × PyStr) (relations : List ExtractedRelation) :
    List ExtractedRelation :=
  relations.filter fun r => r.direction = pair.1 ∨ r.direction = pair.2

/-- Opposed relations have documents, and two documents between them. -/
def Apart (corpus : SurveyCorpus F) (relations : List ExtractedRelation) : Prop :=
  ∃ pair ∈ opposed, (∃ r ∈ relations, r.direction = pair.1 ∧ (docOf corpus r).isSome) ∧
    (∃ r ∈ relations, r.direction = pair.2 ∧ (docOf corpus r).isSome) ∧
      Spans corpus (directed pair relations)

theorem contradicts_iff_apart {corpus : SurveyCorpus F} {relations : List ExtractedRelation} :
    Contradicts corpus relations ↔ Apart corpus relations := by
  constructor
  · rintro ⟨pair, hpair, r, hr, s, hs, hrd, hsd, d, d', hd, hd', hne⟩
    refine ⟨pair, hpair, ⟨r, hr, hrd, by rw [hd]; rfl⟩, ⟨s, hs, hsd, by rw [hd']; rfl⟩, r, ?_, s,
      ?_, d, d', hd, hd', hne⟩
    · simp [directed, hr, hrd]
    · simp [directed, hs, hsd]
  · rintro ⟨pair, hpair, ⟨r, hr, hrd, hrsome⟩, ⟨s, hs, hsd, hssome⟩, x, hx, y, hy, a, b, ha, hb,
      hne⟩
    obtain ⟨d, hd⟩ := Option.isSome_iff_exists.mp hrsome
    obtain ⟨d', hd'⟩ := Option.isSome_iff_exists.mp hssome
    by_cases hdd : d = d'
    · -- one of the two documents of the directed relations is another
      have hother : ∃ z ∈ directed pair relations, ∃ e, docOf corpus z = some e ∧ e ≠ d := by
        by_cases had : a = d
        · exact ⟨y, hy, b, hb, fun hbd => hne (had.trans hbd.symm)⟩
        · exact ⟨x, hx, a, ha, had⟩
      obtain ⟨z, hz, e, he, hed⟩ := hother
      obtain ⟨hz, hdirection⟩ := List.mem_filter.mp hz
      rcases of_decide_eq_true hdirection with hzd | hzd
      · exact ⟨pair, hpair, z, hz, s, hs, hzd, hsd, e, d', he, hd', hdd ▸ hed⟩
      · exact ⟨pair, hpair, r, hr, z, hz, hrd, hzd, d, e, hd, he, Ne.symm hed⟩
    · exact ⟨pair, hpair, r, hr, s, hs, hrd, hsd, d, d', hd, hd', hdd⟩

/-- A cell is reported for a contradiction between two documents and for nothing else, unless
its second document is not one of the opposed relations. -/
theorem reported_iff_contradicts (I : Interpreter) (result : ExtractionResult)
    (corpus : SurveyCorpus F) (key : CoverageKey) :
    (Reported I result corpus key ↔ Contradicts corpus (relationsAt I result key)) ↔
      (Clash (relationsAt I result key) ∧ Spans corpus (relationsAt I result key) →
        Apart corpus (relationsAt I result key)) := by
  rw [reported_iff, ← contradicts_iff_apart]
  constructor
  · exact fun h => h.mp
  · exact fun h => ⟨h, Contradicts.clash⟩

/-! ## One paper and a bystander -/

/-- A relation of one cell. -/
def oxideRelation (relationId passageId direction : PyStr) : ExtractedRelation where
  relationId
  passageId
  material := py "oxide"
  structuralFeature := py "vacancies"
  propertyName := py "ZT"
  direction
  quote := py "Vacancies change ZT."
  composition := []
  value := []
  unit := []
  temperatureK := []
  method := py "dft"
  vocabulary := py "v1"

def oxidePassage (passageId docId : PyStr) : SurveyPassage NonFinite :=
  ⟨passageId, docId, py "q1", py "Vacancies change ZT.", py "Vacancies change ZT.", none, none, none,
    py "agentic-search", sciverse⟩

/-- Both directions in one document, and a relation without a direction in another. -/
def regimeChange : ExtractionResult :=
  { ExtractionResult.new with
    relations := collect (·.relationId) [oxideRelation (py "r1") (py "p1") (py "increase"),
      oxideRelation (py "r2") (py "p1") (py "decrease"),
      oxideRelation (py "r3") (py "p2") (py "unclear")] }

def twoPapers : SurveyCorpus NonFinite where
  topic := SurveyRoundTrip.sampleTopic
  documents := empty
  passages := collect (·.passageId) [oxidePassage (py "p1") (py "u1"),
    oxidePassage (py "p2") (py "u2")]
  queries := empty

def oxideKey : CoverageKey := (py "oxide", py "vacancies", py "ZT")

theorem relationsAt_regimeChange : relationsAt QuoteGate.sampleInterpreter regimeChange oxideKey =
    [oxideRelation (py "r1") (py "p1") (py "increase"),
      oxideRelation (py "r2") (py "p1") (py "decrease"),
      oxideRelation (py "r3") (py "p2") (py "unclear")] := by
  decide +kernel

/-- Reported, though one document holds both opposed relations. -/
theorem regimeChange_reported :
    Reported QuoteGate.sampleInterpreter regimeChange twoPapers oxideKey ∧
      ¬ Contradicts twoPapers
        (relationsAt QuoteGate.sampleInterpreter regimeChange oxideKey) := by
  have hdocs : ∀ r ∈ relationsAt QuoteGate.sampleInterpreter regimeChange oxideKey,
      r.direction ≠ py "unclear" → docOf twoPapers r = some (py "u1") := by
    rw [relationsAt_regimeChange]
    decide +kernel
  constructor
  · rw [reported_iff, relationsAt_regimeChange]
    constructor
    · exact ⟨(py "increase", py "decrease"), by decide, ⟨_, List.mem_cons_self, rfl⟩, _,
        List.mem_cons_of_mem _ List.mem_cons_self, rfl⟩
    · exact ⟨_, List.mem_cons_self, oxideRelation (py "r3") (py "p2") (py "unclear"), by simp,
        py "u1", py "u2", by decide +kernel, by decide +kernel, by decide⟩
  · rintro ⟨pair, hpair, r, hr, s, hs, hrd, hsd, d, d', hd, hd', hne⟩
    rw [opposed, List.mem_singleton] at hpair
    rw [hdocs r hr (by rw [hrd, hpair]; decide)] at hd
    rw [hdocs s hs (by rw [hsd, hpair]; decide)] at hd'
    exact hne (Option.some.inj (hd.symm.trans hd'))

end GapCandidates
