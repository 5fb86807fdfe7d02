import VeriMat.GapHoles

/-! # Gap detection

The relations are sorted before they are grouped, so the order in which they were recorded is
lost in the first step. The bound on a kind keeps the first candidates and counts the others. -/
namespace GapCandidates

open PyText JsonText PyValue PyDict KeyedRecords Grouping Events SurveyRecords RelationExtraction
  Fallible
open Verification (Interpreter)

variable {F : Type}

/-! ## The order of insertion -/

/-- Values in the order of their keys, whatever order they were stored in. -/
theorem sortedValues_perm {ν : Type} {d d' : Dict PyStr ν} (h : d.items.Perm d'.items) :
    sortedValues d = sortedValues d' :=
  congrArg Dict.values (inOrder_perm h)

theorem coverageMatrix_perm (I : Interpreter) {result result' : ExtractionResult}
    {corpus corpus' : SurveyCorpus F}
    (hrelations : result.relations.items.Perm result'.relations.items)
    (hpassages : corpus.passages.items.Perm corpus'.passages.items) :
    coverageMatrix I result corpus = coverageMatrix I result' corpus' := by
  have hget : corpus.passages.get = corpus'.passages.get := funext (get_perm hpassages)
  have hcell : coverageCell corpus = coverageCell corpus' := by
    funext key relations
    simp only [coverageCell, docIdsOf, hget]
  rw [coverageMatrix, coverageMatrix, sortedValues_perm hrelations, hcell]

/-! ## Relations and cells -/

/-- The cells hold the relations of their keys, and each relation is in one of them. -/
structure Partitions (I : Interpreter) (result : ExtractionResult)
    (cells : Dict CoverageKey CoverageCell) : Prop where
  whole : (cells.values.flatMap (·.relationIds)).Perm
    (result.relations.values.map (·.relationId))
  filed : ∀ r ∈ result.relations.values, ∃ cell, cells.get (coverageKey I r) = some cell ∧
    r.relationId ∈ cell.relationIds
  once : (∀ p ∈ result.relations.items, p.1 = p.2.relationId) →
    ∀ r ∈ result.relations.values, ∀ key cell, cells.get key = some cell →
      r.relationId ∈ cell.relationIds → key = coverageKey I r
  counted : ∀ key cell, cells.get key = some cell →
    cell.nWithValue = (withKey (coverageKey I) result.relations.values key).countP
      (fun r => !isBlank r.value) ∧
    cell.nWithTemperature = (withKey (coverageKey I) result.relations.values key).countP
      fun r => !isBlank r.temperatureK

theorem partitions_coverageMatrix (I : Interpreter) (result : ExtractionResult)
    (corpus : SurveyCorpus F) : Partitions I result (coverageMatrix I result corpus) where
  whole := by
    have hids : (coverageMatrix I result corpus).values.flatMap (·.relationIds) =
        (groupBy (coverageKey I) (sortedValues result.relations)).values.flatten.map
          (·.relationId) := by
      rw [List.map_flatten, ← List.flatMap_def, Dict.values, Dict.values, coverageMatrix, mapItems,
        List.map_map, List.flatMap_map, List.flatMap_map]
      rfl
    rw [hids]
    exact ((groupBy_perm _ _).trans (values_inOrder result.relations)).map _
  filed r hr := by
    have hmem : r ∈ relationsAt I result (coverageKey I r) := mem_relationsAt.mpr ⟨hr, rfl⟩
    exact ⟨_, get_coverageMatrix_eq_some.mpr ⟨List.ne_nil_of_mem hmem, rfl⟩,
      List.mem_map_of_mem hmem⟩
  once hown r hr key cell hget hid := by
    rw [(get_coverageMatrix_eq_some.mp hget).2] at hid
    obtain ⟨s, hs, heq⟩ := List.mem_map.mp hid
    obtain ⟨hs, hkey⟩ := mem_relationsAt.mp hs
    obtain ⟨p, hp, rfl⟩ := List.mem_map.mp hr
    obtain ⟨q, hq, rfl⟩ := List.mem_map.mp hs
    have hsame : p = q := by
      apply List.inj_on_of_nodup_map result.relations.nodup hp hq
      rw [hown p hp, hown q hq, heq]
    rw [hsame, hkey]
  counted key cell hget := by
    have hperm : (relationsAt I result key).Perm
        (withKey (coverageKey I) result.relations.values key) :=
      (values_inOrder result.relations).filter _
    rw [(get_coverageMatrix_eq_some.mp hget).2]
    exact ⟨hperm.countP_eq _, hperm.countP_eq _⟩

/-! ## Sorting -/

section Sorting
variable [PyFloat F] (I : Interpreter)

instance : IsTrans (SortKey × GapCandidate F) fun a b => a.1 ≤ b.1 :=
  ⟨fun _ _ _ h k => le_trans (α := SortKey) h k⟩

instance : Std.Total fun a b : SortKey × GapCandidate F => a.1 ≤ b.1 :=
  ⟨fun a b => le_total a.1 b.1⟩

/-- The one candidate sorts before the other, or like it. -/
def SortsBefore (a b : GapCandidate F) : Prop :=
  ∃ k k', a.sortKey I = .ok k ∧ b.sortKey I = .ok k' ∧ k ≤ k'

variable {I}

theorem sortCandidates_spec {batch sorted : List (GapCandidate F)}
    (h : sortCandidates I batch = .ok sorted) :
    sorted.Perm batch ∧ sorted.Pairwise (SortsBefore I) := by
  obtain ⟨keyed, hkeyed, hsorted⟩ := bind_eq_ok.mp h
  cases hsorted
  have hkeys : List.Forall₂ (fun c p => c.sortKey I = .ok p.1 ∧ c = p.2) batch keyed := by
    refine (mapM_eq_ok.mp hkeyed).imp fun c p hp => ?_
    obtain ⟨k, hk, hpair⟩ := bind_eq_ok.mp hp
    cases hpair
    exact ⟨hk, rfl⟩
  have hbatch : batch = keyed.map Prod.snd := by
    have hsame : List.Forall₂ Eq batch (keyed.map Prod.snd) := by
      rw [List.forall₂_map_right_iff]
      exact hkeys.imp fun _ _ h => h.2
    rwa [List.forall₂_eq_eq_eq] at hsame
  have hown : ∀ p ∈ keyed, p.2.sortKey I = .ok p.1 := by
    intro p hp
    obtain ⟨c, _, hk, rfl⟩ := DurablePayload.exists_left hkeys hp
    exact hk
  have hperm := List.perm_insertionSort (fun a b : SortKey × GapCandidate F => a.1 ≤ b.1) keyed
  constructor
  · rw [hbatch]
    exact hperm.map Prod.snd
  · rw [List.pairwise_map]
    refine (List.pairwise_insertionSort _ keyed).imp_of_mem fun hp hq hle => ?_
    exact ⟨_, _, hown _ (hperm.mem_iff.mp hp), hown _ (hperm.mem_iff.mp hq), hle⟩

/-! ## The bound -/

/-- Of a kind's candidates the first are in the set, and the others are counted. -/
def Bounded (I : Interpreter) (set : CandidateSet F)
    (entry : PyStr × List (GapCandidate F)) : Prop :=
  ∃ left : List (GapCandidate F),
    (set.candidates.filter (fun c => c.kind = entry.1) ++ left).Perm entry.2 ∧
      (∀ c ∈ set.candidates, c.kind = entry.1 → ∀ c' ∈ left, SortsBefore I c c') ∧
      (set.suppressed.get entry.1).getD 0 = left.length

/-- What is known after some kinds. -/
structure Collected (I : Interpreter) (done : List (PyStr × List (GapCandidate F)))
    (set : CandidateSet F) : Prop where
  bounded : ∀ entry ∈ done, Bounded I set entry
  kinds : ∀ c ∈ set.candidates, c.kind ∈ done.map Prod.fst
  uncounted : ∀ kind, kind ∉ done.map Prod.fst → set.suppressed.get kind = none

theorem sliceTo_append {α : Type} (xs : List α) {n : ℤ} (h : 0 ≤ n) :
    ∃ left, xs = sliceTo xs n ++ left ∧
      (left.length : ℤ) = if n < xs.length then xs.length - n else 0 := by
  refine ⟨xs.drop n.toNat, ?_, ?_⟩
  · rw [sliceTo, if_pos h, List.take_append_drop]
  · rw [List.length_drop]
    split_ifs with hlt <;> omega

theorem Collected.addBatch {maxPerKind : ℤ} (hmax : 0 ≤ maxPerKind)
    {done : List (PyStr × List (GapCandidate F))} {set set' : CandidateSet F}
    {entry : PyStr × List (GapCandidate F)} (h : Collected I done set)
    (hnew : entry.1 ∉ done.map Prod.fst) (hkind : ∀ c ∈ entry.2, c.kind = entry.1)
    (hadd : addBatch I maxPerKind set entry = .ok set') :
    Collected I (done ++ [entry]) set' := by
  obtain ⟨batch, hbatch, hset⟩ := bind_eq_ok.mp hadd
  cases hset
  obtain ⟨hperm, hsorted⟩ := sortCandidates_spec hbatch
  obtain ⟨left, hleft, hlength⟩ := sliceTo_append batch hmax
  have hkinds : ∀ c ∈ batch, c.kind = entry.1 := fun c hc => hkind c (hperm.mem_iff.mp hc)
  have hadded : ∀ c ∈ sliceTo batch maxPerKind, c.kind = entry.1 := fun c hc =>
    hkinds c (hleft ▸ List.mem_append_left _ hc)
  have hold : ∀ c ∈ set.candidates, c.kind ≠ entry.1 := fun c hc heq =>
    hnew (heq ▸ h.kinds c hc)
  have hget : ∀ kind, (if maxPerKind < batch.length then
        set.suppressed.set entry.1 (batch.length - maxPerKind) else set.suppressed).get kind =
      if kind = entry.1 then
        if maxPerKind < batch.length then some (batch.length - maxPerKind) else none
      else set.suppressed.get kind := by
    intro kind
    by_cases hlt : maxPerKind < batch.length
    · simp only [if_pos hlt, Dict.get_set]
    · simp only [if_neg hlt]
      by_cases hk : kind = entry.1
      · rw [if_pos hk, hk, h.uncounted _ hnew]
      · rw [if_neg hk]
  refine ⟨fun e he => ?_, fun c hc => ?_, fun kind hkind' => ?_⟩
  · rcases List.mem_append.mp he with he | he
    · -- an earlier kind: nothing of it was added
      obtain ⟨left', hperm', hbefore, hcount⟩ := h.bounded e he
      have hne : e.1 ≠ entry.1 := fun heq => hnew (heq ▸ List.mem_map_of_mem he)
      have hnone : (sliceTo batch maxPerKind).filter (fun c => c.kind = e.1) = [] := by
        rw [List.filter_eq_nil_iff]
        intro c hc heq
        exact hne ((of_decide_eq_true heq).symm.trans (hadded c hc))
      refine ⟨left', ?_, ?_, ?_⟩
      · rw [List.filter_append, hnone, List.append_nil]
        exact hperm'
      · intro c hc hck
        rcases List.mem_append.mp hc with hc | hc
        · exact hbefore c hc hck
        · exact absurd (hck.symm.trans (hadded c hc)) hne
      · rw [hget, if_neg hne]
        exact hcount
    · rw [List.mem_singleton] at he
      subst he
      have hnone : set.candidates.filter (fun c => c.kind = e.1) = [] := by
        rw [List.filter_eq_nil_iff]
        exact fun c hc heq => hold c hc (of_decide_eq_true heq)
      have hall : (sliceTo batch maxPerKind).filter (fun c => c.kind = e.1) =
          sliceTo batch maxPerKind := by
        rw [List.filter_eq_self]
        exact fun c hc => decide_eq_true (hadded c hc)
      refine ⟨left, ?_, ?_, ?_⟩
      · rw [List.filter_append, hnone, hall, List.nil_append, ← hleft]
        exact hperm
      · intro c hc hck c' hc'
        rcases List.mem_append.mp hc with hc | hc
        · exact absurd hck (hold c hc)
        · rw [hleft] at hsorted
          exact (List.pairwise_append.mp hsorted).2.2 c hc c' hc'
      · rw [hget, if_pos rfl, hlength]
        by_cases hlt : maxPerKind < batch.length
        · rw [if_pos hlt, if_pos hlt]
          rfl
        · rw [if_neg hlt, if_neg hlt]
          rfl
  · rw [List.map_append, List.mem_append]
    rcases List.mem_append.mp hc with hc | hc
    · exact .inl (h.kinds c hc)
    · exact .inr (by simp [hadded c hc])
  · rw [List.map_append, List.mem_append, not_or] at hkind'
    have hne : kind ≠ entry.1 := fun heq => hkind'.2 (by simp [heq])
    rw [hget, if_neg hne]
    exact h.uncounted kind hkind'.1

theorem collected_foldlM {maxPerKind : ℤ} (hmax : 0 ≤ maxPerKind)
    {entries : List (PyStr × List (GapCandidate F))} (hkinds : (entries.map Prod.fst).Nodup)
    (hown : ∀ entry ∈ entries, ∀ c ∈ entry.2, c.kind = entry.1) :
    ∀ {set : CandidateSet F}, entries.foldlM (addBatch I maxPerKind) ⟨[], empty⟩ = .ok set →
      Collected I entries set := by
  induction entries using List.reverseRecOn with
  | nil =>
    rintro set ⟨⟩
    exact ⟨fun _ h => absurd h List.not_mem_nil, fun _ h => absurd h List.not_mem_nil,
      fun _ _ => rfl⟩
  | append_singleton entries entry ih =>
    intro set h
    rw [List.foldlM_append] at h
    obtain ⟨before, hbefore, hlast⟩ := bind_eq_ok.mp h
    obtain ⟨set', hadd, hset⟩ := bind_eq_ok.mp hlast
    cases hset
    rw [List.map_append] at hkinds
    obtain ⟨hnodup, _, hdisjoint⟩ := List.nodup_append.mp hkinds
    have hnew : entry.1 ∉ entries.map Prod.fst := fun hmem =>
      hdisjoint _ hmem _ (List.mem_singleton_self _) rfl
    exact (ih hnodup (fun e he => hown e (List.mem_append_left _ he)) hbefore).addBatch hmax hnew
      (hown entry (List.mem_append_right _ (List.mem_singleton_self _))) hadd

end Sorting

/-! ## Detection -/

/-- Every candidate of a detector has the kind it is filed under. -/
theorem batches_spec (I : Interpreter) (result : ExtractionResult) (corpus : SurveyCorpus F) :
    ∃ detected : List (PyStr × List (GapCandidate F)),
      batches (coverageMatrix I result corpus) = .ok detected ∧
        (detected.map Prod.fst).Nodup ∧
        ∀ entry ∈ detected, ∀ c ∈ entry.2, c.kind = entry.1 := by
  obtain ⟨unexplored, hunexplored, hreports⟩ := unexploredCombinations_spec (F := F)
    (placed_coverageMatrix I result corpus)
  have hkind : ∀ c ∈ unexplored, c.kind = py "unexplored_combination" := by
    intro c hc
    obtain ⟨key, _, hreport⟩ := DurablePayload.exists_left hreports hc
    exact hreport.1
  refine ⟨_, bind_eq_ok.mpr ⟨unexplored, hunexplored, rfl⟩, ?_, ?_⟩
  · change [py "contradictory_evidence", py "single_source", py "missing_condition",
      py "unvalidated_mechanism", py "unexplored_combination"].Nodup
    decide
  intro entry hentry c hc
  simp only [List.mem_cons, List.not_mem_nil, or_false] at hentry
  rcases hentry with rfl | rfl | rfl | rfl | rfl
  · obtain ⟨cell, _, rfl⟩ := List.mem_map.mp hc
    rfl
  · obtain ⟨cell, _, rfl⟩ := List.mem_map.mp hc
    rfl
  · obtain ⟨cell, _, rfl⟩ := List.mem_map.mp hc
    rfl
  · obtain ⟨cell, _, rfl⟩ := List.mem_map.mp hc
    rfl
  · exact hkind c hc

/-- Nothing is lost: what is reported and what is counted make up what was detected. -/
theorem Bounded.count [PyFloat F] {I : Interpreter} {set : CandidateSet F}
    {entry : PyStr × List (GapCandidate F)} (h : Bounded I set entry) :
    ((set.candidates.filter fun c => c.kind = entry.1).length : ℤ) +
      (set.suppressed.get entry.1).getD 0 = entry.2.length := by
  obtain ⟨left, hall, _, hcount⟩ := h
  rw [hcount, ← hall.length_eq, List.length_append]
  rfl

theorem Bounded.perm [PyFloat F] {I : Interpreter} {set : CandidateSet F}
    {entry : PyStr × List (GapCandidate F)} (h : Bounded I set entry)
    {candidates : List (GapCandidate F)} (hperm : candidates.Perm set.candidates) :
    Bounded I ⟨candidates, set.suppressed⟩ entry := by
  obtain ⟨left, hall, hbefore, hcount⟩ := h
  exact ⟨left, ((hperm.filter _).append_right left).trans hall,
    fun c hc => hbefore c (hperm.mem_iff.mp hc), hcount⟩

variable [PyFloat F]

/-- The order in which relations, passages and documents were stored is of no consequence, each
relation is in one cell, and of each kind what was detected is reported or counted, the first
candidates being those that are reported. -/
theorem detection_lossless (I : Interpreter) (maxPerKind : ℤ) {result result' : ExtractionResult}
    {corpus corpus' : SurveyCorpus F}
    (hrelations : result.relations.items.Perm result'.relations.items)
    (hpassages : corpus.passages.items.Perm corpus'.passages.items) :
    (coverageMatrix I result corpus = coverageMatrix I result' corpus' ∧
      findCandidates I maxPerKind result corpus = findCandidates I maxPerKind result' corpus') ∧
    Partitions I result (coverageMatrix I result corpus) ∧
    ∃ detected, batches (coverageMatrix I result corpus) = .ok detected ∧
      ∀ set, findCandidates I maxPerKind result corpus = .ok set → 0 ≤ maxPerKind →
        set.candidates.Pairwise (SortsBefore I) ∧ ∀ entry ∈ detected, Bounded I set entry ∧
          ((set.candidates.filter fun c => c.kind = entry.1).length : ℤ) +
            (set.suppressed.get entry.1).getD 0 = entry.2.length := by
  have hmatrix := coverageMatrix_perm I hrelations hpassages
  obtain ⟨detected, hdetected, hkinds, hown⟩ := batches_spec I result corpus
  refine ⟨⟨hmatrix, by rw [findCandidates, findCandidates, hmatrix]⟩,
    partitions_coverageMatrix I result corpus, detected, hdetected, fun set hset hmax => ?_⟩
  obtain ⟨_, hbatches, hrest⟩ := bind_eq_ok.mp hset
  cases hdetected.symm.trans hbatches
  obtain ⟨found, hfound, hrest⟩ := bind_eq_ok.mp hrest
  obtain ⟨sorted, hsorted, hlast⟩ := bind_eq_ok.mp hrest
  cases hlast
  obtain ⟨hperm, hpairwise⟩ := sortCandidates_spec hsorted
  refine ⟨hpairwise, fun entry hentry => ?_⟩
  have hbounded := ((collected_foldlM hmax hkinds hown hfound).bounded entry hentry).perm hperm
  exact ⟨hbounded, hbounded.count⟩

/-- The same relations and passages, stored the other way round. -/
def regimeReversed : ExtractionResult :=
  { ExtractionResult.new with
    relations := collect (·.relationId) [oxideRelation (py "r3") (py "p2") (py "unclear"),
      oxideRelation (py "r2") (py "p1") (py "decrease"),
      oxideRelation (py "r1") (py "p1") (py "increase")] }

def papersReversed : SurveyCorpus NonFinite where
  topic := SurveyRoundTrip.sampleTopic
  documents := empty.set (py "u1") SurveyRoundTrip.sampleDocument
  passages := collect (·.passageId) [oxidePassage (py "p2") (py "u2"),
    oxidePassage (py "p1") (py "u1")]
  queries := empty

theorem detection_reversed :
    findCandidates QuoteGate.sampleInterpreter maxCandidatesPerKind regimeChange twoPapers =
      findCandidates QuoteGate.sampleInterpreter maxCandidatesPerKind regimeReversed
        papersReversed :=
  (detection_lossless QuoteGate.sampleInterpreter maxCandidatesPerKind (by decide +kernel)
    (by decide +kernel)).1.2

end GapCandidates
