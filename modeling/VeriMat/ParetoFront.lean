import VeriMat.ParetoArchive

/-! # The front of results with distinct ids

The loop of `pareto_front` then keeps every result, and the front is what none dominates. The
tolerance makes dominance no order: near ties add up along a chain, and a chain of them can come
back to its start. -/
namespace ParetoSearch

open PyText JsonText PyValue PyDict

variable {F : Type}

/-! ## Dominance -/

theorem mem_zip_toList {left right : Vector ℚ 7} {p : ℚ × ℚ} :
    p ∈ left.toList.zip right.toList ↔ ∃ i : Fin 7, p = (left[i], right[i]) := by
  rw [← Vector.toList_zip, Vector.mem_toList_iff, Vector.mem_iff_getElem]
  constructor
  · rintro ⟨i, hi, heq⟩
    exact ⟨⟨i, hi⟩, by rw [← heq, Vector.getElem_zip]; rfl⟩
  · rintro ⟨i, heq⟩
    exact ⟨i.1, i.2, by rw [heq, Vector.getElem_zip]; rfl⟩

theorem dominates_iff {left right : ObjectiveVector} : dominates left right = true ↔
    (∀ i : Fin 7, right.values[i] ≤ left.values[i] + tolerance) ∧
      ∃ i : Fin 7, right.values[i] + tolerance < left.values[i] := by
  rw [dominates, Bool.and_eq_true, List.all_eq_true, List.any_eq_true]
  apply and_congr
  · constructor
    · intro h i
      simpa using h _ (mem_zip_toList.mpr ⟨i, rfl⟩)
    · intro h p hp
      obtain ⟨i, rfl⟩ := mem_zip_toList.mp hp
      simpa using h i
  · constructor
    · rintro ⟨p, hp, hlt⟩
      obtain ⟨i, rfl⟩ := mem_zip_toList.mp hp
      exact ⟨i, by simpa using hlt⟩
    · rintro ⟨i, hlt⟩
      exact ⟨_, mem_zip_toList.mpr ⟨i, rfl⟩, by simpa using hlt⟩

theorem tolerance_pos : 0 < tolerance := by norm_num [tolerance]

theorem not_dominates_self (o : ObjectiveVector) : dominates o o = false := by
  rw [← Bool.not_eq_true, dominates_iff]
  rintro ⟨_, i, hi⟩
  linarith [tolerance_pos]

/-! ## What the loop keeps -/

/-- No two results have one id. -/
def DistinctIds (results : List (SearchResult F)) : Prop :=
  (results.map fun r => r.hypothesis.hypothesisId).Nodup

theorem DistinctIds.eq_of_id {results : List (SearchResult F)} (h : DistinctIds results)
    {r s : SearchResult F} (hr : r ∈ results) (hs : s ∈ results)
    (hid : r.hypothesis.hypothesisId = s.hypothesis.hypothesisId) : r = s :=
  List.inj_on_of_nodup_map h hr hs hid

theorem DistinctIds.perm {results results' : List (SearchResult F)} (h : DistinctIds results)
    (hperm : results.Perm results') : DistinctIds results' :=
  (hperm.map _).nodup_iff.mp h

/-- With distinct ids the loop never compares two results. -/
theorem values_keepBest {results : List (SearchResult F)} :
    ∀ {best : Dict PyStr (SearchResult F)},
      (best.items.map Prod.fst ++ results.map fun r => r.hypothesis.hypothesisId).Nodup →
        (results.foldl keepBest best).values = best.values ++ results := by
  induction results with
  | nil => exact fun _ => (List.append_nil _).symm
  | cons r results ih =>
    intro best h
    obtain ⟨hbest, hresults, hdisjoint⟩ := List.nodup_append.mp h
    have hnew : r.hypothesis.hypothesisId ∉ best.items.map Prod.fst := fun hmem =>
      hdisjoint _ hmem _ List.mem_cons_self rfl
    have hget : best.get r.hypothesis.hypothesisId = none := by
      cases hget : best.get r.hypothesis.hypothesisId with
      | none => rfl
      | some previous => exact absurd (List.mem_map_of_mem (Dict.get_eq_some.mp hget)) hnew
    have hitems : (keepBest best r).items = best.items ++ [(r.hypothesis.hypothesisId, r)] := by
      rw [keepBest, hget]
      exact setItem_of_notMem hnew
    rw [List.foldl_cons, ih, Dict.values, hitems, List.map_append, List.append_assoc]
    · rfl
    · rw [hitems, List.map_append, List.append_assoc]
      exact h

/-! ## What the front holds -/

/-- No result given dominates this one. -/
def Undominated (results : List (SearchResult F)) (r : SearchResult F) : Prop :=
  ∀ s ∈ results, dominates s.objectives r.objectives = false

instance : IsTrans (SearchResult F) archiveOrder where
  trans a b c := by
    rintro (hab | ⟨hab, hab'⟩) (hbc | ⟨hbc, hbc'⟩)
    · exact Or.inl (hab.trans hbc)
    · exact Or.inl (hbc ▸ hab)
    · exact Or.inl (hab ▸ hbc)
    · exact Or.inr ⟨hab.trans hbc, hab'.trans hbc'⟩

instance : Std.Total (archiveOrder (F := F)) where
  total a b := by
    rcases lt_trichotomy a.hypothesis.hypothesisId b.hypothesis.hypothesisId with h | h | h
    · exact Or.inl (Or.inl h)
    · rcases Nat.le_total a.iteration b.iteration with hle | hle
      · exact Or.inl (Or.inr ⟨h, hle⟩)
      · exact Or.inr (Or.inr ⟨h.symm, hle⟩)
    · exact Or.inr (Or.inl h)

theorem archiveOrder_id {a b : SearchResult F} (hab : archiveOrder a b) (hba : archiveOrder b a) :
    a.hypothesis.hypothesisId = b.hypothesis.hypothesisId := by
  rcases hab with hab | hab
  · rcases hba with hba | hba
    · exact absurd hba hab.asymm
    · exact hba.1.symm
  · exact hab.1

/-- The filter of `pareto_front` without the test that leaves out the result itself. -/
def undominatedOf (results : List (SearchResult F)) : List (SearchResult F) :=
  results.filter fun r => !results.any fun s => dominates s.objectives r.objectives

theorem mem_undominatedOf {results : List (SearchResult F)} {r : SearchResult F} :
    r ∈ undominatedOf results ↔ r ∈ results ∧ Undominated results r := by
  simp [undominatedOf, Undominated]

theorem undominatedOf_perm {results results' : List (SearchResult F)}
    (h : results.Perm results') : (undominatedOf results).Perm (undominatedOf results') := by
  have hany : ∀ r : SearchResult F, (results.any fun s => dominates s.objectives r.objectives) =
      results'.any fun s => dominates s.objectives r.objectives := fun r => h.any_eq
  simp only [undominatedOf, hany]
  exact h.filter _

theorem paretoFront_eq {results : List (SearchResult F)} (h : DistinctIds results) :
    paretoFront results = (undominatedOf results).insertionSort archiveOrder := by
  have hvalues : (results.foldl keepBest empty).values = empty.values ++ results :=
    values_keepBest h
  rw [paretoFront, hvalues]
  congr 1
  apply List.filter_congr
  intro r hr
  congr 1
  rw [Bool.eq_iff_iff, List.any_eq_true, List.any_eq_true]
  apply exists_congr
  intro s
  apply and_congr_right
  intro hs
  rw [Bool.and_eq_true, bne_iff_ne]
  constructor
  · exact And.right
  · intro hdom
    refine ⟨fun hid => ?_, hdom⟩
    rw [h.eq_of_id hs hr hid, not_dominates_self] at hdom
    cases hdom

theorem mem_paretoFront_iff {results : List (SearchResult F)} (h : DistinctIds results)
    {r : SearchResult F} : r ∈ paretoFront results ↔ r ∈ results ∧ Undominated results r := by
  rw [paretoFront_eq h, List.mem_insertionSort, mem_undominatedOf]

/-- The ids order the front, whatever order the results come in. -/
theorem paretoFront_perm {results results' : List (SearchResult F)} (h : DistinctIds results)
    (hperm : results.Perm results') : paretoFront results = paretoFront results' := by
  have hfront := undominatedOf_perm hperm
  have hsame := (List.perm_insertionSort archiveOrder (undominatedOf results)).trans
    (hfront.trans (List.perm_insertionSort archiveOrder (undominatedOf results')).symm)
  rw [paretoFront_eq h, paretoFront_eq (h.perm hperm)]
  refine List.Perm.eq_of_pairwise (fun a b ha hb hab hba => ?_)
    (List.pairwise_insertionSort _ _) (List.pairwise_insertionSort _ _) hsame
  have hmem : a ∈ results := (mem_undominatedOf.mp ((List.mem_insertionSort _).mp ha)).1
  have hmem' : b ∈ results' := (mem_undominatedOf.mp ((List.mem_insertionSort _).mp hb)).1
  exact h.eq_of_id hmem (hperm.mem_iff.mpr hmem') (archiveOrder_id hab hba)

/-! ## When it is a front -/

/-- What a Pareto front of these results is. -/
structure IsParetoFront (results front : List (SearchResult F)) : Prop where
  nonempty : results ≠ [] → front ≠ []
  undominated : ∀ r ∈ front, Undominated results r
  covers : ∀ r ∈ results, r ∉ front →
    ∃ s ∈ front, dominates s.objectives r.objectives = true

/-- Of the results that dominate one, if there are any, none dominates at least one. -/
def Anchored (results : List (SearchResult F)) : Prop :=
  ∀ r ∈ results, (∃ s ∈ results, dominates s.objectives r.objectives = true) →
    ∃ s ∈ results, dominates s.objectives r.objectives = true ∧ Undominated results s

theorem not_undominated {results : List (SearchResult F)} {r : SearchResult F} :
    ¬ Undominated results r ↔ ∃ s ∈ results, dominates s.objectives r.objectives = true := by
  simp [Undominated]

/-- Distinct results with the three properties of a front, whatever the order they come in,
exactly when a dominated one has a dominator that nothing dominates. -/
theorem paretoFront_isParetoFront_iff (results : List (SearchResult F))
    (h : DistinctIds results) :
    (IsParetoFront results (paretoFront results) ∧
      ∀ results', results.Perm results' → paretoFront results' = paretoFront results) ↔
    Anchored results := by
  constructor
  · rintro ⟨hfront, _⟩ r hr hdominated
    have hout : r ∉ paretoFront results := fun hmem =>
      not_undominated.mpr hdominated ((mem_paretoFront_iff h).mp hmem).2
    obtain ⟨s, hs, hdom⟩ := hfront.covers r hr hout
    obtain ⟨hmem, hbest⟩ := (mem_paretoFront_iff h).mp hs
    exact ⟨s, hmem, hdom, hbest⟩
  · intro hanchored
    have hcovers : ∀ r ∈ results, r ∉ paretoFront results →
        ∃ s ∈ paretoFront results, dominates s.objectives r.objectives = true := by
      intro r hr hout
      have hdominated : ¬ Undominated results r := fun hbest =>
        hout ((mem_paretoFront_iff h).mpr ⟨hr, hbest⟩)
      obtain ⟨s, hs, hdom, hbest⟩ := hanchored r hr (not_undominated.mp hdominated)
      exact ⟨s, (mem_paretoFront_iff h).mpr ⟨hs, hbest⟩, hdom⟩
    refine ⟨⟨?_, fun r hr => ((mem_paretoFront_iff h).mp hr).2, hcovers⟩,
      fun results' hperm => (paretoFront_perm h hperm).symm⟩
    intro hne hempty
    obtain ⟨r, hr⟩ := List.exists_mem_of_ne_nil results hne
    obtain ⟨s, hs, _⟩ := hcovers r hr (hempty ▸ List.not_mem_nil)
    exact List.ne_nil_of_mem hs hempty

/-! ## Without near ties -/

/-- Dominance carried along chains leaves a last dominator. -/
theorem anchored_of_trans {results : List (SearchResult F)}
    (htrans : ∀ r ∈ results, ∀ s ∈ results, ∀ t ∈ results,
      dominates t.objectives s.objectives = true → dominates s.objectives r.objectives = true →
        dominates t.objectives r.objectives = true) : Anchored results := by
  rintro r hr ⟨s, hs, hdom⟩
  have : Finite {t // t ∈ results} := results.finite_toSet
  let above (t s : {t // t ∈ results}) : Prop := dominates t.1.objectives s.1.objectives = true
  have : IsTrans _ above := ⟨fun t s r hts hsr => htrans r.1 r.2 s.1 s.2 t.1 t.2 hts hsr⟩
  have : Std.Irrefl above := ⟨fun t ht => by
    change dominates t.1.objectives t.1.objectives = true at ht
    rw [not_dominates_self] at ht
    cases ht⟩
  obtain ⟨m, hm, hlast⟩ := (Finite.wellFounded_of_trans_of_irrefl above).has_min
    {t | dominates t.1.objectives r.objectives = true} ⟨⟨s, hs⟩, hdom⟩
  refine ⟨m.1, m.2, hm, fun t ht => ?_⟩
  by_contra htm
  rw [Bool.not_eq_false] at htm
  exact hlast ⟨t, ht⟩ (htrans r hr m.1 m.2 t ht htm hm) htm

/-- No two values of an objective are within the tolerance of each other without being equal. -/
def Separated (results : List (SearchResult F)) : Prop :=
  ∀ r ∈ results, ∀ s ∈ results, ∀ i : Fin 7, s.objectives.values[i] < r.objectives.values[i] →
    s.objectives.values[i] + tolerance < r.objectives.values[i]

theorem Separated.le {results : List (SearchResult F)} (h : Separated results)
    {r s : SearchResult F} (hr : r ∈ results) (hs : s ∈ results)
    (hdom : dominates s.objectives r.objectives = true) (i : Fin 7) :
    r.objectives.values[i] ≤ s.objectives.values[i] := by
  by_contra hlt
  have hfar := h r hr s hs i (not_le.mp hlt)
  exact absurd ((dominates_iff.mp hdom).1 i) (not_le.mpr hfar)

theorem anchored_of_separated {results : List (SearchResult F)} (h : Separated results) :
    Anchored results := by
  apply anchored_of_trans
  intro r hr s hs t ht hts hsr
  obtain ⟨_, i, hi⟩ := dominates_iff.mp hts
  refine dominates_iff.mpr ⟨fun j => ?_, i, ?_⟩
  · have hle := (h.le hr hs hsr j).trans (h.le hs ht hts j)
    linarith [tolerance_pos]
  · linarith [h.le hr hs hsr i]

/-! ## Three near ties -/

/-- A result with these values in three objectives and the same in the others. -/
def nearTie (id : PyStr) (x y z : ℚ) (valid : ∀ v ∈ [x, y, z, 1 / 2, 1 / 2, 1 / 2, 1 / 2],
    0 ≤ v ∧ v ≤ 1) : SearchResult NonFinite where
  hypothesis := ⟨id, py "claim", py "boundary", [py "doc@1"], [py "query"], [py "check"], []⟩
  objectives := ⟨⟨#[x, y, z, 1 / 2, 1 / 2, 1 / 2, 1 / 2], rfl⟩, valid⟩
  path := []
  iteration := 0

/-- Each gains one and a half tolerances in one objective over the next, and loses less than one
in two. -/
def cyclicTies : List (SearchResult NonFinite) :=
  [nearTie (py "a") (1 / 2 + 3 / 4 * tolerance) (1 / 2 + 3 / 4 * tolerance)
      (1 / 2 - 3 / 2 * tolerance) (by decide +kernel),
    nearTie (py "b") (1 / 2 - 3 / 4 * tolerance) (1 / 2 + 3 / 2 * tolerance)
      (1 / 2 - 3 / 4 * tolerance) (by decide +kernel),
    nearTie (py "c") (1 / 2) (1 / 2) (1 / 2) (by decide +kernel)]

theorem cyclicTies_distinct : DistinctIds cyclicTies := by
  unfold DistinctIds
  decide +kernel

/-- One result better than another everywhere it differs, and by far. -/
def farApart : List (SearchResult NonFinite) :=
  [nearTie (py "a") (1 / 4) (1 / 2) 0 (by decide +kernel),
    nearTie (py "b") (3 / 4) (1 / 2) 1 (by decide +kernel)]

theorem farApart_front : DistinctIds farApart ∧
    IsParetoFront farApart (paretoFront farApart) := by
  have hdistinct : DistinctIds farApart := by
    unfold DistinctIds
    decide +kernel
  have hseparated : Separated farApart := by
    unfold Separated
    decide +kernel
  exact ⟨hdistinct, ((paretoFront_isParetoFront_iff farApart hdistinct).mpr
    (anchored_of_separated hseparated)).1⟩

/-- A front of no results, from three. -/
theorem paretoFront_cyclicTies : cyclicTies ≠ [] ∧ DistinctIds cyclicTies ∧
    paretoFront cyclicTies = [] ∧
    ¬ IsParetoFront cyclicTies (paretoFront cyclicTies) := by
  have hempty : paretoFront cyclicTies = [] := by
    rw [paretoFront_eq cyclicTies_distinct]
    have hnone : undominatedOf cyclicTies = [] := List.eq_nil_iff_length_eq_zero.mpr (by
      decide +kernel)
    rw [hnone]
    rfl
  refine ⟨List.cons_ne_nil _ _, cyclicTies_distinct, hempty, fun h => ?_⟩
  exact h.nonempty (List.cons_ne_nil _ _) hempty

end ParetoSearch
