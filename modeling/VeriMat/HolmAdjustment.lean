import Mathlib

/-! # Holm's step-down adjustment

`holm` of `experiments/scoring.py` fills a list by rank; `_holm` of `evaluation/statistics.py`
writes into its records. Both take a running maximum along the sorted p-values. -/
namespace HolmAdjustment

/-! ## Running maxima -/

section RunningMax

variable {α β : Type} [LinearOrder α]

/-- Every slot named by an entry takes what is made of the maximum of the values so far. -/
def runningMax (f : α → β) (run : α) (slots : List β) : List (ℕ × α) → List β
  | [] => slots
  | (i, x) :: entries => runningMax f (max run x) (slots.set i (f (max run x))) entries

variable {f : α → β}

@[simp] theorem runningMax_length (entries : List (ℕ × α)) (run : α) (slots : List β) :
    (runningMax f run slots entries).length = slots.length := by
  induction entries generalizing run slots with
  | nil => rfl
  | cons e entries ih => rw [runningMax, ih, List.length_set]

/-- A slot no entry names stays as it is. -/
theorem runningMax_other {entries : List (ℕ × α)} {i : ℕ} (hi : i ∉ entries.map Prod.fst)
    (run : α) (slots : List β) : (runningMax f run slots entries)[i]? = slots[i]? := by
  induction entries generalizing run slots with
  | nil => rfl
  | cons e entries ih =>
    rw [List.map_cons, List.mem_cons, not_or] at hi
    rw [runningMax, ih hi.2, List.getElem?_set_ne (Ne.symm hi.1)]

/-- Each named slot holds the greatest of the start and of the values up to its entry. -/
theorem runningMax_greatest {entries : List (ℕ × α)} (hnodup : (entries.map Prod.fst).Nodup)
    {slots : List β} (hlt : ∀ e ∈ entries, e.1 < slots.length) (run : α) {r : ℕ} {e : ℕ × α}
    (he : entries[r]? = some e) :
    ∃ x, (runningMax f run slots entries)[e.1]? = some (f x) ∧
      IsGreatest {y | y = run ∨ ∃ k ≤ r, ∃ d, entries[k]? = some d ∧ y = d.2} x := by
  induction entries generalizing run slots r with
  | nil => cases he
  | cons a entries ih =>
    obtain ⟨hnot, hnodup⟩ := List.nodup_cons.mp hnodup
    have hlt' : ∀ e ∈ entries, e.1 < (slots.set a.1 (f (max run a.2))).length := by
      intro e he
      rw [List.length_set]
      exact hlt e (List.mem_cons_of_mem _ he)
    cases r with
    | zero =>
      obtain rfl : a = e := Option.some.inj he
      refine ⟨max run a.2, ?_, ?_, ?_⟩
      · rw [runningMax, runningMax_other hnot, List.getElem?_set_self (hlt a List.mem_cons_self)]
      · rcases max_choice run a.2 with h | h
        · exact .inl h
        · exact .inr ⟨0, le_rfl, a, rfl, h⟩
      · rintro y (rfl | ⟨k, hk, d, hd, rfl⟩)
        · exact le_max_left _ _
        · obtain rfl : k = 0 := Nat.le_zero.mp hk
          obtain rfl : a = d := Option.some.inj hd
          exact le_max_right _ _
    | succ r =>
      obtain ⟨x, hx, hmem, hub⟩ := ih hnodup hlt' (max run a.2) he
      refine ⟨x, hx, ?_, ?_⟩
      · rcases hmem with rfl | ⟨k, hk, d, hd, rfl⟩
        · rcases max_choice run a.2 with h | h
          · exact .inl h
          · exact .inr ⟨0, Nat.zero_le _, a, rfl, h⟩
        · exact .inr ⟨k + 1, Nat.succ_le_succ hk, d, hd, rfl⟩
      · have hrun : max run a.2 ≤ x := hub (.inl rfl)
        rintro y (rfl | ⟨k, hk, d, hd, rfl⟩)
        · exact (le_max_left _ _).trans hrun
        · cases k with
          | zero =>
            obtain rfl : a = d := Option.some.inj hd
            exact (le_max_right _ _).trans hrun
          | succ k => exact hub (.inr ⟨k, Nat.le_of_succ_le_succ hk, d, hd, rfl⟩)

end RunningMax

/-! ## The two implementations -/

/-- `min(1.0, (m - rank) * p)`. -/
def stepValue (m rank : ℕ) (p : ℚ) : ℚ := min 1 (((m : ℤ) - rank : ℤ) * p)

/-- `sorted(range(len(p_values)), key=lambda i: p_values[i])`. -/
def order (pValues : List ℚ) : List ℕ :=
  (List.range pValues.length).insertionSort fun i j => pValues.getD i 0 ≤ pValues.getD j 0

/-- One turn of the loop of `holm`. -/
def holmStep (pValues : List ℚ) (m : ℕ) (state : ℚ × List ℚ) (entry : ℕ × ℕ) : ℚ × List ℚ :=
  let value := stepValue m entry.2 (pValues.getD entry.1 0)
  let running := max state.1 value
  (running, state.2.set entry.1 running)

/-- `holm`. -/
def holm (pValues : List ℚ) : List ℚ :=
  ((order pValues).zipIdx.foldl (holmStep pValues (order pValues).length)
    (0, List.replicate pValues.length 0)).2

/-- A record of `compare_methods`: what `_holm` reads and writes of it, and the rest. -/
structure Result (R : Type) where
  rest : R
  pValueRaw : ℚ
  pValueHolm : Option ℚ

variable {R : Type}

/-- `sorted(enumerate(results), key=lambda item: item[1]["p_value_raw"])`. -/
def ordered (results : List (Result R)) : List (Result R × ℕ) :=
  results.zipIdx.insertionSort fun a b => a.1.pValueRaw ≤ b.1.pValueRaw

/-- One turn of the loop of `_holm`. -/
def holmRecordStep (total : ℕ) (state : ℚ × List (Result R)) (entry : (Result R × ℕ) × ℕ) :
    ℚ × List (Result R) :=
  let adjusted := stepValue total entry.2 entry.1.1.pValueRaw
  let running := max state.1 adjusted
  (running, state.2.modify entry.1.2 fun r => { r with pValueHolm := some running })

/-- `_holm`: the records as it leaves them. -/
def holmRecords (results : List (Result R)) : List (Result R) :=
  ((ordered results).zipIdx.foldl (holmRecordStep (ordered results).length) (0, results)).2

/-! ## The order -/

section Order

variable (pValues : List ℚ)

theorem getD_mem {pValues : List ℚ} {i : ℕ} (hi : i < pValues.length) :
    pValues.getD i 0 ∈ pValues := by
  rw [List.getD_eq_getElem?_getD, List.getElem?_eq_getElem hi]
  exact List.getElem_mem hi

/-- The values along the order are the sorted values. -/
theorem order_map : (order pValues).map (pValues.getD · 0) = pValues.insertionSort (· ≤ ·) := by
  have hrange : (List.range pValues.length).map (pValues.getD · 0) = pValues := by
    refine List.ext_getElem (by simp) fun i hi _ => ?_
    rw [List.length_map, List.length_range] at hi
    simp [List.getElem?_eq_getElem hi]
  rw [order, List.map_insertionSort _ (· ≤ ·) _ _ (fun _ _ _ _ => Iff.rfl), hrange]

theorem order_perm : (order pValues).Perm (List.range pValues.length) :=
  List.perm_insertionSort _ _

@[simp] theorem order_length : (order pValues).length = pValues.length := by
  rw [(order_perm pValues).length_eq, List.length_range]

variable {pValues}

theorem mem_order {i : ℕ} : i ∈ order pValues ↔ i < pValues.length := by
  rw [(order_perm pValues).mem_iff, List.mem_range]

/-- Every index has a rank. -/
theorem exists_rank {i : ℕ} (hi : i < pValues.length) :
    ∃ r : ℕ, (order pValues)[r]? = some i :=
  List.mem_iff_getElem?.mp (mem_order.mpr hi)

theorem lt_of_rank {r i : ℕ} (h : (order pValues)[r]? = some i) :
    r < pValues.length ∧ i < pValues.length := by
  refine ⟨?_, mem_order.mp (List.mem_of_getElem? h)⟩
  rw [← order_length pValues]
  exact (List.getElem?_eq_some_iff.mp h).1

/-- The value at a rank of the sorted list. -/
theorem sorted_of_rank {r i : ℕ} (h : (order pValues)[r]? = some i) :
    (pValues.insertionSort (· ≤ ·))[r]? = some (pValues.getD i 0) := by
  rw [← order_map, List.getElem?_map, h]
  rfl

theorem rank_of_sorted {r : ℕ} {x : ℚ} (h : (pValues.insertionSort (· ≤ ·))[r]? = some x) :
    ∃ i, (order pValues)[r]? = some i ∧ x = pValues.getD i 0 := by
  rw [← order_map, List.getElem?_map, Option.map_eq_some_iff] at h
  obtain ⟨i, hi, rfl⟩ := h
  exact ⟨i, hi, rfl⟩

theorem le_of_rank {k r i j : ℕ} (hk : (order pValues)[k]? = some j)
    (hr : (order pValues)[r]? = some i) (h : k ≤ r) : pValues.getD j 0 ≤ pValues.getD i 0 := by
  obtain ⟨hk', hkv⟩ := List.getElem?_eq_some_iff.mp (sorted_of_rank hk)
  obtain ⟨hr', hrv⟩ := List.getElem?_eq_some_iff.mp (sorted_of_rank hr)
  rw [← hkv, ← hrv]
  exact (List.pairwise_insertionSort (· ≤ ·) pValues).sortedLE.getElem_le_getElem_of_le h

end Order

/-! ## One step -/

section Steps

variable {m rank : ℕ} {p : ℚ}

theorem stepValue_nonneg (hrank : rank ≤ m) (hp : 0 ≤ p) : 0 ≤ stepValue m rank p := by
  have hfactor : (0 : ℚ) ≤ ((m : ℤ) - rank : ℤ) := by
    exact_mod_cast sub_nonneg.mpr (Int.ofNat_le.mpr hrank)
  exact le_min zero_le_one (mul_nonneg hfactor hp)

theorem stepValue_le_one : stepValue m rank p ≤ 1 := min_le_left _ _

theorem le_stepValue (hrank : rank < m) (hp : 0 ≤ p) (hp' : p ≤ 1) : p ≤ stepValue m rank p := by
  have hfactor : (1 : ℚ) ≤ ((m : ℤ) - rank : ℤ) := by
    have : (1 : ℤ) ≤ (m : ℤ) - rank := by omega
    exact_mod_cast this
  exact le_min hp' (le_mul_of_one_le_left hp hfactor)

theorem stepValue_antitone {rank' : ℕ} (h : rank ≤ rank') (hp : 0 ≤ p) :
    stepValue m rank' p ≤ stepValue m rank p := by
  have hfactor : (((m : ℤ) - rank' : ℤ) : ℚ) ≤ ((m : ℤ) - rank : ℤ) := by
    exact Int.cast_le.mpr (by omega)
  exact min_le_min_left 1 (mul_le_mul_of_nonneg_right hfactor hp)

end Steps

/-! ## The loops -/

/-- What the loops write, by rank. -/
def entries (pValues : List ℚ) : List (ℕ × ℚ) :=
  (order pValues).zipIdx.map fun e =>
    (e.1, stepValue pValues.length e.2 (pValues.getD e.1 0))

section Entries

variable {pValues : List ℚ}

theorem entries_fst : (entries pValues).map Prod.fst = order pValues := by
  rw [entries, List.map_map]
  exact List.zipIdx_map_fst 0 _

theorem getElem?_entries {k : ℕ} {d : ℕ × ℚ} :
    (entries pValues)[k]? = some d ↔ ∃ j, (order pValues)[k]? = some j ∧
      d = (j, stepValue pValues.length k (pValues.getD j 0)) := by
  rw [entries, List.getElem?_map, List.getElem?_zipIdx, Nat.zero_add]
  cases (order pValues)[k]? with
  | none => simp
  | some j => simp [eq_comm]

/-- A slot of either loop holds the greatest step up to its rank. -/
theorem slot_greatest (hp : ∀ p ∈ pValues, 0 ≤ p ∧ p ≤ 1) {β : Type} {f : ℚ → β} {slots : List β}
    (hslots : slots.length = pValues.length) {r i : ℕ} (hr : (order pValues)[r]? = some i) :
    ∃ x, (runningMax f 0 slots (entries pValues))[i]? = some (f x) ∧
      IsGreatest {v | ∃ k ≤ r, ∃ j, (order pValues)[k]? = some j ∧
        v = stepValue pValues.length k (pValues.getD j 0)} x := by
  have hnodup : ((entries pValues).map Prod.fst).Nodup := by
    rw [entries_fst]
    exact (order_perm pValues).nodup_iff.mpr List.nodup_range
  have hlt : ∀ e ∈ entries pValues, e.1 < slots.length := by
    intro e he
    have hmem := List.mem_map_of_mem (f := Prod.fst) he
    rw [entries_fst, mem_order] at hmem
    rwa [hslots]
  obtain ⟨x, hx, hmem, hub⟩ := runningMax_greatest (f := f) hnodup hlt 0
    (getElem?_entries.mpr ⟨i, hr, rfl⟩)
  have hentry : ∀ k ≤ r, ∀ j, (order pValues)[k]? = some j →
      stepValue pValues.length k (pValues.getD j 0) ≤ x := fun k hk j hj =>
    hub (.inr ⟨k, hk, _, getElem?_entries.mpr ⟨j, hj, rfl⟩, rfl⟩)
  refine ⟨x, hx, ?_, ?_⟩
  · rcases hmem with rfl | ⟨k, hk, d, hd, rfl⟩
    · -- the start is a maximum only if the first step is no more than it
      obtain ⟨hlength, hi⟩ := lt_of_rank hr
      have hnonneg : 0 ≤ pValues.getD i 0 := (hp _ (getD_mem hi)).1
      exact ⟨r, le_rfl, i, hr, le_antisymm (stepValue_nonneg hlength.le hnonneg)
        (hentry r le_rfl i hr)⟩
    · obtain ⟨j, hj, rfl⟩ := getElem?_entries.mp hd
      exact ⟨k, hk, j, hj, rfl⟩
  · rintro v ⟨k, hk, j, hj, rfl⟩
    exact hentry k hk j hj

end Entries

/-- The loop of `holm` is a running maximum over its entries. -/
theorem foldl_holmStep (pValues : List ℚ) (m : ℕ) (l : List (ℕ × ℕ)) (run : ℚ)
    (slots : List ℚ) :
    (l.foldl (holmStep pValues m) (run, slots)).2 =
      runningMax id run slots (l.map fun e => (e.1, stepValue m e.2 (pValues.getD e.1 0))) := by
  induction l generalizing run slots with
  | nil => rfl
  | cons e l ih => exact ih _ _

theorem holm_eq (pValues : List ℚ) :
    holm pValues = runningMax id 0 (List.replicate pValues.length 0) (entries pValues) := by
  rw [holm, foldl_holmStep, order_length, entries]

@[simp] theorem holm_length (pValues : List ℚ) : (holm pValues).length = pValues.length := by
  rw [holm_eq, runningMax_length, List.length_replicate]

/-- The records with these adjusted values, and nothing else changed. -/
def adjusted (results : List (Result R)) (slots : List (Option ℚ)) : List (Result R) :=
  List.zipWith (fun r slot => { r with pValueHolm := slot }) results slots

theorem adjusted_self (results : List (Result R)) :
    adjusted results (results.map Result.pValueHolm) = results := by
  rw [adjusted, List.zipWith_map_right, List.zipWith_self]
  exact List.map_id' results

theorem adjusted_modify (results : List (Result R)) (slots : List (Option ℚ)) (i : ℕ) (x : ℚ) :
    (adjusted results slots).modify i (fun r => { r with pValueHolm := some x }) =
      adjusted results (slots.set i (some x)) := by
  refine List.ext_getElem? fun j => ?_
  rw [List.getElem?_modify, adjusted, adjusted, List.getElem?_zipWith, List.getElem?_zipWith,
    List.getElem?_set]
  by_cases hij : i = j
  · subst hij
    cases hr : results[i]? with
    | none => simp
    | some r =>
      cases hs : slots[i]? with
      | none =>
        have hout : ¬i < slots.length := by
          rw [List.getElem?_eq_none_iff] at hs
          omega
        simp [hout]
      | some v =>
        have hin : i < slots.length := (List.getElem?_eq_some_iff.mp hs).1
        simp [hin]
  · cases hr : results[j]? with
    | none => simp [hij]
    | some r => cases hs : slots[j]? <;> simp [hij]

theorem foldl_holmRecordStep (total : ℕ) (l : List ((Result R × ℕ) × ℕ)) (run : ℚ)
    (results : List (Result R)) (slots : List (Option ℚ)) :
    (l.foldl (holmRecordStep total) (run, adjusted results slots)).2 =
      adjusted results (runningMax some run slots
        (l.map fun e => (e.1.2, stepValue total e.2 e.1.1.pValueRaw))) := by
  induction l generalizing run slots with
  | nil => rfl
  | cons e l ih =>
    rw [List.foldl_cons, holmRecordStep, adjusted_modify, ih]
    rfl

/-- The records are visited in the order of their values. -/
theorem ordered_entries (results : List (Result R)) :
    (ordered results).zipIdx.map
        (fun e => (e.1.2, stepValue (ordered results).length e.2 e.1.1.pValueRaw)) =
      entries (results.map Result.pValueRaw) := by
  have hvalue : ∀ e ∈ results.zipIdx,
      (results.map Result.pValueRaw).getD e.2 0 = e.1.pValueRaw := by
    rintro ⟨r, i⟩ he
    have hget : results[i]? = some r := List.mk_mem_zipIdx_iff_getElem?.mp he
    rw [List.getD_eq_getElem?_getD, List.getElem?_map, hget]
    rfl
  have hmap : (ordered results).map Prod.snd = order (results.map Result.pValueRaw) := by
    rw [ordered, order, List.length_map, List.map_insertionSort _ (fun i j =>
      (results.map Result.pValueRaw).getD i 0 ≤ (results.map Result.pValueRaw).getD j 0) _ _
      (fun a ha b hb => by rw [hvalue a ha, hvalue b hb]), List.zipIdx_map_snd,
      List.range_eq_range']
  have hlength : (ordered results).length = results.length := by
    rw [ordered, List.length_insertionSort, List.length_zipIdx]
  rw [entries, ← hmap, List.zipIdx_map, List.map_map, List.length_map, hlength]
  refine List.map_congr_left fun e he => ?_
  have hmem : e.1 ∈ results.zipIdx := by
    have hfst := List.mem_map_of_mem (f := Prod.fst) he
    rw [List.zipIdx_map_fst, ordered, List.mem_insertionSort] at hfst
    exact hfst
  simp only [Function.comp_apply, Prod.map_fst, Prod.map_snd, id_eq, hvalue e.1 hmem]

theorem holmRecords_eq (results : List (Result R)) :
    holmRecords results = adjusted results (runningMax some 0 (results.map Result.pValueHolm)
      (entries (results.map Result.pValueRaw))) := by
  have h := foldl_holmRecordStep (ordered results).length (ordered results).zipIdx 0 results
    (results.map Result.pValueHolm)
  rw [adjusted_self, ordered_entries] at h
  exact h

/-! ## The rule -/

/-- What is promised of the adjusted values: each is the greatest step among the values ranked at
or before its own, between the raw value and one, and in the order of the raw values. -/
structure HolmRule (pValues adjusted : List ℚ) : Prop where
  length : adjusted.length = pValues.length
  ranked : ∀ r i : ℕ, (order pValues)[r]? = some i →
    IsGreatest {v : ℚ | ∃ k ≤ r, ∃ j, (order pValues)[k]? = some j ∧
      v = min 1 ((pValues.length - k) * pValues.getD j 0)} (adjusted.getD i 0)
  bounded : ∀ i < pValues.length,
    pValues.getD i 0 ≤ adjusted.getD i 0 ∧ adjusted.getD i 0 ≤ 1
  monotone : ∀ i < pValues.length, ∀ j < pValues.length, pValues.getD i 0 ≤ pValues.getD j 0 →
    adjusted.getD i 0 ≤ adjusted.getD j 0

section Rule

variable {pValues : List ℚ} (hp : ∀ p ∈ pValues, 0 ≤ p ∧ p ≤ 1)

include hp in
theorem holm_greatest {r i : ℕ} (hr : (order pValues)[r]? = some i) :
    IsGreatest {v | ∃ k ≤ r, ∃ j, (order pValues)[k]? = some j ∧
      v = stepValue pValues.length k (pValues.getD j 0)} ((holm pValues).getD i 0) := by
  obtain ⟨x, hx, hgreatest⟩ := slot_greatest hp (f := id) (List.length_replicate (a := 0)) hr
  rwa [holm_eq, List.getD_eq_getElem?_getD, hx]

include hp in
/-- The ranks of equal values may be told apart or not: the first of them has the greatest step. -/
theorem holm_level {i : ℕ} (hi : i < pValues.length) :
    IsGreatest {v | ∃ (k : ℕ) (x : ℚ), (pValues.insertionSort (· ≤ ·))[k]? = some x ∧
      x ≤ pValues.getD i 0 ∧ v = stepValue pValues.length k x} ((holm pValues).getD i 0) := by
  obtain ⟨r, hr⟩ := exists_rank hi
  obtain ⟨⟨k, hk, j, hj, hv⟩, hub⟩ := holm_greatest hp hr
  refine ⟨⟨k, _, sorted_of_rank hj, le_of_rank hj hr hk, hv⟩, ?_⟩
  rintro v ⟨k, x, hx, hle, rfl⟩
  obtain ⟨j, hj, rfl⟩ := rank_of_sorted hx
  rcases le_total k r with hkr | hrk
  · exact hub ⟨k, hkr, j, hj, rfl⟩
  · rw [le_antisymm hle (le_of_rank hr hj hrk)]
    exact (stepValue_antitone hrk (hp _ (getD_mem hi)).1).trans (hub ⟨r, le_rfl, i, hr, rfl⟩)

include hp in
theorem holm_mono {i j : ℕ} (hi : i < pValues.length) (hj : j < pValues.length)
    (h : pValues.getD i 0 ≤ pValues.getD j 0) :
    (holm pValues).getD i 0 ≤ (holm pValues).getD j 0 := by
  obtain ⟨⟨k, x, hx, hle, hv⟩, -⟩ := holm_level hp hi
  exact (holm_level hp hj).2 ⟨k, x, hx, hle.trans h, hv⟩

include hp in
theorem holm_bounded {i : ℕ} (hi : i < pValues.length) :
    pValues.getD i 0 ≤ (holm pValues).getD i 0 ∧ (holm pValues).getD i 0 ≤ 1 := by
  obtain ⟨r, hr⟩ := exists_rank hi
  obtain ⟨⟨k, hk, j, hj, hv⟩, hub⟩ := holm_greatest hp hr
  obtain ⟨hnonneg, hle⟩ := hp _ (getD_mem hi)
  exact ⟨(le_stepValue (lt_of_rank hr).1 hnonneg hle).trans (hub ⟨r, le_rfl, i, hr, rfl⟩),
    hv ▸ stepValue_le_one⟩

include hp in
theorem holm_rule : HolmRule pValues (holm pValues) where
  length := holm_length pValues
  ranked r i hr := by
    have h := holm_greatest hp hr
    simpa only [stepValue, Int.cast_sub, Int.cast_natCast] using h
  bounded i hi := holm_bounded hp hi
  monotone i hi j hj h := holm_mono hp hi hj h

include hp in
/-- Two lists of the same values adjust equal values equally. -/
theorem holm_perm {qValues : List ℚ} (hperm : qValues.Perm pValues) {i j : ℕ}
    (hi : i < qValues.length) (hj : j < pValues.length)
    (h : qValues.getD i 0 = pValues.getD j 0) :
    (holm qValues).getD i 0 = (holm pValues).getD j 0 := by
  have hq : ∀ q ∈ qValues, 0 ≤ q ∧ q ≤ 1 := fun q hmem => hp q (hperm.mem_iff.mp hmem)
  have hsorted : qValues.insertionSort (· ≤ ·) = pValues.insertionSort (· ≤ ·) :=
    List.Perm.eq_of_pairwise (fun _ _ _ _ hab hba => le_antisymm hab hba)
      (List.pairwise_insertionSort _ _) (List.pairwise_insertionSort _ _)
      (((List.perm_insertionSort _ _).trans hperm).trans (List.perm_insertionSort _ _).symm)
  have hlevel := holm_level hq hi
  rw [hsorted, h, hperm.length_eq] at hlevel
  exact hlevel.unique (holm_level hp hj)

include hp in
theorem holmRecords_holm (results : List (Result R))
    (hraw : results.map Result.pValueRaw = pValues) :
    holmRecords results = adjusted results ((holm pValues).map some) := by
  have hlength : results.length = pValues.length := by rw [← hraw, List.length_map]
  rw [holmRecords_eq, hraw]
  congr 1
  refine List.ext_getElem (by simp [hlength]) fun i hi _ => ?_
  rw [runningMax_length, List.length_map, hlength] at hi
  obtain ⟨r, hr⟩ := exists_rank hi
  have hslots : (results.map Result.pValueHolm).length = pValues.length := by simp [hlength]
  obtain ⟨x, hx, hgreatest⟩ := slot_greatest hp (f := some) hslots hr
  have hholm := (holm_greatest hp hr).unique hgreatest
  rw [List.getD_eq_getElem?_getD, List.getElem?_eq_getElem (by simpa using hi)] at hholm
  rw [List.getElem_eq_iff, hx, List.getElem_map, ← hholm]
  rfl

end Rule

/-- Both implementations follow the rule, write the same values, and permute with their input. -/
theorem holm_adjusts (pValues : List ℚ) (hp : ∀ p ∈ pValues, 0 ≤ p ∧ p ≤ 1) :
    HolmRule pValues (holm pValues) ∧
      (∀ (R : Type) (results : List (Result R)), results.map Result.pValueRaw = pValues →
        holmRecords results = adjusted results ((holm pValues).map some)) ∧
      ∀ σ : Equiv.Perm (Fin pValues.length),
        holm (List.ofFn fun i => pValues.getD (σ i) 0) =
          List.ofFn fun i => (holm pValues).getD (σ i) 0 := by
  refine ⟨holm_rule hp, fun _ results h => holmRecords_holm hp results h, fun σ => ?_⟩
  have hperm : (List.ofFn fun i => pValues.getD (σ i) 0).Perm pValues := by
    have hself : List.ofFn (fun i : Fin pValues.length => pValues.getD i 0) = pValues := by
      refine List.ext_getElem (by simp) fun i hi _ => ?_
      simp
    have hcomp := Equiv.Perm.ofFn_comp_perm σ fun i : Fin pValues.length => pValues.getD i 0
    rwa [hself] at hcomp
  refine List.ext_getElem (by simp) fun i hi _ => ?_
  rw [holm_length, List.length_ofFn] at hi
  have h := holm_perm hp hperm (i := i) (j := σ ⟨i, hi⟩) (by simpa using hi) (σ ⟨i, hi⟩).2
    (by simp [hi])
  rw [List.getD_eq_getElem?_getD, List.getElem?_eq_getElem (by simpa using hi)] at h
  rw [List.getElem_ofFn]
  exact h

theorem holm_adjusts_tied :
    HolmRule [1 / 2, 1 / 100, 1 / 100] (holm [1 / 2, 1 / 100, 1 / 100]) ∧
      (∀ (R : Type) (results : List (Result R)),
        results.map Result.pValueRaw = [1 / 2, 1 / 100, 1 / 100] →
          holmRecords results = adjusted results ((holm [1 / 2, 1 / 100, 1 / 100]).map some)) ∧
      ∀ σ : Equiv.Perm (Fin 3),
        holm (List.ofFn fun i => [1 / 2, 1 / 100, 1 / 100].getD (σ i) 0) =
          List.ofFn fun i => (holm [1 / 2, 1 / 100, 1 / 100]).getD (σ i) 0 :=
  holm_adjusts [1 / 2, 1 / 100, 1 / 100] (by norm_num)

example : holm [1 / 2, 1 / 100, 1 / 100] = [1 / 2, 3 / 100, 3 / 100] := by decide +kernel

end HolmAdjustment
