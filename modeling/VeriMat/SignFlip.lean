import VeriMat.PyText

/-! # The exact sign-flip test

`_paired_sign_pvalue` of `evaluation/statistics.py` compares the mean of the differences with its
values under all choices of signs, for up to twenty of them. -/
namespace SignFlip

open PyText

/-- What is returned: `(p_value, test, permutations)`. -/
structure SignTest where
  pValue : ℚ
  test : PyStr
  permutations : ℕ

/-- `itertools.product((-1, 1), repeat=count)`. -/
def signVectors : ℕ → List (List ℚ)
  | 0 => [[]]
  | count + 1 => (signVectors count).map (-1 :: ·) ++ (signVectors count).map (1 :: ·)

/-- `sum(sign * value for sign, value in zip(values, differences))`. -/
def signedSum (signs differences : List ℚ) : ℚ := (List.zipWith (· * ·) signs differences).sum

/-- `1e-15`. -/
def tolerance : ℚ := 1 / 10 ^ 15

/-- Whether a choice of signs is counted as extreme. -/
def isExtreme (differences signs : List ℚ) : Bool :=
  |differences.sum / differences.length| - tolerance ≤
    |signedSum signs differences / differences.length|

/-- `_paired_sign_pvalue`, none when it divides by zero. What it draws for more than twenty
differences is a parameter. -/
def pairedSignPvalue (sampled : List ℚ → SignTest) (differences : List ℚ) : Option SignTest :=
  if differences.length = 0 then none
  else if differences.length ≤ 20 then
    let signs := signVectors differences.length
    let total := signs.length
    let extreme := signs.countP (isExtreme differences)
    some ⟨extreme / total, py "exact_cluster_sign_flip", total⟩
  else some (sampled differences)

/-- The differences with these signs put to them. -/
def flipSigns (signs differences : List ℚ) : List ℚ := List.zipWith (· * ·) signs differences

/-! ## Ranks -/

/-- However ties are widened, the elements that few elements exceed are few themselves. -/
theorem countP_few_above {α : Type} (l : List α) (T : α → ℚ) {slack c : ℚ} (hslack : 0 ≤ slack)
    (hc : 0 ≤ c) :
    (l.countP fun x => decide (((l.countP fun y => decide (T x - slack ≤ T y)) : ℚ) ≤ c) : ℚ) ≤
      c := by
  set few : α → Bool :=
    fun x => decide (((l.countP fun y => decide (T x - slack ≤ T y)) : ℚ) ≤ c) with hfew
  cases hlow : (l.filter few).argmin T with
  | none =>
    rw [List.argmin_eq_none] at hlow
    rw [List.countP_eq_length_filter, hlow, List.length_nil, Nat.cast_zero]
    exact hc
  | some x =>
    have hx : x ∈ l.filter few := List.argmin_mem hlow
    have hmono : l.countP few ≤ l.countP fun y => decide (T x - slack ≤ T y) := by
      refine List.countP_mono_left fun y hy hfewy => ?_
      have hle : T x ≤ T y := List.le_of_mem_argmin (List.mem_filter.mpr ⟨hy, hfewy⟩) hlow
      rw [decide_eq_true_eq]
      linarith
    have hrank := of_decide_eq_true (List.mem_filter.mp hx).2
    calc (l.countP few : ℚ) ≤ (l.countP fun y => decide (T x - slack ≤ T y) : ℕ) := by
          exact_mod_cast hmono
      _ ≤ c := hrank

/-! ## The sums -/

/-- The sums of the differences under all choices of signs. -/
def sums (differences : List ℚ) : List ℚ :=
  (signVectors differences.length).map (signedSum · differences)

theorem length_signVectors (count : ℕ) : (signVectors count).length = 2 ^ count := by
  induction count with
  | zero => rfl
  | succ count ih =>
    rw [signVectors, List.length_append, List.length_map, List.length_map, ih]
    omega

theorem sums_cons (x : ℚ) (d : List ℚ) :
    sums (x :: d) = (sums d).map (-x + ·) ++ (sums d).map (x + ·) := by
  unfold sums
  rw [List.length_cons, signVectors, List.map_append, List.map_map, List.map_map, List.map_map,
    List.map_map]
  congr 1
  · refine List.map_congr_left fun v _ => ?_
    simp [signedSum]
  · refine List.map_congr_left fun v _ => ?_
    simp [signedSum]

theorem map_add_comm (x y : ℚ) (l : List ℚ) :
    (l.map (y + ·)).map (x + ·) = (l.map (x + ·)).map (y + ·) := by
  rw [List.map_map, List.map_map]
  exact List.map_congr_left fun z _ => add_left_comm x y z

/-- The differences may come in any order. -/
theorem sums_perm {d d' : List ℚ} (h : d.Perm d') : (sums d).Perm (sums d') := by
  induction h with
  | nil => exact .refl _
  | cons x _ ih =>
    rw [sums_cons, sums_cons]
    exact (ih.map _).append (ih.map _)
  | swap x y d =>
    simp only [sums_cons, List.map_append]
    rw [map_add_comm (-y) (-x), map_add_comm (-y) x, map_add_comm y (-x), map_add_comm y x,
      List.append_assoc, List.append_assoc]
    exact (List.perm_append_comm_assoc _ _ _).append_left _
  | trans _ _ ih ih' => exact ih.trans ih'

/-! ## Signs -/

/-- A vector of `{-1, 1}^count`. -/
structure IsSignVector (count : ℕ) (s : List ℚ) : Prop where
  length : s.length = count
  signs : ∀ x ∈ s, x = -1 ∨ x = 1

theorem mem_signVectors {count : ℕ} {s : List ℚ} (h : IsSignVector count s) :
    s ∈ signVectors count := by
  induction count generalizing s with
  | zero =>
    rw [List.length_eq_zero_iff.mp h.length]
    exact List.mem_singleton_self _
  | succ count ih =>
    cases s with
    | nil => cases h.length
    | cons x s =>
      have htail : IsSignVector count s :=
        ⟨Nat.succ.inj h.length, fun y hy => h.signs y (List.mem_cons_of_mem _ hy)⟩
      rw [signVectors, List.mem_append]
      rcases h.signs x List.mem_cons_self with rfl | rfl
      · exact .inl (List.mem_map_of_mem (ih htail))
      · exact .inr (List.mem_map_of_mem (ih htail))

theorem length_flipSigns {d s : List ℚ} (h : s.length = d.length) :
    (flipSigns s d).length = d.length := by
  rw [flipSigns, List.length_zipWith, h, min_self]

/-- The differences may have any signs put to them. -/
theorem sums_flipSigns {d s : List ℚ} (h : IsSignVector d.length s) :
    (sums (flipSigns s d)).Perm (sums d) := by
  induction d generalizing s with
  | nil =>
    rw [flipSigns, List.zipWith_nil_right]
  | cons x d ih =>
    cases s with
    | nil => cases h.length
    | cons y s =>
      have htail : IsSignVector d.length s :=
        ⟨Nat.succ.inj h.length, fun z hz => h.signs z (List.mem_cons_of_mem _ hz)⟩
      have hflip : flipSigns (y :: s) (x :: d) = y * x :: flipSigns s d := rfl
      rw [hflip, sums_cons, sums_cons]
      rcases h.signs y List.mem_cons_self with rfl | rfl
      · rw [neg_one_mul, neg_neg]
        exact ((ih htail).map _).append ((ih htail).map _) |>.trans List.perm_append_comm
      · rw [one_mul]
        exact ((ih htail).map _).append ((ih htail).map _)

theorem flipSigns_replicate (d : List ℚ) :
    flipSigns (List.replicate d.length (-1)) d = d.map (- ·) := by
  induction d with
  | nil => rfl
  | cons x d ih =>
    have hcons : flipSigns (List.replicate (x :: d).length (-1)) (x :: d) =
        -1 * x :: flipSigns (List.replicate d.length (-1)) d := rfl
    rw [hcons, ih, neg_one_mul, List.map_cons]

/-! ## The test -/

section Test
variable (sampled : List ℚ → SignTest) {d d' : List ℚ}

/-- How many sums are as far from zero as this one, within the tolerance. -/
def farther (d : List ℚ) (sum : ℚ) : ℕ :=
  (sums d).countP fun y : ℚ => decide (|sum / d.length| - tolerance ≤ |y / d.length|)

/-- The exact test as the rank of the sum of the differences among all sums. -/
theorem pairedSignPvalue_eq (hne : d ≠ []) (hlen : d.length ≤ 20) :
    pairedSignPvalue sampled d =
      some ⟨farther d d.sum / 2 ^ d.length, py "exact_cluster_sign_flip", 2 ^ d.length⟩ := by
  have hcount : (signVectors d.length).countP (isExtreme d) = farther d d.sum := by
    rw [farther, sums, List.countP_map]
    rfl
  unfold pairedSignPvalue
  rw [if_neg (by simpa using hne), if_pos hlen]
  simp only [hcount, length_signVectors, Nat.cast_pow, Nat.cast_ofNat]

/-- Differences with the same sums, and a sum of their own of the same size, have one p-value. -/
theorem pairedSignPvalue_congr (hne : d ≠ []) (hlen : d.length ≤ 20)
    (hlength : d'.length = d.length) (hsum : |d'.sum| = |d.sum|)
    (hsums : (sums d').Perm (sums d)) :
    pairedSignPvalue sampled d' = pairedSignPvalue sampled d := by
  have hne' : d' ≠ [] := by
    rw [← List.length_pos_iff_ne_nil, hlength]
    exact List.length_pos_of_ne_nil hne
  have hfarther : farther d' d'.sum = farther d d.sum := by
    rw [farther, farther, hlength, hsums.countP_eq, abs_div, abs_div, hsum]
  rw [pairedSignPvalue_eq sampled hne hlen,
    pairedSignPvalue_eq sampled hne' (hlength.trans_le hlen), hfarther, hlength]

/-- The p-value of the differences with these signs is at most this. -/
def AtMost (d : List ℚ) (alpha : ℚ) (s : List ℚ) : Prop :=
  ∃ t, pairedSignPvalue sampled (flipSigns s d) = some t ∧ t.pValue ≤ alpha

theorem atMost_iff (hne : d ≠ []) (hlen : d.length ≤ 20) {alpha : ℚ} {s : List ℚ}
    (h : IsSignVector d.length s) :
    AtMost sampled d alpha s ↔ (farther d (signedSum s d) : ℚ) ≤ alpha * 2 ^ d.length := by
  have hlength : (flipSigns s d).length = d.length := length_flipSigns h.length
  have hne' : flipSigns s d ≠ [] := by
    rw [← List.length_pos_iff_ne_nil, hlength]
    exact List.length_pos_of_ne_nil hne
  have hfarther : farther (flipSigns s d) (flipSigns s d).sum = farther d (signedSum s d) := by
    rw [farther, farther, hlength, (sums_flipSigns h).countP_eq]
    rfl
  have hpos : (0 : ℚ) < 2 ^ d.length := by positivity
  unfold AtMost
  rw [pairedSignPvalue_eq sampled hne' (hlength.trans_le hlen), hfarther, hlength]
  constructor
  · rintro ⟨t, ht, hle⟩
    cases ht
    exact (div_le_iff₀ hpos).mp hle
  · intro hle
    exact ⟨_, rfl, (div_le_iff₀ hpos).mpr hle⟩

end Test

/-- Of all choices of signs at most a share of `alpha` has a p-value of at most `alpha`; the
p-value depends neither on the order of the differences nor on the sign of all of them. -/
theorem pairedSignPvalue_valid (sampled : List ℚ → SignTest) (d : List ℚ) (hne : d ≠ [])
    (hlen : d.length ≤ 20) (alpha : ℚ) (halpha : 0 ≤ alpha) :
    (∀ vectors : List (List ℚ), vectors.Nodup →
      (∀ s ∈ vectors, IsSignVector d.length s ∧ AtMost sampled d alpha s) →
        (vectors.length : ℚ) ≤ alpha * 2 ^ d.length) ∧
      (∀ d', d'.Perm d → pairedSignPvalue sampled d' = pairedSignPvalue sampled d) ∧
      pairedSignPvalue sampled (d.map (- ·)) = pairedSignPvalue sampled d := by
  refine ⟨fun vectors hnodup hvectors => ?_, fun d' hperm => ?_, ?_⟩
  · set few : List ℚ → Bool :=
      fun s => decide ((farther d (signedSum s d) : ℚ) ≤ alpha * 2 ^ d.length) with hfew
    have hsubset : vectors ⊆ (signVectors d.length).filter few := by
      intro s hs
      obtain ⟨hsigns, hmost⟩ := hvectors s hs
      exact List.mem_filter.mpr ⟨mem_signVectors hsigns,
        decide_eq_true ((atMost_iff sampled hne hlen hsigns).mp hmost)⟩
    have hcount : (signVectors d.length).countP few =
        (sums d).countP fun x => decide ((farther d x : ℚ) ≤ alpha * 2 ^ d.length) := by
      rw [sums, List.countP_map]
      rfl
    have hlength : vectors.length ≤ (signVectors d.length).countP few := by
      rw [List.countP_eq_length_filter]
      exact (List.subperm_of_subset hnodup hsubset).length_le
    calc (vectors.length : ℚ) ≤ ((signVectors d.length).countP few : ℕ) := by
          exact_mod_cast hlength
      _ ≤ alpha * 2 ^ d.length := by
          rw [hcount]
          exact countP_few_above (sums d) (fun y => |y / d.length|) (by norm_num [tolerance])
            (by positivity)
  · exact pairedSignPvalue_congr sampled hne hlen hperm.length_eq
      (congrArg abs hperm.sum_eq) (sums_perm hperm)
  · have hsigns : IsSignVector d.length (List.replicate d.length (-1)) :=
      ⟨List.length_replicate, fun x hx => .inl (List.eq_of_mem_replicate hx)⟩
    have hperm := sums_flipSigns hsigns
    rw [flipSigns_replicate] at hperm
    refine pairedSignPvalue_congr sampled hne hlen (List.length_map _) ?_ hperm
    have hsum : (d.map (- ·)).sum = -d.sum := (List.sum_neg d).symm
    rw [hsum, abs_neg]

theorem pairedSignPvalue_valid_three :
    let d : List ℚ := [1, 2, -3]
    let sampled : List ℚ → SignTest := fun _ => ⟨1, [], 0⟩
    (∀ vectors : List (List ℚ), vectors.Nodup →
      (∀ s ∈ vectors, IsSignVector d.length s ∧ AtMost sampled d (1 / 4) s) →
        (vectors.length : ℚ) ≤ 1 / 4 * 2 ^ d.length) ∧
      (∀ d', d'.Perm d → pairedSignPvalue sampled d' = pairedSignPvalue sampled d) ∧
      pairedSignPvalue sampled (d.map (- ·)) = pairedSignPvalue sampled d :=
  pairedSignPvalue_valid _ [1, 2, -3] (List.cons_ne_nil _ _) (by decide) (1 / 4) (by norm_num)

end SignFlip
