import Mathlib

/-! # Rationals in the ratio of coprime naturals

Rationals that are not all zero are brought to naturals without a common divisor: they are
multiplied by the least common multiple of their denominators and divided by the greatest common
divisor of what comes of it. Proportional rationals are brought to the same naturals. -/
namespace PrimitiveRatios

/-- The least common multiple of the denominators. -/
def denominator (amounts : List ℚ) : ℕ := (↑(amounts.map Rat.den) : Multiset ℕ).lcm

/-- An amount over the common denominator. -/
def scaled (amounts : List ℚ) (q : ℚ) : ℕ := ⌊q * (denominator amounts : ℚ)⌋.toNat

/-- The greatest common divisor of the amounts over their common denominator. -/
def divisor (amounts : List ℚ) : ℕ := (↑(amounts.map (scaled amounts)) : Multiset ℕ).gcd

/-- An amount in the ratio of coprime naturals. -/
def reduced (amounts : List ℚ) (q : ℚ) : ℚ := q * denominator amounts / divisor amounts

/-- The natural it is. -/
def reducedNat (amounts : List ℚ) (q : ℚ) : ℕ := scaled amounts q / divisor amounts

variable {amounts amounts' : List ℚ} {q r : ℚ}

/-! ## What a reduced amount is -/

theorem denominator_pos : 0 < denominator amounts := by
  refine Nat.pos_of_ne_zero ((Multiset.lcm_ne_zero_iff _).mpr ?_)
  intro hzero
  obtain ⟨q, -, hden⟩ := List.mem_map.mp (Multiset.mem_coe.mp hzero)
  exact q.den_nz hden

theorem mul_denominator (hq : q ∈ amounts) (h : 0 ≤ q) :
    q * denominator amounts = scaled amounts q := by
  have hdvd : q.den ∣ denominator amounts :=
    Multiset.dvd_lcm (Multiset.mem_coe.mpr (List.mem_map_of_mem hq))
  obtain ⟨k, hk⟩ := hdvd
  have hint : q * denominator amounts = ((q.num * k : ℤ) : ℚ) := by
    rw [hk]
    push_cast
    rw [← mul_assoc, Rat.mul_den_eq_num]
  have hnonneg : 0 ≤ q.num * (k : ℤ) :=
    mul_nonneg (Rat.num_nonneg.mpr h) (Int.natCast_nonneg k)
  rw [scaled, hint, Int.floor_intCast]
  exact_mod_cast (Int.toNat_of_nonneg hnonneg).symm

theorem divisor_dvd (hq : q ∈ amounts) : divisor amounts ∣ scaled amounts q :=
  Multiset.gcd_dvd (Multiset.mem_coe.mpr (List.mem_map_of_mem hq))

theorem divisor_ne_zero (hq : q ∈ amounts) (h : 0 < q) : divisor amounts ≠ 0 := by
  intro hzero
  have hdvd := divisor_dvd hq
  rw [hzero] at hdvd
  have hmul := mul_denominator hq h.le
  rw [Nat.eq_zero_of_zero_dvd hdvd, Nat.cast_zero] at hmul
  exact (mul_pos h (Nat.cast_pos.mpr denominator_pos)).ne' hmul

theorem divisor_eq_zero (h : ∀ q ∈ amounts, q = 0) : divisor amounts = 0 := by
  refine (Multiset.gcd_eq_zero_iff _).mpr ?_
  intro m hm
  obtain ⟨q, hq, rfl⟩ := List.mem_map.mp (Multiset.mem_coe.mp hm)
  rw [scaled, h q hq, zero_mul, Int.floor_zero, Int.toNat_zero]

theorem reduced_eq (hq : q ∈ amounts) (h : 0 ≤ q) (hdivisor : divisor amounts ≠ 0) :
    reduced amounts q = reducedNat amounts q := by
  rw [reduced, reducedNat, mul_denominator hq h, Nat.cast_div (divisor_dvd hq)
    (Nat.cast_ne_zero.mpr hdivisor)]

theorem gcd_reducedNat (hdivisor : divisor amounts ≠ 0) :
    (↑(amounts.map (reducedNat amounts)) : Multiset ℕ).gcd = 1 := by
  have hsplit : amounts.map (scaled amounts) =
      (amounts.map (reducedNat amounts)).map (divisor amounts * ·) := by
    rw [List.map_map]
    refine List.map_congr_left ?_
    intro q hq
    exact (Nat.mul_div_cancel' (divisor_dvd hq)).symm
  have hgcd : divisor amounts =
      divisor amounts * (↑(amounts.map (reducedNat amounts)) : Multiset ℕ).gcd := by
    conv_lhs => rw [divisor, hsplit, ← Multiset.map_coe, Multiset.gcd_map_mul]
    rw [normalize_eq]
  have hpos := Nat.pos_of_ne_zero hdivisor
  exact Nat.eq_of_mul_eq_mul_left hpos (by rw [← hgcd, mul_one])

/-! ## Proportional amounts -/

/-- Proportional naturals without common divisors are the same. -/
theorem eq_of_proportional {ι : Type*} {l : List ι} {n n' : ι → ℕ} (hr : 0 < r)
    (h : ∀ i ∈ l, (n' i : ℚ) = r * n i) (hgcd : (↑(l.map n) : Multiset ℕ).gcd = 1)
    (hgcd' : (↑(l.map n') : Multiset ℕ).gcd = 1) : r = 1 := by
  obtain ⟨a, ha⟩ := Int.eq_ofNat_of_zero_le (Rat.num_nonneg.mpr hr.le)
  have hcross : ∀ i ∈ l, r.den * n' i = a * n i := by
    intro i hi
    have hmul : (r.den : ℚ) * n' i = a * n i := by
      rw [h i hi, ← mul_assoc, Rat.den_mul_eq_num, ha]
      norm_num
    exact_mod_cast hmul
  have hcoprime : Nat.Coprime a r.den := by
    have hreduced := r.reduced
    rwa [ha, Int.natAbs_natCast] at hreduced
  have hden : r.den ∣ (↑(l.map n) : Multiset ℕ).gcd := by
    refine Multiset.dvd_gcd.mpr ?_
    intro m hm
    obtain ⟨i, hi, rfl⟩ := List.mem_map.mp (Multiset.mem_coe.mp hm)
    exact hcoprime.symm.dvd_of_dvd_mul_left ⟨n' i, (hcross i hi).symm⟩
  have hnum : a ∣ (↑(l.map n') : Multiset ℕ).gcd := by
    refine Multiset.dvd_gcd.mpr ?_
    intro m hm
    obtain ⟨i, hi, rfl⟩ := List.mem_map.mp (Multiset.mem_coe.mp hm)
    exact hcoprime.dvd_of_dvd_mul_left ⟨n i, hcross i hi⟩
  rw [hgcd] at hden
  rw [hgcd'] at hnum
  rw [← Rat.num_div_den r, ha, Nat.dvd_one.mp hden, Nat.dvd_one.mp hnum]
  norm_num

/-- An amount is a fixed positive multiple of the natural it is brought to. -/
theorem eq_mul_reducedNat (hq : q ∈ amounts) (h : 0 ≤ q) (hdivisor : divisor amounts ≠ 0) :
    q = divisor amounts / denominator amounts * reducedNat amounts q := by
  have hden : (denominator amounts : ℚ) ≠ 0 := Nat.cast_ne_zero.mpr denominator_pos.ne'
  have hdiv : (divisor amounts : ℚ) ≠ 0 := Nat.cast_ne_zero.mpr hdivisor
  rw [← reduced_eq hq h hdivisor, reduced]
  field_simp

theorem multiple_pos (hdivisor : divisor amounts ≠ 0) :
    (0 : ℚ) < divisor amounts / denominator amounts :=
  div_pos (Nat.cast_pos.mpr (Nat.pos_of_ne_zero hdivisor)) (Nat.cast_pos.mpr denominator_pos)

section Families
variable {ι : Type*} {l : List ι} {x y : ι → ℚ}

theorem gcd_family (hdivisor : divisor (l.map x) ≠ 0) :
    (↑(l.map fun i => reducedNat (l.map x) (x i)) : Multiset ℕ).gcd = 1 := by
  have hgcd := gcd_reducedNat hdivisor
  rwa [List.map_map] at hgcd

/-- Proportional amounts are brought to the same naturals. -/
theorem reducedNat_proportional (hr : 0 < r) (hx : ∀ i ∈ l, 0 ≤ x i)
    (h : ∀ i ∈ l, y i = r * x i) (hdivisor : divisor (l.map x) ≠ 0)
    (hdivisor' : divisor (l.map y) ≠ 0) :
    ∀ i ∈ l, reducedNat (l.map y) (y i) = reducedNat (l.map x) (x i) := by
  have hratio : ∀ i ∈ l, (reducedNat (l.map y) (y i) : ℚ) =
      ((divisor (l.map y) / denominator (l.map y) : ℚ)⁻¹ *
        (r * (divisor (l.map x) / denominator (l.map x)))) * reducedNat (l.map x) (x i) := by
    intro i hi
    have hmem := List.mem_map_of_mem (f := x) hi
    have hmem' := List.mem_map_of_mem (f := y) hi
    have hyi : 0 ≤ y i := h i hi ▸ mul_nonneg hr.le (hx i hi)
    have hleft := eq_mul_reducedNat hmem' hyi hdivisor'
    have hright := eq_mul_reducedNat hmem (hx i hi) hdivisor
    rw [mul_assoc, mul_assoc, ← hright, ← h i hi, eq_inv_mul_iff_mul_eq₀
      (multiple_pos hdivisor').ne']
    exact hleft.symm
  have hone := eq_of_proportional (mul_pos (inv_pos.mpr (multiple_pos hdivisor'))
    (mul_pos hr (multiple_pos hdivisor))) hratio (gcd_family hdivisor) (gcd_family hdivisor')
  intro i hi
  have heq := hratio i hi
  rw [hone, one_mul] at heq
  exact_mod_cast heq

theorem denominator_natural {n : ι → ℕ} (hx : ∀ i ∈ l, x i = n i) :
    denominator (l.map x) = 1 := by
  have hdvd : denominator (l.map x) ∣ 1 := by
    refine Multiset.lcm_dvd.mpr ?_
    intro d hd
    obtain ⟨q, hq, rfl⟩ := List.mem_map.mp hd
    obtain ⟨i, hi, rfl⟩ := List.mem_map.mp hq
    rw [hx i hi]
    exact dvd_rfl
  exact Nat.dvd_one.mp hdvd

/-- No natural is brought to a larger one. -/
theorem reduced_le_natural {n : ι → ℕ} (hx : ∀ i ∈ l, x i = n i) :
    ∀ i ∈ l, reduced (l.map x) (x i) ≤ n i := by
  intro i hi
  rw [reduced, denominator_natural hx, hx i hi, Nat.cast_one, mul_one]
  by_cases hdivisor : divisor (l.map x) = 0
  · rw [hdivisor, Nat.cast_zero, div_zero]
    exact Nat.cast_nonneg (n i)
  · have hone : (1 : ℚ) ≤ divisor (l.map x) := by
      exact_mod_cast Nat.one_le_iff_ne_zero.mpr hdivisor
    exact div_le_self (Nat.cast_nonneg (n i)) hone

/-- Naturals without a common divisor are brought to themselves. -/
theorem reduced_natural {n : ι → ℕ} (hx : ∀ i ∈ l, x i = n i)
    (hgcd : (↑(l.map n) : Multiset ℕ).gcd = 1) :
    divisor (l.map x) = 1 ∧ ∀ i ∈ l, reduced (l.map x) (x i) = n i := by
  have hden := denominator_natural hx
  have hscaled : ∀ i ∈ l, scaled (l.map x) (x i) = n i := by
    intro i hi
    rw [scaled, hden, hx i hi, Nat.cast_one, mul_one, Int.floor_natCast, Int.toNat_natCast]
  have hdivisor : divisor (l.map x) = 1 := by
    rw [divisor, List.map_map, ← hgcd]
    congr 2
    exact List.map_congr_left hscaled
  refine ⟨hdivisor, ?_⟩
  intro i hi
  rw [reduced, hden, hdivisor, hx i hi]
  norm_num

end Families

/-! ## The order of the amounts -/

theorem denominator_perm (h : amounts.Perm amounts') :
    denominator amounts = denominator amounts' := by
  rw [denominator, denominator, Multiset.coe_eq_coe.mpr (h.map _)]

theorem divisor_perm (h : amounts.Perm amounts') : divisor amounts = divisor amounts' := by
  have hscaled : scaled amounts = scaled amounts' := by
    funext q
    rw [scaled, scaled, denominator_perm h]
  rw [divisor, divisor, hscaled, Multiset.coe_eq_coe.mpr (h.map _)]

theorem reduced_perm (h : amounts.Perm amounts') : reduced amounts q = reduced amounts' q := by
  rw [reduced, reduced, denominator_perm h, divisor_perm h]

theorem reducedNat_perm (h : amounts.Perm amounts') :
    reducedNat amounts q = reducedNat amounts' q := by
  rw [reducedNat, reducedNat, scaled, scaled, denominator_perm h, divisor_perm h]

end PrimitiveRatios
