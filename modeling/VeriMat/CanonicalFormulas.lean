import VeriMat.Fallible
import VeriMat.Formulas

/-! # Normalised formulas are canonical

A normalised formula reads back as what was written, so that it is its own normal form, and two
formulas have one normal form exactly when their amounts are proportional. The amounts are written
as floats, which are exact up to `2 ^ 53`. -/
namespace CanonicalFormulas

open PyText JsonText PyValue PyDict ModelTransports PrimitiveRatios Fallible Formulas

variable {H : FormulaHost} {s r r' e : PyStr}

/-! ## What is read -/

/-- An upper case letter, and a lower case letter or none. -/
inductive IsElement : PyStr → Prop where
  | one (c) (h : isUpper c = true) : IsElement [c]
  | two (c d) (h : isUpper c = true) (hd : isLower d = true) : IsElement [c, d]

theorem scanElement_eq_some (h : scanElement s = some (e, r)) : IsElement e := by
  unfold scanElement at h
  split at h
  · cases h
  · next c =>
    split_ifs at h with hc
    cases h
    exact .one c hc
  · next c d rest =>
    split_ifs at h with hc hd
    · cases h
      exact .two c d hc hd
    · cases h
      exact .one c hc

theorem fractionOf_nonneg {whole decimals : PyStr} {q : ℚ}
    (h : fractionOf H whole decimals = .ok q) : 0 ≤ q := by
  unfold fractionOf at h
  split_ifs at h
  · cases h
    exact zero_le_one
  · cases h
    positivity

/-- An element and an amount of it. -/
def IsPart (p : PyStr × ℚ) : Prop := IsElement p.1 ∧ 0 ≤ p.2

theorem scanParts_isPart {fuel : ℕ} {parts : List (PyStr × ℚ)}
    (h : scanParts H fuel s = .ok parts) : ∀ p ∈ parts, IsPart p := by
  induction fuel generalizing s parts with
  | zero =>
    cases s with
    | nil =>
      cases h
      simp
    | cons c r => cases h
  | succ fuel ih =>
    cases s with
    | nil =>
      cases h
      simp
    | cons c r =>
      unfold scanParts at h
      cases hscan : scanElement (c :: r) with
      | none =>
        rw [hscan] at h
        cases h
      | some found =>
        obtain ⟨element, rest⟩ := found
        simp only [hscan] at h
        obtain ⟨amount, hamount, h⟩ := bind_returns.mp h
        obtain ⟨parts', hparts, h⟩ := bind_returns.mp h
        cases h
        refine List.forall_mem_cons.mpr ⟨⟨scanElement_eq_some hscan, fractionOf_nonneg hamount⟩, ?_⟩
        exact ih hparts

/-- What a formula can add up to. -/
def Lawful (totals : Dict PyStr ℚ) : Prop := ∀ p ∈ totals.items, IsPart p

theorem lawful_addPart {totals : Dict PyStr ℚ} {part : PyStr × ℚ} (h : Lawful totals)
    (hpart : IsPart part) : Lawful (addPart totals part) := by
  intro p hp
  rcases mem_setItem hp with rfl | hp
  · refine ⟨hpart.1, add_nonneg ?_ hpart.2⟩
    cases hget : totals.get part.1 with
    | none => exact le_rfl
    | some amount => exact (h _ (Dict.get_eq_some.mp hget)).2
  · exact h p hp

theorem lawful_foldl {parts : List (PyStr × ℚ)} {totals : Dict PyStr ℚ} (h : Lawful totals)
    (hparts : ∀ p ∈ parts, IsPart p) : Lawful (parts.foldl addPart totals) := by
  induction parts generalizing totals with
  | nil => exact h
  | cons part parts ih =>
    obtain ⟨hpart, hparts⟩ := List.forall_mem_cons.mp hparts
    exact ih (lawful_addPart h hpart) hparts

theorem totalsOf_lawful {totals : Dict PyStr ℚ} (h : totalsOf H s = .ok totals) :
    Lawful totals := by
  obtain ⟨text, -, h⟩ := bind_returns.mp h
  dsimp only at h
  split_ifs at h with hflat
  · cases h
  · obtain ⟨parts, hparts, h⟩ := bind_returns.mp h
    cases h
    exact lawful_foldl (by rintro p ⟨⟩) (scanParts_isPart hparts)

/-! ## What is written -/

/-- The text of an amount that is a natural. -/
def numberText (n : ℕ) : PyStr := if n = 1 then [] else decimal n

/-- The elements with their amounts. -/
def formulaText (n : PyStr → ℕ) (elements : List PyStr) : PyStr :=
  elements.flatMap fun e => e ++ numberText (n e)

theorem stripEnd_append {c : ℕ} {s t : PyStr} (hs : ∀ d, s.getLast? = some d → d ≠ c)
    (ht : ∀ d ∈ t, d = c) : stripEnd c (s ++ t) = s := by
  have hdrop : ∀ l : PyStr, (∀ d ∈ l, d = c) → (l ++ s.reverse).dropWhile (· == c) =
      s.reverse := by
    intro l hl
    induction l with
    | nil =>
      cases hrev : s.reverse with
      | nil => rfl
      | cons d r =>
        have hlast : s.getLast? = some d := by
          rw [List.getLast?_eq_head?_reverse, hrev]
          rfl
        simp [hs d hlast]
    | cons d l ih =>
      obtain ⟨hd, hl⟩ := List.forall_mem_cons.mp hl
      simp [hd, ih hl]
  rw [stripEnd, List.reverse_append, hdrop _ fun d hd => ht d (List.mem_reverse.mp hd),
    List.reverse_reverse]

theorem amountText_natCast {n : ℕ} (h : n ≤ 2 ^ 53) :
    amountText H n = .ok (numberText n) := by
  unfold amountText numberText
  by_cases hone : n = 1
  · rw [if_pos (by exact_mod_cast hone), if_pos hone]
  · rw [if_neg (by exact_mod_cast hone), if_neg hone, H.floatText_nat n h]
    have hdigit : ∀ c, (decimal n).getLast? = some c → isDigit c = true :=
      fun c hc => decimal_digits n c (List.mem_of_getLast? hc)
    have hpoint : stripEnd 48 (decimal n ++ [46, 48]) = decimal n ++ [46] := by
      have hsplit : decimal n ++ [46, 48] = (decimal n ++ [46]) ++ [48] := by simp
      rw [hsplit]
      refine stripEnd_append ?_ (by simp)
      intro d hd
      rw [List.getLast?_concat] at hd
      cases hd
      decide
    have hwhole : stripEnd 46 (decimal n ++ [46]) = decimal n := by
      refine stripEnd_append ?_ (by simp)
      rintro d hd rfl
      have hpointDigit := hdigit 46 hd
      cases hpointDigit
    dsimp only
    rw [hpoint, hwhole]

theorem renderAll_eq {totals : Dict PyStr ℚ} {n : PyStr → ℕ} {elements : List PyStr}
    (h : ∀ e ∈ elements, reduced totals.values ((totals.get e).getD 0) = n e ∧ n e ≤ 2 ^ 53) :
    renderAll H totals elements = .ok (formulaText n elements) := by
  induction elements with
  | nil => rfl
  | cons e elements ih =>
    obtain ⟨⟨hreduced, hsmall⟩, hrest⟩ := List.forall_mem_cons.mp h
    rw [renderAll, hreduced, amountText_natCast hsmall, ih hrest]
    rfl

/-! ## Reading what is written -/

/-- What may follow an amount: nothing, or the next element. -/
def ElementNext (t : PyStr) : Prop := ∀ c, t.head? = some c → isUpper c = true

theorem elementNext_formulaText {n : PyStr → ℕ} {elements : List PyStr}
    (h : ∀ e ∈ elements, IsElement e) : ElementNext (formulaText n elements) := by
  cases elements with
  | nil => intro c hc; cases hc
  | cons e elements =>
    intro c hc
    cases h e List.mem_cons_self with
    | one c' hc' =>
      cases hc
      exact hc'
    | two c' d hc' hd =>
      cases hc
      exact hc'

theorem ElementNext.digitEnd {t : PyStr} (h : ElementNext t) : DigitEnd t := by
  cases t with
  | nil => trivial
  | cons c t =>
    have hupper := h c rfl
    simp only [isUpper, Bool.and_eq_true, decide_eq_true_eq] at hupper
    simp only [DigitEnd, isDigit, Bool.and_eq_false_iff, decide_eq_false_iff_not]
    omega

theorem ElementNext.scanFrac {t : PyStr} (h : ElementNext t) : JsonText.scanFrac t = ([], t) := by
  cases t with
  | nil => rfl
  | cons c t =>
    have hupper := h c rfl
    have hpoint : c ≠ 46 := by
      rintro rfl
      cases hupper
    cases t with
    | nil => rfl
    | cons d t => simp [JsonText.scanFrac, hpoint]

theorem decimal_length {n : ℕ} (h : n ≤ 2 ^ 53) : (decimal n).length ≤ 640 := by
  unfold decimal
  by_cases hn : n = 0
  · rw [if_pos hn]
    decide
  · rw [if_neg hn, List.length_map, List.length_reverse]
    have hlt : n < 10 ^ 16 := lt_of_le_of_lt h (by norm_num)
    have hlength := (Nat.digits_length_le_iff (by norm_num) n).mpr hlt
    omega

theorem scanAmount_numberText {n : ℕ} {t : PyStr} (hn : n ≤ 2 ^ 53) (ht : ElementNext t) :
    (scanAmount (numberText n ++ t)).2 = t ∧
      fractionOf H (scanAmount (numberText n ++ t)).1.1 (scanAmount (numberText n ++ t)).1.2 =
        .ok (n : ℚ) := by
  unfold numberText
  by_cases hone : n = 1
  · have htake : t.takeWhile isDigit = [] := by
      have hdigits := (takeWhile_digits (s := []) (t := t) (by simp) ht.digitEnd).1
      rwa [List.nil_append] at hdigits
    rw [if_pos hone, List.nil_append, scanAmount, htake, if_pos rfl, hone]
    exact ⟨rfl, by rw [fractionOf, if_pos rfl, Nat.cast_one]⟩
  · obtain ⟨htake, hdrop⟩ := takeWhile_digits (decimal_digits n) ht.digitEnd
    rw [if_neg hone, scanAmount, htake, hdrop, if_neg (decimal_ne_nil n), ht.scanFrac]
    have hlength := decimal_length hn
    have hlimit := H.limit
    have hshort : ¬(H.digitLimit < (decimal n).length ∨ H.digitLimit < ([] : PyStr).length) := by
      rw [List.length_nil]
      omega
    refine ⟨rfl, ?_⟩
    change fractionOf H (decimal n) [] = .ok (n : ℚ)
    rw [fractionOf, if_neg (decimal_ne_nil n), if_neg hshort, decimal_value]
    norm_num [digitsValue]

theorem scanElement_append {t : PyStr} (he : IsElement e)
    (ht : ∀ c, t.head? = some c → isLower c = false) : scanElement (e ++ t) = some (e, t) := by
  cases he with
  | one c hc =>
    cases t with
    | nil => simp [scanElement, hc]
    | cons d t => simp [scanElement, hc, ht d rfl]
  | two c d hc hd => simp [scanElement, hc, hd]

theorem head_numberText {n : ℕ} {t : PyStr} (ht : ElementNext t) :
    ∀ c, (numberText n ++ t).head? = some c → isLower c = false := by
  have hnot : ∀ c, isUpper c = true ∨ isDigit c = true → isLower c = false := by
    intro c hc
    simp only [isUpper, isDigit, isLower, Bool.and_eq_true, decide_eq_true_eq,
      Bool.and_eq_false_iff, decide_eq_false_iff_not] at *
    omega
  intro c hc
  unfold numberText at hc
  by_cases hone : n = 1
  · rw [if_pos hone, List.nil_append] at hc
    exact hnot c (.inl (ht c hc))
  · rw [if_neg hone, List.head?_append_of_ne_nil _ (decimal_ne_nil n)] at hc
    exact hnot c (.inr (decimal_digits n c (List.mem_of_head? hc)))

theorem scanParts_succ {fuel : ℕ} {q : ℚ} (hs : scanElement s = some (e, r))
    (hq : fractionOf H (scanAmount r).1.1 (scanAmount r).1.2 = .ok q)
    {parts : List (PyStr × ℚ)} (hparts : scanParts H fuel (scanAmount r).2 = .ok parts) :
    scanParts H (fuel + 1) s = .ok ((e, q) :: parts) := by
  cases s with
  | nil => cases hs
  | cons c s =>
    rw [scanParts, hs]
    dsimp only
    rw [hq, hparts]
    rfl

/-- A written formula reads back as its elements and amounts. -/
theorem scanParts_formulaText {n : PyStr → ℕ} {elements : List PyStr} {fuel : ℕ}
    (h : ∀ e ∈ elements, IsElement e ∧ n e ≤ 2 ^ 53)
    (hfuel : (formulaText n elements).length ≤ fuel) :
    scanParts H fuel (formulaText n elements) = .ok (elements.map fun e => (e, (n e : ℚ))) := by
  induction elements generalizing fuel with
  | nil =>
    cases fuel with
    | zero => rfl
    | succ fuel => rfl
  | cons e elements ih =>
    obtain ⟨⟨he, hn⟩, hrest⟩ := List.forall_mem_cons.mp h
    have hnext := elementNext_formulaText (n := n) fun e he => (hrest e he).1
    have htext : formulaText n (e :: elements) =
        e ++ (numberText (n e) ++ formulaText n elements) := by
      rw [formulaText, List.flatMap_cons, List.append_assoc]
      rfl
    have hscan := scanElement_append he (head_numberText (n := n e) hnext)
    obtain ⟨hafter, hamount⟩ := scanAmount_numberText (H := H) hn hnext
    rw [htext] at hfuel ⊢
    have hpositive : 0 < e.length := by
      cases he with
      | one c _ => exact Nat.one_pos
      | two c d _ _ => exact Nat.two_pos
    obtain ⟨fuel, rfl⟩ : ∃ k, fuel = k + 1 := by
      refine ⟨fuel - 1, ?_⟩
      rw [List.length_append] at hfuel
      omega
    have hrestFuel : (formulaText n elements).length ≤ fuel := by
      simp only [List.length_append] at hfuel
      omega
    refine scanParts_succ hscan hamount ?_
    rw [hafter]
    exact ih hrest hrestFuel

/-- And adds up to that. -/
theorem items_foldl {parts : List (PyStr × ℚ)} (hnodup : (parts.map Prod.fst).Nodup) :
    (parts.foldl addPart empty).items = parts := by
  have hgeneral : ∀ (parts : List (PyStr × ℚ)) (totals : Dict PyStr ℚ),
      ((totals.items ++ parts).map Prod.fst).Nodup →
        (parts.foldl addPart totals).items = totals.items ++ parts := by
    intro parts
    induction parts with
    | nil => exact fun totals _ => (List.append_nil _).symm
    | cons part parts ih =>
      intro totals hdistinct
      have hnew : part.1 ∉ totals.items.map Prod.fst := by
        rw [List.map_append, List.map_cons] at hdistinct
        intro hmem
        exact (List.nodup_append.mp hdistinct).2.2 _ hmem _ List.mem_cons_self rfl
      have hnone : totals.get part.1 = none := by
        cases hget : totals.get part.1 with
        | none => rfl
        | some amount =>
          exact absurd (List.mem_map_of_mem (Dict.get_eq_some.mp hget)) hnew
      have hitems : (addPart totals part).items = totals.items ++ [part] := by
        rw [addPart, hnone, Option.getD_none, zero_add]
        exact setItem_of_notMem hnew
      rw [List.foldl_cons, ih (addPart totals part), hitems, List.append_assoc,
        List.singleton_append]
      rwa [hitems, List.append_assoc, List.singleton_append]
  exact hgeneral parts empty hnodup

theorem formulaText_plain {n : PyStr → ℕ} {elements : List PyStr}
    (h : ∀ e ∈ elements, IsElement e) :
    ∀ c ∈ formulaText n elements, isSpace c = false ∧ isBracket c = false := by
  have hplain : ∀ c, isUpper c = true ∨ isLower c = true ∨ isDigit c = true →
      isSpace c = false ∧ isBracket c = false := by
    intro c hc
    have hrange : 48 ≤ c ∧ c ≤ 57 ∨ 65 ≤ c ∧ c ≤ 90 ∨ 97 ≤ c ∧ c ≤ 122 := by
      simp only [isUpper, isLower, isDigit, Bool.and_eq_true, decide_eq_true_eq] at hc
      omega
    have hspace : ∀ c < 123, 48 ≤ c ∧ c ≤ 57 ∨ 65 ≤ c ∧ c ≤ 90 ∨ 97 ≤ c ∧ c ≤ 122 →
        isSpace c = false ∧ isBracket c = false := by decide
    exact hspace c (by omega) hrange
  intro c hc
  obtain ⟨e, he, hc⟩ := List.mem_flatMap.mp hc
  rcases List.mem_append.mp hc with hc | hc
  · cases h e he with
    | one c' hupper =>
      rw [List.mem_singleton.mp hc]
      exact hplain _ (.inl hupper)
    | two c' d hupper hlower =>
      rcases List.mem_cons.mp hc with rfl | hc
      · exact hplain _ (.inl hupper)
      · rw [List.mem_singleton.mp hc]
        exact hplain _ (.inr (.inl hlower))
  · unfold numberText at hc
    by_cases hone : n e = 1
    · rw [if_pos hone] at hc
      cases hc
    · rw [if_neg hone] at hc
      exact hplain _ (.inr (.inr (decimal_digits _ c hc)))

theorem strip_plain {t : PyStr} (h : ∀ c ∈ t, isSpace c = false) : strip t = t := by
  have hdrop : ∀ l : PyStr, (∀ c ∈ l, isSpace c = false) → l.dropWhile isSpace = l := by
    intro l hl
    cases l with
    | nil => rfl
    | cons c l => rw [List.dropWhile_cons_of_neg (by simp [hl c List.mem_cons_self])]
  rw [strip, hdrop t h, hdrop _ fun c hc => h c (List.mem_reverse.mp hc), List.reverse_reverse]

/-- The totals of a written formula. -/
theorem totalsOf_formulaText {n : PyStr → ℕ} {elements : List PyStr} (hne : elements ≠ [])
    (hnodup : elements.Nodup) (h : ∀ e ∈ elements, IsElement e ∧ n e ≤ 2 ^ 53) :
    ∃ totals, totalsOf H (formulaText n elements) = .ok totals ∧
      totals.items = elements.map fun e => (e, (n e : ℚ)) := by
  have hplain := formulaText_plain (n := n) fun e he => (h e he).1
  have hstrip := strip_plain fun c hc => (hplain c hc).1
  have hfilter : (formulaText n elements).filter (fun c => !isSpace c) =
      formulaText n elements := by
    refine List.filter_eq_self.mpr ?_
    intro c hc
    rw [(hplain c hc).1]
    rfl
  have hflat : (formulaText n elements).any isBracket = false := by
    refine List.any_eq_false.mpr ?_
    intro c hc
    rw [(hplain c hc).2]
    exact Bool.false_ne_true
  have hnonempty : formulaText n elements ≠ [] := by
    obtain ⟨e, he⟩ := List.exists_mem_of_ne_nil _ hne
    have hmem : ∃ c, c ∈ formulaText n elements := by
      cases (h e he).1 with
      | one c _ => exact ⟨c, List.mem_flatMap.mpr ⟨_, he, List.mem_cons_self⟩⟩
      | two c d _ _ => exact ⟨c, List.mem_flatMap.mpr ⟨_, he, List.mem_cons_self⟩⟩
    obtain ⟨c, hc⟩ := hmem
    exact List.ne_nil_of_mem hc
  have hparts := scanParts_formulaText (H := H) h le_rfl
  refine ⟨(elements.map fun e => (e, (n e : ℚ))).foldl addPart empty, ?_, items_foldl ?_⟩
  · have hrequired : required (formulaText n elements) (py "composition") =
        .ok (formulaText n elements) := by rw [required, hstrip, if_neg hnonempty]
    refine bind_returns.mpr ⟨_, hrequired, ?_⟩
    dsimp only
    rw [hfilter, hflat, if_neg Bool.false_ne_true]
    exact bind_returns.mpr ⟨_, hparts, rfl⟩
  · rw [List.map_map]
    exact (List.map_id elements).symm ▸ hnodup

/-! ## The elements and their amounts -/

section Amounts

variable {t t' : Dict PyStr ℚ} {q : ℚ}

/-- The amount of an element. -/
def amountOf (t : Dict PyStr ℚ) (e : PyStr) : ℚ := (t.get e).getD 0

/-- The natural it is written as. -/
def naturalOf (t : Dict PyStr ℚ) (e : PyStr) : ℕ := reducedNat t.values (amountOf t e)

theorem amountOf_eq (h : t.get e = some q) : amountOf t e = q := by
  rw [amountOf, h, Option.getD_some]

theorem elementsOf_perm : (elementsOf t).Perm (t.items.map Prod.fst) :=
  List.perm_insertionSort _ _

theorem elementsOf_nodup : (elementsOf t).Nodup := elementsOf_perm.nodup_iff.mpr t.nodup

theorem elementsOf_sorted : (elementsOf t).SortedLE := List.sortedLE_insertionSort

theorem mem_elementsOf : e ∈ elementsOf t ↔ ∃ q, t.get e = some q := by
  rw [elementsOf_perm.mem_iff, List.mem_map]
  constructor
  · rintro ⟨p, hp, rfl⟩
    exact ⟨p.2, Dict.get_eq_some.mpr hp⟩
  · rintro ⟨q, hq⟩
    exact ⟨(e, q), Dict.get_eq_some.mp hq, rfl⟩

theorem values_perm : t.values.Perm ((elementsOf t).map (amountOf t)) := by
  have hvalues : t.values = (t.items.map Prod.fst).map (amountOf t) := by
    rw [List.map_map, Dict.values]
    refine List.map_congr_left ?_
    intro p hp
    exact (amountOf_eq (Dict.get_eq_some.mpr hp)).symm
  rw [hvalues]
  exact (elementsOf_perm.map _).symm

theorem amountOf_mem (he : e ∈ elementsOf t) : amountOf t e ∈ t.values :=
  values_perm.mem_iff.mpr (List.mem_map_of_mem he)

theorem Lawful.element (h : Lawful t) (he : e ∈ elementsOf t) : IsElement e := by
  obtain ⟨q, hq⟩ := mem_elementsOf.mp he
  exact (h _ (Dict.get_eq_some.mp hq)).1

theorem Lawful.nonneg (h : Lawful t) (e : PyStr) : 0 ≤ amountOf t e := by
  unfold amountOf
  cases hget : t.get e with
  | none => exact le_rfl
  | some q => exact (h _ (Dict.get_eq_some.mp hget)).2

/-- Some amount is not zero, and no number that is written is beyond the exact floats. -/
structure Writable (t : Dict PyStr ℚ) : Prop where
  nonzero : ∃ q ∈ t.values, q ≠ 0
  exact : ∀ q ∈ t.values, reduced t.values q ≤ 2 ^ 53

theorem Writable.divisor_ne_zero (hw : Writable t) (h : Lawful t) : divisor t.values ≠ 0 := by
  obtain ⟨q, hq, hne⟩ := hw.nonzero
  obtain ⟨e, he⟩ := Dict.mem_values.mp hq
  have hnonneg := h.nonneg e
  rw [amountOf_eq he] at hnonneg
  exact PrimitiveRatios.divisor_ne_zero hq (lt_of_le_of_ne hnonneg hne.symm)

theorem Writable.elements_ne_nil (hw : Writable t) : elementsOf t ≠ [] := by
  obtain ⟨q, hq, -⟩ := hw.nonzero
  obtain ⟨e, he⟩ := Dict.mem_values.mp hq
  exact List.ne_nil_of_mem (mem_elementsOf.mpr ⟨q, he⟩)

/-- An element is written with a natural. -/
theorem Writable.reduced_eq (hw : Writable t) (h : Lawful t) (he : e ∈ elementsOf t) :
    reduced t.values (amountOf t e) = naturalOf t e ∧ naturalOf t e ≤ 2 ^ 53 := by
  have hmem := amountOf_mem he
  have heq := PrimitiveRatios.reduced_eq hmem (h.nonneg e) (hw.divisor_ne_zero h)
  refine ⟨heq, ?_⟩
  have hle := hw.exact _ hmem
  rw [heq] at hle
  exact_mod_cast hle

theorem Writable.written (hw : Writable t) (h : Lawful t) :
    ∀ e ∈ elementsOf t, IsElement e ∧ naturalOf t e ≤ 2 ^ 53 :=
  fun _ he => ⟨h.element he, (hw.reduced_eq h he).2⟩

/-- The naturals have no common divisor. -/
theorem Writable.gcd_eq_one (hw : Writable t) (h : Lawful t) :
    (↑((elementsOf t).map (naturalOf t)) : Multiset ℕ).gcd = 1 := by
  have hgcd := gcd_reducedNat (hw.divisor_ne_zero h)
  have hperm := (values_perm (t := t)).map (reducedNat t.values)
  rw [List.map_map] at hperm
  rwa [Multiset.coe_eq_coe.mpr hperm] at hgcd

/-! ## Normal forms -/

/-- The formula that is written for the totals. -/
def normalForm (t : Dict PyStr ℚ) : PyStr := formulaText (naturalOf t) (elementsOf t)

theorem normaliseComposition_eq (h : totalsOf H s = .ok t) (hw : Writable t) :
    normaliseComposition H s = .ok (normalForm t) := by
  have hlawful := totalsOf_lawful h
  refine bind_returns.mpr ⟨t, h, ?_⟩
  dsimp only
  rw [if_neg (hw.divisor_ne_zero hlawful)]
  exact renderAll_eq fun e he => hw.reduced_eq hlawful he

/-- A formula of nothing is no error of the contract. -/
theorem normaliseComposition_zero (h : totalsOf H s = .ok t) (hzero : ∀ q ∈ t.values, q = 0) :
    normaliseComposition H s = .error .zeroDivision := by
  unfold normaliseComposition
  rw [h]
  change (if divisor t.values = 0 then _ else _) = _
  rw [if_pos (divisor_eq_zero hzero)]
  rfl

/-- A normal form is its own. -/
theorem normaliseComposition_normalForm (hw : Writable t) (h : Lawful t) :
    normaliseComposition H (normalForm t) = .ok (normalForm t) := by
  obtain ⟨u, hu, hitems⟩ := totalsOf_formulaText (H := H) hw.elements_ne_nil elementsOf_nodup
    (hw.written h)
  have helements : elementsOf u = elementsOf t := by
    rw [elementsOf, hitems, List.map_map]
    change ((elementsOf t).map id).insertionSort (· ≤ ·) = elementsOf t
    rw [List.map_id]
    exact List.Pairwise.insertionSort_eq elementsOf_sorted.pairwise
  have hvalues : u.values = (elementsOf t).map fun e => (naturalOf t e : ℚ) := by
    rw [Dict.values, hitems, List.map_map]
    rfl
  have hamount : ∀ e ∈ elementsOf t, (u.get e).getD 0 = (naturalOf t e : ℚ) := by
    intro e he
    have hmem : (e, (naturalOf t e : ℚ)) ∈ u.items := hitems ▸ List.mem_map_of_mem he
    rw [Dict.get_eq_some.mpr hmem, Option.getD_some]
  obtain ⟨hdivisor, hreduced⟩ := reduced_natural (x := fun e => (naturalOf t e : ℚ))
    (fun e _ => rfl) (hw.gcd_eq_one h)
  refine bind_returns.mpr ⟨u, hu, ?_⟩
  dsimp only
  rw [hvalues, hdivisor, if_neg Nat.one_ne_zero, helements]
  refine renderAll_eq ?_
  intro e he
  rw [hvalues, hamount e he]
  exact ⟨hreduced e he, (hw.reduced_eq h he).2⟩

/-- The same elements, in the same ratio. -/
def Proportional (t t' : Dict PyStr ℚ) : Prop :=
  ∃ r : ℚ, 0 < r ∧ ∀ e, t'.get e = (t.get e).map (r * ·)

theorem Proportional.elementsOf_eq (h : Proportional t t') : elementsOf t = elementsOf t' := by
  obtain ⟨r, -, hget⟩ := h
  have hmem : ∀ e, e ∈ elementsOf t ↔ e ∈ elementsOf t' := by
    intro e
    rw [mem_elementsOf, mem_elementsOf, hget e]
    cases t.get e <;> simp
  have hperm := (List.perm_ext_iff_of_nodup elementsOf_nodup elementsOf_nodup).mpr hmem
  exact hperm.eq_of_sortedLE elementsOf_sorted elementsOf_sorted

theorem Proportional.naturalOf_eq (h : Proportional t t') (hlawful : Lawful t)
    (hdivisor : divisor t.values ≠ 0) (hdivisor' : divisor t'.values ≠ 0) :
    ∀ e ∈ elementsOf t, naturalOf t' e = naturalOf t e := by
  have helements := h.elementsOf_eq
  obtain ⟨r, hr, hget⟩ := h
  have hamount : ∀ e ∈ elementsOf t, amountOf t' e = r * amountOf t e := by
    intro e he
    obtain ⟨q, hq⟩ := mem_elementsOf.mp he
    rw [amountOf_eq hq]
    refine amountOf_eq ?_
    rw [hget e, hq]
    rfl
  have hperm' : t'.values.Perm ((elementsOf t).map (amountOf t')) := helements ▸ values_perm
  rw [divisor_perm values_perm] at hdivisor
  rw [divisor_perm hperm'] at hdivisor'
  intro e he
  have heq := reducedNat_proportional hr (fun e _ => hlawful.nonneg e) hamount hdivisor hdivisor'
    e he
  rwa [← reducedNat_perm values_perm, ← reducedNat_perm hperm'] at heq

/-- Formulas with one text have the same elements with the same naturals. -/
theorem formulaText_injective (H : FormulaHost) {n n' : PyStr → ℕ} {l l' : List PyStr}
    (h : ∀ e ∈ l, IsElement e ∧ n e ≤ 2 ^ 53) (h' : ∀ e ∈ l', IsElement e ∧ n' e ≤ 2 ^ 53)
    (heq : formulaText n l = formulaText n' l') : l = l' ∧ ∀ e ∈ l, n e = n' e := by
  have hread := scanParts_formulaText (H := H) h le_rfl
  rw [heq, scanParts_formulaText (H := H) h' le_rfl] at hread
  have hparts := Except.ok.inj hread
  have hl : l' = l := by
    have hfst := congrArg (List.map Prod.fst) hparts
    simpa [Function.comp_def] using hfst
  subst hl
  refine ⟨rfl, ?_⟩
  intro e he
  have hpair := List.map_inj_left.mp hparts e he
  exact_mod_cast (Prod.mk.inj hpair).2.symm

theorem normalForm_eq_iff (H : FormulaHost) (hw : Writable t) (h : Lawful t) (hw' : Writable t')
    (h' : Lawful t') : normalForm t = normalForm t' ↔ Proportional t t' := by
  have hdivisor := hw.divisor_ne_zero h
  have hdivisor' := hw'.divisor_ne_zero h'
  constructor
  · intro heq
    obtain ⟨helements, hnatural⟩ := formulaText_injective H (hw.written h) (hw'.written h') heq
    have hpos := multiple_pos hdivisor
    refine ⟨_, mul_pos (multiple_pos hdivisor') (inv_pos.mpr hpos), ?_⟩
    intro e
    cases hget : t.get e with
    | none =>
      cases hget' : t'.get e with
      | none => rfl
      | some q =>
        have hmem : e ∈ elementsOf t := helements ▸ mem_elementsOf.mpr ⟨q, hget'⟩
        obtain ⟨q', hq'⟩ := mem_elementsOf.mp hmem
        rw [hget] at hq'
        cases hq'
    | some q =>
      have hmem : e ∈ elementsOf t := mem_elementsOf.mpr ⟨q, hget⟩
      obtain ⟨q', hq'⟩ := mem_elementsOf.mp (helements ▸ hmem)
      have hleft := eq_mul_reducedNat (amountOf_mem hmem) (h.nonneg e) hdivisor
      have hright := eq_mul_reducedNat (amountOf_mem (helements ▸ hmem)) (h'.nonneg e) hdivisor'
      change amountOf t e = _ * (naturalOf t e : ℚ) at hleft
      change amountOf t' e = _ * (naturalOf t' e : ℚ) at hright
      rw [amountOf_eq hget] at hleft
      rw [amountOf_eq hq', ← hnatural e hmem] at hright
      rw [hq', Option.map_some, hright]
      congr 1
      conv_rhs => rw [hleft]
      rw [mul_assoc, inv_mul_cancel_left₀ hpos.ne']
  · intro hproportional
    rw [normalForm, normalForm, ← hproportional.elementsOf_eq, formulaText, formulaText,
      List.flatMap_def, List.flatMap_def]
    refine congrArg List.flatten (List.map_congr_left ?_)
    intro e he
    rw [hproportional.naturalOf_eq h hdivisor hdivisor' e he]

/-- Formulas have one normal form exactly when they have the same elements in the same ratio. -/
theorem normaliseComposition_canonical {s' : PyStr} (h : totalsOf H s = .ok t)
    (h' : totalsOf H s' = .ok t') (hw : Writable t) (hw' : Writable t') :
    ∃ u u', normaliseComposition H s = .ok u ∧ normaliseComposition H s' = .ok u' ∧
      normaliseComposition H u = .ok u ∧ (u = u' ↔ Proportional t t') := by
  have hlawful := totalsOf_lawful h
  have hlawful' := totalsOf_lawful h'
  exact ⟨normalForm t, normalForm t', normaliseComposition_eq h hw,
    normaliseComposition_eq h' hw', normaliseComposition_normalForm hw hlawful,
    normalForm_eq_iff H hw hlawful hw' hlawful'⟩

end Amounts

/-! Silica, from two databases. -/

def wholeFloat (q : ℚ) : Option PyStr := some (decimal ⌊q⌋.toNat ++ [46, 48])

theorem wholeFloat_natCast (n : ℕ) (_h : n ≤ 2 ^ 53) :
    wholeFloat n = some (decimal n ++ [46, 48]) := by
  rw [wholeFloat, Int.floor_natCast, Int.toNat_natCast]

theorem usual_limit : 640 ≤ 4300 := by decide

/-- The floats that are naturals. -/
def wholeHost : FormulaHost where
  digitLimit := 4300
  floatText := wholeFloat
  limit := usual_limit
  floatText_nat := wholeFloat_natCast

def silica : List PyStr := [py "Si", py "O"]

def doubled (e : PyStr) : ℕ := if e = py "O" then 4 else 2

def single (e : PyStr) : ℕ := if e = py "O" then 2 else 1

theorem silica_elements {n : PyStr → ℕ} (h : ∀ e, n e ≤ 4) :
    ∀ e ∈ silica, IsElement e ∧ n e ≤ 2 ^ 53 := by
  intro e he
  refine ⟨?_, (h e).trans (by norm_num)⟩
  rcases List.mem_cons.mp he with rfl | he
  · exact .two 83 105 rfl rfl
  · rw [List.mem_singleton.mp he]
    exact .one 79 rfl

theorem silica_nodup : silica.Nodup := by decide

theorem silica_writable {n : PyStr → ℕ} {t : Dict PyStr ℚ} (h : ∀ e, 0 < n e ∧ n e ≤ 4)
    (hitems : t.items = silica.map fun e => (e, (n e : ℚ))) : Writable t := by
  have hvalues : t.values = silica.map fun e => (n e : ℚ) := by
    rw [Dict.values, hitems, List.map_map]
    rfl
  constructor
  · refine ⟨n (py "Si"), ?_, Nat.cast_ne_zero.mpr (h _).1.ne'⟩
    rw [hvalues]
    exact List.mem_map_of_mem List.mem_cons_self
  · intro q hq
    rw [hvalues] at hq ⊢
    obtain ⟨e, he, rfl⟩ := List.mem_map.mp hq
    have hle := reduced_le_natural (x := fun e => (n e : ℚ)) (fun _ _ => rfl) e he
    refine hle.trans ?_
    exact_mod_cast (h e).2.trans (by norm_num)

theorem doubled_bounds (e : PyStr) : 0 < doubled e ∧ doubled e ≤ 4 := by
  unfold doubled
  split_ifs <;> decide

theorem single_bounds (e : PyStr) : 0 < single e ∧ single e ≤ 4 := by
  unfold single
  split_ifs <;> decide

theorem normaliseComposition_canonical_silica :
    ∃ t t', totalsOf wholeHost (py "Si2O4") = .ok t ∧ totalsOf wholeHost (py "SiO2") = .ok t' ∧
      ∃ u u', normaliseComposition wholeHost (py "Si2O4") = .ok u ∧
        normaliseComposition wholeHost (py "SiO2") = .ok u' ∧
        normaliseComposition wholeHost u = .ok u ∧ (u = u' ↔ Proportional t t') := by
  have htext : formulaText doubled silica = py "Si2O4" := by decide
  have htext' : formulaText single silica = py "SiO2" := by decide
  have hne : silica ≠ [] := List.cons_ne_nil _ _
  obtain ⟨t, ht, hitems⟩ := totalsOf_formulaText (H := wholeHost) hne silica_nodup
    (silica_elements fun e => (doubled_bounds e).2)
  obtain ⟨t', ht', hitems'⟩ := totalsOf_formulaText (H := wholeHost) hne silica_nodup
    (silica_elements fun e => (single_bounds e).2)
  rw [htext] at ht
  rw [htext'] at ht'
  exact ⟨t, t', ht, ht', normaliseComposition_canonical ht ht'
    (silica_writable doubled_bounds hitems) (silica_writable single_bounds hitems')⟩

end CanonicalFormulas
