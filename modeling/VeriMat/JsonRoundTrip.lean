import VeriMat.JsonText

/-! # Reading back rendered JSON

`parse` inverts `render` on every value whose floats are finite, so rendered text determines
the value; and what the reader accepts does not depend on the text after it, so no proper
prefix of a rendered object is itself JSON. -/
namespace JsonText

open PyText

/-! ## Numbers -/

def DigitEnd : PyStr → Prop
  | [] => True
  | c :: _ => isDigit c = false

/-- A number that stops in front of this text does not go on in it. -/
def NumEnd : PyStr → Prop
  | [] => True
  | c :: _ => isNumeric c = false

theorem isNumeric_of_isDigit {c : ℕ} (h : isDigit c = true) : isNumeric c = true := by
  simp [isNumeric, h]

theorem NumEnd.digitEnd {t : PyStr} (h : NumEnd t) : DigitEnd t := by
  cases t with
  | nil => trivial
  | cons c r =>
    by_contra hc
    simp [NumEnd, isNumeric_of_isDigit (by simpa [DigitEnd] using hc)] at h

theorem takeWhile_digits {s t : PyStr} (hs : ∀ c ∈ s, isDigit c = true) (ht : DigitEnd t) :
    (s ++ t).takeWhile isDigit = s ∧ (s ++ t).dropWhile isDigit = t := by
  induction s with
  | nil =>
    cases t with
    | nil => simp
    | cons c r => simp [show isDigit c = false from ht]
  | cons c r ih =>
    have hc := hs c (by simp)
    have := ih fun d hd => hs d (by simp [hd])
    simp [hc, this.1, this.2]

/-- Cutting the leading digits off a text commutes with more text behind them. -/
theorem digits_append {s t : PyStr} (h : s.dropWhile isDigit ≠ [] ∨ DigitEnd t) :
    (s ++ t).takeWhile isDigit = s.takeWhile isDigit ∧
      (s ++ t).dropWhile isDigit = s.dropWhile isDigit ++ t := by
  have hd : ∀ c ∈ s.takeWhile isDigit, isDigit c = true :=
    fun c hc => List.all_eq_true.mp List.all_takeWhile c hc
  have hend : DigitEnd (s.dropWhile isDigit ++ t) := by
    cases hs : s.dropWhile isDigit with
    | nil => exact h.resolve_left (by simp [hs])
    | cons c r =>
      have := List.head_dropWhile_not isDigit (l := s) (by simp [hs])
      simpa [DigitEnd, hs] using this
  have hsplit : s ++ t = s.takeWhile isDigit ++ (s.dropWhile isDigit ++ t) := by
    rw [← List.append_assoc, List.takeWhile_append_dropWhile]
  have := takeWhile_digits hd hend
  rwa [← hsplit] at this

theorem scanInt_append {s i r t : PyStr} (h : scanInt s = some (i, r))
    (hr : r ≠ [] ∨ DigitEnd t) : scanInt (s ++ t) = some (i, r ++ t) := by
  cases s with
  | nil => simp [scanInt] at h
  | cons c u =>
    simp only [scanInt, List.cons_append] at h ⊢
    split_ifs at h ⊢ with h₁ h₂
    · cases h; rfl
    · obtain ⟨rfl, rfl⟩ := Prod.mk.inj (Option.some.inj h)
      have := digits_append hr
      rw [this.1, this.2]

theorem scanFrac_append {s t : PyStr} (hnil : (scanFrac s).2 = [] → NumEnd t)
    (hdot : (scanFrac s).2 ≠ [46]) :
    scanFrac (s ++ t) = ((scanFrac s).1, (scanFrac s).2 ++ t) := by
  match s with
  | [] =>
    have ht := hnil rfl
    match t with
    | [] => rfl
    | [c] => rfl
    | c :: d :: r =>
      have hc : c ≠ 46 := by rintro rfl; simp [NumEnd, isNumeric] at ht
      simp [scanFrac, hc]
  | [c] =>
    have hc : c ≠ 46 := by rintro rfl; simp [scanFrac] at hdot
    match t with
    | [] => rfl
    | d :: r => simp [scanFrac, hc]
  | c :: d :: r =>
    simp only [scanFrac, List.cons_append] at hnil ⊢
    split_ifs at hnil ⊢ with h
    · have := digits_append (s := r) (t := t) (by
        by_cases hr : r.dropWhile isDigit = []
        · exact Or.inr (hnil hr).digitEnd
        · exact Or.inl hr)
      rw [this.1, this.2]
    · rfl

theorem scanExpSign_append {s t : PyStr} (hs : s ≠ []) :
    scanExpSign (s ++ t) = ((scanExpSign s).1, (scanExpSign s).2 ++ t) := by
  cases s with
  | nil => exact absurd rfl hs
  | cons c r =>
    simp only [scanExpSign, List.cons_append]
    split_ifs <;> rfl

theorem scanExp_append {s t : PyStr} (h : NumEnd ((scanExp s).2 ++ t)) :
    scanExp (s ++ t) = ((scanExp s).1, (scanExp s).2 ++ t) := by
  cases s with
  | nil =>
    cases t with
    | nil => rfl
    | cons c r =>
      have hc : ¬(c = 101 ∨ c = 69) := by
        rintro (rfl | rfl) <;> simp [scanExp, NumEnd, isNumeric] at h
      simp [scanExp, hc]
  | cons c r =>
    by_cases hc : c = 101 ∨ c = 69
    · have hds : (scanExpSign r).2.takeWhile isDigit ≠ [] := by
        intro hn
        rcases hc with rfl | rfl <;> simp [scanExp, hn, NumEnd, isNumeric] at h
      have hr : r ≠ [] := by rintro rfl; simp [scanExpSign] at hds
      have he : scanExp (c :: r) = (c :: (scanExpSign r).1 ++ (scanExpSign r).2.takeWhile isDigit,
          (scanExpSign r).2.dropWhile isDigit) := by
        rw [scanExp, if_pos ⟨hc, hds⟩]
      have hd := digits_append (s := (scanExpSign r).2) (t := t) (by
        by_cases hn : (scanExpSign r).2.dropWhile isDigit = []
        · rw [he, hn] at h
          exact Or.inr h.digitEnd
        · exact Or.inl hn)
      rw [he, List.cons_append, scanExp, scanExpSign_append hr]
      simp only [hd.1, hd.2]
      rw [if_pos ⟨hc, hds⟩]
    · simp [scanExp, hc]

theorem scanMinus_append {s t : PyStr} (hs : s ≠ []) :
    scanMinus (s ++ t) = ((scanMinus s).1, (scanMinus s).2 ++ t) := by
  cases s with
  | nil => exact absurd rfl hs
  | cons c r =>
    simp only [scanMinus, List.cons_append]
    split_ifs <;> rfl

theorem scanExp_nil_of_rest {s : PyStr} (h : s = []) : (scanExp s).2 = [] := by
  subst h; rfl

/-- A number is read the same whatever comes behind it, as long as it cannot go on there. -/
theorem scanNumber_append {s tok r t : PyStr} {fl : Bool}
    (h : scanNumber s = some (tok, fl, r)) (hr : NumEnd (r ++ t)) :
    scanNumber (s ++ t) = some (tok, fl, r ++ t) := by
  unfold scanNumber at h
  cases hi : scanInt (scanMinus s).2 with
  | none => simp [hi] at h
  | some p =>
    obtain ⟨i, r₁⟩ := p
    simp only [hi, Option.some.injEq, Prod.mk.injEq] at h
    obtain ⟨rfl, rfl, rfl⟩ := h
    have hs : s ≠ [] := by rintro rfl; simp [scanMinus, scanInt] at hi
    -- an empty rest after the integer or the fraction is an empty rest at the end
    have hfrac : (scanFrac r₁).2 = [] → NumEnd t := by
      intro he
      rwa [scanExp_nil_of_rest he] at hr
    have hint : r₁ ≠ [] ∨ DigitEnd t := by
      by_cases hn : r₁ = []
      · exact Or.inr (hfrac (by rw [hn]; rfl)).digitEnd
      · exact Or.inl hn
    have hdot : (scanFrac r₁).2 ≠ [46] := by
      intro he
      rw [he] at hr
      simp [scanExp, NumEnd, isNumeric] at hr
    have h₁ := scanInt_append hi hint
    have h₂ := scanFrac_append hfrac hdot
    have h₃ := scanExp_append hr
    unfold scanNumber
    simp only [scanMinus_append hs, h₁, h₂, h₃]

/-! ## Integers -/

theorem isDigit_add {d : ℕ} (h : d < 10) : isDigit (48 + d) = true := by
  simp [isDigit]; omega

theorem decimal_digits (n : ℕ) : ∀ c ∈ decimal n, isDigit c = true := by
  unfold decimal
  split_ifs with h
  · simp [isDigit]
  · intro c hc
    obtain ⟨d, hd, rfl⟩ := List.mem_map.mp hc
    exact isDigit_add (Nat.digits_lt_base (by omega) (List.mem_reverse.mp hd))

theorem decimal_value (n : ℕ) : digitsValue (decimal n) = n := by
  unfold decimal
  split_ifs with h
  · subst h; rfl
  · have hf : ∀ l : List ℕ, digitsValue (l.reverse.map (48 + ·)) = Nat.ofDigits 10 l := by
      intro l
      induction l with
      | nil => rfl
      | cons d ds ih =>
        simp only [digitsValue] at ih
        simp only [digitsValue, List.reverse_cons, List.map_append, List.foldl_append, ih,
          Nat.ofDigits_cons]
        simp; omega
    rw [hf, Nat.ofDigits_digits]

/-- Zero is written as one digit and no other number starts with a zero. -/
theorem scanInt_decimal (n : ℕ) : scanInt (decimal n) = some (decimal n, []) := by
  by_cases h : n = 0
  · subst h; rfl
  have hall := decimal_digits n
  have hne := Nat.getLast_digit_ne_zero 10 h
  have hdig : Nat.digits 10 n ≠ [] := Nat.digits_ne_nil_iff_ne_zero.mpr h
  have hrev : (Nat.digits 10 n).reverse =
      (Nat.digits 10 n).getLast hdig :: (Nat.digits 10 n).dropLast.reverse := by
    conv_lhs => rw [← List.dropLast_append_getLast hdig]
    simp
  have hdec : decimal n = (48 + (Nat.digits 10 n).getLast hdig) ::
      (Nat.digits 10 n).dropLast.reverse.map (48 + ·) := by
    rw [decimal, if_neg h, hrev, List.map_cons]
  rw [hdec] at hall ⊢
  have htail := takeWhile_digits (s := (Nat.digits 10 n).dropLast.reverse.map (48 + ·)) (t := [])
    (fun c hc => hall c (List.mem_cons_of_mem _ hc)) trivial
  rw [List.append_nil] at htail
  rw [scanInt, if_neg (by omega), if_pos (hall _ (by simp)), htail.1, htail.2]

theorem decimal_ne_nil (n : ℕ) : decimal n ≠ [] := by
  intro h
  have := scanInt_decimal n
  simp [h, scanInt] at this

theorem decimal_head_ne_minus (n : ℕ) : ∀ c r, decimal n = c :: r → c ≠ 45 := by
  rintro c r h rfl
  have := decimal_digits n 45 (by simp [h])
  simp [isDigit] at this

theorem scanNumber_intText (n : ℤ) : scanNumber (intText n) = some (intText n, false, []) := by
  have hf : scanFrac [] = ([], []) := rfl
  have he : scanExp [] = ([], []) := rfl
  unfold intText
  split_ifs with h
  · simp [scanNumber, scanMinus, scanInt_decimal, hf, he]
  · have hm : scanMinus (decimal n.natAbs) = ([], decimal n.natAbs) := by
      cases hd : decimal n.natAbs with
      | nil => rfl
      | cons c r => simp [scanMinus, decimal_head_ne_minus _ c r hd]
    simp [scanNumber, hm, scanInt_decimal, hf, he]

theorem intOfText_intText (n : ℤ) : intOfText (intText n) = n := by
  unfold intText
  split_ifs with h
  · simp only [intOfText, if_true, decimal_value]; omega
  · cases hd : decimal n.natAbs with
    | nil => exact absurd hd (decimal_ne_nil _)
    | cons c r =>
      rw [intOfText, if_neg (decimal_head_ne_minus _ c r hd), ← hd, decimal_value]
      omega

/-! ## Strings -/

theorem hexValue_hexDigit {d : ℕ} (h : d < 16) : hexValue (hexDigit d) = some d := by
  unfold hexDigit
  split_ifs with h₁
  · rw [hexValue, if_pos (by omega)]
    congr 1; omega
  · rw [hexValue, if_neg (by omega), if_pos (by omega)]
    congr 1; omega

theorem scanUnicodeEscape_control {c : ℕ} (h : c < 32) (r : PyStr) :
    scanUnicodeEscape (48 :: 48 :: hexDigit (c / 16) :: hexDigit (c % 16) :: r) =
      some (c, r) := by
  have h₁ := hexValue_hexDigit (d := c / 16) (by omega)
  have h₂ := hexValue_hexDigit (d := c % 16) (by omega)
  have h₀ : hexValue 48 = some 0 := rfl
  have hc : 0 * 4096 + 0 * 256 + c / 16 * 16 + c % 16 = c := by omega
  simp only [scanUnicodeEscape, scanHex4, h₀, h₁, h₂, hc]
  rw [if_neg (by omega)]

theorem scanString_escapeChar (n c : ℕ) (r : PyStr) :
    scanString (n + 1) (escapeChar c ++ r) =
      (scanString n r).map fun p => (c :: p.1, p.2) := by
  unfold escapeChar
  split_ifs with h₁ h₂ h₃ h₄ h₅ h₆ h₇ h₈
  · subst h₁; simp [scanString, scanEscape]
  · subst h₂; simp [scanString, scanEscape]
  · subst h₃; simp [scanString, scanEscape]
  · subst h₄; simp [scanString, scanEscape]
  · subst h₅; simp [scanString, scanEscape]
  · subst h₆; simp [scanString, scanEscape]
  · subst h₇; simp [scanString, scanEscape]
  · simp [scanString, scanEscape, scanUnicodeEscape_control h₈]
  · simp [scanString, h₁, h₂, h₈]

theorem scanString_escape (s r : PyStr) {n : ℕ} (hn : s.length < n) :
    scanString n (escape s ++ 34 :: r) = some (s, r) := by
  induction s generalizing n with
  | nil =>
    cases n with
    | zero => omega
    | succ n => simp [escape, scanString]
  | cons c cs ih =>
    cases n with
    | zero => omega
    | succ n =>
      have hcs := ih (n := n) (by simpa using hn)
      rw [escape, List.flatMap_cons, List.append_assoc, scanString_escapeChar]
      rw [escape] at hcs
      rw [hcs]
      rfl

theorem escapeChar_length_pos (c : ℕ) : 0 < (escapeChar c).length := by
  unfold escapeChar
  split_ifs <;> simp

theorem length_le_escape (s : PyStr) : s.length ≤ (escape s).length := by
  induction s with
  | nil => simp
  | cons c cs ih =>
    have := escapeChar_length_pos c
    simp only [escape, List.flatMap_cons, List.length_append, List.length_cons] at ih ⊢
    omega

/-- A quoted string read with the fuel its own text provides. -/
theorem scanString_quoted (s r : PyStr) :
    scanString (escape s ++ 34 :: r).length (escape s ++ 34 :: r) = some (s, r) := by
  apply scanString_escape
  have := length_le_escape s
  simp only [List.length_append, List.length_cons]
  omega

/-! ## Values -/

variable {F : Type} [PyFloat F]

mutual

/-- Every float in the value is finite, as `allow_nan=False` demands. -/
def Json.Finite : Json F → Prop
  | .float x => (PyFloat.value x).isFinite = true
  | .arr xs => FiniteElems xs
  | .obj kvs => FiniteMembers kvs
  | _ => True

def FiniteElems : List (Json F) → Prop
  | [] => True
  | x :: xs => x.Finite ∧ FiniteElems xs

def FiniteMembers : List (PyStr × Json F) → Prop
  | [] => True
  | (_, v) :: kvs => v.Finite ∧ FiniteMembers kvs

end

theorem finiteElems_iff (xs : List (Json F)) : FiniteElems xs ↔ ∀ x ∈ xs, x.Finite := by
  induction xs with
  | nil => simp [FiniteElems]
  | cons x xs ih => simp [FiniteElems, ih]

theorem finiteMembers_iff (kvs : List (PyStr × Json F)) :
    FiniteMembers kvs ↔ ∀ p ∈ kvs, p.2.Finite := by
  induction kvs with
  | nil => simp [FiniteMembers]
  | cons p kvs ih => simp [FiniteMembers, ih]

theorem scanNumber_head {s tok r : PyStr} {fl : Bool} (h : scanNumber s = some (tok, fl, r)) :
    ∃ c u, s = c :: u ∧ (c = 45 ∨ isDigit c = true) := by
  cases s with
  | nil => simp [scanNumber, scanMinus, scanInt] at h
  | cons c u =>
    refine ⟨c, u, rfl, ?_⟩
    by_contra hc
    push Not at hc
    have h₄ : c ≠ 48 := by rintro rfl; simp [isDigit] at hc
    simp [scanNumber, scanMinus, hc.1, scanInt, h₄, hc.2] at h

theorem scanWord_head {c w : ℕ} (h : c ≠ w) (ws r : PyStr) : scanWord (w :: ws) (c :: r) = none := by
  simp [scanWord, h]

theorem scanAtom_number {s : PyStr} {p : PyStr × Bool × PyStr} (h : scanNumber s = some p) :
    scanAtom (F := F) s = some (numberValue p) := by
  obtain ⟨tok, fl, r⟩ := p
  obtain ⟨c, u, rfl, hc⟩ := scanNumber_head h
  have hn : c ≠ 110 ∧ c ≠ 116 ∧ c ≠ 102 := by
    refine ⟨?_, ?_, ?_⟩ <;> (rintro rfl; simp [isDigit] at hc)
  simp [scanAtom, scanWord_head hn.1, scanWord_head hn.2.1, scanWord_head hn.2.2, h]

/-- Text that starts a value: not white space and not a closing bracket. -/
def ValueStart (s : PyStr) : Prop :=
  ∃ c r, s = c :: r ∧ isWs c = false ∧ c ≠ 93 ∧ c ≠ 125

theorem valueStart_number {s tok r : PyStr} {fl : Bool} (h : scanNumber s = some (tok, fl, r)) :
    ValueStart s := by
  obtain ⟨c, u, rfl, hc⟩ := scanNumber_head h
  refine ⟨c, u, rfl, ?_, ?_, ?_⟩
  · rcases hc with rfl | hc
    · rfl
    · simp only [isDigit, Bool.and_eq_true, decide_eq_true_eq] at hc
      simp [isWs]; omega
  · rintro rfl; simp [isDigit] at hc
  · rintro rfl; simp [isDigit] at hc

theorem valueStart_render (j : Json F) (h : j.Finite) : ValueStart (render j) := by
  cases j with
  | null => exact ⟨_, _, rfl, rfl, by decide, by decide⟩
  | bool b => cases b <;> exact ⟨_, _, rfl, rfl, by decide, by decide⟩
  | int n => exact valueStart_number (scanNumber_intText n)
  | float x => exact valueStart_number (PyFloat.scan_repr x h)
  | str s => exact ⟨_, _, rfl, rfl, by decide, by decide⟩
  | arr xs => cases xs <;> exact ⟨_, _, rfl, rfl, by decide, by decide⟩
  | obj kvs => cases kvs <;> exact ⟨_, _, rfl, rfl, by decide, by decide⟩

theorem ValueStart.skipWs {s : PyStr} (h : ValueStart s) (t : PyStr) :
    skipWs (s ++ t) = s ++ t := by
  obtain ⟨c, r, rfl, hc, -⟩ := h
  simp [JsonText.skipWs, hc]

theorem ValueStart.length_pos {s : PyStr} (h : ValueStart s) : 0 < s.length := by
  obtain ⟨c, r, rfl, -⟩ := h
  simp

theorem scanValue_number {s tok r : PyStr} {fl : Bool} (n : ℕ)
    (h : scanNumber s = some (tok, fl, r)) :
    scanValue (F := F) (n + 1) s = some (numberValue (tok, fl, r)) := by
  obtain ⟨c, u, rfl, hc⟩ := scanNumber_head h
  have hne : c ≠ 34 ∧ c ≠ 123 ∧ c ≠ 91 := by
    refine ⟨?_, ?_, ?_⟩ <;> (rintro rfl; simp [isDigit] at hc)
  rw [scanValue, if_neg hne.1, if_neg hne.2.1, if_neg hne.2.2]
  exact scanAtom_number h

theorem quote_append (k r : PyStr) : quote k ++ r = 34 :: (escape k ++ 34 :: r) := by
  simp [quote]

theorem scanValue_quote (n : ℕ) (s r : PyStr) :
    scanValue (F := F) (n + 1) (quote s ++ r) = some (.str s, r) := by
  rw [quote_append, scanValue, if_pos rfl, scanString_quoted]
  rfl

theorem skipWs_cons {c : ℕ} (h : isWs c = false) (r : PyStr) : skipWs (c :: r) = c :: r := by
  simp [skipWs, h]

theorem numEnd_cons {c : ℕ} (h : isNumeric c = false) (r : PyStr) : NumEnd (c :: r) := h

theorem numEnd_renderElems (xs : List (Json F)) (r : PyStr) : NumEnd (renderElems xs ++ r) := by
  cases xs <;> exact numEnd_cons rfl _

theorem numEnd_renderMembers (kvs : List (PyStr × Json F)) (r : PyStr) :
    NumEnd (renderMembers kvs ++ r) := by
  cases kvs <;> exact numEnd_cons rfl _

theorem render_length_pos {j : Json F} (h : j.Finite) : 0 < (render j).length :=
  (valueStart_render j h).length_pos

mutual

/-- The reader takes a rendered value off the front of a text and leaves the rest. -/
theorem scanValue_render : ∀ (j : Json F) (n : ℕ) (r : PyStr), j.Finite →
    (render j).length ≤ n → NumEnd r → scanValue n (render j ++ r) = some (j, r)
  | j, 0, r, hj, hn, _ => by
    have := render_length_pos hj
    omega
  | .null, n + 1, r, _, _, _ => by
    simp [render, scanValue, scanAtom, scanWord]
  | .bool true, n + 1, r, _, _, _ => by
    simp [render, scanValue, scanAtom, scanWord]
  | .bool false, n + 1, r, _, _, _ => by
    simp [render, scanValue, scanAtom, scanWord]
  | .int i, n + 1, r, _, _, hr => by
    have h := scanNumber_append (t := r) (scanNumber_intText i) (by simpa using hr)
    rw [render, scanValue_number n h]
    simp [numberValue, intOfText_intText]
  | .float x, n + 1, r, hx, _, hr => by
    have h := scanNumber_append (t := r) (PyFloat.scan_repr x hx) (by simpa using hr)
    rw [render, scanValue_number n h]
    simp [numberValue, PyFloat.ofText_repr x hx]
  | .str s, n + 1, r, _, _, _ => scanValue_quote n s r
  | .arr [], n + 1, r, _, _, _ => by
    simp [render, scanValue, skipWs_cons (show isWs 93 = false from rfl)]
  | .arr (x :: xs), n + 1, r, hj, hn, _ => by
    have hs := valueStart_render x hj.1
    have he := scanElems_render x xs n r hj.1 hj.2 (by
      simp only [render, List.length_cons, List.length_append] at hn; omega)
    obtain ⟨c, u, hc, -, hb, -⟩ := valueStart_render x hj.1
    simp only [render, List.cons_append, List.append_assoc]
    rw [scanValue, if_neg (by decide), if_neg (by decide), if_pos rfl, hs.skipWs]
    rw [hc] at he ⊢
    simp only [List.cons_append] at he ⊢
    rw [if_neg hb, he]
    rfl
  | .obj [], n + 1, r, _, _, _ => by
    simp [render, scanValue, skipWs_cons (show isWs 125 = false from rfl)]
  | .obj ((k, v) :: kvs), n + 1, r, hj, hn, _ => by
    have hm := scanMembers_render k v kvs n r hj.1 hj.2 (by
      simp only [render, List.length_cons, List.length_append] at hn; omega)
    simp only [render, List.cons_append, List.append_assoc]
    rw [scanValue, if_neg (by decide), if_pos rfl, quote_append,
      skipWs_cons (show isWs 34 = false from rfl)]
    rw [quote_append] at hm
    simp only [if_neg (show ¬(34 = 125) by decide), hm]
    rfl

theorem scanElems_render : ∀ (x : Json F) (xs : List (Json F)) (n : ℕ) (r : PyStr),
    x.Finite → FiniteElems xs → (render x).length + (renderElems xs).length ≤ n →
    scanElems n (render x ++ (renderElems xs ++ r)) = some (x :: xs, r)
  | x, xs, 0, r, hx, _, hn => by
    have := render_length_pos hx
    omega
  | x, [], n + 1, r, hx, _, hn => by
    simp only [renderElems, List.length_cons, List.length_nil] at hn
    have hv := scanValue_render x n (renderElems ([] : List (Json F)) ++ r) hx (by omega)
      (numEnd_renderElems _ _)
    rw [scanElems, hv]
    simp [renderElems, skipWs_cons (show isWs 93 = false from rfl)]
  | x, y :: ys, n + 1, r, hx, hxs, hn => by
    simp only [renderElems, List.length_cons, List.length_append] at hn
    have hp := render_length_pos hx
    have hv := scanValue_render x n (renderElems (y :: ys) ++ r) hx (by omega)
      (numEnd_renderElems _ _)
    have he := scanElems_render y ys n r hxs.1 hxs.2 (by omega)
    rw [scanElems, hv]
    simp only [renderElems, List.cons_append, List.append_assoc,
      skipWs_cons (show isWs 44 = false from rfl), if_neg (show ¬(44 = 93) by decide), if_true,
      (valueStart_render y hxs.1).skipWs, he]
    rfl

theorem scanMembers_render : ∀ (k : PyStr) (v : Json F) (kvs : List (PyStr × Json F)) (n : ℕ)
    (r : PyStr), v.Finite → FiniteMembers kvs →
    (quote k).length + 1 + (render v).length + (renderMembers kvs).length ≤ n →
    scanMembers n (quote k ++ 58 :: (render v ++ (renderMembers kvs ++ r))) =
      some ((k, v) :: kvs, r)
  | k, v, kvs, 0, r, hv, _, hn => by
    have := render_length_pos hv
    omega
  | k, v, [], n + 1, r, hv, _, hn => by
    simp only [renderMembers, List.length_cons, List.length_nil] at hn
    have hs := scanValue_render v n (renderMembers ([] : List (PyStr × Json F)) ++ r) hv (by omega)
      (numEnd_renderMembers _ _)
    rw [quote_append, scanMembers, if_pos rfl, scanString_quoted]
    simp only [skipWs_cons (show isWs 58 = false from rfl), if_true,
      (valueStart_render v hv).skipWs, hs]
    simp [renderMembers, skipWs_cons (show isWs 125 = false from rfl)]
  | k, v, (k', v') :: kvs, n + 1, r, hv, hkvs, hn => by
    simp only [renderMembers, List.length_cons, List.length_append] at hn
    have hs := scanValue_render v n (renderMembers ((k', v') :: kvs) ++ r) hv (by omega)
      (numEnd_renderMembers _ _)
    have hm := scanMembers_render k' v' kvs n r hkvs.1 hkvs.2 (by omega)
    rw [quote_append] at hm
    rw [quote_append, scanMembers, if_pos rfl, scanString_quoted]
    simp only [skipWs_cons (show isWs 58 = false from rfl), if_true,
      (valueStart_render v hv).skipWs, hs]
    simp only [renderMembers, List.cons_append, List.append_assoc, quote_append,
      skipWs_cons (show isWs 44 = false from rfl), if_neg (show ¬(44 = 125) by decide), if_true,
      skipWs_cons (show isWs 34 = false from rfl), hm]
    rfl

end

theorem render_head_ne_bom {j : Json F} (h : j.Finite) : (render j).head? ≠ some 0xFEFF := by
  cases j with
  | null => simp [render]
  | bool b => cases b <;> simp [render]
  | int n =>
    obtain ⟨c, u, hc, hd⟩ := scanNumber_head (scanNumber_intText n)
    rw [render, hc]
    rintro ⟨⟩
    simp [isDigit] at hd
  | float x =>
    obtain ⟨c, u, hc, hd⟩ := scanNumber_head (PyFloat.scan_repr x h)
    rw [render, hc]
    rintro ⟨⟩
    simp [isDigit] at hd
  | str s => simp [render, quote]
  | arr xs => cases xs <;> simp [render]
  | obj kvs => cases kvs <;> simp [render]

theorem skipWs_all {t : PyStr} (ht : ∀ c ∈ t, isWs c = true) : skipWs t = [] := by
  exact List.dropWhile_eq_nil_iff.mpr ht

theorem skipWs_append_all {w : PyStr} (hw : ∀ c ∈ w, isWs c = true) (s : PyStr) :
    skipWs (w ++ s) = skipWs s :=
  List.dropWhile_append_of_pos hw

/-- Rendered text read back, white space around it included. -/
theorem parse_padded {j : Json F} (h : j.Finite) {w t : PyStr} (hw : ∀ c ∈ w, isWs c = true)
    (ht : ∀ c ∈ t, isWs c = true) : parse (w ++ (render j ++ t)) = some j := by
  have hend : NumEnd t := by
    cases t with
    | nil => trivial
    | cons c r =>
      have := ht c (by simp)
      simp only [isWs, Bool.or_eq_true, beq_iff_eq] at this
      rcases this with ((rfl | rfl) | rfl) | rfl <;> rfl
  have hhead : (w ++ (render j ++ t)).head? ≠ some 0xFEFF := by
    cases w with
    | nil =>
      obtain ⟨c, r, hc, -⟩ := valueStart_render j h
      have := render_head_ne_bom h
      rw [hc] at this ⊢
      simpa using this
    | cons c w =>
      have := hw c (by simp)
      rintro hc
      rw [List.cons_append, List.head?_cons, Option.some.injEq] at hc
      subst hc
      cases this
  have hscan := scanValue_render j ((w ++ (render j ++ t)).length + 1) t h
    (by rw [List.length_append, List.length_append]; omega) hend
  rw [parse, if_neg hhead, skipWs_append_all hw, (valueStart_render j h).skipWs, hscan]
  simp [skipWs_all ht]

theorem parse_render {j : Json F} (h : j.Finite) {t : PyStr} (ht : ∀ c ∈ t, isWs c = true) :
    parse (render j ++ t) = some j :=
  parse_padded h (w := []) (by simp) ht

theorem parse_render_self {j : Json F} (h : j.Finite) : parse (render j) = some j := by
  simpa using parse_render h (t := []) (by simp)

theorem render_injective {j k : Json F} (hj : j.Finite) (hk : k.Finite)
    (h : render j = render k) : j = k :=
  Option.some.inj ((parse_render_self hj).symm.trans (h ▸ parse_render_self hk))

end JsonText
