import Mathlib

/-! # Python text

A Python `str` is a list of code points, surrogates included; a byte string is a list of
naturals below 256. UTF-8 is the strict codec: it refuses surrogates when it encodes, and
overlong forms, surrogates and truncated characters when it decodes. -/
namespace PyText

abbrev PyStr := List ℕ
abbrev PyBytes := List ℕ

instance : LawfulBEq PyStr := inferInstance

/-- The `str` with the code points of a literal. -/
def py (s : String) : PyStr := s.toList.map Char.toNat

theorem py_injective : Function.Injective py :=
  fun _ _ h => String.toList_injective (List.map_injective_iff.mpr (fun _ _ => Char.toNat_inj.mp) h)

theorem py_ne_nil {s : String} (h : s ≠ "") : py s ≠ [] := by
  rw [← show py "" = [] from rfl]
  exact py_injective.ne h

theorem head?_py (c : Char) (cs : List Char) : (py (String.ofList (c :: cs))).head? = some c.toNat := by
  rw [py, String.toList_ofList]
  rfl

/-- The code points `str.strip` removes when it is called without an argument. -/
def isSpace (c : ℕ) : Bool :=
  (9 ≤ c && c ≤ 13) || (28 ≤ c && c ≤ 32) || c == 0x85 || c == 0xA0 || c == 0x1680 ||
    (0x2000 ≤ c && c ≤ 0x200A) || c == 0x2028 || c == 0x2029 || c == 0x202F ||
    c == 0x205F || c == 0x3000

/-- `not s.strip()`. -/
def isBlank (s : PyStr) : Bool := s.all isSpace

theorem isBlank_py (c : Char) (cs : List Char) (h : isSpace c.toNat = false) :
    isBlank (py (String.ofList (c :: cs))) = false := by
  rw [py, String.toList_ofList, isBlank, List.map_cons, List.all_cons, h, Bool.false_and]

def isSurrogate (c : ℕ) : Bool := 0xD800 ≤ c && c < 0xE000

theorem isBlank_append (s t : PyStr) :
    isBlank (s ++ t) = (isBlank s && isBlank t) := by
  simp [isBlank]

/-! ## UTF-8 -/

def encodeChar (c : ℕ) : Option (PyBytes) :=
  if c < 0x80 then some [c]
  else if c < 0x800 then some [0xC0 + c / 64, 0x80 + c % 64]
  else if isSurrogate c then none
  else if c < 0x10000 then some [0xE0 + c / 4096, 0x80 + c / 64 % 64, 0x80 + c % 64]
  else if c < 0x110000 then
    some [0xF0 + c / 262144, 0x80 + c / 4096 % 64, 0x80 + c / 64 % 64, 0x80 + c % 64]
  else none

/-- `s.encode("utf-8")`; `none` is the UnicodeEncodeError. -/
def encode : PyStr → Option (PyBytes)
  | [] => some []
  | c :: cs =>
    match encodeChar c, encode cs with
    | some b, some bs => some (b ++ bs)
    | _, _ => none

def isTail (b : ℕ) : Bool := 0x80 ≤ b && b < 0xC0

/-- `bytes.decode("utf-8")`; `none` is the UnicodeDecodeError. -/
def decode : PyBytes → Option (PyStr)
  | [] => some []
  | a :: bs =>
    if a < 0x80 then (decode bs).map (a :: ·)
    else if 0xC2 ≤ a ∧ a < 0xE0 then
      match bs with
      | b :: bs =>
        if isTail b then (decode bs).map (((a - 0xC0) * 64 + (b - 0x80)) :: ·) else none
      | _ => none
    else if 0xE0 ≤ a ∧ a < 0xF0 then
      match bs with
      | b :: c :: bs =>
        let p := (a - 0xE0) * 4096 + (b - 0x80) * 64 + (c - 0x80)
        if isTail b ∧ isTail c ∧ 0x800 ≤ p ∧ ¬isSurrogate p then (decode bs).map (p :: ·)
        else none
      | _ => none
    else if 0xF0 ≤ a ∧ a < 0xF5 then
      match bs with
      | b :: c :: d :: bs =>
        let p := (a - 0xF0) * 262144 + (b - 0x80) * 4096 + (c - 0x80) * 64 + (d - 0x80)
        if isTail b ∧ isTail c ∧ isTail d ∧ 0x10000 ≤ p ∧ p < 0x110000 then
          (decode bs).map (p :: ·)
        else none
      | _ => none
    else none

@[simp] theorem encode_nil : encode [] = some [] := rfl

theorem encode_cons (c : ℕ) (cs : PyStr) :
    encode (c :: cs) = match encodeChar c, encode cs with
      | some b, some bs => some (b ++ bs)
      | _, _ => none := rfl

theorem encode_cons_eq_some {c : ℕ} {cs : PyStr} {bs : PyBytes} :
    encode (c :: cs) = some bs ↔
      ∃ b r, encodeChar c = some b ∧ encode cs = some r ∧ bs = b ++ r := by
  rw [encode_cons]
  cases encodeChar c <;> cases encode cs <;> simp [eq_comm]

theorem encode_append (s t : PyStr) :
    encode (s ++ t) = (encode s).bind fun a => (encode t).map (a ++ ·) := by
  induction s with
  | nil => cases h : encode t <;> simp [h]
  | cons c cs ih =>
    simp only [List.cons_append, encode_cons, ih]
    cases encodeChar c <;> cases encode cs <;> cases encode t <;> simp

theorem encode_append_eq_some {s t : PyStr} {bs : PyBytes} :
    encode (s ++ t) = some bs ↔
      ∃ a b, encode s = some a ∧ encode t = some b ∧ bs = a ++ b := by
  rw [encode_append]
  cases encode s <;> cases encode t <;> simp [eq_comm]

theorem encode_isSome_iff {s : PyStr} :
    (encode s).isSome = true ↔ ∀ c ∈ s, (encodeChar c).isSome = true := by
  induction s with
  | nil => simp
  | cons c cs ih =>
    rw [List.forall_mem_cons, ← ih, encode_cons]
    cases encodeChar c with
    | none => simp
    | some b =>
      cases encode cs with
      | none => simp
      | some bs => simp

/-- A text of the source has no surrogates. -/
theorem encode_py (s : String) : (encode (py s)).isSome = true := by
  refine encode_isSome_iff.mpr fun c hc => ?_
  obtain ⟨char, -, rfl⟩ := List.mem_map.mp hc
  have hvalid := char.valid
  rw [UInt32.isValidChar, Nat.isValidChar] at hvalid
  simp only [encodeChar, isSurrogate, Char.toNat]
  split_ifs <;> simp_all <;> omega

attribute [local simp] decode in
theorem decode_ascii {a : ℕ} (h : a < 0x80) (bs : PyBytes) :
    decode (a :: bs) = (decode bs).map (a :: ·) := by
  cases bs with
  | nil => simp [h]
  | cons b bs => simp [h]

theorem decode_two {a b : ℕ} (h : 0xC2 ≤ a ∧ a < 0xE0) (hb : isTail b = true) (bs : PyBytes) :
    decode (a :: b :: bs) = (decode bs).map (((a - 0xC0) * 64 + (b - 0x80)) :: ·) := by
  rw [decode, if_neg (by omega), if_pos h, if_pos hb]

theorem decode_three {a b c p : ℕ} (h : 0xE0 ≤ a ∧ a < 0xF0)
    (hp : (a - 0xE0) * 4096 + (b - 0x80) * 64 + (c - 0x80) = p)
    (hc : isTail b ∧ isTail c ∧ 0x800 ≤ p ∧ ¬isSurrogate p) (bs : PyBytes) :
    decode (a :: b :: c :: bs) = (decode bs).map (p :: ·) := by
  subst hp
  rw [decode, if_neg (by omega), if_neg (by omega), if_pos h]
  exact if_pos hc

theorem decode_four {a b c d p : ℕ} (h : 0xF0 ≤ a ∧ a < 0xF5)
    (hp : (a - 0xF0) * 262144 + (b - 0x80) * 4096 + (c - 0x80) * 64 + (d - 0x80) = p)
    (hd : isTail b ∧ isTail c ∧ isTail d ∧ 0x10000 ≤ p ∧ p < 0x110000) (bs : PyBytes) :
    decode (a :: b :: c :: d :: bs) = (decode bs).map (p :: ·) := by
  subst hp
  rw [decode, if_neg (by omega), if_neg (by omega), if_neg (by omega), if_pos h]
  exact if_pos hd

/-- A character's bytes read back to it, whatever follows them. -/
theorem decode_encodeChar {c : ℕ} {b : PyBytes} (h : encodeChar c = some b)
    (rest : PyBytes) : decode (b ++ rest) = (decode rest).map (c :: ·) := by
  unfold encodeChar at h
  split at h
  · cases h
    exact decode_ascii (by omega) rest
  split at h
  · cases h
    have h₁ : 0xC2 ≤ 0xC0 + c / 64 ∧ 0xC0 + c / 64 < 0xE0 := by omega
    have h₂ : isTail (0x80 + c % 64) = true := by simp [isTail]; omega
    have h₃ : (0xC0 + c / 64 - 0xC0) * 64 + (0x80 + c % 64 - 0x80) = c := by omega
    have h := decode_two h₁ h₂ rest
    rwa [h₃] at h
  split at h
  · cases h
  rename_i hs
  split at h
  · cases h
    have h₁ : 0xE0 ≤ 0xE0 + c / 4096 ∧ 0xE0 + c / 4096 < 0xF0 := by omega
    have h₂ : isTail (0x80 + c / 64 % 64) = true := by simp [isTail]; omega
    have h₃ : isTail (0x80 + c % 64) = true := by simp [isTail]; omega
    exact decode_three h₁ (by omega) ⟨h₂, h₃, by omega, hs⟩ rest
  split at h
  · cases h
    have h₁ : 0xF0 ≤ 0xF0 + c / 262144 ∧ 0xF0 + c / 262144 < 0xF5 := by omega
    have h₂ : isTail (0x80 + c / 4096 % 64) = true := by simp [isTail]; omega
    have h₃ : isTail (0x80 + c / 64 % 64) = true := by simp [isTail]; omega
    have h₄ : isTail (0x80 + c % 64) = true := by simp [isTail]; omega
    exact decode_four h₁ (by omega) ⟨h₂, h₃, h₄, by omega, by omega⟩ rest
  · cases h

theorem decode_encode {s : PyStr} {bs : PyBytes} (h : encode s = some bs) :
    decode bs = some s := by
  induction s generalizing bs with
  | nil => cases h; rfl
  | cons c cs ih =>
    obtain ⟨b, r, hb, hr, rfl⟩ := encode_cons_eq_some.mp h
    rw [decode_encodeChar hb, ih hr]
    rfl

/-- Bytes that were read are read the same in front of others. -/
theorem decode_append {b : PyBytes} {t : PyStr} (h : decode b = some t) (r : PyBytes) :
    decode (b ++ r) = (decode r).map (t ++ ·) := by
  have hcons : ∀ {c : ℕ} {bs : PyBytes} {t : PyStr},
      (∀ t, decode bs = some t → decode (bs ++ r) = (decode r).map (t ++ ·)) →
      (decode bs).map (c :: ·) = some t →
        (decode (bs ++ r)).map (c :: ·) = (decode r).map (t ++ ·) := by
    intro c bs t ih h
    obtain ⟨u, hu, rfl⟩ := Option.map_eq_some_iff.mp h
    rw [ih u hu, Option.map_map]
    rfl
  fun_induction decode b generalizing t with
  | case1 =>
    cases h
    simp
  | case2 a bs ha ih =>
    rw [List.cons_append, decode_ascii ha]
    exact hcons (fun t ht => ih ht) h
  | case3 a h₁ h₂ b bs hb ih =>
    rw [List.cons_append, List.cons_append, decode_two h₂ hb]
    exact hcons (fun t ht => ih ht) h
  | case4 | case5 => cases h
  | case6 a h₁ h₂ h₃ b c bs p hp =>
    rename_i ih
    simp only [List.cons_append]
    rw [decode_three h₃ rfl hp]
    exact hcons (fun t ht => ih ht) h
  | case7 | case8 => cases h
  | case9 a h₁ h₂ h₃ h₄ b c d bs p hp =>
    rename_i ih
    simp only [List.cons_append]
    rw [decode_four h₄ rfl hp]
    exact hcons (fun t ht => ih ht) h
  | case10 | case11 | case12 => cases h

/-- A character cut short cannot be read, whichever of its bytes is missing. -/
theorem decode_truncatedChar {c : ℕ} {b : PyBytes} (h : encodeChar c = some b)
    {n : ℕ} (hn : 0 < n) (hlt : n < b.length) : decode (b.take n) = none := by
  unfold encodeChar at h
  split at h
  · cases h
    simp at hlt; omega
  split at h
  · cases h
    simp only [List.length_cons, List.length_nil] at hlt
    obtain rfl : n = 1 := by omega
    simp only [List.take_succ_cons, List.take_zero, decode]
    rw [if_neg (by omega), if_pos (by omega)]
  split at h
  · cases h
  split at h
  · cases h
    simp only [List.length_cons, List.length_nil] at hlt
    obtain rfl | rfl : n = 1 ∨ n = 2 := by omega
    all_goals
      simp only [List.take_succ_cons, List.take_zero, decode]
      rw [if_neg (by omega), if_neg (by omega), if_pos (by omega)]
  split at h
  · cases h
    simp only [List.length_cons, List.length_nil] at hlt
    obtain rfl | rfl | rfl : n = 1 ∨ n = 2 ∨ n = 3 := by omega
    all_goals
      simp only [List.take_succ_cons, List.take_zero, decode]
      rw [if_neg (by omega), if_neg (by omega), if_neg (by omega), if_pos (by omega)]
  · cases h

theorem encodeChar_length_pos {c : ℕ} {b : PyBytes} (h : encodeChar c = some b) :
    0 < b.length := by
  unfold encodeChar at h
  split_ifs at h <;> cases h <;> simp

/-- A byte prefix of encoded text is the encoding of a prefix of the text, or it ends inside
a character and cannot be read. -/
theorem decode_take {s : PyStr} {bs : PyBytes} (h : encode s = some bs) (n : ℕ) :
    decode (bs.take n) = none ∨
      ∃ t, t <+: s ∧ encode t = some (bs.take n) ∧ decode (bs.take n) = some t := by
  induction s generalizing bs n with
  | nil =>
    cases h
    exact Or.inr ⟨[], List.prefix_refl _, by simp, by simp [decode]⟩
  | cons c cs ih =>
    obtain ⟨b, r, hb, hr, rfl⟩ := encode_cons_eq_some.mp h
    rcases Nat.eq_zero_or_pos n with rfl | hn
    · exact Or.inr ⟨[], List.nil_prefix, by simp, by simp [decode]⟩
    by_cases hlt : n < b.length
    · left
      rw [List.take_append_of_le_length (by omega)]
      exact decode_truncatedChar hb hn hlt
    · rw [List.take_append, List.take_of_length_le (by omega)]
      rcases ih hr (n - b.length) with hd | ⟨t, ht, he, hd⟩
      · left
        rw [decode_encodeChar hb, hd]
        rfl
      · right
        refine ⟨c :: t, List.cons_prefix_cons.mpr ⟨rfl, ht⟩, ?_, ?_⟩
        · exact encode_cons_eq_some.mpr ⟨b, _, hb, he, rfl⟩
        · rw [decode_encodeChar hb, hd]
          rfl

/-! ## Lines -/

/-- The lines of a text file read with `newline="\n"`, terminators included. -/
def lines : PyStr → List PyStr
  | [] => []
  | c :: cs =>
    if c = 10 then [c] :: lines cs
    else
      match lines cs with
      | [] => [[c]]
      | l :: ls => (c :: l) :: ls

/-- What universal newline mode turns a text into before it is split. -/
def translateNewlines : PyStr → PyStr
  | [] => []
  | 13 :: 10 :: cs => 10 :: translateNewlines cs
  | c :: cs => (if c = 13 then 10 else c) :: translateNewlines cs

/-- The lines of a text file opened without a `newline` argument. -/
def universalLines (s : PyStr) : List PyStr := lines (translateNewlines s)

@[simp] theorem lines_nil : lines [] = [] := rfl

theorem translateNewlines_of_noReturn {s : PyStr} (h : 13 ∉ s) : translateNewlines s = s := by
  induction s using translateNewlines.induct with
  | case1 => rfl
  | case2 cs _ => simp at h
  | case3 c cs hne ih =>
    rw [List.mem_cons, not_or] at h
    rw [translateNewlines, if_neg (Ne.symm h.1), ih h.2]
    exact hne

theorem universalLines_of_noReturn {s : PyStr} (h : 13 ∉ s) : universalLines s = lines s := by
  rw [universalLines, translateNewlines_of_noReturn h]

theorem lines_terminated {l : PyStr} (hl : 10 ∉ l) (r : PyStr) :
    lines (l ++ 10 :: r) = (l ++ [10]) :: lines r := by
  induction l with
  | nil => simp [lines]
  | cons c cs ih =>
    simp only [List.mem_cons, not_or] at hl
    simp [lines, Ne.symm hl.1, ih hl.2]

theorem lines_unterminated {l : PyStr} (hl : 10 ∉ l) (hne : l ≠ []) :
    lines l = [l] := by
  induction l with
  | nil => exact absurd rfl hne
  | cons c cs ih =>
    simp only [List.mem_cons, not_or] at hl
    cases cs with
    | nil => simp [lines, Ne.symm hl.1]
    | cons d ds => rw [lines, if_neg (Ne.symm hl.1), ih hl.2 (by simp)]

/-- Induction over a text line by line, down to the rest behind its last line feed. -/
theorem lines_induction {P : PyStr → Prop} (rest : ∀ q, 10 ∉ q → P q)
    (line : ∀ q s, 10 ∉ q → P s → P (q ++ 10 :: s)) (s : PyStr) : P s := by
  have : ∀ q, 10 ∉ q → P (q ++ s) := by
    induction s with
    | nil => exact fun q hq => (List.append_nil q).symm ▸ rest q hq
    | cons c s ih =>
      intro q hq
      by_cases hc : c = 10
      · subst hc
        exact line q s hq (ih [] (by simp))
      · have := ih (q ++ [c]) (by simpa [hq] using Ne.symm hc)
        rwa [List.append_assoc, List.singleton_append] at this
  exact this [] (by simp)

theorem mem_of_mem_lines {s l : PyStr} (hl : l ∈ lines s) {c : ℕ} (hc : c ∈ l) : c ∈ s := by
  induction s using lines_induction with
  | rest q hq =>
    by_cases hne : q = []
    · subst hne
      simp at hl
    · rw [lines_unterminated hq hne, List.mem_singleton] at hl
      exact hl ▸ hc
  | line q s hq ih =>
    rw [lines_terminated hq] at hl
    rcases List.mem_cons.mp hl with rfl | hl
    · simp only [List.mem_append, List.mem_singleton] at hc
      simp only [List.mem_append, List.mem_cons]
      tauto
    · simp [ih hl]

/-- A text whose last line is terminated. -/
def EndsLine (s : PyStr) : Prop := s = [] ∨ ∃ t, s = t ++ [10]

theorem lines_append {s : PyStr} (hs : EndsLine s) (t : PyStr) :
    lines (s ++ t) = lines s ++ lines t := by
  rcases hs with rfl | ⟨u, rfl⟩
  · simp
  induction u with
  | nil => simp [lines]
  | cons c cs ih =>
    simp only [List.cons_append, lines, ih]
    split
    · rfl
    · have hne : lines (cs ++ [10]) ≠ [] := by
        cases cs with
        | nil => simp [lines]
        | cons d ds => simp only [List.cons_append, lines]; split <;> [simp; split <;> simp]
      cases h : lines (cs ++ [10]) with
      | nil => exact absurd h hne
      | cons l ls => rfl

/-- The part of a text after its last line feed. -/
def tailOf (s : PyStr) : PyStr := (s.reverse.takeWhile (· != 10)).reverse

/-- The part of a text up to its last line feed. -/
def headOf (s : PyStr) : PyStr := (s.reverse.dropWhile (· != 10)).reverse

theorem headOf_append_tailOf (s : PyStr) : headOf s ++ tailOf s = s := by
  simp [headOf, tailOf, ← List.reverse_append]

theorem tailOf_noFeed (s : PyStr) : 10 ∉ tailOf s := by
  intro h
  have hne := List.all_takeWhile (p := (· != 10)) (l := s.reverse)
  have := List.all_eq_true.mp hne 10 (List.mem_reverse.mp h)
  simp at this

theorem headOf_endsLine (s : PyStr) : EndsLine (headOf s) := by
  unfold headOf
  cases h : s.reverse.dropWhile (· != 10) with
  | nil => exact Or.inl rfl
  | cons c cs =>
    have hc : c = 10 := by
      have := List.head_dropWhile_not (· != 10) (l := s.reverse) (by simp [h])
      simpa [h] using this
    exact Or.inr ⟨cs.reverse, by simp [hc]⟩

end PyText
