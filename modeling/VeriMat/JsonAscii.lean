import VeriMat.JsonLines
import VeriMat.PyValueRoundTrip

/-! # JSON with the default options

`json.dumps` without options writes ASCII only, puts blanks behind commas and colons and keeps the
order of a dict. What it writes of a value whose strings have no surrogates is read back as that
value. -/
namespace JsonText

open PyText

variable {F : Type} [PyFloat F]

/-! ## Writing -/

/-- `\uXXXX`, without its backslash and letter. -/
def hex4 (n : ℕ) : PyStr :=
  [hexDigit (n / 4096 % 16), hexDigit (n / 256 % 16), hexDigit (n / 16 % 16), hexDigit (n % 16)]

/-- `ESCAPE_ASCII`: a code point beyond the first plane is written as a surrogate pair. -/
def escapeAsciiChar (c : ℕ) : PyStr :=
  if c = 34 then [92, 34]
  else if c = 92 then [92, 92]
  else if c = 8 then [92, 98]
  else if c = 9 then [92, 116]
  else if c = 10 then [92, 110]
  else if c = 12 then [92, 102]
  else if c = 13 then [92, 114]
  else if 32 ≤ c ∧ c ≤ 126 then [c]
  else if c < 0x10000 then 92 :: 117 :: hex4 c
  else 92 :: 117 :: hex4 (0xD800 + (c - 0x10000) / 1024 % 1024) ++
    92 :: 117 :: hex4 (0xDC00 + (c - 0x10000) % 1024)

def escapeAscii (s : PyStr) : PyStr := s.flatMap escapeAsciiChar

def quoteAscii (s : PyStr) : PyStr := 34 :: escapeAscii s ++ [34]

/-- `float.__repr__`, but for the numbers that JSON does not have. -/
def floatText (x : F) : PyStr :=
  match PyFloat.value x with
  | .finite _ => PyFloat.repr x
  | .nan => py "NaN"
  | .inf => py "Infinity"
  | .negInf => py "-Infinity"

mutual

def renderAscii : Json F → PyStr
  | .null => [110, 117, 108, 108]
  | .bool true => [116, 114, 117, 101]
  | .bool false => [102, 97, 108, 115, 101]
  | .int n => intText n
  | .float x => floatText x
  | .str s => quoteAscii s
  | .arr [] => [91, 93]
  | .arr (x :: xs) => 91 :: renderAscii x ++ renderAsciiElems xs
  | .obj [] => [123, 125]
  | .obj ((k, v) :: kvs) =>
    123 :: quoteAscii k ++ 58 :: 32 :: renderAscii v ++ renderAsciiMembers kvs

/-- The elements after the first, each behind its comma, and the closing bracket. -/
def renderAsciiElems : List (Json F) → PyStr
  | [] => [93]
  | x :: xs => 44 :: 32 :: renderAscii x ++ renderAsciiElems xs

/-- The members after the first, each behind its comma, and the closing brace. -/
def renderAsciiMembers : List (PyStr × Json F) → PyStr
  | [] => [125]
  | (k, v) :: kvs =>
    44 :: 32 :: quoteAscii k ++ 58 :: 32 :: renderAscii v ++ renderAsciiMembers kvs

end

/-! ## Strings -/

/-- A code point that UTF-8 can encode. -/
def IsScalar (c : ℕ) : Prop := (encodeChar c).isSome = true

theorem isScalar_iff {c : ℕ} : IsScalar c ↔ c < 0xD800 ∨ 0xE000 ≤ c ∧ c < 0x110000 := by
  unfold IsScalar encodeChar isSurrogate
  simp only [Bool.and_eq_true, decide_eq_true_eq]
  split_ifs <;> simp <;> omega

theorem scanHex4_hex4 {n : ℕ} (h : n < 65536) (r : PyStr) : scanHex4 (hex4 n ++ r) = some (n, r) := by
  have hdigit : ∀ k, hexValue (hexDigit (k % 16)) = some (k % 16) := fun k =>
    hexValue_hexDigit (Nat.mod_lt k (by decide))
  have hvalue : n / 4096 % 16 * 4096 + n / 256 % 16 * 256 + n / 16 % 16 * 16 + n % 16 = n := by
    omega
  simp only [hex4, List.cons_append, List.nil_append, scanHex4, hdigit, hvalue]

/-- A code point of the first plane that is not a high surrogate. -/
theorem scanUnicodeEscape_hex4 {c : ℕ} (h : c < 65536) (hc : ¬(0xD800 ≤ c ∧ c < 0xDC00))
    (r : PyStr) : scanUnicodeEscape (hex4 c ++ r) = some (c, r) := by
  simp only [scanUnicodeEscape, scanHex4_hex4 h, if_neg hc]

/-- A surrogate pair. -/
theorem scanUnicodeEscape_pair {n : ℕ} (h : n < 0x100000) (r : PyStr) :
    scanUnicodeEscape (hex4 (0xD800 + n / 1024 % 1024) ++
      (92 :: 117 :: hex4 (0xDC00 + n % 1024) ++ r)) = some (0x10000 + n, r) := by
  have hhigh := scanHex4_hex4 (n := 0xD800 + n / 1024 % 1024) (by omega)
    (92 :: 117 :: hex4 (0xDC00 + n % 1024) ++ r)
  have hlow : scanLowSurrogate (92 :: 117 :: hex4 (0xDC00 + n % 1024) ++ r) =
      some (0xDC00 + n % 1024, r) := by
    have hfour := scanHex4_hex4 (n := 0xDC00 + n % 1024) (by omega) r
    simp only [scanLowSurrogate, List.cons_append, hfour]
    rw [if_pos ⟨trivial, trivial⟩, if_pos (by omega)]
  have hvalue : 0x10000 + (0xD800 + n / 1024 % 1024 - 0xD800) * 1024 +
      (0xDC00 + n % 1024 - 0xDC00) = 0x10000 + n := by
    omega
  rw [scanUnicodeEscape, hhigh]
  simp only [hlow]
  rw [if_pos (by omega), hvalue]

theorem scanString_pair (n : ℕ) {k : ℕ} (hk : k < 0x100000) (r : PyStr) :
    scanString (n + 1) (92 :: 117 :: hex4 (0xD800 + k / 1024 % 1024) ++
        92 :: 117 :: hex4 (0xDC00 + k % 1024) ++ r) =
      (scanString n r).map fun p => ((0x10000 + k) :: p.1, p.2) := by
  have hscan : scanEscape (117 :: (hex4 (0xD800 + k / 1024 % 1024) ++
      (92 :: 117 :: hex4 (0xDC00 + k % 1024) ++ r))) = some (0x10000 + k, r) := by
    simp only [scanEscape]
    exact scanUnicodeEscape_pair hk r
  rw [List.append_assoc, List.cons_append, List.cons_append, scanString, if_neg (by decide),
    if_pos rfl, hscan]

theorem scanString_escapeAsciiChar (n : ℕ) {c : ℕ} (hc : IsScalar c) (r : PyStr) :
    scanString (n + 1) (escapeAsciiChar c ++ r) =
      (scanString n r).map fun p => (c :: p.1, p.2) := by
  have hscalar := isScalar_iff.mp hc
  unfold escapeAsciiChar
  split_ifs with h₁ h₂ h₃ h₄ h₅ h₆ h₇ h₈ h₉
  · subst h₁; simp [scanString, scanEscape]
  · subst h₂; simp [scanString, scanEscape]
  · subst h₃; simp [scanString, scanEscape]
  · subst h₄; simp [scanString, scanEscape]
  · subst h₅; simp [scanString, scanEscape]
  · subst h₆; simp [scanString, scanEscape]
  · subst h₇; simp [scanString, scanEscape]
  · have hprintable : ¬c < 32 := by omega
    simp [scanString, h₁, h₂, hprintable]
  · have hscan := scanUnicodeEscape_hex4 (by omega) (by omega) r (c := c)
    simp [scanString, scanEscape, hscan]
  · obtain ⟨k, rfl⟩ : ∃ k, c = 0x10000 + k := Nat.exists_eq_add_of_le (Nat.le_of_not_lt h₉)
    rw [Nat.add_sub_cancel_left]
    exact scanString_pair n (by omega) r

theorem scanString_escapeAscii {s : PyStr} (hs : ∀ c ∈ s, IsScalar c) (r : PyStr) {n : ℕ}
    (hn : s.length < n) : scanString n (escapeAscii s ++ 34 :: r) = some (s, r) := by
  induction s generalizing n with
  | nil =>
    cases n with
    | zero => omega
    | succ n => simp [escapeAscii, scanString]
  | cons c cs ih =>
    cases n with
    | zero => omega
    | succ n =>
      obtain ⟨hc, hcs⟩ := List.forall_mem_cons.mp hs
      have hrest := ih hcs (n := n) (by simpa using hn)
      rw [escapeAscii, List.flatMap_cons, List.append_assoc, scanString_escapeAsciiChar n hc]
      rw [escapeAscii] at hrest
      rw [hrest]
      rfl

theorem length_le_escapeAscii (s : PyStr) : s.length ≤ (escapeAscii s).length := by
  have hpos : ∀ c, 0 < (escapeAsciiChar c).length := by
    intro c
    unfold escapeAsciiChar
    split_ifs <;> simp
  induction s with
  | nil => simp
  | cons c cs ih =>
    have := hpos c
    simp only [escapeAscii, List.flatMap_cons, List.length_append, List.length_cons] at ih ⊢
    omega

theorem scanString_quotedAscii {s : PyStr} (hs : ∀ c ∈ s, IsScalar c) (r : PyStr) :
    scanString (escapeAscii s ++ 34 :: r).length (escapeAscii s ++ 34 :: r) = some (s, r) := by
  apply scanString_escapeAscii hs
  have := length_le_escapeAscii s
  simp only [List.length_append, List.length_cons]
  omega

/-! ## Values -/

theorem floatText_finite {x : F} (h : (PyFloat.value x).isFinite = true) :
    floatText x = PyFloat.repr x := by
  rw [floatText]
  cases hx : PyFloat.value x with
  | finite q => rfl
  | nan => rw [hx] at h; cases h
  | inf => rw [hx] at h; cases h
  | negInf => rw [hx] at h; cases h

/-- Every code point of the strings of a value can be encoded. -/
def Scalars (cs : List ℕ) : Prop := ∀ c ∈ cs, IsScalar c

theorem scalars_append {cs ds : List ℕ} : Scalars (cs ++ ds) ↔ Scalars cs ∧ Scalars ds :=
  List.forall_mem_append

theorem quoteAscii_append (k r : PyStr) :
    quoteAscii k ++ r = 34 :: (escapeAscii k ++ 34 :: r) := by
  simp [quoteAscii]

theorem scanValue_quoteAscii (n : ℕ) {s : PyStr} (hs : Scalars s) (r : PyStr) :
    scanValue (F := F) (n + 1) (quoteAscii s ++ r) = some (.str s, r) := by
  rw [quoteAscii_append, scanValue, if_pos rfl, scanString_quotedAscii hs]
  rfl

theorem valueStart_renderAscii (j : Json F) (h : j.Finite) : ValueStart (renderAscii j) := by
  cases j with
  | null => exact ⟨_, _, rfl, rfl, by decide, by decide⟩
  | bool b => cases b <;> exact ⟨_, _, rfl, rfl, by decide, by decide⟩
  | int n => exact valueStart_number (scanNumber_intText n)
  | float x =>
    rw [renderAscii, floatText_finite h]
    exact valueStart_number (PyFloat.scan_repr x h)
  | str s => exact ⟨_, _, rfl, rfl, by decide, by decide⟩
  | arr xs => cases xs <;> exact ⟨_, _, rfl, rfl, by decide, by decide⟩
  | obj kvs => cases kvs <;> exact ⟨_, _, rfl, rfl, by decide, by decide⟩

theorem numEnd_renderAsciiElems (xs : List (Json F)) (r : PyStr) :
    NumEnd (renderAsciiElems xs ++ r) := by
  cases xs <;> exact numEnd_cons rfl _

theorem numEnd_renderAsciiMembers (kvs : List (PyStr × Json F)) (r : PyStr) :
    NumEnd (renderAsciiMembers kvs ++ r) := by
  cases kvs <;> exact numEnd_cons rfl _

theorem renderAscii_length_pos {j : Json F} (h : j.Finite) : 0 < (renderAscii j).length :=
  (valueStart_renderAscii j h).length_pos

/-- A blank is skipped. -/
theorem skipWs_blank (s : PyStr) : skipWs (32 :: s) = skipWs s := rfl

mutual

/-- The reader takes such a text off the front of a text and leaves the rest. -/
theorem scanValue_renderAscii : ∀ (j : Json F) (n : ℕ) (r : PyStr), j.Finite → Scalars (chars j) →
    (renderAscii j).length ≤ n → NumEnd r → scanValue n (renderAscii j ++ r) = some (j, r)
  | j, 0, r, hj, _, hn, _ => by
    have := renderAscii_length_pos hj
    omega
  | .null, n + 1, r, _, _, _, _ => by
    simp [renderAscii, scanValue, scanAtom, scanWord]
  | .bool true, n + 1, r, _, _, _, _ => by
    simp [renderAscii, scanValue, scanAtom, scanWord]
  | .bool false, n + 1, r, _, _, _, _ => by
    simp [renderAscii, scanValue, scanAtom, scanWord]
  | .int i, n + 1, r, _, _, _, hr => by
    have h := scanNumber_append (t := r) (scanNumber_intText i) (by simpa using hr)
    rw [renderAscii, scanValue_number n h]
    simp [numberValue, intOfText_intText]
  | .float x, n + 1, r, hx, _, _, hr => by
    have h := scanNumber_append (t := r) (PyFloat.scan_repr x hx) (by simpa using hr)
    rw [renderAscii, floatText_finite hx, scanValue_number n h]
    simp [numberValue, PyFloat.ofText_repr x hx]
  | .str s, n + 1, r, _, hs, _, _ => scanValue_quoteAscii n hs r
  | .arr [], n + 1, r, _, _, _, _ => by
    simp [renderAscii, scanValue, skipWs_cons (show isWs 93 = false from rfl)]
  | .arr (x :: xs), n + 1, r, hj, hs, hn, _ => by
    obtain ⟨hx, hxs⟩ := scalars_append.mp hs
    have hstart := valueStart_renderAscii x hj.1
    have he := scanElems_renderAscii x xs n r hj.1 hj.2 hx hxs (by
      simp only [renderAscii, List.length_cons, List.length_append] at hn; omega)
    obtain ⟨c, u, hc, -, hb, -⟩ := valueStart_renderAscii x hj.1
    simp only [renderAscii, List.cons_append, List.append_assoc]
    rw [scanValue, if_neg (by decide), if_neg (by decide), if_pos rfl, hstart.skipWs]
    rw [hc] at he ⊢
    simp only [List.cons_append] at he ⊢
    rw [if_neg hb, he]
    rfl
  | .obj [], n + 1, r, _, _, _, _ => by
    simp [renderAscii, scanValue, skipWs_cons (show isWs 125 = false from rfl)]
  | .obj ((k, v) :: kvs), n + 1, r, hj, hs, hn, _ => by
    obtain ⟨hkv, hkvs⟩ := scalars_append.mp hs
    obtain ⟨hk, hv⟩ := scalars_append.mp hkv
    have hm := scanMembers_renderAscii k v kvs n r hj.1 hj.2 hk hv hkvs (by
      simp only [renderAscii, List.length_cons, List.length_append] at hn; omega)
    simp only [renderAscii, List.cons_append, List.append_assoc]
    rw [scanValue, if_neg (by decide), if_pos rfl, quoteAscii_append,
      skipWs_cons (show isWs 34 = false from rfl)]
    rw [quoteAscii_append] at hm
    simp only [if_neg (show ¬(34 = 125) by decide), hm]
    rfl

theorem scanElems_renderAscii : ∀ (x : Json F) (xs : List (Json F)) (n : ℕ) (r : PyStr),
    x.Finite → FiniteElems xs → Scalars (chars x) → Scalars (charsElems xs) →
    (renderAscii x).length + (renderAsciiElems xs).length ≤ n →
    scanElems n (renderAscii x ++ (renderAsciiElems xs ++ r)) = some (x :: xs, r)
  | x, xs, 0, r, hx, _, _, _, hn => by
    have := renderAscii_length_pos hx
    omega
  | x, [], n + 1, r, hx, _, hs, _, hn => by
    simp only [renderAsciiElems, List.length_cons, List.length_nil] at hn
    have hv := scanValue_renderAscii x n (renderAsciiElems ([] : List (Json F)) ++ r) hx hs
      (by omega) (numEnd_renderAsciiElems _ _)
    rw [scanElems, hv]
    simp [renderAsciiElems, skipWs_cons (show isWs 93 = false from rfl)]
  | x, y :: ys, n + 1, r, hx, hxs, hs, hss, hn => by
    simp only [renderAsciiElems, List.length_cons, List.length_append] at hn
    obtain ⟨hy, hys⟩ := scalars_append.mp hss
    have hp := renderAscii_length_pos hx
    have hv := scanValue_renderAscii x n (renderAsciiElems (y :: ys) ++ r) hx hs (by omega)
      (numEnd_renderAsciiElems _ _)
    have he := scanElems_renderAscii y ys n r hxs.1 hxs.2 hy hys (by omega)
    rw [scanElems, hv]
    simp only [renderAsciiElems, List.cons_append, List.append_assoc,
      skipWs_cons (show isWs 44 = false from rfl), if_neg (show ¬(44 = 93) by decide), if_true,
      skipWs_blank, (valueStart_renderAscii y hxs.1).skipWs, he]
    rfl

theorem scanMembers_renderAscii : ∀ (k : PyStr) (v : Json F) (kvs : List (PyStr × Json F)) (n : ℕ)
    (r : PyStr), v.Finite → FiniteMembers kvs → Scalars k → Scalars (chars v) →
    Scalars (charsMembers kvs) →
    (quoteAscii k).length + 2 + (renderAscii v).length + (renderAsciiMembers kvs).length ≤ n →
    scanMembers n (quoteAscii k ++ 58 :: 32 :: (renderAscii v ++ (renderAsciiMembers kvs ++ r))) =
      some ((k, v) :: kvs, r)
  | k, v, kvs, 0, r, hv, _, _, _, _, hn => by
    have := renderAscii_length_pos hv
    omega
  | k, v, [], n + 1, r, hv, _, hk, hs, _, hn => by
    simp only [renderAsciiMembers, List.length_cons, List.length_nil] at hn
    have hscan := scanValue_renderAscii v n (renderAsciiMembers ([] : List (PyStr × Json F)) ++ r) hv
      hs (by omega) (numEnd_renderAsciiMembers _ _)
    rw [quoteAscii_append, scanMembers, if_pos rfl, scanString_quotedAscii hk]
    simp only [skipWs_cons (show isWs 58 = false from rfl), if_true, skipWs_blank,
      (valueStart_renderAscii v hv).skipWs, hscan]
    simp [renderAsciiMembers, skipWs_cons (show isWs 125 = false from rfl)]
  | k, v, (k', v') :: kvs, n + 1, r, hv, hkvs, hk, hs, hss, hn => by
    simp only [renderAsciiMembers, List.length_cons, List.length_append] at hn
    obtain ⟨hkv', hrest⟩ := scalars_append.mp hss
    obtain ⟨hk', hv'⟩ := scalars_append.mp hkv'
    have hscan := scanValue_renderAscii v n (renderAsciiMembers ((k', v') :: kvs) ++ r) hv hs
      (by omega) (numEnd_renderAsciiMembers _ _)
    have hm := scanMembers_renderAscii k' v' kvs n r hkvs.1 hkvs.2 hk' hv' hrest (by omega)
    rw [quoteAscii_append] at hm
    rw [quoteAscii_append, scanMembers, if_pos rfl, scanString_quotedAscii hk]
    simp only [skipWs_cons (show isWs 58 = false from rfl), if_true, skipWs_blank,
      (valueStart_renderAscii v hv).skipWs, hscan]
    simp only [renderAsciiMembers, List.cons_append, List.append_assoc, quoteAscii_append,
      skipWs_cons (show isWs 44 = false from rfl), if_neg (show ¬(44 = 125) by decide), if_true,
      skipWs_blank, skipWs_cons (show isWs 34 = false from rfl), hm]
    rfl

end

theorem renderAscii_head_ne_bom {j : Json F} (h : j.Finite) :
    (renderAscii j).head? ≠ some 0xFEFF := by
  have hnumber : ∀ {s tok r : PyStr} {fl : Bool}, scanNumber s = some (tok, fl, r) →
      s.head? ≠ some 0xFEFF := by
    intro s tok r fl hs
    obtain ⟨c, u, rfl, hc⟩ := scanNumber_head hs
    rintro ⟨⟩
    simp [isDigit] at hc
  cases j with
  | null => simp [renderAscii]
  | bool b => cases b <;> simp [renderAscii]
  | int n => exact hnumber (scanNumber_intText n)
  | float x =>
    rw [renderAscii, floatText_finite h]
    exact hnumber (PyFloat.scan_repr x h)
  | str s => simp [renderAscii, quoteAscii]
  | arr xs => cases xs <;> simp [renderAscii]
  | obj kvs => cases kvs <;> simp [renderAscii]

/-- What the default options write of a value is read back as that value. -/
theorem parse_renderAscii {j : Json F} (h : j.Finite) (hs : Scalars (chars j)) :
    parse (renderAscii j) = some j := by
  have hscan := scanValue_renderAscii j ((renderAscii j).length + 1) [] h hs (by omega) trivial
  have hstart := (valueStart_renderAscii j h).skipWs []
  rw [List.append_nil] at hscan hstart
  rw [parse, if_neg (renderAscii_head_ne_bom h), hstart, hscan]
  rfl

end JsonText

namespace PyValue

open PyText JsonText

variable {F : Type} [PyFloat F]

omit [PyFloat F] in
/-- Sorting the members of a value leaves its characters. -/
theorem mem_chars_sortNames {c : ℕ} (j : Json F) : c ∈ chars (sortNames j) ↔ c ∈ chars j := by
  induction j using Json.nested with
  | null => rfl
  | bool b => rfl
  | int n => rfl
  | float x => rfl
  | str s => rfl
  | arr xs ih =>
    rw [sortNames, chars, chars, sortElems_eq, mem_charsElems, mem_charsElems]
    simp only [List.mem_map, exists_exists_and_eq_and]
    exact exists_congr fun x => and_congr_right fun hx => ih x hx
  | obj kvs ih =>
    rw [sortNames, chars, chars, mem_charsMembers, mem_charsMembers, sortMembers_eq]
    simp only [List.mem_insertionSort, List.mem_map, exists_exists_and_eq_and]
    exact exists_congr fun p => and_congr_right fun hp => or_congr_right (ih p hp)

omit [PyFloat F] in
theorem chars_dedup (j : Json F) : ∀ c ∈ chars j.dedup, c ∈ chars j := by
  induction j using Json.nested with
  | null => exact fun c h => h
  | bool b => exact fun c h => h
  | int n => exact fun c h => h
  | float x => exact fun c h => h
  | str s => exact fun c h => h
  | arr xs ih =>
    intro c h
    rw [Json.dedup, chars, dedupElems_eq, mem_charsElems] at h
    obtain ⟨y, hy, hc⟩ := h
    obtain ⟨x, hx, rfl⟩ := List.mem_map.mp hy
    exact mem_charsElems.mpr ⟨x, hx, ih x hx c hc⟩
  | obj kvs ih =>
    intro c h
    rw [Json.dedup, chars, mem_charsMembers] at h
    obtain ⟨p, hp, hc⟩ := h
    have hp := mem_ofPairs hp
    rw [dedupMembers_eq] at hp
    obtain ⟨q, hq, rfl⟩ := List.mem_map.mp hp
    exact mem_charsMembers.mpr ⟨q, hq, hc.imp_right (ih q hq c)⟩

/-! ## `json.dumps` without options -/

/-- The member name written for a key. -/
def PyKey.defaultText : PyKey F → PyStr
  | .float x => floatText x
  | k => k.jsonText

mutual

/-- A value as it is written, in the order of its dicts. -/
def lowerUnsorted : PyVal F → Except JsonError (Json F)
  | .none => .ok .null
  | .bool b => .ok (.bool b)
  | .int n => .ok (.int n)
  | .float x => .ok (.float x)
  | .str s => .ok (.str s)
  | .list xs => (lowerUnsortedElems xs).map .arr
  | .tuple xs => (lowerUnsortedElems xs).map .arr
  | .dict kvs => (lowerUnsortedItems kvs).map .obj
  | .other => .error .typeError

def lowerUnsortedElems : List (PyVal F) → Except JsonError (List (Json F))
  | [] => .ok []
  | x :: xs =>
    match lowerUnsorted x with
    | .error e => .error e
    | .ok j => (lowerUnsortedElems xs).map (j :: ·)

def lowerUnsortedItems : List (PyKey F × PyVal F) → Except JsonError (List (PyStr × Json F))
  | [] => .ok []
  | (k, v) :: kvs =>
    match lowerUnsorted v with
    | .error e => .error e
    | .ok j => (lowerUnsortedItems kvs).map ((k.defaultText, j) :: ·)

end

/-- `json.dumps(value)`. -/
def dumpsDefault (v : PyVal F) : Except JsonError PyStr := (lowerUnsorted v).map renderAscii

theorem lowerUnsorted_ofJson (j : Json F) : lowerUnsorted (ofJson j) = .ok j := by
  induction j using Json.nested with
  | null => rfl
  | bool b => rfl
  | int n => rfl
  | float x => rfl
  | str s => rfl
  | arr xs ih =>
    have helems : ∀ l : List (Json F), (∀ x ∈ l, lowerUnsorted (ofJson x) = .ok x) →
        lowerUnsortedElems (ofElems l) = .ok l := by
      intro l hl
      induction l with
      | nil => rfl
      | cons x l ihl =>
        obtain ⟨hx, hrest⟩ := List.forall_mem_cons.mp hl
        rw [ofElems, lowerUnsortedElems, hx]
        dsimp only
        rw [ihl hrest]
        rfl
    rw [ofJson, lowerUnsorted, helems xs ih]
    rfl
  | obj kvs ih =>
    have hitems : ∀ l : List (PyStr × Json F), (∀ p ∈ l, lowerUnsorted (ofJson p.2) = .ok p.2) →
        lowerUnsortedItems (ofMembers l) = .ok l := by
      intro l hl
      induction l with
      | nil => rfl
      | cons p l ihl =>
        obtain ⟨hp, hrest⟩ := List.forall_mem_cons.mp hl
        rw [ofMembers, lowerUnsortedItems, hp]
        dsimp only
        rw [ihl hrest]
        rfl
    rw [ofJson, lowerUnsorted, hitems kvs ih]
    rfl

/-- `json.loads(json.dumps(value))` is an equal value. -/
theorem loads_dumpsDefault {j : Json F} (h : j.Finite) (hs : Scalars (chars j)) :
    ∃ text, dumpsDefault (ofJson j) = .ok text ∧ loads text = some j.dedup := by
  refine ⟨renderAscii j, ?_, ?_⟩
  · rw [dumpsDefault, lowerUnsorted_ofJson]
    rfl
  · rw [loads, parse_renderAscii h hs]
    rfl

end PyValue
