import VeriMat.JsonAscii

/-! # JSON on many lines

`json.dumps(value, ensure_ascii=False, indent=2)`: every element and every member on a line of its
own. What it writes is read back as the value. -/
namespace JsonText

open PyText

variable {F : Type} [PyFloat F]

/-! ## Writing -/

/-- A line end and the blanks of the level. -/
def lineBreak (level : ℕ) : PyStr := 10 :: List.replicate (2 * level) 32

mutual

def renderIndented : ℕ → Json F → PyStr
  | _, .null => [110, 117, 108, 108]
  | _, .bool true => [116, 114, 117, 101]
  | _, .bool false => [102, 97, 108, 115, 101]
  | _, .int n => intText n
  | _, .float x => floatText x
  | _, .str s => quote s
  | _, .arr [] => [91, 93]
  | level, .arr (x :: xs) =>
    91 :: lineBreak (level + 1) ++ renderIndented (level + 1) x ++ renderIndentedElems level xs
  | _, .obj [] => [123, 125]
  | level, .obj ((k, v) :: kvs) =>
    123 :: lineBreak (level + 1) ++ quote k ++ 58 :: 32 :: renderIndented (level + 1) v ++
      renderIndentedMembers level kvs

/-- The elements after the first, each behind its comma, and the closing bracket. -/
def renderIndentedElems : ℕ → List (Json F) → PyStr
  | level, [] => lineBreak level ++ [93]
  | level, x :: xs =>
    44 :: lineBreak (level + 1) ++ renderIndented (level + 1) x ++ renderIndentedElems level xs

/-- The members after the first, each behind its comma, and the closing brace. -/
def renderIndentedMembers : ℕ → List (PyStr × Json F) → PyStr
  | level, [] => lineBreak level ++ [125]
  | level, (k, v) :: kvs =>
    44 :: lineBreak (level + 1) ++ quote k ++ 58 :: 32 :: renderIndented (level + 1) v ++
      renderIndentedMembers level kvs

end

/-! ## Reading -/

/-- A line break is skipped. -/
theorem skipWs_lineBreak (level : ℕ) (s : PyStr) : skipWs (lineBreak level ++ s) = skipWs s := by
  refine skipWs_append_all ?_ s
  intro c hc
  rcases List.mem_cons.mp hc with rfl | hc
  · rfl
  · rw [List.eq_of_mem_replicate hc]
    rfl

theorem valueStart_renderIndented (level : ℕ) (j : Json F) (h : j.Finite) :
    ValueStart (renderIndented level j) := by
  cases j with
  | null => exact ⟨_, _, rfl, rfl, by decide, by decide⟩
  | bool b => cases b <;> exact ⟨_, _, rfl, rfl, by decide, by decide⟩
  | int n => exact valueStart_number (scanNumber_intText n)
  | float x =>
    rw [renderIndented, floatText_finite h]
    exact valueStart_number (PyFloat.scan_repr x h)
  | str s => exact ⟨_, _, rfl, rfl, by decide, by decide⟩
  | arr xs => cases xs <;> exact ⟨_, _, rfl, rfl, by decide, by decide⟩
  | obj kvs => cases kvs <;> exact ⟨_, _, rfl, rfl, by decide, by decide⟩

theorem numEnd_renderIndentedElems (level : ℕ) (xs : List (Json F)) (r : PyStr) :
    NumEnd (renderIndentedElems level xs ++ r) := by
  cases xs <;> exact numEnd_cons rfl _

theorem numEnd_renderIndentedMembers (level : ℕ) (kvs : List (PyStr × Json F)) (r : PyStr) :
    NumEnd (renderIndentedMembers level kvs ++ r) := by
  cases kvs <;> exact numEnd_cons rfl _

theorem renderIndented_length_pos (level : ℕ) {j : Json F} (h : j.Finite) :
    0 < (renderIndented level j).length :=
  (valueStart_renderIndented level j h).length_pos

mutual

/-- The reader takes such a text off the front of a text and leaves the rest. -/
theorem scanValue_renderIndented : ∀ (level : ℕ) (j : Json F) (n : ℕ) (r : PyStr), j.Finite →
    (renderIndented level j).length ≤ n → NumEnd r →
    scanValue n (renderIndented level j ++ r) = some (j, r)
  | level, j, 0, r, hj, hn, _ => by
    have := renderIndented_length_pos level hj
    omega
  | _, .null, n + 1, r, _, _, _ => by
    simp [renderIndented, scanValue, scanAtom, scanWord]
  | _, .bool true, n + 1, r, _, _, _ => by
    simp [renderIndented, scanValue, scanAtom, scanWord]
  | _, .bool false, n + 1, r, _, _, _ => by
    simp [renderIndented, scanValue, scanAtom, scanWord]
  | _, .int i, n + 1, r, _, _, hr => by
    have h := scanNumber_append (t := r) (scanNumber_intText i) (by simpa using hr)
    rw [renderIndented, scanValue_number n h]
    simp [numberValue, intOfText_intText]
  | _, .float x, n + 1, r, hx, _, hr => by
    have h := scanNumber_append (t := r) (PyFloat.scan_repr x hx) (by simpa using hr)
    rw [renderIndented, floatText_finite hx, scanValue_number n h]
    simp [numberValue, PyFloat.ofText_repr x hx]
  | _, .str s, n + 1, r, _, _, _ => scanValue_quote n s r
  | _, .arr [], n + 1, r, _, _, _ => by
    simp [renderIndented, scanValue, skipWs_cons (show isWs 93 = false from rfl)]
  | level, .arr (x :: xs), n + 1, r, hj, hn, _ => by
    have hstart := valueStart_renderIndented (level + 1) x hj.1
    have he := scanElems_renderIndented level x xs n r hj.1 hj.2 (by
      simp only [renderIndented, List.length_cons, List.length_append] at hn; omega)
    obtain ⟨c, u, hc, -, hb, -⟩ := valueStart_renderIndented (level + 1) x hj.1
    simp only [renderIndented, List.cons_append, List.append_assoc]
    rw [scanValue, if_neg (by decide), if_neg (by decide), if_pos rfl, skipWs_lineBreak,
      hstart.skipWs]
    rw [hc] at he ⊢
    simp only [List.cons_append] at he ⊢
    rw [if_neg hb, he]
    rfl
  | _, .obj [], n + 1, r, _, _, _ => by
    simp [renderIndented, scanValue, skipWs_cons (show isWs 125 = false from rfl)]
  | level, .obj ((k, v) :: kvs), n + 1, r, hj, hn, _ => by
    have hm := scanMembers_renderIndented level k v kvs n r hj.1 hj.2 (by
      simp only [renderIndented, List.length_cons, List.length_append] at hn ⊢; omega)
    simp only [renderIndented, List.cons_append, List.append_assoc]
    rw [scanValue, if_neg (by decide), if_pos rfl, skipWs_lineBreak, quote_append,
      skipWs_cons (show isWs 34 = false from rfl)]
    rw [quote_append] at hm
    simp only [if_neg (show ¬(34 = 125) by decide), hm]
    rfl

theorem scanElems_renderIndented : ∀ (level : ℕ) (x : Json F) (xs : List (Json F)) (n : ℕ)
    (r : PyStr), x.Finite → FiniteElems xs →
    (renderIndented (level + 1) x).length + (renderIndentedElems level xs).length ≤ n →
    scanElems n (renderIndented (level + 1) x ++ (renderIndentedElems level xs ++ r)) =
      some (x :: xs, r)
  | level, x, xs, 0, r, hx, _, hn => by
    have := renderIndented_length_pos (level + 1) hx
    omega
  | level, x, [], n + 1, r, hx, _, hn => by
    simp only [renderIndentedElems, List.length_append, List.length_cons, List.length_nil] at hn
    have hv := scanValue_renderIndented (level + 1) x n
      (renderIndentedElems level ([] : List (Json F)) ++ r) hx (by omega)
      (numEnd_renderIndentedElems _ _ _)
    rw [scanElems, hv]
    simp only [renderIndentedElems, List.append_assoc, skipWs_lineBreak, List.cons_append,
      List.nil_append, skipWs_cons (show isWs 93 = false from rfl), if_true]
  | level, x, y :: ys, n + 1, r, hx, hxs, hn => by
    simp only [renderIndentedElems, List.length_cons, List.length_append] at hn
    have hp := renderIndented_length_pos (level + 1) hx
    have hv := scanValue_renderIndented (level + 1) x n (renderIndentedElems level (y :: ys) ++ r)
      hx (by omega) (numEnd_renderIndentedElems _ _ _)
    have he := scanElems_renderIndented level y ys n r hxs.1 hxs.2 (by omega)
    rw [scanElems, hv]
    simp only [renderIndentedElems, List.cons_append, List.append_assoc,
      skipWs_cons (show isWs 44 = false from rfl), if_neg (show ¬(44 = 93) by decide), if_true,
      skipWs_lineBreak, (valueStart_renderIndented (level + 1) y hxs.1).skipWs, he]
    rfl

theorem scanMembers_renderIndented : ∀ (level : ℕ) (k : PyStr) (v : Json F)
    (kvs : List (PyStr × Json F)) (n : ℕ) (r : PyStr), v.Finite → FiniteMembers kvs →
    (quote k).length + 2 + (renderIndented (level + 1) v).length +
      (renderIndentedMembers level kvs).length ≤ n →
    scanMembers n (quote k ++ 58 :: 32 :: (renderIndented (level + 1) v ++
      (renderIndentedMembers level kvs ++ r))) = some ((k, v) :: kvs, r)
  | level, k, v, kvs, 0, r, hv, _, hn => by
    have := renderIndented_length_pos (level + 1) hv
    omega
  | level, k, v, [], n + 1, r, hv, _, hn => by
    simp only [renderIndentedMembers, List.length_append, List.length_cons, List.length_nil] at hn
    have hscan := scanValue_renderIndented (level + 1) v n
      (renderIndentedMembers level ([] : List (PyStr × Json F)) ++ r) hv (by omega)
      (numEnd_renderIndentedMembers _ _ _)
    rw [quote_append, scanMembers, if_pos rfl, scanString_quoted]
    simp only [skipWs_cons (show isWs 58 = false from rfl), if_true, skipWs_blank,
      (valueStart_renderIndented (level + 1) v hv).skipWs, hscan]
    simp only [renderIndentedMembers, List.append_assoc, skipWs_lineBreak, List.cons_append,
      List.nil_append, skipWs_cons (show isWs 125 = false from rfl), if_true]
  | level, k, v, (k', v') :: kvs, n + 1, r, hv, hkvs, hn => by
    simp only [renderIndentedMembers, List.length_cons, List.length_append] at hn
    have hscan := scanValue_renderIndented (level + 1) v n
      (renderIndentedMembers level ((k', v') :: kvs) ++ r) hv (by omega)
      (numEnd_renderIndentedMembers _ _ _)
    have hm := scanMembers_renderIndented level k' v' kvs n r hkvs.1 hkvs.2 (by omega)
    rw [quote_append] at hm
    rw [quote_append, scanMembers, if_pos rfl, scanString_quoted]
    simp only [skipWs_cons (show isWs 58 = false from rfl), if_true, skipWs_blank,
      (valueStart_renderIndented (level + 1) v hv).skipWs, hscan]
    simp only [renderIndentedMembers, List.cons_append, List.append_assoc, quote_append,
      skipWs_cons (show isWs 44 = false from rfl), if_neg (show ¬(44 = 125) by decide), if_true,
      skipWs_lineBreak, skipWs_cons (show isWs 34 = false from rfl), hm]
    rfl

end

theorem renderIndented_head_ne_bom (level : ℕ) {j : Json F} (h : j.Finite) :
    (renderIndented level j).head? ≠ some 0xFEFF := by
  have hnumber : ∀ {s tok r : PyStr} {fl : Bool}, scanNumber s = some (tok, fl, r) →
      s.head? ≠ some 0xFEFF := by
    intro s tok r fl hs
    obtain ⟨c, u, rfl, hc⟩ := scanNumber_head hs
    rintro ⟨⟩
    simp [isDigit] at hc
  cases j with
  | null => simp [renderIndented]
  | bool b => cases b <;> simp [renderIndented]
  | int n => exact hnumber (scanNumber_intText n)
  | float x =>
    rw [renderIndented, floatText_finite h]
    exact hnumber (PyFloat.scan_repr x h)
  | str s => simp [renderIndented, quote]
  | arr xs => cases xs <;> simp [renderIndented]
  | obj kvs => cases kvs <;> simp [renderIndented]

/-- What is written is read back as the value, white space behind it included. -/
theorem parse_renderIndented (level : ℕ) {j : Json F} (h : j.Finite) {t : PyStr}
    (ht : ∀ c ∈ t, isWs c = true) : parse (renderIndented level j ++ t) = some j := by
  have hend : NumEnd t := by
    cases t with
    | nil => trivial
    | cons c t =>
      have hc := ht c List.mem_cons_self
      simp only [isWs, Bool.or_eq_true, beq_iff_eq] at hc
      rcases hc with ((rfl | rfl) | rfl) | rfl <;> rfl
  have hhead : (renderIndented level j ++ t).head? ≠ some 0xFEFF := by
    obtain ⟨c, u, hc, -⟩ := valueStart_renderIndented level j h
    have hbom := renderIndented_head_ne_bom level h
    rw [hc] at hbom ⊢
    simpa using hbom
  have hscan := scanValue_renderIndented level j ((renderIndented level j ++ t).length + 1) t h
    (by rw [List.length_append]; omega) hend
  rw [parse, if_neg hhead, (valueStart_renderIndented level j h).skipWs, hscan]
  simp [skipWs_all ht]

/-! ## No carriage returns -/

omit [PyFloat F] in
theorem noReturn_lineBreak (level : ℕ) : 13 ∉ lineBreak level := by
  intro h
  rcases List.mem_cons.mp h with h | h
  · cases h
  · cases List.eq_of_mem_replicate h

theorem noReturn_quote (s : PyStr) : 13 ∉ quote s :=
  fun h => absurd (written_quote h).1 (by decide)

mutual

theorem noReturn_renderIndented : ∀ (level : ℕ) (j : Json F), j.Finite →
    13 ∉ renderIndented level j
  | _, .null, _ => by simp [renderIndented]
  | _, .bool true, _ => by simp [renderIndented]
  | _, .bool false, _ => by simp [renderIndented]
  | _, .int n, _ => by
    intro h
    have hnumeric := scanNumber_numeric (scanNumber_intText n) 13 h
    cases hnumeric
  | _, .float x, hx => by
    rw [renderIndented, floatText_finite hx]
    intro h
    have hnumeric := scanNumber_numeric (PyFloat.scan_repr x hx) 13 h
    cases hnumeric
  | _, .str s, _ => noReturn_quote s
  | _, .arr [], _ => by simp [renderIndented]
  | level, .arr (x :: xs), hj => by
    have hx := noReturn_renderIndented (level + 1) x hj.1
    have hxs := noReturn_renderIndentedElems level xs hj.2
    simp [renderIndented, noReturn_lineBreak, hx, hxs]
  | _, .obj [], _ => by simp [renderIndented]
  | level, .obj ((k, v) :: kvs), hj => by
    have hv := noReturn_renderIndented (level + 1) v hj.1
    have hkvs := noReturn_renderIndentedMembers level kvs hj.2
    simp [renderIndented, noReturn_lineBreak, noReturn_quote, hv, hkvs]

theorem noReturn_renderIndentedElems : ∀ (level : ℕ) (xs : List (Json F)), FiniteElems xs →
    13 ∉ renderIndentedElems level xs
  | level, [], _ => by simp [renderIndentedElems, noReturn_lineBreak]
  | level, x :: xs, h => by
    have hx := noReturn_renderIndented (level + 1) x h.1
    have hxs := noReturn_renderIndentedElems level xs h.2
    simp [renderIndentedElems, noReturn_lineBreak, hx, hxs]

theorem noReturn_renderIndentedMembers : ∀ (level : ℕ) (kvs : List (PyStr × Json F)),
    FiniteMembers kvs → 13 ∉ renderIndentedMembers level kvs
  | level, [], _ => by simp [renderIndentedMembers, noReturn_lineBreak]
  | level, (k, v) :: kvs, h => by
    have hv := noReturn_renderIndented (level + 1) v h.1
    have hkvs := noReturn_renderIndentedMembers level kvs h.2
    simp [renderIndentedMembers, noReturn_lineBreak, noReturn_quote, hv, hkvs]

end

end JsonText
