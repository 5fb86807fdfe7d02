import VeriMat.JsonAscii

/-! # JSON with blanks behind commas and colons

`json.dumps(value, ensure_ascii=False)` with its default separators. What it writes is read back
as the value. -/
namespace JsonText

open PyText

variable {F : Type} [PyFloat F]

/-! ## Writing -/

mutual

def renderSpaced : Json F → PyStr
  | .null => [110, 117, 108, 108]
  | .bool true => [116, 114, 117, 101]
  | .bool false => [102, 97, 108, 115, 101]
  | .int n => intText n
  | .float x => floatText x
  | .str s => quote s
  | .arr [] => [91, 93]
  | .arr (x :: xs) => 91 :: renderSpaced x ++ renderSpacedElems xs
  | .obj [] => [123, 125]
  | .obj ((k, v) :: kvs) =>
    123 :: quote k ++ 58 :: 32 :: renderSpaced v ++ renderSpacedMembers kvs

/-- The elements after the first, each behind its comma, and the closing bracket. -/
def renderSpacedElems : List (Json F) → PyStr
  | [] => [93]
  | x :: xs => 44 :: 32 :: renderSpaced x ++ renderSpacedElems xs

/-- The members after the first, each behind its comma, and the closing brace. -/
def renderSpacedMembers : List (PyStr × Json F) → PyStr
  | [] => [125]
  | (k, v) :: kvs => 44 :: 32 :: quote k ++ 58 :: 32 :: renderSpaced v ++ renderSpacedMembers kvs

end

theorem renderSpacedMembers_brace (kvs : List (PyStr × Json F)) :
    ∃ w, renderSpacedMembers kvs = w ++ [125] := by
  induction kvs with
  | nil => exact ⟨[], rfl⟩
  | cons p kvs ih =>
    obtain ⟨w, hw⟩ := ih
    exact ⟨44 :: 32 :: quote p.1 ++ 58 :: 32 :: renderSpaced p.2 ++ w, by
      simp [renderSpacedMembers, hw]⟩

/-- An object stands between its braces. -/
theorem renderSpaced_braces (kvs : List (PyStr × Json F)) :
    ∃ w, renderSpaced (.obj kvs) = 123 :: (w ++ [125]) := by
  cases kvs with
  | nil => exact ⟨[], rfl⟩
  | cons p kvs =>
    obtain ⟨w, hw⟩ := renderSpacedMembers_brace kvs
    exact ⟨quote p.1 ++ 58 :: 32 :: renderSpaced p.2 ++ w, by
      simp [renderSpaced, hw]⟩

/-! ## Reading -/

theorem valueStart_renderSpaced (j : Json F) (h : j.Finite) : ValueStart (renderSpaced j) := by
  cases j with
  | null => exact ⟨_, _, rfl, rfl, by decide, by decide⟩
  | bool b => cases b <;> exact ⟨_, _, rfl, rfl, by decide, by decide⟩
  | int n => exact valueStart_number (scanNumber_intText n)
  | float x =>
    rw [renderSpaced, floatText_finite h]
    exact valueStart_number (PyFloat.scan_repr x h)
  | str s => exact ⟨_, _, rfl, rfl, by decide, by decide⟩
  | arr xs => cases xs <;> exact ⟨_, _, rfl, rfl, by decide, by decide⟩
  | obj kvs => cases kvs <;> exact ⟨_, _, rfl, rfl, by decide, by decide⟩

theorem numEnd_renderSpacedElems (xs : List (Json F)) (r : PyStr) :
    NumEnd (renderSpacedElems xs ++ r) := by
  cases xs <;> exact numEnd_cons rfl _

theorem numEnd_renderSpacedMembers (kvs : List (PyStr × Json F)) (r : PyStr) :
    NumEnd (renderSpacedMembers kvs ++ r) := by
  cases kvs <;> exact numEnd_cons rfl _

theorem renderSpaced_length_pos {j : Json F} (h : j.Finite) : 0 < (renderSpaced j).length :=
  (valueStart_renderSpaced j h).length_pos

mutual

/-- The reader takes such a text off the front of a text and leaves the rest. -/
theorem scanValue_renderSpaced : ∀ (j : Json F) (n : ℕ) (r : PyStr), j.Finite →
    (renderSpaced j).length ≤ n → NumEnd r → scanValue n (renderSpaced j ++ r) = some (j, r)
  | j, 0, r, hj, hn, _ => by
    have := renderSpaced_length_pos hj
    omega
  | .null, n + 1, r, _, _, _ => by
    simp [renderSpaced, scanValue, scanAtom, scanWord]
  | .bool true, n + 1, r, _, _, _ => by
    simp [renderSpaced, scanValue, scanAtom, scanWord]
  | .bool false, n + 1, r, _, _, _ => by
    simp [renderSpaced, scanValue, scanAtom, scanWord]
  | .int i, n + 1, r, _, _, hr => by
    have h := scanNumber_append (t := r) (scanNumber_intText i) (by simpa using hr)
    rw [renderSpaced, scanValue_number n h]
    simp [numberValue, intOfText_intText]
  | .float x, n + 1, r, hx, _, hr => by
    have h := scanNumber_append (t := r) (PyFloat.scan_repr x hx) (by simpa using hr)
    rw [renderSpaced, floatText_finite hx, scanValue_number n h]
    simp [numberValue, PyFloat.ofText_repr x hx]
  | .str s, n + 1, r, _, _, _ => scanValue_quote n s r
  | .arr [], n + 1, r, _, _, _ => by
    simp [renderSpaced, scanValue, skipWs_cons (show isWs 93 = false from rfl)]
  | .arr (x :: xs), n + 1, r, hj, hn, _ => by
    have hstart := valueStart_renderSpaced x hj.1
    have he := scanElems_renderSpaced x xs n r hj.1 hj.2 (by
      simp only [renderSpaced, List.length_cons, List.length_append] at hn; omega)
    obtain ⟨c, u, hc, -, hb, -⟩ := valueStart_renderSpaced x hj.1
    simp only [renderSpaced, List.cons_append, List.append_assoc]
    rw [scanValue, if_neg (by decide), if_neg (by decide), if_pos rfl, hstart.skipWs]
    rw [hc] at he ⊢
    simp only [List.cons_append] at he ⊢
    rw [if_neg hb, he]
    rfl
  | .obj [], n + 1, r, _, _, _ => by
    simp [renderSpaced, scanValue, skipWs_cons (show isWs 125 = false from rfl)]
  | .obj ((k, v) :: kvs), n + 1, r, hj, hn, _ => by
    have hm := scanMembers_renderSpaced k v kvs n r hj.1 hj.2 (by
      simp only [renderSpaced, List.length_cons, List.length_append] at hn ⊢; omega)
    simp only [renderSpaced, List.cons_append, List.append_assoc]
    rw [scanValue, if_neg (by decide), if_pos rfl, quote_append,
      skipWs_cons (show isWs 34 = false from rfl)]
    rw [quote_append] at hm
    simp only [if_neg (show ¬(34 = 125) by decide), hm]
    rfl

theorem scanElems_renderSpaced : ∀ (x : Json F) (xs : List (Json F)) (n : ℕ) (r : PyStr),
    x.Finite → FiniteElems xs → (renderSpaced x).length + (renderSpacedElems xs).length ≤ n →
    scanElems n (renderSpaced x ++ (renderSpacedElems xs ++ r)) = some (x :: xs, r)
  | x, xs, 0, r, hx, _, hn => by
    have := renderSpaced_length_pos hx
    omega
  | x, [], n + 1, r, hx, _, hn => by
    simp only [renderSpacedElems, List.length_cons, List.length_nil] at hn
    have hv := scanValue_renderSpaced x n (renderSpacedElems ([] : List (Json F)) ++ r) hx
      (by omega) (numEnd_renderSpacedElems _ _)
    rw [scanElems, hv]
    simp only [renderSpacedElems, List.cons_append, List.nil_append,
      skipWs_cons (show isWs 93 = false from rfl), if_true]
  | x, y :: ys, n + 1, r, hx, hxs, hn => by
    simp only [renderSpacedElems, List.length_cons, List.length_append] at hn
    have hp := renderSpaced_length_pos hx
    have hv := scanValue_renderSpaced x n (renderSpacedElems (y :: ys) ++ r) hx (by omega)
      (numEnd_renderSpacedElems _ _)
    have he := scanElems_renderSpaced y ys n r hxs.1 hxs.2 (by omega)
    rw [scanElems, hv]
    simp only [renderSpacedElems, List.cons_append, List.append_assoc,
      skipWs_cons (show isWs 44 = false from rfl), if_neg (show ¬(44 = 93) by decide), if_true,
      skipWs_blank, (valueStart_renderSpaced y hxs.1).skipWs, he]
    rfl

theorem scanMembers_renderSpaced : ∀ (k : PyStr) (v : Json F) (kvs : List (PyStr × Json F))
    (n : ℕ) (r : PyStr), v.Finite → FiniteMembers kvs →
    (quote k).length + 2 + (renderSpaced v).length + (renderSpacedMembers kvs).length ≤ n →
    scanMembers n (quote k ++ 58 :: 32 :: (renderSpaced v ++ (renderSpacedMembers kvs ++ r))) =
      some ((k, v) :: kvs, r)
  | k, v, kvs, 0, r, hv, _, hn => by
    have := renderSpaced_length_pos hv
    omega
  | k, v, [], n + 1, r, hv, _, hn => by
    simp only [renderSpacedMembers, List.length_cons, List.length_nil] at hn
    have hscan := scanValue_renderSpaced v n
      (renderSpacedMembers ([] : List (PyStr × Json F)) ++ r) hv (by omega)
      (numEnd_renderSpacedMembers _ _)
    rw [quote_append, scanMembers, if_pos rfl, scanString_quoted]
    simp only [skipWs_cons (show isWs 58 = false from rfl), if_true, skipWs_blank,
      (valueStart_renderSpaced v hv).skipWs, hscan]
    simp only [renderSpacedMembers, List.cons_append, List.nil_append,
      skipWs_cons (show isWs 125 = false from rfl), if_true]
  | k, v, (k', v') :: kvs, n + 1, r, hv, hkvs, hn => by
    simp only [renderSpacedMembers, List.length_cons, List.length_append] at hn
    have hscan := scanValue_renderSpaced v n (renderSpacedMembers ((k', v') :: kvs) ++ r) hv
      (by omega) (numEnd_renderSpacedMembers _ _)
    have hm := scanMembers_renderSpaced k' v' kvs n r hkvs.1 hkvs.2 (by omega)
    rw [quote_append] at hm
    rw [quote_append, scanMembers, if_pos rfl, scanString_quoted]
    simp only [skipWs_cons (show isWs 58 = false from rfl), if_true, skipWs_blank,
      (valueStart_renderSpaced v hv).skipWs, hscan]
    simp only [renderSpacedMembers, List.cons_append, List.append_assoc, quote_append,
      skipWs_cons (show isWs 44 = false from rfl), if_neg (show ¬(44 = 125) by decide), if_true,
      skipWs_blank, skipWs_cons (show isWs 34 = false from rfl), hm]
    rfl

end

/-- An object that was written is read back. -/
theorem parse_renderSpaced {kvs : List (PyStr × Json F)} (h : (Json.obj kvs).Finite) :
    parse (renderSpaced (.obj kvs)) = some (.obj kvs) := by
  have hhead : (renderSpaced (Json.obj kvs)).head? ≠ some 0xFEFF := by
    cases kvs <;> simp [renderSpaced]
  have hscan := scanValue_renderSpaced (.obj kvs) ((renderSpaced (.obj kvs)).length + 1) [] h
    (Nat.le_succ _) trivial
  have hskip := (valueStart_renderSpaced (.obj kvs) h).skipWs []
  rw [List.append_nil] at hscan hskip
  rw [parse, if_neg hhead, hskip, hscan]
  rfl

/-! ## Characters -/

mutual

/-- What is written of a value besides ASCII characters is in its texts. -/
theorem written_renderSpaced : ∀ j : Json F, j.Finite →
    ∀ c ∈ renderSpaced j, Written (chars j) c
  | .null, _ => by
    rw [renderSpaced]
    exact written_word (by decide) _
  | .bool true, _ => by
    rw [renderSpaced]
    exact written_word (by decide) _
  | .bool false, _ => by
    rw [renderSpaced]
    exact written_word (by decide) _
  | .int n, _ => fun c hc => written_numeric (scanNumber_numeric (scanNumber_intText n) c hc) _
  | .float x, hx => fun c hc => by
    rw [renderSpaced, floatText_finite hx] at hc
    exact written_numeric (scanNumber_numeric (PyFloat.scan_repr x hx) c hc) _
  | .str s, _ => fun c hc => written_quote hc
  | .arr [], _ => by
    rw [renderSpaced]
    exact written_word (by decide) _
  | .arr (x :: xs), h => by
    intro c hc
    have hx := written_renderSpaced x h.1 c
    have hxs := written_renderSpacedElems xs h.2 c
    simp only [renderSpaced, List.mem_append, List.mem_cons] at hc
    rcases hc with (rfl | hc) | hc
    · exact written_ascii (by decide) (by decide) _
    · exact (hx hc).mono fun d hd => List.mem_append_left _ hd
    · exact (hxs hc).mono fun d hd => List.mem_append_right _ hd
  | .obj [], _ => by
    rw [renderSpaced]
    exact written_word (by decide) _
  | .obj ((k, v) :: kvs), h => by
    intro c hc
    have hv := written_renderSpaced v h.1 c
    have hkvs := written_renderSpacedMembers kvs h.2 c
    simp only [renderSpaced, List.mem_append, List.mem_cons] at hc
    rcases hc with ((rfl | hc) | rfl | rfl | hc) | hc
    · exact written_ascii (by decide) (by decide) _
    · exact (written_quote hc).mono fun d hd => by simp [chars, charsMembers, hd]
    · exact written_ascii (by decide) (by decide) _
    · exact written_ascii (by decide) (by decide) _
    · exact (hv hc).mono fun d hd => by simp [chars, charsMembers, hd]
    · exact (hkvs hc).mono fun d hd => by simp [chars, charsMembers, hd]

theorem written_renderSpacedElems : ∀ xs : List (Json F), FiniteElems xs →
    ∀ c ∈ renderSpacedElems xs, Written (charsElems xs) c
  | [], _ => by
    rw [renderSpacedElems]
    exact written_word (by decide) _
  | x :: xs, h => by
    intro c hc
    have hx := written_renderSpaced x h.1 c
    have hxs := written_renderSpacedElems xs h.2 c
    simp only [renderSpacedElems, List.mem_append, List.mem_cons] at hc
    rcases hc with (rfl | rfl | hc) | hc
    · exact written_ascii (by decide) (by decide) _
    · exact written_ascii (by decide) (by decide) _
    · exact (hx hc).mono fun d hd => List.mem_append_left _ hd
    · exact (hxs hc).mono fun d hd => List.mem_append_right _ hd

theorem written_renderSpacedMembers : ∀ kvs : List (PyStr × Json F), FiniteMembers kvs →
    ∀ c ∈ renderSpacedMembers kvs, Written (charsMembers kvs) c
  | [], _ => by
    rw [renderSpacedMembers]
    exact written_word (by decide) _
  | (k, v) :: kvs, h => by
    intro c hc
    have hv := written_renderSpaced v h.1 c
    have hkvs := written_renderSpacedMembers kvs h.2 c
    simp only [renderSpacedMembers, List.mem_append, List.mem_cons] at hc
    rcases hc with ((rfl | rfl | hc) | rfl | rfl | hc) | hc
    · exact written_ascii (by decide) (by decide) _
    · exact written_ascii (by decide) (by decide) _
    · exact (written_quote hc).mono fun d hd => by simp [charsMembers, hd]
    · exact written_ascii (by decide) (by decide) _
    · exact written_ascii (by decide) (by decide) _
    · exact (hv hc).mono fun d hd => by simp [charsMembers, hd]
    · exact (hkvs hc).mono fun d hd => by simp [charsMembers, hd]

end

mutual

/-- A text's own characters are written as they are. -/
theorem mem_renderSpaced {c : ℕ} (hc : 128 ≤ c) : ∀ j : Json F, c ∈ chars j → c ∈ renderSpaced j
  | .null, h => by simp [chars] at h
  | .bool _, h => by simp [chars] at h
  | .int _, h => by simp [chars] at h
  | .float _, h => by simp [chars] at h
  | .str s, h => mem_quote h hc
  | .arr [], h => by simp [chars, charsElems] at h
  | .arr (x :: xs), h => by
    have hx := mem_renderSpaced hc x
    have hxs := mem_renderSpacedElems hc xs
    simp only [chars, charsElems, List.mem_append] at h
    simp only [renderSpaced, List.mem_append, List.mem_cons]
    exact h.imp (fun h => .inr (hx h)) hxs
  | .obj [], h => by simp [chars, charsMembers] at h
  | .obj ((k, v) :: kvs), h => by
    have hv := mem_renderSpaced hc v
    have hkvs := mem_renderSpacedMembers hc kvs
    simp only [chars, charsMembers, List.mem_append] at h
    simp only [renderSpaced, List.mem_append, List.mem_cons]
    rcases h with (h | h) | h
    · exact .inl (.inl (.inr (mem_quote h hc)))
    · exact .inl (.inr (.inr (.inr (hv h))))
    · exact .inr (hkvs h)

theorem mem_renderSpacedElems {c : ℕ} (hc : 128 ≤ c) :
    ∀ xs : List (Json F), c ∈ charsElems xs → c ∈ renderSpacedElems xs
  | [], h => by simp [charsElems] at h
  | x :: xs, h => by
    have hx := mem_renderSpaced hc x
    have hxs := mem_renderSpacedElems hc xs
    simp only [charsElems, List.mem_append] at h
    simp only [renderSpacedElems, List.mem_append, List.mem_cons]
    exact h.imp (fun h => .inr (.inr (hx h))) hxs

theorem mem_renderSpacedMembers {c : ℕ} (hc : 128 ≤ c) :
    ∀ kvs : List (PyStr × Json F), c ∈ charsMembers kvs → c ∈ renderSpacedMembers kvs
  | [], h => by simp [charsMembers] at h
  | (k, v) :: kvs, h => by
    have hv := mem_renderSpaced hc v
    have hkvs := mem_renderSpacedMembers hc kvs
    simp only [charsMembers, List.mem_append] at h
    simp only [renderSpacedMembers, List.mem_append, List.mem_cons]
    rcases h with (h | h) | h
    · exact .inl (.inl (.inr (.inr (mem_quote h hc))))
    · exact .inl (.inr (.inr (.inr (hv h))))
    · exact .inr (hkvs h)

end

end JsonText
