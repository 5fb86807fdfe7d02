import VeriMat.JsonRoundTrip

/-! # What the reader makes of longer texts

A string, an array or an object ends where its closing character stands, so reading one does
not change when more text follows or more fuel is given. -/
namespace JsonText

open PyText

theorem scanHex4_append {s r : PyStr} {u : ℕ} (t : PyStr) (h : scanHex4 s = some (u, r)) :
    scanHex4 (s ++ t) = some (u, r ++ t) := by
  match s with
  | [] | [_] | [_, _] | [_, _, _] => simp [scanHex4] at h
  | a :: b :: c :: d :: s =>
    simp only [scanHex4, List.cons_append] at h ⊢
    split at h
    · next =>
      cases h
      rfl
    · cases h

theorem scanLowSurrogate_append {s r : PyStr} {u : ℕ} (t : PyStr)
    (h : scanLowSurrogate s = some (u, r)) : scanLowSurrogate (s ++ t) = some (u, r ++ t) := by
  match s with
  | [] | [_] => simp [scanLowSurrogate] at h
  | a :: b :: s =>
    simp only [scanLowSurrogate, List.cons_append] at h ⊢
    split_ifs at h ⊢ with hab
    cases hx : scanHex4 s with
    | none => simp [hx] at h
    | some p =>
      rw [hx] at h
      simp only at h
      rw [scanHex4_append t hx]
      simp only
      split_ifs at h ⊢ with hu
      cases h; rfl

/-- Inside a terminated string no later text turns a lone surrogate escape into a pair. -/
theorem scanLowSurrogate_none {n : ℕ} {s : PyStr} {p : PyStr × PyStr} (t : PyStr)
    (hs : scanString n s = some p) (h : scanLowSurrogate s = none) :
    scanLowSurrogate (s ++ t) = none := by
  cases n with
  | zero => simp [scanString] at hs
  | succ n =>
    rcases s with _ | ⟨a, _ | ⟨b, s⟩⟩
    · simp [scanString] at hs
    · have ha : a ≠ 92 := by rintro rfl; simp [scanString, scanEscape] at hs
      cases t <;> simp [scanLowSurrogate, ha]
    · by_cases hab : a = 92 ∧ b = 117
      · obtain ⟨rfl, rfl⟩ := hab
        cases hx : scanHex4 s with
        | none => simp [scanString, scanEscape, scanUnicodeEscape, hx] at hs
        | some q =>
          simp only [scanLowSurrogate, hx] at h
          simp only [List.cons_append, scanLowSurrogate, scanHex4_append t hx]
          simpa using h
      · simp [scanLowSurrogate, hab]

theorem scanUnicodeEscape_append {n : ℕ} {s r : PyStr} {u : ℕ} {p : PyStr × PyStr} (t : PyStr)
    (h : scanUnicodeEscape s = some (u, r)) (hr : scanString n r = some p) :
    scanUnicodeEscape (s ++ t) = some (u, r ++ t) := by
  unfold scanUnicodeEscape at h ⊢
  cases hx : scanHex4 s with
  | none => simp [hx] at h
  | some q =>
    rw [hx] at h
    simp only at h
    rw [scanHex4_append t hx]
    simp only
    split_ifs at h ⊢ with hu
    · cases hl : scanLowSurrogate q.2 with
      | none =>
        rw [hl] at h
        cases h
        rw [scanLowSurrogate_none t hr hl]
      | some l =>
        rw [hl] at h
        obtain ⟨rfl, rfl⟩ := Prod.mk.inj (Option.some.inj h)
        rw [scanLowSurrogate_append t hl]
    · cases h; rfl

theorem scanEscape_append {n : ℕ} {s r : PyStr} {u : ℕ} {p : PyStr × PyStr} (t : PyStr)
    (h : scanEscape s = some (u, r)) (hr : scanString n r = some p) :
    scanEscape (s ++ t) = some (u, r ++ t) := by
  cases s with
  | nil => simp [scanEscape] at h
  | cons c s =>
    simp only [scanEscape, List.cons_append] at h ⊢
    split_ifs at h ⊢
    iterate 8 (cases h; rfl)
    exact scanUnicodeEscape_append t h hr

theorem scanString_append {n m : ℕ} {s u r : PyStr} (t : PyStr) (hnm : n ≤ m)
    (h : scanString n s = some (u, r)) : scanString m (s ++ t) = some (u, r ++ t) := by
  induction n generalizing m s u with
  | zero => simp [scanString] at h
  | succ n ih =>
    cases m with
    | zero => omega
    | succ m =>
      cases s with
      | nil => simp [scanString] at h
      | cons c s =>
        simp only [scanString, List.cons_append] at h ⊢
        split_ifs at h ⊢ with h₁ h₂ h₃
        · cases h; rfl
        · cases he : scanEscape s with
          | none => simp [he] at h
          | some q =>
            simp only [he, Option.map_eq_some_iff, Prod.mk.injEq] at h
            obtain ⟨⟨v, w⟩, hq, rfl, rfl⟩ := h
            rw [scanEscape_append t he hq]
            simp only [ih (m := m) (by omega) hq]
            rfl
        · simp only [Option.map_eq_some_iff, Prod.mk.injEq] at h
          obtain ⟨⟨v, w⟩, hq, rfl, rfl⟩ := h
          rw [ih (m := m) (by omega) hq]
          rfl

theorem scanWord_eq_some {w s r : PyStr} : scanWord w s = some r ↔ s = w ++ r := by
  induction w generalizing s with
  | nil => simp [scanWord, eq_comm]
  | cons c w ih =>
    cases s with
    | nil => simp [scanWord]
    | cons d s =>
      simp only [scanWord, List.cons_append, List.cons.injEq]
      split_ifs with h
      · simp [h, ih]
      · simp [h]

theorem skipWs_append {r e : PyStr} (t : PyStr) (h : skipWs r = e) (hne : e ≠ []) :
    skipWs (r ++ t) = e ++ t := by
  subst h
  induction r with
  | nil => exact absurd rfl hne
  | cons c r ih =>
    simp only [skipWs, List.cons_append, List.dropWhile_cons] at hne ih ⊢
    split_ifs at hne ⊢ with hc
    · exact ih hne
    · rfl

/-- A number in front of white space or of this character has ended. -/
theorem numEnd_of_skipWs {r e : PyStr} {c : ℕ} (t : PyStr) (h : skipWs r = c :: e)
    (hc : isNumeric c = false) : NumEnd (r ++ t) := by
  cases r with
  | nil => simp [skipWs] at h
  | cons d r =>
    by_cases hd : isWs d = true
    · simp only [isWs, Bool.or_eq_true, beq_iff_eq] at hd
      rcases hd with ((rfl | rfl) | rfl) | rfl <;> exact numEnd_cons rfl _
    · have : d = c := by simpa [skipWs, hd] using congrArg List.head? h
      subst this
      exact numEnd_cons hc _

variable {F : Type} [PyFloat F]

theorem scanAtom_append {s r : PyStr} {v : Json F} (t : PyStr) (h : scanAtom s = some (v, r))
    (hr : NumEnd (r ++ t)) : scanAtom (s ++ t) = some (v, r ++ t) := by
  unfold scanAtom at h
  cases h₁ : scanWord [110, 117, 108, 108] s with
  | some q =>
    obtain rfl := scanWord_eq_some.mp h₁
    rw [h₁] at h
    cases h
    simp [scanAtom, scanWord]
  | none =>
  cases h₂ : scanWord [116, 114, 117, 101] s with
  | some q =>
    obtain rfl := scanWord_eq_some.mp h₂
    simp only [h₁, h₂] at h
    cases h
    simp [scanAtom, scanWord]
  | none =>
  cases h₃ : scanWord [102, 97, 108, 115, 101] s with
  | some q =>
    obtain rfl := scanWord_eq_some.mp h₃
    simp only [h₁, h₂, h₃] at h
    cases h
    simp [scanAtom, scanWord]
  | none =>
  cases h₄ : scanNumber s with
  | some p =>
    obtain ⟨tok, fl, q⟩ := p
    simp only [h₁, h₂, h₃, h₄, numberValue, Option.some.injEq, Prod.mk.injEq] at h
    obtain ⟨rfl, rfl⟩ := h
    rw [scanAtom_number (scanNumber_append h₄ hr)]
    rfl
  | none =>
  cases h₅ : scanWord [78, 97, 78] s with
  | some q =>
    obtain rfl := scanWord_eq_some.mp h₅
    simp only [h₁, h₂, h₃, h₄, h₅] at h
    cases h
    simp [scanAtom, scanWord, scanNumber, scanMinus, scanInt, isDigit]
  | none =>
  cases h₆ : scanWord (py "Infinity") s with
  | some q =>
    obtain rfl := scanWord_eq_some.mp h₆
    simp only [h₁, h₂, h₃, h₄, h₅, h₆] at h
    cases h
    simp [scanAtom, scanWord, scanNumber, scanMinus, scanInt, isDigit, py]
  | none =>
  cases h₇ : scanWord (py "-Infinity") s with
  | some q =>
    obtain rfl := scanWord_eq_some.mp h₇
    simp only [h₁, h₂, h₃, h₄, h₅, h₆, h₇] at h
    cases h
    simp [scanAtom, scanWord, scanNumber, scanMinus, scanInt, isDigit, py]
  | none => simp [h₁, h₂, h₃, h₄, h₅, h₆, h₇] at h

theorem scanValue_nil (n : ℕ) : scanValue (F := F) n [] = none := by
  cases n <;> simp [scanValue]

theorem scanMembers_nil (n : ℕ) : scanMembers (F := F) n [] = none := by
  cases n <;> simp [scanMembers]

theorem scanElems_nil (n : ℕ) : scanElems (F := F) n [] = none := by
  cases n <;> simp [scanElems, scanValue_nil]

/-- A reader that refuses the empty text, started behind white space. -/
theorem skipWs_ne_nil {α : Type} {f : PyStr → Option α} {r : PyStr} {a : α}
    (hf : f [] = none) (h : f (skipWs r) = some a) : skipWs r ≠ [] := by
  intro hn
  simp [hn, hf] at h

/-- One more unit of fuel on each side keeps the three readers in step. -/
theorem scan_append (n : ℕ) :
    (∀ m s (v : Json F) r t, n ≤ m → scanValue n s = some (v, r) → NumEnd (r ++ t) →
      scanValue m (s ++ t) = some (v, r ++ t)) ∧
    (∀ m s (ms : List (PyStr × Json F)) r t, n ≤ m → scanMembers n s = some (ms, r) →
      scanMembers m (s ++ t) = some (ms, r ++ t)) ∧
    (∀ m s (xs : List (Json F)) r t, n ≤ m → scanElems n s = some (xs, r) →
      scanElems m (s ++ t) = some (xs, r ++ t)) := by
  induction n with
  | zero => simp [scanValue, scanMembers, scanElems]
  | succ n ih =>
    obtain ⟨ihv, ihm, ihe⟩ := ih
    refine ⟨?_, ?_, ?_⟩
    · intro m s v r t hnm h hr
      obtain ⟨m, rfl⟩ : ∃ k, m = k + 1 := ⟨m - 1, by omega⟩
      cases s with
      | nil => simp [scanValue] at h
      | cons c s =>
        simp only [scanValue, List.cons_append] at h ⊢
        split_ifs at h ⊢ with h₁ h₂ h₃
        · simp only [Option.map_eq_some_iff, Prod.mk.injEq] at h
          obtain ⟨⟨u, w⟩, hq, rfl, rfl⟩ := h
          rw [scanString_append t (by simp) hq]
          rfl
        · cases hs : skipWs s with
          | nil => simp [hs] at h
          | cons d w =>
            rw [hs] at h
            rw [skipWs_append t hs (by simp)]
            simp only [List.cons_append] at h ⊢
            split_ifs at h ⊢ with hd
            · cases h; rfl
            · simp only [Option.map_eq_some_iff, Prod.mk.injEq] at h
              obtain ⟨⟨u, w'⟩, hq, rfl, rfl⟩ := h
              have := ihm m _ _ _ t (by omega) hq
              rw [List.cons_append] at this
              rw [this]
              rfl
        · cases hs : skipWs s with
          | nil => simp [hs] at h
          | cons d w =>
            rw [hs] at h
            rw [skipWs_append t hs (by simp)]
            simp only [List.cons_append] at h ⊢
            split_ifs at h ⊢ with hd
            · cases h; rfl
            · simp only [Option.map_eq_some_iff, Prod.mk.injEq] at h
              obtain ⟨⟨u, w'⟩, hq, rfl, rfl⟩ := h
              have := ihe m _ _ _ t (by omega) hq
              rw [List.cons_append] at this
              rw [this]
              rfl
        · rw [← List.cons_append]
          exact scanAtom_append t h hr
    · intro m s ms r t hnm h
      obtain ⟨m, rfl⟩ : ∃ k, m = k + 1 := ⟨m - 1, by omega⟩
      cases s with
      | nil => simp [scanMembers] at h
      | cons c s =>
        simp only [scanMembers, List.cons_append] at h ⊢
        split_ifs at h ⊢ with h₁
        cases hk : scanString s.length s with
        | none => simp [hk] at h
        | some p =>
        rw [scanString_append t (by simp) hk]
        simp only [hk] at h ⊢
        cases hs : skipWs p.2 with
        | nil => simp [hs] at h
        | cons d w =>
        rw [skipWs_append t hs (by simp)]
        simp only [hs, List.cons_append] at h ⊢
        split_ifs at h ⊢ with hd
        cases hv : scanValue (F := F) n (skipWs w) with
        | none => simp [hv] at h
        | some q =>
        simp only [hv] at h
        cases he : skipWs q.2 with
        | nil => simp [he] at h
        | cons e w' =>
        simp only [he] at h
        -- the value was followed by a comma or a brace, so a number in it had ended
        have hend : isNumeric e = false := by
          split_ifs at h with h₂ h₃
          · subst h₂; rfl
          · subst h₃; rfl
        rw [skipWs_append t rfl (skipWs_ne_nil (scanValue_nil n) hv),
          ihv m _ _ _ t (by omega) hv (numEnd_of_skipWs t he hend)]
        simp only [skipWs_append t he (by simp), List.cons_append]
        split_ifs at h ⊢ with h₂ h₃
        · cases h; rfl
        · simp only [Option.map_eq_some_iff, Prod.mk.injEq] at h
          obtain ⟨⟨u, z⟩, hq, rfl, rfl⟩ := h
          rw [skipWs_append t rfl (skipWs_ne_nil (scanMembers_nil n) hq),
            ihm m _ _ _ t (by omega) hq]
          rfl
    · intro m s xs r t hnm h
      obtain ⟨m, rfl⟩ : ∃ k, m = k + 1 := ⟨m - 1, by omega⟩
      simp only [scanElems] at h ⊢
      cases hv : scanValue (F := F) n s with
      | none => simp [hv] at h
      | some q =>
      simp only [hv] at h
      cases he : skipWs q.2 with
      | nil => simp [he] at h
      | cons e w =>
      simp only [he] at h
      have hend : isNumeric e = false := by
        split_ifs at h with h₂ h₃
        · subst h₂; rfl
        · subst h₃; rfl
      rw [ihv m _ _ _ t (by omega) hv (numEnd_of_skipWs t he hend)]
      simp only [skipWs_append t he (by simp), List.cons_append]
      split_ifs at h ⊢ with h₂ h₃
      · cases h; rfl
      · simp only [Option.map_eq_some_iff, Prod.mk.injEq] at h
        obtain ⟨⟨u, z⟩, hq, rfl, rfl⟩ := h
        rw [skipWs_append t rfl (skipWs_ne_nil (scanElems_nil n) hq),
          ihe m _ _ _ t (by omega) hq]
        rfl

end JsonText
