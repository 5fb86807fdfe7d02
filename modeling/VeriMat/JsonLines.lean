import VeriMat.JsonPrefix

/-! # JSON on one line

Where a JSON text may hold a line end it may hold either one, so reading it does not change
when a carriage return is taken for a line feed; and an object that was read is read again
whatever text is put behind it. -/
namespace JsonText

open PyText

/-! ## Carriage returns taken for line feeds -/

def feed (c : ℕ) : ℕ := if c = 13 then 10 else c

theorem feed_of_ne {c : ℕ} (h : c ≠ 13) : feed c = c := if_neg h

theorem feed_eq_iff {c k : ℕ} (h₁ : k ≠ 10) (h₂ : k ≠ 13) : feed c = k ↔ c = k := by
  unfold feed
  split_ifs with h
  · subst h
    exact ⟨fun h => absurd h.symm h₁, fun h => absurd h.symm h₂⟩
  · rfl

theorem isDigit_feed (c : ℕ) : isDigit (feed c) = isDigit c := by
  unfold feed
  split_ifs with h
  · subst h; rfl
  · rfl

theorem isWs_feed (c : ℕ) : isWs (feed c) = isWs c := by
  unfold feed
  split_ifs with h
  · subst h; rfl
  · rfl

theorem isSpace_feed (c : ℕ) : isSpace (feed c) = isSpace c := by
  unfold feed
  split_ifs with h
  · subst h; rfl
  · rfl

theorem isSpace_of_isWs {c : ℕ} (h : isWs c = true) : isSpace c = true := by
  simp only [isWs, Bool.or_eq_true, beq_iff_eq] at h
  rcases h with ((rfl | rfl) | rfl) | rfl <;> rfl

theorem hexValue_feed (c : ℕ) : hexValue (feed c) = hexValue c := by
  unfold feed
  split_ifs with h
  · subst h; rfl
  · rfl

theorem map_feed_of_notMem {s : PyStr} (h : 13 ∉ s) : s.map feed = s :=
  (List.map_congr_left fun c hc => feed_of_ne fun (hc' : c = 13) => h (hc' ▸ hc)).trans
    (List.map_id' s)

theorem skipWs_feed (s : PyStr) : skipWs (s.map feed) = (skipWs s).map feed := by
  rw [skipWs, skipWs, List.dropWhile_map]
  congr 2
  exact funext isWs_feed

theorem dropWhile_digit_feed (s : PyStr) :
    (s.map feed).dropWhile isDigit = (s.dropWhile isDigit).map feed := by
  rw [List.dropWhile_map]
  congr 2
  exact funext isDigit_feed

theorem takeWhile_digit_feed (s : PyStr) :
    (s.map feed).takeWhile isDigit = s.takeWhile isDigit := by
  rw [List.takeWhile_map]
  have hfun : isDigit ∘ feed = isDigit := funext isDigit_feed
  rw [hfun]
  refine map_feed_of_notMem fun h => ?_
  have := List.all_eq_true.mp List.all_takeWhile 13 h
  cases this

theorem scanMinus_feed (s : PyStr) :
    scanMinus (s.map feed) = ((scanMinus s).1, (scanMinus s).2.map feed) := by
  cases s with
  | nil => rfl
  | cons c s =>
    simp only [List.map_cons, scanMinus, feed_eq_iff (k := 45) (by decide) (by decide)]
    split_ifs with h
    · subst h; rfl
    · rfl

theorem scanInt_feed (s : PyStr) :
    scanInt (s.map feed) = (scanInt s).map fun p => (p.1, p.2.map feed) := by
  cases s with
  | nil => rfl
  | cons c s =>
    simp only [List.map_cons, scanInt, feed_eq_iff (k := 48) (by decide) (by decide), isDigit_feed,
      takeWhile_digit_feed, dropWhile_digit_feed]
    split_ifs with h₁ h₂
    · rfl
    · rw [feed_of_ne (by rintro rfl; cases h₂)]
      rfl
    · rfl

theorem scanFrac_feed (s : PyStr) :
    scanFrac (s.map feed) = ((scanFrac s).1, (scanFrac s).2.map feed) := by
  match s with
  | [] | [_] => rfl
  | c :: d :: s =>
    simp only [List.map_cons, scanFrac, feed_eq_iff (k := 46) (by decide) (by decide),
      isDigit_feed, takeWhile_digit_feed, dropWhile_digit_feed]
    split_ifs with h
    · rw [feed_of_ne (by rintro rfl; cases h.1), feed_of_ne (by rintro rfl; cases h.2)]
    · rfl

theorem scanExpSign_feed (s : PyStr) :
    scanExpSign (s.map feed) = ((scanExpSign s).1, (scanExpSign s).2.map feed) := by
  cases s with
  | nil => rfl
  | cons c s =>
    simp only [List.map_cons, scanExpSign, feed_eq_iff (k := 43) (by decide) (by decide),
      feed_eq_iff (k := 45) (by decide) (by decide)]
    split_ifs with h
    · rw [feed_of_ne (by rintro rfl; rcases h with h | h <;> cases h)]
    · rfl

theorem scanExp_feed (s : PyStr) :
    scanExp (s.map feed) = ((scanExp s).1, (scanExp s).2.map feed) := by
  cases s with
  | nil => rfl
  | cons c s =>
    simp only [List.map_cons, scanExp, feed_eq_iff (k := 101) (by decide) (by decide),
      feed_eq_iff (k := 69) (by decide) (by decide), scanExpSign_feed, takeWhile_digit_feed,
      dropWhile_digit_feed]
    split_ifs with h
    · rw [feed_of_ne (by rintro rfl; rcases h.1 with h | h <;> cases h)]
    · rfl

theorem scanNumber_feed (s : PyStr) :
    scanNumber (s.map feed) = (scanNumber s).map fun p => (p.1, p.2.1, p.2.2.map feed) := by
  simp only [scanNumber, scanMinus_feed, scanInt_feed]
  cases scanInt (scanMinus s).2 with
  | none => rfl
  | some p => simp only [Option.map_some, scanFrac_feed, scanExp_feed]

theorem scanHex4_feed (s : PyStr) :
    scanHex4 (s.map feed) = (scanHex4 s).map fun p => (p.1, p.2.map feed) := by
  match s with
  | [] | [_] | [_, _] | [_, _, _] => rfl
  | a :: b :: c :: d :: s =>
    simp only [List.map_cons, scanHex4, hexValue_feed]
    cases hexValue a <;> cases hexValue b <;> cases hexValue c <;> cases hexValue d <;> rfl

theorem scanLowSurrogate_feed (s : PyStr) :
    scanLowSurrogate (s.map feed) = (scanLowSurrogate s).map fun p => (p.1, p.2.map feed) := by
  match s with
  | [] | [_] => rfl
  | a :: b :: s =>
    simp only [List.map_cons, scanLowSurrogate, feed_eq_iff (k := 92) (by decide) (by decide),
      feed_eq_iff (k := 117) (by decide) (by decide), scanHex4_feed]
    split_ifs
    · cases scanHex4 s with
      | none => rfl
      | some p =>
        simp only [Option.map_some]
        split_ifs <;> rfl
    · rfl

theorem scanUnicodeEscape_feed (s : PyStr) :
    scanUnicodeEscape (s.map feed) = (scanUnicodeEscape s).map fun p => (p.1, p.2.map feed) := by
  simp only [scanUnicodeEscape, scanHex4_feed]
  cases scanHex4 s with
  | none => rfl
  | some p =>
    simp only [Option.map_some, scanLowSurrogate_feed]
    split_ifs
    · cases scanLowSurrogate p.2 <;> rfl
    · rfl

theorem scanEscape_feed (s : PyStr) :
    scanEscape (s.map feed) = (scanEscape s).map fun p => (p.1, p.2.map feed) := by
  cases s with
  | nil => rfl
  | cons c s =>
    simp only [List.map_cons, scanEscape, feed_eq_iff (k := 34) (by decide) (by decide),
      feed_eq_iff (k := 92) (by decide) (by decide), feed_eq_iff (k := 47) (by decide) (by decide),
      feed_eq_iff (k := 98) (by decide) (by decide),
      feed_eq_iff (k := 102) (by decide) (by decide),
      feed_eq_iff (k := 110) (by decide) (by decide),
      feed_eq_iff (k := 114) (by decide) (by decide),
      feed_eq_iff (k := 116) (by decide) (by decide),
      feed_eq_iff (k := 117) (by decide) (by decide), scanUnicodeEscape_feed]
    split_ifs <;> rfl

/-- A string literal holds no raw line end of either kind. -/
theorem scanString_feed (n : ℕ) (s : PyStr) :
    scanString n (s.map feed) = (scanString n s).map fun p => (p.1, p.2.map feed) := by
  induction n generalizing s with
  | zero => rfl
  | succ n ih =>
    cases s with
    | nil => rfl
    | cons c s =>
      have hlt : feed c < 32 ↔ c < 32 := by
        unfold feed
        split_ifs <;> omega
      simp only [List.map_cons, scanString, feed_eq_iff (k := 34) (by decide) (by decide),
        feed_eq_iff (k := 92) (by decide) (by decide), hlt, scanEscape_feed]
      split_ifs with h₁ h₂ h₃
      · rfl
      · cases scanEscape s with
        | none => rfl
        | some p =>
          simp only [Option.map_some, ih]
          cases scanString n p.2 <;> rfl
      · rfl
      · rw [ih, feed_of_ne (by omega)]
        cases scanString n s <;> rfl

theorem scanWord_feed {w : PyStr} (h₁ : 10 ∉ w) (h₂ : 13 ∉ w) (s : PyStr) :
    scanWord w (s.map feed) = (scanWord w s).map (List.map feed) := by
  induction w generalizing s with
  | nil => rfl
  | cons k w ih =>
    cases s with
    | nil => rfl
    | cons c s =>
      simp only [List.mem_cons, not_or] at h₁ h₂
      simp only [List.map_cons, scanWord, feed_eq_iff (Ne.symm h₁.1) (Ne.symm h₂.1),
        ih h₁.2 h₂.2]
      split_ifs <;> rfl

variable {F : Type} [PyFloat F]

theorem scanAtom_feed (s : PyStr) :
    scanAtom (F := F) (s.map feed) = (scanAtom s).map fun p => (p.1, p.2.map feed) := by
  unfold scanAtom
  simp only [scanWord_feed (w := [110, 117, 108, 108]) (by decide) (by decide),
    scanWord_feed (w := [116, 114, 117, 101]) (by decide) (by decide),
    scanWord_feed (w := [102, 97, 108, 115, 101]) (by decide) (by decide),
    scanWord_feed (w := [78, 97, 78]) (by decide) (by decide),
    scanWord_feed (w := py "Infinity") (by decide) (by decide),
    scanWord_feed (w := py "-Infinity") (by decide) (by decide), scanNumber_feed]
  cases scanWord [110, 117, 108, 108] s with
  | some r => rfl
  | none =>
  cases scanWord [116, 114, 117, 101] s with
  | some r => rfl
  | none =>
  cases scanWord [102, 97, 108, 115, 101] s with
  | some r => rfl
  | none =>
  cases scanNumber s with
  | some p => rfl
  | none =>
  cases scanWord [78, 97, 78] s with
  | some r => rfl
  | none =>
  cases scanWord (py "Infinity") s with
  | some r => rfl
  | none => cases scanWord (py "-Infinity") s <;> rfl

theorem scan_feed (n : ℕ) :
    (∀ s, scanValue (F := F) n (s.map feed) =
      (scanValue n s).map fun p => (p.1, p.2.map feed)) ∧
    (∀ s, scanMembers (F := F) n (s.map feed) =
      (scanMembers n s).map fun p => (p.1, p.2.map feed)) ∧
    (∀ s, scanElems (F := F) n (s.map feed) =
      (scanElems n s).map fun p => (p.1, p.2.map feed)) := by
  induction n with
  | zero => simp [scanValue, scanMembers, scanElems]
  | succ n ih =>
    obtain ⟨ihv, ihm, ihe⟩ := ih
    refine ⟨?_, ?_, ?_⟩
    · intro s
      cases s with
      | nil => rfl
      | cons c s =>
        have hatom := scanAtom_feed (F := F) (c :: s)
        rw [List.map_cons] at hatom
        simp only [List.map_cons, scanValue, feed_eq_iff (k := 34) (by decide) (by decide),
          feed_eq_iff (k := 123) (by decide) (by decide),
          feed_eq_iff (k := 91) (by decide) (by decide), scanString_feed, List.length_map,
          skipWs_feed, hatom]
        split_ifs with h₁ h₂ h₃
        · cases scanString s.length s <;> rfl
        · cases skipWs s with
          | nil => rfl
          | cons d r =>
            have hm := ihm (d :: r)
            rw [List.map_cons] at hm
            simp only [List.map_cons, feed_eq_iff (k := 125) (by decide) (by decide), hm]
            split_ifs
            · rfl
            · cases scanMembers (F := F) n (d :: r) <;> rfl
        · cases skipWs s with
          | nil => rfl
          | cons d r =>
            have he := ihe (d :: r)
            rw [List.map_cons] at he
            simp only [List.map_cons, feed_eq_iff (k := 93) (by decide) (by decide), he]
            split_ifs
            · rfl
            · cases scanElems (F := F) n (d :: r) <;> rfl
        · rfl
    · intro s
      cases s with
      | nil => rfl
      | cons c s =>
        simp only [List.map_cons, scanMembers, feed_eq_iff (k := 34) (by decide) (by decide),
          scanString_feed, List.length_map]
        split_ifs with h₁
        · cases scanString s.length s with
          | none => rfl
          | some p =>
            simp only [Option.map_some, skipWs_feed]
            cases skipWs p.2 with
            | nil => rfl
            | cons d r =>
              simp only [List.map_cons, feed_eq_iff (k := 58) (by decide) (by decide),
                skipWs_feed, ihv]
              split_ifs with h₂
              · cases scanValue (F := F) n (skipWs r) with
                | none => rfl
                | some q =>
                  simp only [Option.map_some, skipWs_feed]
                  cases skipWs q.2 with
                  | nil => rfl
                  | cons e r =>
                    simp only [List.map_cons, feed_eq_iff (k := 125) (by decide) (by decide),
                      feed_eq_iff (k := 44) (by decide) (by decide), skipWs_feed, ihm]
                    split_ifs
                    · rfl
                    · cases scanMembers (F := F) n (skipWs r) <;> rfl
                    · rfl
              · rfl
        · rfl
    · intro s
      simp only [scanElems, ihv]
      cases scanValue (F := F) n s with
      | none => rfl
      | some q =>
        simp only [Option.map_some, skipWs_feed]
        cases skipWs q.2 with
        | nil => rfl
        | cons e r =>
          simp only [List.map_cons, feed_eq_iff (k := 93) (by decide) (by decide),
            feed_eq_iff (k := 44) (by decide) (by decide), skipWs_feed, ihe]
          split_ifs
          · rfl
          · cases scanElems (F := F) n (skipWs r) <;> rfl
          · rfl

/-- A JSON text means the same with its line ends of either kind. -/
theorem parse_feed (s : PyStr) : parse (F := F) (s.map feed) = parse s := by
  have hbom : (s.map feed).head? = some 0xFEFF ↔ s.head? = some 0xFEFF := by
    cases s with
    | nil => rfl
    | cons c s => simp [feed_eq_iff (c := c) (k := 0xFEFF) (by decide) (by decide)]
  unfold parse
  simp only [hbom, List.length_map, skipWs_feed, (scan_feed (F := F) _).1]
  split_ifs
  · rfl
  · cases scanValue (F := F) (s.length + 1) (skipWs s) with
    | none => rfl
    | some p => simp only [Option.map_some, skipWs_feed, List.map_eq_nil_iff]

/-! ## Object texts -/

/-- An object with white space around it, read with some amount of fuel. -/
def ObjectText (s : PyStr) (v : Json F) : Prop :=
  ∃ n b r, skipWs s = 123 :: b ∧ scanValue n (123 :: b) = some (v, r) ∧ skipWs r = []

theorem skipWs_eq_nil {s : PyStr} : skipWs s = [] ↔ ∀ c ∈ s, isWs c = true :=
  List.dropWhile_eq_nil_iff

theorem skipWs_append_eq_nil {s t : PyStr} :
    skipWs (s ++ t) = [] ↔ skipWs s = [] ∧ skipWs t = [] := by
  simp [skipWs_eq_nil, or_imp, forall_and]

/-- An object that was read is read again with more fuel and more text behind it. -/
theorem scanObject_append {n m : ℕ} {b r : PyStr} {v : Json F} (t : PyStr) (hnm : n ≤ m)
    (h : scanValue n (123 :: b) = some (v, r)) :
    scanValue m (123 :: (b ++ t)) = some (v, r ++ t) := by
  cases n with
  | zero => simp [scanValue] at h
  | succ n =>
    obtain ⟨m, rfl⟩ : ∃ k, m = k + 1 := ⟨m - 1, by omega⟩
    simp only [scanValue, show ¬(123 = 34) by decide, if_false, if_true] at h ⊢
    cases hs : skipWs b with
    | nil => simp [hs] at h
    | cons d w =>
      rw [hs] at h
      rw [skipWs_append t hs (by simp)]
      simp only [List.cons_append] at h ⊢
      split_ifs at h ⊢ with hd
      · cases h; rfl
      · simp only [Option.map_eq_some_iff, Prod.mk.injEq] at h
        obtain ⟨⟨u, w'⟩, hq, rfl, rfl⟩ := h
        have := (scan_append n).2.1 m _ _ _ t (by omega) hq
        rw [List.cons_append] at this
        rw [this]
        rfl

theorem scanAtom_ne_obj {s r : PyStr} {kvs : List (PyStr × Json F)} :
    scanAtom s ≠ some (.obj kvs, r) := by
  unfold scanAtom numberValue
  intro h
  split at h
  · simp at h
  split at h
  · simp at h
  split at h
  · simp at h
  split at h
  · split at h <;> simp at h
  split at h
  · simp at h
  split at h
  · simp at h
  split at h <;> simp at h

theorem scanValue_obj_head {n : ℕ} {s r : PyStr} {kvs : List (PyStr × Json F)}
    (h : scanValue n s = some (.obj kvs, r)) : ∃ b, s = 123 :: b := by
  cases n with
  | zero => simp [scanValue] at h
  | succ n =>
    cases s with
    | nil => simp [scanValue] at h
    | cons c b =>
      by_cases hc : c = 123
      · exact ⟨b, by rw [hc]⟩
      · simp only [scanValue, if_neg hc] at h
        split_ifs at h
        · simp at h
        · split at h
          · simp at h
          · split_ifs at h <;> simp at h
        · exact absurd h scanAtom_ne_obj

/-- Only a text with an object in it parses to an object. -/
theorem objectText_of_parse {s : PyStr} {kvs : List (PyStr × Json F)}
    (h : parse s = some (.obj kvs)) : ObjectText s (.obj kvs) := by
  unfold parse at h
  split_ifs at h
  split at h
  · rename_i v r hs
    split_ifs at h with hr
    cases h
    obtain ⟨b, hb⟩ := scanValue_obj_head hs
    rw [hb] at hs
    exact ⟨_, b, r, hb, hs, hr⟩
  · cases h

theorem ObjectText.det {s : PyStr} {v w : Json F} (hv : ObjectText s v) (hw : ObjectText s w) :
    v = w := by
  obtain ⟨n, b, r, hs, h, _⟩ := hv
  obtain ⟨m, b', r', hs', h', _⟩ := hw
  rw [hs] at hs'
  cases hs'
  have h₁ := scanObject_append [] (le_max_left n m) h
  have h₂ := scanObject_append [] (le_max_right n m) h'
  rw [h₁] at h₂
  exact congrArg Prod.fst (Option.some.inj h₂)

/-- What stands behind an object that was read must be white space. -/
theorem ObjectText.append {s : PyStr} {v w : Json F} {t : PyStr} (hv : ObjectText s v)
    (hw : ObjectText (s ++ t) w) : v = w ∧ skipWs t = [] := by
  obtain ⟨n, b, r, hs, h, hr⟩ := hv
  obtain ⟨m, b', r', hs', h', hr'⟩ := hw
  rw [skipWs_append t hs (by simp), List.cons_append, List.cons.injEq] at hs'
  obtain ⟨-, rfl⟩ := hs'
  have h₁ := scanObject_append t (le_max_left n m) h
  have h₂ := scanObject_append [] (le_max_right n m) h'
  rw [List.append_nil, h₁, List.append_nil, Option.some.injEq, Prod.mk.injEq] at h₂
  obtain ⟨rfl, rfl⟩ := h₂
  exact ⟨rfl, (skipWs_append_eq_nil.mp hr').2⟩

/-- In front of an object there is white space only. -/
theorem ObjectText.of_append {w s : PyStr} {v : Json F} (hw : ∀ c ∈ w, isSpace c = true)
    (h : ObjectText (w ++ s) v) : (∀ c ∈ w, isWs c = true) ∧ ObjectText s v := by
  have hall : ∀ c ∈ w, isWs c = true := by
    obtain ⟨n, b, r, hs, _⟩ := h
    induction w with
    | nil => simp
    | cons c w ih =>
      by_cases hc : isWs c = true
      · rw [List.cons_append, skipWs, List.dropWhile_cons_of_pos hc] at hs
        exact List.forall_mem_cons.mpr ⟨hc, ih (fun d hd => hw d (by simp [hd])) hs⟩
      · rw [List.cons_append, skipWs_cons (by simpa using hc)] at hs
        cases hs
        have := hw 123 (by simp)
        simp [isSpace] at this
  refine ⟨hall, ?_⟩
  obtain ⟨n, b, r, hs, h⟩ := h
  rw [skipWs_append_all hall] at hs
  exact ⟨n, b, r, hs, h⟩

theorem objectText_render {kvs : List (PyStr × Json F)} (h : (Json.obj kvs).Finite) :
    ObjectText (render (.obj kvs)) (.obj kvs) :=
  objectText_of_parse (parse_render_self h)

/-- No proper prefix of a written object is an object. -/
theorem not_objectText_of_cut {kvs : List (PyStr × Json F)} (h : (Json.obj kvs).Finite)
    {s t : PyStr} (hst : s ++ t = render (.obj kvs)) (ht : t ≠ []) (v : Json F) :
    ¬ObjectText s v := by
  rintro ⟨n, b, r, hs, hscan, _⟩
  have hstart := (valueStart_render _ h).skipWs []
  rw [List.append_nil, ← hst, skipWs_append t hs (by simp), hst] at hstart
  generalize hm : (render (.obj kvs)).length = m at *
  have h₁ := scanObject_append t (le_max_left n m) hscan
  have h₂ := scanValue_render _ (max n m) [] h (hm ▸ le_max_right _ _) trivial
  rw [List.append_nil, ← hstart, List.cons_append, h₁, Option.some.injEq, Prod.mk.injEq] at h₂
  exact ht (List.append_eq_nil_iff.mp h₂.2).2

/-! ## Characters of written text -/

mutual

/-- The characters of the strings and names at any depth of a value. -/
def chars : Json F → List ℕ
  | .str s => s
  | .arr xs => charsElems xs
  | .obj kvs => charsMembers kvs
  | _ => []

def charsElems : List (Json F) → List ℕ
  | [] => []
  | x :: xs => chars x ++ charsElems xs

def charsMembers : List (PyStr × Json F) → List ℕ
  | [] => []
  | (k, v) :: kvs => k ++ chars v ++ charsMembers kvs

end

omit [PyFloat F] in
theorem mem_charsElems {c : ℕ} {xs : List (Json F)} :
    c ∈ charsElems xs ↔ ∃ x ∈ xs, c ∈ chars x := by
  induction xs with
  | nil => simp [charsElems]
  | cons x xs ih => simp [charsElems, ih]

omit [PyFloat F] in
theorem mem_charsMembers {c : ℕ} {kvs : List (PyStr × Json F)} :
    c ∈ charsMembers kvs ↔ ∃ p ∈ kvs, c ∈ p.1 ∨ c ∈ chars p.2 := by
  induction kvs with
  | nil => simp [charsMembers]
  | cons p kvs ih => simp [charsMembers, ih, or_assoc]

theorem scanInt_numeric {s i r : PyStr} (h : scanInt s = some (i, r)) :
    ∀ c ∈ i, isNumeric c = true := by
  cases s with
  | nil => simp [scanInt] at h
  | cons c s =>
    simp only [scanInt] at h
    split_ifs at h with h₁ h₂
    · cases h
      simp [isNumeric, isDigit]
    · cases h
      refine List.forall_mem_cons.mpr ⟨isNumeric_of_isDigit h₂, fun d hd => ?_⟩
      exact isNumeric_of_isDigit (List.all_eq_true.mp List.all_takeWhile d hd)

theorem scanFrac_numeric (s : PyStr) : ∀ c ∈ (scanFrac s).1, isNumeric c = true := by
  match s with
  | [] | [_] => simp [scanFrac]
  | c :: d :: s =>
    simp only [scanFrac]
    split_ifs with h
    · obtain ⟨rfl, hd⟩ := h
      refine List.forall_mem_cons.mpr ⟨rfl, List.forall_mem_cons.mpr
        ⟨isNumeric_of_isDigit hd, fun e he => ?_⟩⟩
      exact isNumeric_of_isDigit (List.all_eq_true.mp List.all_takeWhile e he)
    · simp

theorem scanExp_numeric (s : PyStr) : ∀ c ∈ (scanExp s).1, isNumeric c = true := by
  cases s with
  | nil => simp [scanExp]
  | cons c s =>
    simp only [scanExp]
    split_ifs with h
    · have hsign : ∀ d ∈ (scanExpSign s).1, isNumeric d = true := by
        cases s with
        | nil => simp [scanExpSign]
        | cons d s =>
          simp only [scanExpSign]
          split_ifs with hd
          · rcases hd with rfl | rfl <;> simp [isNumeric]
          · simp
      have hc : isNumeric c = true := by rcases h.1 with rfl | rfl <;> rfl
      simp only [List.cons_append, List.mem_cons, List.mem_append, forall_eq_or_imp, hc,
        true_and]
      rintro d (hd | hd)
      · exact hsign d hd
      · exact isNumeric_of_isDigit (List.all_eq_true.mp List.all_takeWhile d hd)
    · simp

theorem scanNumber_numeric {s tok r : PyStr} {fl : Bool} (h : scanNumber s = some (tok, fl, r)) :
    ∀ c ∈ tok, isNumeric c = true := by
  have hminus : ∀ c ∈ (scanMinus s).1, isNumeric c = true := by
    cases s with
    | nil => simp [scanMinus]
    | cons c s =>
      simp only [scanMinus]
      split_ifs with hc
      · subst hc
        simp [isNumeric]
      · simp
  unfold scanNumber at h
  split at h
  · cases h
  · rename_i i r' hi
    cases h
    simp only [List.mem_append]
    rintro c (((hc | hc) | hc) | hc)
    · exact hminus c hc
    · exact scanInt_numeric hi c hc
    · exact scanFrac_numeric _ c hc
    · exact scanExp_numeric _ c hc

/-- A character of written text: printable, and ASCII unless a string of the value has it. -/
def Written (cs : List ℕ) (c : ℕ) : Prop := 32 ≤ c ∧ (c < 128 ∨ c ∈ cs)

theorem written_numeric {c : ℕ} (h : isNumeric c = true) (cs : List ℕ) : Written cs c := by
  have : 43 ≤ c ∧ c < 128 := by
    simp only [isNumeric, isDigit, Bool.or_eq_true, Bool.and_eq_true, decide_eq_true_eq,
      beq_iff_eq] at h
    omega
  exact ⟨by omega, Or.inl this.2⟩

theorem written_escapeChar {c d : ℕ} (h : d ∈ escapeChar c) : Written [c] d := by
  have hhex : ∀ n < 16, 48 ≤ hexDigit n ∧ hexDigit n < 128 := by decide
  unfold escapeChar at h
  unfold Written
  split_ifs at h <;> simp only [List.mem_cons, List.not_mem_nil, or_false] at h
  all_goals try (rcases h with rfl | rfl <;> omega)
  · have h₁ := hhex (c / 16) (by omega)
    have h₂ := hhex (c % 16) (by omega)
    rcases h with rfl | rfl | rfl | rfl | rfl | rfl <;> omega
  · subst h
    exact ⟨by omega, Or.inr (by simp)⟩

theorem Written.mono {cs ds : List ℕ} (h : ∀ c ∈ cs, c ∈ ds) {c : ℕ} (hc : Written cs c) :
    Written ds c :=
  ⟨hc.1, hc.2.imp_right (h c)⟩

theorem written_quote {s : PyStr} {c : ℕ} (h : c ∈ quote s) : Written s c := by
  simp only [quote, List.cons_append, List.mem_cons, List.mem_append, List.not_mem_nil,
    or_false] at h
  rcases h with rfl | h | rfl
  · exact ⟨by decide, Or.inl (by decide)⟩
  · obtain ⟨d, hd, hc⟩ := List.mem_flatMap.mp h
    exact (written_escapeChar hc).mono (by simpa using hd)
  · exact ⟨by decide, Or.inl (by decide)⟩

theorem written_ascii {c : ℕ} (h₁ : 32 ≤ c) (h₂ : c < 128) (cs : List ℕ) : Written cs c :=
  ⟨h₁, Or.inl h₂⟩

theorem written_word {w : PyStr} (hw : ∀ c ∈ w, 32 ≤ c ∧ c < 128) (cs : List ℕ) :
    ∀ c ∈ w, Written cs c :=
  fun c hc => written_ascii (hw c hc).1 (hw c hc).2 cs

theorem written_renderElems {xs : List (Json F)}
    (h : ∀ x ∈ xs, ∀ c ∈ render x, Written (chars x) c) :
    ∀ c ∈ renderElems xs, Written (charsElems xs) c := by
  induction xs with
  | nil =>
    intro c hc
    rw [renderElems, List.mem_singleton] at hc
    exact hc ▸ written_ascii (by decide) (by decide) _
  | cons x xs ih =>
    intro c hc
    simp only [renderElems, List.cons_append, List.mem_cons, List.mem_append] at hc
    rcases hc with rfl | hc | hc
    · exact written_ascii (by decide) (by decide) _
    · exact (h x (by simp) c hc).mono (by simp +contextual [charsElems])
    · exact (ih (fun y hy => h y (by simp [hy])) c hc).mono (by simp +contextual [charsElems])

theorem written_renderMembers {kvs : List (PyStr × Json F)}
    (h : ∀ p ∈ kvs, ∀ c ∈ render p.2, Written (chars p.2) c) :
    ∀ c ∈ renderMembers kvs, Written (charsMembers kvs) c := by
  induction kvs with
  | nil =>
    intro c hc
    rw [renderMembers, List.mem_singleton] at hc
    exact hc ▸ written_ascii (by decide) (by decide) _
  | cons p kvs ih =>
    obtain ⟨k, v⟩ := p
    intro c hc
    simp only [renderMembers, List.cons_append, List.append_assoc, List.mem_cons,
      List.mem_append] at hc
    rcases hc with rfl | hc | rfl | hc | hc
    · exact written_ascii (by decide) (by decide) _
    · exact (written_quote hc).mono (by simp +contextual [charsMembers])
    · exact written_ascii (by decide) (by decide) _
    · exact (h (k, v) (by simp) c hc).mono (by simp +contextual [charsMembers])
    · exact (ih (fun q hq => h q (by simp [hq])) c hc).mono (by simp +contextual [charsMembers])

/-- Nothing but printable characters is written, and beyond ASCII only what strings have. -/
theorem written_render (j : Json F) (h : j.Finite) : ∀ c ∈ render j, Written (chars j) c := by
  induction j using Json.nested with
  | null => exact written_word (w := [110, 117, 108, 108]) (by decide) _
  | bool b =>
    cases b
    · exact written_word (w := [102, 97, 108, 115, 101]) (by decide) _
    · exact written_word (w := [116, 114, 117, 101]) (by decide) _
  | int n => exact fun c hc => written_numeric (scanNumber_numeric (scanNumber_intText n) c hc) _
  | float x =>
    exact fun c hc => written_numeric (scanNumber_numeric (PyFloat.scan_repr x h) c hc) _
  | str s => exact fun c hc => written_quote hc
  | arr xs ih =>
    rw [Json.Finite, finiteElems_iff] at h
    intro c hc
    cases xs with
    | nil => exact written_word (w := [91, 93]) (by decide) _ c hc
    | cons x xs =>
      simp only [render, List.cons_append, List.mem_cons, List.mem_append] at hc
      rcases hc with rfl | hc | hc
      · exact written_ascii (by decide) (by decide) _
      · exact (ih x (by simp) (h x (by simp)) c hc).mono (by simp +contextual [chars, charsElems])
      · refine (written_renderElems (fun y hy => ih y (by simp [hy]) (h y (by simp [hy]))) c hc).mono
          ?_
        simp +contextual [chars, charsElems]
  | obj kvs ih =>
    rw [Json.Finite, finiteMembers_iff] at h
    intro c hc
    cases kvs with
    | nil => exact written_word (w := [123, 125]) (by decide) _ c hc
    | cons p kvs =>
      obtain ⟨k, v⟩ := p
      simp only [render, List.cons_append, List.append_assoc, List.mem_cons,
        List.mem_append] at hc
      rcases hc with rfl | hc | rfl | hc | hc
      · exact written_ascii (by decide) (by decide) _
      · exact (written_quote hc).mono (by simp +contextual [chars, charsMembers])
      · exact written_ascii (by decide) (by decide) _
      · exact (ih (k, v) (by simp) (h (k, v) (by simp)) c hc).mono
          (by simp +contextual [chars, charsMembers])
      · refine (written_renderMembers (fun q hq => ih q (by simp [hq]) (h q (by simp [hq]))) c
          hc).mono ?_
        simp +contextual [chars, charsMembers]

/-- A character beyond ASCII is written as it is. -/
theorem mem_quote {s : PyStr} {c : ℕ} (h : c ∈ s) (hc : 128 ≤ c) : c ∈ quote s := by
  have hesc : escapeChar c = [c] := by
    unfold escapeChar
    rw [if_neg (by omega), if_neg (by omega), if_neg (by omega), if_neg (by omega),
      if_neg (by omega), if_neg (by omega), if_neg (by omega), if_neg (by omega)]
  have : c ∈ escape s := List.mem_flatMap.mpr ⟨c, h, by simp [hesc]⟩
  simp [quote, this]

theorem mem_renderElems {xs : List (Json F)} {c : ℕ}
    (ih : ∀ x ∈ xs, c ∈ chars x → c ∈ render x) (h : c ∈ charsElems xs) :
    c ∈ renderElems xs := by
  induction xs with
  | nil => simp [charsElems] at h
  | cons x xs ihxs =>
    rcases List.mem_append.mp h with h | h
    · simp [renderElems, ih x (by simp) h]
    · simp [renderElems, ihxs (fun y hy => ih y (by simp [hy])) h]

theorem mem_renderMembers {kvs : List (PyStr × Json F)} {c : ℕ} (hc : 128 ≤ c)
    (ih : ∀ p ∈ kvs, c ∈ chars p.2 → c ∈ render p.2) (h : c ∈ charsMembers kvs) :
    c ∈ renderMembers kvs := by
  induction kvs with
  | nil => simp [charsMembers] at h
  | cons p kvs ihkvs =>
    obtain ⟨k, v⟩ := p
    simp only [charsMembers, List.mem_append] at h
    rcases h with (h | h) | h
    · simp [renderMembers, mem_quote h hc]
    · simp [renderMembers, ih (k, v) (by simp) h]
    · simp [renderMembers, ihkvs (fun q hq => ih q (by simp [hq])) h]

theorem mem_render {c : ℕ} (hc : 128 ≤ c) (j : Json F) (h : c ∈ chars j) : c ∈ render j := by
  induction j using Json.nested with
  | null => simp [chars] at h
  | bool b => simp [chars] at h
  | int n => simp [chars] at h
  | float x => simp [chars] at h
  | str s => exact mem_quote h hc
  | arr xs ih =>
    cases xs with
    | nil => simp [chars, charsElems] at h
    | cons x xs =>
      rw [chars, charsElems, List.mem_append] at h
      rcases h with h | h
      · simp [render, ih x (by simp) h]
      · simp [render, mem_renderElems (fun y hy => ih y (by simp [hy])) h]
  | obj kvs ih =>
    cases kvs with
    | nil => simp [chars, charsMembers] at h
    | cons p kvs =>
      obtain ⟨k, v⟩ := p
      simp only [chars, charsMembers, List.mem_append] at h
      rcases h with (h | h) | h
      · simp [render, mem_quote h hc]
      · simp [render, ih (k, v) (by simp) h]
      · simp [render, mem_renderMembers hc (fun q hq => ih q (by simp [hq])) h]

/-- Written text is one line. -/
theorem render_noFeed {j : Json F} (h : j.Finite) : 10 ∉ render j ∧ 13 ∉ render j :=
  ⟨fun hc => absurd (written_render j h 10 hc).1 (by decide),
    fun hc => absurd (written_render j h 13 hc).1 (by decide)⟩

end JsonText
