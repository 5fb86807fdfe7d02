import VeriMat.JsonSpaced

/-! # Quotes

Which side of a quote a text ends on, read character by character. Text that JSON accepts ends
where it began, with no backslash outside its strings; so two readings of one text, one begun
inside a string and one outside, meet no backslash at all. -/
namespace JsonText

open PyText PyValue

/-! ## Phases -/

inductive Phase where
  | outside
  | inside
  | escape
  deriving DecidableEq

/-- One character; outside of strings only the allowed ones are taken. -/
def Phase.step (allowed : ℕ → Bool) : Phase → ℕ → Option Phase
  | .outside, c =>
    if c = 34 then some .inside
    else if c = 92 ∨ allowed c = false then none
    else some .outside
  | .inside, c =>
    if c = 34 then some .outside
    else if c = 92 then some .escape
    else some .inside
  | .escape, c => if 128 ≤ c ∨ isSpace c = true then none else some .inside

/-- The phase behind a text. -/
def Phase.run (allowed : ℕ → Bool) (p : Phase) (s : PyStr) : Option Phase :=
  s.foldlM (Phase.step allowed) p

/-- Every character is allowed. -/
def anyChar (_ : ℕ) : Bool := true

def isAscii (c : ℕ) : Bool := c < 128

namespace Phase

variable {allowed : ℕ → Bool} {p q : Phase}

@[simp] theorem run_nil : run allowed p [] = some p := rfl

theorem run_cons {c : ℕ} {s : PyStr} :
    run allowed p (c :: s) = (step allowed p c).bind fun q => run allowed q s := rfl

theorem run_append {s t : PyStr} :
    run allowed p (s ++ t) = (run allowed p s).bind fun q => run allowed q t :=
  List.foldlM_append

theorem run_append_of {s t : PyStr} (h : run allowed p s = some q) :
    run allowed p (s ++ t) = run allowed q t := by
  rw [run_append, h, Option.bind_some]

/-- Neither a quote nor a backslash. -/
def Unquoted (s : PyStr) : Prop := ∀ c ∈ s, c ≠ 34 ∧ c ≠ 92

theorem run_unquoted_outside {s : PyStr} (h : Unquoted s) (hs : ∀ c ∈ s, allowed c = true) :
    run allowed .outside s = some .outside := by
  induction s with
  | nil => rfl
  | cons c s ih =>
    obtain ⟨hc, hrest⟩ := List.forall_mem_cons.mp h
    obtain ⟨hallowed, hs⟩ := List.forall_mem_cons.mp hs
    rw [run_cons, step, if_neg hc.1, if_neg (by simp [hc.2, hallowed]), Option.bind_some,
      ih hrest hs]

theorem run_unquoted_inside {s : PyStr} (h : Unquoted s) :
    run allowed .inside s = some .inside := by
  induction s with
  | nil => rfl
  | cons c s ih =>
    obtain ⟨hc, hrest⟩ := List.forall_mem_cons.mp h
    rw [run_cons, step, if_neg hc.1, if_neg hc.2, Option.bind_some, ih hrest]

/-- A run goes the same way where more is allowed. -/
theorem run_anyChar {s : PyStr} (h : run allowed p s = some q) : run anyChar p s = some q := by
  induction s generalizing p with
  | nil => exact h
  | cons c s ih =>
    rw [run_cons, Option.bind_eq_some_iff] at h ⊢
    obtain ⟨r, hstep, hrest⟩ := h
    refine ⟨r, ?_, ih hrest⟩
    cases p with
    | outside =>
      rw [step] at hstep ⊢
      by_cases hquote : c = 34
      · rw [if_pos hquote] at hstep ⊢
        exact hstep
      · rw [if_neg hquote] at hstep ⊢
        by_cases hbad : c = 92 ∨ allowed c = false
        · rw [if_pos hbad] at hstep
          cases hstep
        · rw [if_neg hbad] at hstep
          rw [if_neg (by simp [(not_or.mp hbad).1, anyChar])]
          exact hstep
    | inside => exact hstep
    | escape => exact hstep

/-- Two readings on either side of the quotes: whatever one of them takes for an escape, the other
meets outside of its strings. -/
theorem opposite {s : PyStr} {p' q' : Phase}
    (hside : p = .inside ∧ q = .outside ∨ p = .outside ∧ q = .inside)
    (hp : run allowed p s = some p') (hq : run anyChar q s = some q') :
    92 ∉ s ∧ (p' = .inside ∧ q' = .outside ∨ p' = .outside ∧ q' = .inside) := by
  induction s generalizing p q with
  | nil =>
    obtain rfl := Option.some.inj hp
    obtain rfl := Option.some.inj hq
    exact ⟨List.not_mem_nil, hside⟩
  | cons c s ih =>
    rw [run_cons, Option.bind_eq_some_iff] at hp hq
    obtain ⟨r, hstep, hp⟩ := hp
    obtain ⟨t, hstep', hq⟩ := hq
    have hnext : c ≠ 92 ∧ (r = .inside ∧ t = .outside ∨ r = .outside ∧ t = .inside) := by
      rcases hside with ⟨rfl, rfl⟩ | ⟨rfl, rfl⟩
      · simp only [step] at hstep hstep'
        split_ifs at hstep hstep' <;> simp_all
      · simp only [step] at hstep hstep'
        split_ifs at hstep hstep' <;> simp_all
    obtain ⟨hrest, hside'⟩ := ih hnext.2 hp hq
    exact ⟨by simp [hrest, hnext.1.symm], hside'⟩

end Phase

open Phase

/-! ## Written text -/

theorem run_escapeChar {allowed : ℕ → Bool} (c : ℕ) :
    run allowed .inside (escapeChar c) = some .inside := by
  unfold escapeChar
  split_ifs with h₁ h₂ h₃ h₄ h₅ h₆ h₇ h₈
  iterate 7 rfl
  · have hdigit : ∀ d, hexDigit d ≠ 34 ∧ hexDigit d ≠ 92 := by
      intro d
      unfold hexDigit
      split_ifs <;> omega
    have hdigits : Unquoted [48, 48, hexDigit (c / 16), hexDigit (c % 16)] := by
      simp [Unquoted, hdigit]
    rw [show [92, 117, 48, 48, hexDigit (c / 16), hexDigit (c % 16)] =
      [92, 117] ++ [48, 48, hexDigit (c / 16), hexDigit (c % 16)] from rfl]
    rw [run_append_of (q := .inside) rfl]
    exact run_unquoted_inside hdigits
  · rw [run_cons, step, if_neg h₁, if_neg h₂]
    rfl

theorem run_quote {allowed : ℕ → Bool} (s : PyStr) :
    run allowed .outside (quote s) = some .outside := by
  have hescape : run allowed .inside (escape s) = some .inside := by
    induction s with
    | nil => rfl
    | cons c s ih =>
      rw [escape, List.flatMap_cons, run_append_of (run_escapeChar c)]
      exact ih
  rw [quote, List.cons_append, run_cons, step, if_pos rfl, Option.bind_some, run_append_of hescape]
  rfl

section Rendering

variable {F : Type} [PyFloat F]

theorem run_word {w : PyStr} (h : ∀ c ∈ w, (c ≠ 34 ∧ c ≠ 92) ∧ isAscii c = true) :
    run isAscii .outside w = some .outside :=
  run_unquoted_outside (fun c hc => (h c hc).1) fun c hc => (h c hc).2

theorem run_numeric {w : PyStr} (h : ∀ c ∈ w, isNumeric c = true) :
    run isAscii .outside w = some .outside := by
  refine run_word fun c hc => ?_
  have hnumeric := h c hc
  simp only [isNumeric, isDigit, Bool.or_eq_true, Bool.and_eq_true, decide_eq_true_eq,
    beq_iff_eq] at hnumeric
  simp only [isAscii, decide_eq_true_eq]
  omega

mutual

/-- Written text ends outside of its strings, and outside of them it is ASCII. -/
theorem run_renderSpaced : ∀ j : Json F, j.Finite →
    run isAscii .outside (renderSpaced j) = some .outside
  | .null, _ => by
    rw [renderSpaced]
    exact run_word (by decide)
  | .bool true, _ => by
    rw [renderSpaced]
    exact run_word (by decide)
  | .bool false, _ => by
    rw [renderSpaced]
    exact run_word (by decide)
  | .int n, _ => run_numeric (scanNumber_numeric (scanNumber_intText n))
  | .float x, hx => by
    rw [renderSpaced, floatText_finite hx]
    exact run_numeric (scanNumber_numeric (PyFloat.scan_repr x hx))
  | .str s, _ => run_quote s
  | .arr [], _ => by
    rw [renderSpaced]
    exact run_word (by decide)
  | .arr (x :: xs), h => by
    rw [renderSpaced, ← List.singleton_append, run_append_of (q := .outside)]
    · exact run_renderSpacedElems xs h.2
    · rw [run_append_of (q := .outside) rfl]
      exact run_renderSpaced x h.1
  | .obj [], _ => by
    rw [renderSpaced]
    exact run_word (by decide)
  | .obj ((k, v) :: kvs), h => by
    rw [renderSpaced, run_append_of (q := .outside)]
    · exact run_renderSpacedMembers kvs h.2
    · rw [← List.singleton_append, List.append_assoc, run_append_of (q := .outside) rfl,
        run_append_of (run_quote k)]
      exact run_renderSpaced v h.1

theorem run_renderSpacedElems : ∀ xs : List (Json F), FiniteElems xs →
    run isAscii .outside (renderSpacedElems xs) = some .outside
  | [], _ => by
    rw [renderSpacedElems]
    exact run_word (by decide)
  | x :: xs, h => by
    rw [renderSpacedElems, run_append_of (q := .outside)]
    · exact run_renderSpacedElems xs h.2
    · exact run_renderSpaced x h.1

theorem run_renderSpacedMembers : ∀ kvs : List (PyStr × Json F), FiniteMembers kvs →
    run isAscii .outside (renderSpacedMembers kvs) = some .outside
  | [], _ => by
    rw [renderSpacedMembers]
    exact run_word (by decide)
  | (k, v) :: kvs, h => by
    rw [renderSpacedMembers, run_append_of (q := .outside)]
    · exact run_renderSpacedMembers kvs h.2
    · rw [show 44 :: 32 :: quote k ++ 58 :: 32 :: renderSpaced v =
        [44, 32] ++ (quote k ++ 58 :: 32 :: renderSpaced v) from rfl,
        run_append_of (q := .outside) rfl, run_append_of (run_quote k)]
      exact run_renderSpaced v h.1

end

end Rendering

/-! ## Read text -/

section Reading

theorem hexValue_unquoted {c d : ℕ} (h : hexValue c = some d) : c ≠ 34 ∧ c ≠ 92 := by
  unfold hexValue at h
  split_ifs at h <;> omega

theorem scanHex4_run {s r : PyStr} {u : ℕ} (h : scanHex4 s = some (u, r)) :
    ∃ w, s = w ++ r ∧ run anyChar .inside w = some .inside := by
  match s with
  | [] | [_] | [_, _] | [_, _, _] => simp [scanHex4] at h
  | a :: b :: c :: d :: s =>
    simp only [scanHex4] at h
    split at h
    · rename_i ha hb hc hd
      cases h
      refine ⟨[a, b, c, d], rfl, run_unquoted_inside ?_⟩
      simp [Unquoted, hexValue_unquoted ha, hexValue_unquoted hb, hexValue_unquoted hc,
        hexValue_unquoted hd]
    · cases h

theorem scanUnicodeEscape_run {s r : PyStr} {u : ℕ} (h : scanUnicodeEscape s = some (u, r)) :
    ∃ w, s = w ++ r ∧ run anyChar .inside w = some .inside := by
  unfold scanUnicodeEscape at h
  cases hx : scanHex4 s with
  | none => simp [hx] at h
  | some q =>
    obtain ⟨w, hw, hrun⟩ := scanHex4_run hx
    rw [hx] at h
    simp only at h
    split_ifs at h with hu
    · cases hl : scanLowSurrogate q.2 with
      | none =>
        rw [hl] at h
        cases h
        exact ⟨w, hw, hrun⟩
      | some l =>
        rw [hl] at h
        obtain ⟨rfl, rfl⟩ := Prod.mk.inj (Option.some.inj h)
        match hq : q.2 with
        | [] | [_] => simp [hq, scanLowSurrogate] at hl
        | a :: b :: t =>
          rw [hq, scanLowSurrogate] at hl
          split_ifs at hl with hab
          obtain ⟨rfl, rfl⟩ := hab
          cases hy : scanHex4 t with
          | none => simp [hy] at hl
          | some z =>
            rw [hy] at hl
            simp only at hl
            split_ifs at hl
            cases hl
            obtain ⟨w', hw', hrun'⟩ := scanHex4_run hy
            refine ⟨w ++ (92 :: 117 :: w'), ?_, ?_⟩
            · rw [hw, hq, hw', List.append_assoc]
              rfl
            · rw [run_append_of hrun]
              exact hrun'
    · cases h
      exact ⟨w, hw, hrun⟩

theorem scanEscape_run {s r : PyStr} {u : ℕ} (h : scanEscape s = some (u, r)) :
    ∃ w, s = w ++ r ∧ run anyChar .escape w = some .inside := by
  cases s with
  | nil => simp [scanEscape] at h
  | cons c s =>
    simp only [scanEscape] at h
    split_ifs at h with h₁ h₂ h₃ h₄ h₅ h₆ h₇ h₈ h₉
    iterate 8
      · cases h
        subst_vars
        exact ⟨[_], rfl, rfl⟩
    · subst h₉
      obtain ⟨w, rfl, hrun⟩ := scanUnicodeEscape_run h
      exact ⟨117 :: w, rfl, hrun⟩

/-- A string literal is read to its closing quote; without a backslash it is read as it stands. -/
theorem scanString_run {n : ℕ} {s u r : PyStr} (h : scanString n s = some (u, r)) :
    ∃ w, s = w ++ r ∧ run anyChar .inside w = some .outside ∧ (92 ∉ s → ∀ c ∈ u, c ∈ w) := by
  induction n generalizing s u with
  | zero => simp [scanString] at h
  | succ n ih =>
    cases s with
    | nil => simp [scanString] at h
    | cons c s =>
      rw [scanString] at h
      split_ifs at h with hquote hback hlow
      · cases h
        exact ⟨[34], by rw [hquote]; rfl, rfl, by simp⟩
      · cases hescape : scanEscape s with
        | none => simp [hescape] at h
        | some q =>
          rw [hescape] at h
          obtain ⟨⟨v, t⟩, hrest, hvt⟩ := Option.map_eq_some_iff.mp h
          cases hvt
          obtain ⟨w, hw, hrun⟩ := scanEscape_run hescape
          obtain ⟨w', hw', hrun', -⟩ := ih hrest
          refine ⟨92 :: w ++ w', ?_, ?_, ?_⟩
          · rw [hback, hw, hw', List.cons_append, List.cons_append, List.append_assoc]
          · rw [List.cons_append, run_cons, step, if_neg (by decide), if_pos rfl,
              Option.bind_some, run_append_of hrun, hrun']
          · simp [hback]
      · obtain ⟨⟨v, t⟩, hrest, hvt⟩ := Option.map_eq_some_iff.mp h
        cases hvt
        obtain ⟨w, hw, hrun, hchars⟩ := ih hrest
        refine ⟨c :: w, by rw [hw]; rfl, ?_, ?_⟩
        · rw [run_cons, step, if_neg hquote, if_neg hback, Option.bind_some, hrun]
        · intro hnot d hd
          rw [List.mem_cons, not_or] at hnot
          rcases List.mem_cons.mp hd with rfl | hd
          · exact List.mem_cons_self
          · exact List.mem_cons_of_mem _ (hchars hnot.2 d hd)

/-- A reader went from one text to what is left of it, and took these characters for texts. -/
structure Consumed (s r : PyStr) (cs : List ℕ) : Prop where
  exists_run : ∃ w, s = w ++ r ∧ run anyChar .outside w = some .outside ∧
    (92 ∉ s → ∀ c ∈ cs, c ∈ w)

theorem Consumed.trans {s t r : PyStr} {cs ds : List ℕ} (h : Consumed s t cs)
    (h' : Consumed t r ds) : Consumed s r (cs ++ ds) := by
  obtain ⟨w, rfl, hrun, hchars⟩ := h
  obtain ⟨w', rfl, hrun', hchars'⟩ := h'
  refine ⟨w ++ w', (List.append_assoc _ _ _).symm, ?_, ?_⟩
  · rw [run_append_of hrun, hrun']
  · intro hnot c hc
    have hsplit : 92 ∉ w' ++ r := fun hmem => hnot (List.mem_append_right _ hmem)
    rcases List.mem_append.mp hc with hc | hc
    · exact List.mem_append_left _ (hchars hnot c hc)
    · exact List.mem_append_right _ (hchars' hsplit c hc)

theorem Consumed.of_unquoted {w : PyStr} (h : Unquoted w) (r : PyStr) : Consumed (w ++ r) r [] :=
  ⟨w, rfl, run_unquoted_outside h fun _ _ => rfl, by simp⟩

theorem Consumed.char {c : ℕ} (h : c ≠ 34 ∧ c ≠ 92) (r : PyStr) : Consumed (c :: r) r [] :=
  Consumed.of_unquoted (w := [c]) (by simpa [Unquoted] using h) r

theorem Consumed.skipWs (s : PyStr) : Consumed s (JsonText.skipWs s) [] := by
  have hsplit : s.takeWhile isWs ++ JsonText.skipWs s = s := List.takeWhile_append_dropWhile
  have hws : Unquoted (s.takeWhile isWs) := by
    intro c hc
    have hc := List.all_eq_true.mp List.all_takeWhile c hc
    constructor <;> (rintro rfl; cases hc)
  have h := Consumed.of_unquoted hws (JsonText.skipWs s)
  rwa [hsplit] at h

theorem Consumed.string {n : ℕ} {s u r : PyStr} (h : scanString n s = some (u, r)) :
    Consumed (34 :: s) r u := by
  obtain ⟨w, rfl, hrun, hchars⟩ := scanString_run h
  refine ⟨34 :: w, rfl, ?_, ?_⟩
  · rw [run_cons, step, if_pos rfl, Option.bind_some, hrun]
  · intro hnot c hc
    rw [List.mem_cons, not_or] at hnot
    exact List.mem_cons_of_mem _ (hchars hnot.2 c hc)

theorem scanNumber_split {s tok r : PyStr} {fl : Bool} (h : scanNumber s = some (tok, fl, r)) :
    s = tok ++ r := by
  have hminus : (scanMinus s).1 ++ (scanMinus s).2 = s := by
    cases s with
    | nil => rfl
    | cons c s =>
      rw [scanMinus]
      split_ifs <;> rfl
  have hint : ∀ {t i u : PyStr}, scanInt t = some (i, u) → i ++ u = t := by
    intro t i u hi
    cases t with
    | nil => simp [scanInt] at hi
    | cons c t =>
      rw [scanInt] at hi
      split_ifs at hi with hzero
      · cases hi
        rw [hzero]
        rfl
      · cases hi
        rw [List.cons_append, List.takeWhile_append_dropWhile]
  have hfrac : ∀ t : PyStr, (scanFrac t).1 ++ (scanFrac t).2 = t := by
    rintro (_ | ⟨c, _ | ⟨d, t⟩⟩)
    · rfl
    · rfl
    · rw [scanFrac]
      split_ifs
      · rw [List.cons_append, List.cons_append, List.takeWhile_append_dropWhile]
      · rfl
  have hexp : ∀ t : PyStr, (scanExp t).1 ++ (scanExp t).2 = t := by
    intro t
    cases t with
    | nil => rfl
    | cons c t =>
      have hsign : (scanExpSign t).1 ++ (scanExpSign t).2 = t := by
        cases t with
        | nil => rfl
        | cons d t =>
          rw [scanExpSign]
          split_ifs <;> rfl
      rw [scanExp]
      split_ifs
      · rw [List.append_assoc, List.takeWhile_append_dropWhile, List.cons_append, hsign]
      · rfl
  unfold scanNumber at h
  split at h
  · cases h
  · next i u hi =>
    cases h
    rw [List.append_assoc, List.append_assoc, List.append_assoc, hexp, hfrac, hint hi, hminus]

theorem Consumed.word {w s r : PyStr} (hw : Unquoted w) (h : scanWord w s = some r) :
    Consumed s r [] := by
  rw [scanWord_eq_some.mp h]
  exact Consumed.of_unquoted hw r

variable {F : Type} [PyFloat F]

/-- Words and numbers have no texts. -/
theorem scanAtom_consumed {s r : PyStr} {v : Json F} (h : scanAtom s = some (v, r)) :
    Consumed s r (chars v) := by
  unfold scanAtom at h
  split at h
  · next hword =>
    cases h
    exact .word (by unfold Unquoted; decide) hword
  split at h
  · next hword =>
    cases h
    exact .word (by unfold Unquoted; decide) hword
  split at h
  · next hword =>
    cases h
    exact .word (by unfold Unquoted; decide) hword
  split at h
  · next p hnumber =>
    obtain ⟨tok, fl, rest⟩ := p
    cases h
    have hunquoted : Unquoted tok := by
      intro c hc
      have hnumeric := scanNumber_numeric hnumber c hc
      constructor <;> (rintro rfl; cases hnumeric)
    have hconsumed := Consumed.of_unquoted hunquoted rest
    rw [← scanNumber_split hnumber] at hconsumed
    cases fl <;> exact hconsumed
  split at h
  · next hword =>
    cases h
    exact .word (by unfold Unquoted; decide) hword
  split at h
  · next hword =>
    cases h
    exact .word (by unfold Unquoted py; decide) hword
  split at h
  · next hword =>
    cases h
    exact .word (by unfold Unquoted py; decide) hword
  · cases h

/-- The three readers, one unit of fuel at a time. -/
theorem scan_consumed (n : ℕ) :
    (∀ (s : PyStr) (v : Json F) r, scanValue n s = some (v, r) → Consumed s r (chars v)) ∧
    (∀ (s : PyStr) (ms : List (PyStr × Json F)) r, scanMembers n s = some (ms, r) →
      Consumed s r (charsMembers ms)) ∧
    (∀ (s : PyStr) (xs : List (Json F)) r, scanElems n s = some (xs, r) →
      Consumed s r (charsElems xs)) := by
  induction n with
  | zero => simp [scanValue, scanMembers, scanElems]
  | succ n ih =>
    obtain ⟨ihv, ihm, ihe⟩ := ih
    refine ⟨?_, ?_, ?_⟩
    · intro s v r h
      cases s with
      | nil => simp [scanValue] at h
      | cons c s =>
        rw [scanValue] at h
        split_ifs at h with hquote hbrace hbracket
        · obtain ⟨⟨u, t⟩, hstring, hut⟩ := Option.map_eq_some_iff.mp h
          cases hut
          rw [hquote]
          exact .string hstring
        · have hopen : Consumed (c :: s) (skipWs s) [] :=
            (Consumed.char (by omega) s).trans (.skipWs s)
          cases hs : skipWs s with
          | nil => simp [hs] at h
          | cons d t =>
            rw [hs] at h hopen
            simp only at h
            split_ifs at h with hclose
            · cases h
              exact hopen.trans (.char (by omega) _)
            · obtain ⟨⟨ms, t'⟩, hmembers, hmt⟩ := Option.map_eq_some_iff.mp h
              cases hmt
              exact hopen.trans (ihm _ _ _ hmembers)
        · have hopen : Consumed (c :: s) (skipWs s) [] :=
            (Consumed.char (by omega) s).trans (.skipWs s)
          cases hs : skipWs s with
          | nil => simp [hs] at h
          | cons d t =>
            rw [hs] at h hopen
            simp only at h
            split_ifs at h with hclose
            · cases h
              exact hopen.trans (.char (by omega) _)
            · obtain ⟨⟨xs, t'⟩, helems, hxt⟩ := Option.map_eq_some_iff.mp h
              cases hxt
              exact hopen.trans (ihe _ _ _ helems)
        · exact scanAtom_consumed h
    · intro s ms r h
      cases s with
      | nil => simp [scanMembers] at h
      | cons c s =>
        rw [scanMembers] at h
        split_ifs at h with hquote
        cases hkey : scanString s.length s with
        | none => simp [hkey] at h
        | some p =>
        obtain ⟨k, t⟩ := p
        have hname : Consumed (c :: s) (skipWs t) k := by
          rw [hquote]
          simpa using (Consumed.string hkey).trans (.skipWs t)
        simp only [hkey] at h
        cases ht : skipWs t with
        | nil => simp [ht] at h
        | cons d u =>
        rw [ht] at h hname
        simp only at h
        split_ifs at h with hcolon
        cases hvalue : scanValue (F := F) n (skipWs u) with
        | none => simp [hvalue] at h
        | some q =>
        obtain ⟨v, w⟩ := q
        have hmember : Consumed (c :: s) (skipWs w) (k ++ chars v) := by
          have hgap := (Consumed.char (c := d) (by omega) u).trans (.skipWs u)
          simpa using ((hname.trans hgap).trans (ihv _ _ _ hvalue)).trans (.skipWs w)
        simp only [hvalue] at h
        cases hw : skipWs w with
        | nil => simp [hw] at h
        | cons e z =>
        rw [hw] at h hmember
        simp only at h
        split_ifs at h with hclose hcomma
        · cases h
          simpa [charsMembers] using hmember.trans (.char (c := e) (by omega) _)
        · obtain ⟨⟨ms', t'⟩, hmembers, hmt⟩ := Option.map_eq_some_iff.mp h
          cases hmt
          have hgap := (Consumed.char (c := e) (by omega) z).trans (.skipWs z)
          simpa [charsMembers] using (hmember.trans hgap).trans (ihm _ _ _ hmembers)
    · intro s xs r h
      rw [scanElems] at h
      cases hvalue : scanValue (F := F) n s with
      | none => simp [hvalue] at h
      | some q =>
      obtain ⟨v, w⟩ := q
      have helem : Consumed s (skipWs w) (chars v) := by
        simpa using (ihv _ _ _ hvalue).trans (.skipWs w)
      simp only [hvalue] at h
      cases hw : skipWs w with
      | nil => simp [hw] at h
      | cons e z =>
      rw [hw] at h helem
      simp only at h
      split_ifs at h with hclose hcomma
      · cases h
        simpa [charsElems] using helem.trans (.char (c := e) (by omega) _)
      · obtain ⟨⟨xs', t'⟩, helems, hxt⟩ := Option.map_eq_some_iff.mp h
        cases hxt
        have hgap := (Consumed.char (c := e) (by omega) z).trans (.skipWs z)
        simpa [charsElems] using (helem.trans hgap).trans (ihe _ _ _ helems)

/-- Text that is read ends outside of its strings, and without a backslash every text read from it
stands in it. -/
theorem run_of_loads {s : PyStr} {v : Json F} (h : loads s = some v) :
    run anyChar .outside s = some .outside ∧ (92 ∉ s → ∀ c ∈ chars v, c ∈ s) := by
  rw [loads, Option.map_eq_some_iff] at h
  obtain ⟨v, hparse, rfl⟩ := h
  unfold parse at hparse
  split_ifs at hparse
  cases hscan : scanValue (F := F) (s.length + 1) (skipWs s) with
  | none => simp [hscan] at hparse
  | some p =>
    obtain ⟨v', r⟩ := p
    rw [hscan] at hparse
    simp only at hparse
    split_ifs at hparse with hrest
    cases hparse
    have hread := ((Consumed.skipWs s).trans ((scan_consumed _).1 _ _ _ hscan)).trans (.skipWs r)
    rw [hrest] at hread
    obtain ⟨w, hw, hrun, hchars⟩ := hread
    rw [List.append_nil] at hw
    subst hw
    refine ⟨hrun, fun hback c hc => hchars hback c ?_⟩
    simpa using chars_dedup v c hc

end Reading

/-! ## Cut texts -/

section Cuts

variable {cut : ℕ → Bool}

theorem cut_notMem {s piece : PyStr} (h : piece ∈ s.splitOnP cut) : ∀ c ∈ piece, cut c = false := by
  induction s generalizing piece with
  | nil =>
    rw [List.splitOnP_nil, List.mem_singleton] at h
    simp [h]
  | cons d s ih =>
    rw [List.splitOnP_cons_eq_if_modifyHead] at h
    cases hpieces : s.splitOnP cut with
    | nil => exact absurd hpieces (List.splitOnP_ne_nil cut s)
    | cons first rest =>
      rw [hpieces] at h
      by_cases hd : cut d = true
      · rw [if_pos hd, List.mem_cons, ← hpieces] at h
        rcases h with rfl | h
        · simp
        · exact ih h
      · rw [if_neg hd, List.modifyHead_cons, List.mem_cons] at h
        rcases h with rfl | h
        · refine List.forall_mem_cons.mpr ⟨by simpa using hd, ih ?_⟩
          rw [hpieces]
          exact List.mem_cons_self
        · exact ih (hpieces ▸ List.mem_cons_of_mem _ h)

/-- Where only characters of strings are cut at, every piece but the first begins inside a string,
and every piece but the last ends inside one. -/
theorem pieces_run {s : PyStr} (hcut : ∀ c ∈ s, cut c = true → 128 ≤ c) {p q : Phase}
    (h : run isAscii p s = some q) :
    ∃ first rest r, s.splitOnP cut = first :: rest ∧ run isAscii p first = some r ∧
      ((∀ c ∈ s, cut c = false) ∨ r = .inside) ∧
      ∀ piece ∈ rest, ∃ r, run isAscii .inside piece = some r := by
  induction s generalizing p with
  | nil => exact ⟨[], [], p, rfl, rfl, .inl (by simp), by simp⟩
  | cons d s ih =>
    obtain ⟨hd, hcut⟩ := List.forall_mem_cons.mp hcut
    rw [run_cons, Option.bind_eq_some_iff] at h
    obtain ⟨t, hstep, hrest⟩ := h
    obtain ⟨first, rest, r, hpieces, hfirst, hend, hall⟩ := ih hcut hrest
    rw [List.splitOnP_cons_eq_if_modifyHead, hpieces]
    by_cases hdcut : cut d = true
    · have hlarge := hd hdcut
      have hinside : p = .inside ∧ t = .inside := by
        cases p with
        | outside =>
          rw [step, if_neg (by omega), if_pos (.inr (by simp [isAscii]; omega))] at hstep
          cases hstep
        | inside =>
          rw [step, if_neg (by omega), if_neg (by omega)] at hstep
          exact ⟨rfl, (Option.some.inj hstep).symm⟩
        | escape =>
          rw [step, if_pos (.inl hlarge)] at hstep
          cases hstep
      refine ⟨[], first :: rest, p, by rw [if_pos hdcut], rfl, .inr hinside.1, ?_⟩
      exact List.forall_mem_cons.mpr ⟨⟨r, hinside.2 ▸ hfirst⟩, hall⟩
    · refine ⟨d :: first, rest, r, by rw [if_neg hdcut, List.modifyHead_cons], ?_, ?_, hall⟩
      · rw [run_cons, hstep, Option.bind_some, hfirst]
      · refine hend.imp_left fun hnone => ?_
        exact List.forall_mem_cons.mpr ⟨by simpa using hdcut, hnone⟩

/-- A piece of a cut text that ends outside of its strings, read from outside, has no backslash. -/
theorem backslash_notMem {s piece : PyStr} (hcut : ∀ c ∈ s, cut c = true → 128 ≤ c)
    (hsep : ∃ c ∈ s, cut c = true) (h : run isAscii .outside s = some .outside)
    (hpiece : piece ∈ s.splitOnP cut) (hread : run anyChar .outside piece = some .outside) :
    92 ∉ piece := by
  obtain ⟨first, rest, r, hpieces, hfirst, hend, hall⟩ := pieces_run hcut h
  rw [hpieces] at hpiece
  rcases List.mem_cons.mp hpiece with rfl | hpiece
  · exfalso
    rcases hend with hnone | rfl
    · obtain ⟨c, hc, hcc⟩ := hsep
      rw [hnone c hc] at hcc
      cases hcc
    · have hinside := run_anyChar hfirst
      rw [hread] at hinside
      cases hinside
  · obtain ⟨r, hrun⟩ := hall piece hpiece
    exact (opposite (.inl ⟨rfl, rfl⟩) hrun hread).1

end Cuts

end JsonText
