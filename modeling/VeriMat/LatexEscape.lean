import VeriMat.PyDict
import VeriMat.PyText

/-! # Escaping for LaTeX

`latex_escape` of `survey/report.py` replaces the characters of a table by LaTeX of their own and
then escapes what LaTeX reads specially, in the replacements as in the text. -/
namespace LatexEscape

open PyText

/-- `_LATEX_ESCAPES`. -/
def latexEscapes : List (ℕ × PyStr) :=
  [(92, py "\\textbackslash\x7b\x7d"), (38, py "\\&"), (37, py "\\%"), (36, py "\\$"),
    (35, py "\\#"), (95, py "\\_"), (123, py "\\\x7b"), (125, py "\\\x7d"),
    (126, py "\\textasciitilde\x7b\x7d"), (94, py "\\textasciicircum\x7b\x7d")]

/-- `_TRANSLATIONS`. -/
def translations : List (ℕ × PyStr) :=
  [(0x2010, py "-"), (0x2011, py "-"), (0x2012, py "--"), (0x2013, py "--"), (0x2014, py "---"),
    (0x2018, py "`"), (0x2019, py "'"), (0x201C, py "``"), (0x201D, py "''"),
    (0x2032, py "$'$"), (0x2033, py "$''$"), (0x00B0, py "\\textdegree\x7b\x7d"),
    (0x2212, py "$-$"), (0x00D7, py "$\\times$"), (0x00B7, py "$\\cdot$"),
    (0x2026, py "\\ldots\x7b\x7d"), (0x2248, py "$\\approx$"), (0x2264, py "$\\leq$"),
    (0x2265, py "$\\geq$"), (0x2260, py "$\\neq$"), (0x00B1, py "$\\pm$"),
    (0x2192, py "$\\rightarrow$"), (0x2194, py "$\\leftrightarrow$"), (0x03B1, py "$\\alpha$"),
    (0x03B2, py "$\\beta$"), (0x03B3, py "$\\gamma$"), (0x03B4, py "$\\delta$"),
    (0x03BA, py "$\\kappa$"), (0x03BB, py "$\\lambda$"), (0x03BC, py "$\\mu$"),
    (0x03C3, py "$\\sigma$"), (0x03A9, py "$\\Omega$"), (0x00C5, py "\\AA\x7b\x7d"),
    (0x212B, py "\\AA\x7b\x7d"), (0x2080, py "$_0$"), (0x2081, py "$_1$"), (0x2082, py "$_2$"),
    (0x2083, py "$_3$"), (0x2084, py "$_4$"), (0x2085, py "$_5$"), (0x2086, py "$_6$"),
    (0x00B9, py "$^1$"), (0x00B2, py "$^2$"), (0x00B3, py "$^3$"), (0x00A0, py " ")]

/-- One character of `str.translate`. -/
def translateChar (c : ℕ) : PyStr := (translations.lookup c).getD [c]

/-- One character of `_LATEX_PATTERN.sub`. -/
def escapeChar (c : ℕ) : PyStr := (latexEscapes.lookup c).getD [c]

/-- `latex_escape` of a string. -/
def latexEscape (text : PyStr) : PyStr := (text.flatMap translateChar).flatMap escapeChar

/-- What a character is to become: its entry in the table as it stands there if it has one, and
its escape if LaTeX reads it specially. -/
def intendedChar (c : ℕ) : PyStr :=
  match translations.lookup c with
  | some entry => entry
  | none => escapeChar c

/-- The escaping takes texts apart character by character, and makes of each what is intended. -/
def EscapesAsIntended (text : PyStr) : Prop :=
  (∀ t, latexEscape (text ++ t) = latexEscape text ++ latexEscape t) ∧
    latexEscape text = text.flatMap intendedChar

/-- No character of the text has an entry LaTeX reads a character of specially. -/
def Untouched (text : PyStr) : Prop :=
  ∀ c ∈ text, ∀ entry, translations.lookup c = some entry →
    ∀ x ∈ entry, latexEscapes.lookup x = none

/-! ## Escapes -/

theorem latexEscape_eq (text : PyStr) :
    latexEscape text = text.flatMap fun c => (translateChar c).flatMap escapeChar := by
  rw [latexEscape, List.flatMap_assoc]

theorem latexEscape_append (s t : PyStr) :
    latexEscape (s ++ t) = latexEscape s ++ latexEscape t := by
  rw [latexEscape, List.flatMap_append, List.flatMap_append, latexEscape, latexEscape]

/-! ## Replacing character by character -/

section Replace
variable {α β : Type} {f g : α → List β} {s : List α}

theorem length_flatMap_le (h : ∀ c, (g c).length ≤ (f c).length) :
    (s.flatMap g).length ≤ (s.flatMap f).length := by
  induction s with
  | nil => exact le_rfl
  | cons c s ih =>
    rw [List.flatMap_cons, List.flatMap_cons, List.length_append, List.length_append]
    exact Nat.add_le_add (h c) ih

/-- Replacements one of which is never shorter agree on a text only if they agree on every
character of it. -/
theorem flatMap_eq_iff (h : ∀ c, (g c).length ≤ (f c).length) :
    s.flatMap f = s.flatMap g ↔ ∀ c ∈ s, f c = g c := by
  induction s with
  | nil => simp
  | cons c s ih =>
    rw [List.flatMap_cons, List.flatMap_cons, List.forall_mem_cons, ← ih]
    constructor
    · intro heq
      have hlength := congrArg List.length heq
      rw [List.length_append, List.length_append] at hlength
      have hhead := h c
      have htail := length_flatMap_le h (s := s)
      exact List.append_inj heq (by omega)
    · rintro ⟨hhead, htail⟩
      rw [hhead, htail]

end Replace

/-! ## When the escaping is as intended -/

theorem latexEscapes_long : ∀ p ∈ latexEscapes, 2 ≤ p.2.length := by decide

/-- An escape is longer than the character it stands for. -/
theorem length_escapeChar (c : ℕ) : 1 ≤ (escapeChar c).length := by
  unfold escapeChar
  cases h : latexEscapes.lookup c with
  | none => exact le_rfl
  | some e => exact le_trans (by decide) (latexEscapes_long _ (PyDict.mem_of_lookup h))

theorem escapeChar_eq_self (c : ℕ) : escapeChar c = [c] ↔ latexEscapes.lookup c = none := by
  unfold escapeChar
  cases h : latexEscapes.lookup c with
  | none => simp
  | some e =>
    have hlong : 2 ≤ e.length := latexEscapes_long _ (PyDict.mem_of_lookup h)
    simp only [Option.getD_some, reduceCtorEq, iff_false]
    rintro rfl
    simp at hlong

/-- A text without special characters is its own escape. -/
theorem flatMap_escapeChar_eq_self (entry : PyStr) :
    entry.flatMap escapeChar = entry ↔ ∀ x ∈ entry, latexEscapes.lookup x = none := by
  have hself : entry.flatMap (fun x => [x]) = entry := List.flatMap_singleton' entry
  conv_lhs => rhs; rw [← hself]
  rw [flatMap_eq_iff length_escapeChar]
  simp only [escapeChar_eq_self]

theorem length_intendedChar (c : ℕ) :
    (intendedChar c).length ≤ ((translateChar c).flatMap escapeChar).length := by
  unfold intendedChar translateChar
  cases translations.lookup c with
  | none => simp
  | some entry =>
    have hself : entry.flatMap (fun x => [x]) = entry := List.flatMap_singleton' entry
    have hle : (entry.flatMap fun x => [x]).length ≤ (entry.flatMap escapeChar).length :=
      length_flatMap_le length_escapeChar
    rw [hself] at hle
    exact hle

/-- A character becomes what is intended unless its entry is escaped in turn. -/
theorem escaped_eq_intended (c : ℕ) :
    (translateChar c).flatMap escapeChar = intendedChar c ↔
      ∀ entry, translations.lookup c = some entry →
        ∀ x ∈ entry, latexEscapes.lookup x = none := by
  unfold intendedChar translateChar
  cases h : translations.lookup c with
  | none => simp
  | some entry => simp [flatMap_escapeChar_eq_self]

/-- A text is escaped as intended exactly when no entry it needs is escaped in turn. -/
theorem escapesAsIntended_iff (text : PyStr) : EscapesAsIntended text ↔ Untouched text := by
  unfold EscapesAsIntended Untouched
  rw [and_iff_right (latexEscape_append text), latexEscape_eq, flatMap_eq_iff length_intendedChar]
  simp only [escaped_eq_intended]

/-- The letter kappa becomes the text of a command instead of the command. -/
theorem not_escapesAsIntended_kappa : ¬EscapesAsIntended [0x03BA] := by
  rintro ⟨_, h⟩
  exact absurd h (by decide)

end LatexEscape
