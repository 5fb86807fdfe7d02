import VeriMat.PyText

/-! # POSIX paths

`pathlib.PurePosixPath`: what the spelling of a path comes down to, and the text it is shown as. -/
namespace PosixPath

open PyText

structure Path where
  absolute : Bool
  parts : List PyStr
  deriving DecidableEq, Repr

/-- `Path(text)`: empty parts and single dots drop out. -/
def parse (text : PyStr) : Path where
  absolute := text.head? == some 47
  parts := (text.splitOn 47).filter fun part => decide (part ≠ [] ∧ part ≠ [46])

/-- `path / other`. -/
def Path.join (path other : Path) : Path :=
  if other.absolute then other else ⟨path.absolute, path.parts ++ other.parts⟩

/-- `".."`. -/
def parent : PyStr := [46, 46]

/-- `as_posix` of a relative path. -/
def posixText : List PyStr → PyStr
  | [] => [46]
  | part :: parts => [47].intercalate (part :: parts)

/-- A part of a path as `pathlib` keeps it. -/
def Plain (part : PyStr) : Prop := part ≠ [] ∧ part ≠ [46] ∧ 47 ∉ part

/-- What a directory can have as a name. -/
def ValidName (name : PyStr) : Prop := Plain name ∧ name ≠ parent ∧ 0 ∉ name

instance (part : PyStr) : Decidable (Plain part) := inferInstanceAs (Decidable (_ ∧ _ ∧ _))

instance (name : PyStr) : Decidable (ValidName name) := inferInstanceAs (Decidable (_ ∧ _ ∧ _))

theorem separator_not_mem (text : PyStr) : ∀ part ∈ text.splitOn 47, 47 ∉ part := by
  induction text with
  | nil => simp
  | cons c text ih =>
    rw [List.splitOn_cons_eq_if_modifyHead]
    split
    · exact List.forall_mem_cons.mpr ⟨List.not_mem_nil, ih⟩
    · next hc =>
      cases hparts : text.splitOn 47 with
      | nil => simp
      | cons part parts =>
        rw [hparts] at ih
        obtain ⟨hpart, hparts⟩ := List.forall_mem_cons.mp ih
        rw [List.modifyHead_cons]
        refine List.forall_mem_cons.mpr ⟨?_, hparts⟩
        rw [List.mem_cons, not_or]
        exact ⟨fun heq => hc (by simp [← heq]), hpart⟩

theorem plain_parse (text : PyStr) : ∀ part ∈ (parse text).parts, Plain part := by
  intro part hpart
  obtain ⟨hmem, hkept⟩ := List.mem_filter.mp hpart
  obtain ⟨hempty, hdot⟩ := of_decide_eq_true hkept
  exact ⟨hempty, hdot, separator_not_mem text part hmem⟩

theorem splitOn_posixText {parts : List PyStr} (h : ∀ part ∈ parts, Plain part)
    (hne : parts ≠ []) : (posixText parts).splitOn 47 = parts := by
  cases parts with
  | nil => exact absurd rfl hne
  | cons part parts => exact List.splitOn_intercalate 47 (fun p hp => (h p hp).2.2) hne

/-- The text tells paths apart. -/
theorem posixText_injective {p q : List PyStr} (hp : ∀ part ∈ p, Plain part)
    (hq : ∀ part ∈ q, Plain part) (h : posixText p = posixText q) : p = q := by
  have hdot : (posixText []).splitOn 47 = [[46]] := by decide
  have hempty : ∀ r : List PyStr, (∀ part ∈ r, Plain part) → posixText [] = posixText r →
      r = [] := by
    intro r hr heq
    by_contra hne
    rw [heq, splitOn_posixText hr hne] at hdot
    rw [hdot] at hr
    exact (hr [46] (List.mem_singleton_self _)).2.1 rfl
  by_cases hpe : p = []
  · subst hpe
    exact (hempty q hq h).symm
  by_cases hqe : q = []
  · subst hqe
    exact hempty p hp h.symm
  rw [← splitOn_posixText hp hpe, h, splitOn_posixText hq hqe]

/-- A name without a separator is one part. -/
theorem parse_name {name : PyStr} (h : Plain name) : parse name = ⟨false, [name]⟩ := by
  obtain ⟨hempty, hdot, hseparator⟩ := h
  have hparts : name.splitOn 47 = [name] := List.splitOn_eq_singleton hseparator
  have habsolute : (name.head? == some 47) = false := by
    cases name with
    | nil => exact absurd rfl hempty
    | cons c name =>
      have hne : c ≠ 47 := fun heq => hseparator (heq ▸ List.mem_cons_self)
      simp [hne]
  rw [parse, hparts, habsolute]
  simp [hempty, hdot]

end PosixPath
