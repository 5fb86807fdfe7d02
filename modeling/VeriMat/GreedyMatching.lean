import Mathlib

/-! # Greedy matching

Items choose in turn: each takes the closest of what is left and admissible to it, and goes without
where nothing is. Every item is paired or alone, nothing is taken twice, and no item would rather
have what nobody took or what a later one did. -/
namespace GreedyMatching

variable {α β : Type*} {admits : α → β → Prop} {closer : α → β → β → Prop}

/-- Items and what they choose from; the pairs, the items alone, and what is left. -/
inductive Greedy (admits : α → β → Prop) (closer : α → β → β → Prop) :
    List α → List β → List (α × β) → List α → List β → Prop
  | done (remaining : List β) : Greedy admits closer [] remaining [] [] remaining
  | alone {item : α} {items alone : List α} {remaining left : List β} {pairs : List (α × β)}
      (hnone : ∀ b ∈ remaining, ¬ admits item b)
      (h : Greedy admits closer items remaining pairs alone left) :
      Greedy admits closer (item :: items) remaining pairs (item :: alone) left
  | paired {item : α} {chosen : β} {items alone : List α} {before after left : List β}
      {pairs : List (α × β)} (hadmits : admits item chosen)
      (hclosest : ∀ b ∈ before ++ after, admits item b → ¬ closer item b chosen)
      (h : Greedy admits closer items (before ++ after) pairs alone left) :
      Greedy admits closer (item :: items) (before ++ chosen :: after) ((item, chosen) :: pairs)
        alone left

/-! ## The closest -/

/-- The first of the least elements: those before it are greater. -/
theorem argmin_split {γ : Type*} [LinearOrder γ] {f : β → γ} {l : List β} {m : β}
    (h : l.argmin f = some m) :
    ∃ before after, l = before ++ m :: after ∧ ∀ b ∈ before, f m < f b := by
  induction l with
  | nil => cases h
  | cons b l ih =>
    rw [List.argmin_cons] at h
    cases hrest : l.argmin f with
    | none =>
      rw [hrest] at h
      cases h
      exact ⟨[], l, rfl, List.forall_mem_nil _⟩
    | some c =>
      simp only [hrest] at h
      split_ifs at h with hless
      · cases h
        obtain ⟨before, after, rfl, hbefore⟩ := ih hrest
        exact ⟨b :: before, after, rfl, List.forall_mem_cons.mpr ⟨hless, hbefore⟩⟩
      · cases h
        exact ⟨[], l, rfl, List.forall_mem_nil _⟩

theorem eraseP_first {p : β → Bool} {before after : List β} {c : β}
    (hbefore : ∀ b ∈ before, ¬ p b = true) (hc : p c = true) :
    (before ++ c :: after).eraseP p = before ++ after := by
  rw [List.eraseP_append_right _ hbefore, List.eraseP_cons_of_pos hc]

/-! ## Runs -/

variable {items alone : List α} {remaining left : List β} {pairs : List (α × β)}

/-- What is chosen from is taken once or left. -/
theorem Greedy.remaining_perm (h : Greedy admits closer items remaining pairs alone left) :
    (pairs.map Prod.snd ++ left).Perm remaining := by
  induction h with
  | done remaining => exact List.Perm.refl remaining
  | alone hnone h ih => exact ih
  | paired hadmits hclosest h ih => exact (ih.cons _).trans List.perm_middle.symm

theorem Greedy.pair_mem_remaining (h : Greedy admits closer items remaining pairs alone left)
    {p : α × β} (hp : p ∈ pairs) : p.2 ∈ remaining :=
  h.remaining_perm.mem_iff.mp (List.mem_append_left _ (List.mem_map_of_mem hp))

theorem Greedy.admitted (h : Greedy admits closer items remaining pairs alone left) :
    ∀ p ∈ pairs, admits p.1 p.2 := by
  induction h with
  | done remaining => exact List.forall_mem_nil _
  | alone hnone h ih => exact ih
  | paired hadmits hclosest h ih => exact List.forall_mem_cons.mpr ⟨hadmits, ih⟩

/-- Nothing that a later item took is closer. -/
theorem Greedy.stable (h : Greedy admits closer items remaining pairs alone left) :
    pairs.Pairwise fun p q => admits p.1 q.2 → ¬ closer p.1 q.2 p.2 := by
  induction h with
  | done remaining => exact List.Pairwise.nil
  | alone hnone h ih => exact ih
  | paired hadmits hclosest h ih =>
    exact List.Pairwise.cons (fun q hq => hclosest q.2 (h.pair_mem_remaining hq)) ih

end GreedyMatching
