import Mathlib

/-! # Hash chains

A list of items in which each item names the digest of the one before it. The digest of the
last item pins the whole list: two chains with one head digest agree item by item, as far as
a shared digest means that two items agree. -/
namespace HashChain

variable {α δ : Type*} {digest prev : α → δ} {genesis : δ}

/-- The digest of the last item, or the genesis value before there is one. -/
def head (digest : α → δ) (genesis : δ) (xs : List α) : δ :=
  (xs.getLast?.map digest).getD genesis

@[simp] theorem head_nil : head digest genesis ([] : List α) = genesis := rfl

@[simp] theorem head_snoc (xs : List α) (x : α) :
    head digest genesis (xs ++ [x]) = digest x := by
  simp [head]

/-- Every item names the head of the items before it, and no digest is the genesis value. -/
inductive Linked (digest prev : α → δ) (genesis : δ) : List α → Prop where
  | nil : Linked digest prev genesis []
  | snoc {xs : List α} {x : α} : Linked digest prev genesis xs →
      prev x = head digest genesis xs → digest x ≠ genesis →
      Linked digest prev genesis (xs ++ [x])

theorem Linked.snoc_inv {xs : List α} {x : α} (h : Linked digest prev genesis (xs ++ [x])) :
    Linked digest prev genesis xs ∧ prev x = head digest genesis xs ∧ digest x ≠ genesis := by
  generalize hys : xs ++ [x] = ys at h
  cases h with
  | nil => simp at hys
  | snoc hxs hp hd =>
    obtain ⟨rfl, rfl⟩ := List.append_singleton_inj.mp hys
    exact ⟨hxs, hp, hd⟩

/-- A chain whose head is the genesis value is empty. -/
theorem Linked.eq_nil {xs : List α} (h : Linked digest prev genesis xs)
    (hhead : head digest genesis xs = genesis) : xs = [] := by
  cases h with
  | nil => rfl
  | snoc _ _ hd => exact absurd (by simpa using hhead) hd

/-- Two chains with the same head agree position by position, from the last item back. -/
theorem Linked.forall₂_of_head_eq {R : α → α → Prop} {xs ys : List α}
    (hx : Linked digest prev genesis xs) (hy : Linked digest prev genesis ys)
    (hR : ∀ x ∈ xs, ∀ y ∈ ys, digest x = digest y → R x y)
    (hprev : ∀ x ∈ xs, ∀ y ∈ ys, R x y → prev x = prev y)
    (hhead : head digest genesis xs = head digest genesis ys) : List.Forall₂ R xs ys := by
  induction hx generalizing ys with
  | nil =>
    rw [hy.eq_nil hhead.symm]
    exact .nil
  | @snoc xs x _ hpx hdx ih =>
    rcases List.eq_nil_or_concat ys with rfl | ⟨ys, y, rfl⟩
    · exact absurd (by simpa using hhead) hdx
    · rw [List.concat_eq_append] at *
      obtain ⟨hys, hpy, _⟩ := hy.snoc_inv
      have hxy : R x y := hR x (by simp) y (by simp) (by simpa using hhead)
      have hheads : head digest genesis xs = head digest genesis ys := by
        rw [← hpx, ← hpy]
        exact hprev x (by simp) y (by simp) hxy
      refine List.rel_append (ih hys ?_ ?_ hheads) (.cons hxy .nil)
      · exact fun a ha b hb => hR a (by simp [ha]) b (by simp [hb])
      · exact fun a ha b hb => hprev a (by simp [ha]) b (by simp [hb])

end HashChain
