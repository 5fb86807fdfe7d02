import Mathlib

/-! # Operations under identifiers

A store answers an operation under a new identifier and remembers it. Under a known identifier it
answers the same operation again and rejects another. -/
namespace OperationReplay

variable {I R A : Type} [DecidableEq I] [DecidableEq R]

/-- The operation that is known under each identifier. -/
abbrev Store (I R : Type) := I → Option R

def submit (answer : R → A) (rejected : A) (id : I) (request : R) (store : Store I R) :
    A × Store I R :=
  match store id with
  | none => (answer request, Function.update store id (some request))
  | some known => (if known = request then answer request else rejected, store)

variable {answer : R → A} {rejected : A} {id : I} {request known : R} {store store' : Store I R}
  {ops : I → R → Prop}

theorem submit_new (h : store id = none) : submit answer rejected id request store =
    (answer request, Function.update store id (some request)) := by
  rw [submit, h]

theorem submit_known (h : store id = some known) : submit answer rejected id request store =
    (if known = request then answer request else rejected, store) := by
  rw [submit, h]

/-- The later store knows what the earlier one knew, and besides only some of these operations. -/
def Extends (ops : I → R → Prop) (store store' : Store I R) : Prop :=
  ∀ id, store' id = store id ∨
    store id = none ∧ ∃ request, ops id request ∧ store' id = some request

omit [DecidableEq I] [DecidableEq R] in
theorem Extends.refl (ops : I → R → Prop) (store : Store I R) : Extends ops store store :=
  fun _ => .inl rfl

theorem Extends.step (h : Extends ops store store') (hop : ops id request) :
    Extends ops store (submit answer rejected id request store').2 := by
  cases hknown : store' id with
  | some known =>
    rw [submit_known hknown]
    exact h
  | none =>
    rw [submit_new hknown]
    intro id'
    dsimp only
    by_cases hid : id' = id
    · subst hid
      refine .inr ⟨?_, request, hop, Function.update_self ..⟩
      rcases h id' with hsame | ⟨hnone, -⟩
      · exact hsame.symm.trans hknown
      · exact hnone
    · rw [Function.update_of_ne hid]
      exact h id'

/-- No two of these operations share an identifier that is new to the store. -/
def Compatible (ops : I → R → Prop) (store : Store I R) : Prop :=
  ∀ id r r', store id = none → ops id r → ops id r' → r = r'

/-- A later store answers compatible operations as the earlier one would. -/
theorem Extends.answers (h : Extends ops store store') (hcompatible : Compatible ops store)
    (hop : ops id request) : (submit answer rejected id request store').1 =
      (submit answer rejected id request store).1 := by
  rcases h id with hsame | ⟨hnone, known, hknown, hlater⟩
  · rw [submit, submit, hsame]
    cases store id with
    | none => rfl
    | some known => rfl
  · have hsame := hcompatible id known request hnone hknown hop
    rw [submit_known hlater, submit_new hnone, if_pos hsame]

end OperationReplay
