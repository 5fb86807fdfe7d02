import Mathlib

/-! # Loops

A loop takes one turn after the other: a turn goes on with another state or ends the loop with
a result. Whether it comes to an end is not known beforehand, so that a run is given the number
of its turns; the states it passes through are those a turn leads to. -/
namespace TurnLoop

variable {S R : Type} {turn : S → S ⊕ R} {s t : S} {r r' : R}

/-- So many turns at most: the result, if the loop ends in them. -/
def run (turn : S → S ⊕ R) : ℕ → S → Option R
  | 0, _ => none
  | turns + 1, s =>
    match turn s with
    | .inl s' => run turn turns s'
    | .inr r => some r

/-- The loop ends with this result. -/
def Returns (turn : S → S ⊕ R) (s : S) (r : R) : Prop := ∃ turns, run turn turns s = some r

/-- The states the loop passes through. -/
inductive Reached (turn : S → S ⊕ R) (s : S) : S → Prop where
  | start : Reached turn s s
  | turn {t t' : S} (h : Reached turn s t) (hturn : turn t = .inl t') : Reached turn s t'

theorem run_inl {s' : S} (h : turn s = .inl s') (turns : ℕ) :
    run turn (turns + 1) s = run turn turns s' := by
  simp only [run, h]

theorem run_inr (h : turn s = .inr r) (turns : ℕ) : run turn (turns + 1) s = some r := by
  simp only [run, h]

theorem Reached.after {s' : S} (h : turn s = .inl s') (hreached : Reached turn s' t) :
    Reached turn s t := by
  induction hreached with
  | start => exact .turn .start h
  | turn _ hturn ih => exact ih.turn hturn

/-! ## Results -/

theorem Returns.of_inl {s' : S} (h : turn s = .inl s') (hreturns : Returns turn s' r) :
    Returns turn s r := by
  obtain ⟨turns, hrun⟩ := hreturns
  exact ⟨turns + 1, by rw [run_inl h, hrun]⟩

theorem Returns.of_reached (hreached : Reached turn s t) (hr : Returns turn t r) :
    Returns turn s r := by
  induction hreached with
  | start => exact hr
  | turn _ hturn ih => exact ih (hr.of_inl hturn)

/-- The result is the one of a turn at a state the loop passes through. -/
theorem returns_iff : Returns turn s r ↔ ∃ t, Reached turn s t ∧ turn t = .inr r := by
  constructor
  · rintro ⟨turns, hrun⟩
    induction turns generalizing s with
    | zero => cases hrun
    | succ turns ih =>
      cases h : turn s with
      | inl s' =>
        rw [run_inl h] at hrun
        obtain ⟨t, hreached, ht⟩ := ih hrun
        exact ⟨t, hreached.after h, ht⟩
      | inr r' =>
        rw [run_inr h] at hrun
        cases hrun
        exact ⟨s, .start, h⟩
  · rintro ⟨t, hreached, ht⟩
    exact .of_reached hreached ⟨1, run_inr ht 0⟩

/-! ## Termination -/

/-- A loop ends when every turn that goes on makes a measure smaller. -/
theorem exists_returns (measure : S → ℕ)
    (h : ∀ t t', Reached turn s t → turn t = .inl t' → measure t' < measure t) :
    ∃ r, Returns turn s r := by
  induction hn : measure s using Nat.strongRecOn generalizing s with
  | _ n ih =>
    cases hturn : turn s with
    | inr r => exact ⟨r, 1, run_inr hturn 0⟩
    | inl s' =>
      have hsmaller : measure s' < n := hn ▸ h s s' .start hturn
      obtain ⟨r, hr⟩ := ih _ hsmaller (fun t t' ht => h t t' (ht.after hturn)) rfl
      exact ⟨r, hr.of_inl hturn⟩

end TurnLoop
