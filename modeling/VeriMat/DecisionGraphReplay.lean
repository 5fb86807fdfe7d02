import VeriMat.DecisionGraphSteps

/-! # Replaying events

Every handler makes its checks and conversions before it changes anything, so an event that is
refused leaves the graph as it was, and one that was applied is never applied again. -/
namespace DecisionGraphReplay

open PyText JsonText PyValue PyDict PyDisplay Events Transaction DecisionGraph
open DecisionGraphSteps

variable {F : Type} [PyFloat F] {D : Display}

/-! ## One handler -/

theorem applyAll_cons (event : EventEnvelope F) (events : List (EventEnvelope F)) :
    applyAll D (event :: events) = apply D event >>= fun _ => applyAll D events := rfl

theorem projectFrom_eq_ok {events : List (EventEnvelope F)} {g g' : Graph F} :
    projectFrom D g events = .ok g' ↔ applyAll D events g = .ok () g' := by
  unfold projectFrom
  cases applyAll D events g <;> simp

end DecisionGraphReplay
