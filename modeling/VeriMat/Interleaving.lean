import VeriMat.RelyGuarantee

/-! # One program among others

A program performs its operations one after the other, and before each of them others act on
the state as often as they like. Nothing happens behind the last operation, so that an outcome
can be compared with the state it was reached in. -/
namespace Interleaving

open AtomicProgram RelyGuarantee

variable {S Op : Type} {Reply : Op → Type} {α β ε ε' : Type}
variable {perform : S → (o : Op) → Reply o → S → Prop} {others : S → S → Prop}

/-! ## Runs -/

/-- The program run to its end among the others. -/
inductive RunsTo (perform : S → (o : Op) → Reply o → S → Prop) (others : S → S → Prop) :
    Program Op Reply α → S → α → S → Prop where
  | done (a s) : RunsTo perform others (.done a) s a s
  | step {o next s s₁ r s₂ a s₃} (before : others s s₁) (h : perform s₁ o r s₂)
      (rest : RunsTo perform others (next r) s₂ a s₃) :
      RunsTo perform others (.step o next) s a s₃

/-- The operations that also meet a condition on the state before them and the reply. -/
def Meeting (perform : S → (o : Op) → Reply o → S → Prop) (G : S → (o : Op) → Reply o → Prop)
    (s : S) (o : Op) (r : Reply o) (s' : S) : Prop :=
  perform s o r s' ∧ G s o r

theorem RunsTo.bind {p : Program Op Reply α} {f : α → Program Op Reply β} {s s₁ s₂ : S} {a : α}
    {b : β} (h : RunsTo perform others p s a s₁) (h' : RunsTo perform others (f a) s₁ b s₂) :
    RunsTo perform others (p.bind f) s b s₂ := by
  induction h with
  | done a s => exact h'
  | step before h _ ih => exact .step before h (ih h')

/-! ## What every run ends with -/

/-- Every run from the state ends as the postcondition says. -/
def Ensures (perform : S → (o : Op) → Reply o → S → Prop) (others : S → S → Prop)
    (post : α → S → Prop) : Program Op Reply α → S → Prop
  | .done a, s => post a s
  | .step o next, s => ∀ s₁ r s₂, others s s₁ → perform s₁ o r s₂ →
    Ensures perform others post (next r) s₂

theorem ensures_iff {post : α → S → Prop} {p : Program Op Reply α} {s : S} :
    Ensures perform others post p s ↔ ∀ a s', RunsTo perform others p s a s' → post a s' := by
  constructor
  · intro h a s' hrun
    induction hrun with
    | done a s => exact h
    | step before hstep _ ih => exact ih (h _ _ _ before hstep)
  · intro h
    induction p generalizing s with
    | done a => exact h a s (.done a s)
    | step o next ih =>
      intro s₁ r s₂ before hstep
      exact ih r fun a s' hrun => h a s' (.step before hstep hrun)

theorem Ensures.weaken {post post' : α → S → Prop} {p : Program Op Reply α} {s : S}
    (hp : Ensures perform others post p s) (h : ∀ a s', post a s' → post' a s') :
    Ensures perform others post' p s := by
  rw [ensures_iff] at hp ⊢
  exact fun a s' hrun => h a s' (hp a s' hrun)

theorem Ensures.and {post post' : α → S → Prop} {p : Program Op Reply α} {s : S}
    (hp : Ensures perform others post p s) (hp' : Ensures perform others post' p s) :
    Ensures perform others (fun a s' => post a s' ∧ post' a s') p s := by
  rw [ensures_iff] at hp hp' ⊢
  exact fun a s' hrun => ⟨hp a s' hrun, hp' a s' hrun⟩

theorem ensures_bind {post : β → S → Prop} {p : Program Op Reply α}
    {f : α → Program Op Reply β} {s : S} :
    Ensures perform others post (p.bind f) s ↔
      Ensures perform others (fun a => Ensures perform others post (f a)) p s := by
  induction p generalizing s with
  | done a => rfl
  | step o next ih => simp only [Program.bind, Ensures, ih]

/-- What no operation and none of the others can destroy holds at the end of every program. -/
theorem ensures_kept {I : S → Prop} (hothers : ∀ s s', I s → others s s' → I s')
    (hperform : ∀ s o r s', I s → perform s o r s' → I s') (p : Program Op Reply α) {s : S}
    (hs : I s) : Ensures perform others (fun _ => I) p s := by
  induction p generalizing s with
  | done a => exact hs
  | step o next ih =>
    intro s₁ r s₂ before h
    exact ih r (hperform _ _ _ _ (hothers _ _ hs before) h)

section Finishing
variable {C : Type} {M : Machine S C Op Reply α}

/-- A process can go on to its end, the others waiting. -/
theorem exists_ended (hperform : ∀ s o, ∃ r s', M.perform s o r s') {c : C}
    (p : Program Op Reply α) {sys : System S C Op Reply α} {i : ℕ} {log : List (Entry Op Reply)}
    (hi : sys.processes[i]? = some ⟨c, log, p⟩) :
    ∃ sys' log' a, Reaches M Unguarded sys sys' ∧
      sys'.processes[i]? = some ⟨c, log', .done a⟩ := by
  induction p generalizing sys log with
  | done a => exact ⟨sys, log, a, .refl sys, hi⟩
  | step o next ih =>
    obtain ⟨r, s, h⟩ := hperform sys.state o
    have hstep : Step M Unguarded sys (sys.act i s (.advance c log o r next)) :=
      .operation i c log o next r s hi trivial h
    have hnext : (sys.act i s (.advance c log o r next)).processes[i]? =
        some ⟨c, log ++ [⟨o, r⟩], next r⟩ := by
      rw [System.act, List.getElem?_set_self (List.getElem?_eq_some_iff.mp hi).1]
      rfl
    obtain ⟨sys', log', a, hreaches, hended⟩ := ih r hnext
    exact ⟨sys', log', a, ((Reaches.refl sys).tail hstep).trans hreaches, hended⟩

/-- Where every operation has a reply, a call can be started and run to its end. -/
theorem exists_called (hperform : ∀ s o, ∃ r s', M.perform s o r s') (c : C)
    (sys : System S C Op Reply α) :
    ∃ sys' log a, Reaches M Unguarded sys sys' ∧
      sys'.processes[sys.processes.length]? = some ⟨c, log, .done a⟩ := by
  have hstarted : (sys.start ⟨c, [], M.program c⟩).processes[sys.processes.length]? =
      some ⟨c, [], M.program c⟩ := by
    simp [System.start]
  obtain ⟨sys', log, a, hreaches, hended⟩ := exists_ended hperform _ hstarted
  exact ⟨sys', log, a, ((Reaches.refl sys).tail (.start c)).trans hreaches, hended⟩

end Finishing

/-! ### With exceptions -/

section Exceptions
variable {post : Except ε β → S → Prop} {s : S}

/-- The postcondition of a part, from the one of what follows it. -/
def ThenEnsures (perform : S → (o : Op) → Reply o → S → Prop) (others : S → S → Prop)
    (post : Except ε β → S → Prop) (f : α → Fallible Op Reply ε β) : Except ε α → S → Prop
  | .ok a, s => Ensures perform others post (f a).run s
  | .error e, s => post (.error e) s

theorem run_bind_program (x : Fallible Op Reply ε α) (f : α → Fallible Op Reply ε β) :
    (x >>= f).run = Program.bind x.run fun r =>
      match r with
      | .ok a => (f a).run
      | .error e => .done (.error e) := by
  change Program.bind _ _ = _
  congr 1
  funext r
  cases r <;> rfl

theorem ensures_run_bind {x : Fallible Op Reply ε α} {f : α → Fallible Op Reply ε β} :
    Ensures perform others post (x >>= f).run s ↔
      Ensures perform others (ThenEnsures perform others post f) x.run s := by
  rw [run_bind_program, ensures_bind, ensures_iff, ensures_iff]
  refine forall₃_congr fun r s' _ => ?_
  cases r <;> rfl

/-- The postcondition of the body of a `try`. -/
def HandledEnsures (perform : S → (o : Op) → Reply o → S → Prop) (others : S → S → Prop)
    (post : Except ε' β → S → Prop) (handler : ε → Fallible Op Reply ε' β) :
    Except ε β → S → Prop
  | .ok b, s => post (.ok b) s
  | .error e, s => Ensures perform others post (handler e).run s

/-- A `try` whose handler may raise other exceptions. -/
def handle (x : Fallible Op Reply ε β) (handler : ε → Fallible Op Reply ε' β) :
    Fallible Op Reply ε' β :=
  ExceptT.mk (Program.bind x.run fun r =>
    match r with
    | .ok b => .done (.ok b)
    | .error e => (handler e).run)

theorem ensures_run_handle {post : Except ε' β → S → Prop} {x : Fallible Op Reply ε β}
    {handler : ε → Fallible Op Reply ε' β} :
    Ensures perform others post (handle x handler).run s ↔
      Ensures perform others (HandledEnsures perform others post handler) x.run s := by
  change Ensures perform others post (Program.bind _ _) s ↔ _
  rw [ensures_bind, ensures_iff, ensures_iff]
  refine forall₃_congr fun r s' _ => ?_
  cases r <;> rfl

theorem ensures_run_adapt {post : Except ε' β → S → Prop} {f : ε → ε'}
    {x : Fallible Op Reply ε β} :
    Ensures perform others post (x.adapt f).run s ↔
      Ensures perform others (fun r => post (r.mapError f)) x.run s := by
  have h : (x.adapt f).run = Program.bind x.run fun r => .done (r.mapError f) := rfl
  rw [h, ensures_bind]
  rfl

theorem ensures_run_map {post : Except ε β → S → Prop} {f : α → β}
    {x : Fallible Op Reply ε α} :
    Ensures perform others post (ExceptT.map f x).run s ↔
      Ensures perform others (fun r => post (r.map f)) x.run s := by
  have h : (ExceptT.map f x).run = Program.bind x.run fun r =>
      match r with
      | .ok a => .done (.ok (f a))
      | .error e => .done (.error e) := by
    change Program.bind _ _ = _
    congr 1
    funext r
    cases r <;> rfl
  rw [h, ensures_bind, ensures_iff, ensures_iff]
  refine forall₃_congr fun r s' _ => ?_
  cases r <;> rfl

@[simp] theorem ensures_run_pure {b : β} :
    Ensures perform others post (pure b : Fallible Op Reply ε β).run s ↔ post (.ok b) s :=
  Iff.rfl

@[simp] theorem ensures_run_throw {e : ε} :
    Ensures perform others post (throw e : Fallible Op Reply ε β).run s ↔ post (.error e) s :=
  Iff.rfl

end Exceptions

section Ask
variable {Result : Op → Type} {performs : S → (o : Op) → Except ε (Result o) → S → Prop}

theorem ensures_run_ask {o : Op} {post : Except ε (Result o) → S → Prop} {s : S} :
    Ensures performs others post (ask (ε := ε) o).run s ↔
      ∀ s₁ r s₂, others s s₁ → performs s₁ o r s₂ → post r s₂ :=
  Iff.rfl

end Ask

/-! ## What a program performs -/

section Only
variable {P : Op → Prop}

/-- Every operation the program may come to satisfies the condition. -/
def Only (P : Op → Prop) : Program Op Reply α → Prop
  | .done _ => True
  | .step o next => P o ∧ ∀ r, Only P (next r)

theorem Only.bind {p : Program Op Reply α} {f : α → Program Op Reply β} (hp : Only P p)
    (hf : ∀ a, Only P (f a)) : Only P (p.bind f) := by
  induction p with
  | done a => exact hf a
  | step o next ih => exact ⟨hp.1, fun r => ih r (hp.2 r)⟩

theorem Only.embed {Op' : Type} {Reply' : Op' → Type} {P' : Op' → Prop} {f : Op → Op'}
    {back : ∀ o, Reply' (f o) → Reply o} {p : Program Op Reply α} (hp : Only P p)
    (h : ∀ o, P o → P' (f o)) : Only P' (p.embed f back) := by
  induction p with
  | done a => exact trivial
  | step o next ih => exact ⟨h o hp.1, fun r => ih _ (hp.2 _)⟩

theorem only_run_bind {x : Fallible Op Reply ε α} {f : α → Fallible Op Reply ε β}
    (hx : Only P x.run) (hf : ∀ a, Only P (f a).run) : Only P (x >>= f).run := by
  refine Only.bind hx ?_
  intro r
  cases r with
  | ok a => exact hf a
  | error e => exact trivial

theorem only_run_handle {x : Fallible Op Reply ε β} {handler : ε → Fallible Op Reply ε' β}
    (hx : Only P x.run) (hhandler : ∀ e, Only P (handler e).run) :
    Only P (handle x handler).run := by
  refine Only.bind hx ?_
  intro r
  cases r with
  | ok b => exact trivial
  | error e => exact hhandler e

theorem only_run_adapt {f : ε → ε'} {x : Fallible Op Reply ε β} (hx : Only P x.run) :
    Only P (x.adapt f).run :=
  Only.bind hx fun _ => trivial

theorem only_run_map {f : α → β} {x : Fallible Op Reply ε α} (hx : Only P x.run) :
    Only P (ExceptT.map f x).run := by
  refine Only.bind hx ?_
  intro r
  cases r with
  | ok a => exact trivial
  | error e => exact trivial

theorem only_run_pure (b : β) : Only P (pure b : Fallible Op Reply ε β).run := trivial

theorem only_run_throw (e : ε) : Only P (throw e : Fallible Op Reply ε β).run := trivial

/-- Where all programs perform such operations only, what these keep holds after every run. -/
theorem only_reaches {C ω : Type} {M : Machine S C Op Reply ω} {I : S → Prop}
    (hcalls : ∀ c, Only P (M.program c)) {s : S} {sys : System S C Op Reply ω}
    (h : Reaches M Unguarded (System.idle s) sys) (hinit : I s)
    (hperform : ∀ s o r s', I s → P o → M.perform s o r s' → I s')
    (hexternal : ∀ s s', I s → M.external s s' → I s') :
    I sys.state ∧ ∀ p ∈ sys.processes, Only P p.program := by
  induction h with
  | refl => exact ⟨hinit, by simp [System.idle]⟩
  | tail _ hstep ih =>
    obtain ⟨hI, hall⟩ := ih
    cases hstep with
    | start c =>
      refine ⟨hI, fun p hp => ?_⟩
      rcases List.mem_append.mp hp with hp | hp
      · exact hall p hp
      · rw [List.mem_singleton.mp hp]
        exact hcalls c
    | external s' hs => exact ⟨hexternal _ s' hI hs, hall⟩
    | operation i c log o next r s' hi hguard hs =>
      obtain ⟨hP, hnext⟩ := hall _ (List.mem_of_getElem? hi)
      refine ⟨hperform _ o r s' hI hP hs, fun p hp => ?_⟩
      rcases List.mem_or_eq_of_mem_set hp with hp | rfl
      · exact hall p hp
      · exact hnext r

end Only

/-! ## Calls in turn -/

section InTurn
variable {C : Type} {M : Machine S C Op Reply α}

/-- Calls made one after the other, with the state each was made in and what it ended with. -/
inductive InTurn (M : Machine S C Op Reply α) : S → List C → List (S × α) → Prop where
  | nil (s) : InTurn M s [] []
  | cons {s c cs a s₁ outcomes} (first : RunsTo M.perform Eq (M.program c) s a s₁)
      (rest : InTurn M s₁ cs outcomes) : InTurn M s (c :: cs) ((s, a) :: outcomes)

theorem InTurn.first {s : S} {c : C} {calls : List C} {outcomes : List (S × α)}
    (h : InTurn M s (c :: calls) outcomes) :
    ∃ a s', outcomes[0]? = some (s, a) ∧ RunsTo M.perform Eq (M.program c) s a s' := by
  cases h with
  | cons first rest => exact ⟨_, _, rfl, first⟩

/-- Each call runs in a state that has kept what no operation destroys. -/
theorem InTurn.outcome {I : S → Prop} (hperform : ∀ s o r s', I s → M.perform s o r s' → I s')
    {s : S} {calls : List C} {outcomes : List (S × α)} (h : InTurn M s calls outcomes) (hs : I s)
    {i : ℕ} {c : C} (hc : calls[i]? = some c) :
    ∃ s₁ a s₂, outcomes[i]? = some (s₁, a) ∧ I s₁ ∧ RunsTo M.perform Eq (M.program c) s₁ a s₂ := by
  induction h generalizing i with
  | nil s => cases hc
  | @cons s c' cs a s₁ outcomes first rest ih =>
    cases i with
    | zero =>
      cases hc
      exact ⟨s, a, s₁, rfl, hs, first⟩
    | succ i =>
      have hkept : Ensures M.perform Eq (fun _ => I) (M.program c') s :=
        ensures_kept (fun _ _ h heq => heq ▸ h) hperform (M.program c') hs
      exact ih (ensures_iff.mp hkept a s₁ first) hc

end InTurn

/-! ## Schedules -/

section Schedules
variable {E : Type}

/-- The program under a schedule: what the others do before each operation, and how what is left
open in it is decided; it stops where an operation fails the check. -/
def play (interfere : E → S → S) (respond : E → S → (o : Op) → Reply o × S)
    (check : S → (o : Op) → Reply o → Bool) : Program Op Reply α → S → List E → Option (α × S)
  | .done a, s, _ => some (a, s)
  | .step _ _, _, [] => none
  | .step o next, s, e :: es =>
    if check (interfere e s) o (respond e (interfere e s) o).1 then
      play interfere respond check (next (respond e (interfere e s) o).1)
        (respond e (interfere e s) o).2 es
    else none

/-- What is played is a run, when the responses are the operations'. -/
theorem runsTo_play {interfere : E → S → S} {respond : E → S → (o : Op) → Reply o × S}
    {check : S → (o : Op) → Reply o → Bool} {G : S → (o : Op) → Reply o → Prop}
    (hinterfere : ∀ e s, others s (interfere e s))
    (hrespond : ∀ e s o, perform s o (respond e s o).1 (respond e s o).2)
    (hcheck : ∀ s o r, check s o r = true → G s o r)
    {p : Program Op Reply α} {s s' : S} {a : α} {es : List E}
    (h : play interfere respond check p s es = some (a, s')) :
    RunsTo (Meeting perform G) others p s a s' := by
  induction p generalizing s es with
  | done b =>
    cases h
    exact .done _ _
  | step o next ih =>
    cases es with
    | nil => cases h
    | cons e es =>
      rw [play] at h
      split_ifs at h with hmeets
      exact .step (hinterfere e s) ⟨hrespond e _ o, hcheck _ _ _ hmeets⟩ (ih _ h)

variable {C : Type} {program : C → Program Op Reply α} {respond : E → S → (o : Op) → Reply o × S}

/-- The calls that a schedule starts. -/
def started (turns : List (Turn C E)) : List C :=
  turns.filterMap fun turn =>
    match turn with
    | .start c => some c
    | .act _ _ => none

end Schedules

end Interleaving
