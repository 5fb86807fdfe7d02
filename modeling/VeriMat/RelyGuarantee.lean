import VeriMat.AtomicProgram

/-! # Assertions between atomic operations

A process stands, between two of its operations, on an assertion about the shared state that no
other party destroys. Each of its operations keeps the invariant, and the reply leads to the
assertion the rest of the program starts from. What the others may do is a relation: every
operation of a pool of processes, or nothing at all for a process that is alone. -/
namespace RelyGuarantee

open AtomicProgram

variable {S C Op : Type} {Reply : Op → Type} {ω α β ε ε' : Type}

/-! ## Assertions -/

/-- An assertion that lasts, whatever the others do. -/
def Stable (R : S → S → Prop) (I A : S → Prop) : Prop := ∀ s s', I s → R s s' → A s → A s'

variable {perform : S → (o : Op) → Reply o → S → Prop} {R : S → S → Prop} {I A B : S → Prop}

theorem stable_const {p : Prop} : Stable R I fun _ => p := fun _ _ _ _ hp => hp

theorem Stable.and (hA : Stable R I A) (hB : Stable R I B) : Stable R I fun s => A s ∧ B s :=
  fun s s' hI h hs => ⟨hA s s' hI h hs.1, hB s s' hI h hs.2⟩

theorem stable_imp {p : Prop} (h : p → Stable R I A) : Stable R I fun s => p → A s :=
  fun s s' hI hs hp hpp => h hpp s s' hI hs (hp hpp)

/-! ## Programs that meet a specification -/

/-- One operation: it keeps the invariant, and from its reply on the new assertion lasts. -/
structure Acts (perform : S → (o : Op) → Reply o → S → Prop) (R : S → S → Prop) (I A : S → Prop)
    (o : Op) (B : Reply o → S → Prop) : Prop where
  keeps : ∀ s r s', I s → A s → perform s o r s' → I s'
  stable : ∀ r, Stable R I (B r)
  leads : ∀ s r s', I s → A s → perform s o r s' → B r s'

/-- From the assertion on, the program keeps the invariant and ends as the postcondition says. -/
def Program.Meets (perform : S → (o : Op) → Reply o → S → Prop) (R : S → S → Prop)
    (I : S → Prop) (post : α → S → Prop) : Program Op Reply α → (S → Prop) → Prop
  | .done a, A => ∀ s, I s → A s → post a s
  | .step o next, A =>
    ∃ B : Reply o → S → Prop, Acts perform R I A o B ∧
      ∀ r, Program.Meets perform R I post (next r) (B r)

theorem Program.Meets.strengthen {post : α → S → Prop} {p : Program Op Reply α}
    (hp : Program.Meets perform R I post p A) (h : ∀ s, I s → B s → A s) :
    Program.Meets perform R I post p B := by
  cases p with
  | done a => exact fun s hI hB => hp s hI (h s hI hB)
  | step o next =>
    obtain ⟨K, hstep, hrest⟩ := hp
    refine ⟨K, ⟨?_, hstep.stable, ?_⟩, hrest⟩
    · exact fun s r s' hI hB => hstep.keeps s r s' hI (h s hI hB)
    · exact fun s r s' hI hB => hstep.leads s r s' hI (h s hI hB)

theorem Program.Meets.weaken {post post' : α → S → Prop} {p : Program Op Reply α}
    (hp : Program.Meets perform R I post p A) (h : ∀ a s, I s → post a s → post' a s) :
    Program.Meets perform R I post' p A := by
  induction p generalizing A with
  | done a => exact fun s hI hA => h a s hI (hp s hI hA)
  | step o next ih =>
    obtain ⟨K, hstep, hrest⟩ := hp
    exact ⟨K, hstep, fun r => ih r (hrest r)⟩

/-- A point that is not reached. -/
theorem Program.Meets.unreachable {post : α → S → Prop} {p : Program Op Reply α}
    (h : ∀ s, I s → ¬A s) : Program.Meets perform R I post p A := by
  induction p generalizing A with
  | done a => exact fun s hI hA => absurd hA (h s hI)
  | step o next ih =>
    refine ⟨fun _ _ => False, ⟨?_, fun _ _ _ _ _ hs => hs, ?_⟩, fun r => ih r fun _ _ hs => hs⟩
    · exact fun s r s' hI hA => absurd hA (h s hI)
    · exact fun s r s' hI hA => absurd hA (h s hI)

theorem Program.Meets.bind {J : α → S → Prop} {post : β → S → Prop} {p : Program Op Reply α}
    {f : α → Program Op Reply β} (hp : Program.Meets perform R I J p A)
    (hf : ∀ a, Program.Meets perform R I post (f a) (J a)) :
    Program.Meets perform R I post (p.bind f) A := by
  induction p generalizing A with
  | done a => exact (hf a).strengthen hp
  | step o next ih =>
    obtain ⟨K, hstep, hrest⟩ := hp
    exact ⟨K, hstep, fun r => ih r (hrest r)⟩

/-! ### With exceptions -/

/-- The postconditions of a fallible program, for a value and for an exception. -/
def ends (post : α → S → Prop) (raised : ε → S → Prop) : Except ε α → S → Prop
  | .ok a => post a
  | .error e => raised e

section Exceptions
variable {post : β → S → Prop} {raised : ε → S → Prop}

theorem stable_ends (hpost : ∀ b, Stable R I (post b)) (hraised : ∀ e, Stable R I (raised e))
    (r : Except ε β) : Stable R I (ends post raised r) := by
  cases r with
  | ok b => exact hpost b
  | error e => exact hraised e

/-- A fallible program, with its postconditions. -/
def Runs (perform : S → (o : Op) → Reply o → S → Prop) (R : S → S → Prop) (I A : S → Prop)
    (x : Fallible Op Reply ε β) (post : β → S → Prop) (raised : ε → S → Prop) : Prop :=
  Program.Meets perform R I (ends post raised) x.run A

theorem Runs.strengthen {x : Fallible Op Reply ε β} (hx : Runs perform R I A x post raised)
    (h : ∀ s, I s → B s → A s) : Runs perform R I B x post raised :=
  Program.Meets.strengthen hx h

theorem Runs.weaken {post' : β → S → Prop} {raised' : ε → S → Prop} {x : Fallible Op Reply ε β}
    (hx : Runs perform R I A x post raised) (h : ∀ b s, I s → post b s → post' b s)
    (hraised : ∀ e s, I s → raised e s → raised' e s) : Runs perform R I A x post' raised' := by
  refine Program.Meets.weaken hx ?_
  intro r s hI hr
  cases r with
  | ok b => exact h b s hI hr
  | error e => exact hraised e s hI hr

/-- A fact that does not depend on the state. -/
theorem Runs.given {q : Prop} {x : Fallible Op Reply ε β}
    (hx : q → Runs perform R I A x post raised) :
    Runs perform R I (fun s => A s ∧ q) x post raised := by
  by_cases hq : q
  · exact (hx hq).strengthen fun s _ h => h.1
  · exact Program.Meets.unreachable fun s _ h => hq h.2

theorem runs_pure {b : β} (h : ∀ s, I s → A s → post b s) :
    Runs perform R I A (pure b : Fallible Op Reply ε β) post raised := h

theorem runs_throw {e : ε} (h : ∀ s, I s → A s → raised e s) :
    Runs perform R I A (throw e : Fallible Op Reply ε β) post raised := h

/-- What an exception has been turned into. -/
theorem Runs.adapt {f : ε' → ε} {x : Fallible Op Reply ε' β}
    (hx : Runs perform R I A x post fun e => raised (f e)) :
    Runs perform R I A (x.adapt f) post raised := by
  have h : (x.adapt f).run = Program.bind x.run fun r => .done (r.mapError f) := rfl
  rw [Runs, h]
  refine Program.Meets.bind hx ?_
  intro r
  cases r with
  | ok b => exact fun s _ hs => hs
  | error e => exact fun s _ hs => hs

theorem Runs.bind {J : α → S → Prop} {x : Fallible Op Reply ε α}
    {f : α → Fallible Op Reply ε β} (hx : Runs perform R I A x J raised)
    (hf : ∀ a, Runs perform R I (J a) (f a) post raised) :
    Runs perform R I A (x >>= f) post raised := by
  have h : (x >>= f).run = Program.bind x.run fun r =>
      match r with
      | .ok a => (f a).run
      | .error e => .done (.error e) := by
    change Program.bind _ _ = _
    congr 1
    funext r
    cases r <;> rfl
  rw [Runs, h]
  refine Program.Meets.bind hx ?_
  intro r
  cases r with
  | ok a => exact hf a
  | error e => exact fun s _ hs => hs

/-- The handler takes over from the exception. -/
theorem Runs.tryCatch {J : ε → S → Prop} {x : Fallible Op Reply ε β}
    {handler : ε → Fallible Op Reply ε β} (hx : Runs perform R I A x post J)
    (hhandler : ∀ e, Runs perform R I (J e) (handler e) post raised) :
    Runs perform R I A (tryCatch x handler) post raised := by
  have h : (MonadExcept.tryCatch x handler : Fallible Op Reply ε β).run =
      Program.bind x.run fun r =>
        match r with
        | .ok b => .done (.ok b)
        | .error e => (handler e).run := by
    change Program.bind _ _ = _
    congr 1
    funext r
    cases r <;> rfl
  rw [Runs, h]
  refine Program.Meets.bind hx ?_
  intro r
  cases r with
  | ok b => exact fun s _ hs => hs
  | error e => exact hhandler e

/-- A program of other exceptions in front, whose outcome is looked at. -/
theorem Runs.lift_bind {J : α → S → Prop} {p : Program Op Reply α}
    {f : α → Fallible Op Reply ε β} (hp : Program.Meets perform R I J p A)
    (hf : ∀ a, Runs perform R I (J a) (f a) post raised) :
    Runs perform R I A (ExceptT.lift p >>= f) post raised := by
  refine Runs.bind (J := J) ?_ hf
  refine Program.Meets.bind hp ?_
  exact fun a s _ hs => hs

end Exceptions

/-! ### Operations that return or raise -/

section Ask
variable {Result : Op → Type}

/-- One operation as a program. -/
def ask (o : Op) : Fallible Op (fun o => Except ε (Result o)) ε (Result o) :=
  ExceptT.mk (.step o .done)

theorem runs_ask {performs : S → (o : Op) → Except ε (Result o) → S → Prop} {o : Op}
    {post : Result o → S → Prop} {raised : ε → S → Prop}
    (h : Acts performs R I A o (ends post raised)) : Runs performs R I A (ask o) post raised := by
  refine ⟨ends post raised, h, ?_⟩
  exact fun r s _ hs => hs

end Ask

/-! ## A process that is alone -/

section Alone

/-- Nobody else does anything. -/
def Nobody (_ _ : S) : Prop := False

theorem stable_nobody : Stable Nobody I A := fun _ _ _ h => h.elim

/-- The program run to its end. -/
inductive Finishes (perform : S → (o : Op) → Reply o → S → Prop) :
    Program Op Reply α → S → α → S → Prop where
  | done (a s) : Finishes perform (.done a) s a s
  | step {o next s r s' a s''} (h : perform s o r s') (rest : Finishes perform (next r) s' a s'') :
      Finishes perform (.step o next) s a s''

theorem Program.Meets.finishes {post : α → S → Prop} {p : Program Op Reply α} {s s' : S} {a : α}
    (h : Finishes perform p s a s') (hp : Program.Meets perform R I post p A) (hI : I s)
    (hA : A s) : I s' ∧ post a s' := by
  induction h generalizing A with
  | done a s => exact ⟨hI, hp s hI hA⟩
  | step hperform _ ih =>
    obtain ⟨B, hacts, hnext⟩ := hp
    exact ih (hnext _) (hacts.keeps _ _ _ hI hA hperform) (hacts.leads _ _ _ hI hA hperform)

/-- Where every operation can be performed, every program can be run to its end. -/
theorem exists_finishes (h : ∀ s o, ∃ r s', perform s o r s') (p : Program Op Reply α) (s : S) :
    ∃ a s', Finishes perform p s a s' := by
  induction p generalizing s with
  | done a => exact ⟨a, s, .done a s⟩
  | step o next ih =>
    obtain ⟨r, s₁, hperform⟩ := h s o
    obtain ⟨a, s', hrest⟩ := ih r s₁
    exact ⟨a, s', .step hperform hrest⟩

end Alone

/-! ## A pool of processes -/

section Pool
variable {M : Machine S C Op Reply ω}

/-- What the others of a pool may do. -/
def Interferes (M : Machine S C Op Reply ω) (s s' : S) : Prop :=
  (∃ o r, M.perform s o r s') ∨ M.external s s'

/-- The strongest lasting assertion behind an operation. -/
def After (M : Machine S C Op Reply ω) (I A : S → Prop) (o : Op) (r : Reply o) (t : S) : Prop :=
  ∀ B, Stable (Interferes M) I B → (∀ s s', I s → A s → M.perform s o r s' → B s') → B t

theorem stable_after (A : S → Prop) (o : Op) (r : Reply o) :
    Stable (Interferes M) I (After M I A o r) :=
  fun s s' hI h hs B hB hleads => hB s s' hI h (hs B hB hleads)

/-- Lasting assertions as what a process knows. -/
def assertions (M : Machine S C Op Reply ω) (I : S → Prop) :
    Protocol Op Reply { A : S → Prop // Stable (Interferes M) I A } where
  allowed A o := ∀ s r s', I s → A.1 s → M.perform s o r s' → I s'
  replies A o r B := B = ⟨After M I A.1 o r, stable_after A.1 o r⟩

theorem Program.Meets.follows {post : α → S → Prop} {p : Program Op Reply α}
    (A : { A : S → Prop // Stable (Interferes M) I A })
    (hp : Program.Meets M.perform (Interferes M) I post p A.1) :
    p.Follows (assertions M I) (fun A a => ∀ s, I s → A.1 s → post a s) A := by
  induction p generalizing A with
  | done a => exact hp
  | step o next ih =>
    obtain ⟨K, hstep, hrest⟩ := hp
    refine ⟨hstep.keeps, ?_⟩
    rintro r B rfl
    refine ih r _ ((hrest r).strengthen ?_)
    exact fun s _ hs => hs (K r) (hstep.stable r) fun s s' => hstep.leads s r s'

variable {post : C → ω → S → Prop} {sys sys' : System S C Op Reply ω}

theorem tracking
    (hcalls : ∀ c, Program.Meets M.perform (Interferes M) I (post c) (M.program c) A)
    (hA : Stable (Interferes M) I A) :
    Tracking M Unguarded (fun s => I s ∧ A s) (fun _ => assertions M I) (fun s _ _ B => B.1 s)
      fun c B a => ∀ s, I s → B.1 s → post c a s := by
  constructor
  · intro s c hs
    exact ⟨⟨A, hA⟩, hs.2, (hcalls c).follows ⟨A, hA⟩⟩
  · intro s c log B o next r s' hI hB hallowed _ hs
    refine ⟨_, rfl, ?_⟩
    exact fun K _ hleads => hleads s s' hI.1 hB hs
  · intro s c log B s' hI hB hs
    exact B.2 s s' hI.1 hs hB

/-- When every call meets its specification, the invariant holds after every run from a state
without processes, and a call that has ended ended as it should. -/
theorem sound (hcalls : ∀ c, Program.Meets M.perform (Interferes M) I (post c) (M.program c) A)
    (hA : Stable (Interferes M) I A) (hexternal : ∀ s s', I s → M.external s s' → I s') {s : S}
    (hinit : I s) (hAs : A s) (h : Reaches M Unguarded (System.idle s) sys) :
    (I sys.state ∧ A sys.state) ∧ ∀ (i : ℕ) p a, sys.processes[i]? = some p →
      p.program = .done a → post p.call a sys.state := by
  obtain ⟨hI, htracks⟩ := (tracking hcalls hA).from_idle h ⟨hinit, hAs⟩
    (fun s c log B o r s' hI hB hallowed hs =>
      ⟨hallowed s r s' hI.1 hB hs, hA s s' hI.1 (.inl ⟨o, r, hs⟩) hI.2⟩)
    fun s s' hI hs => ⟨hexternal s s' hI.1 hs, hA s s' hI.1 (.inr hs) hI.2⟩
  refine ⟨hI, ?_⟩
  intro i p a hp hdone
  obtain ⟨B, hB, hfollows⟩ := htracks i p hp
  rw [hdone] at hfollows
  exact hfollows sys.state hI.1 hB

/-- The calls that start later may count on what holds by then. -/
theorem sound_later
    (hcalls : ∀ c, Program.Meets M.perform (Interferes M) I (post c) (M.program c) A)
    (hA : Stable (Interferes M) I A) (hI : ∀ sys₁, Reaches M Unguarded sys sys₁ → I sys₁.state)
    (hAs : A sys.state) (h : Reaches M Unguarded sys sys') (i : ℕ) (p : Process C Op Reply ω)
    (a : ω) (hi : sys.processes.length ≤ i) (hp : sys'.processes[i]? = some p)
    (hdone : p.program = .done a) : post p.call a sys'.state := by
  have hlasts : ∀ sys₁, Reaches M Unguarded sys sys₁ → A sys₁.state := by
    intro sys₁ hreach
    induction hreach with
    | refl => exact hAs
    | tail hreach hstep ih =>
      cases hstep with
      | start c => exact ih
      | external s hs => exact hA _ s (hI _ hreach) (.inr hs) ih
      | operation j c log o next r s hj hguard hs =>
        exact hA _ s (hI _ hreach) (.inl ⟨o, r, hs⟩) ih
  obtain ⟨B, hB, hfollows⟩ := (tracking hcalls hA).reaches h
    (fun sys₁ hreach => ⟨hI sys₁ hreach, hlasts sys₁ hreach⟩) i p hi hp
  rw [hdone] at hfollows
  exact hfollows sys'.state (hI sys' h) hB

end Pool

/-! ## Guards on operations -/

section Guards
/-- The operation a process performs next may be performed. -/
def Asks (g : S → Op → Prop) (s : S) (p : Process C Op Reply ω) : Prop :=
  match p.program with
  | .done _ => True
  | .step o _ => g s o

/-- The machine that performs no operation that may not be performed. -/
def restrict (M : Machine S C Op Reply ω) (g : S → Op → Prop) : Machine S C Op Reply ω :=
  { M with perform := fun s o r s' => g s o ∧ M.perform s o r s' }

variable {M : Machine S C Op Reply ω} {G G' : S → Process C Op Reply ω → Prop} {g : S → Op → Prop}
  {sys sys' : System S C Op Reply ω}

/-- A guarded run is a run of that machine. -/
theorem reaches_restrict (h : Reaches M (Asks g) sys sys') :
    Reaches (restrict M g) Unguarded sys sys' := by
  induction h with
  | refl => exact .refl _
  | tail _ hstep ih =>
    refine ih.tail ?_
    cases hstep with
    | start c => exact .start c
    | external s h => exact .external s h
    | operation i c log o next r s hi hguard h =>
      exact .operation i c log o next r s hi trivial ⟨hguard, h⟩

/-- A weaker guard lets more runs through. -/
theorem reaches_mono (hG : ∀ s p, G s p → G' s p) (h : Reaches M G sys sys') :
    Reaches M G' sys sys' := by
  induction h with
  | refl => exact .refl _
  | tail _ hstep ih =>
    refine ih.tail ?_
    cases hstep with
    | start c => exact .start c
    | external s h => exact .external s h
    | operation i c log o next r s hi hguard h =>
      exact .operation i c log o next r s hi (hG _ _ hguard) h

end Guards

end RelyGuarantee
