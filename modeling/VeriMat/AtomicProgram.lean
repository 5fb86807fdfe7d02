import Mathlib

/-! # Programs of atomic operations

A sequential program performs one operation after another and goes on from each reply. Any
number of processes run programs over one shared state; an operation is atomic, and between two
of them anything may happen. A process that has crashed is one that takes no further step. -/
namespace AtomicProgram

/-! ## Programs -/

inductive Program (Op : Type) (Reply : Op → Type) (α : Type) where
  | done (a : α)
  | step (o : Op) (next : Reply o → Program Op Reply α)

variable {Op : Type} {Reply : Op → Type} {α β ε : Type}

def Program.bind : Program Op Reply α → (α → Program Op Reply β) → Program Op Reply β
  | .done a, f => f a
  | .step o next, f => .step o fun r => (next r).bind f

instance : Monad (Program Op Reply) where
  pure := .done
  bind := Program.bind

/-- A program with exceptions. -/
abbrev Fallible (Op : Type) (Reply : Op → Type) (ε α : Type) := ExceptT ε (Program Op Reply) α

/-! ## Protocols -/

/-- What a process may do next and what it can be told, by what it knows. -/
structure Protocol (Op : Type) (Reply : Op → Type) (Γ : Type) where
  allowed : Γ → Op → Prop
  replies : Γ → (o : Op) → Reply o → Γ → Prop

variable {Γ : Type} {P : Protocol Op Reply Γ}

/-- Every run of the program obeys the protocol and ends as the postcondition says. -/
def Program.Follows (P : Protocol Op Reply Γ) (post : Γ → α → Prop) :
    Program Op Reply α → Γ → Prop
  | .done a, g => post g a
  | .step o next, g =>
    P.allowed g o ∧ ∀ r g', P.replies g o r g' → (next r).Follows P post g'

theorem Program.Follows.mono {post post' : Γ → α → Prop} (h : ∀ g a, post g a → post' g a)
    {p : Program Op Reply α} {g : Γ} (hp : p.Follows P post g) : p.Follows P post' g := by
  induction p generalizing g with
  | done a => exact h g a hp
  | step o next ih => exact ⟨hp.1, fun r g' hr => ih r (hp.2 r g' hr)⟩

theorem follows_bind {post : Γ → β → Prop} {p : Program Op Reply α}
    {f : α → Program Op Reply β} {g : Γ} :
    (p.bind f).Follows P post g ↔ p.Follows P (fun g a => (f a).Follows P post g) g := by
  induction p generalizing g with
  | done a => rfl
  | step o next ih =>
    simp only [Program.bind, Program.Follows, ih]

/-! ### Inside a larger program -/

section Embedding
variable {Op' : Type} {Reply' : Op' → Type} {Γ' : Type}

/-- A program over the operations of a part. -/
def Program.embed (f : Op → Op') (back : ∀ o, Reply' (f o) → Reply o) :
    Program Op Reply α → Program Op' Reply' α
  | .done a => .done a
  | .step o next => .step (f o) fun r => (next (back o r)).embed f back

/-- A part that follows its own protocol follows the one of the whole, when that allows as much
and is told no more. -/
theorem Program.Follows.embed {P' : Protocol Op' Reply' Γ'} {f : Op → Op'}
    {back : ∀ o, Reply' (f o) → Reply o} {i : Γ → Γ'}
    (hallowed : ∀ g o, P.allowed g o → P'.allowed (i g) (f o))
    (hreplies : ∀ g o r g'', P'.replies (i g) (f o) r g'' →
      ∃ g', g'' = i g' ∧ P.replies g o (back o r) g')
    {post : Γ → α → Prop} {post' : Γ' → α → Prop} (hpost : ∀ g a, post g a → post' (i g) a)
    {p : Program Op Reply α} {g : Γ} (hp : p.Follows P post g) :
    (p.embed f back).Follows P' post' (i g) := by
  induction p generalizing g with
  | done a => exact hpost g a hp
  | step o next ih =>
    refine ⟨hallowed g o hp.1, ?_⟩
    intro r g'' hr
    obtain ⟨g', rfl, hg'⟩ := hreplies g o r g'' hr
    exact ih _ (hp.2 _ g' hg')

end Embedding

/-! ### With exceptions -/

section Exceptions
variable {post : Γ → Except ε β → Prop} {g : Γ}

/-- The postcondition of a part, from the one of what follows it. -/
def continuedBy (P : Protocol Op Reply Γ) (post : Γ → Except ε β → Prop)
    (f : α → Fallible Op Reply ε β) (g : Γ) : Except ε α → Prop
  | .ok a => (f a).run.Follows P post g
  | .error e => post g (.error e)

@[simp] theorem continuedBy_ok {f : α → Fallible Op Reply ε β} {a : α} :
    continuedBy P post f g (.ok a) ↔ (f a).run.Follows P post g :=
  Iff.rfl

@[simp] theorem continuedBy_error {f : α → Fallible Op Reply ε β} {e : ε} :
    continuedBy P post f g (.error e) ↔ post g (.error e) :=
  Iff.rfl

theorem follows_run_bind {x : Fallible Op Reply ε α} {f : α → Fallible Op Reply ε β} :
    (x >>= f).run.Follows P post g ↔ x.run.Follows P (continuedBy P post f) g := by
  have h : (x >>= f).run = Program.bind x.run fun r =>
      match r with
      | .ok a => (f a).run
      | .error e => .done (.error e) := by
    change Program.bind _ _ = _
    congr 1
    funext r
    cases r <;> rfl
  rw [h, follows_bind]
  have hpost : (fun g (r : Except ε α) =>
      Program.Follows P post (match r with | .ok a => (f a).run | .error e => .done (.error e)) g) =
      continuedBy P post f := by
    funext g r
    cases r <;> rfl
  rw [hpost]

/-- The postcondition of the body of a `try`. -/
def handledBy (P : Protocol Op Reply Γ) (post : Γ → Except ε α → Prop)
    (handler : ε → Fallible Op Reply ε α) (g : Γ) : Except ε α → Prop
  | .ok a => post g (.ok a)
  | .error e => (handler e).run.Follows P post g

@[simp] theorem handledBy_ok {post : Γ → Except ε α → Prop}
    {handler : ε → Fallible Op Reply ε α} {a : α} :
    handledBy P post handler g (.ok a) ↔ post g (.ok a) :=
  Iff.rfl

@[simp] theorem handledBy_error {post : Γ → Except ε α → Prop}
    {handler : ε → Fallible Op Reply ε α} {e : ε} :
    handledBy P post handler g (.error e) ↔ (handler e).run.Follows P post g :=
  Iff.rfl

theorem follows_run_tryCatch {post : Γ → Except ε α → Prop} {x : Fallible Op Reply ε α}
    {handler : ε → Fallible Op Reply ε α} :
    (tryCatch x handler).run.Follows P post g ↔ x.run.Follows P (handledBy P post handler) g := by
  have h : (tryCatch x handler).run = Program.bind x.run fun r =>
      match r with
      | .ok a => .done (.ok a)
      | .error e => (handler e).run := by
    change Program.bind _ _ = _
    congr 1
    funext r
    cases r <;> rfl
  rw [h, follows_bind]
  have hpost : (fun g (r : Except ε α) =>
      Program.Follows P post (match r with | .ok a => .done (.ok a) | .error e => (handler e).run) g) =
      handledBy P post handler := by
    funext g r
    cases r <;> rfl
  rw [hpost]

@[simp] theorem follows_run_pure {b : β} :
    (pure b : Fallible Op Reply ε β).run.Follows P post g ↔ post g (.ok b) :=
  Iff.rfl

@[simp] theorem follows_run_throw {e : ε} :
    (throw e : Fallible Op Reply ε β).run.Follows P post g ↔ post g (.error e) :=
  Iff.rfl

end Exceptions

/-! ## Processes over a shared state -/

/-- An operation performed, with its reply. -/
abbrev Entry (Op : Type) (Reply : Op → Type) := Σ o : Op, Reply o

/-- A process: the call it runs, what it has done, and what is left of its program. -/
structure Process (C Op : Type) (Reply : Op → Type) (α : Type) where
  call : C
  log : List (Entry Op Reply)
  program : Program Op Reply α

structure System (S C Op : Type) (Reply : Op → Type) (α : Type) where
  state : S
  processes : List (Process C Op Reply α)

/-- The programs of the calls, what an operation does to the state, and the atomic steps of
parties that run no program. -/
structure Machine (S C Op : Type) (Reply : Op → Type) (α : Type) where
  program : C → Program Op Reply α
  perform : S → (o : Op) → Reply o → S → Prop
  external : S → S → Prop

variable {S C : Type}

def System.start (sys : System S C Op Reply α) (p : Process C Op Reply α) :
    System S C Op Reply α :=
  { sys with processes := sys.processes ++ [p] }

def System.act (sys : System S C Op Reply α) (i : ℕ) (s : S) (p : Process C Op Reply α) :
    System S C Op Reply α :=
  ⟨s, sys.processes.set i p⟩

def Process.advance (c : C) (log : List (Entry Op Reply)) (o : Op) (r : Reply o)
    (next : Reply o → Program Op Reply α) : Process C Op Reply α :=
  ⟨c, log ++ [⟨o, r⟩], next r⟩

/-- A step of a system; the guard restricts in which states a process acts. -/
inductive Step (M : Machine S C Op Reply α) (G : S → Process C Op Reply α → Prop)
    (sys : System S C Op Reply α) : System S C Op Reply α → Prop where
  | start (c) : Step M G sys (sys.start ⟨c, [], M.program c⟩)
  | external (s) (h : M.external sys.state s) : Step M G sys { sys with state := s }
  | operation (i c log o next r s)
      (hi : sys.processes[i]? = some ⟨c, log, .step o next⟩)
      (hguard : G sys.state ⟨c, log, .step o next⟩) (h : M.perform sys.state o r s) :
      Step M G sys (sys.act i s (.advance c log o r next))

inductive Reaches (M : Machine S C Op Reply α) (G : S → Process C Op Reply α → Prop) :
    System S C Op Reply α → System S C Op Reply α → Prop where
  | refl (sys) : Reaches M G sys sys
  | tail {sys sys' sys''} : Reaches M G sys sys' → Step M G sys' sys'' → Reaches M G sys sys''

/-- Every process may act. -/
def Unguarded (_ : S) (_ : Process C Op Reply α) : Prop := True

/-- A state without processes. -/
def System.idle (s : S) : System S C Op Reply α := ⟨s, []⟩

variable {M : Machine S C Op Reply α} {G : S → Process C Op Reply α → Prop}
  {sys sys' sys'' : System S C Op Reply α}

theorem Reaches.trans (h : Reaches M G sys sys') (h' : Reaches M G sys' sys'') :
    Reaches M G sys sys'' := by
  induction h' with
  | refl => exact h
  | tail _ hstep ih => exact ih.tail hstep

/-- What holds of the state and is kept by every operation holds after every run. -/
theorem Reaches.invariant {I : S → Prop} (h : Reaches M G sys sys') (hinit : I sys.state)
    (hperform : ∀ s o r s', I s → M.perform s o r s' → I s')
    (hexternal : ∀ s s', I s → M.external s s' → I s') : I sys'.state := by
  induction h with
  | refl => exact hinit
  | tail _ hstep ih =>
    cases hstep with
    | start c => exact ih
    | external s hs => exact hexternal _ s ih hs
    | operation i c log o next r s hi hguard hs => exact hperform _ o r s ih hs

/-! ### Schedules -/

section Schedules
variable {E : Type}

/-- A turn of a schedule: a call starts, or a process performs its next operation in an
environment that decides what is left open. -/
inductive Turn (C E : Type) where
  | start (c : C)
  | act (i : ℕ) (e : E)

def System.turn (program : C → Program Op Reply α) (respond : E → S → (o : Op) → Reply o × S)
    (sys : System S C Op Reply α) : Turn C E → System S C Op Reply α
  | .start c => sys.start ⟨c, [], program c⟩
  | .act i e =>
    match sys.processes[i]? with
    | some ⟨c, log, .step o next⟩ =>
      sys.act i (respond e sys.state o).2 (.advance c log o (respond e sys.state o).1 next)
    | _ => sys

def System.play (program : C → Program Op Reply α) (respond : E → S → (o : Op) → Reply o × S)
    (sys : System S C Op Reply α) (turns : List (Turn C E)) : System S C Op Reply α :=
  turns.foldl (System.turn program respond) sys

/-- What is played is reached, when the responses are the machine's. -/
theorem reaches_play {respond : E → S → (o : Op) → Reply o × S}
    (hrespond : ∀ e s o, M.perform s o (respond e s o).1 (respond e s o).2)
    (turns : List (Turn C E)) :
    Reaches M Unguarded sys (sys.play M.program respond turns) := by
  induction turns generalizing sys with
  | nil => exact .refl sys
  | cons turn turns ih =>
    have hturn : Reaches M Unguarded sys (sys.turn M.program respond turn) := by
      cases turn with
      | start c => exact (Reaches.refl sys).tail (.start c)
      | act i e =>
        rw [System.turn]
        split
        · rename_i c log o next hi
          exact (Reaches.refl sys).tail (.operation i c log o next _ _ hi trivial (hrespond e _ o))
        · exact .refl sys
    exact hturn.trans ih

end Schedules

/-! ### Processes that follow a protocol -/

section Tracking
variable {P : C → Protocol Op Reply Γ} {I : S → Prop}
  {know : S → C → List (Entry Op Reply) → Γ → Prop} {post : C → Γ → α → Prop}

/-- The process knows something true and is at a program that obeys its protocol from there. -/
def Tracks (P : C → Protocol Op Reply Γ) (know : S → C → List (Entry Op Reply) → Γ → Prop)
    (post : C → Γ → α → Prop) (s : S) (p : Process C Op Reply α) : Prop :=
  ∃ g, know s p.call p.log g ∧ p.program.Follows (P p.call) (post p.call) g

/-- Why processes keep tracking their protocols: a call starts out on its own, each operation
it may perform takes its knowledge further, and no operation of another destroys it. -/
structure Tracking (M : Machine S C Op Reply α) (G : S → Process C Op Reply α → Prop)
    (I : S → Prop) (P : C → Protocol Op Reply Γ)
    (know : S → C → List (Entry Op Reply) → Γ → Prop) (post : C → Γ → α → Prop) : Prop where
  start : ∀ s c, I s → Tracks P know post s ⟨c, [], M.program c⟩
  act : ∀ s c log g o next r s', I s → know s c log g → (P c).allowed g o →
    G s ⟨c, log, .step o next⟩ → M.perform s o r s' →
    ∃ g', (P c).replies g o r g' ∧ know s' c (log ++ [⟨o, r⟩]) g'
  stable : ∀ s c log g s', I s → know s c log g →
    ((∃ o r, M.perform s o r s') ∨ M.external s s') → know s' c log g

theorem Tracking.step (T : Tracking M G I P know post) {n : ℕ} (hI : I sys.state)
    (h : ∀ i p, n ≤ i → sys.processes[i]? = some p → Tracks P know post sys.state p)
    (hstep : Step M G sys sys') :
    ∀ i p, n ≤ i → sys'.processes[i]? = some p → Tracks P know post sys'.state p := by
  have hlater : ∀ s', ((∃ o r, M.perform sys.state o r s') ∨ M.external sys.state s') →
      ∀ i p, n ≤ i → sys.processes[i]? = some p → Tracks P know post s' p := by
    intro s' hs' i p hi hp
    obtain ⟨g, hknow, hfollows⟩ := h i p hi hp
    exact ⟨g, T.stable _ _ _ _ _ hI hknow hs', hfollows⟩
  intro i p hi hp
  cases hstep with
  | start c =>
    rw [System.start, List.getElem?_append] at hp
    by_cases hlt : i < sys.processes.length
    · rw [if_pos hlt] at hp
      exact h i p hi hp
    · rw [if_neg hlt, List.getElem?_singleton] at hp
      split_ifs at hp
      rw [Option.some.injEq] at hp
      rw [← hp]
      exact T.start _ c hI
  | external s hs => exact hlater s (.inr hs) i p hi hp
  | operation j c log o next r s hj hguard hs =>
    rw [System.act, List.getElem?_set] at hp
    by_cases hij : j = i
    · rw [if_pos hij] at hp
      split_ifs at hp
      rw [Option.some.injEq] at hp
      rw [← hp]
      obtain ⟨g, hknow, hallowed, hfollows⟩ := h j _ (hij ▸ hi) hj
      obtain ⟨g', hreplies, hknow'⟩ := T.act _ c log g o next r s hI hknow hallowed hguard hs
      exact ⟨g', hknow', hfollows r g' hreplies⟩
    · rw [if_neg hij] at hp
      exact hlater s (.inl ⟨o, r, hs⟩) i p hi hp

/-- Every process started after `sys` tracks its protocol. -/
theorem Tracking.reaches (T : Tracking M G I P know post) (h : Reaches M G sys sys')
    (hI : ∀ sys₁, Reaches M G sys sys₁ → I sys₁.state) :
    ∀ i p, sys.processes.length ≤ i → sys'.processes[i]? = some p →
      Tracks P know post sys'.state p := by
  induction h with
  | refl =>
    intro i p hi hp
    rw [List.getElem?_eq_none hi] at hp
    cases hp
  | tail hreach hstep ih => exact T.step (hI _ hreach) ih hstep

/-- From a state without processes, an invariant that the operations the protocol allows keep
holds after every run, and every process tracks its protocol. -/
theorem Tracking.from_idle (T : Tracking M G I P know post) {s : S}
    (h : Reaches M G (System.idle s) sys) (hinit : I s)
    (hperform : ∀ s c log g o r s', I s → know s c log g → (P c).allowed g o →
      M.perform s o r s' → I s')
    (hexternal : ∀ s s', I s → M.external s s' → I s') :
    I sys.state ∧ ∀ (i : ℕ) p, sys.processes[i]? = some p → Tracks P know post sys.state p := by
  induction h with
  | refl =>
    refine ⟨hinit, ?_⟩
    intro i p hp
    cases hp
  | @tail sys₁ sys₂ hreach hstep ih =>
    obtain ⟨hI, htracks⟩ := ih
    have htracks' : ∀ (i : ℕ) p, sys₂.processes[i]? = some p → Tracks P know post sys₂.state p := by
      intro i p
      exact T.step hI (fun i p _ => htracks i p) hstep i p (Nat.zero_le i)
    refine ⟨?_, htracks'⟩
    cases hstep with
    | start c => exact hI
    | external s' hs => exact hexternal _ s' hI hs
    | operation i c log o next r s' hi hguard hs =>
      obtain ⟨g, hknow, hallowed, _⟩ := htracks i _ hi
      exact hperform _ c log g o r s' hI hknow hallowed hs

end Tracking

/-! ### Counting operations -/

/-- How often a process has performed an operation of a kind. -/
def countEntries (f : Entry Op Reply → ℕ) (log : List (Entry Op Reply)) : ℕ := (log.map f).sum

@[simp] theorem countEntries_nil (f : Entry Op Reply → ℕ) : countEntries f [] = 0 := rfl

@[simp] theorem countEntries_append (f : Entry Op Reply → ℕ) (log : List (Entry Op Reply))
    (e : Entry Op Reply) : countEntries f (log ++ [e]) = countEntries f log + f e := by
  simp [countEntries]

/-- How often the processes have. -/
def System.total (f : Entry Op Reply → ℕ) (sys : System S C Op Reply α) : ℕ :=
  (sys.processes.map fun p => countEntries f p.log).sum

@[simp] theorem total_idle (f : Entry Op Reply → ℕ) (s : S) :
    (System.idle s : System S C Op Reply α).total f = 0 := rfl

theorem total_start (f : Entry Op Reply → ℕ) (c : C) (p : Program Op Reply α) :
    (sys.start ⟨c, [], p⟩).total f = sys.total f := by
  simp [System.total, System.start]

theorem sum_set {l : List α} {i : ℕ} {a b : α} (f : α → ℕ) (h : l[i]? = some a) :
    ((l.set i b).map f).sum + f a = (l.map f).sum + f b := by
  induction l generalizing i with
  | nil => cases h
  | cons c l ih =>
    cases i with
    | zero =>
      rw [List.getElem?_cons_zero, Option.some.injEq] at h
      subst h
      simp only [List.set_cons_zero, List.map_cons, List.sum_cons]
      omega
    | succ i =>
      rw [List.getElem?_cons_succ] at h
      simp only [List.set_cons_succ, List.map_cons, List.sum_cons]
      have := ih h
      omega

theorem total_act (f : Entry Op Reply → ℕ) {i : ℕ} {c : C} {log : List (Entry Op Reply)} {o : Op}
    {next : Reply o → Program Op Reply α} (hi : sys.processes[i]? = some ⟨c, log, .step o next⟩)
    (r : Reply o) (s : S) :
    (sys.act i s (.advance c log o r next)).total f = sys.total f + f ⟨o, r⟩ := by
  have h := sum_set (b := Process.advance c log o r next)
    (fun p : Process C Op Reply α => countEntries f p.log) hi
  simp only [Process.advance, countEntries_append] at h
  simp only [System.total, System.act, Process.advance]
  omega

/-- What is counted of every process is counted of all. -/
theorem total_le_total {f f' : Entry Op Reply → ℕ}
    (h : ∀ p ∈ sys.processes, countEntries f p.log ≤ countEntries f' p.log) :
    sys.total f ≤ sys.total f' :=
  List.sum_le_sum h

end AtomicProgram
