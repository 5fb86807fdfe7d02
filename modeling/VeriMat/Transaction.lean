import Mathlib

/-! # Transactions over a state with exceptions

A computation over a state either returns or raises, and an exception leaves the state as it
stands. `immediate` runs a body as one transaction, which an exception rolls back. The lemmas
read a run backwards: from what a computation returned or raised to what its parts did. -/
namespace Transaction

variable {ε σ α β : Type}

/-- `if c: raise e`. -/
def raiseIf (c : Prop) [Decidable c] (e : ε) : EStateM ε σ Unit :=
  if c then throw e else pure ()

/-- The row a query gave, or an exception for none. -/
def orRaise (o : Option α) (e : ε) : EStateM ε σ α :=
  match o with
  | some a => pure a
  | none => throw e

/-- `try: BEGIN IMMEDIATE .. COMMIT; except Exception: ROLLBACK; raise`. -/
def immediate (body : EStateM ε σ α) : EStateM ε σ α := fun s =>
  match body s with
  | .ok a s' => .ok a s'
  | .error e _ => .error e s

/-! ## What a part did -/

theorem bind_eq_ok {x : EStateM ε σ α} {f : α → EStateM ε σ β} {s s' : σ} {b : β} :
    (x >>= f) s = .ok b s' ↔ ∃ a s₁, x s = .ok a s₁ ∧ f a s₁ = .ok b s' := by
  change EStateM.bind x f s = _ ↔ _
  unfold EStateM.bind
  cases h : x s with
  | ok a s₁ => simp
  | error e s₁ => simp

theorem bind_eq_error {x : EStateM ε σ α} {f : α → EStateM ε σ β} {s s' : σ} {e : ε} :
    (x >>= f) s = .error e s' ↔
      x s = .error e s' ∨ ∃ a s₁, x s = .ok a s₁ ∧ f a s₁ = .error e s' := by
  change EStateM.bind x f s = _ ↔ _
  unfold EStateM.bind
  cases h : x s with
  | ok a s₁ => simp
  | error e s₁ => simp

@[simp] theorem pure_eq_ok {a b : α} {s s' : σ} :
    (pure a : EStateM ε σ α) s = .ok b s' ↔ b = a ∧ s' = s := by
  change EStateM.Result.ok a s = _ ↔ _
  simp [eq_comm]

theorem map_eq_ok {x : EStateM ε σ α} {f : α → β} {s s' : σ} {b : β} :
    (f <$> x) s = .ok b s' ↔ ∃ a, x s = .ok a s' ∧ b = f a := by
  change EStateM.map f x s = _ ↔ _
  unfold EStateM.map
  cases h : x s with
  | ok a s₁ => simp [eq_comm, and_comm]
  | error e s₁ => simp

theorem map_eq_error {x : EStateM ε σ α} {f : α → β} {s s' : σ} {e : ε} :
    (f <$> x) s = .error e s' ↔ x s = .error e s' := by
  change EStateM.map f x s = _ ↔ _
  unfold EStateM.map
  cases h : x s with
  | ok a s₁ => simp
  | error e s₁ => simp

@[simp] theorem throw_apply (e : ε) (s : σ) : (throw e : EStateM ε σ α) s = .error e s := rfl

@[simp] theorem get_apply (s : σ) : (get : EStateM ε σ σ) s = .ok s s := rfl

@[simp] theorem set_eq_ok {t s s' : σ} {u : PUnit} :
    (set t : EStateM ε σ PUnit) s = .ok u s' ↔ s' = t := by
  change EStateM.Result.ok PUnit.unit t = _ ↔ _
  simp [eq_comm]

@[simp] theorem modify_eq_ok {f : σ → σ} {s s' : σ} {u : PUnit} :
    (modify f : EStateM ε σ PUnit) s = .ok u s' ↔ s' = f s := by
  change EStateM.Result.ok PUnit.unit (f s) = _ ↔ _
  simp [eq_comm]

section Checks
variable {c : Prop} [Decidable c] {e : ε} {s s' : σ}

@[simp] theorem raiseIf_eq_ok {u : Unit} : raiseIf c e s = .ok u s' ↔ ¬ c ∧ s' = s := by
  unfold raiseIf
  by_cases hc : c
  · simp [hc]
  · simp [hc]

theorem raiseIf_raised {e' : ε} (h : raiseIf c e s = .error e' s') : e' = e ∧ s' = s := by
  unfold raiseIf at h
  by_cases hc : c
  · simp only [hc, if_true] at h
    obtain ⟨he, hs⟩ := EStateM.Result.error.inj h
    exact ⟨he.symm, hs.symm⟩
  · simp only [hc, if_false] at h
    cases h

theorem raiseIf_error {e' : ε} (h : raiseIf c e s = .error e' s') : s' = s := (raiseIf_raised h).2

@[simp] theorem orRaise_eq_ok {o : Option α} {a : α} :
    orRaise o e s = .ok a s' ↔ o = some a ∧ s' = s := by
  cases o with
  | none => simp [orRaise]
  | some b => simp [orRaise, eq_comm]

end Checks

/-! ## What is left after a read -/

section Peeling
variable {ε σ α β : Type} {c : Prop} [Decidable c] {e : ε} {s s' : σ} {b : β}

theorem raiseIf_bind_ok {f : Unit → EStateM ε σ β} :
    (raiseIf c e >>= f) s = .ok b s' ↔ ¬c ∧ f () s = .ok b s' := by
  rw [bind_eq_ok]
  constructor
  · rintro ⟨_, s₁, hraise, hf⟩
    obtain ⟨hc, rfl⟩ := raiseIf_eq_ok.mp hraise
    exact ⟨hc, hf⟩
  · rintro ⟨hc, hf⟩
    exact ⟨(), s, raiseIf_eq_ok.mpr ⟨hc, rfl⟩, hf⟩

theorem orRaise_bind_ok {o : Option α} {f : α → EStateM ε σ β} :
    (orRaise o e >>= f) s = .ok b s' ↔ ∃ a, o = some a ∧ f a s = .ok b s' := by
  rw [bind_eq_ok]
  constructor
  · rintro ⟨a, s₁, hraise, hf⟩
    obtain ⟨ha, rfl⟩ := orRaise_eq_ok.mp hraise
    exact ⟨a, ha, hf⟩
  · rintro ⟨a, ha, hf⟩
    exact ⟨a, s, orRaise_eq_ok.mpr ⟨ha, rfl⟩, hf⟩

theorem get_bind_ok {f : σ → EStateM ε σ β} :
    ((get : EStateM ε σ σ) >>= f) s = .ok b s' ↔ f s s = .ok b s' := Iff.rfl

theorem modify_bind_ok {g : σ → σ} {f : PUnit → EStateM ε σ β} :
    ((modify g : EStateM ε σ PUnit) >>= f) s = .ok b s' ↔ f ⟨⟩ (g s) = .ok b s' := Iff.rfl

end Peeling

/-! ## Rollback -/

section Rollback
variable {body : EStateM ε σ α} {s s' : σ} {a : α} {e : ε}

@[simp] theorem immediate_eq_ok : immediate body s = .ok a s' ↔ body s = .ok a s' := by
  unfold immediate
  cases h : body s with
  | ok b s₁ => rfl
  | error e' s₁ => simp

theorem immediate_eq_error :
    immediate body s = .error e s' ↔ s' = s ∧ ∃ s₁, body s = .error e s₁ := by
  unfold immediate
  cases h : body s with
  | ok b s₁ => simp
  | error e' s₁ =>
    simp only [EStateM.Result.error.injEq]
    constructor
    · intro ⟨he, hs⟩
      exact ⟨hs.symm, s₁, he, rfl⟩
    · intro ⟨hs, s₂, he, _⟩
      exact ⟨he, hs.symm⟩

/-- A transaction that raises leaves the state as it was. -/
theorem immediate_rollback (h : immediate body s = .error e s') : s' = s :=
  (immediate_eq_error.mp h).1

/-- A computation that changes nothing when it raises, followed by one that cannot raise. -/
theorem bind_rollback {x : EStateM ε σ α} {f : α → EStateM ε σ β}
    (hx : ∀ e s₁, x s = .error e s₁ → s₁ = s)
    (hf : ∀ a s₁, x s = .ok a s₁ → ∀ e s₂, f a s₁ = .error e s₂ → s₂ = s)
    (h : (x >>= f) s = .error e s') : s' = s := by
  rcases bind_eq_error.mp h with h | ⟨a, s₁, ha, h⟩
  · exact hx e s' h
  · exact hf a s₁ ha e s' h

end Rollback

/-- The computation returns. -/
def returns (x : EStateM ε σ α) (s : σ) : Bool :=
  match x s with
  | .ok _ _ => true
  | .error _ _ => false

theorem returns_iff {x : EStateM ε σ α} {s : σ} :
    returns x s = true ↔ ∃ a s', x s = .ok a s' := by
  unfold returns
  cases h : x s with
  | ok a s' => simp
  | error e s' => simp

/-! ## Replies -/

/-- The outcome of a computation, as a reply. -/
def Outcome (x : EStateM ε σ α) (s : σ) (r : Except ε α) (s' : σ) : Prop :=
  match x s with
  | .ok a s₁ => r = .ok a ∧ s' = s₁
  | .error e s₁ => r = .error e ∧ s' = s₁

/-- The reply and the state of an outcome. -/
def ran (x : EStateM ε σ α) (s : σ) : Except ε α × σ :=
  match x s with
  | .ok a s' => (.ok a, s')
  | .error e s' => (.error e, s')

theorem outcome_ran (x : EStateM ε σ α) (s : σ) : Outcome x s (ran x s).1 (ran x s).2 := by
  unfold Outcome ran
  cases x s with
  | ok a s' => exact ⟨rfl, rfl⟩
  | error e s' => exact ⟨rfl, rfl⟩

theorem outcome_ok {x : EStateM ε σ α} {s s' : σ} {a : α} :
    Outcome x s (.ok a) s' ↔ x s = .ok a s' := by
  unfold Outcome
  cases h : x s with
  | ok b s₁ => simp [eq_comm]
  | error e s₁ => simp

theorem outcome_error {x : EStateM ε σ α} {s s' : σ} {e : ε} :
    Outcome x s (.error e) s' ↔ x s = .error e s' := by
  unfold Outcome
  cases h : x s with
  | ok b s₁ => simp
  | error e' s₁ => simp [eq_comm]

/-! ## Reads -/

/-- A computation that leaves the state as it is. -/
def ReadOnly (x : EStateM ε σ α) : Prop :=
  ∀ s, (∀ a s', x s = .ok a s' → s' = s) ∧ ∀ e s', x s = .error e s' → s' = s

theorem ReadOnly.bind {x : EStateM ε σ α} {f : α → EStateM ε σ β} (hx : ReadOnly x)
    (hf : ∀ a, ReadOnly (f a)) : ReadOnly (x >>= f) := by
  intro s
  constructor
  · intro b s' h
    obtain ⟨a, s₁, h₁, h₂⟩ := bind_eq_ok.mp h
    exact ((hf a s₁).1 b s' h₂).trans ((hx s).1 a s₁ h₁)
  · intro e s' h
    rcases bind_eq_error.mp h with h₁ | ⟨a, s₁, h₁, h₂⟩
    · exact (hx s).2 e s' h₁
    · exact ((hf a s₁).2 e s' h₂).trans ((hx s).1 a s₁ h₁)

theorem readOnly_pure (a : α) : ReadOnly (pure a : EStateM ε σ α) := by
  intro s
  constructor
  · intro b s' h
    exact (pure_eq_ok.mp h).2
  · intro e s' h
    cases h

theorem ReadOnly.map {x : EStateM ε σ α} (hx : ReadOnly x) (f : α → β) : ReadOnly (f <$> x) := by
  intro s
  constructor
  · intro b s' h
    obtain ⟨a, ha, _⟩ := map_eq_ok.mp h
    exact (hx s).1 a s' ha
  · intro e s' h
    exact (hx s).2 e s' (map_eq_error.mp h)

theorem readOnly_throw (e : ε) : ReadOnly (throw e : EStateM ε σ α) := by
  intro s
  constructor
  · intro a s' h
    cases h
  · intro e' s' h
    cases h
    rfl

theorem readOnly_get : ReadOnly (get : EStateM ε σ σ) := by
  intro s
  constructor
  · intro a s' h
    cases h
    rfl
  · intro e s' h
    cases h

theorem readOnly_raiseIf (c : Prop) [Decidable c] (e : ε) :
    ReadOnly (raiseIf c e : EStateM ε σ Unit) := by
  intro s
  exact ⟨fun _ _ h => (raiseIf_eq_ok.mp h).2, fun _ _ => raiseIf_error⟩

theorem readOnly_orRaise (o : Option α) (e : ε) : ReadOnly (orRaise o e : EStateM ε σ α) := by
  cases o with
  | none => exact readOnly_throw e
  | some a => exact readOnly_pure a

theorem readOnly_mapM {f : α → EStateM ε σ β} (hf : ∀ a, ReadOnly (f a)) (l : List α) :
    ReadOnly (l.mapM f) := by
  induction l with
  | nil => exact readOnly_pure []
  | cons a l ih =>
    rw [List.mapM_cons]
    exact (hf a).bind fun _ => ih.bind fun _ => readOnly_pure _

/-! ## Changes after the last exception -/

/-- A computation that never raises. -/
def Infallible (x : EStateM ε σ α) : Prop := ∀ s e s', x s ≠ .error e s'

theorem infallible_pure (a : α) : Infallible (pure a : EStateM ε σ α) := by
  intro s e s' h
  cases h

theorem infallible_modify (f : σ → σ) : Infallible (modify f : EStateM ε σ PUnit) := by
  intro s e s' h
  cases h

theorem infallible_set (s : σ) : Infallible (set s : EStateM ε σ PUnit) := by
  intro s₁ e s' h
  cases h

theorem Infallible.map {x : EStateM ε σ α} (hx : Infallible x) (f : α → β) :
    Infallible (f <$> x) := by
  intro s e s' h
  exact hx s e s' (map_eq_error.mp h)

theorem Infallible.bind {x : EStateM ε σ α} {f : α → EStateM ε σ β} (hx : Infallible x)
    (hf : ∀ a, Infallible (f a)) : Infallible (x >>= f) := by
  intro s e s' h
  rcases bind_eq_error.mp h with h | ⟨a, s₁, _, h⟩
  · exact hx s e s' h
  · exact hf a s₁ e s' h

/-- A computation that leaves the state as it was when it raises. -/
def Atomic (x : EStateM ε σ α) : Prop := ∀ s e s', x s = .error e s' → s' = s

theorem Infallible.atomic {x : EStateM ε σ α} (hx : Infallible x) : Atomic x :=
  fun s e s' h => absurd h (hx s e s')

theorem ReadOnly.atomic {x : EStateM ε σ α} (hx : ReadOnly x) : Atomic x :=
  fun s e s' h => (hx s).2 e s' h

/-- Reads in front of an atomic computation; it may count on what they returned. -/
theorem ReadOnly.bind_atomic {x : EStateM ε σ α} {f : α → EStateM ε σ β} (hx : ReadOnly x)
    (hf : ∀ s a, x s = .ok a s → Atomic (f a)) : Atomic (x >>= f) := by
  intro s e s' h
  rcases bind_eq_error.mp h with hraised | ⟨a, s₁, ha, hraised⟩
  · exact (hx s).2 e s' hraised
  · have hs : s₁ = s := (hx s).1 a s₁ ha
    rw [hs] at ha hraised
    exact hf s a ha s e s' hraised

/-- Changes that cannot raise behind an atomic computation. -/
theorem Atomic.bind_infallible {x : EStateM ε σ α} {f : α → EStateM ε σ β} (hx : Atomic x)
    (hf : ∀ a, Infallible (f a)) : Atomic (x >>= f) := by
  intro s e s' h
  rcases bind_eq_error.mp h with h | ⟨a, s₁, _, h⟩
  · exact hx s e s' h
  · exact absurd h (hf a s₁ e s')

/-! ## Frames -/

/-- Whether it returns or raises, a computation leaves a state that is so related to the one
before. -/
def Leaves (R : σ → σ → Prop) (x : EStateM ε σ α) : Prop := ∀ s, R s (ran x s).2

variable {R : σ → σ → Prop}

theorem leaves_iff {x : EStateM ε σ α} :
    Leaves R x ↔ ∀ s, (∀ a s', x s = .ok a s' → R s s') ∧ ∀ e s', x s = .error e s' → R s s' := by
  apply forall_congr'
  intro s
  unfold ran
  cases x s with
  | ok a s' => simp
  | error e s' => simp

theorem ReadOnly.leaves {x : EStateM ε σ α} (hx : ReadOnly x) (hrefl : ∀ s, R s s) :
    Leaves R x := by
  refine leaves_iff.mpr fun s => ⟨?_, ?_⟩
  · intro a s' h
    rw [(hx s).1 a s' h]
    exact hrefl s
  · intro e s' h
    rw [(hx s).2 e s' h]
    exact hrefl s

theorem Leaves.bind {x : EStateM ε σ α} {f : α → EStateM ε σ β} (hx : Leaves R x)
    (hf : ∀ a, Leaves R (f a)) (htrans : ∀ s s' s'', R s s' → R s' s'' → R s s'') :
    Leaves R (x >>= f) := by
  refine leaves_iff.mpr fun s => ⟨?_, ?_⟩
  · intro b s' h
    obtain ⟨a, s₁, h₁, h₂⟩ := bind_eq_ok.mp h
    exact htrans _ _ _ ((leaves_iff.mp hx s).1 a s₁ h₁) ((leaves_iff.mp (hf a) s₁).1 b s' h₂)
  · intro e s' h
    rcases bind_eq_error.mp h with h₁ | ⟨a, s₁, h₁, h₂⟩
    · exact (leaves_iff.mp hx s).2 e s' h₁
    · exact htrans _ _ _ ((leaves_iff.mp hx s).1 a s₁ h₁) ((leaves_iff.mp (hf a) s₁).2 e s' h₂)

theorem Leaves.immediate {body : EStateM ε σ α} (h : Leaves R body) (hrefl : ∀ s, R s s) :
    Leaves R (immediate body) := by
  refine leaves_iff.mpr fun s => ⟨?_, ?_⟩
  · intro a s' ha
    exact (leaves_iff.mp h s).1 a s' (immediate_eq_ok.mp ha)
  · intro e s' he
    rw [immediate_rollback he]
    exact hrefl s

/-! ## Contracts -/

section Contracts
variable {I : σ → Prop}

/-- From a state of the invariant on, a computation leaves one of the invariant that is so
related to it, whether it returns or raises, and returns what the postcondition says. -/
def Yields (I : σ → Prop) (R : σ → σ → Prop) (x : EStateM ε σ α) (post : α → Prop) : Prop :=
  ∀ s, I s → I (ran x s).2 ∧ R s (ran x s).2 ∧ ∀ a s', x s = .ok a s' → post a

theorem ran_ok {x : EStateM ε σ α} {s s' : σ} {a : α} (h : x s = .ok a s') :
    ran x s = (.ok a, s') := by
  rw [ran, h]

theorem ran_error {x : EStateM ε σ α} {s s' : σ} {e : ε} (h : x s = .error e s') :
    ran x s = (.error e, s') := by
  rw [ran, h]

variable {post : α → Prop}

theorem Yields.bind {post' : β → Prop} {x : EStateM ε σ α} {f : α → EStateM ε σ β}
    (hx : Yields I R x post) (hf : ∀ a, post a → Yields I R (f a) post')
    (htrans : ∀ s s' s'', R s s' → R s' s'' → R s s'') : Yields I R (x >>= f) post' := by
  intro s hs
  obtain ⟨hI, hR, hpost⟩ := hx s hs
  cases hran : x s with
  | ok a s₁ =>
    rw [ran_ok hran] at hI hR
    obtain ⟨hI', hR', hpost'⟩ := hf a (hpost a s₁ hran) s₁ hI
    have hbind : (x >>= f) s = f a s₁ := by
      change EStateM.bind x f s = _
      rw [EStateM.bind, hran]
    have hlater : ran (x >>= f) s = ran (f a) s₁ := by
      rw [ran, ran, hbind]
    rw [hlater]
    refine ⟨hI', htrans _ _ _ hR hR', ?_⟩
    intro b s' hb
    exact hpost' b s' (hbind ▸ hb)
  | error e s₁ =>
    have hbind : (x >>= f) s = .error e s₁ := by
      change EStateM.bind x f s = _
      rw [EStateM.bind, hran]
    rw [ran_error hran] at hI hR
    rw [ran_error hbind]
    refine ⟨hI, hR, ?_⟩
    intro b s' hb
    rw [hbind] at hb
    cases hb

theorem Yields.weaken {post' : α → Prop} {x : EStateM ε σ α} (hx : Yields I R x post)
    (h : ∀ a, post a → post' a) : Yields I R x post' :=
  fun s hs => ⟨(hx s hs).1, (hx s hs).2.1, fun a s' ha => h a ((hx s hs).2.2 a s' ha)⟩

theorem ReadOnly.yields {x : EStateM ε σ α} (hx : ReadOnly x) (hrefl : ∀ s, R s s)
    (hpost : ∀ s a, I s → x s = .ok a s → post a) : Yields I R x post := by
  intro s hs
  have hsame : (ran x s).2 = s := by
    cases hran : x s with
    | ok a s' => rw [ran_ok hran, (hx s).1 a s' hran]
    | error e s' => rw [ran_error hran, (hx s).2 e s' hran]
  rw [hsame]
  refine ⟨hs, hrefl s, ?_⟩
  intro a s' ha
  have hs' := (hx s).1 a s' ha
  subst hs'
  exact hpost s' a hs ha

theorem yields_pure {a : α} (hrefl : ∀ s, R s s) (h : post a) :
    Yields I R (pure a : EStateM ε σ α) post := by
  refine (readOnly_pure a).yields hrefl ?_
  intro s b _ hb
  rw [(pure_eq_ok.mp hb).1]
  exact h

theorem yields_throw {e : ε} (hrefl : ∀ s, R s s) :
    Yields I R (throw e : EStateM ε σ α) post := by
  refine (readOnly_throw e).yields hrefl ?_
  intro s b _ hb
  cases hb

theorem yields_get (hrefl : ∀ s, R s s) : Yields I R (get : EStateM ε σ σ) I := by
  refine readOnly_get.yields hrefl ?_
  intro s a hs ha
  cases ha
  exact hs

theorem yields_raiseIf {c : Prop} [Decidable c] {e : ε} (hrefl : ∀ s, R s s) :
    Yields I R (raiseIf c e) fun _ => ¬c := by
  refine (readOnly_raiseIf c e).yields hrefl ?_
  intro s u _ hu
  exact (raiseIf_eq_ok.mp hu).1

theorem yields_orRaise {o : Option α} {e : ε} (hrefl : ∀ s, R s s) :
    Yields I R (orRaise o e) fun a => o = some a := by
  refine (readOnly_orRaise o e).yields hrefl ?_
  intro s a _ ha
  exact (orRaise_eq_ok.mp ha).1

theorem Yields.immediate {body : EStateM ε σ α} (hx : Yields I R body post)
    (hrefl : ∀ s, R s s) : Yields I R (immediate body) post := by
  intro s hs
  obtain ⟨hI, hR, hpost⟩ := hx s hs
  cases hran : body s with
  | ok a s' =>
    rw [ran_ok hran] at hI hR
    rw [ran_ok (immediate_eq_ok.mpr hran)]
    refine ⟨hI, hR, ?_⟩
    intro b s₁ hb
    exact hpost b s₁ (immediate_eq_ok.mp hb)
  | error e s' =>
    have herror : Transaction.immediate body s = .error e s :=
      immediate_eq_error.mpr ⟨rfl, s', hran⟩
    rw [ran_error herror]
    refine ⟨hs, hrefl s, ?_⟩
    intro b s₁ hb
    rw [herror] at hb
    cases hb

end Contracts

/-! ## Results that do not depend on the state -/

section Steady
variable {x : EStateM ε σ α} {f : α → EStateM ε σ β} {s : σ}

/-- From every state it returns or raises the same. -/
def Steady (x : EStateM ε σ α) : Prop := ∀ s s', (ran x s).1 = (ran x s').1

theorem ran_ok_fst {a : α} : (ran x s).1 = .ok a ↔ ∃ s', x s = .ok a s' := by
  unfold ran
  cases h : x s with
  | ok b s₁ => simp
  | error e s₁ => simp

@[simp] theorem ran_pure_fst (a : α) : (ran (pure a : EStateM ε σ α) s).1 = .ok a := rfl

theorem steady_pure (a : α) : Steady (pure a : EStateM ε σ α) := fun _ _ => rfl

theorem steady_throw (e : ε) : Steady (throw e : EStateM ε σ α) := fun _ _ => rfl

theorem ran_eq_ok {a : α} {s₁ : σ} : ran x s = (.ok a, s₁) ↔ x s = .ok a s₁ := by
  unfold ran
  cases h : x s with
  | ok b s₂ => simp
  | error e s₂ => simp

theorem ran_eq_error {e : ε} {s₁ : σ} : ran x s = (.error e, s₁) ↔ x s = .error e s₁ := by
  unfold ran
  cases h : x s with
  | ok b s₂ => simp
  | error e s₂ => simp

theorem ran_bind_ok {a : α} {s₁ : σ} (h : ran x s = (.ok a, s₁)) :
    ran (x >>= f) s = ran (f a) s₁ := by
  have hbind : (x >>= f) s = f a s₁ := by
    change EStateM.bind x f s = _
    rw [EStateM.bind, ran_eq_ok.mp h]
  rw [ran, ran, hbind]

theorem ran_bind_error {e : ε} {s₁ : σ} (h : ran x s = (.error e, s₁)) :
    ran (x >>= f) s = (.error e, s₁) := by
  refine ran_eq_error.mpr ?_
  change EStateM.bind x f s = _
  rw [EStateM.bind, ran_eq_error.mp h]

theorem ran_bind_fst (x : EStateM ε σ α) (f : α → EStateM ε σ β) (s : σ) :
    (ran (x >>= f) s).1 = (ran x s).1.bind fun a => (ran (f a) (ran x s).2).1 := by
  change (ran (EStateM.bind x f) s).1 = _
  unfold ran EStateM.bind
  cases x s with
  | ok a s₁ => rfl
  | error e s₁ => rfl

theorem Steady.bind (hx : Steady x) (hf : ∀ a, Steady (f a)) : Steady (x >>= f) := by
  intro s s'
  rw [ran_bind_fst, ran_bind_fst, hx s s']
  congr 1
  funext a
  exact hf a _ _

/-- One computation after the other, both looked at from one state. -/
theorem Steady.bind_ok (hf : ∀ a, Steady (f a)) {b : β} :
    (ran (x >>= f) s).1 = .ok b ↔ ∃ a, (ran x s).1 = .ok a ∧ (ran (f a) s).1 = .ok b := by
  rw [ran_bind_fst]
  cases (ran x s).1 with
  | ok a =>
    have hstate : (ran (f a) (ran x s).2).1 = (ran (f a) s).1 := hf a _ _
    simp [Except.bind, hstate]
  | error e => simp [Except.bind]

/-- A computation whose result is only looked at. -/
theorem ran_bind_pure_ok {g : α → β} {b : β} :
    (ran (x >>= fun a => pure (g a)) s).1 = .ok b ↔ ∃ a, (ran x s).1 = .ok a ∧ b = g a := by
  rw [ran_bind_fst]
  cases (ran x s).1 with
  | ok a => simp [Except.bind, eq_comm]
  | error e => simp [Except.bind]

theorem ran_bind_pure_snd {g : α → β} :
    (ran (x >>= fun a => pure (g a)) s).2 = (ran x s).2 := by
  cases h : ran x s with
  | mk r s₁ =>
    cases r with
    | ok a =>
      rw [ran_bind_ok h]
      rfl
    | error e => rw [ran_bind_error h]

theorem steady_mapM {f : α → EStateM ε σ β} (hf : ∀ a, Steady (f a)) (l : List α) :
    Steady (l.mapM f) := by
  induction l with
  | nil => exact steady_pure []
  | cons a l ih =>
    rw [List.mapM_cons]
    exact (hf a).bind fun _ => ih.bind fun _ => steady_pure _

theorem steady_mapM_ok {f : α → EStateM ε σ β} (hf : ∀ a, Steady (f a)) {l : List α}
    {bs : List β} :
    (ran (l.mapM f) s).1 = .ok bs ↔ List.Forall₂ (fun a b => (ran (f a) s).1 = .ok b) l bs := by
  induction l generalizing bs with
  | nil =>
    rw [List.mapM_nil]
    constructor
    · intro h
      obtain rfl : [] = bs := Except.ok.inj h
      exact .nil
    · rintro ⟨⟩
      rfl
  | cons a l ih =>
    rw [List.mapM_cons, Steady.bind_ok fun b => (steady_mapM hf l).bind fun _ => steady_pure _]
    constructor
    · rintro ⟨b, hb, hrest⟩
      obtain ⟨bs', hbs', hcons⟩ := (Steady.bind_ok fun _ => steady_pure _).mp hrest
      obtain rfl : b :: bs' = bs := Except.ok.inj hcons
      exact .cons hb (ih.mp hbs')
    · intro h
      cases h with
      | cons hb hrest =>
        exact ⟨_, hb, (Steady.bind_ok fun _ => steady_pure _).mpr ⟨_, ih.mpr hrest, rfl⟩⟩

end Steady

/-! ## Triples -/

section Triples
variable {P : σ → Prop} {Q : α → σ → Prop} {E : σ → Prop} {x : EStateM ε σ α}

/-- From a state of the precondition on, a computation returns as the one postcondition says or
raises in a state of the other. -/
def Triple (P : σ → Prop) (x : EStateM ε σ α) (Q : α → σ → Prop) (E : σ → Prop) : Prop :=
  ∀ s, P s → (∀ a s', x s = .ok a s' → Q a s') ∧ ∀ e s', x s = .error e s' → E s'

theorem Triple.bind {Q' : β → σ → Prop} {f : α → EStateM ε σ β} (hx : Triple P x Q E)
    (hf : ∀ a, Triple (Q a) (f a) Q' E) : Triple P (x >>= f) Q' E := by
  intro s hs
  constructor
  · intro b s' h
    obtain ⟨a, s₁, h₁, h₂⟩ := bind_eq_ok.mp h
    exact (hf a s₁ ((hx s hs).1 a s₁ h₁)).1 b s' h₂
  · intro e s' h
    rcases bind_eq_error.mp h with h₁ | ⟨a, s₁, h₁, h₂⟩
    · exact (hx s hs).2 e s' h₁
    · exact (hf a s₁ ((hx s hs).1 a s₁ h₁)).2 e s' h₂

theorem triple_pure {a : α} (h : ∀ s, P s → Q a s) : Triple P (pure a : EStateM ε σ α) Q E := by
  intro s hs
  constructor
  · rintro _ _ ⟨⟩
    exact h s hs
  · intro e s' he
    cases he

theorem triple_of_ok (h : ∀ s, P s → ∃ a s', x s = .ok a s' ∧ Q a s') : Triple P x Q E := by
  intro s hs
  obtain ⟨a, t, hrun, hQ⟩ := h s hs
  rw [hrun]
  constructor
  · rintro _ _ ⟨⟩
    exact hQ
  · intro e s' he
    cases he

theorem triple_throw {e : ε} (h : ∀ s, P s → E s) : Triple P (throw e : EStateM ε σ α) Q E := by
  intro s hs
  constructor
  · intro a s' ha
    cases ha
  · rintro _ _ ⟨⟩
    exact h s hs

theorem triple_modify {f : σ → σ} {Q : PUnit → σ → Prop} (h : ∀ s, P s → Q ⟨⟩ (f s)) :
    Triple P (modify f : EStateM ε σ PUnit) Q E := by
  intro s hs
  constructor
  · rintro _ _ ⟨⟩
    exact h s hs
  · intro e s' he
    cases he

theorem triple_set {t : σ} {Q : PUnit → σ → Prop} (h : ∀ s, P s → Q ⟨⟩ t) :
    Triple P (set t : EStateM ε σ PUnit) Q E := by
  intro s hs
  constructor
  · rintro _ _ ⟨⟩
    exact h s hs
  · intro e s' he
    cases he

/-- The state is read: what follows may use that it is the state. -/
theorem Triple.get {Q : β → σ → Prop} {f : σ → EStateM ε σ β}
    (hf : ∀ s, P s → Triple (· = s) (f s) Q E) :
    Triple P ((get : EStateM ε σ σ) >>= f) Q E := by
  intro s hs
  exact hf s hs s rfl

theorem Triple.weaken {P' : σ → Prop} {Q' : α → σ → Prop} (hx : Triple P x Q E)
    (hP : ∀ s, P' s → P s) (hQ : ∀ a s, Q a s → Q' a s) : Triple P' x Q' E := by
  intro s hs
  exact ⟨fun a s' h => hQ a s' ((hx s (hP s hs)).1 a s' h), (hx s (hP s hs)).2⟩

/-- A loop whose body keeps an invariant keeps it. -/
theorem triple_forM {I : σ → Prop} {f : α → EStateM ε σ PUnit}
    (hf : ∀ a, Triple I (f a) (fun _ => I) E) (l : List α) :
    Triple I (l.forM f) (fun _ => I) E := by
  induction l with
  | nil => exact triple_pure fun s hs => hs
  | cons a l ih => exact (hf a).bind fun _ => ih

end Triples

/-! ## Runs that end well

Some states are spoilt, and what follows does not mend them. A run ends well when it returns in a
state that is not. -/

section EndsWell
variable {Spoilt : σ → Prop} {x : EStateM ε σ α} {post : α → σ → Prop} {s : σ}

def EndsWell (Spoilt : σ → Prop) (x : EStateM ε σ α) (post : α → σ → Prop) (s : σ) : Prop :=
  ∃ a s', x s = .ok a s' ∧ ¬Spoilt s' ∧ post a s'

/-- A spoilt state stays spoilt. -/
def Lasts (Spoilt : σ → Prop) (x : EStateM ε σ α) : Prop :=
  Triple Spoilt x (fun _ => Spoilt) fun _ => True

theorem EndsWell.congr (post' : α → σ → Prop)
    (h : ∀ a s', ¬Spoilt s' → (post a s' ↔ post' a s')) :
    EndsWell Spoilt x post s ↔ EndsWell Spoilt x post' s := by
  refine exists₂_congr fun a s' => and_congr_right fun _ => ?_
  exact and_congr_right (h a s')

theorem endsWell_bind {post : β → σ → Prop} {f : α → EStateM ε σ β}
    (hf : ∀ a, Lasts Spoilt (f a)) :
    EndsWell Spoilt (x >>= f) post s ↔
      EndsWell Spoilt x (fun a => EndsWell Spoilt (f a) post) s := by
  constructor
  · rintro ⟨b, s', hrun, hs', hpost⟩
    obtain ⟨a, s₁, h₁, h₂⟩ := bind_eq_ok.mp hrun
    refine ⟨a, s₁, h₁, ?_, b, s', h₂, hs', hpost⟩
    intro hspoilt
    exact hs' ((hf a s₁ hspoilt).1 b s' h₂)
  · rintro ⟨a, s₁, h₁, -, b, s', h₂, hs', hpost⟩
    exact ⟨b, s', bind_eq_ok.mpr ⟨a, s₁, h₁, h₂⟩, hs', hpost⟩

theorem endsWell_pure {a : α} (hs : ¬Spoilt s) :
    EndsWell Spoilt (pure a : EStateM ε σ α) post s ↔ post a s := by
  constructor
  · rintro ⟨_, _, ⟨⟩, -, h⟩
    exact h
  · exact fun h => ⟨a, s, rfl, hs, h⟩

theorem not_endsWell_throw {e : ε} : ¬EndsWell Spoilt (throw e : EStateM ε σ α) post s := by
  rintro ⟨_, _, ⟨⟩, -⟩

theorem endsWell_modify {f : σ → σ} {post : PUnit → σ → Prop} :
    EndsWell Spoilt (modify f : EStateM ε σ PUnit) post s ↔ ¬Spoilt (f s) ∧ post ⟨⟩ (f s) := by
  constructor
  · rintro ⟨_, _, ⟨⟩, h⟩
    exact h
  · exact fun h => ⟨⟨⟩, f s, rfl, h⟩

theorem endsWell_get {post : β → σ → Prop} {f : σ → EStateM ε σ β} :
    EndsWell Spoilt ((get : EStateM ε σ σ) >>= f) post s ↔ EndsWell Spoilt (f s) post s :=
  Iff.rfl

theorem Lasts.bind {f : α → EStateM ε σ β} (hx : Lasts Spoilt x) (hf : ∀ a, Lasts Spoilt (f a)) :
    Lasts Spoilt (x >>= f) :=
  Triple.bind hx hf

theorem lasts_forM {f : α → EStateM ε σ PUnit} (hf : ∀ a, Lasts Spoilt (f a)) (l : List α) :
    Lasts Spoilt (l.forM f) :=
  triple_forM hf l

/-- A run that returns or raises, as it is computed. -/
theorem endsWell_of_ok {a : α} {s' : σ} (h : ran x s = (.ok a, s')) :
    EndsWell Spoilt x post s ↔ ¬Spoilt s' ∧ post a s' := by
  have hrun : x s = .ok a s' := ran_eq_ok.mp h
  constructor
  · rintro ⟨b, s₁, hb, hend⟩
    cases hb.symm.trans hrun
    exact hend
  · exact fun hend => ⟨a, s', hrun, hend⟩

theorem not_endsWell_of_error {e : ε} {s' : σ} (h : ran x s = (.error e, s')) :
    ¬EndsWell Spoilt x post s := by
  rintro ⟨b, s₁, hb, -⟩
  rw [ran_ok hb] at h
  cases h

end EndsWell

/-! ## One computation seen through a map of its states -/

section Mirrors
variable {τ : Type} {f : σ → τ}

/-- The second computation is the first one in states seen through the map. -/
def Mirrors (f : σ → τ) (x : EStateM ε σ α) (y : EStateM ε τ α) : Prop :=
  ∀ s, ran y (f s) = ((ran x s).1, f (ran x s).2)

theorem mirrors_pure (a : α) : Mirrors f (pure a : EStateM ε σ α) (pure a) := fun _ => rfl

theorem mirrors_throw (e : ε) : Mirrors f (throw e : EStateM ε σ α) (throw e) := fun _ => rfl

theorem Mirrors.bind {x : EStateM ε σ α} {y : EStateM ε τ α} {g : α → EStateM ε σ β}
    {h : α → EStateM ε τ β} (hx : Mirrors f x y) (hg : ∀ a, Mirrors f (g a) (h a)) :
    Mirrors f (x >>= g) (y >>= h) := by
  intro s
  have hfirst := hx s
  rcases hran : ran x s with ⟨r, s'⟩
  rw [hran] at hfirst
  cases r with
  | ok a => rw [ran_bind_ok hran, ran_bind_ok hfirst, hg a s']
  | error e => rw [ran_bind_error hran, ran_bind_error hfirst]

theorem mirrors_forM {g : α → EStateM ε σ PUnit} {h : α → EStateM ε τ PUnit}
    (hg : ∀ a, Mirrors f (g a) (h a)) (l : List α) : Mirrors f (l.forM g) (l.forM h) := by
  induction l with
  | nil => exact mirrors_pure _
  | cons a l ih => exact (hg a).bind fun _ => ih

/-- The state is read, and what follows is the same in both. -/
theorem mirrors_get {g : σ → EStateM ε σ β} {h : τ → EStateM ε τ β}
    (hg : ∀ s, ran (h (f s)) (f s) = ((ran (g s) s).1, f (ran (g s) s).2)) :
    Mirrors f ((get : EStateM ε σ σ) >>= g) ((get : EStateM ε τ τ) >>= h) := fun s => hg s

end Mirrors

end Transaction
