import VeriMat.Interleaving

/-! # States that only grow

Where no operation and no other party takes back what is there, an assertion that a larger state
also satisfies lasts, and every program carries it along. -/
namespace GrowingState

open AtomicProgram RelyGuarantee Interleaving

variable {S Op : Type} {Reply : Op → Type} {α β ε ε' : Type}

/-! ## Assertions about what is there -/

/-- A larger state satisfies the assertion too. -/
def Upward (Grows : S → S → Prop) (A : S → Prop) : Prop := ∀ s s', Grows s s' → A s → A s'

/-- What the others and the operations do makes the state larger. -/
structure Growing (perform : S → (o : Op) → Reply o → S → Prop) (R : S → S → Prop) (I : S → Prop)
    (Grows : S → S → Prop) : Prop where
  others : ∀ s s', I s → R s s' → Grows s s'
  acts : ∀ s o r s', I s → perform s o r s' → Grows s s'

variable {perform : S → (o : Op) → Reply o → S → Prop} {R Grows : S → S → Prop} {I A B : S → Prop}

theorem upward_const {p : Prop} : Upward Grows fun _ => p := fun _ _ _ hp => hp

theorem Upward.and (hA : Upward Grows A) (hB : Upward Grows B) :
    Upward Grows fun s => A s ∧ B s :=
  fun s s' h hs => ⟨hA s s' h hs.1, hB s s' h hs.2⟩

theorem upward_imp {p : Prop} (hA : p → Upward Grows A) : Upward Grows fun s => p → A s :=
  fun s s' h hs hp => hA hp s s' h (hs hp)

theorem upward_forall {ι : Sort*} {A : ι → S → Prop} (hA : ∀ i, Upward Grows (A i)) :
    Upward Grows fun s => ∀ i, A i s :=
  fun s s' h hs i => hA i s s' h (hs i)

theorem upward_exists {ι : Sort*} {A : ι → S → Prop} (hA : ∀ i, Upward Grows (A i)) :
    Upward Grows fun s => ∃ i, A i s := by
  rintro s s' h ⟨i, hs⟩
  exact ⟨i, hA i s s' h hs⟩

theorem Growing.stable (G : Growing perform R I Grows) (hA : Upward Grows A) : Stable R I A :=
  fun s s' hI hR hs => hA s s' (G.others s s' hI hR) hs

/-! ## Programs -/

/-- A program carries along what only grows. -/
theorem Growing.frame (G : Growing perform R I Grows) {post : α → S → Prop}
    {p : Program Op Reply α} (hp : Program.Meets perform R I post p A) (hB : Upward Grows B) :
    Program.Meets perform R I (fun a s => post a s ∧ B s) p fun s => A s ∧ B s := by
  induction p generalizing A with
  | done a => exact fun s hI hs => ⟨hp s hI hs.1, hs.2⟩
  | step o next ih =>
    obtain ⟨K, hacts, hnext⟩ := hp
    refine ⟨fun r s => K r s ∧ B s, ⟨?_, ?_, ?_⟩, fun r => ih r (hnext r)⟩
    · exact fun s r s' hI hs => hacts.keeps s r s' hI hs.1
    · exact fun r => (hacts.stable r).and (G.stable hB)
    · intro s r s' hI hs hperform
      exact ⟨hacts.leads s r s' hI hs.1 hperform, hB s s' (G.acts s o r s' hI hperform) hs.2⟩

/-- A program whose operations all keep the invariant. -/
theorem meets_of_only {P : Op → Prop}
    (hkeeps : ∀ s o r s', I s → P o → perform s o r s' → I s') {p : Program Op Reply α}
    (hp : Only P p) : Program.Meets perform R I (fun _ _ => True) p fun _ => True := by
  induction p with
  | done a => exact fun _ _ _ => trivial
  | step o next ih =>
    refine ⟨fun _ _ => True, ⟨?_, fun _ => stable_const, ?_⟩, fun r => ih r (hp.2 r)⟩
    · exact fun s r s' hI _ hperform => hkeeps s o r s' hI hp.1 hperform
    · exact fun _ _ _ _ _ _ => trivial

/-- What is known to exist may be named. -/
theorem meets_exists {ι : Sort*} {A : ι → S → Prop} {post : α → S → Prop} {p : Program Op Reply α}
    (hp : ∀ i, Program.Meets perform R I post p (A i)) :
    Program.Meets perform R I post p fun s => ∃ i, A i s := by
  induction p generalizing A with
  | done a =>
    rintro s hI ⟨i, hs⟩
    exact hp i s hI hs
  | step o next ih =>
    choose K hacts hnext using hp
    refine ⟨fun r s => ∃ i, K i r s, ⟨?_, ?_, ?_⟩, fun r => ih r fun i => hnext i r⟩
    · rintro s r s' hI ⟨i, hs⟩ hperform
      exact (hacts i).keeps s r s' hI hs hperform
    · rintro r s s' hI hR ⟨i, hs⟩
      exact ⟨i, (hacts i).stable r s s' hI hR hs⟩
    · rintro s r s' hI ⟨i, hs⟩ hperform
      exact ⟨i, (hacts i).leads s r s' hI hs hperform⟩

/-- A fact that the assertion gives and that does not depend on the state. -/
theorem meets_of_known {q : Prop} {post : α → S → Prop} {p : Program Op Reply α}
    (hq : ∀ s, I s → A s → q) (hp : q → Program.Meets perform R I post p A) :
    Program.Meets perform R I post p A := by
  by_cases h : q
  · exact hp h
  · exact Program.Meets.unreachable fun s hI hs => h (hq s hI hs)

/-- A program of a part, in the whole. -/
theorem meets_embed {Op' : Type} {Reply' : Op' → Type}
    {perform' : S → (o : Op') → Reply' o → S → Prop} {f : Op → Op'}
    {back : ∀ o, Reply' (f o) → Reply o} {post : α → S → Prop} {p : Program Op Reply α}
    (hperform : ∀ s o r s', perform' s (f o) r s' → perform s o (back o r) s')
    (hp : Program.Meets perform R I post p A) :
    Program.Meets perform' R I post (p.embed f back) A := by
  induction p generalizing A with
  | done a => exact hp
  | step o next ih =>
    obtain ⟨K, hacts, hnext⟩ := hp
    refine ⟨fun r => K (back o r), ⟨?_, fun r => hacts.stable (back o r), ?_⟩,
      fun r => ih _ (hnext (back o r))⟩
    · exact fun s r s' hI hs h => hacts.keeps s _ s' hI hs (hperform s o r s' h)
    · exact fun s r s' hI hs h => hacts.leads s _ s' hI hs (hperform s o r s' h)

/-! ### With exceptions -/

section Exceptions
variable {post : β → S → Prop} {raised : ε → S → Prop}

theorem Growing.frame_runs (G : Growing perform R I Grows) {x : Fallible Op Reply ε β}
    (hx : Runs perform R I A x post raised) (hB : Upward Grows B) :
    Runs perform R I (fun s => A s ∧ B s) x (fun b s => post b s ∧ B s)
      fun e s => raised e s ∧ B s := by
  refine (G.frame hx hB).weaken ?_
  intro r s _ hs
  cases r with
  | ok b => exact hs
  | error e => exact hs

/-- Nothing is asked of a program whose operations all keep the invariant. -/
theorem runs_of_only {P : Op → Prop}
    (hkeeps : ∀ s o r s', I s → P o → perform s o r s' → I s') {x : Fallible Op Reply ε β}
    (hx : Only P x.run) :
    Runs perform R I (fun _ => True) x (fun _ _ => True) fun _ _ => True := by
  refine (meets_of_only hkeeps hx).weaken ?_
  intro r s _ _
  cases r with
  | ok b => exact trivial
  | error e => exact trivial

theorem runs_map {f : α → β} {x : Fallible Op Reply ε α}
    (hx : Runs perform R I A x (fun a => post (f a)) raised) :
    Runs perform R I A (ExceptT.map f x) post raised := by
  refine Program.Meets.bind hx ?_
  intro r
  cases r with
  | ok a => exact fun _ _ hs => hs
  | error e => exact fun _ _ hs => hs

/-- A `try` whose handler may raise other exceptions. -/
theorem runs_handle {J : ε → S → Prop} {raised : ε' → S → Prop} {x : Fallible Op Reply ε β}
    {handler : ε → Fallible Op Reply ε' β} (hx : Runs perform R I A x post J)
    (hhandler : ∀ e, Runs perform R I (J e) (handler e) post raised) :
    Runs perform R I A (handle x handler) post raised := by
  refine Program.Meets.bind hx ?_
  intro r
  cases r with
  | ok b => exact fun _ _ hs => hs
  | error e => exact hhandler e

end Exceptions

/-! ## Who performs an operation -/

/-- In a run, every process performs what its call allows. -/
theorem only_calls {C ω : Type} {M : Machine S C Op Reply ω}
    {G : S → Process C Op Reply ω → Prop} {P : C → Op → Prop}
    (hcalls : ∀ c, Only (P c) (M.program c)) {s : S} {sys : System S C Op Reply ω}
    (h : Reaches M G (System.idle s) sys) : ∀ p ∈ sys.processes, Only (P p.call) p.program := by
  induction h with
  | refl => simp [System.idle]
  | tail _ hstep ih =>
    cases hstep with
    | start c =>
      intro p hp
      rcases List.mem_append.mp hp with hp | hp
      · exact ih p hp
      · rw [List.mem_singleton.mp hp]
        exact hcalls c
    | external s' hs => exact ih
    | operation i c log o next r s' hi hguard hs =>
      intro p hp
      rcases List.mem_or_eq_of_mem_set hp with hp | rfl
      · exact ih p hp
      · exact (ih _ (List.mem_of_getElem? hi)).2 r

/-- A call that has started is in the pool from then on. -/
theorem calls_kept {C ω : Type} {M : Machine S C Op Reply ω}
    {G : S → Process C Op Reply ω → Prop} {sys sys' : System S C Op Reply ω}
    (h : Reaches M G sys sys') {c : C} (hc : ∃ p ∈ sys.processes, p.call = c) :
    ∃ p ∈ sys'.processes, p.call = c := by
  induction h with
  | refl => exact hc
  | @tail sys' _ _ hstep ih =>
    obtain ⟨p, hp, rfl⟩ := ih
    cases hstep with
    | start c => exact ⟨p, List.mem_append_left _ hp, rfl⟩
    | external s' hs => exact ⟨p, hp, rfl⟩
    | operation i c log o next r s' hi hguard hs =>
      obtain ⟨j, hj⟩ := List.mem_iff_getElem?.mp hp
      by_cases hij : i = j
      · subst hij
        cases hi.symm.trans hj
        have hset := List.getElem?_set_self (a := Process.advance c log o r next)
          (List.getElem?_eq_some_iff.mp hi).1
        exact ⟨.advance c log o r next, List.mem_of_getElem? hset, rfl⟩
      · have hkept : (sys'.processes.set i (Process.advance c log o r next))[j]? = some p := by
          rw [List.getElem?_set_ne hij, hj]
        exact ⟨p, List.mem_of_getElem? hkept, rfl⟩

/-- The processes of a run act among the calls the pool has in the end. -/
theorem reaches_among {C ω : Type} {M : Machine S C Op Reply ω}
    {P : C → Op → Prop} (hcalls : ∀ c, Only (P c) (M.program c)) {s : S}
    {sys : System S C Op Reply ω} (h : Reaches M Unguarded (System.idle s) sys) :
    Reaches M (Asks fun _ o => ∃ p ∈ sys.processes, P p.call o) (System.idle s) sys := by
  have hall : ∀ sys₁, Reaches M Unguarded (System.idle s) sys₁ → Reaches M Unguarded sys₁ sys →
      Reaches M (Asks fun _ o => ∃ p ∈ sys.processes, P p.call o) (System.idle s) sys₁ := by
    intro sys₁ h₁
    induction h₁ with
    | refl => exact fun _ => .refl _
    | tail hreach hstep ih =>
      intro hrest
      refine (ih ((Reaches.tail (.refl _) hstep).trans hrest)).tail ?_
      cases hstep with
      | start c => exact .start c
      | external s' hs => exact .external s' hs
      | operation i c log o next r s' hi hguard hs =>
        have hmem := List.mem_of_getElem? hi
        have honly := (only_calls hcalls hreach _ hmem).1
        have hlater := calls_kept ((Reaches.tail (.refl _)
          (.operation i c log o next r s' hi hguard hs)).trans hrest) ⟨_, hmem, rfl⟩
        obtain ⟨p, hp, hcall⟩ := hlater
        exact .operation i c log o next r s' hi ⟨p, hp, by rw [hcall]; exact honly⟩ hs
  exact hall sys h (.refl _)

end GrowingState
