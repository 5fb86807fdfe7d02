import VeriMat.Methods

/-! # The ablations

The variants of `run_method` next to each other, when every service is a function of its request:
the world is then `Unit`. A2 and A1 are to be V3 without the database and without the tree
search; in the code both are V2, which has neither. -/
namespace Ablation

open PyText JsonText PyValue Events Transaction ModelTransports Verification ParetoSearch Methods
open DecisionGraph (Payload getItem)

variable {F : Type} [PyFloat F] (ctx : MethodContext F Unit) {c : Claim}
  {verdicts : List (Verdict F)} {s : Lab F Unit}

/-! ## What a call returns does not depend on the calls before it -/

omit [PyFloat F] in
theorem steady_call {α : Type} (service : Unit → α × Unit) :
    Steady (call service : MethodRun F Unit α) := fun _ _ => rfl

omit [PyFloat F] in
theorem steady_hear (passage : Passage F) (reply : Except PyStr PyStr) :
    Steady (hear passage reply : MethodRun F Unit Unit) := fun _ _ => rfl

omit [PyFloat F] in
theorem steady_searchDiscovery (query : PyStr) : Steady (searchDiscovery ctx query) := by
  refine (steady_call _).bind fun reply => ?_
  cases reply with
  | ok hits => exact steady_pure _
  | error e => exact steady_pure _

theorem steady_gatherFrom (n : ℕ) (passages : List (Passage F)) (queries : ℕ)
    (templates : List PyStr) : Steady (gatherFrom ctx n passages queries templates) := by
  induction templates generalizing passages queries with
  | nil => exact steady_pure _
  | cons query rest ih =>
    refine (steady_searchDiscovery ctx query).bind fun hits => ?_
    cases readHits ctx.interpreter n passages hits with
    | mk passages' full =>
      cases full with
      | true => exact steady_pure _
      | false => exact ih passages' (queries + 1)

theorem steady_gather (c : Claim) : Steady (gatherCounterEvidence ctx c) :=
  steady_gatherFrom ctx _ _ _ _

theorem steady_judgePassage (c : Claim) (passage : Passage F) :
    Steady (judgePassage ctx c passage) := by
  rw [judgePassage]
  cases verifyRequest c passage with
  | error e => exact steady_pure _
  | ok request =>
    refine (steady_call _).bind fun reply => (steady_hear _ _).bind fun _ => ?_
    cases judgeReply ctx.interpreter passage reply with
    | error e => exact steady_throw e
    | ok outcome => exact steady_pure _

theorem steady_judgePassages (c : Claim) (passages : List (Passage F)) :
    Steady (judgePassages ctx c passages) :=
  (steady_mapM (steady_judgePassage ctx c) passages).bind fun _ => steady_pure _

omit [PyFloat F] in
theorem steady_dbCheck (c : Claim) : Steady (dbCheck ctx c) := by
  rw [dbCheck]
  cases ctx.services.observations with
  | none => exact steady_pure _
  | some observations =>
    dsimp only
    by_cases hc : c.composition = []
    · rw [if_pos hc]
      exact steady_pure _
    · rw [if_neg hc]
      refine (steady_call _).bind fun reply => ?_
      match reply with
      | .error _ => exact steady_pure _
      | .ok 0 => exact steady_pure _
      | .ok (_ + 1) => exact steady_pure _

theorem steady_refine (c : Claim) (verdicts : List (Verdict F)) : Steady (refine ctx c verdicts) := by
  unfold refine
  cases refineRequest c verdicts with
  | error e => exact steady_pure _
  | ok request => exact (steady_call _).bind fun _ => steady_pure _

theorem steady_mctsRefine (c : Claim) (verdicts : List (Verdict F)) (dbState : Option DbState) :
    Steady (mctsRefine ctx c verdicts dbState) := by
  refine (steady_refine ctx c verdicts).bind fun refinements => ?_
  obtain ⟨label, mapped⟩ := cedgLabel verdicts
  dsimp only
  by_cases hempty : refinements.isEmpty = true
  · rw [if_pos hempty]
    exact steady_pure _
  · rw [if_neg hempty]
    cases (refinementSearch ctx c verdicts dbState refinements).search (rootOf c verdicts)
        ctx.mctsIterations with
    | error e => exact steady_throw _
    | ok report => exact steady_pure _

theorem steady_resolve (method : Method) (c : Claim) (verdicts : List (Verdict F))
    (dbState : Option DbState) : Steady (resolve ctx method c verdicts dbState) := by
  rw [resolve]
  by_cases hfull : method = .full
  · rw [if_pos hfull]
    refine (steady_refine ctx c verdicts).bind fun refinements => ?_
    by_cases hempty : refinements.isEmpty = true
    · rw [if_pos hempty]
      exact steady_pure _
    · rw [if_neg hempty]
      exact steady_mctsRefine ctx c verdicts dbState
  · rw [if_neg hfull]
    exact steady_pure _

/-- The methods with a state machine. -/
def HasStateMachine (method : Method) : Prop := method ≠ .vanillaRag ∧ method ≠ .dualRetrieval

omit [PyFloat F] in
theorem steady_database (method : Method) (c : Claim) : Steady (database ctx method c) := by
  rw [database]
  by_cases hfull : method = .full
  · rw [if_pos hfull]
    exact (steady_dbCheck ctx c).bind fun _ => steady_pure _
  · rw [if_neg hfull]
    exact steady_pure _

theorem steady_settle (method : Method) (c : Claim) (queries read : ℕ)
    (verdicts : List (Verdict F)) (refused : List Refusal) :
    Steady (settle ctx method c queries read verdicts refused) :=
  (steady_database ctx method c).bind fun db =>
    (steady_resolve ctx method c verdicts db.2).bind fun _ => steady_pure _

theorem steady_verifyClaim (method : Method) (c : Claim) : Steady (verifyClaim ctx method c) := by
  rw [verifyClaim]
  by_cases hvanilla : method = .vanillaRag
  · rw [if_pos hvanilla]
    exact steady_pure _
  · rw [if_neg hvanilla]
    refine (steady_gather ctx c).bind fun gathered => (steady_judgePassages ctx c _).bind fun judged => ?_
    by_cases hdual : method = .dualRetrieval
    · rw [if_pos hdual]
      exact steady_pure _
    · rw [if_neg hdual]
      exact steady_settle ctx method c _ _ _ _

variable {ctx}

/-- A claim whose passages have been gathered and judged. -/
def Judged (ctx : MethodContext F Unit) (c : Claim) (s : Lab F Unit) (read : List (Passage F) × ℕ)
    (judged : List (Verdict F) × List Refusal) : Prop :=
  (ran (gatherCounterEvidence ctx c) s).1 = .ok read ∧
    (ran (judgePassages ctx c read.1) s).1 = .ok judged

theorem settle_ok {method : Method} {queries read : ℕ} {refused : List Refusal}
    {v : VerifiedClaim F} :
    (ran (settle ctx method c queries read verdicts refused) s).1 = .ok v ↔
      ∃ db resolved, (ran (database ctx method c) s).1 = .ok db ∧
        (ran (resolve ctx method c verdicts db.2) s).1 = .ok resolved ∧
        v = settled method c queries read verdicts refused db resolved := by
  have hresolve : ∀ db : Bool × Option DbState, Steady (resolve ctx method c verdicts db.2 >>=
      fun resolved => pure (settled method c queries read verdicts refused db resolved)) :=
    fun db => (steady_resolve ctx method c verdicts db.2).bind fun _ => steady_pure _
  have hpure : ∀ db : Bool × Option DbState,
      (ran (resolve ctx method c verdicts db.2 >>=
        fun resolved => pure (settled method c queries read verdicts refused db resolved)) s).1
          = .ok v ↔
        ∃ resolved, (ran (resolve ctx method c verdicts db.2) s).1 = .ok resolved ∧
          v = settled method c queries read verdicts refused db resolved :=
    fun db => ran_bind_pure_ok
  rw [settle, Steady.bind_ok hresolve]
  constructor
  · rintro ⟨db, hdb, h⟩
    obtain ⟨resolved, hresolved, hv⟩ := (hpure db).mp h
    exact ⟨db, resolved, hdb, hresolved, hv⟩
  · rintro ⟨db, resolved, hdb, hresolved, hv⟩
    exact ⟨db, hdb, (hpure db).mpr ⟨resolved, hresolved, hv⟩⟩

/-- What a method with a state machine returns for a claim. -/
theorem verifyClaim_ok {method : Method} (hm : HasStateMachine method) {v : VerifiedClaim F} :
    (ran (verifyClaim ctx method c) s).1 = .ok v ↔
      ∃ read judged, Judged ctx c s read judged ∧
        (ran (settle ctx method c read.2 read.1.length judged.1 judged.2) s).1 = .ok v := by
  have hsettle : ∀ (read : List (Passage F) × ℕ) (judged : List (Verdict F) × List Refusal),
      Steady (settle ctx method c read.2 read.1.length judged.1 judged.2) :=
    fun read judged => steady_settle ctx method c _ _ _ _
  have hjudge : ∀ read : List (Passage F) × ℕ, Steady (judgePassages ctx c read.1 >>= fun judged =>
      settle ctx method c read.2 read.1.length judged.1 judged.2) :=
    fun read => (steady_judgePassages ctx c read.1).bind (hsettle read)
  rw [verifyClaim, if_neg hm.1]
  simp only [if_neg hm.2]
  rw [Steady.bind_ok hjudge]
  constructor
  · rintro ⟨read, hread, h⟩
    obtain ⟨judged, hjudged, hv⟩ := (Steady.bind_ok (hsettle read)).mp h
    exact ⟨read, judged, ⟨hread, hjudged⟩, hv⟩
  · rintro ⟨read, judged, ⟨hread, hjudged⟩, hv⟩
    exact ⟨read, hread, (Steady.bind_ok (hsettle read)).mpr ⟨judged, hjudged, hv⟩⟩

/-! ## Agreement over a list of claims -/

/-- Two lists of results that are related place by place. -/
theorem exists_forall₂ {α β γ : Type} {P : α → β → Prop} {Q : α → γ → Prop} {R : β → γ → Prop}
    {l : List α} :
    (∃ bs cs, List.Forall₂ P l bs ∧ List.Forall₂ Q l cs ∧ List.Forall₂ R bs cs) ↔
      ∀ a ∈ l, ∃ b c, P a b ∧ Q a c ∧ R b c := by
  induction l with
  | nil =>
    simp only [List.not_mem_nil, false_implies, implies_true, iff_true]
    exact ⟨[], [], .nil, .nil, .nil⟩
  | cons a l ih =>
    rw [List.forall_mem_cons, ← ih]
    constructor
    · rintro ⟨bs, cs, hbs, hcs, hrest⟩
      cases hbs with
      | cons hb hbs =>
        cases hcs with
        | cons hc hcs =>
          cases hrest with
          | cons hbc hrest => exact ⟨⟨_, _, hb, hc, hbc⟩, _, _, hbs, hcs, hrest⟩
    · rintro ⟨⟨b, c, hb, hc, hbc⟩, bs, cs, hbs, hcs, hrest⟩
      exact ⟨b :: bs, c :: cs, .cons hb hbs, .cons hc hcs, .cons hbc hrest⟩

/-- The run returns for every claim, and related results in the same places. -/
def Agrees (x y : MethodRun F Unit (List (VerifiedClaim F)))
    (same : VerifiedClaim F → VerifiedClaim F → Prop) : Prop :=
  ∃ as bs s s', x ⟨(), []⟩ = .ok as s ∧ y ⟨(), []⟩ = .ok bs s' ∧ List.Forall₂ same as bs

theorem runMethod_returns {method : Method} {claims : List Claim} {rs : List (VerifiedClaim F)} :
    (∃ s, runMethod ctx method claims ⟨(), []⟩ = .ok rs s) ↔
      List.Forall₂ (fun c r => (ran (verifyClaim ctx method c) ⟨(), []⟩).1 = .ok r) claims rs :=
  ran_ok_fst.symm.trans (steady_mapM_ok (steady_verifyClaim ctx method))

theorem agrees_iff {ctx ctx' : MethodContext F Unit} {method method' : Method}
    {same : VerifiedClaim F → VerifiedClaim F → Prop} {claims : List Claim} :
    Agrees (runMethod ctx method claims) (runMethod ctx' method' claims) same ↔
      ∀ c ∈ claims, ∃ a b, (ran (verifyClaim ctx method c) ⟨(), []⟩).1 = .ok a ∧
        (ran (verifyClaim ctx' method' c) ⟨(), []⟩).1 = .ok b ∧ same a b := by
  rw [← exists_forall₂]
  constructor
  · rintro ⟨as, bs, s, s', has, hbs, hsame⟩
    exact ⟨as, bs, runMethod_returns.mp ⟨s, has⟩, runMethod_returns.mp ⟨s', hbs⟩, hsame⟩
  · rintro ⟨as, bs, has, hbs, hsame⟩
    obtain ⟨s, hs⟩ := runMethod_returns.mpr has
    obtain ⟨s', hs'⟩ := runMethod_returns.mpr hbs
    exact ⟨as, bs, s, s', hs, hs', hsame⟩

/-! ## The database of A2 and of A1 -/

theorem Judged.unique {read read' : List (Passage F) × ℕ}
    {judged judged' : List (Verdict F) × List Refusal} (h : Judged ctx c s read judged)
    (h' : Judged ctx c s read' judged') : read = read' ∧ judged = judged' := by
  obtain rfl : read = read' := Except.ok.inj (h.1.symm.trans h'.1)
  exact ⟨rfl, Except.ok.inj (h.2.symm.trans h'.2)⟩

/-- What V2, and A1 and A2 with it, returns for a claim. -/
theorem verifyClaim_plain {method : Method} (hm : HasStateMachine method) (hfull : method ≠ .full)
    {v : VerifiedClaim F} :
    (ran (verifyClaim ctx method c) s).1 = .ok v ↔
      ∃ read judged, Judged ctx c s read judged ∧
        v = settled method c read.2 read.1.length judged.1 judged.2 (false, none)
          (cedgLabel judged.1) := by
  have hsettle : ∀ (queries read : ℕ) (verdicts : List (Verdict F)) (refused : List Refusal),
      (ran (settle ctx method c queries read verdicts refused) s).1 =
        .ok (settled method c queries read verdicts refused (false, none) (cedgLabel verdicts)) := by
    intro queries read verdicts refused
    rw [settle, database, if_neg hfull]
    simp only [resolve, if_neg hfull]
    rfl
  rw [verifyClaim_ok hm]
  constructor
  · rintro ⟨read, judged, hjudged, h⟩
    exact ⟨read, judged, hjudged, Except.ok.inj (h.symm.trans (hsettle _ _ _ _))⟩
  · rintro ⟨read, judged, hjudged, rfl⟩
    exact ⟨read, judged, hjudged, hsettle _ _ _ _⟩

/-- What V3 returns for a claim. -/
theorem verifyClaim_full {v : VerifiedClaim F} :
    (ran (verifyClaim ctx .full c) s).1 = .ok v ↔
      ∃ read judged db resolved, Judged ctx c s read judged ∧ (ran (dbCheck ctx c) s).1 = .ok db ∧
        (ran (resolve ctx .full c judged.1 (some db.2)) s).1 = .ok resolved ∧
        v = settled .full c read.2 read.1.length judged.1 judged.2 (db.1, some db.2) resolved := by
  have hdatabase : ∀ db : Bool × Option DbState, (ran (database ctx .full c) s).1 = .ok db ↔
      ∃ checked, (ran (dbCheck ctx c) s).1 = .ok checked ∧ db = (checked.1, some checked.2) := by
    intro db
    rw [database, if_pos rfl]
    exact ran_bind_pure_ok
  rw [verifyClaim_ok ⟨by decide, by decide⟩]
  constructor
  · rintro ⟨read, judged, hjudged, h⟩
    obtain ⟨db, resolved, hdb, hresolved, hv⟩ := settle_ok.mp h
    obtain ⟨checked, hchecked, rfl⟩ := (hdatabase db).mp hdb
    exact ⟨read, judged, checked, resolved, hjudged, hchecked, hresolved, hv⟩
  · rintro ⟨read, judged, db, resolved, hjudged, hdb, hresolved, hv⟩
    exact ⟨read, judged, hjudged,
      settle_ok.mpr ⟨_, resolved, (hdatabase _).mpr ⟨db, hdb, rfl⟩, hresolved, hv⟩⟩

/-! ## A1 -/

/-- The same label and the same account of the database. -/
def SameLabelAndDatabase (a b : VerifiedClaim F) : Prop :=
  a.label = b.label ∧ a.dbChecked = b.dbChecked ∧ a.dbState = b.dbState

/-- A1 never asks the database and records no state, V3 always records one. -/
theorem noMcts_agrees_iff (ctx : MethodContext F Unit) (claims : List Claim) :
    Agrees (runMethod ctx .noMcts claims) (runMethod ctx .full claims) SameLabelAndDatabase ↔
      claims = [] := by
  rw [agrees_iff]
  constructor
  · intro h
    refine List.eq_nil_iff_forall_not_mem.mpr fun c hc => ?_
    obtain ⟨a, b, ha, hb, -, -, hstate⟩ := h c hc
    obtain ⟨read, judged, -, rfl⟩ :=
      (verifyClaim_plain ⟨by decide, by decide⟩ (by decide)).mp ha
    obtain ⟨read', judged', db, resolved, -, -, -, rfl⟩ := verifyClaim_full.mp hb
    exact absurd hstate (Option.some_ne_none db.2).symm
  · rintro rfl c hc
    exact absurd hc List.not_mem_nil

/-! ## A2 -/

/-- What the model offers as refinements. -/
def offered (ctx : MethodContext F Unit) (c : Claim) (verdicts : List (Verdict F)) :
    List (Payload F) :=
  match refineRequest c verdicts with
  | .error _ => []
  | .ok request => refinementsOf (ctx.services.complete request ()).1

theorem refine_ok (c : Claim) (verdicts : List (Verdict F)) (s : Lab F Unit) :
    (ran (refine ctx c verdicts) s).1 = .ok (offered ctx c verdicts) := by
  unfold refine offered
  cases refineRequest c verdicts with
  | error e => rfl
  | ok request => rfl

/-- What V3 makes of the verdicts of a claim. -/
theorem resolve_full_ok {dbState : Option DbState} {resolved : Label × PyStr} :
    (ran (resolve ctx .full c verdicts dbState) s).1 = .ok resolved ↔
      offered ctx c verdicts = [] ∧ resolved = cedgLabel verdicts ∨
      offered ctx c verdicts ≠ [] ∧ ∃ report,
        (refinementSearch ctx c verdicts dbState (offered ctx c verdicts)).search (rootOf c verdicts)
          ctx.mctsIterations = .ok report ∧
        resolved = ((cedgLabel verdicts).1, boundaryOf (cedgLabel verdicts).2 report) := by
  have hsearch : ∀ s : Lab F Unit, offered ctx c verdicts ≠ [] →
      ((ran (mctsRefine ctx c verdicts dbState) s).1 = .ok resolved ↔ ∃ report,
        (refinementSearch ctx c verdicts dbState (offered ctx c verdicts)).search (rootOf c verdicts)
          ctx.mctsIterations = .ok report ∧
        resolved = ((cedgLabel verdicts).1, boundaryOf (cedgLabel verdicts).2 report)) := by
    intro s hsome
    rw [mctsRefine, ran_bind_fst, refine_ok]
    simp only [Except.bind, List.isEmpty_iff, if_neg hsome]
    cases (refinementSearch ctx c verdicts dbState (offered ctx c verdicts)).search
        (rootOf c verdicts) ctx.mctsIterations with
    | error e =>
      constructor
      · intro h
        cases h
      · rintro ⟨report, hreport, -⟩
        cases hreport
    | ok report =>
      constructor
      · intro h
        exact ⟨report, rfl, (Except.ok.inj h).symm⟩
      · rintro ⟨report', hreport, rfl⟩
        obtain rfl := Except.ok.inj hreport
        rfl
  rw [resolve, if_pos rfl, ran_bind_fst, refine_ok]
  simp only [Except.bind, List.isEmpty_iff]
  by_cases hnone : offered ctx c verdicts = []
  · rw [if_pos hnone]
    constructor
    · intro h
      exact .inl ⟨hnone, (Except.ok.inj h).symm⟩
    · rintro (⟨-, rfl⟩ | ⟨hsome, -⟩)
      · rfl
      · exact absurd hnone hsome
  · rw [if_neg hnone, hsearch _ hnone]
    constructor
    · intro h
      exact .inr ⟨hnone, h⟩
    · rintro (⟨hnone', -⟩ | ⟨-, h⟩)
      · exact absurd hnone' hnone
      · exact h

def sampleHit : Payload NonFinite :=
  [(.str (py "doc_id"), .str (py "10.1000/1@p1")), (.str (py "abstract"), .str (py "Oxides harden."))]

def samplePassage : Passage NonFinite := ⟨py "10.1000/1@p1", py "Oxides harden.", sampleHit⟩

def sampleVerdict : Verdict NonFinite :=
  ⟨py "supported", false, py "Oxides harden", samplePassage⟩

def verdictReply : Json NonFinite :=
  .obj [(py "verdict", .str (py "supported")), (py "quote", .str (py "Oxides harden"))]

def refinementReply : Json NonFinite :=
  .obj [(py "refinements", .arr [.obj [(py "restated", .str (py "hard oxide")),
    (py "boundary", .str (py "in dry air"))]])]

/-- A client with one abstract, a model that quotes it and bounds the claim, and a database. -/
def sampleContext : MethodContext NonFinite Unit where
  interpreter := ⟨⟨fun _ => true, []⟩, fun c => [c], id⟩
  services :=
    { agenticSearch := fun _ w => (.ok [.dict sampleHit], w)
      complete := fun request w =>
        (.ok (render (if request.prompt = .verify then verdictReply else refinementReply)), w)
      observations := some fun _ w => (.ok 1, w) }
  sqrt n := n
  discoveryYearTo := 2021
  mctsIterations := 2

def sampleClaim : Claim :=
  ⟨py "c1", py "r1", py "oxide", py "grain", py "hardness", py "increase", py "harden", py "p1",
    py "Al2O3", [], []⟩

def sampleRefinement : Payload NonFinite :=
  [(.str (py "restated"), .str (py "hard oxide")), (.str (py "boundary"), .str (py "in dry air"))]

theorem loads_verdictReply : loads (render verdictReply) = some verdictReply.dedup := by
  rw [← List.append_nil (render verdictReply)]
  exact loads_render (by simp [verdictReply, Json.Finite, FiniteMembers]) (by simp)

theorem loads_refinementReply : loads (render refinementReply) = some refinementReply.dedup := by
  rw [← List.append_nil (render refinementReply)]
  refine loads_render ?_ (by simp)
  simp [refinementReply, Json.Finite, FiniteMembers, FiniteElems]

theorem judgeReply_sample :
    judgeReply sampleContext.interpreter samplePassage (.ok (render verdictReply)) =
      .ok (.inl sampleVerdict) := by
  rw [judgeReply, loads_verdictReply]
  rfl

/-- The verdicts of the three passages. -/
def sampleVerdicts : List (Verdict NonFinite) := List.replicate 3 sampleVerdict

theorem offered_of_request {verdicts : List (Verdict NonFinite)}
    (hrequest : (refineRequest sampleClaim verdicts).toOption.isSome = true) :
    offered sampleContext sampleClaim verdicts = [sampleRefinement] := by
  unfold offered
  cases h : refineRequest sampleClaim verdicts with
  | error e =>
    rw [h] at hrequest
    cases hrequest
  | ok request =>
    have hreply : (sampleContext.services.complete request ()).1 = .ok (render refinementReply) := by
      simp [sampleContext, refineRequest_prompt h]
    dsimp only
    rw [hreply, refinementsOf, loads_refinementReply]
    rfl

theorem offered_sample : offered sampleContext sampleClaim sampleVerdicts = [sampleRefinement] :=
  offered_of_request (by decide +kernel)

theorem judgePassage_of_request {passage : Passage NonFinite} {verdict : Verdict NonFinite}
    (hrequest : (verifyRequest sampleClaim passage).toOption.isSome = true)
    (hjudged : judgeReply sampleContext.interpreter passage (.ok (render verdictReply)) =
      .ok (.inl verdict)) (s : Lab NonFinite Unit) :
    (ran (judgePassage sampleContext sampleClaim passage) s).1 = .ok (.inl verdict) := by
  rw [judgePassage]
  cases h : verifyRequest sampleClaim passage with
  | error e =>
    rw [h] at hrequest
    cases hrequest
  | ok request =>
    have hreply : sampleContext.services.complete request s.world =
        (.ok (render verdictReply), s.world) := by
      simp [sampleContext, verifyRequest_prompt h]
    have hcall : ran (call (sampleContext.services.complete request)) s =
        (.ok (.ok (render verdictReply)), s) := by
      rw [ran_call, hreply]
    dsimp only
    rw [ran_bind_fst, hcall]
    simp only [Except.bind]
    rw [ran_bind_fst, hjudged]
    rfl

theorem judgePassage_sample (s : Lab NonFinite Unit) :
    (ran (judgePassage sampleContext sampleClaim samplePassage) s).1 = .ok (.inl sampleVerdict) :=
  judgePassage_of_request (by decide +kernel) judgeReply_sample s

theorem judged_sample : Judged sampleContext sampleClaim ⟨(), []⟩
    (List.replicate 3 samplePassage, 3) (sampleVerdicts, []) := by
  refine ⟨rfl, ran_bind_pure_ok.mpr ⟨List.replicate 3 (.inl sampleVerdict), ?_, rfl⟩⟩
  refine (steady_mapM_ok (steady_judgePassage sampleContext sampleClaim)).mpr ?_
  exact .cons (judgePassage_sample _) (.cons (judgePassage_sample _)
    (.cons (judgePassage_sample _) .nil))

theorem archived_sample (dbState : DbState) : ∃ report,
    (refinementSearch sampleContext sampleClaim sampleVerdicts (some dbState)
        [sampleRefinement]).search (rootOf sampleClaim sampleVerdicts) 2 = .ok report ∧
      boundaryOf [] report = py "in dry air" := by
  have hsearch : ((refinementSearch sampleContext sampleClaim sampleVerdicts (some dbState)
      [sampleRefinement]).search (rootOf sampleClaim sampleVerdicts) 2).toOption.map (boundaryOf [])
        = some (py "in dry air") := by
    cases dbState <;> decide +kernel
  cases h : (refinementSearch sampleContext sampleClaim sampleVerdicts (some dbState)
      [sampleRefinement]).search (rootOf sampleClaim sampleVerdicts) 2 with
  | error e =>
    rw [h] at hsearch
    cases hsearch
  | ok report =>
    rw [h] at hsearch
    exact ⟨report, rfl, Option.some.inj hsearch⟩

theorem resolve_sample (dbState : DbState) :
    (ran (resolve sampleContext .full sampleClaim sampleVerdicts (some dbState)) ⟨(), []⟩).1 =
      .ok (.accepted, py "in dry air") := by
  obtain ⟨report, hreport, hmoved⟩ := archived_sample dbState
  refine resolve_full_ok.mpr (.inr ?_)
  rw [offered_sample, ← hmoved]
  exact ⟨List.cons_ne_nil _ _, report, hreport, rfl⟩

/-- A run over the one claim. -/
theorem runMethod_sample {ctx : MethodContext NonFinite Unit} {method : Method}
    {v : VerifiedClaim NonFinite}
    (h : (ran (verifyClaim ctx method sampleClaim) ⟨(), []⟩).1 = .ok v) :
    ∃ s, runMethod ctx method [sampleClaim] ⟨(), []⟩ = .ok [v] s :=
  runMethod_returns.mpr (.cons h .nil)

theorem plain_sample {m : Method} (hm : HasStateMachine m) (hfull : m ≠ .full) :
    (ran (verifyClaim sampleContext m sampleClaim) ⟨(), []⟩).1 = .ok (settled m sampleClaim
      3 3 sampleVerdicts [] (false, none) (cedgLabel sampleVerdicts)) :=
  (verifyClaim_plain hm hfull).mpr ⟨_, _, judged_sample, rfl⟩

/-- V3 hears of the database, A1 does not. -/
theorem noMcts_differs : ∃ a b s s',
    runMethod sampleContext .noMcts [sampleClaim] ⟨(), []⟩ = .ok [a] s ∧
      runMethod sampleContext .full [sampleClaim] ⟨(), []⟩ = .ok [b] s' ∧
      ¬SameLabelAndDatabase a b := by
  have hfull : (ran (verifyClaim sampleContext .full sampleClaim) ⟨(), []⟩).1 =
      .ok (settled .full sampleClaim 3 3 sampleVerdicts [] (true, some .consistent)
        (.accepted, py "in dry air")) :=
    verifyClaim_full.mpr ⟨_, _, (true, .consistent), _, judged_sample, rfl,
      resolve_sample .consistent, rfl⟩
  obtain ⟨s, hs⟩ := runMethod_sample (plain_sample (m := .noMcts) ⟨by decide, by decide⟩ (by decide))
  obtain ⟨s', hs'⟩ := runMethod_sample hfull
  exact ⟨_, _, s, s', hs, hs', fun h => absurd h.2.1 (by decide)⟩

end Ablation
