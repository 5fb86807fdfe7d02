import VeriMat.RefinementSearch

/-! # Narrowed claims and their boundaries

A claim is narrowed by a verdict, whose quote becomes its boundary, or by the database, which has
none to give; the tree search may put another boundary in the place of either. All a method wants
to know about a claim it asks before it decides the label: `ask` is the one part, `conclude` the
other. -/
namespace NarrowedBoundary

open PyText JsonText PyValue PyDisplay Events Transaction ModelTransports Verification ParetoSearch
open Methods Ablation
open DecisionGraph (Payload getItem)

variable {F W : Type} [PyFloat F] (ctx : MethodContext F W)

/-! ## Asking and concluding -/

/-- What a method with a state machine has heard about a claim; `items` are the refinements that
its tree search gets. -/
structure Asked (F : Type) where
  queries : ℕ
  read : ℕ
  verdicts : List (Verdict F)
  refused : List Refusal
  database : Bool × Option DbState
  items : List (Payload F)

/-- The refinements to search: V3 asks for some, and if it gets any it asks once more. -/
def searched (method : Method) (c : Claim) (verdicts : List (Verdict F)) :
    MethodRun F W (List (Payload F)) :=
  if method = .full then do
    let refinements ← refine ctx c verdicts
    if refinements.isEmpty then pure [] else refine ctx c verdicts
  else pure []

def ask (method : Method) (c : Claim) : MethodRun F W (Asked F) := do
  let gathered ← gatherCounterEvidence ctx c
  let judged ← judgePassages ctx c gathered.1
  let db ← database ctx method c
  let items ← searched ctx method c judged.1
  pure ⟨gathered.2, gathered.1.length, judged.1, judged.2, db, items⟩

/-- The label and the boundary, once everything has been asked. -/
def resolved (c : Claim) (verdicts : List (Verdict F)) (dbState : Option DbState)
    (items : List (Payload F)) : Except MethodError (Label × PyStr) :=
  if items = [] then .ok (cedgLabel verdicts)
  else
    match (refinementSearch ctx c verdicts dbState items).search (rootOf c verdicts)
        ctx.mctsIterations with
    | .error e => .error (.search e)
    | .ok report => .ok ((cedgLabel verdicts).1, boundaryOf (cedgLabel verdicts).2 report)

def conclude (method : Method) (c : Claim) (a : Asked F) : Except MethodError (VerifiedClaim F) :=
  (resolved ctx c a.verdicts a.database.2 a.items).map
    (settled method c a.queries a.read a.verdicts a.refused a.database)

variable {ctx} {method : Method} {c : Claim} {s s' : Lab F W} {verdicts : List (Verdict F)}
  {dbState : Option DbState}

theorem mctsRefine_returns {result : Label × PyStr} :
    mctsRefine ctx c verdicts dbState s = .ok result s' ↔
      ∃ items, refine ctx c verdicts s = .ok items s' ∧
        resolved ctx c verdicts dbState items = .ok result := by
  rw [mctsRefine, bind_eq_ok]
  constructor
  · rintro ⟨items, s₁, hitems, h⟩
    refine ⟨items, ?_⟩
    rw [resolved]
    by_cases hempty : items = []
    · simp only [hempty, List.isEmpty_nil, if_true, pure_eq_ok] at h
      obtain ⟨rfl, rfl⟩ := h
      exact ⟨hitems, if_pos hempty⟩
    · simp only [List.isEmpty_iff, if_neg hempty] at h ⊢
      cases hsearch : (refinementSearch ctx c verdicts dbState items).search (rootOf c verdicts)
          ctx.mctsIterations with
      | error e =>
        rw [hsearch] at h
        cases h
      | ok report =>
        simp only [hsearch, pure_eq_ok] at h
        obtain ⟨rfl, rfl⟩ := h
        exact ⟨hitems, rfl⟩
  · rintro ⟨items, hitems, h⟩
    refine ⟨items, s', hitems, ?_⟩
    rw [resolved] at h
    by_cases hempty : items = []
    · rw [if_pos hempty] at h
      obtain rfl := Except.ok.inj h
      simp only [hempty, List.isEmpty_nil, if_true, pure_eq_ok, and_self]
    · rw [if_neg hempty] at h
      simp only [List.isEmpty_iff, if_neg hempty]
      cases hsearch : (refinementSearch ctx c verdicts dbState items).search (rootOf c verdicts)
          ctx.mctsIterations with
      | error e =>
        rw [hsearch] at h
        cases h
      | ok report =>
        rw [hsearch] at h
        obtain rfl := Except.ok.inj h
        simp only [pure_eq_ok, and_self]

theorem resolve_returns {result : Label × PyStr} :
    resolve ctx method c verdicts dbState s = .ok result s' ↔
      ∃ items, searched ctx method c verdicts s = .ok items s' ∧
        resolved ctx c verdicts dbState items = .ok result := by
  rw [resolve, searched]
  by_cases hfull : method = .full
  · rw [if_pos hfull, if_pos hfull, bind_eq_ok]
    simp only [bind_eq_ok]
    constructor
    · rintro ⟨refinements, s₁, hrefine, h⟩
      by_cases hempty : refinements.isEmpty = true
      · rw [if_pos hempty, pure_eq_ok] at h
        obtain ⟨rfl, rfl⟩ := h
        refine ⟨[], ⟨refinements, s', hrefine, ?_⟩, rfl⟩
        rw [if_pos hempty]
        exact pure_eq_ok.mpr ⟨rfl, rfl⟩
      · rw [if_neg hempty] at h
        obtain ⟨items, hitems, hresult⟩ := mctsRefine_returns.mp h
        exact ⟨items, ⟨refinements, s₁, hrefine, by rw [if_neg hempty]; exact hitems⟩, hresult⟩
    · rintro ⟨items, ⟨refinements, s₁, hrefine, h⟩, hresult⟩
      refine ⟨refinements, s₁, hrefine, ?_⟩
      by_cases hempty : refinements.isEmpty = true
      · rw [if_pos hempty, pure_eq_ok] at h ⊢
        obtain ⟨rfl, rfl⟩ := h
        exact ⟨(Except.ok.inj hresult).symm, rfl⟩
      · rw [if_neg hempty] at h ⊢
        exact mctsRefine_returns.mpr ⟨items, h, hresult⟩
  · rw [if_neg hfull, if_neg hfull]
    simp only [pure_eq_ok]
    constructor
    · rintro ⟨rfl, rfl⟩
      exact ⟨[], ⟨rfl, rfl⟩, rfl⟩
    · rintro ⟨items, ⟨rfl, rfl⟩, hresult⟩
      exact ⟨(Except.ok.inj hresult).symm, rfl⟩

theorem conclude_returns {a : Asked F} {v : VerifiedClaim F} :
    conclude ctx method c a = .ok v ↔
      ∃ result, resolved ctx c a.verdicts a.database.2 a.items = .ok result ∧
        v = settled method c a.queries a.read a.verdicts a.refused a.database result := by
  rw [conclude]
  cases resolved ctx c a.verdicts a.database.2 a.items with
  | error e => simp [Except.map]
  | ok result => simp [Except.map, eq_comm]

/-- A method with a state machine asks, and then concludes. -/
theorem verifyClaim_returns (hm : HasStateMachine method) {v : VerifiedClaim F} :
    verifyClaim ctx method c s = .ok v s' ↔
      ∃ a, ask ctx method c s = .ok a s' ∧ conclude ctx method c a = .ok v := by
  rw [verifyClaim, if_neg hm.1, ask]
  simp only [if_neg hm.2, settle, bind_eq_ok, pure_eq_ok, resolve_returns, conclude_returns]
  constructor
  · rintro ⟨gathered, s₁, hgathered, judged, s₂, hjudged, db, s₃, hdb, result, s₄,
      ⟨items, hitems, hresult⟩, rfl, rfl⟩
    exact ⟨_, ⟨gathered, s₁, hgathered, judged, s₂, hjudged, db, s₃, hdb, items, s', hitems, rfl,
      rfl⟩, result, hresult, rfl⟩
  · rintro ⟨_, ⟨gathered, s₁, hgathered, judged, s₂, hjudged, db, s₃, hdb, items, s₄, hitems, rfl,
      rfl⟩, result, hresult, rfl⟩
    exact ⟨gathered, s₁, hgathered, judged, s₂, hjudged, db, s₃, hdb, result, s',
      ⟨items, hitems, hresult⟩, rfl, rfl⟩

/-! ## One claim -/

variable (ctx) in
/-- The tree search gets refinements and archives one. -/
def Archives (c : Claim) (a : Asked F) : Prop :=
  a.items ≠ [] ∧ ∃ report,
    (refinementSearch ctx c a.verdicts a.database.2 a.items).search (rootOf c a.verdicts)
        ctx.mctsIterations = .ok report ∧ report.paretoArchive ≠ []

variable (ctx) in
/-- The claim is refuted, or the tree search archives a refinement, or else: the quote of the first
verdict with a limitation says something in its first 200 characters, and without such a verdict the
claim is supported or the database is not consistent. -/
def Bounded (c : Claim) (a : Asked F) : Prop :=
  a.verdicts.any contradicts = true ∨ Archives ctx c a ∨
    match a.verdicts.find? fun v => v.scopeLimitation && supports v with
    | some limitation => isBlank (limitation.quote.take 200) = false
    | none => a.verdicts.any supports = true ∨ a.database.2 ≠ some .consistent

/-- The property of a result: narrowed means bounded. -/
def NarrowedIsBounded (v : VerifiedClaim F) : Prop :=
  v.label = .narrowed → isBlank v.boundary = false

/-- What the tree search archives has a boundary. -/
theorem boundary_of_archived {items : List (Payload F)} {report : SearchReport F}
    (hreport : (refinementSearch ctx c verdicts dbState items).search (rootOf c verdicts)
      ctx.mctsIterations = .ok report) (hsome : report.paretoArchive ≠ []) (mapped : PyStr) :
    isBlank (boundaryOf mapped report) = false := by
  cases harchive : report.paretoArchive with
  | nil => exact absurd harchive hsome
  | cons best rest =>
    have hgated : defaultAcceptanceGate best.hypothesis best.objectives = true :=
      ((search_sound hreport).archive best (by rw [harchive]; exact List.mem_cons_self)).gated
    have hblank : isBlank best.hypothesis.boundary = false := by
      simp only [defaultAcceptanceGate, Bool.and_eq_true, Bool.not_eq_true'] at hgated
      exact hgated.1.1.1.1.1.1.2
    rw [boundaryOf, harchive]
    dsimp only
    by_cases hnil : best.hypothesis.boundary = []
    · rw [hnil] at hblank
      cases hblank
    · rw [if_neg hnil]
      exact hblank

omit [PyFloat F] in
/-- The label the verdicts and the database give, with the boundary of the verdicts. -/
theorem mapped_bounded_iff :
    (upgrade dbState (cedgLabel verdicts).1 = .narrowed →
        isBlank (cedgLabel verdicts).2 = false) ↔
      verdicts.any contradicts = true ∨
        match verdicts.find? fun v => v.scopeLimitation && supports v with
        | some limitation => isBlank (limitation.quote.take 200) = false
        | none => verdicts.any supports = true ∨ dbState ≠ some .consistent := by
  rw [cedgLabel]
  by_cases hcontradicted : verdicts.any contradicts = true
  · rw [if_pos hcontradicted]
    exact iff_of_true (fun h => absurd h (by simp [upgrade])) (.inl hcontradicted)
  · rw [if_neg hcontradicted, or_iff_right hcontradicted]
    cases hfind : verdicts.find? fun v => v.scopeLimitation && supports v with
    | some limitation =>
      dsimp only
      have hlabel : upgrade dbState .narrowed = .narrowed := if_neg fun h => absurd h.2 (by decide)
      rw [hlabel]
      exact ⟨fun h => h rfl, fun h _ => h⟩
    | none =>
      dsimp only
      by_cases hsupported : verdicts.any supports = true
      · rw [if_pos hsupported]
        exact iff_of_true (fun h => absurd h (by simp [upgrade])) (.inl hsupported)
      · rw [if_neg hsupported, or_iff_right hsupported]
        constructor
        · intro h hconsistent
          have hblank := h (if_pos ⟨hconsistent, rfl⟩)
          cases hblank
        · intro hdb h
          rw [upgrade, if_neg fun h => hdb h.1] at h
          cases h

theorem concluded_bounded_iff {a : Asked F} {v : VerifiedClaim F}
    (h : conclude ctx method c a = .ok v) : NarrowedIsBounded v ↔ Bounded ctx c a := by
  obtain ⟨result, hresult, rfl⟩ := conclude_returns.mp h
  have hmapped : (upgrade a.database.2 (cedgLabel a.verdicts).1 = .narrowed →
      isBlank (cedgLabel a.verdicts).2 = false) ↔ _ := mapped_bounded_iff
  change (upgrade a.database.2 result.1 = .narrowed → isBlank result.2 = false) ↔ _
  rw [Bounded]
  rw [resolved] at hresult
  by_cases hitems : a.items = []
  · rw [if_pos hitems] at hresult
    obtain rfl := Except.ok.inj hresult
    have harchives : ¬Archives ctx c a := fun harchives => harchives.1 hitems
    rw [hmapped, or_iff_right harchives]
  · rw [if_neg hitems] at hresult
    cases hsearch : (refinementSearch ctx c a.verdicts a.database.2 a.items).search
        (rootOf c a.verdicts) ctx.mctsIterations with
    | error e =>
      rw [hsearch] at hresult
      cases hresult
    | ok report =>
      rw [hsearch] at hresult
      obtain rfl := Except.ok.inj hresult
      by_cases hsome : report.paretoArchive = []
      · have harchives : ¬Archives ctx c a := by
          rintro ⟨-, report', hreport', hsome'⟩
          obtain rfl := Except.ok.inj (hsearch.symm.trans hreport')
          exact hsome' hsome
        have hboundary : boundaryOf (cedgLabel a.verdicts).2 report = (cedgLabel a.verdicts).2 := by
          rw [boundaryOf, hsome]
        rw [hboundary, hmapped, or_iff_right harchives]
      · exact iff_of_true (fun _ => boundary_of_archived hsearch hsome _)
          (.inr (.inl ⟨hitems, report, hsearch, hsome⟩))

/-- With refinements that say something and two iterations, a search that ends archives one when the
references are locators. -/
theorem archives_iff {a : Asked F} (hiterations : 2 ≤ ctx.mctsIterations)
    (hverdicts : a.verdicts ≠ []) (hstated : ∀ item ∈ a.items, RefinementSearch.Stated ctx item) :
    Archives ctx c a ↔ a.items ≠ [] ∧ (∀ v ∈ a.verdicts, isLocator v.ref = true) ∧
      RefinementSearch.Encodable ctx c a.verdicts a.items := by
  constructor
  · rintro ⟨hitems, report, hreport, hsome⟩
    have hlocators :=
      ((RefinementSearch.archived_iff hiterations hverdicts hstated hreport).2.mp hsome).2
    exact ⟨hitems, hlocators,
      (RefinementSearch.search_returns_iff hiterations hstated).mp ⟨report, hreport⟩⟩
  · rintro ⟨hitems, hlocators, hencodable⟩
    obtain ⟨report, hreport⟩ :=
      (RefinementSearch.search_returns_iff hiterations hstated).mpr hencodable
    exact ⟨hitems, report, hreport,
      (RefinementSearch.archived_iff hiterations hverdicts hstated hreport).2.mpr
        ⟨hitems, hlocators⟩⟩

/-! ## Every run -/

variable (ctx method) in
/-- What is asked about each claim of a run bounds it; the methods without a state machine ask
nothing that could narrow a claim. -/
def EachBounded : List Claim → Lab F W → Prop
  | [], _ => True
  | c :: claims, s =>
    (HasStateMachine method → ∀ a s', ask ctx method c s = .ok a s' → Bounded ctx c a) ∧
      EachBounded claims (ran (verifyClaim ctx method c) s).2

theorem verified_bounded_iff {v : VerifiedClaim F} (h : verifyClaim ctx method c s = .ok v s') :
    NarrowedIsBounded v ↔
      (HasStateMachine method → ∀ a s', ask ctx method c s = .ok a s' → Bounded ctx c a) := by
  by_cases hm : HasStateMachine method
  · obtain ⟨a, hask, hconclude⟩ := (verifyClaim_returns hm).mp h
    rw [concluded_bounded_iff hconclude]
    constructor
    · intro hbounded _ a' s₁ hask'
      rw [hask] at hask'
      cases hask'
      exact hbounded
    · exact fun hall => hall hm a s' hask
  · refine iff_of_true ?_ fun hm' => absurd hm' hm
    intro hnarrowed
    rw [verifyClaim] at h
    by_cases hvanilla : method = .vanillaRag
    · rw [if_pos hvanilla, pure_eq_ok] at h
      rw [h.1] at hnarrowed
      cases hnarrowed
    · have hdual : method = .dualRetrieval := by
        by_contra hdual
        exact hm ⟨hvanilla, hdual⟩
      rw [if_neg hvanilla] at h
      simp only [if_pos hdual, bind_eq_ok, pure_eq_ok] at h
      obtain ⟨gathered, s₁, -, judged, s₂, -, rfl, -⟩ := h
      dsimp only at hnarrowed
      split at hnarrowed
      · cases hnarrowed
      · cases hnarrowed

/-- In every run of `run_method` that returns, narrowed means bounded exactly when each claim was
bounded by what was asked about it. -/
theorem narrowed_bounded_iff (ctx : MethodContext F W) (method : Method) (claims : List Claim)
    (s s' : Lab F W) (results : List (VerifiedClaim F))
    (h : runMethod ctx method claims s = .ok results s') :
    (∀ v ∈ results, NarrowedIsBounded v) ↔ EachBounded ctx method claims s := by
  rw [runMethod] at h
  induction claims generalizing s results with
  | nil =>
    rw [List.mapM_nil, pure_eq_ok] at h
    rw [h.1]
    exact iff_of_true (fun v hv => absurd hv List.not_mem_nil) trivial
  | cons c claims ih =>
    rw [List.mapM_cons, bind_eq_ok] at h
    obtain ⟨v, s₁, hv, h⟩ := h
    obtain ⟨rest, s₂, hrest, h⟩ := bind_eq_ok.mp h
    obtain ⟨rfl, rfl⟩ := pure_eq_ok.mp h
    have hstate : (ran (verifyClaim ctx method c) s).2 = s₁ := by rw [ran_ok hv]
    rw [List.forall_mem_cons, EachBounded, hstate, verified_bounded_iff hv, ih s₁ rest hrest]

/-! ## Two claims without a boundary -/

/-- No abstracts, no model, and a database with one observation. -/
def silentContext : MethodContext NonFinite Unit :=
  { sampleContext with
    services :=
      { agenticSearch := fun _ w => (.ok [], w)
        complete := fun _ w => (.error (py "unavailable"), w)
        observations := some fun _ w => (.ok 1, w) } }

/-- One abstract, and a model that finds a limitation and quotes nothing. -/
def limitingContext : MethodContext NonFinite Unit :=
  { sampleContext with
    services :=
      { agenticSearch := fun _ w => (.ok [.dict sampleHit], w)
        complete := fun _ w =>
          (.ok (py "\x7b\"verdict\":\"supported\",\"scope_limitation\":true\x7d"), w)
        observations := none } }

theorem not_narrowedIsBounded {ctx : MethodContext NonFinite Unit} {method : Method}
    (h : (ran (runMethod ctx method [sampleClaim]) ⟨(), []⟩).1.toOption.map
      (fun results => results.map fun v => (v.label, v.boundary)) = some [(.narrowed, [])]) :
    ∃ results s', runMethod ctx method [sampleClaim] ⟨(), []⟩ = .ok results s' ∧
      ¬∀ v ∈ results, NarrowedIsBounded v := by
  cases hrun : runMethod ctx method [sampleClaim] ⟨(), []⟩ with
  | error e s' =>
    rw [ran_error hrun] at h
    cases h
  | ok results s' =>
    rw [ran_ok hrun] at h
    obtain ⟨v, rfl, hv⟩ := List.map_eq_singleton_iff.mp (Option.some.inj h)
    obtain ⟨hlabel, hboundary⟩ := Prod.mk.injEq .. ▸ hv
    refine ⟨[v], s', rfl, fun hall => ?_⟩
    have hbounded := hall v (List.mem_singleton_self _) hlabel
    rw [hboundary] at hbounded
    cases hbounded

/-- The database narrows a claim nothing is known about, and a limitation without a quote narrows a
claim to nothing. -/
theorem narrowed_unbounded :
    (∃ results s', runMethod silentContext .full [sampleClaim] ⟨(), []⟩ = .ok results s' ∧
        ¬∀ v ∈ results, NarrowedIsBounded v) ∧
      ∃ results s', runMethod limitingContext .dualCedg [sampleClaim] ⟨(), []⟩ = .ok results s' ∧
        ¬∀ v ∈ results, NarrowedIsBounded v :=
  ⟨not_narrowedIsBounded (by decide +kernel), not_narrowedIsBounded (by decide +kernel)⟩

/-- Without the database the first of them is not narrowed. -/
theorem narrowed_bounded_silent : ∃ results s',
    runMethod silentContext .dualCedg [sampleClaim] ⟨(), []⟩ = .ok results s' ∧
      ∀ v ∈ results, NarrowedIsBounded v := by
  have hask : ask silentContext .dualCedg sampleClaim ⟨(), []⟩ =
      .ok ⟨3, 0, [], [], (false, none), []⟩ ⟨(), []⟩ := rfl
  cases hrun : runMethod silentContext .dualCedg [sampleClaim] ⟨(), []⟩ with
  | error e s' => cases hrun
  | ok results s' =>
    refine ⟨results, s', rfl, (narrowed_bounded_iff silentContext .dualCedg [sampleClaim] _ s'
      results hrun).mpr ⟨?_, trivial⟩⟩
    intro _ a s₁ ha
    rw [hask] at ha
    cases ha
    exact .inr (.inr (.inr (by decide)))

end NarrowedBoundary
