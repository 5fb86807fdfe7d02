import VeriMat.Ablation
import VeriMat.ParetoProgress

/-! # What the tree search makes of refinements

A refinement is archived when the gate lets it pass, and the gate wants "@" in every reference of
its evidence. The references are the ids of documents as the search service gives them, and
nothing puts an "@" there: the search is decided by the format of the ids alone. -/
namespace RefinementSearch

open PyText JsonText PyValue PyDict PyDisplay Events ModelTransports JsonWritable Transaction
open Verification ParetoSearch Methods
open DecisionGraph (Payload getItem)

variable {F W : Type} [PyFloat F] (ctx : MethodContext F W) (c : Claim)
  (verdicts : List (Verdict F)) (dbState : Option DbState)

/-! ## What is asked and what is returned -/

/-- What the model offers when it is asked for refinements. -/
def proposed (s : Lab F W) : List (Payload F) :=
  match refineRequest c verdicts with
  | .error _ => []
  | .ok request => refinementsOf (ctx.services.complete request s.world).1

/-- A refinement with a boundary and a restated text that say something. -/
def Stated (item : Payload F) : Prop :=
  isBlank (textOf ctx.interpreter item (py "boundary")) = false ∧
    isBlank (textOf ctx.interpreter item (py "restated")) = false

/-- A hypothesis is that of one of the refinements. -/
def OfRefinement (items : List (Payload F)) (h : EvidenceBoundHypothesis F) : Prop :=
  ∃ x ∈ expansions ctx.interpreter c verdicts items, h = x.hypothesis

/-- The search archives a refinement, and `_mcts_refine` returns the boundary of an archived
refinement. -/
def Decides (s : Lab F W) : Prop :=
  ∃ report label boundary,
    (refinementSearch ctx c verdicts dbState (proposed ctx c verdicts s)).search (rootOf c verdicts)
        ctx.mctsIterations = .ok report ∧
      (ran (mctsRefine ctx c verdicts dbState) s).1 = .ok (label, boundary) ∧
      ∃ r ∈ report.paretoArchive,
        OfRefinement ctx c verdicts (proposed ctx c verdicts s) r.hypothesis ∧
          r.hypothesis.boundary = boundary

/-- The texts of the hypotheses can be encoded, so that they have digests. -/
structure Encodable (items : List (Payload F)) : Prop where
  claimId : (encode c.claimId).isSome = true
  material : (encode c.material).isSome = true
  refs : ∀ v ∈ verdicts, (encode v.ref).isSome = true
  items : ∀ item ∈ items, (encode (textOf ctx.interpreter item (py "boundary"))).isSome = true ∧
    (encode (textOf ctx.interpreter item (py "restated"))).isSome = true

variable {ctx c verdicts dbState} {items : List (Payload F)}

/-! ## The hypotheses -/

theorem writable_hypothesisOf {hypothesisId claim boundary : PyStr} :
    Writable (hypothesisOf verdicts hypothesisId claim boundary).payload ↔
      (encode hypothesisId).isSome = true ∧ (encode claim).isSome = true ∧
        (encode boundary).isSome = true ∧ ∀ v ∈ verdicts, (encode v.ref).isSome = true := by
  have hrefs : Writable (textList (verdicts.map Verdict.ref) : PyVal F) ↔
      ∀ v ∈ verdicts, (encode v.ref).isSome = true := by
    rw [textList, writable_texts, List.forall_mem_map]
  have hqueries : Writable (textList counterevidenceTemplates : PyVal F) :=
    writable_texts.mpr <| by
      simp only [counterevidenceTemplates, List.forall_mem_cons, encode_py, List.not_mem_nil,
        IsEmpty.forall_iff, implies_true, and_true]
  have hchecks : Writable (textList [py "declared operating conditions"] : PyVal F) :=
    writable_texts.mpr (List.forall_mem_singleton.mpr (encode_py _))
  have hmetadata : Writable (.dict [] : PyVal F) :=
    writable_dict fun p hp => absurd hp List.not_mem_nil
  have hkeys : ∀ key ∈ [py "hypothesis_id", py "claim", py "boundary", py "support_evidence",
      py "counter_queries", py "physical_checks", py "metadata"], (encode key).isSome = true := by
    simp only [List.forall_mem_cons, encode_py, List.not_mem_nil, IsEmpty.forall_iff,
      implies_true, and_true]
  have hpayload : (hypothesisOf verdicts hypothesisId claim boundary).payload =
      .dict ([(py "hypothesis_id", .str hypothesisId), (py "claim", .str claim),
        (py "boundary", .str boundary),
        (py "support_evidence", textList (verdicts.map Verdict.ref)),
        (py "counter_queries", textList counterevidenceTemplates),
        (py "physical_checks", textList [py "declared operating conditions"]),
        (py "metadata", .dict [])].map fun p => (.str p.1, p.2)) := rfl
  rw [hpayload, writable_dict_iff]
  simp only [List.mem_cons, List.not_mem_nil, or_false, forall_eq_or_imp, forall_eq] at hkeys ⊢
  simp only [hkeys, true_and, writable_str, hrefs, hqueries, hchecks, hmetadata, and_true]

variable (ctx c verdicts) in
/-- The hypothesis of a refinement. -/
abbrev refined (i : ℕ) (item : Payload F) : EvidenceBoundHypothesis F :=
  (expansionOf ctx.interpreter c verdicts i item).hypothesis

/-- The restated text is the claim of the hypothesis. -/
theorem claim_of_stated {item : Payload F} (h : Stated ctx item) (i : ℕ) :
    (refined ctx c verdicts i item).claim =
      textOf ctx.interpreter item (py "restated") := by
  have hrestated := h.2
  change strOf ctx.interpreter.display (orDefault (getItem item (py "restated")) (.str c.claimId)) =
    strOf ctx.interpreter.display (orDefault (getItem item (py "restated")) (.str []))
  rw [textOf] at hrestated
  cases hget : getItem item (py "restated") with
  | none =>
    rw [hget] at hrestated
    cases hrestated
  | some value =>
    rw [hget] at hrestated
    by_cases htruthy : truthy value = true
    · simp only [orDefault, if_pos htruthy]
    · rw [orDefault, if_neg htruthy] at hrestated
      cases hrestated

theorem mem_expansions {x : Expansion F} : x ∈ expansions ctx.interpreter c verdicts items ↔
    ∃ (i : ℕ) (hi : i < items.length), x = expansionOf ctx.interpreter c verdicts i items[i] := by
  rw [expansions, List.mem_map]
  constructor
  · rintro ⟨⟨item, i⟩, hmem, rfl⟩
    obtain ⟨hi, hitem⟩ := List.getElem?_eq_some_iff.mp (List.mem_zipIdx_iff_getElem?.mp hmem)
    exact ⟨i, hi, by rw [hitem]⟩
  · rintro ⟨i, hi, rfl⟩
    exact ⟨(items[i], i), List.mem_zipIdx_iff_getElem?.mpr (List.getElem?_eq_getElem hi), rfl⟩

theorem boundary_ne_nil (hstated : ∀ item ∈ items, Stated ctx item) {h : EvidenceBoundHypothesis F}
    (href : OfRefinement ctx c verdicts items h) : h.boundary ≠ [] := by
  obtain ⟨x, hx, rfl⟩ := href
  obtain ⟨i, hi, rfl⟩ := mem_expansions.mp hx
  intro hnil
  have hblank : isBlank (refined ctx c verdicts i items[i]).boundary = false :=
    (hstated _ (List.getElem_mem hi)).1
  rw [hnil] at hblank
  cases hblank

omit [PyFloat F] in
/-- No refinement has the id of the root. -/
theorem refinementId_ne_root (i : ℕ) : refinementId c i ≠ (rootOf c verdicts).hypothesisId := by
  intro h
  have hroot : py "-root" = py "-r" ++ py "oot" := rfl
  change c.claimId ++ py "-r" ++ decimal i = c.claimId ++ py "-root" at h
  rw [hroot, ← List.append_assoc] at h
  have hdigit := decimal_digits i 111 (by rw [List.append_cancel_left h]; decide)
  exact absurd hdigit (by decide)

theorem isRefinement_refinementId (i : ℕ) : isRefinement c (refinementId c i) = true := by
  have hprefix : refinementId c i = (c.claimId ++ py "-r") ++ decimal i := rfl
  have hlength : c.claimId.length + 2 = (c.claimId ++ py "-r").length := by simp [py]
  rw [isRefinement, hprefix, hlength]
  simp only [List.drop_left]
  rw [Bool.and_eq_true, Bool.and_eq_true]
  refine ⟨⟨List.isPrefixOf_iff_prefix.mpr (List.prefix_append _ _), ?_⟩, ?_⟩
  · rw [bne_iff_ne]
    exact decimal_ne_nil i
  · exact List.all_eq_true.mpr (decimal_digits i)

/-! ## The gate -/

/-- A refinement passes the gate when the references of its evidence are locators. -/
theorem gate_refinement (hverdicts : verdicts ≠ []) {item : Payload F} (h : Stated ctx item)
    (i : ℕ) :
    defaultAcceptanceGate (refined ctx c verdicts i item)
        (evaluatorOf c verdicts dbState (refined ctx c verdicts i item)) =
          true ↔ ∀ v ∈ verdicts, isLocator v.ref = true := by
  have hid : isBlank (refinementId c i) = false := by
    have hsplit : refinementId c i = c.claimId ++ py "-r" ++ decimal i := rfl
    have hmiddle : isBlank (py "-r") = false := by decide
    rw [hsplit, isBlank_append, isBlank_append, hmiddle, Bool.and_false, Bool.false_and]
  have hclaim := h.2
  have hrestated : (refined ctx c verdicts i item).claim = _ :=
    claim_of_stated h i
  rw [← hrestated] at hclaim
  have hboundary : isBlank (refined ctx c verdicts i item).boundary = false :=
    h.1
  have hevidence : 0 < (evaluatorOf c verdicts dbState
      (refined ctx c verdicts i item)).evidenceSufficiency := by
    change (0 : ℚ) < min 1 (17 / 50 * ((max 1 verdicts.length : ℕ) : ℚ))
    refine lt_min (by norm_num) (mul_pos (by norm_num) ?_)
    exact Nat.cast_pos.mpr (lt_of_lt_of_le one_pos (le_max_left _ _))
  have hphysical : 0 < (evaluatorOf c verdicts dbState
      (refined ctx c verdicts i item)).physicalValidity := by
    change (0 : ℚ) < if c.composition ≠ [] then 1 else 3 / 5
    split <;> norm_num
  have hsupport : (refined ctx c verdicts i item).supportEvidence.isEmpty =
      false := by
    rw [List.isEmpty_eq_false_iff]
    exact fun hnil => hverdicts (List.map_eq_nil_iff.mp hnil)
  have hqueries : (refined ctx c verdicts i item).counterQueries.isEmpty =
      false := rfl
  have hchecks : (refined ctx c verdicts i item).physicalChecks.isEmpty =
      false := rfl
  have hrefs : (refined ctx c verdicts i item).supportEvidence.all isLocator =
      verdicts.all fun v => isLocator v.ref := List.all_map
  rw [defaultAcceptanceGate, hclaim, hboundary, hsupport, hqueries, hchecks, hrefs,
    decide_eq_true hevidence, decide_eq_true hphysical]
  have hidentified : isBlank (refined ctx c verdicts i item).hypothesisId =
      false := hid
  rw [hidentified]
  simp only [Bool.not_false, Bool.true_and, Bool.and_true, List.all_eq_true]

omit [PyFloat F] in
/-- The root has no boundary, so it never passes. -/
theorem gate_root (objectives : ObjectiveVector) :
    defaultAcceptanceGate (rootOf c verdicts) objectives = false := by
  have hboundary : isBlank (rootOf c verdicts).boundary = true := rfl
  simp only [defaultAcceptanceGate, hboundary, Bool.not_true, Bool.and_false, Bool.false_and]

/-- All refinements are worth the same. -/
theorem objectives_refinement {item : Payload F} (h : Stated ctx item) (i : ℕ) :
    (evaluatorOf c verdicts dbState (refined ctx c verdicts i item)).values =
      objectives c verdicts dbState (py "-") 1 := by
  have hboundary : textOf ctx.interpreter item (py "boundary") ≠ [] := by
    intro hnil
    have hblank := h.1
    rw [hnil] at hblank
    cases hblank
  have hid : isRefinement c (refined ctx c verdicts i item).hypothesisId =
      true := isRefinement_refinementId i
  have hvalues : (evaluatorOf c verdicts dbState
      (refined ctx c verdicts i item)).values =
      objectives c verdicts dbState (textOf ctx.interpreter item (py "boundary"))
        (if isRefinement c (refined ctx c verdicts i item).hypothesisId
          then 1 else 0) := rfl
  have hdash : py "-" ≠ [] := by decide
  rw [hvalues, hid]
  simp only [if_true, objectives, ne_eq, hboundary, not_false_eq_true, hdash]

/-! ## The search -/

section Search
variable (hstated : ∀ item ∈ items, Stated ctx item)
include hstated

/-- The search can take its digests when the texts can be encoded. -/
theorem digested_iff_encodable :
    (Digested (refinementSearch ctx c verdicts dbState items) (rootOf c verdicts) ∧
        ∀ x ∈ expansions ctx.interpreter c verdicts items,
          Digested (refinementSearch ctx c verdicts dbState items) x.hypothesis) ↔
      Encodable ctx c verdicts items := by
  have hroot : Writable (rootOf c verdicts).payload ↔ _ := writable_hypothesisOf
  have hsuffix : (encode (py "-root")).isSome = true := encode_py _
  have hid : ∀ i, (encode (refinementId c i)).isSome = true ↔ (encode c.claimId).isSome = true := by
    intro i
    have hsplit : refinementId c i = c.claimId ++ (py "-r" ++ decimal i) := List.append_assoc _ _ _
    have hdigits : (encode (py "-r" ++ decimal i)).isSome = true := by
      refine encode_append_isSome.mpr ⟨by decide, encode_ascii fun d hd => ?_⟩
      have hdigit := decimal_digits i d hd
      simp only [isDigit, Bool.and_eq_true, decide_eq_true_eq] at hdigit
      omega
    rw [hsplit, encode_append_isSome, and_iff_left hdigits]
  have hitem : ∀ (i : ℕ) (hi : i < items.length),
      Writable (refined ctx c verdicts i items[i]).payload ↔
        (encode c.claimId).isSome = true ∧
          (encode (textOf ctx.interpreter items[i] (py "restated"))).isSome = true ∧
          (encode (textOf ctx.interpreter items[i] (py "boundary"))).isSome = true ∧
          ∀ v ∈ verdicts, (encode v.ref).isSome = true := by
    intro i hi
    have hwritable : Writable (refined ctx c verdicts i items[i]).payload ↔
        (encode (refinementId c i)).isSome = true ∧
          (encode (refined ctx c verdicts i items[i]).claim).isSome = true ∧
          (encode (textOf ctx.interpreter items[i] (py "boundary"))).isSome = true ∧
          ∀ v ∈ verdicts, (encode v.ref).isSome = true := writable_hypothesisOf
    rw [hwritable, hid, claim_of_stated (hstated _ (List.getElem_mem hi)) i]
  simp only [digested_iff, hroot, encode_append_isSome, hsuffix, and_true]
  constructor
  · rintro ⟨⟨hclaimId, hmaterial, -, hrefs⟩, hall⟩
    refine ⟨hclaimId, hmaterial, hrefs, fun item hmem => ?_⟩
    obtain ⟨i, hi, rfl⟩ := List.getElem_of_mem hmem
    obtain ⟨-, hrestated, hboundary, -⟩ :=
      (hitem i hi).mp (hall _ (mem_expansions.mpr ⟨i, hi, rfl⟩))
    exact ⟨hboundary, hrestated⟩
  · intro h
    refine ⟨⟨h.claimId, h.material, rfl, h.refs⟩, fun x hx => ?_⟩
    obtain ⟨i, hi, rfl⟩ := mem_expansions.mp hx
    obtain ⟨hboundary, hrestated⟩ := h.items _ (List.getElem_mem hi)
    exact (hitem i hi).mpr ⟨h.claimId, hrestated, hboundary, h.refs⟩

end Search

theorem expander_root :
    (refinementSearch ctx c verdicts dbState items).expander (rootOf c verdicts) =
      expansions ctx.interpreter c verdicts items := if_pos rfl

theorem expander_refinement {x : Expansion F}
    (hx : x ∈ expansions ctx.interpreter c verdicts items) :
    (refinementSearch ctx c verdicts dbState items).expander x.hypothesis = [] := by
  obtain ⟨i, hi, rfl⟩ := mem_expansions.mp hx
  exact if_neg (refinementId_ne_root i)

/-- A chain of proposals from the root ends at the root or at a refinement. -/
theorem ofRefinement_of_chain {path : List PyStr} {h : EvidenceBoundHypothesis F}
    (hchain : Chain (refinementSearch ctx c verdicts dbState items) (rootOf c verdicts) path h) :
    h = rootOf c verdicts ∨ OfRefinement ctx c verdicts items h := by
  cases hchain with
  | nil => exact .inl rfl
  | cons hproposed _ hrest =>
    rw [expander_root] at hproposed
    cases hrest with
    | nil => exact .inr ⟨_, hproposed, rfl⟩
    | cons hproposed' _ _ =>
      rw [expander_refinement hproposed] at hproposed'
      cases hproposed'

section Run
variable {n : ℕ} {p : Progress F}
  (hp : (refinementSearch ctx c verdicts dbState items).iterate (rootOf c verdicts) n = .ok p)
include hp

/-- Every candidate is a refinement that passed the gate. -/
theorem ofRefinement_of_candidate {r : SearchResult F} (hr : r ∈ p.candidates) :
    OfRefinement ctx c verdicts items r.hypothesis ∧
      defaultAcceptanceGate r.hypothesis r.objectives = true ∧
      r.objectives = evaluatorOf c verdicts dbState r.hypothesis := by
  have hjustified := justified_candidates hp r hr
  have hgated : defaultAcceptanceGate r.hypothesis r.objectives = true := hjustified.gated
  refine ⟨?_, hgated, hjustified.objectives⟩
  rcases ofRefinement_of_chain hjustified.path with hroot | href
  · rw [hroot, gate_root] at hgated
    cases hgated
  · exact href

variable (hstated : ∀ item ∈ items, Stated ctx item)
include hstated

theorem incomparable_candidates {r s : SearchResult F} (hr : r ∈ p.candidates)
    (hs : s ∈ p.candidates) : dominates r.objectives s.objectives = false := by
  have hworth : ∀ r ∈ p.candidates,
      r.objectives.values = objectives c verdicts dbState (py "-") 1 := by
    intro r hr
    obtain ⟨⟨x, hx, hsame⟩, -, hobjectives⟩ := ofRefinement_of_candidate hp hr
    obtain ⟨i, hi, rfl⟩ := mem_expansions.mp hx
    rw [hobjectives, hsame]
    exact objectives_refinement (hstated _ (List.getElem_mem hi)) i
  have hequal : r.objectives = s.objectives := by
    cases hro : r.objectives with
    | mk values valid =>
      cases hso : s.objectives with
      | mk values' valid' =>
        have h := (hworth r hr).trans (hworth s hs).symm
        rw [hro, hso] at h
        dsimp only at h
        subst h
        rfl
  rw [hequal]
  exact not_dominates_self _

theorem locators_of_candidate (hverdicts : verdicts ≠ []) {r : SearchResult F}
    (hr : r ∈ p.candidates) : ∀ v ∈ verdicts, isLocator v.ref = true := by
  obtain ⟨⟨x, hx, hsame⟩, hgated, hobjectives⟩ := ofRefinement_of_candidate hp hr
  obtain ⟨i, hi, rfl⟩ := mem_expansions.mp hx
  rw [hobjectives, hsame] at hgated
  exact (gate_refinement hverdicts (hstated _ (List.getElem_mem hi)) i).mp hgated

end Run

/-- A search of two iterations or more ends when every text can be encoded. -/
theorem search_returns_iff {iterations : ℤ} (hiterations : 2 ≤ iterations)
    (hstated : ∀ item ∈ items, Stated ctx item) :
    (∃ report, (refinementSearch ctx c verdicts dbState items).search (rootOf c verdicts)
      iterations = .ok report) ↔ Encodable ctx c verdicts items := by
  have hdigested : (Digested (refinementSearch ctx c verdicts dbState items) (rootOf c verdicts) ∧
      _) ↔ _ := digested_iff_encodable hstated
  rw [← hdigested]
  constructor
  · rintro ⟨report, hreport⟩
    obtain ⟨-, p, hp, -⟩ := search_eq_ok.mp hreport
    obtain ⟨q, hq, -⟩ := iterate_earlier (show 2 ≤ iterations.toNat by omega) hp
    obtain ⟨hroot, hall⟩ := digested_of_iterate hq
    rw [expander_root] at hall
    exact ⟨hroot, hall⟩
  · rintro ⟨hroot, hall⟩
    have hdigests : ∀ h, h = rootOf c verdicts ∨ OfRefinement ctx c verdicts items h →
        Digested (refinementSearch ctx c verdicts dbState items) h := by
      rintro h (rfl | ⟨x, hx, rfl⟩)
      · exact hroot
      · exact hall x hx
    have hclosed : ∀ h, h = rootOf c verdicts ∨ OfRefinement ctx c verdicts items h →
        ∀ y ∈ (refinementSearch ctx c verdicts dbState items).expander h,
          y.hypothesis = rootOf c verdicts ∨ OfRefinement ctx c verdicts items y.hypothesis := by
      rintro h (rfl | ⟨x, hx, rfl⟩) y hy
      · rw [expander_root] at hy
        exact .inr ⟨y, hy, rfl⟩
      · rw [expander_refinement hx] at hy
        cases hy
    obtain ⟨p, hp⟩ := iterate_returns hdigests hclosed (.inl rfl) iterations.toNat
    exact ⟨_, search_eq_ok.mpr ⟨by omega, p, hp, rfl⟩⟩

/-- A search that ends archives refinements, and it archives one when there are refinements and the
references are locators. -/
theorem archived_iff {iterations : ℤ} (hiterations : 2 ≤ iterations) (hverdicts : verdicts ≠ [])
    (hstated : ∀ item ∈ items, Stated ctx item) {report : SearchReport F}
    (hreport : (refinementSearch ctx c verdicts dbState items).search (rootOf c verdicts)
      iterations = .ok report) :
    (∀ r ∈ report.paretoArchive, OfRefinement ctx c verdicts items r.hypothesis) ∧
      (report.paretoArchive ≠ [] ↔ items ≠ [] ∧ ∀ v ∈ verdicts, isLocator v.ref = true) := by
  obtain ⟨-, p, hp, rfl⟩ := search_eq_ok.mp hreport
  refine ⟨fun r hr => (ofRefinement_of_candidate hp (mem_paretoFront hr)).1, ?_⟩
  dsimp only
  constructor
  · intro hsome
    obtain ⟨r, hr⟩ := List.exists_mem_of_ne_nil _ hsome
    have hcandidate := mem_paretoFront hr
    refine ⟨?_, locators_of_candidate hp hstated hverdicts hcandidate⟩
    rintro rfl
    obtain ⟨⟨x, hx, -⟩, -⟩ := ofRefinement_of_candidate hp hcandidate
    cases hx
  · rintro ⟨hitems, hlocators⟩
    obtain ⟨q, hq, hprefix⟩ := iterate_earlier (show 2 ≤ iterations.toNat by omega) hp
    have hexpansions : expansions ctx.interpreter c verdicts items ≠ [] := by
      intro hnil
      have hlength := congrArg List.length hnil
      rw [expansions, List.length_map, List.length_zipIdx] at hlength
      exact hitems (List.length_eq_zero_iff.mp hlength)
    obtain ⟨x, hx, hcandidates⟩ := proposal_evaluated hq (by rwa [expander_root]) fun _ _ => rfl
    rw [expander_root] at hx
    obtain ⟨i, hi, rfl⟩ := mem_expansions.mp hx
    have hearly : q.candidates ≠ [] := hcandidates rfl
      ((gate_refinement hverdicts (hstated _ (List.getElem_mem hi)) i).mpr hlocators)
    refine paretoFront_ne_nil ?_ fun r hr s hs => incomparable_candidates hp hstated hr hs
    intro hnil
    rw [hnil] at hprefix
    exact hearly (List.prefix_nil.mp hprefix)

/-! ## The search of a claim -/

theorem ran_refine (s : Lab F W) :
    (ran (refine ctx c verdicts) s).1 = .ok (proposed ctx c verdicts s) := by
  rw [refine, proposed]
  cases refineRequest c verdicts with
  | error e => rfl
  | ok request => rfl

/-- What `_mcts_refine` returns after a search. -/
theorem ran_mctsRefine {s : Lab F W} {report : SearchReport F}
    (hitems : proposed ctx c verdicts s ≠ [])
    (hreport : (refinementSearch ctx c verdicts dbState (proposed ctx c verdicts s)).search
      (rootOf c verdicts) ctx.mctsIterations = .ok report) :
    (ran (mctsRefine ctx c verdicts dbState) s).1 =
      .ok ((cedgLabel verdicts).1, boundaryOf (cedgLabel verdicts).2 report) := by
  rw [mctsRefine, ran_bind_fst, ran_refine]
  simp only [Except.bind, List.isEmpty_iff, if_neg hitems, hreport]
  rfl

/-- The tree search decides exactly when there are refinements to search, every reference is a
locator, and no text has a lone surrogate. -/
theorem decides_iff (ctx : MethodContext F W) (c : Claim) (verdicts : List (Verdict F))
    (dbState : Option DbState) (s : Lab F W) (hverdicts : verdicts ≠ [])
    (hiterations : 2 ≤ ctx.mctsIterations)
    (hstated : ∀ item ∈ proposed ctx c verdicts s, Stated ctx item) :
    Decides ctx c verdicts dbState s ↔ proposed ctx c verdicts s ≠ [] ∧
      (∀ v ∈ verdicts, isLocator v.ref = true) ∧
      Encodable ctx c verdicts (proposed ctx c verdicts s) := by
  constructor
  · rintro ⟨report, label, boundary, hreport, -, r, hr, -⟩
    obtain ⟨hitems, hlocators⟩ := (archived_iff hiterations hverdicts hstated hreport).2.mp
      (List.ne_nil_of_mem hr)
    exact ⟨hitems, hlocators, (search_returns_iff hiterations hstated).mp ⟨report, hreport⟩⟩
  · rintro ⟨hitems, hlocators, hencodable⟩
    obtain ⟨report, hreport⟩ := (search_returns_iff hiterations hstated).mpr hencodable
    obtain ⟨hall, hsome⟩ := archived_iff hiterations hverdicts hstated hreport
    have hreturned := ran_mctsRefine hitems hreport
    cases harchive : report.paretoArchive with
    | nil => exact absurd harchive (hsome.mpr ⟨hitems, hlocators⟩)
    | cons best rest =>
      have hbest : best ∈ report.paretoArchive := by
        rw [harchive]
        exact List.mem_cons_self
      have href := hall best hbest
      have hboundary : boundaryOf (cedgLabel verdicts).2 report = best.hypothesis.boundary := by
        rw [boundaryOf, harchive]
        exact if_neg (boundary_ne_nil hstated href)
      rw [hboundary] at hreturned
      exact ⟨report, _, _, hreport, hreturned, best, hbest, href, rfl⟩

/-! ## An id with a place, and one without -/

theorem proposed_eq_offered (ctx : MethodContext F Unit) (c : Claim) (verdicts : List (Verdict F))
    (s : Lab F Unit) : proposed ctx c verdicts s = Ablation.offered ctx c verdicts := rfl

open Ablation in
theorem decides_iff_located :
    (sampleVerdicts ≠ [] ∧ 2 ≤ sampleContext.mctsIterations ∧
      ∀ item ∈ proposed sampleContext sampleClaim sampleVerdicts ⟨(), []⟩,
        Stated sampleContext item) ∧
      Decides sampleContext sampleClaim sampleVerdicts none ⟨(), []⟩ := by
  have hoffered :
      proposed sampleContext sampleClaim sampleVerdicts ⟨(), []⟩ = [sampleRefinement] := by
    rw [proposed_eq_offered, offered_sample]
  have hverdicts : sampleVerdicts ≠ [] := List.cons_ne_nil _ _
  have hstated : ∀ item ∈ proposed sampleContext sampleClaim sampleVerdicts ⟨(), []⟩,
      Stated sampleContext item := by
    rw [hoffered]
    intro item hitem
    obtain rfl := List.mem_singleton.mp hitem
    exact ⟨by decide +kernel, by decide +kernel⟩
  refine ⟨⟨hverdicts, le_refl _, hstated⟩, ?_⟩
  refine (decides_iff sampleContext sampleClaim sampleVerdicts none ⟨(), []⟩ hverdicts (le_refl _)
    hstated).mpr ?_
  rw [hoffered]
  refine ⟨List.cons_ne_nil _ _, ?_, by decide +kernel, by decide +kernel, ?_, ?_⟩
  · intro v hv
    obtain rfl := List.eq_of_mem_replicate hv
    decide +kernel
  · intro v hv
    obtain rfl := List.eq_of_mem_replicate hv
    decide +kernel
  · intro item hitem
    obtain rfl := List.mem_singleton.mp hitem
    exact ⟨by decide +kernel, by decide +kernel⟩

/-- The same abstract under the id of a document index. -/
def indexedHit : Payload NonFinite :=
  [(.str (py "doc_id"), .str (py "W2034")), (.str (py "abstract"), .str (py "Oxides harden."))]

def indexedPassage : Passage NonFinite := ⟨py "W2034", py "Oxides harden.", indexedHit⟩

def indexedVerdict : Verdict NonFinite :=
  ⟨py "supported", false, py "Oxides harden", indexedPassage⟩

open Ablation in
/-- The verdict is admitted and the refinement is stated, and the search archives nothing. -/
theorem undecided_indexed :
    passageOf sampleContext.interpreter indexedHit = some indexedPassage ∧
      indexedPassage.ref = textOf sampleContext.interpreter indexedHit (py "doc_id") ∧
      indexedPassage.ref ≠ [] ∧
      (ran (judgePassage sampleContext sampleClaim indexedPassage) ⟨(), []⟩).1 =
        .ok (.inl indexedVerdict) ∧
      2 ≤ sampleContext.mctsIterations ∧
      proposed sampleContext sampleClaim [indexedVerdict] ⟨(), []⟩ = [sampleRefinement] ∧
      Stated sampleContext sampleRefinement ∧
      ¬Decides sampleContext sampleClaim [indexedVerdict] none ⟨(), []⟩ := by
  have hrequest : (refineRequest sampleClaim [indexedVerdict]).toOption.isSome = true := by
    decide +kernel
  have hoffered :
      proposed sampleContext sampleClaim [indexedVerdict] ⟨(), []⟩ = [sampleRefinement] := by
    rw [proposed_eq_offered, offered_of_request hrequest]
  have hstated : Stated sampleContext sampleRefinement := ⟨by decide +kernel, by decide +kernel⟩
  have hjudged : judgeReply sampleContext.interpreter indexedPassage (.ok (render verdictReply)) =
      .ok (.inl indexedVerdict) := by
    rw [judgeReply, loads_verdictReply]
    rfl
  have hiterations : 2 ≤ sampleContext.mctsIterations := le_refl _
  refine ⟨by rfl, by rfl, by decide +kernel, judgePassage_of_request (by decide +kernel) hjudged _,
    hiterations, hoffered, hstated, ?_⟩
  rintro ⟨report, label, boundary, hreport, -, r, hr, -⟩
  rw [hoffered] at hreport
  have hall : ∀ item ∈ [sampleRefinement], Stated sampleContext item := by
    intro item hitem
    obtain rfl := List.mem_singleton.mp hitem
    exact hstated
  have hlocators := ((archived_iff hiterations (List.cons_ne_nil _ _) hall hreport).2.mp
    (List.ne_nil_of_mem hr)).2
  exact absurd (hlocators indexedVerdict (List.mem_singleton_self _)) (by decide +kernel)

end RefinementSearch
