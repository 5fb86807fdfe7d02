import VeriMat.ParetoFront
import VeriMat.JsonWritable

/-! # How far a search gets

An iteration fails only at a digest. The first one evaluates the root, the second one expands it,
which takes a digest of every proposal, and evaluates a proposal. -/
namespace ParetoSearch

open PyText JsonText PyValue PyDict JsonWritable

variable {F : Type} [PyFloat F] {S : ParetoMCTS F}

/-! ## Digests -/

variable (S) in
/-- The hypothesis has a digest. -/
def Digested (h : EvidenceBoundHypothesis F) : Prop :=
  ∃ digest, h.canonicalSha256 S.sha256 = .ok digest

theorem digested_iff {h : EvidenceBoundHypothesis F} : Digested S h ↔ Writable h.payload := by
  rw [writable_iff, Digested, EvidenceBoundHypothesis.canonicalSha256]
  cases dumps h.payload with
  | error cause => simp
  | ok text => cases henc : encode text <;> simp [henc]

omit [PyFloat F] in
theorem fresh_hypothesis (h : EvidenceBoundHypothesis F) (action : PyStr) (prior : ℚ) (depth : ℕ) :
    (Node.fresh h action prior depth).hypothesis = h := rfl

theorem evaluate_returns {node : Node F} (h : Digested S node.hypothesis) :
    ∃ result, S.evaluate node = .ok result := by
  obtain ⟨digest, hdigest⟩ := h
  rw [ParetoMCTS.evaluate]
  simp only [hdigest]
  exact ⟨_, rfl⟩

theorem digested_of_evaluate {node : Node F} {result : Node F × Evaluation F}
    (h : S.evaluate node = .ok result) : Digested S node.hypothesis := by
  rw [ParetoMCTS.evaluate] at h
  cases hdigest : node.hypothesis.canonicalSha256 S.sha256 with
  | error e =>
    simp only [hdigest] at h
    cases h
  | ok digest => exact ⟨digest, hdigest⟩

/-- The loop of `_expand` takes the digest of every proposal, seen before or not. -/
theorem admitted_returns_iff {depth : ℕ} {proposals : List (Expansion F)} :
    ∀ {seen : List PyStr}, (∃ result, S.admitted depth seen proposals = .ok result) ↔
      ∀ x ∈ proposals, Digested S x.hypothesis := by
  induction proposals with
  | nil =>
    intro seen
    rw [ParetoMCTS.admitted]
    simp
  | cons proposal proposals ih =>
    intro seen
    rw [List.forall_mem_cons, ParetoMCTS.admitted]
    cases hdigest : proposal.hypothesis.canonicalSha256 S.sha256 with
    | error e =>
      constructor
      · rintro ⟨result, hresult⟩
        cases hresult
      · rintro ⟨⟨digest, hok⟩, -⟩
        cases hdigest.symm.trans hok
    | ok digest =>
      have hfirst : Digested S proposal.hypothesis := ⟨digest, hdigest⟩
      dsimp only
      by_cases hseen : digest ∈ seen
      · rw [if_pos hseen, ih]
        exact (and_iff_right hfirst).symm
      · have hlater : (∃ result, S.admitted depth (digest :: seen) proposals = .ok result) ↔ _ := ih
        rw [if_neg hseen, ← hlater, and_iff_right hfirst]
        cases S.admitted depth (digest :: seen) proposals with
        | error e =>
          constructor
          · rintro ⟨result, hresult⟩
            cases hresult
          · rintro ⟨result, hresult⟩
            cases hresult
        | ok rest =>
          refine iff_of_true ?_ ⟨rest, rfl⟩
          by_cases hprune : S.prune proposal = true
          · exact ⟨_, if_pos hprune⟩
          · exact ⟨_, if_neg hprune⟩

/-- The first proposal is never seen before. -/
theorem admitted_ne_nil {depth : ℕ} {proposals : List (Expansion F)} {children : List (Node F)}
    {pruned : ℕ} (h : S.admitted depth [] proposals = .ok (children, pruned))
    (hprune : ∀ x ∈ proposals, S.prune x = true) (hsome : proposals ≠ []) : children ≠ [] := by
  cases proposals with
  | nil => exact absurd rfl hsome
  | cons proposal proposals =>
    rw [ParetoMCTS.admitted] at h
    cases hdigest : proposal.hypothesis.canonicalSha256 S.sha256 with
    | error e =>
      simp only [hdigest] at h
      cases h
    | ok digest =>
      simp only [hdigest, List.not_mem_nil, if_false] at h
      cases hrest : S.admitted depth [digest] proposals with
      | error e =>
        rw [hrest] at h
        cases h
      | ok rest =>
        simp only [hrest, if_pos (hprune proposal List.mem_cons_self)] at h
        cases h
        exact List.cons_ne_nil _ _

theorem expand_returns_iff {node : Node F} : (∃ result, S.expand node = .ok result) ↔
    ∀ x ∈ S.expander node.hypothesis, Digested S x.hypothesis := by
  have hsorted : (∃ result, S.admitted (node.depth + 1) []
      ((S.expander node.hypothesis).insertionSort proposalOrder) = .ok result) ↔ _ :=
    admitted_returns_iff
  simp only [List.mem_insertionSort] at hsorted
  rw [← hsorted, ParetoMCTS.expand]
  cases S.admitted (node.depth + 1) []
      ((S.expander node.hypothesis).insertionSort proposalOrder) with
  | error e => simp
  | ok result => simp

/-! ## An iteration returns -/

omit [PyFloat F] in
theorem above_returns {node : Node F} {i : ℕ} {below : Except SearchError (Node F × Evaluation F)}
    (h : ∃ result, below = .ok result) : ∃ result, ParetoMCTS.above node i below = .ok result := by
  obtain ⟨result, rfl⟩ := h
  exact ⟨_, rfl⟩

section Closed
variable {P : EvidenceBoundHypothesis F → Prop} (hdigested : ∀ h, P h → Digested S h)
  (hclosed : ∀ h, P h → ∀ x ∈ S.expander h, P x.hypothesis)
include hdigested hclosed

omit hdigested in
theorem Grown.child {depth : ℕ} {node child : Node F} (hg : Grown S depth node)
    (hnode : P node.hypothesis) (hmem : child ∈ node.children) :
    Grown S (depth + 1) child ∧ P child.hypothesis := by
  cases hg with
  | mk _ _ _ hproposed _ hchildren =>
    obtain ⟨x, hx, -, hsame, -⟩ := hproposed child hmem
    exact ⟨hchildren child hmem, hsame ▸ hclosed _ hnode x hx⟩

theorem visitBest_returns {weights : List ℚ} {depth : ℕ} {node : Node F} (hg : Grown S depth node)
    (hnode : P node.hypothesis) : ∃ result, S.visitBest weights node = .ok result := by
  rw [ParetoMCTS.visitBest]
  cases hselect : S.selectChild weights node with
  | none => exact evaluate_returns (hdigested _ hnode)
  | some best =>
    have hmem := List.mem_of_getElem? (selectChild_eq_some hselect)
    exact above_returns (evaluate_returns (hdigested _ (hg.child hclosed hnode hmem).2))

theorem visitLeaf_returns {weights : List ℚ} {depth : ℕ} {node : Node F} (hg : Grown S depth node)
    (hnode : P node.hypothesis) : ∃ result, S.visitLeaf weights node = .ok result := by
  rw [ParetoMCTS.visitLeaf]
  by_cases hleaf : 0 < node.visits ∧ node.expanded = false ∧ node.depth < S.maxDepth
  · rw [if_pos hleaf]
    obtain ⟨grown, hexpand⟩ := expand_returns_iff.mpr fun x hx =>
      hdigested _ (hclosed _ hnode x hx)
    have hgrown : Grown S depth grown.1 := hg.expand hleaf.1 hleaf.2.1 hleaf.2.2 hexpand
    have hsame : grown.1.hypothesis = node.hypothesis := by
      obtain ⟨children, -, heq⟩ := expand_eq_ok hexpand
      rw [heq, Node.withChildren_hypothesis]
    obtain ⟨best, hbest⟩ : ∃ result, S.visitBest weights grown.1 = .ok result :=
      visitBest_returns hdigested hclosed hgrown (hsame ▸ hnode)
    simp only [hexpand, hbest]
    exact ⟨_, rfl⟩
  · rw [if_neg hleaf]
    exact evaluate_returns (hdigested _ hnode)

theorem visit_returns {weights : List ℚ} {fuel : ℕ} : ∀ {depth : ℕ} {node : Node F},
    Grown S depth node → P node.hypothesis → ∃ result, S.visit weights fuel node = .ok result := by
  induction fuel with
  | zero =>
    intro depth node hg hnode
    exact visitLeaf_returns hdigested hclosed hg hnode
  | succ fuel ih =>
    intro depth node hg hnode
    rw [ParetoMCTS.visit]
    by_cases hexpanded : node.expanded = true
    · rw [if_pos hexpanded]
      cases hselect : S.selectChild weights node with
      | none => exact visitLeaf_returns hdigested hclosed hg hnode
      | some best =>
        obtain ⟨hchild, hbest⟩ :=
          hg.child hclosed hnode (List.mem_of_getElem? (selectChild_eq_some hselect))
        dsimp only
        by_cases hfresh : best.2.visits = 0
        · rw [if_pos hfresh]
          exact above_returns (evaluate_returns (hdigested _ hbest))
        · rw [if_neg hfresh]
          exact above_returns (ih hchild hbest)
    · rw [if_neg hexpanded]
      exact visitLeaf_returns hdigested hclosed hg hnode

/-- A search whose hypotheses all have digests goes through all its iterations. -/
theorem iterate_returns {root : EvidenceBoundHypothesis F} (hroot : P root) (n : ℕ) :
    ∃ p, S.iterate root n = .ok p := by
  induction n with
  | zero => exact ⟨_, rfl⟩
  | succ n ih =>
    obtain ⟨p, hp⟩ := ih
    obtain ⟨result, hvisit⟩ : ∃ result, S.visit (weightsAt n) S.maxDepth p.root = .ok result :=
      visit_returns hdigested hclosed (grown_of_iterate hp) (root_hypothesis hp ▸ hroot)
    exact ⟨_, iterate_succ_eq_ok.mpr ⟨p, result.1, result.2, hp, hvisit, rfl⟩⟩

end Closed

/-! ## The first two iterations -/

/-- A run has gone through its earlier iterations, and kept their candidates. -/
theorem iterate_earlier {root : EvidenceBoundHypothesis F} {m n : ℕ} (hle : m ≤ n) :
    ∀ {q : Progress F}, S.iterate root n = .ok q →
      ∃ p, S.iterate root m = .ok p ∧ p.candidates <+: q.candidates := by
  induction n, hle using Nat.le_induction with
  | base =>
    intro q hq
    exact ⟨q, hq, List.prefix_refl _⟩
  | succ n hle ih =>
    intro q hq
    obtain ⟨r, node, e, hr, -, rfl⟩ := iterate_succ_eq_ok.mp hq
    obtain ⟨p, hp, hprefix⟩ := ih hr
    refine ⟨p, hp, hprefix.trans ?_⟩
    unfold Progress.record
    dsimp only
    split
    · exact List.prefix_append _ _
    · exact List.prefix_refl _

theorem visit_unexpanded {weights : List ℚ} {node : Node F} (h : node.expanded = false) (fuel : ℕ) :
    S.visit weights fuel node = S.visitLeaf weights node := by
  have hclosed : ¬node.expanded = true := by
    rw [h]
    decide
  cases fuel with
  | zero => rw [ParetoMCTS.visit]
  | succ fuel => rw [ParetoMCTS.visit, if_neg hclosed]

theorem visitLeaf_unvisited {weights : List ℚ} {node : Node F} (h : node.visits = 0) :
    S.visitLeaf weights node = S.evaluate node := by
  rw [ParetoMCTS.visitLeaf, if_neg]
  rw [h]
  exact fun hleaf => absurd hleaf.1 (Nat.lt_irrefl 0)

theorem iterate_one {root : EvidenceBoundHypothesis F} {p : Progress F}
    (h : S.iterate root 1 = .ok p) : ∃ node e,
      S.evaluate (.fresh root (py "ROOT") 1 0) = .ok (node, e) ∧
        p = Progress.record ⟨.fresh root (py "ROOT") 1 0, [], 0, 0, 0, 0⟩ 0 node e := by
  obtain ⟨q, node, e, hq, hvisit, rfl⟩ := iterate_succ_eq_ok.mp h
  obtain rfl := Except.ok.inj hq
  refine ⟨node, e, ?_, rfl⟩
  rw [visit_unexpanded rfl, visitLeaf_unvisited rfl] at hvisit
  exact hvisit

/-- The second iteration expands the root and evaluates its best child. -/
theorem iterate_two {root : EvidenceBoundHypothesis F} {p : Progress F}
    (h : S.iterate root 2 = .ok p) : ∃ q grown pruned node e, S.iterate root 1 = .ok q ∧
      S.expand q.root = .ok (grown, pruned) ∧ q.root.hypothesis = root ∧ q.root.children = [] ∧
      S.visitBest (weightsAt 1) grown = .ok (node, e) ∧
        p = q.record 1 node { e with pruned, expansion := some [] } := by
  obtain ⟨q, node, e, hq, hvisit, rfl⟩ := iterate_succ_eq_ok.mp h
  obtain ⟨first, e₀, hfirst, hroot⟩ := iterate_one hq
  have hnode : q.root = (Node.fresh root (py "ROOT") 1 0).credit e₀.reward := by
    rw [hroot]
    exact (evaluate_eq_ok hfirst).2
  have hclosed : q.root.expanded = false := by
    rw [hnode, Node.credit_expanded]
    rfl
  have hleaf : 0 < q.root.visits ∧ q.root.expanded = false ∧ q.root.depth < S.maxDepth := by
    refine ⟨?_, hclosed, ?_⟩
    · rw [hnode, Node.credit_visits]
      exact Nat.succ_pos _
    · rw [hnode, Node.credit_depth]
      exact S.maxDepth_pos
  rw [visit_unexpanded hclosed, ParetoMCTS.visitLeaf, if_pos hleaf] at hvisit
  cases hexpand : S.expand q.root with
  | error cause =>
    rw [hexpand] at hvisit
    cases hvisit
  | ok grown =>
    simp only [hexpand] at hvisit
    cases hbest : S.visitBest (weightsAt 1) grown.1 with
    | error cause =>
      rw [hbest] at hvisit
      cases hvisit
    | ok result =>
      rw [hbest] at hvisit
      cases hvisit
      refine ⟨q, grown.1, grown.2, result.1, result.2, hq, hexpand, ?_, ?_, hbest, rfl⟩
      · rw [hnode, Node.credit_hypothesis]
        rfl
      · rw [hnode, Node.credit_children]
        rfl

/-- A run of two iterations has taken the digest of the root and of what was proposed for it. -/
theorem digested_of_iterate {root : EvidenceBoundHypothesis F} {p : Progress F}
    (h : S.iterate root 2 = .ok p) :
    Digested S root ∧ ∀ x ∈ S.expander root, Digested S x.hypothesis := by
  obtain ⟨q, grown, pruned, node, e, hq, hexpand, hsame, -⟩ := iterate_two h
  obtain ⟨first, e₀, hfirst, -⟩ := iterate_one hq
  have hroot := digested_of_evaluate hfirst
  rw [fresh_hypothesis] at hroot
  have hall := expand_returns_iff.mp ⟨_, hexpand⟩
  rw [hsame] at hall
  exact ⟨hroot, hall⟩

omit [PyFloat F] in
theorem firstMax_lt {keys : List (ℚ × ℚ × PyStr)} {i : ℕ} (h : firstMax keys = some i) :
    i < keys.length := by
  induction keys generalizing i with
  | nil => cases h
  | cons k ks ih =>
    rw [firstMax] at h
    cases hrest : firstMax ks with
    | none =>
      rw [hrest] at h
      obtain rfl := Option.some.inj h
      exact Nat.succ_pos _
    | some j =>
      rw [hrest] at h
      have hj := ih hrest
      rw [List.length_cons]
      dsimp only at h
      by_cases hless : keyLess k (ks.getD j k) = true
      · rw [if_pos hless] at h
        have hi := Option.some.inj h
        omega
      · rw [if_neg hless] at h
        have hi := Option.some.inj h
        omega

omit [PyFloat F] in
theorem firstMax_isSome {keys : List (ℚ × ℚ × PyStr)} (h : keys ≠ []) :
    ∃ i, firstMax keys = some i := by
  cases keys with
  | nil => exact absurd rfl h
  | cons k ks =>
    rw [firstMax]
    cases firstMax ks with
    | none => exact ⟨0, rfl⟩
    | some j =>
      dsimp only
      by_cases hless : keyLess k (ks.getD j k) = true
      · exact ⟨j + 1, if_pos hless⟩
      · exact ⟨0, if_neg hless⟩

omit [PyFloat F] in
/-- A node with children has a best child. -/
theorem selectChild_isSome {weights : List ℚ} {node : Node F} (h : node.children ≠ []) :
    ∃ i child, S.selectChild weights node = some (i, child) := by
  obtain ⟨i, hi⟩ : ∃ i, firstMax (node.children.map (S.score weights node)) = some i :=
    firstMax_isSome (by simpa using h)
  have hlt : i < node.children.length := by simpa using firstMax_lt hi
  refine ⟨i, node.children[i], ?_⟩
  rw [ParetoMCTS.selectChild, hi, Option.bind_some, List.getElem?_eq_getElem hlt]
  rfl

/-- Where proposals are there and none is pruned, the second iteration evaluates one. -/
theorem proposal_evaluated {root : EvidenceBoundHypothesis F} {p : Progress F}
    (h : S.iterate root 2 = .ok p) (hsome : S.expander root ≠ [])
    (hprune : ∀ x ∈ S.expander root, S.prune x = true) :
    ∃ x ∈ S.expander root, S.plausibility x.hypothesis (S.evaluator x.hypothesis) = true →
      S.gate x.hypothesis (S.evaluator x.hypothesis) = true → p.candidates ≠ [] := by
  obtain ⟨q, grown, pruned, node, e, hq, hexpand, hsame, hnone, hbest, rfl⟩ := iterate_two h
  obtain ⟨children, hadmitted, rfl⟩ := expand_eq_ok hexpand
  rw [hnone, List.nil_append] at hbest
  rw [hsame] at hadmitted
  have hsorted : ∀ x, x ∈ (S.expander root).insertionSort proposalOrder ↔ x ∈ S.expander root :=
    fun x => List.mem_insertionSort _
  have hchildren : children ≠ [] := by
    refine admitted_ne_nil hadmitted (fun x hx => hprune x ((hsorted x).mp hx)) fun hnil => ?_
    obtain ⟨x, hx⟩ := List.exists_mem_of_ne_nil _ hsome
    have hmem := (hsorted x).mpr hx
    rw [hnil] at hmem
    exact absurd hmem List.not_mem_nil
  obtain ⟨i, child, hselect⟩ : ∃ i child,
      S.selectChild (weightsAt 1) (q.root.withChildren children) = some (i, child) :=
    selectChild_isSome (by rwa [Node.withChildren_children])
  rw [ParetoMCTS.visitBest, hselect] at hbest
  obtain ⟨child', e', hevaluate, -, rfl⟩ := above_eq_ok hbest
  have hmem := List.mem_of_getElem? (selectChild_eq_some hselect)
  rw [Node.withChildren_children] at hmem
  obtain ⟨⟨x, hx, -, hfresh⟩, -⟩ := (admitted_spec hadmitted).1 child hmem
  refine ⟨x, (hsorted x).mp hx, fun hplausible hgate => ?_⟩
  have haccepted : e'.accepted = true := by
    have hhypothesis : child.hypothesis = x.hypothesis := by
      rw [hfresh]
      rfl
    rw [(evaluate_eq_ok hevaluate).1]
    simp only [hhypothesis, hplausible, hgate, Bool.and_self]
  unfold Progress.record
  dsimp only [Evaluation.above]
  simp only [haccepted, if_true]
  exact List.append_ne_nil_of_right_ne_nil _ (List.cons_ne_nil _ _)

/-! ## A front that is not empty -/

omit [PyFloat F] in
/-- The loop of `pareto_front` keeps some result of every list that is not empty. -/
theorem keepBest_ne_nil {results : List (SearchResult F)} :
    ∀ {best : Dict PyStr (SearchResult F)}, best.values ≠ [] ∨ results ≠ [] →
      (results.foldl keepBest best).values ≠ [] := by
  induction results with
  | nil =>
    intro best h
    exact h.resolve_right (fun hnil => hnil rfl)
  | cons r results ih =>
    intro best _
    have hget : ∃ kept, (keepBest best r).get r.hypothesis.hypothesisId = some kept := by
      unfold keepBest
      cases best.get r.hypothesis.hypothesisId with
      | none => exact ⟨r, by rw [Dict.get_set, if_pos rfl]⟩
      | some previous => exact ⟨preferred previous r, by rw [Dict.get_set, if_pos rfl]⟩
    obtain ⟨kept, hkept⟩ := hget
    exact ih (.inl (List.ne_nil_of_mem (Dict.mem_values.mpr ⟨_, hkept⟩)))

omit [PyFloat F] in
/-- Where no result dominates another, some result is in the front. -/
theorem paretoFront_ne_nil {results : List (SearchResult F)} (hsome : results ≠ [])
    (hincomparable : ∀ r ∈ results, ∀ s ∈ results, dominates r.objectives s.objectives = false) :
    paretoFront results ≠ [] := by
  obtain ⟨r, hr⟩ : ∃ r, r ∈ (results.foldl keepBest empty).values :=
    List.exists_mem_of_ne_nil _ (keepBest_ne_nil (.inr hsome))
  have hgiven : ∀ s ∈ (results.foldl keepBest empty).values, s ∈ results := by
    intro s hs
    rcases mem_keepBest hs with hs | hs
    · cases hs
    · exact hs
  refine List.ne_nil_of_mem (a := r) ((List.mem_insertionSort _).mpr (List.mem_filter.mpr ⟨hr, ?_⟩))
  rw [Bool.not_eq_true', List.any_eq_false]
  intro s hs
  rw [hincomparable s (hgiven s hs) r (hgiven r hr), Bool.and_false]
  decide

end ParetoSearch
