import VeriMat.ParetoRun

/-! # What is in the archive of a search

Every entry comes from an evaluation of the iteration it names, and its path is a chain of
proposals the search admitted. The nodes of the tree are expanded once, after a visit, and stay
at their places. -/
namespace ParetoSearch

open PyText JsonText PyValue PyDict

variable {F : Type} [PyFloat F] {S : ParetoMCTS F}

/-! ## Paths -/

variable (S) in
/-- These actions lead from one hypothesis to another: each is an expansion that was proposed
for the hypothesis before it and that was not pruned. -/
inductive Chain : EvidenceBoundHypothesis F → List PyStr → EvidenceBoundHypothesis F → Prop where
  | nil (h : EvidenceBoundHypothesis F) : Chain h [] h
  | cons {h h' : EvidenceBoundHypothesis F} {path : List PyStr} {x : Expansion F}
      (hproposed : x ∈ S.expander h) (hadmitted : S.prune x = true)
      (hrest : Chain x.hypothesis path h') : Chain h (x.action :: path) h'

theorem Visited.chain {node node' : Node F} {e : Evaluation F} (h : Visited S node node' e) :
    ∀ {depth : ℕ}, Grown S depth node → depth ≤ S.maxDepth →
      Chain S node.hypothesis e.path e.hypothesis ∧ depth + e.path.length ≤ S.maxDepth := by
  induction h with
  | evaluate h =>
    intro depth _ hdepth
    rw [(evaluate_eq_ok h).1]
    exact ⟨.nil _, hdepth⟩
  | @descend node child child' e i hchild h ih =>
    intro depth hg _
    cases hg with
    | mk _ hleaf hexpanded hproposed _ hchildren =>
      have hmem : child ∈ node.children := List.mem_of_getElem? hchild
      have hopen : node.expanded = true := by
        by_contra hfalse
        rw [hleaf (by simpa using hfalse)] at hmem
        cases hmem
      obtain ⟨hchain, hlength⟩ := ih (hchildren child hmem) (hexpanded hopen).2
      obtain ⟨x, hx, hprune, hh, ha, _⟩ := hproposed child hmem
      rw [hh] at hchain
      refine ⟨?_, ?_⟩
      · rw [Evaluation.above, h.same.action, ha]
        exact .cons hx hprune hchain
      · change depth + (e.path.length + 1) ≤ S.maxDepth
        omega
  | expand hvisits hleaf hdepth hexpand _ _ ih =>
    intro depth hg hle
    obtain ⟨_, _, hgrown⟩ := expand_eq_ok hexpand
    have hchain := ih (hg.expand hvisits hleaf hdepth hexpand) hle
    rwa [hgrown, Node.withChildren_hypothesis] at hchain

/-- The verdicts of an evaluation are those of the callbacks on its hypothesis. -/
structure Judged (S : ParetoMCTS F) (e : Evaluation F) : Prop where
  objectives : e.objectives = S.evaluator e.hypothesis
  isPlausible : e.isPlausible = S.plausibility e.hypothesis e.objectives
  accepted : e.accepted = (e.isPlausible && S.gate e.hypothesis e.objectives)

theorem Visited.judged {node node' : Node F} {e : Evaluation F} (h : Visited S node node' e) :
    Judged S e := by
  induction h with
  | evaluate h =>
    rw [(evaluate_eq_ok h).1]
    exact ⟨rfl, rfl, rfl⟩
  | descend _ _ ih => exact ⟨ih.objectives, ih.isPlausible, ih.accepted⟩
  | expand _ _ _ _ _ _ ih => exact ⟨ih.objectives, ih.isPlausible, ih.accepted⟩

/-! ## Places -/

/-- The node at the place was expanded. -/
def ExpandedAt (tree : Node F) (place : List ℕ) : Prop :=
  ∃ node, tree.nodeAt place = some node ∧ node.expanded = true

omit [PyFloat F] in
theorem expandedAt_nil {tree : Node F} : ExpandedAt tree [] ↔ tree.expanded = true := by
  simp [ExpandedAt]

omit [PyFloat F] in
theorem expandedAt_cons {tree : Node F} {i : ℕ} {place : List ℕ} :
    ExpandedAt tree (i :: place) ↔ ∃ child, tree.children[i]? = some child ∧
      ExpandedAt child place := by
  simp only [ExpandedAt, Node.nodeAt_cons, Option.bind_eq_some_iff]
  constructor
  · rintro ⟨node, ⟨child, hchild, hnode⟩, he⟩
    exact ⟨child, hchild, node, hnode, he⟩
  · rintro ⟨child, hchild, node, hnode, he⟩
    exact ⟨node, ⟨child, hchild, hnode⟩, he⟩

/-- An iteration expands the node it says, which was visited before, and no other. -/
theorem Visited.expandedAt {node node' : Node F} {e : Evaluation F} (h : Visited S node node' e) :
    ∀ {depth : ℕ}, Grown S depth node →
      (∀ place, ExpandedAt node' place ↔ ExpandedAt node place ∨ e.expansion = some place) ∧
      ∀ place, e.expansion = some place →
        ∃ m, node.nodeAt place = some m ∧ 0 < m.visits ∧ m.expanded = false := by
  induction h with
  | @evaluate node node' e h =>
    intro depth _
    obtain ⟨he, hnode⟩ := evaluate_eq_ok h
    rw [he] at hnode
    rw [he, hnode]
    refine ⟨fun place => ?_, fun place hfalse => by cases hfalse⟩
    simp only [reduceCtorEq, or_false]
    cases place with
    | nil => simp [expandedAt_nil]
    | cons i place => simp [expandedAt_cons]
  | @descend node child child' e i hchild h ih =>
    intro depth hg
    cases hg with
    | mk _ _ _ _ _ hchildren =>
      obtain ⟨hiff, hvisited⟩ := ih (hchildren child (List.mem_of_getElem? hchild))
      have hi : i < node.children.length := (List.getElem?_eq_some_iff.mp hchild).1
      constructor
      · intro place
        cases place with
        | nil =>
          have hne : (e.above i child'.action).expansion ≠ some [] := by
            cases he : e.expansion <;> simp [Evaluation.above, he]
          simp [expandedAt_nil, hne]
        | cons j place =>
          rw [expandedAt_cons, expandedAt_cons]
          simp only [Node.credit_children, Node.setChild_children, List.getElem?_set]
          have hexpansion : (e.above i child'.action).expansion = some (j :: place) ↔
              e.expansion = some place ∧ i = j := by
            cases he : e.expansion <;> simp [Evaluation.above, he, and_comm]
          rw [hexpansion]
          by_cases hj : i = j
          · subst hj
            simp only [if_true, if_pos hi, hchild, Option.some.injEq, exists_eq_left', hiff, and_true]
          · simp [hj]
      · intro place hplace
        cases he : e.expansion with
        | none => simp [Evaluation.above, he] at hplace
        | some inner =>
          simp only [Evaluation.above, he, Option.map_some, Option.some.injEq] at hplace
          obtain ⟨m, hm, hrest⟩ := hvisited inner he
          refine ⟨m, ?_, hrest⟩
          rw [← hplace, Node.nodeAt_cons, hchild]
          exact hm
  | @expand node grown node' e pruned hvisits hleaf hdepth hexpand h hnone ih =>
    intro depth hg
    obtain ⟨hiff, _⟩ := ih (hg.expand hvisits hleaf hdepth hexpand)
    have hempty : node.children = [] := by
      cases hg with
      | mk _ hnone => exact hnone hleaf
    constructor
    · intro place
      rw [hiff, hnone]
      obtain ⟨children, hadmitted, rfl⟩ := expand_eq_ok hexpand
      cases place with
      | nil => simp [expandedAt_nil]
      | cons i place =>
        simp only [expandedAt_cons, Node.withChildren_children, hempty, List.nil_append,
          reduceCtorEq, or_false, Option.some.injEq, List.getElem?_nil, false_and, exists_false,
          iff_false]
        rintro ⟨child, hchild, hexpanded⟩
        obtain ⟨⟨x, _, _, rfl⟩, _⟩ :=
          (admitted_spec hadmitted).1 child (List.mem_of_getElem? hchild)
        -- a fresh node was not expanded and has nothing below it
        cases place with
        | nil => exact absurd (expandedAt_nil.mp hexpanded) (by simp [Node.fresh, Node.expanded])
        | cons j place =>
          obtain ⟨c, hc, _⟩ := expandedAt_cons.mp hexpanded
          cases hc
    · intro place hplace
      cases hplace
      exact ⟨node, Node.nodeAt_nil node, hvisits, hleaf⟩

/-- A node keeps its place and what it is. -/
theorem Visited.nodeAt {node node' : Node F} {e : Evaluation F} (h : Visited S node node' e) :
    ∀ {depth : ℕ}, Grown S depth node → ∀ {place : List ℕ} {m : Node F},
      node.nodeAt place = some m → ∃ m', node'.nodeAt place = some m' ∧ SameNode m m' := by
  induction h with
  | @evaluate node node' e h =>
    intro depth _ place m hm
    rw [(evaluate_eq_ok h).2]
    cases place with
    | nil =>
      rw [Node.nodeAt_nil, Option.some.injEq] at hm
      subst hm
      exact ⟨_, Node.nodeAt_nil _, by simp, by simp, by simp, by simp⟩
    | cons i place =>
      refine ⟨m, ?_, SameNode.refl m⟩
      rwa [Node.nodeAt_cons, Node.credit_children, ← Node.nodeAt_cons]
  | @descend node child child' e i hchild h ih =>
    intro depth hg place m hm
    have hi : i < node.children.length := (List.getElem?_eq_some_iff.mp hchild).1
    cases place with
    | nil =>
      rw [Node.nodeAt_nil, Option.some.injEq] at hm
      subst hm
      exact ⟨_, Node.nodeAt_nil _, by simp, by simp, by simp, by simp⟩
    | cons j place =>
      have hput : ((node.setChild i child').credit e.reward).nodeAt (j :: place) =
          (node.setChild i child').nodeAt (j :: place) := by
        rw [Node.nodeAt_cons, Node.nodeAt_cons, Node.credit_children]
      rw [hput, Node.nodeAt_setChild hi]
      by_cases hj : j = i
      · subst hj
        rw [Node.nodeAt_cons, hchild] at hm
        rw [if_pos rfl]
        cases hg with
        | mk _ _ _ _ _ hchildren => exact ih (hchildren child (List.mem_of_getElem? hchild)) hm
      · rw [if_neg hj]
        exact ⟨m, hm, SameNode.refl m⟩
  | @expand node grown node' e pruned hvisits hleaf hdepth hexpand h hnone ih =>
    intro depth hg place m hm
    have hempty : node.children = [] := by
      cases hg with
      | mk _ hnone => exact hnone hleaf
    cases place with
    | nil =>
      rw [Node.nodeAt_nil, Option.some.injEq] at hm
      subst hm
      exact ⟨node', Node.nodeAt_nil node', (Visited.expand hvisits hleaf hdepth hexpand h hnone).same⟩
    | cons i place =>
      rw [Node.nodeAt_cons, hempty] at hm
      cases hm

/-! ## Runs -/

variable (S) in
/-- The first iterations of a search: where they got and what they evaluated. -/
inductive Run (root : EvidenceBoundHypothesis F) : ℕ → Progress F → List (Evaluation F) → Prop where
  | start : Run root 0 ⟨.fresh root (py "ROOT") 1 0, [], 0, 0, 0, 0⟩ []
  | step {n : ℕ} {p : Progress F} {evaluations : List (Evaluation F)} {node : Node F}
      {e : Evaluation F} (hrun : Run root n p evaluations)
      (hvisit : S.visit (weightsAt n) S.maxDepth p.root = .ok (node, e)) :
      Run root (n + 1) (p.record n node e) (evaluations ++ [e])

theorem run_of_iterate {root : EvidenceBoundHypothesis F} {n : ℕ} :
    ∀ {p : Progress F}, S.iterate root n = .ok p → Run S root n p (S.history root n) := by
  induction n with
  | zero =>
    intro p h
    cases h
    exact .start
  | succ n ih =>
    intro p h
    rw [ParetoMCTS.iterate] at h
    cases hp : S.iterate root n with
    | error cause =>
      rw [hp] at h
      cases h
    | ok q =>
      simp only [hp] at h
      cases hvisit : S.visit (weightsAt n) S.maxDepth q.root with
      | error cause =>
        rw [hvisit] at h
        cases h
      | ok result =>
        rw [hvisit] at h
        cases h
        have hevaluation : S.evaluationAt root n = .ok result.2 := by
          simp only [ParetoMCTS.evaluationAt, hp, hvisit, Except.map]
        rw [ParetoMCTS.history, hevaluation]
        exact .step (ih hp) hvisit

theorem evaluationAt_eq_ok {root : EvidenceBoundHypothesis F} {n : ℕ} {e : Evaluation F} :
    S.evaluationAt root n = .ok e ↔ ∃ p node, S.iterate root n = .ok p ∧
      S.visit (weightsAt n) S.maxDepth p.root = .ok (node, e) := by
  unfold ParetoMCTS.evaluationAt
  cases S.iterate root n with
  | error cause => simp
  | ok p =>
    cases hvisit : S.visit (weightsAt n) S.maxDepth p.root with
    | error cause => simp [hvisit, Except.map]
    | ok result => simp [hvisit, Except.map, Prod.ext_iff]

theorem iterate_succ_eq_ok {root : EvidenceBoundHypothesis F} {n : ℕ} {p : Progress F} :
    S.iterate root (n + 1) = .ok p ↔ ∃ q node e, S.iterate root n = .ok q ∧
      S.visit (weightsAt n) S.maxDepth q.root = .ok (node, e) ∧ p = q.record n node e := by
  rw [ParetoMCTS.iterate]
  cases S.iterate root n with
  | error cause => simp
  | ok q =>
    cases hvisit : S.visit (weightsAt n) S.maxDepth q.root with
    | error cause => simp [hvisit]
    | ok result => simp [hvisit, Prod.ext_iff, eq_comm]

theorem Run.grown {root : EvidenceBoundHypothesis F} {n : ℕ} {p : Progress F}
    {evaluations : List (Evaluation F)} (h : Run S root n p evaluations) : Grown S 0 p.root := by
  induction h with
  | start => exact grown_fresh _ _ _ _
  | step _ hvisit ih => exact (visited_of_visit hvisit).grown ih

theorem grown_of_iterate {root : EvidenceBoundHypothesis F} {n : ℕ} {p : Progress F}
    (h : S.iterate root n = .ok p) : Grown S 0 p.root :=
  (run_of_iterate h).grown

/-- A later tree has every node of an earlier one at its place. -/
theorem nodeAt_later {root : EvidenceBoundHypothesis F} {m n : ℕ} (hle : m ≤ n) :
    ∀ {p q : Progress F}, S.iterate root m = .ok p → S.iterate root n = .ok q →
      ∀ place node, p.root.nodeAt place = some node →
        ∃ node', q.root.nodeAt place = some node' ∧ SameNode node node' := by
  induction n, hle using Nat.le_induction with
  | base =>
    intro p q hp hq place node hnode
    cases hp.symm.trans hq
    exact ⟨node, hnode, SameNode.refl node⟩
  | succ n hle ih =>
    intro p q hp hq place node hnode
    obtain ⟨r, tree, e, hr, hvisit, rfl⟩ := iterate_succ_eq_ok.mp hq
    obtain ⟨middle, hmiddle, hsame⟩ := ih hp hr place node hnode
    obtain ⟨last, hlast, hsame'⟩ :=
      (visited_of_visit hvisit).nodeAt (grown_of_iterate hr) hmiddle
    exact ⟨last, hlast, hsame.trans hsame'⟩

/-- What was expanded stays so. -/
theorem expandedAt_later {root : EvidenceBoundHypothesis F} {m n : ℕ} (hle : m ≤ n) :
    ∀ {p q : Progress F}, S.iterate root m = .ok p → S.iterate root n = .ok q →
      ∀ place, ExpandedAt p.root place → ExpandedAt q.root place := by
  induction n, hle using Nat.le_induction with
  | base =>
    intro p q hp hq place h
    cases hp.symm.trans hq
    exact h
  | succ n hle ih =>
    intro p q hp hq place h
    obtain ⟨r, tree, e, hr, hvisit, rfl⟩ := iterate_succ_eq_ok.mp hq
    have hiff := ((visited_of_visit hvisit).expandedAt (grown_of_iterate hr)).1 place
    exact hiff.mpr (Or.inl (ih hp hr place h))

/-! ## The archive -/

omit [PyFloat F] in
theorem preferred_eq (previous result : SearchResult F) :
    preferred previous result = previous ∨ preferred previous result = result := by
  unfold preferred
  split_ifs <;> simp

omit [PyFloat F] in
/-- The loop of `pareto_front` keeps results it was given. -/
theorem mem_keepBest {results : List (SearchResult F)} :
    ∀ {best : Dict PyStr (SearchResult F)} {r : SearchResult F},
      r ∈ (results.foldl keepBest best).values → r ∈ best.values ∨ r ∈ results := by
  induction results with
  | nil => exact fun h => Or.inl h
  | cons result results ih =>
    intro best r h
    rcases ih h with h | h
    · obtain ⟨key, hkey⟩ := Dict.mem_values.mp h
      unfold keepBest at hkey
      cases hget : best.get result.hypothesis.hypothesisId with
      | none =>
        simp only [hget, Dict.get_set] at hkey
        split_ifs at hkey with hid
        · exact Or.inr (by simp [← Option.some.inj hkey])
        · exact Or.inl (Dict.mem_values.mpr ⟨key, hkey⟩)
      | some previous =>
        simp only [hget, Dict.get_set] at hkey
        split_ifs at hkey with hid
        · rw [← Option.some.inj hkey]
          rcases preferred_eq previous result with heq | heq
          · rw [heq]
            exact Or.inl (Dict.mem_values.mpr ⟨_, hget⟩)
          · rw [heq]
            exact Or.inr List.mem_cons_self
        · exact Or.inl (Dict.mem_values.mpr ⟨key, hkey⟩)
    · exact Or.inr (List.mem_cons_of_mem _ h)

omit [PyFloat F] in
theorem mem_paretoFront {results : List (SearchResult F)} {r : SearchResult F}
    (h : r ∈ paretoFront results) : r ∈ results := by
  unfold paretoFront at h
  have hkept := List.mem_of_mem_filter ((List.mem_insertionSort _).mp h)
  rcases mem_keepBest hkept with h | h
  · cases h
  · exact h

variable (S) in
/-- A result is what the iteration it names evaluated, the callbacks let it pass, and its path
is a chain of proposals from the root. -/
structure Justified (root : EvidenceBoundHypothesis F) (iterations : ℕ) (r : SearchResult F) :
    Prop where
  evaluated : r.iteration < iterations ∧ ∃ e, S.evaluationAt root r.iteration = .ok e ∧
    e.hypothesis = r.hypothesis ∧ e.objectives = r.objectives ∧ e.path = r.path
  objectives : r.objectives = S.evaluator r.hypothesis
  isPlausible : S.plausibility r.hypothesis r.objectives = true
  gated : S.gate r.hypothesis r.objectives = true
  path : Chain S root r.path r.hypothesis
  depth : r.path.length ≤ S.maxDepth

theorem Justified.later {root : EvidenceBoundHypothesis F} {m n : ℕ} {r : SearchResult F}
    (h : Justified S root m r) (hle : m ≤ n) : Justified S root n r :=
  ⟨⟨h.evaluated.1.trans_le hle, h.evaluated.2⟩, h.objectives, h.isPlausible, h.gated, h.path, h.depth⟩

theorem root_hypothesis {root : EvidenceBoundHypothesis F} {n : ℕ} {p : Progress F}
    (h : S.iterate root n = .ok p) : p.root.hypothesis = root := by
  obtain ⟨node, hnode, hsame⟩ := nodeAt_later (Nat.zero_le n) rfl h [] _ (Node.nodeAt_nil _)
  rw [Node.nodeAt_nil, Option.some.injEq] at hnode
  rw [hnode, hsame.hypothesis]
  rfl

theorem justified_candidates {root : EvidenceBoundHypothesis F} {n : ℕ} :
    ∀ {p : Progress F}, S.iterate root n = .ok p → ∀ r ∈ p.candidates, Justified S root n r := by
  induction n with
  | zero =>
    intro p h r hr
    cases h
    cases hr
  | succ n ih =>
    intro p h r hr
    obtain ⟨q, node, e, hq, hvisit, rfl⟩ := iterate_succ_eq_ok.mp h
    have hold : ∀ r ∈ q.candidates, Justified S root (n + 1) r :=
      fun r hr => (ih hq r hr).later (Nat.le_succ n)
    unfold Progress.record at hr
    dsimp only at hr
    split_ifs at hr with haccepted
    · rcases List.mem_append.mp hr with hr | hr
      · exact hold r hr
      · rw [List.mem_singleton] at hr
        subst hr
        have hvisited := visited_of_visit hvisit
        have hjudged := hvisited.judged
        have hchain := hvisited.chain (grown_of_iterate hq) (Nat.zero_le _)
        rw [root_hypothesis hq, Nat.zero_add] at hchain
        rw [hjudged.accepted, Bool.and_eq_true, hjudged.isPlausible] at haccepted
        exact ⟨⟨Nat.lt_succ_self n, e, evaluationAt_eq_ok.mpr ⟨q, node, hq, hvisit⟩, rfl, rfl, rfl⟩,
          hjudged.objectives, haccepted.1, haccepted.2, hchain.1, hchain.2⟩
    · exact hold r hr

theorem search_eq_ok {root : EvidenceBoundHypothesis F} {iterations : ℤ} {report : SearchReport F} :
    S.search root iterations = .ok report ↔ 1 ≤ iterations ∧
      ∃ p, S.iterate root iterations.toNat = .ok p ∧
        report = ⟨paretoFront p.candidates, p.evaluated, p.rejected, p.rejectedByPlausibility,
          p.pruned⟩ := by
  unfold ParetoMCTS.search
  by_cases hpos : iterations < 1
  · rw [if_pos hpos]
    simp [not_le.mpr hpos]
  · rw [if_neg hpos]
    cases S.iterate root iterations.toNat with
    | error cause => simp
    | ok p => simp [not_lt.mp hpos, eq_comm]

variable (S) in
/-- What holds of the archive of a search and of the trees its iterations go through. -/
structure SearchSound (root : EvidenceBoundHypothesis F) (iterations : ℕ)
    (archive : List (SearchResult F)) : Prop where
  archive : ∀ r ∈ archive, Justified S root iterations r
  /-- A node is there, and was visited and not yet expanded, when an iteration expands it. -/
  visited : ∀ i < iterations, ∀ e place, S.evaluationAt root i = .ok e →
    e.expansion = some place → ∃ p node, S.iterate root i = .ok p ∧
      p.root.nodeAt place = some node ∧ 0 < node.visits ∧ node.expanded = false
  once : ∀ i < iterations, ∀ j < iterations, ∀ e e' place, S.evaluationAt root i = .ok e →
    S.evaluationAt root j = .ok e' → e.expansion = some place → e'.expansion = some place → i = j
  siblings : ∀ n ≤ iterations, ∀ p place node, S.iterate root n = .ok p →
    p.root.nodeAt place = some node →
      (node.children.map fun child => child.hypothesis.content).Nodup
  /-- A place stands for one node in all the trees. -/
  places : ∀ m n, m ≤ n → n ≤ iterations → ∀ p q place node, S.iterate root m = .ok p →
    S.iterate root n = .ok q → p.root.nodeAt place = some node →
      ∃ node', q.root.nodeAt place = some node' ∧ SameNode node node'

/-- A node that an iteration expands is expanded in every later tree, so none expands it again. -/
theorem expansion_once {root : EvidenceBoundHypothesis F} {i j : ℕ} {e e' : Evaluation F}
    {place : List ℕ} (hlt : i < j) (h : S.evaluationAt root i = .ok e)
    (h' : S.evaluationAt root j = .ok e') (he : e.expansion = some place) :
    e'.expansion ≠ some place := by
  intro he'
  obtain ⟨p, node, hp, hvisit⟩ := evaluationAt_eq_ok.mp h
  obtain ⟨q, node', hq, hvisit'⟩ := evaluationAt_eq_ok.mp h'
  have hnext : S.iterate root (i + 1) = .ok (p.record i node e) :=
    iterate_succ_eq_ok.mpr ⟨p, node, e, hp, hvisit, rfl⟩
  have hexpanded : ExpandedAt node place :=
    (((visited_of_visit hvisit).expandedAt (grown_of_iterate hp)).1 place).mpr (Or.inr he)
  obtain ⟨m, hm, hopen⟩ := expandedAt_later hlt hnext hq place hexpanded
  obtain ⟨m', hm', _, hclosed⟩ :=
    ((visited_of_visit hvisit').expandedAt (grown_of_iterate hq)).2 place he'
  rw [hm, Option.some.injEq] at hm'
  rw [hm', hclosed] at hopen
  cases hopen

/-- Whatever the callbacks answer, the archive of a search holds evaluated, admitted hypotheses
only, and its tree is expanded node by node, each once and after a visit. -/
theorem search_sound {root : EvidenceBoundHypothesis F} {iterations : ℤ} {report : SearchReport F}
    (h : S.search root iterations = .ok report) :
    SearchSound S root iterations.toNat report.paretoArchive := by
  obtain ⟨_, p, hp, rfl⟩ := search_eq_ok.mp h
  constructor
  · exact fun r hr => justified_candidates hp r (mem_paretoFront hr)
  · intro i _ e place hevaluation he
    obtain ⟨q, node, hq, hvisit⟩ := evaluationAt_eq_ok.mp hevaluation
    obtain ⟨m, hm⟩ := ((visited_of_visit hvisit).expandedAt (grown_of_iterate hq)).2 place he
    exact ⟨q, m, hq, hm⟩
  · intro i _ j _ e e' place hi hj he he'
    rcases lt_trichotomy i j with hlt | heq | hlt
    · exact absurd he' (expansion_once hlt hi hj he)
    · exact heq
    · exact absurd he (expansion_once hlt hj hi he')
  · intro n _ q place node hq hnode
    cases (grown_of_iterate hq).nodeAt hnode with
    | mk _ _ _ _ hdistinct _ => exact hdistinct
  · exact fun m n hle _ p q place node hp hq hnode => nodeAt_later hle hp hq place node hnode

/-! ## A search -/

/-- A hypothesis that is only its id. -/
def sampleHypothesis (hypothesisId : PyStr) : EvidenceBoundHypothesis NonFinite :=
  ⟨hypothesisId, [], [], [], [], [], []⟩

def sampleExpansion (action hypothesisId : PyStr) (h : isBlank action = false) :
    Expansion NonFinite :=
  ⟨action, sampleHypothesis hypothesisId, 1, h, by decide⟩

theorem two_levels : 1 ≤ 2 := by decide

/-- From "r" the search can go to "s" and to "t", and from there to nothing; the digest of a
text is the text. -/
def sampleSearch : ParetoMCTS NonFinite where
  expander h :=
    if h.hypothesisId = py "r" then
      [sampleExpansion (py "a") (py "s") (by decide), sampleExpansion (py "b") (py "t") (by decide),
        sampleExpansion (py "c") (py "t") (by decide)]
    else []
  evaluator _ := ⟨Vector.replicate 7 1, by decide +kernel⟩
  gate _ _ := true
  plausibility h _ := h.hypothesisId != py "r"
  prune x := x.action != py "d"
  exploration := 1
  maxDepth := 2
  sqrt n := n
  sha256 bytes := bytes
  exploration_nonneg := by decide
  maxDepth_pos := two_levels

theorem search_sound_sample :
    ∃ report, sampleSearch.search (sampleHypothesis (py "r")) 4 = .ok report ∧
      report.paretoArchive.length = 2 ∧
      SearchSound sampleSearch (sampleHypothesis (py "r")) 4 report.paretoArchive := by
  have h : ((sampleSearch.search (sampleHypothesis (py "r")) 4).toOption.any
      fun report => report.paretoArchive.length == 2) = true := by
    decide +kernel
  obtain ⟨report, hreport, hlength⟩ := (Option.any_eq_true _ _).mp h
  have hok : sampleSearch.search (sampleHypothesis (py "r")) 4 = .ok report := by
    cases hs : sampleSearch.search (sampleHypothesis (py "r")) 4 with
    | error cause =>
      rw [hs] at hreport
      cases hreport
    | ok other =>
      rw [hs] at hreport
      cases hreport
      rfl
  exact ⟨report, hok, by simpa using hlength, search_sound hok⟩

end ParetoSearch
