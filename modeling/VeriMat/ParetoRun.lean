import VeriMat.ParetoSearch

/-! # The tree of a search and its archive

A node is known by its place: the positions, from the root down, of the nodes of its path among
their siblings. `Visited` says what an iteration can do to a node and what is below it; the
invariants of the tree and of the archive are read off it. -/
namespace ParetoSearch

open PyText JsonText PyValue PyDict

variable {F : Type}

/-! ## Places -/

/-- The node at a place. -/
def Node.nodeAt : Node F → List ℕ → Option (Node F)
  | node, [] => some node
  | node, i :: place => node.children[i]?.bind fun child => Node.nodeAt child place

section Fields
variable (node child : Node F) (children : List (Node F)) (reward : Vector ℚ 7) (i : ℕ)

@[simp] theorem Node.nodeAt_nil : node.nodeAt [] = some node := by
  rw [Node.nodeAt]

theorem Node.nodeAt_cons (place : List ℕ) :
    node.nodeAt (i :: place) = node.children[i]?.bind fun child => child.nodeAt place := by
  rw [Node.nodeAt]

@[simp] theorem Node.credit_hypothesis : (node.credit reward).hypothesis = node.hypothesis := by
  cases node; rfl

@[simp] theorem Node.credit_action : (node.credit reward).action = node.action := by
  cases node; rfl

@[simp] theorem Node.credit_prior : (node.credit reward).prior = node.prior := by
  cases node; rfl

@[simp] theorem Node.credit_depth : (node.credit reward).depth = node.depth := by
  cases node; rfl

@[simp] theorem Node.credit_visits : (node.credit reward).visits = node.visits + 1 := by
  cases node; rfl

@[simp] theorem Node.credit_valueSum :
    (node.credit reward).valueSum = node.valueSum.zipWith (· + ·) reward := by
  cases node; rfl

@[simp] theorem Node.credit_expanded : (node.credit reward).expanded = node.expanded := by
  cases node; rfl

@[simp] theorem Node.credit_children : (node.credit reward).children = node.children := by
  cases node; rfl

@[simp] theorem Node.setChild_hypothesis :
    (node.setChild i child).hypothesis = node.hypothesis := by
  cases node; rfl

@[simp] theorem Node.setChild_action : (node.setChild i child).action = node.action := by
  cases node; rfl

@[simp] theorem Node.setChild_prior : (node.setChild i child).prior = node.prior := by
  cases node; rfl

@[simp] theorem Node.setChild_depth : (node.setChild i child).depth = node.depth := by
  cases node; rfl

@[simp] theorem Node.setChild_visits : (node.setChild i child).visits = node.visits := by
  cases node; rfl

@[simp] theorem Node.setChild_valueSum : (node.setChild i child).valueSum = node.valueSum := by
  cases node; rfl

@[simp] theorem Node.setChild_expanded : (node.setChild i child).expanded = node.expanded := by
  cases node; rfl

@[simp] theorem Node.setChild_children :
    (node.setChild i child).children = node.children.set i child := by
  cases node; rfl

@[simp] theorem Node.withChildren_hypothesis :
    (node.withChildren children).hypothesis = node.hypothesis := by
  cases node; rfl

@[simp] theorem Node.withChildren_action : (node.withChildren children).action = node.action := by
  cases node; rfl

@[simp] theorem Node.withChildren_prior : (node.withChildren children).prior = node.prior := by
  cases node; rfl

@[simp] theorem Node.withChildren_depth : (node.withChildren children).depth = node.depth := by
  cases node; rfl

@[simp] theorem Node.withChildren_visits : (node.withChildren children).visits = node.visits := by
  cases node; rfl

@[simp] theorem Node.withChildren_valueSum :
    (node.withChildren children).valueSum = node.valueSum := by
  cases node; rfl

@[simp] theorem Node.withChildren_expanded : (node.withChildren children).expanded = true := by
  cases node; rfl

@[simp] theorem Node.withChildren_children : (node.withChildren children).children = children := by
  cases node; rfl

end Fields

/-- The place of a child that was put back. -/
theorem Node.nodeAt_setChild {node child : Node F} {i : ℕ} (hi : i < node.children.length)
    (j : ℕ) (place : List ℕ) :
    (node.setChild i child).nodeAt (j :: place) =
      if j = i then child.nodeAt place else node.nodeAt (j :: place) := by
  rw [nodeAt_cons, nodeAt_cons, setChild_children, List.getElem?_set]
  by_cases hj : j = i
  · rw [if_pos hj, if_pos hj.symm, if_pos hi]
    rfl
  · rw [if_neg hj, if_neg (Ne.symm hj)]

theorem Node.nodeAt_append {node : Node F} {place rest : List ℕ} :
    node.nodeAt (place ++ rest) = (node.nodeAt place).bind fun m => m.nodeAt rest := by
  induction place generalizing node with
  | nil => simp
  | cons i place ih =>
    rw [List.cons_append, nodeAt_cons, nodeAt_cons]
    cases node.children[i]? with
    | none => rfl
    | some child => exact ih

/-! ## Runs -/

variable [PyFloat F] (S : ParetoMCTS F)

/-- What an iteration of the search evaluates. -/
def ParetoMCTS.evaluationAt (root : EvidenceBoundHypothesis F) (iteration : ℕ) :
    Except SearchError (Evaluation F) :=
  match S.iterate root iteration with
  | .error e => .error e
  | .ok p => (S.visit (weightsAt iteration) S.maxDepth p.root).map Prod.snd

/-- The evaluations of the first iterations. -/
def ParetoMCTS.history (root : EvidenceBoundHypothesis F) : ℕ → List (Evaluation F)
  | 0 => []
  | iteration + 1 =>
    ParetoMCTS.history root iteration ++ (S.evaluationAt root iteration).toOption.toList

variable {S}

omit [PyFloat F] in
/-- The places at which an iteration looks are those of children that are there. -/
theorem selectChild_eq_some {weights : List ℚ} {node child : Node F} {i : ℕ}
    (h : S.selectChild weights node = some (i, child)) : node.children[i]? = some child := by
  unfold ParetoMCTS.selectChild at h
  obtain ⟨j, _, hj⟩ := Option.bind_eq_some_iff.mp h
  obtain ⟨c, hc, heq⟩ := Option.map_eq_some_iff.mp hj
  cases heq
  exact hc

variable (S)

/-- What an iteration does to a node and to what is below it. -/
inductive Visited : Node F → Node F → Evaluation F → Prop where
  | evaluate {node node' : Node F} {e : Evaluation F} (h : S.evaluate node = .ok (node', e)) :
      Visited node node' e
  | descend {node child child' : Node F} {e : Evaluation F} {i : ℕ}
      (hchild : node.children[i]? = some child) (h : Visited child child' e) :
      Visited node ((node.setChild i child').credit e.reward) (e.above i child'.action)
  | expand {node grown node' : Node F} {e : Evaluation F} {pruned : ℕ}
      (hvisits : 0 < node.visits) (hleaf : node.expanded = false)
      (hdepth : node.depth < S.maxDepth) (hexpand : S.expand node = .ok (grown, pruned))
      (h : Visited grown node' e) (hnone : e.expansion = none) :
      Visited node node' { e with pruned, expansion := some [] }

variable {S}

omit [PyFloat F] in
theorem above_eq_ok {node node' : Node F} {e : Evaluation F} {i : ℕ}
    {below : Except SearchError (Node F × Evaluation F)}
    (h : ParetoMCTS.above node i below = .ok (node', e)) :
    ∃ child' e', below = .ok (child', e') ∧ node' = (node.setChild i child').credit e'.reward ∧
      e = e'.above i child'.action := by
  unfold ParetoMCTS.above at h
  cases hb : below with
  | error cause =>
    rw [hb] at h
    cases h
  | ok result =>
    rw [hb] at h
    cases h
    exact ⟨result.1, result.2, rfl, rfl, rfl⟩

theorem evaluate_eq_ok {node node' : Node F} {e : Evaluation F}
    (h : S.evaluate node = .ok (node', e)) :
    e = ⟨node.hypothesis, S.evaluator node.hypothesis,
        S.plausibility node.hypothesis (S.evaluator node.hypothesis),
        S.plausibility node.hypothesis (S.evaluator node.hypothesis) &&
          S.gate node.hypothesis (S.evaluator node.hypothesis), [], [], none, 0⟩ ∧
      node' = node.credit e.reward := by
  unfold ParetoMCTS.evaluate at h
  dsimp only at h
  split at h
  · cases h
  · cases h
    exact ⟨rfl, rfl⟩

theorem visited_of_visitBest {weights : List ℚ} {node node' : Node F} {e : Evaluation F}
    (h : S.visitBest weights node = .ok (node', e)) :
    Visited S node node' e ∧ e.expansion = none := by
  unfold ParetoMCTS.visitBest at h
  split at h
  · refine ⟨.evaluate h, ?_⟩
    rw [(evaluate_eq_ok h).1]
  · rename_i i child hselect
    obtain ⟨child', e', hbelow, rfl, rfl⟩ := above_eq_ok h
    refine ⟨.descend (selectChild_eq_some hselect) (.evaluate hbelow), ?_⟩
    rw [(evaluate_eq_ok hbelow).1]
    rfl

theorem visited_of_visitLeaf {weights : List ℚ} {node node' : Node F} {e : Evaluation F}
    (h : S.visitLeaf weights node = .ok (node', e)) : Visited S node node' e := by
  unfold ParetoMCTS.visitLeaf at h
  split_ifs at h with hguard
  · obtain ⟨hvisits, hleaf, hdepth⟩ := hguard
    cases hexpand : S.expand node with
    | error cause =>
      rw [hexpand] at h
      cases h
    | ok grown =>
      simp only [hexpand] at h
      cases hbest : S.visitBest weights grown.1 with
      | error cause =>
        rw [hbest] at h
        cases h
      | ok result =>
        rw [hbest] at h
        cases h
        obtain ⟨hvisited, hnone⟩ := visited_of_visitBest hbest
        exact .expand hvisits hleaf hdepth hexpand hvisited hnone
  · exact .evaluate h

theorem visited_of_visit {weights : List ℚ} {fuel : ℕ} :
    ∀ {node node' : Node F} {e : Evaluation F}, S.visit weights fuel node = .ok (node', e) →
      Visited S node node' e := by
  induction fuel with
  | zero =>
    intro node node' e h
    exact visited_of_visitLeaf h
  | succ fuel ih =>
    intro node node' e h
    rw [ParetoMCTS.visit] at h
    split_ifs at h with hexpanded
    · split at h
      · exact visited_of_visitLeaf h
      · rename_i i child hselect
        split_ifs at h with hvisits
        · obtain ⟨child', e', hbelow, rfl, rfl⟩ := above_eq_ok h
          exact .descend (selectChild_eq_some hselect) (.evaluate hbelow)
        · obtain ⟨child', e', hbelow, rfl, rfl⟩ := above_eq_ok h
          exact .descend (selectChild_eq_some hselect) (ih hbelow)
    · exact visited_of_visitLeaf h

/-! ## What stays of a node -/

/-- The parts of a node that do not change. -/
structure SameNode (node node' : Node F) : Prop where
  hypothesis : node'.hypothesis = node.hypothesis
  action : node'.action = node.action
  prior : node'.prior = node.prior
  depth : node'.depth = node.depth

omit [PyFloat F] in
theorem SameNode.refl (node : Node F) : SameNode node node := ⟨rfl, rfl, rfl, rfl⟩

omit [PyFloat F] in
theorem SameNode.trans {a b c : Node F} (h : SameNode a b) (h' : SameNode b c) : SameNode a c :=
  ⟨h'.hypothesis.trans h.hypothesis, h'.action.trans h.action, h'.prior.trans h.prior,
    h'.depth.trans h.depth⟩

theorem expand_eq_ok {node grown : Node F} {pruned : ℕ}
    (h : S.expand node = .ok (grown, pruned)) :
    ∃ children, S.admitted (node.depth + 1) []
        ((S.expander node.hypothesis).insertionSort proposalOrder) = .ok (children, pruned) ∧
      grown = node.withChildren (node.children ++ children) := by
  unfold ParetoMCTS.expand at h
  split at h
  · cases h
  · rename_i children _ hadmitted
    cases h
    exact ⟨children, hadmitted, rfl⟩

theorem Visited.same {node node' : Node F} {e : Evaluation F} (h : Visited S node node' e) :
    SameNode node node' := by
  induction h with
  | evaluate h =>
    rw [(evaluate_eq_ok h).2]
    exact ⟨by simp, by simp, by simp, by simp⟩
  | descend _ _ _ => exact ⟨by simp, by simp, by simp, by simp⟩
  | expand _ _ _ hexpand _ _ ih =>
    obtain ⟨children, _, rfl⟩ := expand_eq_ok hexpand
    exact SameNode.trans ⟨by simp, by simp, by simp, by simp⟩ ih

theorem Visited.visits {node node' : Node F} {e : Evaluation F} (h : Visited S node node' e) :
    node'.visits = node.visits + 1 := by
  induction h with
  | evaluate h => rw [(evaluate_eq_ok h).2, Node.credit_visits]
  | descend _ _ _ => simp
  | expand _ _ _ hexpand _ _ ih =>
    obtain ⟨children, _, rfl⟩ := expand_eq_ok hexpand
    rw [ih, Node.withChildren_visits]

/-! ## Trees that grow by expansion -/

/-- What `canonical_sha256` digests. -/
def EvidenceBoundHypothesis.content (h : EvidenceBoundHypothesis F) : Except JsonError PyStr :=
  dumps h.payload

variable (S) in
/-- The child is an expansion that was proposed for the parent and that was not pruned. -/
def Proposed (parent : EvidenceBoundHypothesis F) (child : Node F) : Prop :=
  ∃ x ∈ S.expander parent, S.prune x = true ∧ child.hypothesis = x.hypothesis ∧
    child.action = x.action ∧ child.prior = x.prior

variable (S) in
/-- A node of this depth, as the search makes it, and the nodes below it. -/
inductive Grown : ℕ → Node F → Prop where
  | mk {depth : ℕ} {node : Node F} (hdepth : node.depth = depth)
      (hleaf : node.expanded = false → node.children = [])
      (hexpanded : node.expanded = true → 0 < node.visits ∧ depth < S.maxDepth)
      (hproposed : ∀ child ∈ node.children, Proposed S node.hypothesis child)
      (hdistinct : (node.children.map fun child => child.hypothesis.content).Nodup)
      (hchildren : ∀ child ∈ node.children, Grown (depth + 1) child) : Grown depth node

theorem canonicalSha256_congr {h h' : EvidenceBoundHypothesis F} (heq : h.content = h'.content) :
    h.canonicalSha256 S.sha256 = h'.canonicalSha256 S.sha256 := by
  unfold EvidenceBoundHypothesis.content at heq
  rw [EvidenceBoundHypothesis.canonicalSha256, EvidenceBoundHypothesis.canonicalSha256, heq]

/-- The loop of `_expand` makes a node of every proposal it neither skips nor prunes. -/
theorem admitted_spec {depth : ℕ} {proposals : List (Expansion F)} :
    ∀ {seen : List PyStr} {children : List (Node F)} {pruned : ℕ},
      S.admitted depth seen proposals = .ok (children, pruned) →
      (∀ child ∈ children, (∃ x ∈ proposals, S.prune x = true ∧
          child = .fresh x.hypothesis x.action x.prior depth) ∧
        ∃ digest, child.hypothesis.canonicalSha256 S.sha256 = .ok digest ∧ digest ∉ seen) ∧
      (children.map fun child => child.hypothesis.content).Nodup := by
  induction proposals with
  | nil =>
    intro seen children pruned h
    cases h
    simp
  | cons proposal proposals ih =>
    intro seen children pruned h
    rw [ParetoMCTS.admitted] at h
    split at h
    · cases h
    · rename_i digest hdigest
      by_cases hseen : digest ∈ seen
      · rw [if_pos hseen] at h
        obtain ⟨hall, hnodup⟩ := ih h
        refine ⟨fun child hchild => ?_, hnodup⟩
        obtain ⟨⟨x, hx, hrest⟩, hnew⟩ := hall child hchild
        exact ⟨⟨x, List.mem_cons_of_mem _ hx, hrest⟩, hnew⟩
      · rw [if_neg hseen] at h
        cases hlater : S.admitted depth (digest :: seen) proposals with
        | error cause =>
          rw [hlater] at h
          cases h
        | ok result =>
          simp only [hlater] at h
          obtain ⟨hall, hnodup⟩ := ih hlater
          have hkept : ∀ child ∈ result.1, (∃ x ∈ proposal :: proposals, S.prune x = true ∧
              child = .fresh x.hypothesis x.action x.prior depth) ∧
              ∃ digest, child.hypothesis.canonicalSha256 S.sha256 = .ok digest ∧
                digest ∉ seen := by
            intro child hchild
            obtain ⟨⟨x, hx, hrest⟩, d, hd, hnew⟩ := hall child hchild
            exact ⟨⟨x, List.mem_cons_of_mem _ hx, hrest⟩, d, hd,
              fun hmem => hnew (List.mem_cons_of_mem _ hmem)⟩
          split_ifs at h with hprune
          · cases h
            constructor
            · intro child hchild
              rcases List.mem_cons.mp hchild with rfl | hchild
              · exact ⟨⟨proposal, List.mem_cons_self, hprune, rfl⟩, digest, hdigest, hseen⟩
              · exact hkept child hchild
            · rw [List.map_cons, List.nodup_cons]
              refine ⟨fun hmem => ?_, hnodup⟩
              obtain ⟨child, hchild, heq⟩ := List.mem_map.mp hmem
              obtain ⟨_, d, hd, hnew⟩ := hall child hchild
              -- equal content gives the digest that was just put down
              rw [canonicalSha256_congr heq] at hd
              have hsame : digest = d := Except.ok.inj (hdigest.symm.trans hd)
              exact hnew (hsame ▸ List.mem_cons_self)
          · cases h
            exact ⟨hkept, hnodup⟩

theorem grown_fresh (h : EvidenceBoundHypothesis F) (action : PyStr) (prior : ℚ) (depth : ℕ) :
    Grown S depth (.fresh h action prior depth) := by
  refine .mk rfl (fun _ => rfl) ?_ ?_ List.nodup_nil ?_
  · intro hexpanded
    cases hexpanded
  · intro child hchild
    cases hchild
  · intro child hchild
    cases hchild

theorem Grown.expand {depth : ℕ} {node grown : Node F} {pruned : ℕ} (hg : Grown S depth node)
    (hvisits : 0 < node.visits) (hleaf : node.expanded = false) (hdepth : node.depth < S.maxDepth)
    (h : S.expand node = .ok (grown, pruned)) : Grown S depth grown := by
  obtain ⟨hd, hnone⟩ : node.depth = depth ∧ node.children = [] := by
    cases hg with
    | mk hd hnone => exact ⟨hd, hnone hleaf⟩
  obtain ⟨children, hadmitted, rfl⟩ := expand_eq_ok h
  obtain ⟨hall, hnodup⟩ := admitted_spec hadmitted
  rw [hnone, List.nil_append]
  refine .mk (by simpa using hd) (fun hfalse => ?_) (fun _ => ?_) ?_ ?_ ?_
  · simp at hfalse
  · exact ⟨by simpa using hvisits, hd ▸ hdepth⟩
  · intro child hchild
    rw [Node.withChildren_children] at hchild
    obtain ⟨⟨x, hx, hprune, rfl⟩, _⟩ := hall child hchild
    rw [Node.withChildren_hypothesis]
    exact ⟨x, (List.mem_insertionSort _).mp hx, hprune, rfl, rfl, rfl⟩
  · simpa using hnodup
  · intro child hchild
    rw [Node.withChildren_children] at hchild
    obtain ⟨⟨x, _, _, rfl⟩, _⟩ := hall child hchild
    rw [hd]
    exact grown_fresh _ _ _ _

/-- What an iteration does keeps the tree one that grew by expansion. -/
theorem Visited.grown {node node' : Node F} {e : Evaluation F} (h : Visited S node node' e) :
    ∀ {depth : ℕ}, Grown S depth node → Grown S depth node' := by
  induction h with
  | evaluate h =>
    intro depth hg
    rw [(evaluate_eq_ok h).2]
    cases hg with
    | mk hdepth hleaf hexpanded hproposed hdistinct hchildren =>
      refine .mk (by simpa using hdepth) (by simpa using hleaf) (fun he => ⟨by simp, ?_⟩)
        (by simpa using hproposed) (by simpa using hdistinct) (by simpa using hchildren)
      exact (hexpanded (by simpa using he)).2
  | @descend node child child' e i hchild h ih =>
    intro depth hg
    cases hg with
    | mk hdepth hleaf hexpanded hproposed hdistinct hchildren =>
      have hmem : child ∈ node.children := List.mem_of_getElem? hchild
      have hsame := h.same
      refine .mk (by simpa using hdepth) (fun he => ?_) (fun he => ⟨by simp, ?_⟩) ?_ ?_ ?_
      · rw [hleaf (by simpa using he)] at hmem
        cases hmem
      · exact (hexpanded (by simpa using he)).2
      · intro c hc
        rw [Node.credit_children, Node.setChild_children] at hc
        rw [Node.credit_hypothesis, Node.setChild_hypothesis]
        rcases List.mem_or_eq_of_mem_set hc with hc | rfl
        · exact hproposed c hc
        · obtain ⟨x, hx, hprune, hh, ha, hp⟩ := hproposed child hmem
          exact ⟨x, hx, hprune, hsame.hypothesis.trans hh, hsame.action.trans ha,
            hsame.prior.trans hp⟩
      · rw [Node.credit_children, Node.setChild_children, List.map_set, hsame.hypothesis]
        have hset : (node.children.map fun c => c.hypothesis.content).set i
            child.hypothesis.content = node.children.map fun c => c.hypothesis.content := by
          obtain ⟨hi, hget⟩ := List.getElem?_eq_some_iff.mp hchild
          have hself : node.children.set i child = node.children := by
            rw [← hget]
            exact List.set_getElem_self hi
          rw [← List.map_set, hself]
        rw [hset]
        exact hdistinct
      · intro c hc
        rw [Node.credit_children, Node.setChild_children] at hc
        rcases List.mem_or_eq_of_mem_set hc with hc | rfl
        · exact hchildren c hc
        · exact ih (hchildren child hmem)
  | expand hvisits hleaf hdepth hexpand _ _ ih =>
    intro depth hg
    exact ih (hg.expand hvisits hleaf hdepth hexpand)

theorem Grown.nodeAt {place : List ℕ} :
    ∀ {depth : ℕ} {node m : Node F}, Grown S depth node → node.nodeAt place = some m →
      Grown S (depth + place.length) m := by
  induction place with
  | nil =>
    intro depth node m hg hm
    rw [Node.nodeAt_nil, Option.some.injEq] at hm
    exact hm ▸ hg
  | cons i place ih =>
    intro depth node m hg hm
    rw [Node.nodeAt_cons] at hm
    obtain ⟨child, hchild, hm⟩ := Option.bind_eq_some_iff.mp hm
    cases hg with
    | mk _ _ _ _ _ hchildren =>
      have hnext := ih (hchildren child (List.mem_of_getElem? hchild)) hm
      rwa [List.length_cons, Nat.add_comm place.length 1, ← Nat.add_assoc]

/-- A node at `max_depth` has no children, so the way down ends before its bound does. -/
theorem visit_fuel {weights : List ℚ} {fuel : ℕ} :
    ∀ {depth : ℕ} {node : Node F}, Grown S depth node → S.maxDepth ≤ depth + fuel →
      S.visit weights (fuel + 1) node = S.visit weights fuel node := by
  induction fuel with
  | zero =>
    intro depth node hg hle
    have hclosed : ¬node.expanded = true := by
      intro hexpanded
      cases hg with
      | mk _ _ hopen =>
        have hlt := (hopen hexpanded).2
        omega
    unfold ParetoMCTS.visit
    exact if_neg hclosed
  | succ fuel ih =>
    intro depth node hg hle
    rw [ParetoMCTS.visit, ParetoMCTS.visit]
    by_cases hexpanded : node.expanded = true
    · rw [if_pos hexpanded, if_pos hexpanded]
      cases hselect : S.selectChild weights node with
      | none => rfl
      | some best =>
        obtain ⟨i, child⟩ := best
        have hchild : Grown S (depth + 1) child := by
          cases hg with
          | mk _ _ _ _ _ hchildren =>
            exact hchildren child (List.mem_of_getElem? (selectChild_eq_some hselect))
        simp only [ih hchild (by omega)]
    · rw [if_neg hexpanded, if_neg hexpanded]

end ParetoSearch
