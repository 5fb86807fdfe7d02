import VeriMat.ParetoArchive

/-! # The statistics of a search

Every evaluation is credited to the nodes of its path and to no others, so the counters of a
node add up from the evaluations at and below its place. -/
namespace ParetoSearch

open PyText JsonText PyValue PyDict

variable {F : Type}

/-! ## Credits -/

/-- The place of an evaluated node and what the evaluation was worth. -/
abbrev Credit := List ℕ × Vector ℚ 7

/-- The credits at and below a child, seen from it. -/
def underChild (i : ℕ) (credits : List Credit) : List Credit :=
  credits.filterMap fun c =>
    match c.1 with
    | [] => none
    | j :: rest => if j = i then some (rest, c.2) else none

theorem underChild_append (i : ℕ) (credits credits' : List Credit) :
    underChild i (credits ++ credits') = underChild i credits ++ underChild i credits' :=
  List.filterMap_append

@[simp] theorem underChild_nil (i : ℕ) : underChild i [] = [] := rfl

theorem underChild_cons_nil (i : ℕ) (reward : Vector ℚ 7) (credits : List Credit) :
    underChild i (([], reward) :: credits) = underChild i credits := rfl

theorem underChild_cons_cons (i j : ℕ) (rest : List ℕ) (reward : Vector ℚ 7) (credits : List Credit) :
    underChild i ((j :: rest, reward) :: credits) =
      if j = i then (rest, reward) :: underChild i credits else underChild i credits := by
  unfold underChild
  rw [List.filterMap_cons]
  by_cases hj : j = i <;> simp [hj]

/-- The credits of a node are its own and those of its children. -/
theorem length_credits {n : ℕ} {credits : List Credit}
    (h : ∀ c ∈ credits, ∀ i rest, c.1 = i :: rest → i < n) :
    credits.length = (credits.filter fun c => c.1 = []).length +
      ∑ i ∈ Finset.range n, (underChild i credits).length := by
  induction credits with
  | nil => simp
  | cons c credits ih =>
    have hrest := ih fun c hc => h c (List.mem_cons_of_mem _ hc)
    obtain ⟨place, reward⟩ := c
    cases place with
    | nil =>
      simp only [underChild_cons_nil, List.filter_cons, decide_true, if_true, List.length_cons]
      omega
    | cons j rest =>
      have hj : j < n := h _ List.mem_cons_self j rest rfl
      have hsum : ∑ i ∈ Finset.range n, (underChild i ((j :: rest, reward) :: credits)).length =
          ∑ i ∈ Finset.range n, ((underChild i credits).length + if j = i then 1 else 0) := by
        apply Finset.sum_congr rfl
        intro i _
        rw [underChild_cons_cons]
        split_ifs with heq <;> simp
      rw [hsum, Finset.sum_add_distrib, Finset.sum_ite_eq, if_pos (Finset.mem_range.mpr hj)]
      simp only [List.filter_cons, reduceCtorEq, decide_false, Bool.false_eq_true, if_false,
        List.length_cons]
      omega

/-- What holds of a credit's place below a child is what holds of its whole place. -/
theorem filter_underChild {p q : List ℕ → Bool} {i : ℕ} (hnil : q [] = false)
    (hcons : ∀ j rest, q (j :: rest) = (decide (j = i) && p rest)) (credits : List Credit) :
    ((underChild i credits).filter fun c => p c.1).map Prod.snd =
      (credits.filter fun c => q c.1).map Prod.snd := by
  induction credits with
  | nil => rfl
  | cons c credits ih =>
    obtain ⟨place, reward⟩ := c
    cases place with
    | nil => simpa [underChild_cons_nil, hnil] using ih
    | cons j rest =>
      rw [underChild_cons_cons, List.filter_cons]
      by_cases hj : j = i
      · rw [if_pos hj, List.filter_cons]
        cases hp : p rest <;> simpa [hcons, hj, hp] using ih
      · simpa [hcons, hj] using ih

/-! ## Conservation -/

/-- The counters of a node are made of these credits, and so below it. -/
inductive Conserved : List Credit → Node F → Prop where
  | mk {credits : List Credit} {node : Node F} (hvisits : node.visits = credits.length)
      (hvalues : ∀ k (hk : k < 7), node.valueSum[k] = (credits.map fun c => c.2[k]).sum)
      (hplaces : ∀ c ∈ credits, ∀ i rest, c.1 = i :: rest → i < node.children.length)
      (hchildren : ∀ i child, node.children[i]? = some child → Conserved (underChild i credits) child) :
      Conserved credits node

theorem conserved_fresh (h : EvidenceBoundHypothesis F) (action : PyStr) (prior : ℚ) (depth : ℕ) :
    Conserved [] (Node.fresh h action prior depth) := by
  refine .mk rfl (fun k hk => ?_) ?_ ?_
  · simp [Node.fresh, Node.valueSum]
  · intro c hc
    cases hc
  · intro i child hchild
    cases hchild

/-- A node that is credited for itself. -/
theorem Conserved.credit {credits : List Credit} {node : Node F} (h : Conserved credits node)
    (reward : Vector ℚ 7) : Conserved (credits ++ [([], reward)]) (node.credit reward) := by
  cases h with
  | mk hvisits hvalues hplaces hchildren =>
    refine .mk (by simp [hvisits]) (fun k hk => ?_) ?_ ?_
    · rw [Node.credit_valueSum, Vector.getElem_zipWith, hvalues k hk]
      simp
    · intro c hc i rest hplace
      rw [Node.credit_children]
      rcases List.mem_append.mp hc with hc | hc
      · exact hplaces c hc i rest hplace
      · rw [List.mem_singleton.mp hc] at hplace
        cases hplace
    · intro i child hchild
      rw [Node.credit_children] at hchild
      rw [underChild_append, underChild_cons_nil, underChild_nil, List.append_nil]
      exact hchildren i child hchild

/-- A node that is credited together with one of its children. -/
theorem Conserved.setChild {credits : List Credit} {node child child' : Node F} {i : ℕ}
    {place : List ℕ} {reward : Vector ℚ 7} (h : Conserved credits node)
    (hchild : node.children[i]? = some child)
    (h' : Conserved (underChild i credits ++ [(place, reward)]) child') :
    Conserved (credits ++ [(i :: place, reward)]) ((node.setChild i child').credit reward) := by
  have hi : i < node.children.length := (List.getElem?_eq_some_iff.mp hchild).1
  cases h with
  | mk hvisits hvalues hplaces hchildren =>
    refine .mk (by simp [hvisits]) (fun k hk => ?_) ?_ ?_
    · rw [Node.credit_valueSum, Vector.getElem_zipWith, Node.setChild_valueSum, hvalues k hk]
      simp
    · intro c hc j rest hplace
      rw [Node.credit_children, Node.setChild_children, List.length_set]
      rcases List.mem_append.mp hc with hc | hc
      · exact hplaces c hc j rest hplace
      · rw [List.mem_singleton.mp hc] at hplace
        cases hplace
        exact hi
    · intro j c hc
      rw [Node.credit_children, Node.setChild_children, List.getElem?_set] at hc
      rw [underChild_append, underChild_cons_cons, underChild_nil]
      by_cases hj : i = j
      · subst hj
        rw [if_pos rfl, if_pos hi, Option.some.injEq] at hc
        rw [if_pos rfl, ← hc]
        exact h'
      · rw [if_neg hj] at hc
        rw [if_neg hj, List.append_nil]
        exact hchildren j c hc

section Visits
variable [PyFloat F] {S : ParetoMCTS F}

/-- Expanding a leaf adds nodes without credits; its own are its own. -/
theorem Conserved.expand {credits : List Credit} {node grown : Node F} {pruned : ℕ}
    (h : Conserved credits node) (hempty : node.children = [])
    (hexpand : S.expand node = .ok (grown, pruned)) : Conserved credits grown := by
  obtain ⟨children, hadmitted, rfl⟩ := expand_eq_ok hexpand
  cases h with
  | mk hvisits hvalues hplaces _ =>
    have hown : ∀ c ∈ credits, c.1 = [] := by
      intro c hc
      cases hplace : c.1 with
      | nil => rfl
      | cons i rest =>
        have hlt := hplaces c hc i rest hplace
        rw [hempty] at hlt
        cases hlt
    refine .mk (by simpa using hvisits) (by simpa using hvalues) ?_ ?_
    · intro c hc i rest hplace
      rw [hown c hc] at hplace
      cases hplace
    · intro i child hchild
      rw [Node.withChildren_children, hempty, List.nil_append] at hchild
      obtain ⟨⟨x, _, _, rfl⟩, _⟩ :=
        (admitted_spec hadmitted).1 child (List.mem_of_getElem? hchild)
      have hnone : underChild i credits = [] := by
        unfold underChild
        rw [List.filterMap_eq_nil_iff]
        intro c hc
        rw [hown c hc]
      rw [hnone]
      exact conserved_fresh _ _ _ _

/-- An iteration credits the node it evaluates and those above it. -/
theorem Visited.conserved {node node' : Node F} {e : Evaluation F} (h : Visited S node node' e) :
    ∀ {depth : ℕ} {credits : List Credit}, Grown S depth node → Conserved credits node →
      Conserved (credits ++ [(e.place, e.reward)]) node' := by
  induction h with
  | evaluate h =>
    intro depth credits _ hc
    obtain ⟨he, hnode⟩ := evaluate_eq_ok h
    rw [hnode, he]
    exact hc.credit _
  | @descend node child child' e i hchild h ih =>
    intro depth credits hg hc
    have hgrown : Grown S (depth + 1) child := by
      cases hg with
      | mk _ _ _ _ _ hchildren => exact hchildren child (List.mem_of_getElem? hchild)
    have hbelow : Conserved (underChild i credits) child := by
      cases hc with
      | mk _ _ _ hchildren => exact hchildren i child hchild
    exact hc.setChild hchild (ih hgrown hbelow)
  | expand hvisits hleaf hdepth hexpand _ _ ih =>
    intro depth credits hg hc
    have hempty := by
      cases hg with
      | mk _ hnone => exact hnone hleaf
    exact ih (hg.expand hvisits hleaf hdepth hexpand) (hc.expand hempty hexpand)

/-! ## Nodes at their places -/

/-- The credits at and below the node at a place, seen from it. -/
def underPlace : List ℕ → List Credit → List Credit
  | [], credits => credits
  | i :: place, credits => underPlace place (underChild i credits)

omit [PyFloat F] in
theorem Conserved.nodeAt {place : List ℕ} :
    ∀ {credits : List Credit} {node m : Node F}, Conserved credits node →
      node.nodeAt place = some m → Conserved (underPlace place credits) m := by
  induction place with
  | nil =>
    intro credits node m hc hm
    rw [Node.nodeAt_nil, Option.some.injEq] at hm
    exact hm ▸ hc
  | cons i place ih =>
    intro credits node m hc hm
    rw [Node.nodeAt_cons] at hm
    obtain ⟨child, hchild, hm⟩ := Option.bind_eq_some_iff.mp hm
    cases hc with
    | mk _ _ _ hchildren => exact ih (hchildren i child hchild) hm

/-- The credits a node has for itself are those of the evaluations at its place. -/
theorem underPlace_own {place : List ℕ} :
    ∀ credits : List Credit, ((underPlace place credits).filter fun c => c.1 = []).map Prod.snd =
      (credits.filter fun c => c.1 = place).map Prod.snd := by
  induction place with
  | nil => exact fun _ => rfl
  | cons i place ih =>
    intro credits
    rw [underPlace, ih]
    refine filter_underChild (p := fun l => decide (l = place))
      (q := fun l => decide (l = i :: place)) (by simp) ?_ credits
    intro j rest
    simp [Bool.decide_and]

/-- The credits of a node are those of the evaluations whose path goes through its place. -/
theorem underPlace_through {place : List ℕ} :
    ∀ credits : List Credit, (underPlace place credits).map Prod.snd =
      (credits.filter fun c => place <+: c.1).map Prod.snd := by
  induction place with
  | nil => simp [underPlace]
  | cons i place ih =>
    intro credits
    rw [underPlace, ih]
    refine filter_underChild (p := fun l => decide (place <+: l))
      (q := fun l => decide (i :: place <+: l)) (by simp) ?_ credits
    intro j rest
    simp [List.cons_prefix_cons, Bool.decide_and, eq_comm]

/-! ## Rewards -/

omit [PyFloat F] in
theorem reward_bounds (e : Evaluation F) (k : ℕ) (hk : k < 7) :
    0 ≤ e.reward[k] ∧ e.reward[k] ≤ 1 := by
  unfold Evaluation.reward
  split_ifs with haccepted
  · exact e.objectives.valid _ (Vector.mem_toList_iff.mpr (Vector.getElem_mem hk))
  · simp

/-- Numbers between 0 and 1 add up to at most as many as there are. -/
theorem sum_bounds {xs : List ℚ} (h : ∀ x ∈ xs, 0 ≤ x ∧ x ≤ 1) :
    0 ≤ xs.sum ∧ xs.sum ≤ xs.length := by
  induction xs with
  | nil => simp
  | cons x xs ih =>
    have hx := h x List.mem_cons_self
    have hrest := ih fun y hy => h y (List.mem_cons_of_mem _ hy)
    rw [List.sum_cons, List.length_cons, Nat.cast_succ]
    constructor <;> linarith

/-! ## Runs -/

/-- What the evaluations of a run are worth. -/
def creditsOf (evaluations : List (Evaluation F)) : List Credit :=
  evaluations.map fun e => (e.place, e.reward)

theorem Run.conserved {root : EvidenceBoundHypothesis F} {n : ℕ} {p : Progress F}
    {evaluations : List (Evaluation F)} (h : Run S root n p evaluations) :
    Conserved (creditsOf evaluations) p.root := by
  induction h with
  | start => exact conserved_fresh _ _ _ _
  | step hrun hvisit ih =>
    unfold creditsOf at ih ⊢
    rw [List.map_append]
    exact (visited_of_visit hvisit).conserved hrun.grown ih

/-- The counters of a report: every iteration evaluates, and its hypothesis is accepted or
rejected. -/
structure Counted (p : Progress F) (n : ℕ) (evaluations : List (Evaluation F)) : Prop where
  evaluated : p.evaluated = n
  outcomes : (evaluations.filter fun e => e.accepted).length + p.rejected = n
  plausibility : p.rejectedByPlausibility ≤ p.rejected
  length : evaluations.length = n

theorem Run.counted {root : EvidenceBoundHypothesis F} {n : ℕ} {p : Progress F}
    {evaluations : List (Evaluation F)} (h : Run S root n p evaluations) :
    Counted p n evaluations := by
  induction h with
  | start => exact ⟨rfl, rfl, le_rfl, rfl⟩
  | @step n p evaluations node e hrun hvisit ih =>
    have haccepted := (visited_of_visit hvisit).judged.accepted
    refine ⟨?_, ?_, ?_, ?_⟩
    · rw [Progress.record, ih.evaluated]
    · have houtcomes := ih.outcomes
      unfold Progress.record
      cases he : e.accepted
      · simp only [List.filter_append, List.filter_cons, he, List.filter_nil, List.length_append,
          Bool.false_eq_true, if_false, List.length_nil]
        omega
      · simp only [List.filter_append, List.filter_cons, he, List.filter_nil, List.length_append,
          if_true, List.length_cons, List.length_nil]
        omega
    · have hplausibility := ih.plausibility
      unfold Progress.record
      -- what is not plausible is not accepted
      cases hp : e.isPlausible
      · rw [hp, Bool.false_and] at haccepted
        simp only [haccepted, Bool.false_eq_true, if_false]
        omega
      · simp only [if_true]
        split_ifs <;> omega
    · rw [List.length_append, ih.length, List.length_singleton]

/-- The counters of a node after these evaluations. -/
structure NodeStatistics (evaluations : List (Evaluation F)) (place : List ℕ) (node : Node F) :
    Prop where
  visits : node.visits = (evaluations.filter fun e => e.place = place).length +
    (node.children.map Node.visits).sum
  values : ∀ k (hk : k < 7), node.valueSum[k] =
    ((evaluations.filter fun e => place <+: e.place).map fun e => e.reward[k]).sum
  bounds : ∀ k (hk : k < 7), (0 : ℚ) ≤ node.valueSum[k] ∧ node.valueSum[k] ≤ (node.visits : ℚ)

omit [PyFloat F] in
theorem sum_children_visits {credits : List Credit} {node : Node F} (h : Conserved credits node) :
    (node.children.map Node.visits).sum =
      ∑ i ∈ Finset.range node.children.length, (underChild i credits).length := by
  cases h with
  | mk _ _ _ hchildren =>
    rw [Finset.sum_range, ← List.sum_ofFn]
    congr 1
    apply List.ext_getElem
    · simp
    · intro i hi _
      rw [List.getElem_map, List.getElem_ofFn]
      rw [List.length_map] at hi
      cases hchildren i node.children[i] (List.getElem?_eq_getElem hi) with
      | mk hvisits => exact hvisits

omit [PyFloat F] in
theorem nodeStatistics {evaluations : List (Evaluation F)} {tree node : Node F} {place : List ℕ}
    (h : Conserved (creditsOf evaluations) tree) (hnode : tree.nodeAt place = some node) :
    NodeStatistics evaluations place node := by
  have hconserved := h.nodeAt hnode
  have hown : ((underPlace place (creditsOf evaluations)).filter fun c => c.1 = []).length =
      (evaluations.filter fun e => e.place = place).length := by
    rw [← List.length_map Prod.snd, underPlace_own, List.length_map, creditsOf, List.filter_map,
      List.length_map]
    rfl
  have hthrough : (underPlace place (creditsOf evaluations)).map Prod.snd =
      (evaluations.filter fun e => place <+: e.place).map Evaluation.reward := by
    rw [underPlace_through, creditsOf, List.filter_map, List.map_map]
    rfl
  have hsum := sum_children_visits hconserved
  cases hconserved with
  | mk hvisits hvalues hplaces _ =>
    have hsums : ∀ k (hk : k < 7), node.valueSum[k] =
        ((evaluations.filter fun e => place <+: e.place).map fun e => e.reward[k]).sum := by
      intro k hk
      have hcomponents := congrArg (List.map fun reward : Vector ℚ 7 => reward[k]) hthrough
      rw [List.map_map, List.map_map] at hcomponents
      rw [hvalues k hk]
      exact congrArg List.sum hcomponents
    refine ⟨?_, hsums, fun k hk => ?_⟩
    · rw [hvisits, length_credits hplaces, hown, hsum]
    · have hlength : node.visits = (evaluations.filter fun e => place <+: e.place).length := by
        rw [hvisits, ← List.length_map Prod.snd, hthrough, List.length_map]
      rw [hsums k hk, hlength]
      have hrewards : ∀ x ∈ (evaluations.filter fun e => place <+: e.place).map
          (fun e => e.reward[k]), 0 ≤ x ∧ x ≤ 1 := by
        intro x hx
        obtain ⟨e, _, rfl⟩ := List.mem_map.mp hx
        exact reward_bounds e k hk
      have hbounds := sum_bounds hrewards
      rwa [List.length_map] at hbounds

variable (S) in
/-- The statistics of a search that made so many iterations, with the progress it ended at. -/
structure StatisticsConserved (root : EvidenceBoundHypothesis F) (n : ℕ) (p : Progress F)
    (report : SearchReport F) : Prop where
  visits : p.root.visits = n
  evaluated : report.evaluated = n
  outcomes : ((S.history root n).filter fun e => e.accepted).length + report.rejectedByGate = n
  plausibility : report.rejectedByPlausibility ≤ report.rejectedByGate
  history : (S.history root n).length = n ∧
    ∀ i < n, ∃ e, S.evaluationAt root i = .ok e ∧ (S.history root n)[i]? = some e
  nodes : ∀ place node, p.root.nodeAt place = some node →
    NodeStatistics (S.history root n) place node

/-- The history of a search has the evaluation of every iteration in its place. -/
theorem history_spec {root : EvidenceBoundHypothesis F} {n : ℕ} :
    ∀ {p : Progress F}, S.iterate root n = .ok p → (S.history root n).length = n ∧
      ∀ i < n, ∃ e, S.evaluationAt root i = .ok e ∧ (S.history root n)[i]? = some e := by
  induction n with
  | zero =>
    intro p _
    exact ⟨rfl, fun i hi => absurd hi (Nat.not_lt_zero i)⟩
  | succ n ih =>
    intro p h
    obtain ⟨q, node, e, hq, hvisit, _⟩ := iterate_succ_eq_ok.mp h
    obtain ⟨hlength, hall⟩ := ih hq
    have he : S.evaluationAt root n = .ok e := evaluationAt_eq_ok.mpr ⟨q, node, hq, hvisit⟩
    have hhistory : S.history root (n + 1) = S.history root n ++ [e] := by
      rw [ParetoMCTS.history, he]
      rfl
    rw [hhistory]
    refine ⟨by rw [List.length_append, hlength, List.length_singleton], fun i hi => ?_⟩
    rcases Nat.lt_succ_iff_lt_or_eq.mp hi with hlt | rfl
    · obtain ⟨e', he', hget⟩ := hall i hlt
      have hold : i < (S.history root n).length := by rwa [hlength]
      exact ⟨e', he', by rwa [List.getElem?_append_left hold]⟩
    · have hlast := List.getElem?_concat_length (l := S.history root i) (a := e)
      rw [hlength] at hlast
      exact ⟨e, he, hlast⟩

/-- Whatever the callbacks answer, a search keeps its statistics: visits and values are those of
the evaluations at and below a node, and the counters are those of their outcomes. -/
theorem statistics_conserved {root : EvidenceBoundHypothesis F} {iterations : ℤ}
    {report : SearchReport F} (h : S.search root iterations = .ok report) :
    ∃ p, S.iterate root iterations.toNat = .ok p ∧
      StatisticsConserved S root iterations.toNat p report := by
  obtain ⟨_, p, hp, rfl⟩ := search_eq_ok.mp h
  have hrun := run_of_iterate hp
  have hcounted := hrun.counted
  have hconserved := hrun.conserved
  refine ⟨p, hp, ?_, hcounted.evaluated, hcounted.outcomes, hcounted.plausibility,
    history_spec hp, fun place node hnode => nodeStatistics hconserved hnode⟩
  cases hconserved with
  | mk hvisits =>
    rw [hvisits, creditsOf, List.length_map, hcounted.length]

theorem statistics_conserved_sample :
    ∃ report p, sampleSearch.search (sampleHypothesis (py "r")) 4 = .ok report ∧
      StatisticsConserved sampleSearch (sampleHypothesis (py "r")) 4 p report := by
  have h : (sampleSearch.search (sampleHypothesis (py "r")) 4).toOption.isSome = true := by
    decide +kernel
  cases hs : sampleSearch.search (sampleHypothesis (py "r")) 4 with
  | error cause =>
    rw [hs] at h
    cases h
  | ok report =>
    obtain ⟨p, _, hp⟩ := statistics_conserved hs
    exact ⟨report, p, rfl, hp⟩

end Visits

end ParetoSearch
