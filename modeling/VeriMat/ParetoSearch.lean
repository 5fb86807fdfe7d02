import VeriMat.ModelTransports

/-! # The Pareto tree search

`discovery/pareto_mcts.py` with exact numbers; the square root is a parameter. The tree is kept
as a value: an iteration goes down to the node it evaluates and credits the nodes of its path on
the way back. The trace is left out, apart from the digests its entries need. -/
namespace ParetoSearch

open PyText JsonText PyValue PyDict
open DecisionGraph (Payload)

variable {F : Type}

/-! ## Hypotheses and objectives -/

structure EvidenceBoundHypothesis (F : Type) where
  hypothesisId : PyStr
  claim : PyStr
  boundary : PyStr
  supportEvidence : List PyStr
  counterQueries : List PyStr
  physicalChecks : List PyStr
  metadata : Payload F

/-- Seven numbers; the constructor refuses others. -/
structure ObjectiveVector where
  values : Vector ℚ 7
  valid : ∀ v ∈ values.toList, 0 ≤ v ∧ v ≤ 1

def ObjectiveVector.evidenceSufficiency (o : ObjectiveVector) : ℚ := o.values[1]

def ObjectiveVector.physicalValidity (o : ObjectiveVector) : ℚ := o.values[5]

structure Expansion (F : Type) where
  action : PyStr
  hypothesis : EvidenceBoundHypothesis F
  prior : ℚ
  action_named : isBlank action = false
  prior_nonneg : 0 ≤ prior

structure SearchResult (F : Type) where
  hypothesis : EvidenceBoundHypothesis F
  objectives : ObjectiveVector
  path : List PyStr
  iteration : ℕ

structure SearchReport (F : Type) where
  paretoArchive : List (SearchResult F)
  evaluated : ℕ
  rejectedByGate : ℕ
  rejectedByPlausibility : ℕ
  pruned : ℕ

/-- What escapes `search`. -/
inductive SearchError where
  | iterations
  | json (cause : JsonError)
  | unicodeEncodeError
  deriving DecidableEq

section Digest
variable [PyFloat F]

def textList (texts : List PyStr) : PyVal F := .list (texts.map .str)

/-- The payload of `canonical_sha256`. -/
def EvidenceBoundHypothesis.payload (h : EvidenceBoundHypothesis F) : PyVal F :=
  .dict [(.str (py "hypothesis_id"), .str h.hypothesisId), (.str (py "claim"), .str h.claim),
    (.str (py "boundary"), .str h.boundary),
    (.str (py "support_evidence"), textList h.supportEvidence),
    (.str (py "counter_queries"), textList h.counterQueries),
    (.str (py "physical_checks"), textList h.physicalChecks),
    (.str (py "metadata"), .dict h.metadata)]

/-- `canonical_sha256`, for metadata of finite numbers. -/
def EvidenceBoundHypothesis.canonicalSha256 (sha256 : PyBytes → PyStr)
    (h : EvidenceBoundHypothesis F) : Except SearchError PyStr :=
  match dumps h.payload with
  | .error cause => .error (.json cause)
  | .ok text =>
    match encode text with
    | none => .error .unicodeEncodeError
    | some bytes => .ok (sha256 bytes)

end Digest

/-! ## Dominance and the archive -/

/-- `eps`. -/
def tolerance : ℚ := 1 / 1000000000000

def dominates (left right : ObjectiveVector) : Bool :=
  (left.values.toList.zip right.values.toList).all (fun p => p.2 ≤ p.1 + tolerance) &&
    (left.values.toList.zip right.values.toList).any fun p => p.2 + tolerance < p.1

/-- `>` of tuples. -/
def lexGreater : List ℚ → List ℚ → Bool
  | x :: xs, y :: ys => y < x || x == y && lexGreater xs ys
  | _ :: _, [] => true
  | [], _ => false

/-- What the loop of `pareto_front` keeps of a result next to the one already kept. -/
def preferred (previous result : SearchResult F) : SearchResult F :=
  if dominates result.objectives previous.objectives then result
  else if dominates previous.objectives result.objectives then previous
  else if lexGreater result.objectives.values.toList previous.objectives.values.toList then result
  else previous

/-- `best_by_id` after one more result. -/
def keepBest (best : Dict PyStr (SearchResult F)) (result : SearchResult F) :
    Dict PyStr (SearchResult F) :=
  match best.get result.hypothesis.hypothesisId with
  | none => best.set result.hypothesis.hypothesisId result
  | some previous => best.set result.hypothesis.hypothesisId (preferred previous result)

/-- `(item.hypothesis.hypothesis_id, item.iteration)` in order. -/
def archiveOrder (a b : SearchResult F) : Prop :=
  a.hypothesis.hypothesisId < b.hypothesis.hypothesisId ∨
    a.hypothesis.hypothesisId = b.hypothesis.hypothesisId ∧ a.iteration ≤ b.iteration

instance : DecidableRel (archiveOrder (F := F)) := fun _ _ =>
  inferInstanceAs (Decidable (_ ∨ _ ∧ _))

/-- `pareto_front`. -/
def paretoFront (results : List (SearchResult F)) : List (SearchResult F) :=
  let candidates := (results.foldl keepBest empty).values
  let front := candidates.filter fun item => !candidates.any fun other =>
    other.hypothesis.hypothesisId != item.hypothesis.hypothesisId &&
      dominates other.objectives item.objectives
  front.insertionSort archiveOrder

/-- `"@" in locator and locator.split("@", 1)[1].strip()`. -/
def isLocator (locator : PyStr) : Bool :=
  match locator.dropWhile (· != 64) with
  | [] => false
  | _ :: rest => !isBlank rest

/-- `default_acceptance_gate`. -/
def defaultAcceptanceGate (h : EvidenceBoundHypothesis F) (objectives : ObjectiveVector) : Bool :=
  !isBlank h.hypothesisId && !isBlank h.claim && !isBlank h.boundary &&
    !h.supportEvidence.isEmpty && h.supportEvidence.all isLocator && !h.counterQueries.isEmpty &&
    !h.physicalChecks.isEmpty && 0 < objectives.evidenceSufficiency &&
    0 < objectives.physicalValidity

/-! ## The tree -/

/-- A `_Node`, without the link to its parent. -/
inductive Node (F : Type) where
  | mk (hypothesis : EvidenceBoundHypothesis F) (action : PyStr) (prior : ℚ) (depth visits : ℕ)
      (valueSum : Vector ℚ 7) (expanded : Bool) (children : List (Node F))

namespace Node

def hypothesis : Node F → EvidenceBoundHypothesis F | mk h .. => h
def action : Node F → PyStr | mk _ a .. => a
def prior : Node F → ℚ | mk _ _ p .. => p
def depth : Node F → ℕ | mk _ _ _ d .. => d
def visits : Node F → ℕ | mk _ _ _ _ v .. => v
def valueSum : Node F → Vector ℚ 7 | mk _ _ _ _ _ s .. => s
def expanded : Node F → Bool | mk _ _ _ _ _ _ e _ => e
def children : Node F → List (Node F) | mk _ _ _ _ _ _ _ cs => cs

/-- A node that has not been visited. -/
def fresh (h : EvidenceBoundHypothesis F) (action : PyStr) (prior : ℚ) (depth : ℕ) : Node F :=
  mk h action prior depth 0 (Vector.replicate 7 0) false []

def withChildren : Node F → List (Node F) → Node F
  | mk h a p d v s _ _, children => mk h a p d v s true children

def setChild : Node F → ℕ → Node F → Node F
  | mk h a p d v s e cs, i, child => mk h a p d v s e (cs.set i child)

/-- What `_backpropagate` does to a node of the path. -/
def credit : Node F → Vector ℚ 7 → Node F
  | mk h a p d v s e cs, reward => mk h a p d (v + 1) (s.zipWith (· + ·) reward) e cs

/-- `mean_values`. -/
def meanValues (node : Node F) : List ℚ :=
  if node.visits = 0 then List.replicate 7 0
  else node.valueSum.toList.map (· / node.visits)

end Node

/-- A `ParetoMCTS`, with the callbacks as functions; its constructor refuses other bounds. -/
structure ParetoMCTS (F : Type) where
  expander : EvidenceBoundHypothesis F → List (Expansion F)
  evaluator : EvidenceBoundHypothesis F → ObjectiveVector
  gate : EvidenceBoundHypothesis F → ObjectiveVector → Bool
  plausibility : EvidenceBoundHypothesis F → ObjectiveVector → Bool
  prune : Expansion F → Bool
  exploration : ℚ
  maxDepth : ℕ
  sqrt : ℕ → ℚ
  sha256 : PyBytes → PyStr
  exploration_nonneg : 0 ≤ exploration
  maxDepth_pos : 1 ≤ maxDepth

/-- `_WEIGHT_BANK`. -/
def weightBank : List (List ℚ) :=
  [[1, 1, 1, 1, 1, 1, 1], [2, 1, 2, 1, 2, 2, 1], [1, 2, 1, 2, 1, 2, 1],
    [2, 2, 2, 1 / 2, 1, 1, 1 / 2], [1 / 2, 1, 1, 2, 2, 1, 2]]

/-- `_normalized_weights`. -/
def normalizedWeights (weights : List ℚ) : List ℚ := weights.map (· / weights.sum)

/-- The weights of an iteration. -/
def weightsAt (iteration : ℕ) : List ℚ :=
  normalizedWeights (weightBank.getD (iteration % weightBank.length) [])

variable (S : ParetoMCTS F)

/-- The key `_select_child` gives a child. -/
def ParetoMCTS.score (weights : List ℚ) (node child : Node F) : ℚ × ℚ × PyStr :=
  let exploitation := (List.zipWith (· * ·) weights child.meanValues).sum
  let exploration := S.exploration * child.prior * S.sqrt (max 1 node.visits) / (1 + child.visits)
  (exploitation + exploration, child.prior, child.hypothesis.hypothesisId)

/-- `<` of those keys. -/
def keyLess (a b : ℚ × ℚ × PyStr) : Bool :=
  a.1 < b.1 || a.1 == b.1 && (a.2.1 < b.2.1 || a.2.1 == b.2.1 && decide (a.2.2 < b.2.2))

/-- The place of the first largest key: `max(.., key=..)`. -/
def firstMax : List (ℚ × ℚ × PyStr) → Option ℕ
  | [] => none
  | k :: ks =>
    match firstMax ks with
    | none => some 0
    | some i => if keyLess k (ks.getD i k) then some (i + 1) else some 0

/-- `_select_child`: the child and its place. -/
def ParetoMCTS.selectChild (weights : List ℚ) (node : Node F) : Option (ℕ × Node F) :=
  (firstMax (node.children.map (S.score weights node))).bind fun i =>
    node.children[i]?.map fun child => (i, child)

section Search
variable [PyFloat F]

/-- `-item.prior, item.action, item.hypothesis.hypothesis_id` in order. -/
def proposalOrder (a b : Expansion F) : Prop :=
  b.prior < a.prior ∨ a.prior = b.prior ∧ (a.action < b.action ∨ a.action = b.action ∧
    a.hypothesis.hypothesisId ≤ b.hypothesis.hypothesisId)

instance : DecidableRel (proposalOrder (F := F)) := fun _ _ =>
  inferInstanceAs (Decidable (_ ∨ _ ∧ (_ ∨ _ ∧ _)))

/-- The loop of `_expand`: the children and how many proposals were pruned. -/
def ParetoMCTS.admitted (depth : ℕ) :
    List PyStr → List (Expansion F) → Except SearchError (List (Node F) × ℕ)
  | _, [] => .ok ([], 0)
  | seen, proposal :: proposals =>
    match proposal.hypothesis.canonicalSha256 S.sha256 with
    | .error e => .error e
    | .ok digest =>
      if digest ∈ seen then ParetoMCTS.admitted depth seen proposals
      else
        match ParetoMCTS.admitted depth (digest :: seen) proposals with
        | .error e => .error e
        | .ok (children, pruned) =>
          if S.prune proposal then
            .ok (.fresh proposal.hypothesis proposal.action proposal.prior depth :: children, pruned)
          else .ok (children, pruned + 1)

/-- `_expand`. -/
def ParetoMCTS.expand (node : Node F) : Except SearchError (Node F × ℕ) :=
  match S.admitted (node.depth + 1) [] ((S.expander node.hypothesis).insertionSort proposalOrder) with
  | .error e => .error e
  | .ok (children, pruned) => .ok (node.withChildren (node.children ++ children), pruned)

/-- The evaluation of one iteration. `place` tells the node: where each node of the path stands
among its siblings. `expansion` is the place of the node that was expanded before, if one was. -/
structure Evaluation (F : Type) where
  hypothesis : EvidenceBoundHypothesis F
  objectives : ObjectiveVector
  isPlausible : Bool
  accepted : Bool
  path : List PyStr
  place : List ℕ
  expansion : Option (List ℕ)
  pruned : ℕ

/-- What an evaluation is worth to the nodes of its path. -/
def Evaluation.reward (e : Evaluation F) : Vector ℚ 7 :=
  if e.accepted then e.objectives.values else Vector.replicate 7 0

/-- A node evaluated; its trace entry takes its digest. -/
def ParetoMCTS.evaluate (node : Node F) : Except SearchError (Node F × Evaluation F) :=
  let objectives := S.evaluator node.hypothesis
  let isPlausible := S.plausibility node.hypothesis objectives
  let evaluation : Evaluation F :=
    ⟨node.hypothesis, objectives, isPlausible, isPlausible && S.gate node.hypothesis objectives, [],
      [], none, 0⟩
  match node.hypothesis.canonicalSha256 S.sha256 with
  | .error e => .error e
  | .ok _ => .ok (node.credit evaluation.reward, evaluation)

/-- An evaluation below the child at a place, seen from its parent. -/
def Evaluation.above (e : Evaluation F) (i : ℕ) (action : PyStr) : Evaluation F :=
  { e with
    path := action :: e.path
    place := i :: e.place
    expansion := e.expansion.map (i :: ·) }

/-- The node with its child evaluated, and itself credited. -/
def ParetoMCTS.above (node : Node F) (i : ℕ)
    (below : Except SearchError (Node F × Evaluation F)) :
    Except SearchError (Node F × Evaluation F) :=
  match below with
  | .error e => .error e
  | .ok (child, evaluation) =>
    .ok ((node.setChild i child).credit evaluation.reward, evaluation.above i child.action)

/-- The best child of a node evaluated, or the node itself where it has none. -/
def ParetoMCTS.visitBest (weights : List ℚ) (node : Node F) :
    Except SearchError (Node F × Evaluation F) :=
  match S.selectChild weights node with
  | none => S.evaluate node
  | some (i, child) => ParetoMCTS.above node i (S.evaluate child)

/-- A leaf: it is expanded on a visit after its first, and then its best child is evaluated. -/
def ParetoMCTS.visitLeaf (weights : List ℚ) (node : Node F) :
    Except SearchError (Node F × Evaluation F) :=
  if 0 < node.visits ∧ node.expanded = false ∧ node.depth < S.maxDepth then
    match S.expand node with
    | .error e => .error e
    | .ok (node, pruned) =>
      match S.visitBest weights node with
      | .error e => .error e
      | .ok (node, evaluation) => .ok (node, { evaluation with pruned, expansion := some [] })
  else S.evaluate node

/-- One iteration from a node down; a node at `max_depth` has no children. -/
def ParetoMCTS.visit (weights : List ℚ) : ℕ → Node F → Except SearchError (Node F × Evaluation F)
  | 0, node => S.visitLeaf weights node
  | fuel + 1, node =>
    if node.expanded then
      match S.selectChild weights node with
      | none => S.visitLeaf weights node
      | some (i, child) =>
        if child.visits = 0 then ParetoMCTS.above node i (S.evaluate child)
        else ParetoMCTS.above node i (ParetoMCTS.visit weights fuel child)
    else S.visitLeaf weights node

/-- What `search` has gathered. -/
structure Progress (F : Type) where
  root : Node F
  candidates : List (SearchResult F)
  evaluated : ℕ
  rejected : ℕ
  rejectedByPlausibility : ℕ
  pruned : ℕ

/-- An evaluation counted. -/
def Progress.record (p : Progress F) (iteration : ℕ) (root : Node F) (e : Evaluation F) :
    Progress F where
  root := root
  candidates :=
    if e.accepted then p.candidates ++ [⟨e.hypothesis, e.objectives, e.path, iteration⟩]
    else p.candidates
  evaluated := p.evaluated + 1
  rejected := if e.accepted then p.rejected else p.rejected + 1
  rejectedByPlausibility :=
    if e.isPlausible then p.rejectedByPlausibility else p.rejectedByPlausibility + 1
  pruned := p.pruned + e.pruned

/-- The loop of `search`, after the first iterations. -/
def ParetoMCTS.iterate (root : EvidenceBoundHypothesis F) : ℕ → Except SearchError (Progress F)
  | 0 => .ok ⟨.fresh root (py "ROOT") 1 0, [], 0, 0, 0, 0⟩
  | iteration + 1 =>
    match ParetoMCTS.iterate root iteration with
    | .error e => .error e
    | .ok p =>
      match S.visit (weightsAt iteration) S.maxDepth p.root with
      | .error e => .error e
      | .ok (node, evaluation) => .ok (p.record iteration node evaluation)

/-- `search`. -/
def ParetoMCTS.search (root : EvidenceBoundHypothesis F) (iterations : ℤ) :
    Except SearchError (SearchReport F) :=
  if iterations < 1 then .error .iterations
  else
    match S.iterate root iterations.toNat with
    | .error e => .error e
    | .ok p => .ok ⟨paretoFront p.candidates, p.evaluated, p.rejected, p.rejectedByPlausibility,
        p.pruned⟩

end Search

end ParetoSearch
