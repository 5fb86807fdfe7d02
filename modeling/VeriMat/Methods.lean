import VeriMat.ParetoSearch
import VeriMat.Verification

/-! # The method variants

`experiments/methods.py` over services that may answer anything. Numbers are exact. The state is
the world of the services and the answers heard about passages, which the code does not keep. -/
namespace Methods

open PyText JsonText PyValue PyDisplay Events Transaction ModelTransports Verification ParetoSearch
open DecisionGraph (Payload getItem)

variable {F W : Type}

/-! ## Data -/

/-- `METHODS`. -/
inductive Method where
  | vanillaRag
  | dualRetrieval
  | dualCedg
  | full
  | noMcts
  | noDb
  deriving DecidableEq, Repr

inductive Label where
  | accepted
  | refuted
  | narrowed
  | unresolved
  deriving DecidableEq, Repr

inductive DbState where
  | uncovered
  | consistent
  deriving DecidableEq, Repr

/-- `PRIOR_CONFIDENCE`. -/
def priorConfidence : ℚ := 4 / 5

/-- A verdict that passed the quote gate. -/
structure Verdict (F : Type) where
  verdict : PyStr
  scopeLimitation : Bool
  quote : PyStr
  passage : Passage F

/-- `v["ref"]`. -/
def Verdict.ref (v : Verdict F) : PyStr := v.passage.ref

/-- Why a passage was refused: an exception, by its text, or the quote gate. -/
inductive RefusalReason where
  | raised (text : PyStr)
  | userNotJson
  | responseNotJson
  | quoteNotInPassage
  deriving DecidableEq, Repr

structure Refusal where
  ref : PyStr
  reason : RefusalReason
  deriving DecidableEq, Repr

structure VerifiedClaim (F : Type) where
  method : Method
  claim : Claim
  label : Label
  confidence : ℚ
  counterQueriesExecuted : ℕ
  counterPassagesRead : ℕ
  dbChecked : Bool
  boundary : PyStr
  refused : List Refusal
  dbState : Option DbState

/-- What escapes `run_method`: `.get` of a response that is no object, or the tree search. -/
inductive MethodError where
  | attributeError
  | search (e : SearchError)
  deriving DecidableEq

/-- A `MethodContext`, with the interpreter it runs in. -/
structure MethodContext (F W : Type) where
  interpreter : Interpreter
  services : Services F W
  sqrt : ℕ → ℚ
  discoveryYearTo : ℤ
  mctsIterations : ℤ

/-- The world, and the answers about passages so far. -/
structure Lab (F W : Type) where
  world : W
  heard : List (Heard F)

abbrev MethodRun (F W α : Type) := EStateM MethodError (Lab F W) α

/-- A service is called. -/
def call {α : Type} (service : W → α × W) : MethodRun F W α := fun s =>
  .ok (service s.world).1 { s with world := (service s.world).2 }

/-- An answer about a passage is heard. -/
def hear (passage : Passage F) (reply : Except PyStr PyStr) : MethodRun F W Unit :=
  modify fun s => { s with heard := s.heard ++ [⟨passage, reply⟩] }

theorem ran_call {α : Type} (service : W → α × W) (s : Lab F W) :
    ran (call service) s = (.ok (service s.world).1, { s with world := (service s.world).2 }) := rfl

theorem ran_hear (passage : Passage F) (reply : Except PyStr PyStr) (s : Lab F W) :
    ran (hear passage reply) s = (.ok (), { s with heard := s.heard ++ [⟨passage, reply⟩] }) := rfl

/-- `COUNTEREVIDENCE_TEMPLATES`, filled from the claim. -/
def counterQueries (c : Claim) : List PyStr :=
  let m := c.material
  let f := c.structuralFeature
  let p := c.propertyName
  [m ++ py " " ++ f ++ py " " ++ p ++ py " decrease contrary unexpected",
    m ++ py " " ++ p ++ py " degradation failure limit drawback",
    m ++ py " " ++ f ++ py " " ++ p ++ py " discrepancy inconsistency between studies"]

/-- `COUNTEREVIDENCE_TEMPLATES`, as a hypothesis declares them. -/
def counterevidenceTemplates : List PyStr :=
  [py "\x7bmaterial\x7d \x7bfeature\x7d \x7bproperty\x7d decrease contrary unexpected",
    py "\x7bmaterial\x7d \x7bproperty\x7d degradation failure limit drawback",
    py "\x7bmaterial\x7d \x7bfeature\x7d \x7bproperty\x7d discrepancy inconsistency between studies"]

section Functions
variable [PyFloat F] (ctx : MethodContext F W)

/-! ## Retrieval and verdicts -/

/-- `_search_discovery`. -/
def searchDiscovery (query : PyStr) : MethodRun F W (List (Payload F)) := do
  let reply ← call (ctx.services.agenticSearch ⟨query, 1900, ctx.discoveryYearTo, 3⟩)
  match reply with
  | .ok hits => pure (dicts hits)
  | .error _ => pure []

/-- The passage of a hit, unless its abstract is blank. -/
def passageOf (I : Interpreter) (hit : Payload F) : Option (Passage F) :=
  let text := strip (textOf I hit (py "abstract"))
  if text = [] then none
  else
    let docId := textOf I hit (py "doc_id")
    some ⟨if docId = [] then text.take 32 else docId, text, hit⟩

/-- `for hit in hits`: the passages so far, and whether they are enough. -/
def readHits (I : Interpreter) (maxPassages : ℕ) :
    List (Passage F) → List (Payload F) → List (Passage F) × Bool
  | passages, [] => (passages, false)
  | passages, hit :: hits =>
    match passageOf I hit with
    | none => readHits I maxPassages passages hits
    | some passage =>
      if maxPassages ≤ passages.length + 1 then (passages ++ [passage], true)
      else readHits I maxPassages (passages ++ [passage]) hits

/-- `for template in COUNTEREVIDENCE_TEMPLATES`. -/
def gatherFrom (maxPassages : ℕ) :
    List (Passage F) → ℕ → List PyStr → MethodRun F W (List (Passage F) × ℕ)
  | passages, queries, [] => pure (passages, queries)
  | passages, queries, query :: rest => do
    let hits ← searchDiscovery ctx query
    match readHits ctx.interpreter maxPassages passages hits with
    | (passages, true) => pure (passages, queries + 1)
    | (passages, false) => gatherFrom maxPassages passages (queries + 1) rest

/-- `_gather_counter_evidence`. -/
def gatherCounterEvidence (c : Claim) : MethodRun F W (List (Passage F) × ℕ) :=
  gatherFrom ctx 3 [] 0 (counterQueries c)

/-- What `_judge_passages` makes of an answer: a verdict, a refusal, or an AttributeError. -/
def judgeReply (I : Interpreter) (passage : Passage F) (reply : Except PyStr PyStr) :
    Except MethodError (Verdict F ⊕ Refusal) :=
  match reply with
  | .error text => .ok (.inr ⟨passage.ref, .raised (text.take 120)⟩)
  | .ok text =>
    match (loads text : Option (Json F)).map ofJson with
    | none => .ok (.inr ⟨passage.ref, .responseNotJson⟩)
    | some (.dict parsed) =>
      let quote := textOf I parsed (py "quote")
      if I.quoted quote passage.text then
        .ok (.inl ⟨strOf I.display (orDefault (getItem parsed (py "verdict")) (.str (py "unrelated"))),
          flagOf parsed (py "scope_limitation"), quote, passage⟩)
      else .ok (.inr ⟨passage.ref, .quoteNotInPassage⟩)
    | some _ => .error .attributeError

/-- The request about a passage. -/
def verifyRequest (c : Claim) (passage : Passage F) : Except JsonError ModelRequest :=
  (dumps (.dict [(.str (py "claim"), c.asDict),
    (.str (py "passage"), .str (shown passage.text))] : PyVal F)).map fun user =>
    ⟨py "verify-" ++ c.claimId ++ py "-" ++ passage.ref.take 16, .verify, user⟩

theorem verifyRequest_prompt {c : Claim} {passage : Passage F} {request : ModelRequest}
    (h : verifyRequest c passage = .ok request) : request.prompt = .verify := by
  rw [verifyRequest, Except.map.eq_def] at h
  split at h
  · cases h
  · obtain rfl := Except.ok.inj h
    rfl

/-- The body of the loop of `_judge_passages`. -/
def judgePassage (c : Claim) (passage : Passage F) : MethodRun F W (Verdict F ⊕ Refusal) :=
  match verifyRequest c passage with
  | .error _ => pure (.inr ⟨passage.ref, .userNotJson⟩)
  | .ok request => do
    let reply ← call (ctx.services.complete request)
    hear passage reply
    match judgeReply ctx.interpreter passage reply with
    | .error e => throw e
    | .ok outcome => pure outcome

/-- `_judge_passages`: the verdicts and what was refused. -/
def judgePassages (c : Claim) (passages : List (Passage F)) :
    MethodRun F W (List (Verdict F) × List Refusal) := do
  let outcomes ← passages.mapM (judgePassage ctx c)
  pure (outcomes.filterMap Sum.getLeft?, outcomes.filterMap Sum.getRight?)

/-! ## Labels -/

def contradicts (v : Verdict F) : Bool := v.verdict == py "contradicted"
def supports (v : Verdict F) : Bool := v.verdict == py "supported"

/-- `_cedg_label` once the counter searches have been executed. -/
def cedgLabel (verdicts : List (Verdict F)) : Label × PyStr :=
  if verdicts.any contradicts then (.refuted, [])
  else
    match verdicts.find? fun v => v.scopeLimitation && supports v with
    | some limitation => (.narrowed, limitation.quote.take 200)
    | none => if verdicts.any supports then (.accepted, []) else (.unresolved, [])

/-- `round(x, 4)`, half to even. -/
def round4 (x : ℚ) : ℚ :=
  let scaled := x * 10000
  let low := scaled.floor
  let part := scaled - low
  if part < 1 / 2 ∨ part = 1 / 2 ∧ low % 2 = 0 then low / 10000 else (low + 1) / 10000

/-- `_confidence`. -/
def confidence (verdicts : List (Verdict F)) (read : ℕ) (prior : ℚ) : ℚ :=
  if read = 0 then prior
  else round4 (max (1 / 10) (min 1 (1 - (verdicts.countP contradicts : ℚ) / max 1 read)))

/-! ## Database and refinements -/

/-- `_db_check`: whether it was asked, and what it says. -/
def dbCheck (c : Claim) : MethodRun F W (Bool × DbState) :=
  match ctx.services.observations with
  | none => pure (false, .uncovered)
  | some observations =>
    if c.composition = [] then pure (false, .uncovered)
    else do
      let reply ← call (observations ⟨c.composition, c.propertyName, py "db-" ++ c.claimId⟩)
      match reply with
      | .error _ => pure (true, .uncovered)
      | .ok 0 => pure (true, .uncovered)
      | .ok _ => pure (true, .consistent)

/-- `[v["quote"] for v in evidence][:5] or [claim.quote]`. -/
def evidenceOf (c : Claim) (verdicts : List (Verdict F)) : List PyStr :=
  let quotes := (verdicts.map (·.quote)).take 5
  if quotes.isEmpty then [c.quote] else quotes

def refineRequest (c : Claim) (verdicts : List (Verdict F)) : Except JsonError ModelRequest :=
  (dumps (.dict [(.str (py "claim"), c.asDict),
    (.str (py "evidence"), textList (evidenceOf c verdicts))] : PyVal F)).map fun user =>
    ⟨py "refine-" ++ c.claimId, .refine, user⟩

theorem refineRequest_prompt {c : Claim} {verdicts : List (Verdict F)} {request : ModelRequest}
    (h : refineRequest c verdicts = .ok request) : request.prompt = .refine := by
  rw [refineRequest, Except.map.eq_def] at h
  split at h
  · cases h
  · obtain rfl := Except.ok.inj h
    rfl

/-- The refinements of a response: whatever goes wrong, there are none. -/
def refinementsOf (reply : Except PyStr PyStr) : List (Payload F) :=
  match reply with
  | .error _ => []
  | .ok text =>
    match (loads text : Option (Json F)).map ofJson with
    | some (.dict parsed) =>
      match getItem parsed (py "refinements") with
      | some (.list items) => (dicts items).take 3
      | _ => []
    | _ => []

/-- `_refine`. -/
def refine (c : Claim) (verdicts : List (Verdict F)) : MethodRun F W (List (Payload F)) :=
  match refineRequest c verdicts with
  | .error _ => pure []
  | .ok request => do
    let reply ← call (ctx.services.complete request)
    pure (refinementsOf reply)

/-! ## The tree search over refinements -/

/-- `_evaluate`, but for the rounding of exact decimals. -/
def objectives (c : Claim) (verdicts : List (Verdict F)) (dbState : Option DbState)
    (boundary : PyStr) (nRefinements : ℕ) : Vector ℚ 7 :=
  #v[if c.value ≠ [] ∧ c.unit ≠ [] then 4 / 5 else 1 / 2,
    min 1 (17 / 50 * max 1 verdicts.length),
    if verdicts.all fun v => !contradicts v then 1 else 3 / 10,
    if dbState = some .consistent then 1 else 3 / 10,
    if boundary ≠ [] then 1 else 2 / 5,
    if c.composition ≠ [] then 1 else 3 / 5,
    max 0 (1 - 1 / 10 * nRefinements)]

omit [PyFloat F] in
theorem objectives_valid (c : Claim) (verdicts : List (Verdict F)) (dbState : Option DbState)
    (boundary : PyStr) (nRefinements : ℕ) :
    ∀ v ∈ (objectives c verdicts dbState boundary nRefinements).toList, 0 ≤ v ∧ v ≤ 1 := by
  have hchoice : ∀ (p : Prop) [Decidable p] (a b : ℚ), (0 ≤ a ∧ a ≤ 1) → (0 ≤ b ∧ b ≤ 1) →
      0 ≤ (if p then a else b) ∧ (if p then a else b) ≤ 1 := by
    intro p _ a b ha hb
    split
    · exact ha
    · exact hb
  intro v hv
  simp only [objectives, Vector.toList_mk, List.mem_cons, List.not_mem_nil, or_false] at hv
  rcases hv with rfl | rfl | rfl | rfl | rfl | rfl | rfl
  · apply hchoice <;> norm_num
  · exact ⟨le_min (by norm_num) (by positivity), min_le_left _ _⟩
  · apply hchoice <;> norm_num
  · apply hchoice <;> norm_num
  · apply hchoice <;> norm_num
  · apply hchoice <;> norm_num
  · refine ⟨le_max_left _ _, max_le (by norm_num) ?_⟩
    have hn : (0 : ℚ) ≤ nRefinements := by positivity
    linarith

/-- `f"{claim.claim_id}-r{index}"`. -/
def refinementId (c : Claim) (index : ℕ) : PyStr := c.claimId ++ py "-r" ++ decimal index

/-- `hypothesis_for`, and the root. -/
def hypothesisOf (verdicts : List (Verdict F)) (hypothesisId claim boundary : PyStr) :
    EvidenceBoundHypothesis F where
  hypothesisId := hypothesisId
  claim := claim
  boundary := boundary
  supportEvidence := verdicts.map Verdict.ref
  counterQueries := counterevidenceTemplates
  physicalChecks := [py "declared operating conditions"]
  metadata := []

def rootOf (c : Claim) (verdicts : List (Verdict F)) : EvidenceBoundHypothesis F :=
  hypothesisOf verdicts (c.claimId ++ py "-root") c.material []

/-- `Expansion(f"refine-{index}", hypothesis_for(index, item), ..)`. -/
def expansionOf (I : Interpreter) (c : Claim) (verdicts : List (Verdict F)) (index : ℕ)
    (item : Payload F) : Expansion F where
  action := py "refine-" ++ decimal index
  hypothesis := hypothesisOf verdicts (refinementId c index)
    (strOf I.display (orDefault (getItem item (py "restated")) (.str c.claimId)))
    (textOf I item (py "boundary"))
  prior := if flagOf item (py "boundary") then 3 / 5 else 3 / 10
  action_named := by rw [isBlank_append]; rfl
  prior_nonneg := by split <;> norm_num

/-- `children`. -/
def expansions (I : Interpreter) (c : Claim) (verdicts : List (Verdict F))
    (refinements : List (Payload F)) : List (Expansion F) :=
  refinements.zipIdx.map fun p => expansionOf I c verdicts p.2 p.1

/-- Whether the id is one of a refinement: a suffix of digits. -/
def isRefinement (c : Claim) (hypothesisId : PyStr) : Bool :=
  let suffix := hypothesisId.drop (c.claimId.length + 2)
  (c.claimId ++ py "-r").isPrefixOf hypothesisId && suffix != [] && suffix.all isDigit

/-- `evaluator`. -/
def evaluatorOf (c : Claim) (verdicts : List (Verdict F)) (dbState : Option DbState)
    (node : EvidenceBoundHypothesis F) : ObjectiveVector :=
  let n := if isRefinement c node.hypothesisId then 1 else 0
  ⟨objectives c verdicts dbState node.boundary n, objectives_valid c verdicts dbState node.boundary n⟩

/-- The `ParetoMCTS` of `_mcts_refine`. -/
def refinementSearch (c : Claim) (verdicts : List (Verdict F)) (dbState : Option DbState)
    (refinements : List (Payload F)) : ParetoMCTS F where
  expander node :=
    if node.hypothesisId = (rootOf c verdicts).hypothesisId then
      expansions ctx.interpreter c verdicts refinements
    else []
  evaluator := evaluatorOf c verdicts dbState
  gate := defaultAcceptanceGate
  plausibility _ _ := true
  prune _ := true
  exploration := 5 / 4
  maxDepth := 2
  sqrt := ctx.sqrt
  sha256 := ctx.interpreter.sha256
  exploration_nonneg := by norm_num
  maxDepth_pos := by norm_num

/-- `best.boundary or mapped`. -/
def boundaryOf (mapped : PyStr) (report : SearchReport F) : PyStr :=
  match report.paretoArchive with
  | [] => mapped
  | best :: _ => if best.hypothesis.boundary = [] then mapped else best.hypothesis.boundary

/-- `_mcts_refine`. -/
def mctsRefine (c : Claim) (verdicts : List (Verdict F)) (dbState : Option DbState) :
    MethodRun F W (Label × PyStr) := do
  let refinements ← refine ctx c verdicts
  let (label, mapped) := cedgLabel verdicts
  if refinements.isEmpty then pure (label, mapped)
  else
    match (refinementSearch ctx c verdicts dbState refinements).search (rootOf c verdicts)
        ctx.mctsIterations with
    | .error e => throw (.search e)
    | .ok report => pure (label, boundaryOf mapped report)

/-! ## `run_method` -/

/-- The label after the database has had its say. -/
def upgrade (dbState : Option DbState) (label : Label) : Label :=
  if dbState = some .consistent ∧ label = .unresolved then .narrowed else label

/-- The label and the boundary of the methods with a state machine. -/
def resolve (method : Method) (c : Claim) (verdicts : List (Verdict F)) (dbState : Option DbState) :
    MethodRun F W (Label × PyStr) :=
  if method = .full then do
    let refinements ← refine ctx c verdicts
    if refinements.isEmpty then pure (cedgLabel verdicts) else mctsRefine ctx c verdicts dbState
  else pure (cedgLabel verdicts)

/-- What is asked of the database: the other methods than V3 never do. -/
def database (method : Method) (c : Claim) : MethodRun F W (Bool × Option DbState) :=
  if method = .full then do
    let db ← dbCheck ctx c
    pure (db.1, some db.2)
  else pure (false, none)

/-- The `VerifiedClaim` of the methods with a state machine. -/
def settled (method : Method) (c : Claim) (queries read : ℕ) (verdicts : List (Verdict F))
    (refused : List Refusal) (db : Bool × Option DbState) (resolved : Label × PyStr) :
    VerifiedClaim F :=
  ⟨method, c, upgrade db.2 resolved.1, confidence verdicts read priorConfidence, queries, read,
    db.1, resolved.2, refused, db.2⟩

/-- A claim under a method with a state machine, once its passages have been judged. -/
def settle (method : Method) (c : Claim) (queries read : ℕ) (verdicts : List (Verdict F))
    (refused : List Refusal) : MethodRun F W (VerifiedClaim F) := do
  let db ← database ctx method c
  let resolved ← resolve ctx method c verdicts db.2
  pure (settled method c queries read verdicts refused db resolved)

/-- `run_method` for one claim. -/
def verifyClaim (method : Method) (c : Claim) : MethodRun F W (VerifiedClaim F) :=
  if method = .vanillaRag then
    pure ⟨method, c, .accepted, priorConfidence, 0, 0, false, [], [], none⟩
  else do
    let gathered ← gatherCounterEvidence ctx c
    let judged ← judgePassages ctx c gathered.1
    if method = .dualRetrieval then
      pure ⟨method, c, if judged.1.any contradicts then .refuted else .accepted,
        confidence judged.1 gathered.1.length priorConfidence, gathered.2, gathered.1.length, false,
        [], judged.2, none⟩
    else settle ctx method c gathered.2 gathered.1.length judged.1 judged.2

/-- `run_method`. -/
def runMethod (method : Method) (claims : List Claim) : MethodRun F W (List (VerifiedClaim F)) :=
  claims.mapM (verifyClaim ctx method)

end Functions

end Methods
