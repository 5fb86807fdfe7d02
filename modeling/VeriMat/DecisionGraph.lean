import VeriMat.PyDict
import VeriMat.PyDisplay
import VeriMat.Events
import VeriMat.Transaction

/-! # The decision graph

`evidence/graph.py`: claims, queries, passages and evidence edges as the events of a ledger
build them up. A handler is a computation over the graph: what it changed before an exception
would stay changed. Payloads are any Python values; `str` is `strOf`. -/
namespace DecisionGraph

open PyText JsonText PyValue PyDict PyDisplay Events Transaction

/-! ## States and relations -/

inductive ClaimState where
  | proposed
  | supported
  | challenged
  | survived
  | narrowed
  | refuted
  | unresolved
  deriving DecidableEq, Repr

def ClaimState.value : ClaimState → PyStr
  | .proposed => py "PROPOSED"
  | .supported => py "SUPPORTED"
  | .challenged => py "CHALLENGED"
  | .survived => py "SURVIVED"
  | .narrowed => py "NARROWED"
  | .refuted => py "REFUTED"
  | .unresolved => py "UNRESOLVED"

/-- `ClaimState(text)`; `none` is the ValueError. -/
def ClaimState.ofValue (text : PyStr) : Option ClaimState :=
  [.proposed, .supported, .challenged, .survived, .narrowed, .refuted, .unresolved].find?
    fun state => state.value == text

inductive EvidenceRelation where
  | supports
  | contradicts
  | bounds
  | precedentFor
  | checked
  deriving DecidableEq, Repr

def EvidenceRelation.value : EvidenceRelation → PyStr
  | .supports => py "SUPPORTS"
  | .contradicts => py "CONTRADICTS"
  | .bounds => py "BOUNDS"
  | .precedentFor => py "PRECEDENT_FOR"
  | .checked => py "CHECKED"

/-- `EvidenceRelation(text)`; `none` is the ValueError. -/
def EvidenceRelation.ofValue (text : PyStr) : Option EvidenceRelation :=
  [.supports, .contradicts, .bounds, .precedentFor, .checked].find?
    fun relation => relation.value == text

/-- `TERMINAL_STATES`. -/
def terminalStates : List ClaimState := [.survived, .narrowed, .refuted, .unresolved]

/-- `ALLOWED_TRANSITIONS`. -/
def allowedTransitions : ClaimState → List ClaimState
  | .proposed => [.supported, .challenged, .unresolved]
  | .supported => [.challenged, .unresolved]
  | .challenged => terminalStates
  | _ => []

/-! ## Graphs -/

variable {F : Type}

structure Passage (F : Type) where
  passageId : PyStr
  docId : PyStr
  queryId : PyStr
  contentSha256 : PyStr
  offset : PyVal F
  pageNo : PyVal F

structure Query (F : Type) where
  queryId : PyStr
  claimId : PyStr
  text : PyStr
  intent : PyStr
  nHits : PyVal F

structure Claim where
  claimId : PyStr
  text : PyStr
  scope : PyStr
  state : ClaimState
  boundary : PyStr
  reason : PyStr
  version : ℕ
  deriving DecidableEq

structure EvidenceEdge where
  claimId : PyStr
  passageId : PyStr
  relation : EvidenceRelation
  deriving DecidableEq

/-- `DecisionGraph`; the set of applied ids in the order they came. -/
structure Graph (F : Type) where
  claims : Dict PyStr Claim
  queries : Dict PyStr (Query F)
  passages : Dict PyStr (Passage F)
  edges : List EvidenceEdge
  appliedEventIds : List (HashableVal F)

def emptyGraph : Graph F := ⟨empty, empty, empty, [], []⟩

/-- What the text of a `GraphInvariantError` says. -/
inductive GraphIssue (F : Type) where
  | missingFields (keys : List PyStr)
  | claimExists (claimId : PyStr)
  | queryUnknownClaim (claimId : PyStr)
  | queryExists (queryId : PyStr)
  | queryIntent
  | nHits
  | passageUnknownQuery (queryId : PyStr)
  | passageExists (passageId : PyStr)
  | passageLocator
  | offset
  | pageNo
  | contentSha256
  | edgeUnknownClaim (claimId : PyStr)
  | edgeUnknownPassage (passageId : PyStr)
  | foreignPassage
  | unknownRelation (relation : PyVal F)
  | supportsOrigin
  | counterOrigin (relation : EvidenceRelation)
  | duplicateEdge
  | transitionUnknownClaim (claimId : PyStr)
  | unknownState (state : PyVal F)
  | illegalTransition (source target : ClaimState)
  | supportedNeedsEdge
  | challengedNeedsQuery
  | survivedNeedsSupport
  | survivedNeedsBoundary
  | narrowedNeedsEdge
  | narrowedNeedsBoundary
  | refutedNeedsEdge

/-- `invariant` is the `GraphInvariantError`; the others Python raises by itself. -/
inductive GraphError (F : Type) where
  | invariant (issue : GraphIssue F)
  | keyError
  | typeError
  | attributeError

/-- A computation over a graph. -/
abbrev Projection (F α : Type) := EStateM (GraphError F) (Graph F) α

/-! ## Payloads -/

/-- `payload`, once it is known to be a dict. -/
abbrev Payload (F : Type) := List (PyKey F × PyVal F)

variable [PyFloat F]

/-- `payload.get(key)`; `none` where the key is missing. -/
def getItem (payload : Payload F) (key : PyStr) : Option (PyVal F) :=
  (payload.find? fun p => sameKey (.str key) p.1).map Prod.snd

/-- `value in (None, "")`. -/
def isUnset : Option (PyVal F) → Bool
  | none | some .none | some (.str []) => true
  | _ => false

/-- `_required`. -/
def required (payload : Payload F) (keys : List PyStr) : Projection F Unit :=
  let missing := keys.filter fun key => isUnset (getItem payload key)
  raiseIf (missing ≠ []) (.invariant (.missingFields missing))

/-- `payload[key]`. -/
def item (payload : Payload F) (key : PyStr) : Projection F (PyVal F) :=
  orRaise (getItem payload key) .keyError

/-- `isinstance(value, int) and value >= 0`; a bool is an int. -/
def isCount : PyVal F → Bool
  | .int n => decide (0 ≤ n)
  | .bool _ => true
  | _ => false

/-- `value is None`. -/
def isNone : PyVal F → Bool
  | .none => true
  | _ => false

section Handlers
variable (D : Display)

/-! ## Handlers -/

/-- `_claim_proposed`. -/
def claimProposed (payload : Payload F) : Projection F Unit := do
  required payload [py "claim_id", py "text", py "scope"]
  let claimId ← strOf D <$> item payload (py "claim_id")
  let g ← get
  raiseIf ((g.claims.get claimId).isSome = true) (.invariant (.claimExists claimId))
  let text ← strOf D <$> item payload (py "text")
  let scope ← strOf D <$> item payload (py "scope")
  modify fun g =>
    { g with claims := g.claims.set claimId ⟨claimId, text, scope, .proposed, [], [], 1⟩ }

/-- `_query_executed`. -/
def queryExecuted (payload : Payload F) : Projection F Unit := do
  required payload [py "query_id", py "claim_id", py "text", py "intent"]
  let queryId ← strOf D <$> item payload (py "query_id")
  let claimId ← strOf D <$> item payload (py "claim_id")
  let g ← get
  raiseIf ((g.claims.get claimId).isNone = true) (.invariant (.queryUnknownClaim claimId))
  raiseIf ((g.queries.get queryId).isSome = true) (.invariant (.queryExists queryId))
  let intent ← strOf D <$> item payload (py "intent")
  raiseIf (intent ∉ [py "support", py "counterevidence"]) (.invariant .queryIntent)
  let nHits := (getItem payload (py "n_hits")).getD (.int 0)
  raiseIf (isCount nHits = false) (.invariant .nHits)
  let text ← strOf D <$> item payload (py "text")
  modify fun g => { g with queries := g.queries.set queryId ⟨queryId, claimId, text, intent, nHits⟩ }

/-- `_passage_observed`. -/
def passageObserved (payload : Payload F) : Projection F Unit := do
  required payload [py "passage_id", py "doc_id", py "query_id", py "content_sha256"]
  let passageId ← strOf D <$> item payload (py "passage_id")
  let queryId ← strOf D <$> item payload (py "query_id")
  let g ← get
  raiseIf ((g.queries.get queryId).isNone = true) (.invariant (.passageUnknownQuery queryId))
  raiseIf ((g.passages.get passageId).isSome = true) (.invariant (.passageExists passageId))
  let offset := (getItem payload (py "offset")).getD .none
  let pageNo := (getItem payload (py "page_no")).getD .none
  raiseIf (isNone offset ∧ isNone pageNo) (.invariant .passageLocator)
  raiseIf (isNone offset = false ∧ isCount offset = false) (.invariant .offset)
  raiseIf (isNone pageNo = false ∧ isCount pageNo = false) (.invariant .pageNo)
  let contentHash ← strOf D <$> item payload (py "content_sha256")
  raiseIf (isHash contentHash = false) (.invariant .contentSha256)
  let docId ← strOf D <$> item payload (py "doc_id")
  modify fun g =>
    { g with
      passages := g.passages.set passageId ⟨passageId, docId, queryId, contentHash, offset, pageNo⟩ }

/-- `_evidence_linked`. -/
def evidenceLinked (payload : Payload F) : Projection F Unit := do
  required payload [py "claim_id", py "passage_id", py "relation"]
  let claimId ← strOf D <$> item payload (py "claim_id")
  let passageId ← strOf D <$> item payload (py "passage_id")
  let g ← get
  raiseIf ((g.claims.get claimId).isNone = true) (.invariant (.edgeUnknownClaim claimId))
  let passage ← orRaise (g.passages.get passageId) (.invariant (.edgeUnknownPassage passageId))
  let query ← orRaise (g.queries.get passage.queryId) .keyError
  raiseIf (query.claimId ≠ claimId) (.invariant .foreignPassage)
  let value ← item payload (py "relation")
  let relation ← orRaise (EvidenceRelation.ofValue (strOf D value)) (.invariant (.unknownRelation value))
  raiseIf (relation = .supports ∧ query.intent ≠ py "support") (.invariant .supportsOrigin)
  raiseIf (relation ∈ [EvidenceRelation.contradicts, .bounds, .precedentFor] ∧
    query.intent ≠ py "counterevidence") (.invariant (.counterOrigin relation))
  raiseIf (⟨claimId, passageId, relation⟩ ∈ g.edges) (.invariant .duplicateEdge)
  modify fun g => { g with edges := g.edges ++ [⟨claimId, passageId, relation⟩] }

omit [PyFloat F] in
/-- `relation in _relations(claim_id)`. -/
def Graph.hasRelation (g : Graph F) (claimId : PyStr) (relation : EvidenceRelation) : Prop :=
  ∃ edge ∈ g.edges, edge.claimId = claimId ∧ edge.relation = relation

instance (g : Graph F) (claimId : PyStr) (relation : EvidenceRelation) :
    Decidable (g.hasRelation claimId relation) :=
  inferInstanceAs (Decidable (∃ edge ∈ g.edges, edge.claimId = claimId ∧ edge.relation = relation))

/-- `_has_counter_query`. -/
def Graph.hasCounterQuery (g : Graph F) (claimId : PyStr) : Prop :=
  ∃ query ∈ g.queries.values, query.claimId = claimId ∧ query.intent = py "counterevidence"

instance (g : Graph F) (claimId : PyStr) : Decidable (g.hasCounterQuery claimId) :=
  inferInstanceAs (Decidable
    (∃ query ∈ g.queries.values, query.claimId = claimId ∧ query.intent = py "counterevidence"))

/-- An assignment to attributes of the claim under this id. -/
def modifyClaim (claimId : PyStr) (f : Claim → Claim) : Projection F Unit :=
  modify fun g => { g with claims := g.claims.modify claimId f }

/-- `_claim_transitioned`. -/
def claimTransitioned (payload : Payload F) : Projection F Unit := do
  required payload [py "claim_id", py "to_state", py "reason"]
  let claimId ← strOf D <$> item payload (py "claim_id")
  let g ← get
  let claim ← orRaise (g.claims.get claimId) (.invariant (.transitionUnknownClaim claimId))
  let value ← item payload (py "to_state")
  let target ← orRaise (ClaimState.ofValue (strOf D value)) (.invariant (.unknownState value))
  let boundary := (getItem payload (py "boundary")).map (strOf D)
  raiseIf (target ∉ allowedTransitions claim.state)
    (.invariant (.illegalTransition claim.state target))
  raiseIf (target = .supported ∧ ¬g.hasRelation claimId .supports) (.invariant .supportedNeedsEdge)
  raiseIf (target = .challenged ∧ ¬g.hasCounterQuery claimId) (.invariant .challengedNeedsQuery)
  raiseIf (target = .survived ∧ (¬g.hasRelation claimId .supports ∨ ¬g.hasCounterQuery claimId))
    (.invariant .survivedNeedsSupport)
  raiseIf (target = .survived ∧ isBlank (boundary.getD [])) (.invariant .survivedNeedsBoundary)
  raiseIf (target = .narrowed ∧ ¬g.hasRelation claimId .bounds) (.invariant .narrowedNeedsEdge)
  raiseIf (target = .narrowed ∧ isBlank (boundary.getD [])) (.invariant .narrowedNeedsBoundary)
  raiseIf (target = .refuted ∧
    ¬(g.hasRelation claimId .contradicts ∨ g.hasRelation claimId .precedentFor))
    (.invariant .refutedNeedsEdge)
  modifyClaim claimId fun c => { c with state := target }
  let reason ← strOf D <$> item payload (py "reason")
  modifyClaim claimId fun c => { c with reason }
  modifyClaim claimId fun c => { c with boundary := boundary.getD c.boundary }
  modifyClaim claimId fun c => { c with version := c.version + 1 }

/-! ## Projection -/

/-- The table of handlers. -/
def handler (eventType : PyVal F) : Option (Payload F → Projection F Unit) :=
  match eventType with
  | .str t =>
    if t = py "claim.proposed" then some (claimProposed D)
    else if t = py "query.executed" then some (queryExecuted D)
    else if t = py "passage.observed" then some (passageObserved D)
    else if t = py "evidence.linked" then some (evidenceLinked D)
    else if t = py "claim.transitioned" then some (claimTransitioned D)
    else none
  | _ => none

/-- `event_id in self.applied_event_ids`. -/
def Graph.applied (g : Graph F) (eventId : PyVal F) : Bool :=
  g.appliedEventIds.any fun id => pyEq id.val eventId

/-- `self.applied_event_ids.add(event_id)` for an id that is not in the set. -/
def Graph.mark (g : Graph F) (eventId : HashableVal F) : Graph F :=
  { g with appliedEventIds := g.appliedEventIds ++ [eventId] }

/-- The handler of an event on its payload; any other value than a dict has no `get`. -/
def handle (event : EventEnvelope F) : Projection F Unit :=
  match handler D event.eventType with
  | none => pure ()
  | some run =>
    match event.payload with
    | .dict payload => run payload
    | _ => throw .attributeError

/-- `apply`. -/
def apply (event : EventEnvelope F) : Projection F Unit := do
  let eventId ← orRaise (asHashable event.eventId) .typeError
  let g ← get
  if g.applied event.eventId then pure ()
  else
    raiseIf (canHash event.eventType = false) .typeError
    handle D event
    modify fun g => g.mark eventId

/-- The loop of `project`. -/
def applyAll : List (EventEnvelope F) → Projection F Unit
  | [] => pure ()
  | event :: events => do
    apply D event
    applyAll events

/-- What the loop makes of a graph. -/
def projectFrom (g : Graph F) (events : List (EventEnvelope F)) :
    Except (GraphError F) (Graph F) :=
  match applyAll D events g with
  | .ok _ g' => .ok g'
  | .error e _ => .error e

/-- `project`. -/
def project (events : List (EventEnvelope F)) : Except (GraphError F) (Graph F) :=
  projectFrom D emptyGraph events

end Handlers

/-! ## Publication -/

/-- The texts `validate_for_publication` returns. -/
inductive PublicationIssue where
  | noClaims
  | nonTerminal (claimId : PyStr) (state : ClaimState)
  | noBoundary (claimId : PyStr)
  deriving DecidableEq

def Claim.publicationIssues (claim : Claim) : List PublicationIssue :=
  (if claim.state ∉ terminalStates then [.nonTerminal claim.claimId claim.state] else []) ++
    if claim.state ∈ [ClaimState.survived, .narrowed] ∧ claim.boundary = [] then
      [.noBoundary claim.claimId]
    else []

/-- `validate_for_publication`. -/
def Graph.validateForPublication (g : Graph F) : List PublicationIssue :=
  (if g.claims.values = [] then [.noClaims] else []) ++
    g.claims.values.flatMap Claim.publicationIssues

end DecisionGraph
