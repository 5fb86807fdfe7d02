import VeriMat.Events
import VeriMat.KeyedTable
import VeriMat.PyDisplay
import VeriMat.Transaction

/-! # The policy store

`learning/policy_store.py`: strategies, their applications, the delayed outcomes that credit
them, and the outbox every mutation writes a row of, in one SQLite database. A method is one
step; what it reads before its transaction it reads again inside. A text that a statement has
bound, or that a row holds, is encodable wherever it is bound again. -/
namespace PolicyStore

open PyText JsonText PyValue PyDisplay KeyedTable Transaction
open Events (orElse)

inductive StrategyStatus where
  | candidate
  | active
  | suspended
  | retired
  deriving DecidableEq, Repr

def StrategyStatus.value : StrategyStatus → PyStr
  | .candidate => py "CANDIDATE"
  | .active => py "ACTIVE"
  | .suspended => py "SUSPENDED"
  | .retired => py "RETIRED"

/-- `ALLOWED_EVALUATORS`. -/
def allowedEvaluators : List PyStr := [py "known_answer", py "expert_blind", py "temporal_holdout"]

/-- `ALLOWED_KINDS`. -/
def allowedKinds : List PyStr :=
  [py "counter_query_template", py "boundary_probe", py "precedent_probe"]

/-- A `PolicyStoreError`, its subclass `CreditConflict`, or an exception of `sqlite3`. -/
inductive PolicyError where
  | unsupportedKind (kind : PyStr)
  | strategyFieldsRequired
  | unknownStrategy (strategyId : PyStr)
  | retiredStrategy
  | targetFieldsRequired
  | creditSource
  | invalidOutcome
  | evidenceRequired
  | unknownApplication (applicationId : PyStr)
  | invalidThresholds
  | invalidIntervention
  | unknownIntervention
  | unknownEvent (eventId : PyStr)
  | applicationConflict
  | outcomeConflict
  | interventionConflict
  | payloadNotJson (cause : JsonError)
  | jsonDecodeError
  | keyError
  | integrityError
  | unicodeEncodeError
  | overflowError
  deriving DecidableEq, Repr

/-! ## The tables -/

variable {F T : Type}

structure Strategy (T : Type) where
  strategyId : PyStr
  tenantId : PyStr
  strategyKey : PyStr
  kind : PyStr
  pattern : PyStr
  sourceJobId : PyStr
  sourceTaskFamily : PyStr
  status : StrategyStatus
  createdAt : T
  updatedAt : T
  deriving DecidableEq, Repr

structure Application (T : Type) where
  applicationId : PyStr
  strategyId : PyStr
  tenantId : PyStr
  targetJobId : PyStr
  targetTaskFamily : PyStr
  renderedQuerySha256 : PyStr
  idempotencyKey : PyStr
  createdAt : T
  deriving DecidableEq, Repr

structure OutcomeRow (F T : Type) where
  applicationId : PyStr
  evaluatorKind : PyStr
  success : Bool
  falseGapAvoided : Bool
  validFindingDelta : F
  calls : ℤ
  tokens : ℤ
  evidenceRef : PyStr
  recordedAt : T

structure OutboxRow (T : Type) where
  eventId : PyStr
  tenantId : PyStr
  eventType : PyStr
  aggregateType : PyStr
  aggregateId : PyStr
  payload : PyStr
  idempotencyKey : PyStr
  createdAt : T
  dispatchedAt : Option T
  deriving DecidableEq, Repr

structure SequenceIntervention (T : Type) where
  tenantId : PyStr
  runId : PyStr
  methodId : PyStr
  sequenceIndex : ℤ
  challengeId : PyStr
  orderSha256 : PyStr
  memoryMode : PyStr
  strategyIds : PyStr
  createdAt : T
  deriving DecidableEq, Repr

/-- A primary key with a second unique key. -/
abbrev TwoKeys := PyStr × PyStr × PyStr

def twoKeysClash (k k' : TwoKeys) : Prop := k.1 = k'.1 ∨ k.2 = k'.2

instance : DecidableRel twoKeysClash := fun _ _ => inferInstanceAs (Decidable (_ ∨ _))

theorem twoKeysClash_symm (k k' : TwoKeys) (h : twoKeysClash k k') : twoKeysClash k' k :=
  h.imp Eq.symm Eq.symm

def Strategy.key (s : Strategy T) : TwoKeys := (s.strategyId, s.tenantId, s.strategyKey)

def Application.key (a : Application T) : TwoKeys := (a.applicationId, a.tenantId, a.idempotencyKey)

def OutcomeRow.key (o : OutcomeRow F T) : PyStr := o.applicationId

def OutboxRow.key (e : OutboxRow T) : TwoKeys := (e.eventId, e.tenantId, e.idempotencyKey)

/-- The run a bound intervention is of, with its place in it and its challenge. -/
abbrev SequenceKey := (PyStr × PyStr × PyStr) × ℤ × PyStr

def SequenceIntervention.key (i : SequenceIntervention T) : SequenceKey :=
  ((i.tenantId, i.runId, i.methodId), i.sequenceIndex, i.challengeId)

def sequenceClash (k k' : SequenceKey) : Prop := k.1 = k'.1 ∧ (k.2.1 = k'.2.1 ∨ k.2.2 = k'.2.2)

instance : DecidableRel sequenceClash := fun _ _ => inferInstanceAs (Decidable (_ ∧ _))

structure PolicyDatabase (F T : Type) where
  strategies : Table (Strategy.key (T := T)) twoKeysClash
  applications : Table (Application.key (T := T)) twoKeysClash
  outcomes : Table (OutcomeRow.key (F := F) (T := T)) Eq
  policyOutbox : Table (OutboxRow.key (T := T)) twoKeysClash
  sequenceInterventions : Table (SequenceIntervention.key (T := T)) sequenceClash

/-- A migrated database before its first strategy. -/
def PolicyDatabase.empty : PolicyDatabase F T :=
  ⟨KeyedTable.empty, KeyedTable.empty, KeyedTable.empty, KeyedTable.empty, KeyedTable.empty⟩

abbrev PolicyDb (F T α : Type) := EStateM PolicyError (PolicyDatabase F T) α

/-! ## Statements -/

/-- A text parameter. -/
def bindText (s : PyStr) : PolicyDb F T Unit :=
  raiseIf ((encode s).isNone = true) .unicodeEncodeError

/-- An integer parameter. -/
def bindInt (n : ℤ) : PolicyDb F T Unit :=
  raiseIf (¬ (-9223372036854775808 ≤ n ∧ n ≤ 9223372036854775807)) .overflowError

/-- `text.encode()`. -/
def encoded (s : PyStr) : PolicyDb F T PyBytes := orRaise (encode s) .unicodeEncodeError

def Strategy.hasId (strategyId tenantId : PyStr) (s : Strategy T) : Bool :=
  s.strategyId == strategyId && s.tenantId == tenantId

def Strategy.hasKey (tenantId strategyKey : PyStr) (s : Strategy T) : Bool :=
  s.tenantId == tenantId && s.strategyKey == strategyKey

def Application.hasId (applicationId tenantId : PyStr) (a : Application T) : Bool :=
  a.applicationId == applicationId && a.tenantId == tenantId

def Application.hasKey (tenantId idempotencyKey : PyStr) (a : Application T) : Bool :=
  a.tenantId == tenantId && a.idempotencyKey == idempotencyKey

def OutcomeRow.hasId (applicationId : PyStr) (o : OutcomeRow F T) : Bool :=
  o.applicationId == applicationId

def OutboxRow.hasId (tenantId eventId : PyStr) (e : OutboxRow T) : Bool :=
  e.tenantId == tenantId && e.eventId == eventId

def SequenceIntervention.isAt (tenantId runId methodId : PyStr) (sequenceIndex : ℤ)
    (i : SequenceIntervention T) : Bool :=
  i.tenantId == tenantId && i.runId == runId && i.methodId == methodId &&
    i.sequenceIndex == sequenceIndex

def insertStrategy (s : Strategy T) : PolicyDb F T Unit := do
  let db ← get
  let strategies ← orRaise (db.strategies.insert s) .integrityError
  set { db with strategies }

def insertApplication (a : Application T) : PolicyDb F T Unit := do
  let db ← get
  let applications ← orRaise (db.applications.insert a) .integrityError
  set { db with applications }

def insertOutcome (o : OutcomeRow F T) : PolicyDb F T Unit := do
  let db ← get
  let outcomes ← orRaise (db.outcomes.insert o) .integrityError
  set { db with outcomes }

def insertOutbox (e : OutboxRow T) : PolicyDb F T Unit := do
  let db ← get
  let policyOutbox ← orRaise (db.policyOutbox.insert e) .integrityError
  set { db with policyOutbox }

def insertIntervention (i : SequenceIntervention T) : PolicyDb F T Unit := do
  let db ← get
  let sequenceInterventions ← orRaise (db.sequenceInterventions.insert i) .integrityError
  set { db with sequenceInterventions }

/-- A new `uuid4` and the time of a row. -/
structure Stamp (T : Type) where
  uuid : PyStr
  now : T
  deriving DecidableEq, Repr

structure OutboxEvent (F : Type) where
  tenantId : PyStr
  eventType : PyStr
  aggregateType : PyStr
  aggregateId : PyStr
  payload : PyVal F
  idempotencyKey : PyStr

/-- The row of an event, given the text of its payload. -/
def OutboxEvent.row (e : OutboxEvent F) (rendered : PyStr) (stamp : Stamp T) : OutboxRow T where
  eventId := stamp.uuid
  tenantId := e.tenantId
  eventType := e.eventType
  aggregateType := e.aggregateType
  aggregateId := e.aggregateId
  payload := rendered
  idempotencyKey := e.idempotencyKey
  createdAt := stamp.now
  dispatchedAt := none

variable [PyFloat F]

/-- `_enqueue`. -/
def enqueue (e : OutboxEvent F) (stamp : Stamp T) : PolicyDb F T Unit :=
  match dumps e.payload with
  | .error cause => throw (.payloadNotJson cause)
  | .ok rendered => insertOutbox (e.row rendered stamp)

/-! ## The host -/

/-- The digest, `str.lower`, and the float arithmetic of a score: the rounded Wilson bound, the
rounded rate, and the rounded mean that SQLite takes. -/
structure PolicyHost (F : Type) [PyFloat F] where
  sha256 : PyBytes → PyStr
  lower : PyStr → PyStr
  wilsonLower : ℕ → ℕ → F
  successRate : ℕ → ℕ → F
  mean : List ℤ → F
  wilson_finite : ∀ successes trials, (PyFloat.value (wilsonLower successes trials)).isFinite = true

/-- `x <= y` for floats. -/
def floatLe (x y : F) : Bool :=
  match PyFloat.value x, PyFloat.value y with
  | .finite p, .finite q => decide (p ≤ q)
  | .negInf, .finite _ | .negInf, .negInf | .negInf, .inf | .finite _, .inf | .inf, .inf => true
  | _, _ => false

/-- `0 <= x`. -/
def isNonnegative (x : F) : Bool :=
  match PyFloat.value x with
  | .finite q => decide (0 ≤ q)
  | .inf => true
  | _ => false

/-- `x <= 1`. -/
def isAtMostOne (x : F) : Bool :=
  match PyFloat.value x with
  | .finite q => decide (q ≤ 1)
  | .negInf => true
  | _ => false

def isFiniteFloat (x : F) : Bool := (PyFloat.value x).isFinite

/-- One character as `json.dumps` with `ensure_ascii=True` writes it. -/
def asciiChar (c : ℕ) : PyStr :=
  if c < 127 then [c]
  else if c < 0x10000 then [92, 117] ++ hexText 4 c
  else [92, 117] ++ hexText 4 (0xD800 + (c - 0x10000) / 1024) ++
    ([92, 117] ++ hexText 4 (0xDC00 + (c - 0x10000) % 1024))

/-- `json.dumps(value, sort_keys=True, separators=(",", ":"))`, for finite numbers. -/
def asciiDumps (v : PyVal F) : Except JsonError PyStr :=
  (dumps v).map fun rendered => rendered.flatMap asciiChar

/-- The words of `text.split()`, from the one being read on. -/
def splitWords : PyStr → PyStr → List PyStr
  | word, [] => if word = [] then [] else [word]
  | word, c :: text =>
    if isSpace c then (if word = [] then [] else [word]) ++ splitWords [] text
    else splitWords (word ++ [c]) text

/-- `" ".join(text.split())`. -/
def joinWords (text : PyStr) : PyStr := List.intercalate [32] (splitWords [] text)

def textItem (key : String) (value : PyStr) : PyKey F × PyVal F := (.str (py key), .str value)

section Methods
variable (H : PolicyHost F)

/-- `_strategy_key`. -/
def strategyKey (kind pattern : PyStr) : PolicyDb F T PyStr :=
  H.sha256 <$> encoded (kind ++ [124] ++ joinWords (H.lower pattern))

/-! ## Strategies and applications -/

structure Proposal where
  tenantId : PyStr
  kind : PyStr
  pattern : PyStr
  sourceJobId : PyStr
  sourceTaskFamily : PyStr
  strategyId : Option PyStr
  deriving DecidableEq, Repr

/-- The row of a new strategy. -/
def Proposal.row (a : Proposal) (identifier key : PyStr) (now : T) : Strategy T where
  strategyId := identifier
  tenantId := a.tenantId
  strategyKey := key
  kind := a.kind
  pattern := a.pattern
  sourceJobId := a.sourceJobId
  sourceTaskFamily := a.sourceTaskFamily
  status := .candidate
  createdAt := now
  updatedAt := now

def Proposal.event (a : Proposal) (identifier : PyStr) (pattern : PyBytes) : OutboxEvent F where
  tenantId := a.tenantId
  eventType := py "policy.strategy_proposed"
  aggregateType := py "strategy"
  aggregateId := identifier
  payload := .dict [textItem "strategy_id" identifier, textItem "kind" a.kind,
    textItem "pattern_sha256" (H.sha256 pattern), textItem "source_job_id" a.sourceJobId,
    textItem "source_task_family" a.sourceTaskFamily]
  idempotencyKey := py "strategy:" ++ identifier ++ py ":proposed"

/-- `propose_strategy`. -/
def proposeStrategy (a : Proposal) (uuid : PyStr) (now : T) (stamp : Stamp T) :
    PolicyDb F T PyStr := do
  raiseIf (a.kind ∉ allowedKinds) (.unsupportedKind a.kind)
  raiseIf (isBlank a.tenantId ∨ isBlank a.pattern ∨ isBlank a.sourceJobId ∨
    isBlank a.sourceTaskFamily) .strategyFieldsRequired
  let key ← strategyKey H a.kind a.pattern
  let identifier := orElse a.strategyId uuid
  immediate do
    bindText a.tenantId
    let db ← get
    match db.strategies.find (Strategy.hasKey a.tenantId key) with
    | some existing => return existing.strategyId
    | none =>
      bindText identifier
      bindText a.sourceJobId
      bindText a.sourceTaskFamily
      let pattern ← encoded a.pattern
      insertStrategy (a.row identifier key now)
      enqueue (a.event H identifier pattern) stamp
      return identifier

structure ApplicationCall where
  tenantId : PyStr
  strategyId : PyStr
  targetJobId : PyStr
  targetTaskFamily : PyStr
  renderedQuery : PyStr
  idempotencyKey : PyStr
  applicationId : Option PyStr
  deriving DecidableEq, Repr

/-- `SELECT * FROM strategies WHERE strategy_id=? AND tenant_id=?`, for a strategy to apply. -/
def applicableStrategy (strategyId tenantId : PyStr) : PolicyDb F T (Strategy T) := do
  bindText strategyId
  bindText tenantId
  let db ← get
  let strategy ← orRaise (db.strategies.find (Strategy.hasId strategyId tenantId))
    (.unknownStrategy strategyId)
  raiseIf (strategy.status = .retired) .retiredStrategy
  return strategy

/-- A recorded application has the same semantics. -/
def ApplicationCall.same (a : ApplicationCall) (queryHash : PyStr) (r : Application T) : Prop :=
  r.strategyId = a.strategyId ∧ r.targetJobId = a.targetJobId ∧
    r.targetTaskFamily = a.targetTaskFamily ∧ r.renderedQuerySha256 = queryHash

instance (a : ApplicationCall) (queryHash : PyStr) (r : Application T) :
    Decidable (a.same queryHash r) :=
  inferInstanceAs (Decidable (_ ∧ _))

def ApplicationCall.row (a : ApplicationCall) (identifier queryHash : PyStr) (now : T) :
    Application T :=
  ⟨identifier, a.strategyId, a.tenantId, a.targetJobId, a.targetTaskFamily, queryHash,
    a.idempotencyKey, now⟩

def ApplicationCall.event (a : ApplicationCall) (identifier queryHash : PyStr) : OutboxEvent F where
  tenantId := a.tenantId
  eventType := py "policy.strategy_applied"
  aggregateType := py "strategy"
  aggregateId := a.strategyId
  payload := .dict [textItem "strategy_id" a.strategyId, textItem "application_id" identifier,
    textItem "target_job_id" a.targetJobId, textItem "target_task_family" a.targetTaskFamily,
    textItem "rendered_query_sha256" queryHash]
  idempotencyKey := py "application:" ++ identifier ++ py ":recorded"

/-- `record_application`. -/
def recordApplication (a : ApplicationCall) (uuid : PyStr) (now : T) (stamp : Stamp T) :
    PolicyDb F T PyStr := do
  let _ ← applicableStrategy a.strategyId a.tenantId
  raiseIf (isBlank a.targetJobId ∨ isBlank a.targetTaskFamily ∨ isBlank a.renderedQuery)
    .targetFieldsRequired
  let query ← encoded a.renderedQuery
  let identifier := orElse a.applicationId uuid
  immediate do
    let _ ← applicableStrategy a.strategyId a.tenantId
    bindText a.idempotencyKey
    let db ← get
    match db.applications.find (Application.hasKey a.tenantId a.idempotencyKey) with
    | some existing =>
      raiseIf (¬ a.same (H.sha256 query) existing) .applicationConflict
      return existing.applicationId
    | none =>
      bindText identifier
      bindText a.targetJobId
      bindText a.targetTaskFamily
      insertApplication (a.row identifier (H.sha256 query) now)
      enqueue (a.event identifier (H.sha256 query)) stamp
      return identifier

/-! ## Outcomes -/

structure OutcomeCall (F : Type) where
  tenantId : PyStr
  applicationId : PyStr
  evaluatorKind : PyStr
  success : Bool
  falseGapAvoided : Bool
  validFindingDelta : F
  calls : ℤ
  tokens : ℤ
  evidenceRef : PyStr

/-- `SELECT * FROM applications WHERE application_id=? AND tenant_id=?`. -/
def knownApplication (applicationId tenantId : PyStr) : PolicyDb F T (Application T) := do
  bindText applicationId
  bindText tenantId
  let db ← get
  orRaise (db.applications.find (Application.hasId applicationId tenantId))
    (.unknownApplication applicationId)

/-- `current == semantic`. -/
def OutcomeCall.same (a : OutcomeCall F) (o : OutcomeRow F T) : Prop :=
  o.evaluatorKind = a.evaluatorKind ∧ o.success = a.success ∧
    o.falseGapAvoided = a.falseGapAvoided ∧
    pyEq (.float o.validFindingDelta) (.float a.validFindingDelta) = true ∧
    o.calls = a.calls ∧ o.tokens = a.tokens ∧ o.evidenceRef = a.evidenceRef

instance (a : OutcomeCall F) (o : OutcomeRow F T) : Decidable (a.same o) :=
  inferInstanceAs (Decidable (_ ∧ _))

omit [PyFloat F] in
def OutcomeCall.row (a : OutcomeCall F) (now : T) : OutcomeRow F T :=
  ⟨a.applicationId, a.evaluatorKind, a.success, a.falseGapAvoided, a.validFindingDelta, a.calls,
    a.tokens, a.evidenceRef, now⟩

def OutcomeCall.event (a : OutcomeCall F) (application : Application T) (evidence : PyBytes) :
    OutboxEvent F where
  tenantId := a.tenantId
  eventType := py "policy.outcome_credited"
  aggregateType := py "strategy"
  aggregateId := application.strategyId
  payload := .dict [textItem "strategy_id" application.strategyId,
    textItem "application_id" a.applicationId, textItem "target_job_id" application.targetJobId,
    textItem "evaluator_kind" a.evaluatorKind, (.str (py "success"), .bool a.success),
    (.str (py "false_gap_avoided"), .bool a.falseGapAvoided),
    (.str (py "valid_finding_delta"), .float a.validFindingDelta),
    (.str (py "calls"), .int a.calls), (.str (py "tokens"), .int a.tokens),
    textItem "evidence_ref_sha256" (H.sha256 evidence)]
  idempotencyKey := py "application:" ++ a.applicationId ++ py ":outcome"

/-- `record_outcome`. -/
def recordOutcome (a : OutcomeCall F) (now : T) (stamp : Stamp T) : PolicyDb F T Unit := do
  raiseIf (a.evaluatorKind ∉ allowedEvaluators) .creditSource
  raiseIf (min a.calls a.tokens < 0 ∨ isFiniteFloat a.validFindingDelta = false) .invalidOutcome
  raiseIf (isBlank a.evidenceRef) .evidenceRequired
  let _ ← knownApplication a.applicationId a.tenantId
  immediate do
    let application ← knownApplication a.applicationId a.tenantId
    let db ← get
    match db.outcomes.find (OutcomeRow.hasId a.applicationId) with
    | some existing => raiseIf (¬ a.same existing) .outcomeConflict
    | none =>
      bindInt a.calls
      bindInt a.tokens
      let evidence ← encoded a.evidenceRef
      insertOutcome (a.row now)
      enqueue (a.event H application evidence) stamp

/-- `application_has_outcome`. -/
def applicationHasOutcome (tenantId applicationId : PyStr) : PolicyDb F T Bool := do
  bindText tenantId
  bindText applicationId
  let db ← get
  return (db.outcomes.find (OutcomeRow.hasId applicationId)).isSome &&
    (db.applications.find (Application.hasId applicationId tenantId)).isSome

/-! ## Scores -/

structure StrategyScore (F : Type) where
  strategyId : PyStr
  kind : PyStr
  pattern : PyStr
  status : StrategyStatus
  evaluations : ℕ
  successes : ℕ
  successRate : F
  wilsonLower : F
  meanCalls : F
  meanTokens : F

omit [PyFloat F] in
/-- The outcomes that credit a strategy: of its applications to other task families. -/
def PolicyDatabase.credit (db : PolicyDatabase F T) (s : Strategy T) : List (OutcomeRow F T) :=
  (db.applications.rows.filter fun a =>
    a.strategyId == s.strategyId && a.targetTaskFamily != s.sourceTaskFamily).filterMap fun a =>
      db.outcomes.find (OutcomeRow.hasId a.applicationId)

/-- One row of the query of `_score_rows`. -/
def PolicyDatabase.score (db : PolicyDatabase F T) (s : Strategy T) : StrategyScore F where
  strategyId := s.strategyId
  kind := s.kind
  pattern := s.pattern
  status := s.status
  evaluations := (db.credit s).length
  successes := (db.credit s).countP (·.success)
  successRate := H.successRate ((db.credit s).countP (·.success)) (db.credit s).length
  wilsonLower := H.wilsonLower ((db.credit s).countP (·.success)) (db.credit s).length
  meanCalls := H.mean ((db.credit s).map (·.calls))
  meanTokens := H.mean ((db.credit s).map (·.tokens))

def strategyOrder (a b : Strategy T) : Prop := a.strategyId ≤ b.strategyId

instance : DecidableRel (strategyOrder (T := T)) := fun a b =>
  inferInstanceAs (Decidable (a.strategyId ≤ b.strategyId))

omit [PyFloat F] in
/-- The strategies of a tenant, `ORDER BY strategy_id`. -/
def PolicyDatabase.ofTenant (db : PolicyDatabase F T) (tenantId : PyStr) : List (Strategy T) :=
  (db.strategies.rows.filter (·.tenantId == tenantId)).insertionSort strategyOrder

/-- `_score_rows`. -/
def scoreRows (tenantId : PyStr) : PolicyDb F T (List (StrategyScore F)) := do
  bindText tenantId
  let db ← get
  return (db.ofTenant tenantId).map (db.score H)

/-! ## Status refreshes -/

structure Thresholds (F : Type) where
  minEvaluations : ℤ
  activationLowerBound : F
  suspensionLowerBound : F

/-- The check of `refresh_statuses`. -/
def Thresholds.Valid (θ : Thresholds F) : Prop :=
  1 ≤ θ.minEvaluations ∧ isNonnegative θ.suspensionLowerBound = true ∧
    floatLe θ.suspensionLowerBound θ.activationLowerBound = true ∧
    isAtMostOne θ.activationLowerBound = true

instance (θ : Thresholds F) : Decidable θ.Valid := inferInstanceAs (Decidable (_ ∧ _))

/-- The status the counts of a score call for. -/
def Thresholds.target (θ : Thresholds F) (score : StrategyScore F) : StrategyStatus :=
  if (score.evaluations : ℤ) < θ.minEvaluations then .candidate
  else if floatLe θ.activationLowerBound score.wilsonLower then .active
  else if floatLe θ.suspensionLowerBound score.wilsonLower = false then .suspended
  else .candidate

def StrategyScore.transition (score : StrategyScore F) (target : StrategyStatus) : PyVal F :=
  .dict [textItem "strategy_id" score.strategyId, textItem "from_status" score.status.value,
    textItem "to_status" target.value, (.str (py "evaluations"), .int score.evaluations),
    (.str (py "successes"), .int score.successes),
    (.str (py "wilson_lower"), .float score.wilsonLower)]

def StrategyScore.event (score : StrategyScore F) (tenantId : PyStr) (target : StrategyStatus)
    (transitionHash : PyStr) : OutboxEvent F where
  tenantId := tenantId
  eventType := py "policy.status_changed"
  aggregateType := py "strategy"
  aggregateId := score.strategyId
  payload := score.transition target
  idempotencyKey := py "strategy:" ++ score.strategyId ++ py ":transition:" ++ transitionHash

/-- The row with another status. -/
def Strategy.withStatus (s : Strategy T) (status : StrategyStatus) (now : T) : Strategy T :=
  { s with status, updatedAt := now }

theorem Strategy.withStatus_key (status : StrategyStatus) (now : T) (s : Strategy T) :
    (s.withStatus status now).key = s.key := rfl

omit [PyFloat F] in
/-- `UPDATE strategies SET status=?,updated_at=? WHERE strategy_id=? AND tenant_id=?`. -/
def PolicyDatabase.setStatus (db : PolicyDatabase F T) (tenantId strategyId : PyStr)
    (status : StrategyStatus) (now : T) : PolicyDatabase F T :=
  { db with
    strategies := db.strategies.update (Strategy.hasId strategyId tenantId)
      (·.withStatus status now) (Strategy.withStatus_key status now) }

/-- A score whose strategy `refresh_statuses` moves. -/
def Thresholds.moves (θ : Thresholds F) (score : StrategyScore F) : Bool :=
  score.status != .retired && θ.target score != score.status

/-- The loop body of `refresh_statuses` for a strategy that it moves. -/
def changeStatus (tenantId : PyStr) (θ : Thresholds F) (score : StrategyScore F) (now : T)
    (stamp : Stamp T) : PolicyDb F T Unit := do
  modify fun db => db.setStatus tenantId score.strategyId (θ.target score) now
  match asciiDumps (score.transition (θ.target score)) with
  | .error cause => throw (.payloadNotJson cause)
  | .ok text =>
    let bytes ← encoded text
    enqueue (score.event tenantId (θ.target score) (H.sha256 bytes)) stamp

/-- The loop of `refresh_statuses`; the `i`-th row it writes gets the `i`-th stamp. -/
def changeStatuses (tenantId : PyStr) (θ : Thresholds F) (now : T) (stamp : ℕ → Stamp T) :
    List (StrategyScore F) → ℕ → PolicyDb F T Unit
  | [], _ => pure ()
  | score :: scores, i =>
    if θ.moves score then do
      changeStatus H tenantId θ score now (stamp i)
      changeStatuses tenantId θ now stamp scores (i + 1)
    else changeStatuses tenantId θ now stamp scores i

/-- `refresh_statuses`. -/
def refreshStatuses (tenantId : PyStr) (θ : Thresholds F) (now : T) (stamp : ℕ → Stamp T) :
    PolicyDb F T (List (StrategyScore F)) := do
  raiseIf (¬ θ.Valid) .invalidThresholds
  immediate do
    let scores ← scoreRows H tenantId
    changeStatuses H tenantId θ now stamp scores 0
  scoreRows H tenantId

/-! ## Ordered interventions -/

/-- `{score.strategy_id: score for score in scores}[strategy_id]` for every id. -/
def scoresOf (scores : List (StrategyScore F)) (strategyIds : List PyStr) :
    PolicyDb F T (List (StrategyScore F)) :=
  strategyIds.mapM fun strategyId =>
    orRaise (scores.find? (·.strategyId == strategyId)) .keyError

structure Binding where
  tenantId : PyStr
  runId : PyStr
  methodId : PyStr
  sequenceIndex : ℤ
  challengeId : PyStr
  orderSha256 : PyStr
  memoryMode : PyStr
  strategyIds : List PyStr
  deriving DecidableEq, Repr

/-- The first check of `bind_sequence_intervention`. -/
def Binding.Valid (a : Binding) : Prop :=
  (∀ value ∈ [a.tenantId, a.runId, a.methodId, a.challengeId, a.orderSha256, a.memoryMode],
    isBlank value = false) ∧ 0 ≤ a.sequenceIndex ∧ a.orderSha256.length = 64 ∧ a.strategyIds.Nodup

instance (a : Binding) : Decidable a.Valid := inferInstanceAs (Decidable (_ ∧ _))

/-- A bound intervention has the same semantics. -/
def Binding.same (a : Binding) (rendered : PyStr) (i : SequenceIntervention T) : Prop :=
  i.challengeId = a.challengeId ∧ i.orderSha256 = a.orderSha256 ∧ i.memoryMode = a.memoryMode ∧
    i.strategyIds = rendered

instance (a : Binding) (rendered : PyStr) (i : SequenceIntervention T) :
    Decidable (a.same rendered i) :=
  inferInstanceAs (Decidable (_ ∧ _))

def Binding.row (a : Binding) (rendered : PyStr) (now : T) : SequenceIntervention T :=
  ⟨a.tenantId, a.runId, a.methodId, a.sequenceIndex, a.challengeId, a.orderSha256, a.memoryMode,
    rendered, now⟩

def Binding.event (a : Binding) : OutboxEvent F where
  tenantId := a.tenantId
  eventType := py "policy.sequence_intervention_bound"
  aggregateType := py "policy_sequence"
  aggregateId := a.runId ++ py ":" ++ a.methodId
  payload := .dict [textItem "run_id" a.runId, textItem "method_id" a.methodId,
    (.str (py "sequence_index"), .int a.sequenceIndex), textItem "challenge_id" a.challengeId,
    textItem "order_sha256" a.orderSha256, textItem "memory_mode" a.memoryMode,
    (.str (py "strategy_ids"), .list (a.strategyIds.map .str))]
  idempotencyKey := py "sequence:" ++ a.runId ++ py ":" ++ a.methodId ++ py ":" ++
    intText a.sequenceIndex ++ py ":bound"

/-- The transaction of `bind_sequence_intervention`. -/
def bindIntervention (a : Binding) (rendered : PyStr) (now : T) (stamp : Stamp T) :
    PolicyDb F T Unit := do
  bindText a.runId
  bindText a.methodId
  bindInt a.sequenceIndex
  let db ← get
  match db.sequenceInterventions.find
    (SequenceIntervention.isAt a.tenantId a.runId a.methodId a.sequenceIndex) with
  | some existing => raiseIf (¬ a.same rendered existing) .interventionConflict
  | none =>
    bindText a.challengeId
    bindText a.orderSha256
    bindText a.memoryMode
    insertIntervention (a.row rendered now)
    enqueue (a.event : OutboxEvent F) stamp

/-- `bind_sequence_intervention`. -/
def bindSequenceIntervention (a : Binding) (now : T) (stamp : Stamp T) :
    PolicyDb F T (List (StrategyScore F)) := do
  raiseIf (¬ a.Valid) .invalidIntervention
  bindText a.tenantId
  a.strategyIds.forM bindText
  let db ← get
  raiseIf (¬ ∀ strategyId ∈ a.strategyIds,
    (db.strategies.find (Strategy.hasId strategyId a.tenantId)).isSome) .unknownIntervention
  match asciiDumps (.list (a.strategyIds.map .str) : PyVal F) with
  | .error cause => throw (.payloadNotJson cause)
  | .ok rendered =>
    immediate (bindIntervention a rendered now stamp)
    let scores ← scoreRows H a.tenantId
    scoresOf scores a.strategyIds

/-! ## The outbox -/

/-- The row with a dispatch time, unless it has one. -/
def OutboxRow.dispatched (now : T) (e : OutboxRow T) : OutboxRow T :=
  { e with dispatchedAt := some (e.dispatchedAt.getD now) }

theorem OutboxRow.dispatched_key (now : T) (e : OutboxRow T) : (e.dispatched now).key = e.key := rfl

/-- An outbox row as it is handed out. -/
structure PolicyEvent (F T : Type) where
  eventId : PyStr
  tenantId : PyStr
  eventType : PyStr
  aggregateType : PyStr
  aggregateId : PyStr
  payload : PyVal F
  idempotencyKey : PyStr
  createdAt : T

/-- The event of a row, unless its payload is no JSON. -/
def OutboxRow.event (e : OutboxRow T) : Option (PolicyEvent F T) :=
  (loads e.payload).map fun payload =>
    ⟨e.eventId, e.tenantId, e.eventType, e.aggregateType, e.aggregateId, ofJson payload,
      e.idempotencyKey, e.createdAt⟩

def OutboxRow.isPending (tenantId : PyStr) (e : OutboxRow T) : Bool :=
  e.tenantId == tenantId && e.dispatchedAt.isNone

section Pending
variable [LinearOrder T]

/-- `ORDER BY created_at,event_id`. -/
def outboxOrder (a b : OutboxRow T) : Prop :=
  a.createdAt < b.createdAt ∨ a.createdAt = b.createdAt ∧ a.eventId ≤ b.eventId

instance : DecidableRel (outboxOrder (T := T)) := fun a b =>
  inferInstanceAs (Decidable (a.createdAt < b.createdAt ∨ a.createdAt = b.createdAt ∧
    a.eventId ≤ b.eventId))

omit [PyFloat F] in
/-- The undispatched rows of a tenant, in that order. -/
def PolicyDatabase.pending (db : PolicyDatabase F T) (tenantId : PyStr) : List (OutboxRow T) :=
  (db.policyOutbox.rows.filter (OutboxRow.isPending tenantId)).insertionSort outboxOrder

/-- The query of `pending_events`, and its rows as events. -/
def queryPending (tenantId : PyStr) (limit : ℤ) : PolicyDb F T (List (PolicyEvent F T)) := do
  bindText tenantId
  bindInt limit
  let db ← get
  ((db.pending tenantId).take limit.toNat).mapM fun e => orRaise e.event .jsonDecodeError

/-- `pending_events`. -/
def pendingEvents (tenantId : PyStr) (limit : ℤ) : PolicyDb F T (List (PolicyEvent F T)) :=
  if limit < 1 then pure [] else queryPending tenantId limit

end Pending

/-- `mark_dispatched`. -/
def markDispatched (tenantId eventId : PyStr) (now : T) : PolicyDb F T Unit := do
  bindText tenantId
  bindText eventId
  let db ← get
  set { db with
    policyOutbox := db.policyOutbox.update (OutboxRow.hasId tenantId eventId) (·.dispatched now)
      (OutboxRow.dispatched_key now) }
  raiseIf ((db.policyOutbox.find (OutboxRow.hasId tenantId eventId)).isNone = true)
    (.unknownEvent eventId)

/-! ## Histories -/

/-- A call that changes strategies, applications or outcomes. -/
inductive Call (F T : Type) where
  | proposeStrategy (a : Proposal) (uuid : PyStr) (now : T) (stamp : Stamp T)
  | recordApplication (a : ApplicationCall) (uuid : PyStr) (now : T) (stamp : Stamp T)
  | recordOutcome (a : OutcomeCall F) (now : T) (stamp : Stamp T)
  | refreshStatuses (tenantId : PyStr) (θ : Thresholds F) (now : T) (stamp : ℕ → Stamp T)

/-- The method a call is of, its result dropped. -/
def Call.run : Call F T → PolicyDb F T Unit
  | .proposeStrategy a uuid now stamp => do let _ ← PolicyStore.proposeStrategy H a uuid now stamp
  | .recordApplication a uuid now stamp => do
    let _ ← PolicyStore.recordApplication H a uuid now stamp
  | .recordOutcome a now stamp => PolicyStore.recordOutcome H a now stamp
  | .refreshStatuses tenantId θ now stamp => do
    let _ ← PolicyStore.refreshStatuses H tenantId θ now stamp

/-- What a call leaves, whether it returned or raised. -/
def Call.after (c : Call F T) (db : PolicyDatabase F T) : PolicyDatabase F T :=
  (ran (c.run H) db).2

/-- The store after a sequence of calls. -/
def history (db : PolicyDatabase F T) (calls : List (Call F T)) : PolicyDatabase F T :=
  calls.foldl (fun db c => c.after H db) db

end Methods

end PolicyStore
