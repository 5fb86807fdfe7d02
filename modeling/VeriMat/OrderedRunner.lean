import VeriMat.PolicyAudit
import VeriMat.PolicyRecall
import VeriMat.PosixPath

/-! # Ordered runs with a memory

`evaluation/ordered_runner.py`: any number of ordered runs over one policy store and one policy
ledger, each of them able to crash and to be started again. A method of the store is one
operation; the execution of a task, its artifacts, its ledger and the external evaluator are
operations of which only the replies are modelled, and a journal keeps which tasks were executed
with which strategies and what the evaluator was asked. -/
namespace OrderedRunner

open PyText JsonText PyValue AtomicProgram RelyGuarantee Transaction
open PolicyStore PolicyCredit PolicyAudit PolicyRecall

variable {F T : Type} [PyFloat F]

/-! ## What is run -/

inductive MemoryMode where
  | none
  | uncreditedReplay
  | delayedExternalCredit
  deriving DecidableEq, Repr

def MemoryMode.value : MemoryMode → PyStr
  | .none => py "none"
  | .uncreditedReplay => py "uncredited_replay"
  | .delayedExternalCredit => py "delayed_external_credit"

/-- The fields of a `MethodSpec` that the ordered runner reads. -/
structure MethodSpec where
  methodId : PyStr
  externalCounterRetrieval : Bool
  cedg : Bool
  memory : MemoryMode
  deriving DecidableEq, Repr

/-- The fields of a `BlindTask` that the ordered runner reads. -/
structure BlindTask where
  challengeId : PyStr
  taskFamily : PyStr
  deriving DecidableEq, Repr

structure CreditOutcome (F : Type) where
  evaluatorKind : PyStr
  success : Bool
  falseGapAvoided : Bool
  validFindingDelta : F
  evidenceRef : PyStr

/-- The fields of a prediction that the ordered runner reads or sets. -/
structure Prediction where
  completed : Bool
  calls : ℤ
  tokens : ℤ
  ledgerRelpath : PyStr
  ledgerHead : PyStr
  ledgerEventCount : ℤ
  deriving DecidableEq, Repr

/-- A strategy that a task's decision proposes. -/
structure StrategyCandidate where
  kind : PyStr
  pattern : PyStr
  deriving DecidableEq, Repr

/-- A runner and a call of its `run`; a task is absent where `BlindTask.from_dict` raises. -/
structure OrderedCall (F : Type) where
  tenantId : PyStr
  explorationPeriod : ℤ
  positive : 1 ≤ explorationPeriod
  tasks : List (Option BlindTask)
  method : MethodSpec
  runId : PyStr
  evaluated : Bool
  thresholds : Thresholds F
  flushRounds : ℕ

/-- The place of a task in an ordered run. -/
structure Place where
  tenantId : PyStr
  runId : PyStr
  methodId : PyStr
  sequenceIndex : ℤ
  deriving DecidableEq, Repr

/-- An execution of a task with the strategies it is injected with. -/
structure TaskCall (F : Type) where
  place : Place
  challengeId : PyStr
  strategies : List (StrategyScore F)

def TaskCall.strategyIds (a : TaskCall F) : List PyStr := a.strategies.map (·.strategyId)

/-! ## Exceptions -/

/-- What the text of a `BaselineContractError` says. -/
inductive OrderedIssue where
  | memoryTreatmentRequired
  | counterRetrievalRequired
  | evaluatorMismatch
  | runIdAndTasksRequired
  | invalidTask
  | duplicateChallenges
  | ledgerPath
  | multipleAuditLinks
  | taskLedger
  deriving DecidableEq, Repr

/-- An exception of the runner, of the store, of a flush, of the digest of the order, or of what
is not modelled; the last one stands for a flush that is still going on. -/
inductive OrderedError (F : Type) where
  | contract (issue : OrderedIssue)
  | store (e : PolicyError)
  | flush (e : FlushError F)
  | order (cause : Option JsonError)
  | raised
  | flushing

/-! ## Operations -/

inductive OrderedOp (F : Type) where
  | sequenceIntervention (p : Place)
  | recallUncredited (tenantId targetTaskFamily : PyStr) (limit : ℤ)
  | recallActive (tenantId targetTaskFamily : PyStr) (limit : ℤ)
  | recallCandidate (tenantId targetTaskFamily : PyStr)
  | bind (a : Binding)
  | runTask (a : TaskCall F)
  | counterQueries (tenantId jobId : PyStr)
  | recordApplication (a : ApplicationCall)
  | applicationHasOutcome (tenantId applicationId : PyStr)
  | evaluate (a : TaskCall F) (prediction : Prediction)
  | recordOutcome (a : OutcomeCall F)
  | refreshStatuses (tenantId : PyStr) (θ : Thresholds F)
  | strategyCandidates (tenantId jobId : PyStr)
  | proposeStrategy (a : Proposal)
  | flush (o : FlushOp F)
  | auditLinks (ledgerRelpath : PyStr)
  | linkAudit (ledgerRelpath jobId challengeId : PyStr) (report : PolicyFlushReport)
  | verifyTask (ledgerRelpath : PyStr)

/-- What `verify` says of a task's ledger. -/
structure TaskReceipt where
  ok : Bool
  headHash : PyStr
  eventCount : ℤ
  deriving DecidableEq, Repr

/-- What an operation returns. -/
abbrev OrderedOp.Result (T : Type) : OrderedOp F → Type
  | .sequenceIntervention _ => Option (List (StrategyScore F))
  | .recallUncredited .. => List (StrategyScore F)
  | .recallActive .. => List (StrategyScore F)
  | .recallCandidate .. => Option (StrategyScore F)
  | .bind _ => List (StrategyScore F)
  | .runTask _ => Prediction
  | .counterQueries .. => Option (List PyStr)
  | .recordApplication _ => PyStr
  | .applicationHasOutcome .. => Bool
  | .evaluate .. => CreditOutcome F
  | .recordOutcome _ => Unit
  | .refreshStatuses .. => List (StrategyScore F)
  | .strategyCandidates .. => Option (List StrategyCandidate)
  | .proposeStrategy _ => PyStr
  | .flush o => FlushReply F T o
  | .auditLinks _ => ℕ
  | .linkAudit .. => Unit
  | .verifyTask _ => TaskReceipt

abbrev OrderedReply (F T : Type) (o : OrderedOp F) : Type := Except (OrderedError F) (o.Result T)

abbrev OrderedProgram (F T α : Type) : Type :=
  Fallible (OrderedOp F) (OrderedReply F T) (OrderedError F) α

def act (o : OrderedOp F) : OrderedProgram F T (o.Result T) := ask o

/-- The reply to an operation of a flush. -/
def flushReply (o : FlushOp F) : OrderedReply F T (.flush o) → FlushReply F T o
  | .ok r => r
  | .error _ => .error .killed

/-- `PolicyAuditBridge(audit_job_id=f"policy:{run_id}").flush`. -/
def flushPolicy (c : OrderedCall F) : OrderedProgram F T (Option PolicyFlushReport) :=
  ExceptT.mk (((flush c.tenantId ⟨py "policy:" ++ c.runId, 100, c.flushRounds⟩).run.embed .flush
    flushReply).bind fun r => .done (r.mapError .flush))

/-! ## A task -/

/-- `MEMORY_MARKER`. -/
def memoryMarker : PyStr := py "[RECALLED_FALSIFICATION_STRATEGY]"

def OrderedCall.place (c : OrderedCall F) (sequenceIndex : ℤ) : Place :=
  ⟨c.tenantId, c.runId, c.method.methodId, sequenceIndex⟩

/-- `_select`. -/
def select (c : OrderedCall F) (task : BlindTask) (sequenceIndex : ℤ) :
    OrderedProgram F T (List (StrategyScore F)) :=
  if c.method.memory = .uncreditedReplay then
    act (.recallUncredited c.tenantId task.taskFamily 2)
  else do
    let active : List (StrategyScore F) ← act (.recallActive c.tenantId task.taskFamily 1)
    let candidate : Option (StrategyScore F) ← act (.recallCandidate c.tenantId task.taskFamily)
    match candidate with
    | none => pure (active.take 1)
    | some score =>
      if active.isEmpty = true ∨ sequenceIndex % c.explorationPeriod = 0 then pure [score]
      else pure (active.take 1)

/-- `persisted if persisted is not None else self._select(..)`. -/
def propose (c : OrderedCall F) (task : BlindTask) (sequenceIndex : ℤ) :
    OrderedProgram F T (List (StrategyScore F)) := do
  let persisted : Option (List (StrategyScore F)) ←
    act (.sequenceIntervention (c.place sequenceIndex))
  match persisted with
  | some proposed => pure proposed
  | none => select c task sequenceIndex

def OrderedCall.binding (c : OrderedCall F) (task : BlindTask) (sequenceIndex : ℤ)
    (orderSha256 : PyStr) (proposed : List (StrategyScore F)) : Binding where
  tenantId := c.tenantId
  runId := c.runId
  methodId := c.method.methodId
  sequenceIndex := sequenceIndex
  challengeId := task.challengeId
  orderSha256 := orderSha256
  memoryMode := c.method.memory.value
  strategyIds := proposed.map (·.strategyId)

/-- `_job_id`. -/
def jobIdOf (ledgerRelpath : PyStr) : Option PyStr :=
  let path := PosixPath.parse ledgerRelpath
  match (if path.absolute then [[47]] else []) ++ path.parts with
  | [_, jobId, name] => if name = py "events.jsonl" then some jobId else none
  | _ => none

/-- The strategies reached the counter queries of the plan. -/
def isApplied (selected : List (StrategyScore F)) (counterQueries : Option (List PyStr)) : Bool :=
  !selected.isEmpty && (counterQueries.getD []).any fun query => decide (memoryMarker <:+: query)

/-- The idempotency key of an application. -/
def applicationKey (p : Place) (strategyId : PyStr) : PyStr :=
  p.runId ++ py ":" ++ p.methodId ++ py ":" ++ intText p.sequenceIndex ++ py ":" ++ strategyId ++
    py ":application"

def applicationCall (p : Place) (jobId family renderedQuery strategyId : PyStr) :
    ApplicationCall where
  tenantId := p.tenantId
  strategyId := strategyId
  targetJobId := jobId
  targetTaskFamily := family
  renderedQuery := renderedQuery
  idempotencyKey := applicationKey p strategyId
  applicationId := none

/-- `for strategy in selected`. -/
def recordApplications (p : Place) (jobId family renderedQuery : PyStr) :
    List (StrategyScore F) → OrderedProgram F T (List PyStr)
  | [] => pure []
  | strategy :: selected => do
    let applicationId : PyStr ←
      act (.recordApplication (applicationCall p jobId family renderedQuery strategy.strategyId))
    let applications ← recordApplications p jobId family renderedQuery selected
    pure (applicationId :: applications)

/-- `if applied`. -/
def applySelected (p : Place) (jobId family : PyStr) (selected : List (StrategyScore F))
    (counterQueries : Option (List PyStr)) : OrderedProgram F T (List PyStr) :=
  if isApplied selected counterQueries then
    recordApplications p jobId family (List.intercalate [10, 10] (counterQueries.getD [])) selected
  else pure []

/-- The applications without an outcome. -/
def pendingApplications (tenantId : PyStr) : List PyStr → OrderedProgram F T (List PyStr)
  | [] => pure []
  | applicationId :: applications => do
    let done : Bool ← act (.applicationHasOutcome tenantId applicationId)
    let pending ← pendingApplications tenantId applications
    pure (if done then pending else applicationId :: pending)

def outcomeCall (tenantId : PyStr) (outcome : CreditOutcome F) (prediction : Prediction)
    (applicationId : PyStr) : OutcomeCall F where
  tenantId := tenantId
  applicationId := applicationId
  evaluatorKind := outcome.evaluatorKind
  success := outcome.success
  falseGapAvoided := outcome.falseGapAvoided
  validFindingDelta := outcome.validFindingDelta
  calls := prediction.calls
  tokens := prediction.tokens
  evidenceRef := outcome.evidenceRef

/-- `for application_id in pending_applications`. -/
def recordOutcomes (tenantId : PyStr) (outcome : CreditOutcome F) (prediction : Prediction) :
    List PyStr → OrderedProgram F T Unit
  | [] => pure ()
  | applicationId :: pending => do
    act (.recordOutcome (outcomeCall tenantId outcome prediction applicationId))
    recordOutcomes tenantId outcome prediction pending

/-- `if pending_applications`. -/
def creditPending (c : OrderedCall F) (a : TaskCall F) (prediction : Prediction)
    (pending : List PyStr) : OrderedProgram F T Unit :=
  if pending = [] then pure ()
  else do
    let outcome : CreditOutcome F ← act (.evaluate a prediction)
    recordOutcomes c.tenantId outcome prediction pending

/-- The delayed credit of a task. -/
def creditTask (c : OrderedCall F) (a : TaskCall F) (prediction : Prediction)
    (applications : List PyStr) : OrderedProgram F T Unit :=
  if c.method.memory = .delayedExternalCredit ∧ applications ≠ [] then do
    let pending ← pendingApplications c.tenantId applications
    creditPending c a prediction pending
    let _ ← act (.refreshStatuses c.tenantId c.thresholds)
  else pure ()

/-- `for candidate in decision.get("strategy_candidates", [])`. -/
def proposeStrategies (tenantId jobId family : PyStr) :
    List StrategyCandidate → OrderedProgram F T (List PyStr)
  | [] => pure []
  | candidate :: candidates => do
    let strategyId : PyStr ← act (.proposeStrategy
      ⟨tenantId, candidate.kind, candidate.pattern, jobId, family, none⟩)
    let strategyIds ← proposeStrategies tenantId jobId family candidates
    pure (strategyId :: strategyIds)

/-- `if prediction["status"] == "completed" and decision is not None`. -/
def proposeDecided (tenantId jobId family : PyStr) (prediction : Prediction)
    (candidates : Option (List StrategyCandidate)) : OrderedProgram F T (List PyStr) :=
  if prediction.completed then proposeStrategies tenantId jobId family (candidates.getD [])
  else pure []

/-- `if not links and report.ledger_events`. -/
def linkPolicy (prediction : Prediction) (challengeId : PyStr) (report : PolicyFlushReport)
    (links : ℕ) : OrderedProgram F T Unit :=
  if links = 0 ∧ report.ledgerEvents ≠ 0 then
    match jobIdOf prediction.ledgerRelpath with
    | none => throw (.contract .ledgerPath)
    | some jobId => act (.linkAudit prediction.ledgerRelpath jobId challengeId report)
  else pure ()

/-- `_bind_policy_receipt`. -/
def bindPolicyReceipt (c : OrderedCall F) (prediction : Prediction) (challengeId : PyStr) :
    OrderedProgram F T Prediction := do
  let flushed ← flushPolicy c
  match flushed with
  | none => throw .flushing
  | some report => do
    let links : ℕ ← act (.auditLinks prediction.ledgerRelpath)
    if 1 < links then throw (.contract .multipleAuditLinks)
    else do
      linkPolicy prediction challengeId report links
      let receipt : TaskReceipt ← act (.verifyTask prediction.ledgerRelpath)
      if receipt.ok = false then throw (.contract .taskLedger)
      else pure { prediction with
        ledgerHead := receipt.headHash
        ledgerEventCount := receipt.eventCount }

/-- An entry of the steps of the report. -/
structure OrderedStep where
  sequenceIndex : ℤ
  challengeId : PyStr
  taskFamily : PyStr
  strategyIds : List PyStr
  strategyApplied : Bool
  applicationIds : List PyStr
  proposedStrategyIds : List PyStr
  completed : Bool
  deriving DecidableEq, Repr

/-- The loop body of `run`. -/
def runStep (c : OrderedCall F) (orderSha256 : PyStr) (task : BlindTask) (sequenceIndex : ℤ) :
    OrderedProgram F T (Prediction × OrderedStep) := do
  let proposed ← propose c task sequenceIndex
  let selected : List (StrategyScore F) ←
    act (.bind (c.binding task sequenceIndex orderSha256 proposed))
  let execution : TaskCall F := ⟨c.place sequenceIndex, task.challengeId, selected⟩
  let prediction : Prediction ← act (.runTask execution)
  match jobIdOf prediction.ledgerRelpath with
  | none => throw (.contract .ledgerPath)
  | some jobId => do
    let counterQueries : Option (List PyStr) ← act (.counterQueries c.tenantId jobId)
    let applications ←
      applySelected (c.place sequenceIndex) jobId task.taskFamily selected counterQueries
    creditTask c execution prediction applications
    let candidates : Option (List StrategyCandidate) ← act (.strategyCandidates c.tenantId jobId)
    let proposedIds ← proposeDecided c.tenantId jobId task.taskFamily prediction candidates
    let prediction ← bindPolicyReceipt c prediction task.challengeId
    pure (prediction, {
      sequenceIndex
      challengeId := task.challengeId
      taskFamily := task.taskFamily
      strategyIds := execution.strategyIds
      strategyApplied := isApplied selected counterQueries
      applicationIds := applications
      proposedStrategyIds := proposedIds
      completed := prediction.completed })

/-! ## A run -/

/-- `for sequence_index, (task_value, task) in enumerate(..)`. -/
def runSteps (c : OrderedCall F) (orderSha256 : PyStr) :
    List BlindTask → ℤ → OrderedProgram F T (List (Prediction × OrderedStep))
  | [], _ => pure []
  | task :: tasks, sequenceIndex => do
    let step ← runStep c orderSha256 task sequenceIndex
    let steps ← runSteps c orderSha256 tasks (sequenceIndex + 1)
    pure (step :: steps)

/-- `sha256(canonical_json(identifiers).encode()).hexdigest()`. -/
def orderDigest (H : PolicyHost F) (identifiers : List PyStr) : Except (OrderedError F) PyStr :=
  match dumps (.list (identifiers.map .str) : PyVal F) with
  | .error cause => .error (.order (some cause))
  | .ok text =>
    match encode text with
    | none => .error (.order none)
    | some bytes => .ok (H.sha256 bytes)

/-- The checks of `run`, and the digest of the order. -/
def checkCall (H : PolicyHost F) (c : OrderedCall F) :
    Except (OrderedError F) (List BlindTask × PyStr) :=
  if c.method.memory = .none then .error (.contract .memoryTreatmentRequired)
  else if c.method.cedg = false ∨ c.method.externalCounterRetrieval = false then
    .error (.contract .counterRetrievalRequired)
  else if c.evaluated ≠ decide (c.method.memory = .delayedExternalCredit) then
    .error (.contract .evaluatorMismatch)
  else if isBlank c.runId ∨ c.tasks = [] then .error (.contract .runIdAndTasksRequired)
  else
    match c.tasks.mapM id with
    | none => .error (.contract .invalidTask)
    | some tasks =>
      if ¬(tasks.map (·.challengeId)).Nodup then .error (.contract .duplicateChallenges)
      else (orderDigest H (tasks.map (·.challengeId))).map fun digest => (tasks, digest)

/-- `run`, up to the verification of the policy ledger for its report. -/
def run (H : PolicyHost F) (c : OrderedCall F) :
    OrderedProgram F T (List (Prediction × OrderedStep)) :=
  match checkCall H c with
  | .error e => throw e
  | .ok (tasks, orderSha256) => runSteps c orderSha256 tasks 0

/-! ## The shared state -/

/-- An execution of a task, without a prediction where it has raised. -/
structure Execution (F : Type) where
  task : TaskCall F
  prediction : Option Prediction

/-- The policy store and its ledger, the executions, and what the evaluator has been asked. -/
structure Bench (F T : Type) where
  audit : Audit F T
  executions : List (Execution F)
  evaluations : List (TaskCall F × Prediction)

abbrev Bench.db (s : Bench F T) : PolicyDatabase F T := s.audit.db

abbrev Bench.interventions (s : Bench F T) : List (SequenceIntervention T) :=
  s.db.sequenceInterventions.rows

abbrev Bench.applications (s : Bench F T) : List (Application T) := s.db.applications.rows

abbrev Bench.outcomes (s : Bench F T) : List (OutcomeRow F T) := s.db.outcomes.rows

def Bench.withDb (s : Bench F T) (db : PolicyDatabase F T) : Bench F T :=
  { s with audit := { s.audit with db } }

variable [LinearOrder T]

/-- A call of the store. -/
def Carries {α : Type} (x : PolicyDb F T α) (s : Bench F T) (reply : Except (OrderedError F) α)
    (s' : Bench F T) : Prop :=
  reply = (ran x s.db).1.mapError .store ∧ s' = s.withDb (ran x s.db).2

/-- An operation that is carried out; what is not modelled may reply anything. -/
def Performs (H : AuditHost F T) (s : Bench F T) :
    (o : OrderedOp F) → OrderedReply F T o → Bench F T → Prop
  | .sequenceIntervention p, reply, s' => Carries
    (sequenceIntervention H.policy p.tenantId p.runId p.methodId p.sequenceIndex) s reply s'
  | .recallUncredited tenantId family limit, reply, s' =>
    Carries (recallUncredited H.policy tenantId family limit) s reply s'
  | .recallActive tenantId family limit, reply, s' =>
    Carries (recallActive H.policy tenantId family limit) s reply s'
  | .recallCandidate tenantId family, reply, s' =>
    Carries (recallCandidateForEvaluation H.policy tenantId family) s reply s'
  | .bind a, reply, s' => ∃ now stamp,
    Carries (bindSequenceIntervention H.policy a now stamp) s reply s'
  | .runTask a, reply, s' => s' = { s with executions := s.executions ++ [⟨a, reply.toOption⟩] }
  | .recordApplication a, reply, s' => ∃ uuid now stamp,
    Carries (recordApplication H.policy a uuid now stamp) s reply s'
  | .applicationHasOutcome tenantId applicationId, reply, s' =>
    Carries (applicationHasOutcome tenantId applicationId) s reply s'
  | .evaluate a prediction, _, s' =>
    s' = { s with evaluations := s.evaluations ++ [(a, prediction)] }
  | .recordOutcome a, reply, s' => ∃ now stamp,
    Carries (recordOutcome H.policy a now stamp) s reply s'
  | .refreshStatuses tenantId θ, reply, s' => ∃ now stamp,
    Carries (refreshStatuses H.policy tenantId θ now stamp) s reply s'
  | .proposeStrategy a, reply, s' => ∃ uuid now stamp,
    Carries (proposeStrategy H.policy a uuid now stamp) s reply s'
  | .flush o, reply, s' => ∃ r audit, reply = .ok r ∧ s' = { s with audit } ∧
    (PolicyAudit.Performs H s.audit o r audit ∨ Killed H s.audit o r audit)
  | .counterQueries .., _, s' => s' = s
  | .strategyCandidates .., _, s' => s' = s
  | .auditLinks _, _, s' => s' = s
  | .linkAudit .., _, s' => s' = s
  | .verifyTask _, _, s' => s' = s

/-- Any number of ordered runs; one that has crashed takes no further step. -/
def orderedRuns (H : AuditHost F T) : Machine (Bench F T) (OrderedCall F) (OrderedOp F)
    (OrderedReply F T) (Except (OrderedError F) (List (Prediction × OrderedStep))) where
  program c := (run H.policy c).run
  perform s o reply s' := Performs H s o reply s' ∨ reply = .error .raised ∧ s' = s
  external _ _ := False

/-- A migrated store before its first run. -/
def Bench.initial : Bench F T := ⟨.initial, [], []⟩

end OrderedRunner
