import VeriMat.Interleaving
import VeriMat.JobStoreRuns
import VeriMat.LedgerConcurrent

/-! # The execution worker

`orchestration/worker.py` with the parts of `orchestration/runtime.py` it runs: one claim of a
job, its stages, and the way out. A transaction of the job store, a call of the event ledger and
a call of a stage handler are one operation each. The clock and `uuid4` may say anything; the
stage handlers, the validator and a finalizer of the worker's own may return or raise anything. -/
namespace Worker

open PyText JsonText PyValue Events AtomicProgram RelyGuarantee Interleaving Transaction JobStore
open Ledger (LedgerError LedgerIssue AppendArgs VerificationReport)

variable {F T : Type}

/-! ## Exceptions -/

/-- The clauses behind the `try` of `run_once`, by the classes they catch: `RetryableStageError`;
`BudgetExceeded`; `EventValidationError`, `FatalStageError`, `GraphInvariantError`,
`IdempotencyConflict`, `IllegalTransition`, `LedgerIntegrityError`; `LeaseConflict`; `Exception`. -/
inductive Clause where
  | retryable | budget | fatal | lease | unhandled
  deriving DecidableEq, Repr

/-- What an operation of the worker raises. -/
inductive Failure (F T : Type) where
  | store (e : StoreError T)
  | ledger (e : LedgerError F)
  | raised (c : Clause)
  | ledgerDirectory
  | leftRunning (status : JobStatus)
  | invalidResult (stage : Stage)
  | invalidLedger (error : Option (LedgerIssue F))
  | validatorNameRequired

def storeClause : ErrorClass → Clause
  | .budgetExceeded => .budget
  | .idempotencyConflict | .illegalTransition => .fatal
  | .leaseConflict => .lease
  | .jobStoreError | .valueError | .integrityError | .unicodeEncodeError | .overflowError =>
    .unhandled

def ledgerClause : LedgerError F → Clause
  | .integrity _ | .idempotencyConflict _ | .event (.validation _) => .fatal
  | .event .typeError | .event .attributeError | .event .valueError | .event .unicodeEncodeError
  | .typeError | .unicodeDecodeError => .unhandled

/-- The clause that catches a failure. -/
def Failure.clause : Failure F T → Clause
  | .store e => storeClause e.errorClass
  | .ledger e => ledgerClause e
  | .raised c => c
  | .leftRunning _ | .invalidResult _ | .invalidLedger _ => .fatal
  | .ledgerDirectory | .validatorNameRequired => .unhandled

/-- A `ValueError` of the ledger that is read for the validator. -/
def isValueError : LedgerError F → Bool
  | .event (.validation _) | .event .valueError | .event .unicodeEncodeError
  | .unicodeDecodeError => true
  | .integrity _ | .idempotencyConflict _ | .event .typeError | .event .attributeError
  | .typeError => false

/-! ## Handlers, finalizers and reports -/

/-- `EXECUTION_STAGES`. -/
def executionStages : List Stage :=
  [.plan, .retrieve, .read, .propose, .challenge, .decide, .synthesize]

def Stage.value : Stage → PyStr
  | .plan => py "PLAN"
  | .retrieve => py "RETRIEVE"
  | .read => py "READ"
  | .propose => py "PROPOSE"
  | .challenge => py "CHALLENGE"
  | .decide => py "DECIDE"
  | .synthesize => py "SYNTHESIZE"
  | .validate => py "VALIDATE"

structure StageInvocation (T : Type) where
  job : Job T
  stage : Stage
  operationId : PyStr

structure EventSpec (F : Type) where
  aggregateType : PyStr
  aggregateId : PyStr
  eventType : PyStr
  payload : PyVal F
  idempotencyKey : PyStr

/-- `StageResult`; a charge is a `ChargeSpec`, a checkpoint the items of a dict. -/
structure StageResult (F : Type) where
  events : List (EventSpec F)
  charges : List Charge
  checkpoint : List (PyKey F × PyVal F)

/-- What a validator raises: a `GraphInvariantError` or `ValueError`, or anything else. -/
inductive ValidatorError where
  | rejected (text : PyStr)
  | raised (c : Clause)

/-- The validator of `finalize_with_validator`; `finalize` is the one of the decision graph under
the name `cedg-publication-v1`. -/
structure EvidenceValidator (F : Type) where
  name : PyStr
  validate : List (EventEnvelope F) → Except ValidatorError (PyVal F × List PyStr)

/-- What an entry of `issues` says. -/
inductive FinalIssue (F : Type) where
  | ledger (error : Option (LedgerIssue F))
  | found (text : PyStr)
  | validator (text : PyStr)
  | unreadable (e : LedgerError F)

structure FinalizationReport (F T : Type) where
  ok : Bool
  job : Job T
  ledgerEvents : ℕ
  ledgerHead : PyStr
  graphMetrics : PyVal F
  issues : List (FinalIssue F)

/-- `WorkerReport`; no status is `IDLE`. -/
structure WorkerReport (F T : Type) where
  claimed : Bool
  jobId : PyStr
  status : Option JobStatus
  stagesCommitted : List Stage
  errorCode : PyStr
  finalization : Option (FinalizationReport F T)

/-- `ExecutionWorker`; without a validator it has a finalizer of its own. -/
structure ExecutionWorker (F T : Type) [Zero T] [LT T] where
  workerId : PyStr
  leaseSeconds : T
  maxAttempts : ℤ
  jobId : Option PyStr
  validator : Option (EvidenceValidator F)
  worker_named : isBlank workerId = false
  lease_positive : 0 < leaseSeconds
  attempts_positive : 1 ≤ maxAttempts

/-! ## Operations -/

inductive StoreOp (F : Type) where
  | runnableJobIds
  | acquire (jobId : PyStr)
  | get (jobId : PyStr)
  | checkpoints (jobId : PyStr)
  | charge (jobId : PyStr) (c : Charge)
  | saveCheckpoint (jobId : PyStr) (stage : Stage) (checkpointKey : PyStr) (payload : PyVal F)
  | transition (jobId : PyStr) (t : Transition)

abbrev StoreOp.Result (T : Type) : StoreOp F → Type
  | .runnableJobIds => List PyStr
  | .acquire _ => Unit
  | .get _ => Job T
  | .checkpoints _ => List (CheckpointRecord F T)
  | .charge .. => Option (Job T)
  | .saveCheckpoint .. => Unit
  | .transition .. => Unit

inductive WorkerOp (F T : Type) where
  | store (o : StoreOp F)
  | openLedger (tenantId jobId : PyStr)
  | append (tenantId jobId : PyStr) (event : EventSpec F)
  | verify (tenantId jobId : PyStr)
  | events (tenantId jobId : PyStr)
  | invoke (invocation : StageInvocation T)
  | finalizer (context : Job T)

/-- What an operation returns; a handler may return something that is no `StageResult`. -/
abbrev WorkerOp.Result : WorkerOp F T → Type
  | .store o => o.Result T
  | .openLedger .. => Unit
  | .append .. => EventEnvelope F
  | .verify .. => VerificationReport F
  | .events .. => List (EventEnvelope F)
  | .invoke _ => Option (StageResult F)
  | .finalizer _ => FinalizationReport F T

/-- What an operation replies: its result or an exception. -/
abbrev WorkerReply (F T : Type) (o : WorkerOp F T) : Type := Except (Failure F T) o.Result

/-- A program of the worker that may raise. -/
abbrev WorkerProgram (F T α : Type) :=
  Fallible (WorkerOp F T) (WorkerReply F T) (Failure F T) α

/-- One operation. -/
def act (o : WorkerOp F T) : WorkerProgram F T o.Result := ask o

/-! ## Methods of the job store -/

/-- `get`. -/
def getRow (jobId : PyStr) : WorkerProgram F T (Job T) := act (.store (.get jobId))

/-- `acquire_lease`. -/
def acquireLease (jobId : PyStr) : WorkerProgram F T (Job T) := do
  act (.store (.acquire jobId))
  getRow jobId

/-- `charge`. -/
def charge (jobId : PyStr) (c : Charge) : WorkerProgram F T (Job T) := do
  let replayed : Option (Job T) ← act (.store (.charge jobId c))
  match replayed with
  | some row => pure row
  | none => getRow jobId

/-- `transition`. -/
def transition (jobId : PyStr) (t : Transition) : WorkerProgram F T (Job T) := do
  act (.store (.transition jobId t))
  getRow jobId

/-- `save_checkpoint`. -/
def saveCheckpoint (jobId : PyStr) (stage : Stage) (checkpointKey : PyStr) (payload : PyVal F) :
    WorkerProgram F T (Job T) := do
  act (.store (.saveCheckpoint jobId stage checkpointKey payload))
  getRow jobId

/-! ## The execution context

The context is the job it holds last. -/

/-- A key equal to a text. -/
def isText (name : PyStr) : PyKey F → Bool
  | .str s => s == name
  | _ => false

/-- `{**items, name: value}`. -/
def putItem (name : PyStr) (value : PyVal F) :
    List (PyKey F × PyVal F) → List (PyKey F × PyVal F)
  | [] => [(.str name, value)]
  | p :: items =>
    if isText name p.1 then (p.1, value) :: items else p :: putItem name value items

/-- `for event in result.events: context.emit(..)`. -/
def emitAll (context : Job T) : List (EventSpec F) → WorkerProgram F T Unit
  | [] => pure ()
  | event :: events => do
    let _ ← act (.append context.tenantId context.jobId event)
    emitAll context events

/-- `for charge in result.charges: context.charge(..)`. -/
def chargeAll : Job T → List Charge → WorkerProgram F T (Job T)
  | context, [] => pure context
  | context, c :: charges => do
    let context ← charge context.jobId c
    chargeAll context charges

/-- `checkpoint`. -/
def checkpoint (context : Job T) (stage : Stage) (checkpointKey : PyStr)
    (payload : List (PyKey F × PyVal F)) : WorkerProgram F T (Job T) := do
  let receipt : VerificationReport F ← act (.verify context.tenantId context.jobId)
  if receipt.ok then
    saveCheckpoint context.jobId stage checkpointKey
      (.dict (putItem (py "ledger_event_count") (.int receipt.eventCount)
        (putItem (py "ledger_head") (.str receipt.headHash) payload)))
  else throw (.invalidLedger receipt.error)

/-- What the validator says of the ledger: its metrics and the issues. -/
def inspect (v : EvidenceValidator F) (context : Job T) (receipt : VerificationReport F) :
    WorkerProgram F T (PyVal F × List (FinalIssue F)) :=
  if receipt.ok then do
    let validated : Except (LedgerError F) (List (EventEnvelope F)) ←
      handle ((act (.events context.tenantId context.jobId)).map .ok) fun e =>
        match e with
        | .ledger e => if isValueError e then pure (.error e) else throw (.ledger e)
        | e => throw e
    match validated with
    | .error e => pure (.dict [], [.unreadable e])
    | .ok events =>
      match v.validate events with
      | .ok (metrics, issues) => pure (metrics, issues.map .found)
      | .error (.rejected text) => pure (.dict [], [.validator text])
      | .error (.raised c) => throw (.raised c)
  else pure (.dict [], [.ledger receipt.error])

/-- `finalize_with_validator`. -/
def finalizeWithValidator (v : EvidenceValidator F) (context : Job T) :
    WorkerProgram F T (FinalizationReport F T) :=
  if isBlank v.name then throw .validatorNameRequired
  else do
    let receipt : VerificationReport F ← act (.verify context.tenantId context.jobId)
    let (metrics, issues) ← inspect v context receipt
    if issues.isEmpty then
      let context ← checkpoint context .validate (py "evidence-finalization")
        [(.str (py "ok"), .bool true), (.str (py "validator_name"), .str v.name),
          (.str (py "validation_metrics"), metrics)]
      let context ← transition context.jobId ⟨.validating, none, none, false⟩
      let context ← transition context.jobId ⟨.succeeded, none, none, true⟩
      pure ⟨true, context, receipt.eventCount, receipt.headHash, metrics, []⟩
    else
      let context ← transition context.jobId
        ⟨.failed, none, some (py "EVIDENCE_INVARIANT_FAILED"), true⟩
      pure ⟨false, context, receipt.eventCount, receipt.headHash, metrics, issues⟩

/-! ## `run_once` -/

section Worker
variable [Zero T] [LT T]

/-- The loop of `_claim`. -/
def claimFirst : List PyStr → WorkerProgram F T (Option (Job T))
  | [] => pure none
  | jobId :: candidates =>
    handle (ε := Failure F T)
      ((acquireLease jobId).map some) fun e =>
        if e.clause = .lease then claimFirst candidates else throw e

/-- `_claim`. -/
def claim (w : ExecutionWorker F T) : WorkerProgram F T (Option (Job T)) :=
  match w.jobId with
  | some jobId => claimFirst [jobId]
  | none => do
    let candidates : List PyStr ← act (.store .runnableJobIds)
    claimFirst candidates

/-- `_fail`. -/
def fail (w : ExecutionWorker F T) (job : Job T) (retryable : Bool) (code : PyStr) :
    WorkerProgram F T (Job T) := do
  let current ← getRow job.jobId
  if current.status ∈ [JobStatus.cancelled, .failed, .succeeded] then pure current
  else
    let target : JobStatus :=
      if retryable = true ∧ current.attempts < w.maxAttempts then .retryWait else .failed
    transition current.jobId ⟨target, none, some code, true⟩

/-- `_checkpoint_key`. -/
def checkpointKey (stage : Stage) : PyStr := py "stage:" ++ Stage.value stage ++ py ":v1"

def operationId (job : Job T) (stage : Stage) : PyStr :=
  job.jobId ++ py ":" ++ Stage.value stage ++ py ":v1"

/-- A stage of the loop from the status check on; it gives the context it leaves. -/
def runStage (job current : Job T) (stage : Stage) (context : Job T) :
    WorkerProgram F T (Job T) :=
  if current.status ≠ .running then throw (.leftRunning current.status)
  else do
    let result : Option (StageResult F) ← act (.invoke ⟨current, stage, operationId job stage⟩)
    match result with
    | none => throw (.invalidResult stage)
    | some result => do
      emitAll context result.events
      let context ← chargeAll context result.charges
      checkpoint context stage (checkpointKey stage)
        (putItem (py "operation_id") (.str (operationId job stage)) result.checkpoint)

/-- What the body of the `try` raises, with the stages committed by then. -/
abbrev BodyProgram (F T α : Type) :=
  Fallible (WorkerOp F T) (WorkerReply F T) (Failure F T × List Stage) α

/-- `for stage in EXECUTION_STAGES`: the report of a cancelled job, or the context and the stages
committed. -/
def runStages (job : Job T) (committed : List PyStr) :
    List Stage → Job T → List Stage → BodyProgram F T (WorkerReport F T ⊕ Job T × List Stage)
  | [], context, stagesCommitted => pure (.inr (context, stagesCommitted))
  | stage :: stages, context, stagesCommitted =>
    if checkpointKey stage ∈ committed then runStages job committed stages context stagesCommitted
    else do
      let current ← (getRow job.jobId).adapt (·, stagesCommitted)
      if current.status = .cancelled then
        pure (.inl ⟨true, job.jobId, some current.status, stagesCommitted, [], none⟩)
      else
        let context ← (runStage job current stage context).adapt (·, stagesCommitted)
        runStages job committed stages context (stagesCommitted ++ [stage])

/-- `self.finalizer(context)`. -/
def finalize (w : ExecutionWorker F T) (context : Job T) :
    WorkerProgram F T (FinalizationReport F T) :=
  match w.validator with
  | some v => finalizeWithValidator v context
  | none => act (.finalizer context)

/-- The body of the `try`. -/
def body (w : ExecutionWorker F T) (job : Job T) (committed : List PyStr) :
    BodyProgram F T (WorkerReport F T) := do
  match ← runStages job committed executionStages job [] with
  | .inl report => pure report
  | .inr (context, stagesCommitted) => do
    let finalization ← (finalize w context).adapt (·, stagesCommitted)
    let code := if finalization.ok then [] else py "EVIDENCE_INVARIANT_FAILED"
    pure ⟨true, job.jobId, some finalization.job.status, stagesCommitted, code, some finalization⟩

/-- A clause that ends in `_fail`. -/
def failed (w : ExecutionWorker F T) (job : Job T) (stagesCommitted : List Stage)
    (retryable : Bool) (code : PyStr) : WorkerProgram F T (WorkerReport F T) := do
  let failed ← fail w job retryable code
  pure ⟨true, job.jobId, some failed.status, stagesCommitted, code, none⟩

/-- The `except` clauses. -/
def recover (w : ExecutionWorker F T) (job : Job T) (e : Failure F T × List Stage) :
    WorkerProgram F T (WorkerReport F T) :=
  match e.1.clause with
  | .retryable => failed w job e.2 true (py "RETRYABLE_STAGE_ERROR")
  | .budget => failed w job e.2 false (py "BUDGET_EXCEEDED")
  | .fatal => failed w job e.2 false (py "FATAL_STAGE_ERROR")
  | .lease => do
    let current ← getRow job.jobId
    if current.status = .cancelled then
      pure ⟨true, job.jobId, some current.status, e.2, [], none⟩
    else failed w job e.2 true (py "LEASE_LOST")
  | .unhandled => failed w job e.2 true (py "UNHANDLED_STAGE_ERROR")

/-- `run_once` behind the claim. -/
def runClaimed (w : ExecutionWorker F T) (job : Job T) : WorkerProgram F T (WorkerReport F T) := do
  act (.openLedger job.tenantId job.jobId)
  let rows : List (CheckpointRecord F T) ← act (.store (.checkpoints job.jobId))
  handle (body w job (rows.map (·.row.checkpointKey))) (recover w job)

/-- `run_once`. -/
def runOnce (w : ExecutionWorker F T) : WorkerProgram F T (WorkerReport F T) := do
  match ← claim w with
  | none => pure ⟨false, [], none, [], [], none⟩
  | some job => runClaimed w job

end Worker

/-! ## The shared state -/

/-- The job store and the ledger file of each job. -/
structure World (F T : Type) where
  store : Store T
  ledger : PyStr → PyStr → PyBytes

variable [PyFloat F] [LinearOrder T] [Add T] [Zero T]

/-- The call of the store an operation is, at an instant. -/
def StoreOp.call (w : ExecutionWorker F T) (now : T) : (o : StoreOp F) → Db T (o.Result T)
  | .runnableJobIds => JobStore.runnableJobIds 100 now
  | .acquire jobId => do
    raiseIf (isBlank w.workerId ∨ w.leaseSeconds ≤ 0) .workerAndLeaseRequired
    acquireTransaction jobId w.workerId w.leaseSeconds now
  | .get jobId => getJob jobId none
  | .checkpoints jobId => JobStore.checkpoints F jobId
  | .charge jobId c => do
    raiseIf (min (min c.calls c.tokens) c.costMicrounits < 0) .negativeCharge
    chargeTransaction jobId c now
  | .saveCheckpoint jobId stage key payload =>
    match renderPayload payload with
    | .error e => throw (.invalidPayload e)
    | .ok rendered => checkpointTransaction jobId w.workerId stage key rendered now
  | .transition jobId t => transitionTransaction jobId t now

/-- The ledger call of an event, with the id and the time a new event gets. -/
def EventSpec.args (event : EventSpec F) (tenantId jobId uuid now : PyStr) : AppendArgs F :=
  ⟨tenantId, jobId, event.aggregateType, event.aggregateId, event.eventType, event.payload,
    event.idempotencyKey, none, none, none, uuid, now⟩

/-- An operation that is carried out. -/
def Performs (H : Events.Host) (w : ExecutionWorker F T) (s : World F T) :
    (o : WorkerOp F T) → WorkerReply F T o → World F T → Prop
  | .store o, r, s' => ∃ now r',
    Outcome (o.call w now) s.store r' s'.store ∧ r = r'.mapError .store ∧ s'.ledger = s.ledger
  | .openLedger _ _, _, s' => s' = s
  | .append tenantId jobId event, r, s' => ∃ uuid now : PyStr,
    let a := event.args tenantId jobId uuid now
    r = ((Ledger.append H (s.ledger tenantId jobId) a).map Prod.fst).mapError .ledger ∧
      s' = { s with ledger := fun t j => if t = tenantId ∧ j = jobId then
              LedgerConcurrent.fileAfter H (s.ledger tenantId jobId) a else s.ledger t j }
  | .verify tenantId jobId, r, s' =>
    r = (Ledger.verify H (s.ledger tenantId jobId)).mapError .ledger ∧ s' = s
  | .events tenantId jobId, r, s' =>
    r = (Ledger.events H (s.ledger tenantId jobId)).mapError .ledger ∧ s' = s
  | .invoke _, _, s' => s' = s
  | .finalizer _, _, s' => s' = s

/-- Other workers, operators, and what the handlers do themselves: any calls of the store, and
any change of the ledgers. -/
def Others (s s' : World F T) : Prop :=
  ∃ es : List (JobStoreRuns.Event F T), JobStoreRuns.Execution s.store es s'.store

end Worker
