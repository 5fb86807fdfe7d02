import VeriMat.Events
import VeriMat.KeyedTable
import VeriMat.Transaction

/-! # The job store

`orchestration/job_store.py`: jobs, checkpoints and the usage ledger in one SQLite database. A
`BEGIN IMMEDIATE` block is one atomic step; the `get` a method ends with is a step of its own.
Instants are any linear order whose addition may round, as that of finite floats does; the
clock and `uuid4` are arguments. -/
namespace JobStore

open PyText JsonText PyValue Events KeyedTable Transaction

inductive JobStatus where
  | queued | running | validating | retryWait | succeeded | failed | cancelled
  deriving DecidableEq, Repr

inductive Stage where
  | plan | retrieve | read | propose | challenge | decide | synthesize | validate
  deriving DecidableEq, Repr

/-- `STAGE_ORDER`. -/
def Stage.order : Stage → ℕ
  | .plan => 0
  | .retrieve => 1
  | .read => 2
  | .propose => 3
  | .challenge => 4
  | .decide => 5
  | .synthesize => 6
  | .validate => 7

/-- `TERMINAL`. -/
def terminal : List JobStatus := [.succeeded, .failed, .cancelled]

/-- `ALLOWED_STATUS`. -/
def allowedStatus : JobStatus → List JobStatus
  | .queued => [.running, .cancelled]
  | .running => [.validating, .retryWait, .failed, .cancelled]
  | .retryWait => [.running, .failed, .cancelled]
  | .validating => [.succeeded, .retryWait, .failed, .cancelled]
  | .succeeded | .failed | .cancelled => []

/-- What a method raises: the errors of the store, each with what its text says, and what
`sqlite3` raises on a value it cannot bind or a row it cannot insert. -/
inductive StoreError (T : Type) where
  | jobNotFound (jobId : PyStr)
  | fieldsRequired
  | negativeBudgets
  | workerAndLeaseRequired
  | invalidPayload (cause : EventError)
  | negativeCharge
  | budgetsDiffer
  | checkpointKeyReused
  | chargeKeyReused
  | versionMismatch (expected got : ℤ)
  | illegalStatus (current target : JobStatus)
  | validateRequired
  | stageBackwards (current stage : Stage)
  | nonRunnable (status : JobStatus)
  | leased (owner : PyStr) (expiry : T)
  | heartbeatRejected
  | activeLeaseRequired
  | leaseExpired
  | budgetExceeded (exceeded : List String)
  | payloadNotJson
  | integrityError
  | unicodeEncodeError
  | overflowError
  deriving DecidableEq, Repr

/-- The exception class of an error. -/
inductive ErrorClass where
  | jobStoreError | idempotencyConflict | illegalTransition | leaseConflict | budgetExceeded
  | valueError | integrityError | unicodeEncodeError | overflowError
  deriving DecidableEq, Repr

def StoreError.errorClass {T : Type} : StoreError T → ErrorClass
  | .jobNotFound _ | .fieldsRequired | .negativeBudgets | .workerAndLeaseRequired
  | .invalidPayload _ | .negativeCharge => .jobStoreError
  | .budgetsDiffer | .checkpointKeyReused | .chargeKeyReused => .idempotencyConflict
  | .versionMismatch _ _ | .illegalStatus _ _ | .validateRequired | .stageBackwards _ _ =>
    .illegalTransition
  | .nonRunnable _ | .leased _ _ | .heartbeatRejected | .activeLeaseRequired | .leaseExpired =>
    .leaseConflict
  | .budgetExceeded _ => .budgetExceeded
  | .payloadNotJson => .valueError
  | .integrityError => .integrityError
  | .unicodeEncodeError => .unicodeEncodeError
  | .overflowError => .overflowError

/-! ## The tables -/

structure Job (T : Type) where
  jobId : PyStr
  tenantId : PyStr
  idempotencyKey : PyStr
  task : PyStr
  status : JobStatus
  stage : Stage
  version : ℤ
  leaseOwner : Option PyStr
  leaseExpiresAt : Option T
  attempts : ℤ
  maxCalls : ℤ
  maxTokens : ℤ
  maxCostMicrounits : ℤ
  usedCalls : ℤ
  usedTokens : ℤ
  usedCostMicrounits : ℤ
  lastErrorCode : Option PyStr
  createdAt : T
  updatedAt : T
  deriving DecidableEq, Repr

structure Checkpoint (T : Type) where
  jobId : PyStr
  stage : Stage
  checkpointKey : PyStr
  payload : PyStr
  createdAt : T
  deriving DecidableEq, Repr

structure Usage (T : Type) where
  jobId : PyStr
  chargeKey : PyStr
  provider : PyStr
  calls : ℤ
  tokens : ℤ
  costMicrounits : ℤ
  createdAt : T
  deriving DecidableEq, Repr

variable {T : Type}

def Job.key (j : Job T) : PyStr × PyStr × PyStr := (j.jobId, j.tenantId, j.idempotencyKey)

/-- `job_id PRIMARY KEY` and `UNIQUE(tenant_id, idempotency_key)`. -/
def jobClash (k k' : PyStr × PyStr × PyStr) : Prop := k.1 = k'.1 ∨ k.2 = k'.2

instance : DecidableRel jobClash := fun _ _ => inferInstanceAs (Decidable (_ ∨ _))

/-- `PRIMARY KEY(job_id, checkpoint_key)`. -/
def Checkpoint.key (c : Checkpoint T) : PyStr × PyStr := (c.jobId, c.checkpointKey)

/-- `PRIMARY KEY(job_id, charge_key)`. -/
def Usage.key (u : Usage T) : PyStr × PyStr := (u.jobId, u.chargeKey)

structure Store (T : Type) where
  jobs : Table (Job.key (T := T)) jobClash
  checkpoints : Table (Checkpoint.key (T := T)) Eq
  usageLedger : Table (Usage.key (T := T)) Eq

/-- A migrated database before its first job. -/
def Store.empty : Store T := ⟨KeyedTable.empty, KeyedTable.empty, KeyedTable.empty⟩

abbrev Db (T α : Type) := EStateM (StoreError T) (Store T) α

/-! ## Statements -/

/-- A text parameter. -/
def bindText (s : PyStr) : Db T Unit := raiseIf ((encode s).isNone = true) .unicodeEncodeError

/-- An SQLite `INTEGER`. -/
def FitsInteger (n : ℤ) : Prop := -9223372036854775808 ≤ n ∧ n ≤ 9223372036854775807

instance (n : ℤ) : Decidable (FitsInteger n) := inferInstanceAs (Decidable (_ ∧ _))

/-- An integer parameter. -/
def bindInt (n : ℤ) : Db T Unit := raiseIf (¬ FitsInteger n) .overflowError

def Job.hasId (jobId : PyStr) (j : Job T) : Bool := j.jobId == jobId

def Job.hasKey (tenantId idempotencyKey : PyStr) (j : Job T) : Bool :=
  j.tenantId == tenantId && j.idempotencyKey == idempotencyKey

def Checkpoint.hasKey (jobId checkpointKey : PyStr) (c : Checkpoint T) : Bool :=
  c.jobId == jobId && c.checkpointKey == checkpointKey

def Usage.hasKey (jobId chargeKey : PyStr) (u : Usage T) : Bool :=
  u.jobId == jobId && u.chargeKey == chargeKey

/-- The row of a job. -/
def Store.job (s : Store T) (jobId : PyStr) : Option (Job T) := s.jobs.find (Job.hasId jobId)

/-- `SELECT * FROM jobs WHERE job_id=?`, with its `not found`. -/
def selectJob (jobId : PyStr) : Db T (Job T) := do
  bindText jobId
  let s ← get
  orRaise (s.job jobId) (.jobNotFound jobId)

/-- `UPDATE jobs SET .. WHERE job_id=?`. -/
def Store.setJob (s : Store T) (jobId : PyStr) (f : Job T → Job T)
    (hf : ∀ j, (f j).key = j.key) : Store T :=
  { s with jobs := s.jobs.update (Job.hasId jobId) f hf }

def insertJob (j : Job T) : Db T Unit := do
  let s ← get
  let jobs ← orRaise (s.jobs.insert j) .integrityError
  set { s with jobs }

def insertCheckpoint (c : Checkpoint T) : Db T Unit := do
  let s ← get
  let checkpoints ← orRaise (s.checkpoints.insert c) .integrityError
  set { s with checkpoints }

def insertUsage (u : Usage T) : Db T Unit := do
  let s ← get
  let usageLedger ← orRaise (s.usageLedger.insert u) .integrityError
  set { s with usageLedger }

/-! ## Methods -/

/-- `get`. -/
def getJob (jobId : PyStr) (tenantId : Option PyStr) : Db T (Job T) :=
  match tenantId with
  | none => selectJob jobId
  | some tenant => do
    bindText jobId
    bindText tenant
    let s ← get
    orRaise (s.jobs.find fun j => j.hasId jobId && j.tenantId == tenant) (.jobNotFound jobId)

structure NewJob where
  tenantId : PyStr
  idempotencyKey : PyStr
  task : PyStr
  maxCalls : ℤ
  maxTokens : ℤ
  maxCostMicrounits : ℤ
  jobId : Option PyStr
  deriving DecidableEq, Repr

/-- The row a new job starts as. -/
def NewJob.row (a : NewJob) (identifier : PyStr) (now : T) : Job T where
  jobId := identifier
  tenantId := a.tenantId
  idempotencyKey := a.idempotencyKey
  task := a.task
  status := .queued
  stage := .plan
  version := 1
  leaseOwner := none
  leaseExpiresAt := none
  attempts := 0
  maxCalls := a.maxCalls
  maxTokens := a.maxTokens
  maxCostMicrounits := a.maxCostMicrounits
  usedCalls := 0
  usedTokens := 0
  usedCostMicrounits := 0
  lastErrorCode := none
  createdAt := now
  updatedAt := now

/-- A recorded job asks for the same task and budgets. -/
def NewJob.same (a : NewJob) (j : Job T) : Prop :=
  j.task = a.task ∧ j.maxCalls = a.maxCalls ∧ j.maxTokens = a.maxTokens ∧
    j.maxCostMicrounits = a.maxCostMicrounits

instance (a : NewJob) (j : Job T) : Decidable (a.same j) :=
  inferInstanceAs (Decidable (_ ∧ _))

/-- The transaction of `create_job`; it gives the row the key already has. -/
def createJobTransaction (a : NewJob) (identifier : PyStr) (now : T) : Db T (Option (Job T)) :=
  immediate do
    bindText a.tenantId
    bindText a.idempotencyKey
    let s ← get
    match s.jobs.find (Job.hasKey a.tenantId a.idempotencyKey) with
    | some existing =>
      raiseIf (¬ a.same existing) .budgetsDiffer
      return some existing
    | none =>
      bindText identifier
      bindText a.task
      bindInt a.maxCalls
      bindInt a.maxTokens
      bindInt a.maxCostMicrounits
      insertJob (a.row identifier now)
      return none

/-- `create_job`. -/
def createJob (a : NewJob) (uuid : PyStr) (now : T) : Db T (Job T) := do
  raiseIf (isBlank a.tenantId ∨ isBlank a.idempotencyKey ∨ isBlank a.task) .fieldsRequired
  raiseIf (min (min a.maxCalls a.maxTokens) a.maxCostMicrounits < 0) .negativeBudgets
  let identifier := orElse a.jobId uuid
  match ← createJobTransaction a identifier now with
  | some existing => return existing
  | none => getJob identifier (some a.tenantId)

section Leases
variable [LinearOrder T] [Add T]

/-- Another worker's lease on the row has not run out. -/
def heldByOther (j : Job T) (workerId : PyStr) (now : T) : Option (PyStr × T) :=
  match j.leaseOwner, j.leaseExpiresAt with
  | some owner, some expiry =>
    if owner ≠ [] ∧ owner ≠ workerId ∧ now < expiry then some (owner, expiry) else none
  | _, _ => none

/-- The row as `acquire_lease` leaves it. -/
def Job.lease (j : Job T) (workerId : PyStr) (leaseSeconds now : T) : Job T :=
  { j with
    status := if j.status = .queued ∨ j.status = .retryWait then .running else j.status
    leaseOwner := some workerId
    leaseExpiresAt := some (now + leaseSeconds)
    attempts := j.attempts + 1
    version := j.version + 1
    updatedAt := now }

omit [LinearOrder T] in
theorem Job.lease_key (workerId : PyStr) (leaseSeconds now : T) (j : Job T) :
    (j.lease workerId leaseSeconds now).key = j.key := rfl

/-- The transaction of `acquire_lease`. -/
def acquireTransaction (jobId workerId : PyStr) (leaseSeconds now : T) : Db T Unit :=
  immediate do
    let row ← selectJob jobId
    raiseIf (row.status ∈ terminal ∨ row.status = .validating) (.nonRunnable row.status)
    match heldByOther row workerId now with
    | some (owner, expiry) => throw (.leased owner expiry)
    | none =>
      bindText workerId
      modify fun s => s.setJob jobId (·.lease workerId leaseSeconds now)
        (Job.lease_key workerId leaseSeconds now)

/-- `acquire_lease`. -/
def acquireLease [Zero T] (jobId workerId : PyStr) (leaseSeconds now : T) : Db T (Job T) := do
  raiseIf (isBlank workerId ∨ leaseSeconds ≤ 0) .workerAndLeaseRequired
  acquireTransaction jobId workerId leaseSeconds now
  getJob jobId none

/-- The `WHERE` of `heartbeat`. -/
def Job.renewable (jobId workerId : PyStr) (now : T) (j : Job T) : Bool :=
  j.hasId jobId && j.leaseOwner == some workerId && j.status == .running &&
    j.leaseExpiresAt.any fun expiry => now ≤ expiry

/-- The row as `heartbeat` leaves it. -/
def Job.renew (j : Job T) (leaseSeconds now : T) : Job T :=
  { j with
    leaseExpiresAt := some (now + leaseSeconds)
    updatedAt := now
    version := j.version + 1 }

omit [LinearOrder T] in
theorem Job.renew_key (leaseSeconds now : T) (j : Job T) :
    (j.renew leaseSeconds now).key = j.key := rfl

/-- The statement of `heartbeat`, which commits by itself, and its row count. -/
def heartbeatStatement (jobId workerId : PyStr) (leaseSeconds now : T) : Db T Unit := do
  bindText jobId
  bindText workerId
  let s ← get
  let rowcount := s.jobs.rows.countP (Job.renewable jobId workerId now)
  set { s with jobs := s.jobs.update (Job.renewable jobId workerId now)
                (·.renew leaseSeconds now) (Job.renew_key leaseSeconds now) }
  raiseIf (rowcount ≠ 1) .heartbeatRejected

/-- `heartbeat`. -/
def heartbeat (jobId workerId : PyStr) (leaseSeconds now : T) : Db T (Job T) := do
  heartbeatStatement jobId workerId leaseSeconds now
  getJob jobId none

end Leases

/-! ## Checkpoints and charges -/

section Checkpoints
variable [LinearOrder T] {F : Type} [PyFloat F]

/-- The text a checkpoint payload is stored as. -/
def renderPayload (payload : PyVal F) : Except EventError PyStr :=
  match validateDurablePayload payload (py "checkpoint") with
  | .error e => .error e
  | .ok () =>
    match dumps payload with
    | .error e => .error (JsonError.raised e)
    | .ok rendered => .ok rendered

/-- The row as `save_checkpoint` leaves it. -/
def Job.advance (j : Job T) (stage : Stage) (now : T) : Job T :=
  { j with stage, version := j.version + 1, updatedAt := now }

omit [LinearOrder T] in
theorem Job.advance_key (stage : Stage) (now : T) (j : Job T) : (j.advance stage now).key = j.key :=
  rfl

/-- The checkpoint row of `save_checkpoint`, written unless its key has it already. -/
def recordCheckpoint (c : Checkpoint T) : Db T Unit := do
  bindText c.checkpointKey
  let s ← get
  match s.checkpoints.find (Checkpoint.hasKey c.jobId c.checkpointKey) with
  | some existing =>
    raiseIf (existing.payload ≠ c.payload ∨ existing.stage ≠ c.stage) .checkpointKeyReused
  | none =>
    bindText c.payload
    insertCheckpoint c

/-- The transaction of `save_checkpoint`. -/
def checkpointTransaction (jobId workerId : PyStr) (stage : Stage) (checkpointKey rendered : PyStr)
    (now : T) : Db T Unit :=
  immediate do
    let row ← selectJob jobId
    raiseIf (row.status ≠ .running ∨ row.leaseOwner ≠ some workerId) .activeLeaseRequired
    raiseIf (row.leaseExpiresAt.all fun expiry => expiry < now) .leaseExpired
    raiseIf (stage.order < row.stage.order) (.stageBackwards row.stage stage)
    recordCheckpoint ⟨jobId, stage, checkpointKey, rendered, now⟩
    modify fun s => s.setJob jobId (·.advance stage now) (Job.advance_key stage now)

/-- `save_checkpoint`. -/
def saveCheckpoint (jobId workerId : PyStr) (stage : Stage) (checkpointKey : PyStr)
    (payload : PyVal F) (now : T) : Db T (Job T) :=
  match renderPayload payload with
  | .error e => throw (.invalidPayload e)
  | .ok rendered => do
    checkpointTransaction jobId workerId stage checkpointKey rendered now
    getJob jobId none

end Checkpoints

structure Charge where
  chargeKey : PyStr
  provider : PyStr
  calls : ℤ
  tokens : ℤ
  costMicrounits : ℤ
  deriving DecidableEq, Repr

/-- A recorded row is for the same usage. -/
def Charge.same (c : Charge) (u : Usage T) : Prop :=
  u.provider = c.provider ∧ u.calls = c.calls ∧ u.tokens = c.tokens ∧
    u.costMicrounits = c.costMicrounits

instance (c : Charge) (u : Usage T) : Decidable (c.same u) := inferInstanceAs (Decidable (_ ∧ _))

def Charge.row (c : Charge) (jobId : PyStr) (now : T) : Usage T :=
  ⟨jobId, c.chargeKey, c.provider, c.calls, c.tokens, c.costMicrounits, now⟩

/-- The budgets a charge would exceed. -/
def Charge.exceeded (c : Charge) (row : Job T) : List String :=
  (if row.maxCalls < row.usedCalls + c.calls then ["calls"] else []) ++
    (if row.maxTokens < row.usedTokens + c.tokens then ["tokens"] else []) ++
    (if row.maxCostMicrounits < row.usedCostMicrounits + c.costMicrounits then ["cost"] else [])

/-- The row as `charge` leaves it. -/
def Job.charged (j : Job T) (c : Charge) (now : T) : Job T :=
  { j with
    usedCalls := j.usedCalls + c.calls
    usedTokens := j.usedTokens + c.tokens
    usedCostMicrounits := j.usedCostMicrounits + c.costMicrounits
    version := j.version + 1
    updatedAt := now }

theorem Job.charged_key (c : Charge) (now : T) (j : Job T) : (j.charged c now).key = j.key := rfl

/-- The transaction of `charge`; on a replay it gives the row it read. -/
def chargeTransaction (jobId : PyStr) (c : Charge) (now : T) : Db T (Option (Job T)) :=
  immediate do
    let row ← selectJob jobId
    bindText c.chargeKey
    let s ← get
    match s.usageLedger.find (Usage.hasKey jobId c.chargeKey) with
    | some existing =>
      raiseIf (¬ c.same existing) .chargeKeyReused
      return some row
    | none =>
      raiseIf (c.exceeded row ≠ []) (.budgetExceeded (c.exceeded row))
      bindText c.provider
      insertUsage (c.row jobId now)
      modify fun s => s.setJob jobId (·.charged c now) (Job.charged_key c now)
      return none

/-- `charge`. -/
def charge (jobId : PyStr) (c : Charge) (now : T) : Db T (Job T) := do
  raiseIf (min (min c.calls c.tokens) c.costMicrounits < 0) .negativeCharge
  match ← chargeTransaction jobId c now with
  | some row => return row
  | none => getJob jobId none

/-! ## Status transitions -/

structure Transition where
  target : JobStatus
  expectedVersion : Option ℤ
  errorCode : Option PyStr
  releaseLease : Bool
  deriving DecidableEq, Repr

/-- The row as `transition` leaves it. -/
def Job.moved (j : Job T) (t : Transition) (now : T) : Job T :=
  { j with
    status := t.target
    leaseOwner := if t.releaseLease then none else j.leaseOwner
    leaseExpiresAt := if t.releaseLease then none else j.leaseExpiresAt
    lastErrorCode := t.errorCode
    version := j.version + 1
    updatedAt := now }

theorem Job.moved_key (t : Transition) (now : T) (j : Job T) : (j.moved t now).key = j.key := rfl

def bindOptional : Option PyStr → Db T Unit
  | none => pure ()
  | some s => bindText s

/-- The transaction of `transition`. -/
def transitionTransaction (jobId : PyStr) (t : Transition) (now : T) : Db T Unit :=
  immediate do
    let row ← selectJob jobId
    raiseIf (t.expectedVersion.any fun v => row.version ≠ v)
      (.versionMismatch (t.expectedVersion.getD 0) row.version)
    raiseIf (t.target ∉ allowedStatus row.status) (.illegalStatus row.status t.target)
    raiseIf (t.target = .succeeded ∧ row.stage ≠ .validate) .validateRequired
    bindOptional t.errorCode
    modify fun s => s.setJob jobId (·.moved t now) (Job.moved_key t now)

/-- `transition`. -/
def transition (jobId : PyStr) (t : Transition) (now : T) : Db T (Job T) := do
  transitionTransaction jobId t now
  getJob jobId none

/-! ## Queries -/

section Queries
variable [LinearOrder T]

/-- A row of `checkpoints` with its payload read back. -/
structure CheckpointRecord (F T : Type) where
  row : Checkpoint T
  payload : PyVal F

def createdBefore (a b : T × PyStr) : Prop := a.1 < b.1 ∨ (a.1 = b.1 ∧ a.2 ≤ b.2)

instance : DecidableRel (createdBefore (T := T)) := fun _ _ => inferInstanceAs (Decidable (_ ∨ _))

def checkpointOrder (a b : Checkpoint T) : Prop :=
  createdBefore (a.createdAt, a.checkpointKey) (b.createdAt, b.checkpointKey)

instance : DecidableRel (checkpointOrder (T := T)) := fun _ _ =>
  inferInstanceAs (Decidable (createdBefore _ _))

def jobOrder (a b : Job T) : Prop := createdBefore (a.createdAt, a.jobId) (b.createdAt, b.jobId)

instance : DecidableRel (jobOrder (T := T)) := fun _ _ =>
  inferInstanceAs (Decidable (createdBefore _ _))

/-- `{**dict(row), "payload": json.loads(row["payload"])}`. -/
def readCheckpoint {F : Type} [PyFloat F] (row : Checkpoint T) : Db T (CheckpointRecord F T) :=
  match loads (F := F) row.payload with
  | some j => pure ⟨row, ofJson j⟩
  | none => throw .payloadNotJson

/-- `checkpoints`. -/
def checkpoints (F : Type) [PyFloat F] (jobId : PyStr) : Db T (List (CheckpointRecord F T)) := do
  bindText jobId
  let s ← get
  ((s.checkpoints.rows.filter (·.jobId == jobId)).insertionSort checkpointOrder).mapM readCheckpoint

/-- The `WHERE` of `runnable_job_ids`. -/
def Job.runnable (now : T) (j : Job T) : Bool :=
  j.status == .queued || j.status == .retryWait ||
    (j.status == .running && j.leaseExpiresAt.any fun expiry => expiry ≤ now)

/-- `runnable_job_ids`. -/
def runnableJobIds (limit : ℤ) (now : T) : Db T (List PyStr) := do
  if limit < 1 then return []
  bindInt limit
  let s ← get
  return (((s.jobs.rows.filter (Job.runnable now)).insertionSort jobOrder).take limit.toNat).map
    (·.jobId)

end Queries

end JobStore
