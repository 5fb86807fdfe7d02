import VeriMat.Artifacts
import VeriMat.JobStore
import VeriMat.Ledger

/-! # Retention

`operations/retention.py`: planning, which only reads, and the destructive execution of a plan
over the control database, the artifact index, the ledgers and the artifact files. Execution is
a program of atomic operations: statements of one transaction over both databases, and single
operations on files. The ledger of a job is named by its tenant and its id. -/
namespace Retention

open PyText JsonText PyValue KeyedTable Events JobStore AtomicProgram RelyGuarantee
open Artifacts (ArtifactRef ArtifactStore BlobPath Index blobPath isSafeId)

def statusText : JobStatus → PyStr
  | .queued => py "QUEUED"
  | .running => py "RUNNING"
  | .validating => py "VALIDATING"
  | .retryWait => py "RETRY_WAIT"
  | .succeeded => py "SUCCEEDED"
  | .failed => py "FAILED"
  | .cancelled => py "CANCELLED"

/-! ## Plans -/

structure LedgerRecord where
  sizeBytes : ℕ
  sha256 : PyStr
  eventCount : ℕ
  headSha256 : PyStr
  deriving DecidableEq, Repr

structure BindingRecord where
  logicalKey : PyStr
  contentSha256 : PyStr
  sizeBytes : ℕ
  mediaType : PyStr
  deriving DecidableEq, Repr

structure Target (T : Type) where
  jobId : PyStr
  status : JobStatus
  updatedAt : T
  ledger : LedgerRecord
  artifactBindings : List BindingRecord
  deriving DecidableEq, Repr

structure BlobRecord where
  contentSha256 : PyStr
  sizeBytes : ℕ
  deriving DecidableEq, Repr

/-- A plan without its digest. -/
structure PlanCore (T : Type) where
  schemaVersion : ℤ
  planId : PyStr
  generatedAt : PyStr
  tenantId : PyStr
  cutoffEpoch : T
  targets : List (Target T)
  deletableBlobs : List BlobRecord
  deriving DecidableEq, Repr

structure Plan (T : Type) extends PlanCore T where
  planSha256 : PyStr
  deriving DecidableEq, Repr

inductive RetentionError where
  | unsafeId (label : String)
  | cutoff
  | noLedger (jobId : PyStr)
  | invalidLedger (jobId : PyStr)
  | blobAbsent (digest : PyStr)
  | blobVerification (digest : PyStr)
  | unsupportedPlan
  | acknowledgement
  | busy
  | quarantineExists
  | jobChanged (jobId : PyStr)
  | nonTerminal (jobId : PyStr)
  | outsideCutoff (jobId : PyStr)
  | bindingsChanged (jobId : PyStr)
  | ledgerChanged (jobId : PyStr)
  | invalidDigest
  | survivingReference
  | blobChanged
  | lostTarget
  /-- An exception of the ledger that its verification does not report. -/
  | ledgerError
  | payload (cause : JsonError)
  | unicodeEncodeError
  /-- An exception of `sqlite3` or of the operating system. -/
  | storage
  deriving DecidableEq, Repr

/-- The digest, the float of an instant, and `datetime.fromtimestamp(now, utc).isoformat()`. -/
structure RetentionHost (F T : Type) where
  host : Host
  float : T → F
  isoformat : T → PyStr

section Digest
variable {F T : Type} [PyFloat F] (H : RetentionHost F T)

def text (key : String) (value : PyStr) : PyKey F × PyVal F := (.str (py key), .str value)

def number (key : String) (value : ℤ) : PyKey F × PyVal F := (.str (py key), .int value)

def BindingRecord.dict (b : BindingRecord) : PyVal F :=
  .dict [text "logical_key" b.logicalKey, text "content_sha256" b.contentSha256,
    number "size_bytes" b.sizeBytes, text "media_type" b.mediaType]

def LedgerRecord.dict (l : LedgerRecord) : PyVal F :=
  .dict [number "size_bytes" l.sizeBytes, text "sha256" l.sha256,
    number "event_count" l.eventCount, text "head_sha256" l.headSha256]

def Target.dict (t : Target T) : PyVal F :=
  .dict [text "job_id" t.jobId, text "status" (statusText t.status),
    (.str (py "updated_at"), .float (H.float t.updatedAt)), (.str (py "ledger"), t.ledger.dict),
    (.str (py "artifact_bindings"), .list (t.artifactBindings.map BindingRecord.dict))]

def BlobRecord.dict (b : BlobRecord) : PyVal F :=
  .dict [text "content_sha256" b.contentSha256, number "size_bytes" b.sizeBytes]

def PlanCore.dict (core : PlanCore T) : PyVal F :=
  .dict [number "schema_version" core.schemaVersion, text "plan_id" core.planId,
    text "generated_at" core.generatedAt, text "tenant_id" core.tenantId,
    (.str (py "cutoff_epoch"), .float (H.float core.cutoffEpoch)),
    text "eligibility" (py "terminal jobs with updated_at at or before cutoff"),
    (.str (py "targets"), .list (core.targets.map (Target.dict H))),
    (.str (py "deletable_blobs"), .list (core.deletableBlobs.map BlobRecord.dict))]

/-- `_plan_digest`. -/
def planDigest (core : PlanCore T) : Except RetentionError PyStr :=
  match canonicalJson (core.dict H) with
  | .error e => .error (.payload e)
  | .ok rendered =>
    match encode rendered with
    | none => .error .unicodeEncodeError
    | some bytes => .ok (H.host.sha256 bytes)

end Digest

/-! ## What retention works on -/

/-- A file by its place in a quarantine directory. -/
inductive Slot where
  | ledger (jobId : PyStr)
  | blob (digest : PyStr)
  deriving DecidableEq, Repr

/-- The content of the two databases. -/
structure Databases (T : Type) where
  jobs : Store T
  index : Index

structure Receipt where
  operationId : PyStr
  planSha256 : PyStr
  deletedJobs : ℕ
  deletedArtifactBindings : ℕ
  deletedExclusiveBlobs : ℕ
  deletedLedgers : ℕ
  walCheckpointComplete : Bool
  deriving DecidableEq, Repr

inductive AuditEvent where
  | prepared (plannedJobs : ℕ)
  | completed (receipt : Receipt)
  | aborted
  deriving DecidableEq, Repr

structure AuditRecord where
  operationId : PyStr
  tenantSha256 : PyStr
  planSha256 : PyStr
  event : AuditEvent
  deriving DecidableEq, Repr

/-- `quarantine` has the directory of an operation by its plan id; `transaction` is what the open
transaction sees, which no other connection may write beside. `commits` is how many transactions
retention has committed, which no operation reads. -/
structure World (T : Type) where
  jobs : Store T
  artifacts : ArtifactStore
  ledgers : PyStr × PyStr → Option PyBytes
  quarantine : PyStr → Option (Slot → Option PyBytes)
  locked : Bool
  transaction : Option (Databases T)
  audit : List AuditRecord
  commits : ℕ

variable {T : Type}

def World.databases (w : World T) : Databases T := ⟨w.jobs, w.artifacts.index⟩

/-- Where a file of the store belongs. -/
inductive Place where
  | ledger (tenantId jobId : PyStr)
  | blob (path : BlobPath)
  deriving DecidableEq, Repr

def Slot.place (H : Host) (tenantId : PyStr) : Slot → Place
  | .ledger jobId => .ledger tenantId jobId
  | .blob digest => .blob (blobPath H tenantId digest)

def World.file (w : World T) : Place → Option PyBytes
  | .ledger tenantId jobId => w.ledgers (tenantId, jobId)
  | .blob path => w.artifacts.blobs path

def World.setFile (w : World T) (place : Place) (content : Option PyBytes) : World T :=
  match place with
  | .ledger tenantId jobId =>
    { w with ledgers := Function.update w.ledgers (tenantId, jobId) content }
  | .blob path =>
    { w with artifacts := { w.artifacts with
        blobs := Function.update w.artifacts.blobs path content } }

/-- The file in a slot of a quarantine. -/
def World.held (w : World T) (planId : PyStr) (slot : Slot) : Option PyBytes :=
  (w.quarantine planId).bind fun files => files slot

def World.setHeld (w : World T) (planId : PyStr) (slot : Slot) (content : Option PyBytes) :
    World T :=
  let files := (w.quarantine planId).map fun files => Function.update files slot content
  { w with quarantine := Function.update w.quarantine planId files }

/-- The rows of one tenant's job, `ORDER BY logical_key`. -/
def bindingRecords (index : Index) (tenantId jobId : PyStr) : List BindingRecord :=
  ((index.rows.filter fun row => row.tenantId == tenantId && row.jobId == jobId).map fun row =>
    ⟨row.logicalKey, row.contentSha256, row.sizeBytes, row.mediaType⟩).insertionSort
      fun a b => a.logicalKey ≤ b.logicalKey

/-- The jobs whose artifacts have a content. -/
def referents (index : Index) (tenantId digest : PyStr) : List PyStr :=
  (index.rows.filter fun row => row.tenantId == tenantId && row.contentSha256 == digest).map
    (·.jobId)

def Databases.deleteArtifacts (d : Databases T) (tenantId jobId : PyStr) : Databases T :=
  { d with index := d.index.delete fun row => row.tenantId == tenantId && row.jobId == jobId }

/-- The row of a job that a statement selects by its tenant and its id. -/
def jobOf (tenantId jobId : PyStr) (j : Job T) : Bool := j.tenantId == tenantId && j.jobId == jobId

/-- `DELETE FROM jobs`, with the `ON DELETE CASCADE` of its checkpoints and its usage. -/
def Databases.deleteJob (d : Databases T) (tenantId jobId : PyStr) : Databases T :=
  if (d.jobs.jobs.find (jobOf tenantId jobId)).isSome then
    { d with jobs :=
        ⟨d.jobs.jobs.delete (jobOf tenantId jobId),
          d.jobs.checkpoints.delete fun c => c.jobId == jobId,
          d.jobs.usageLedger.delete fun u => u.jobId == jobId⟩ }
  else d

section Code
variable {F : Type} [PyFloat F] [LinearOrder T] (H : RetentionHost F T)

/-! ## Planning -/

/-- The record of a ledger that verifies. -/
def ledgerRecord (file : PyBytes) : Except RetentionError (Option LedgerRecord) :=
  match Ledger.verify (F := F) H.host file with
  | .error _ => .error .ledgerError
  | .ok report =>
    .ok (if report.ok then
      some ⟨file.length, H.host.sha256 file, report.eventCount, report.headHash⟩ else none)

/-- One turn of the loop of `build_retention_plan`. -/
def planTarget (w : World T) (tenantId : PyStr) (j : Job T) : Except RetentionError (Target T) := do
  if isSafeId j.jobId = false then throw (.unsafeId "job_id")
  match w.ledgers (tenantId, j.jobId) with
  | none => throw (.noLedger j.jobId)
  | some file =>
    match ← ledgerRecord H file with
    | none => throw (.invalidLedger j.jobId)
    | some ledger =>
      return ⟨j.jobId, j.status, j.updatedAt, ledger,
        bindingRecords w.artifacts.index tenantId j.jobId⟩

/-- The terminal jobs of a tenant that no later instant has touched, `ORDER BY job_id`. -/
def eligible (w : World T) (tenantId : PyStr) (cutoff : T) : List (Job T) :=
  ((w.jobs.jobs.rows.filter fun j => j.tenantId == tenantId && decide (j.updatedAt ≤ cutoff)
    ).insertionSort fun a b => a.jobId ≤ b.jobId).filter fun j => decide (j.status ∈ terminal)

/-- The deletable blob of a digest, unless another job refers to it. -/
def planBlob (w : World T) (tenantId : PyStr) (targets : List (Target T)) (digest : PyStr) :
    Except RetentionError (Option BlobRecord) :=
  if ∃ jobId ∈ referents w.artifacts.index tenantId digest, jobId ∉ targets.map (·.jobId) then
    .ok none
  else
    match w.artifacts.blobs (blobPath H.host tenantId digest) with
    | none => .error (.blobAbsent digest)
    | some content =>
      if (∀ t ∈ targets, ∀ b ∈ t.artifactBindings, b.contentSha256 = digest →
          b.sizeBytes = content.length) ∧ H.host.sha256 content = digest then
        .ok (some ⟨digest, content.length⟩)
      else .error (.blobVerification digest)

/-- `build_retention_plan`. -/
def buildRetentionPlan [Zero T] (w : World T) (tenantId : PyStr) (cutoff now : T) (uuid : PyStr) :
    Except RetentionError (Plan T) := do
  if isSafeId tenantId = false then throw (.unsafeId "tenant_id")
  if ¬(0 ≤ cutoff ∧ cutoff ≤ now) then throw .cutoff
  let targets ← (eligible w tenantId cutoff).mapM (planTarget H w tenantId)
  let digests := (targets.flatMap fun t => t.artifactBindings.map (·.contentSha256)).dedup
  let blobs ← (digests.insertionSort (· ≤ ·)).mapM (planBlob H w tenantId targets)
  let core : PlanCore T := ⟨1, uuid, H.isoformat now, tenantId, cutoff, targets, blobs.reduceOption⟩
  return ⟨core, ← planDigest H core⟩

/-! ## Operations -/

inductive RetentionOp where
  | lock
  | appendAudit (record : AuditRecord)
  | quarantineExists (planId : PyStr)
  | makeQuarantine (planId : PyStr)
  | beginImmediate
  | selectJob (tenantId jobId : PyStr)
  | selectBindings (tenantId jobId : PyStr)
  | readFile (tenantId : PyStr) (slot : Slot)
  | move (planId tenantId : PyStr) (slot : Slot)
  | selectReferents (tenantId digest : PyStr)
  | deleteArtifacts (tenantId jobId : PyStr)
  | deleteJob (tenantId jobId : PyStr)
  | commit
  | walCheckpoint
  | discard (planId : PyStr) (ignoreErrors : Bool)
  | rollback
  | restorable (planId tenantId : PyStr) (slot : Slot)
  | restore (planId tenantId : PyStr) (slot : Slot)
  | release

abbrev Result (T : Type) : RetentionOp → Type
  | .quarantineExists _ => Bool
  | .selectJob _ _ => Option (JobStatus × T)
  | .selectBindings _ _ => List BindingRecord
  | .readFile _ _ => Option PyBytes
  | .selectReferents _ _ => List PyStr
  | .deleteJob _ _ => ℕ
  | .walCheckpoint => Bool
  | .restorable _ _ _ => Bool
  | _ => Unit

/-- What the databases are to the connection of an execution. -/
def World.seen (w : World T) : Databases T := w.transaction.getD w.databases

def World.committed (w : World T) (d : Databases T) : World T :=
  { w with
    jobs := d.jobs
    artifacts := { w.artifacts with index := d.index }
    transaction := none
    commits := w.commits + 1 }

/-- What an operation replies and leaves when the system does not fail it. -/
def respond (w : World T) : (o : RetentionOp) → Except RetentionError (Result T o) × World T
  | .lock => if w.locked then (.error .busy, w) else (.ok (), { w with locked := true })
  | .appendAudit record => (.ok (), { w with audit := w.audit ++ [record] })
  | .quarantineExists planId => (.ok (w.quarantine planId).isSome, w)
  | .makeQuarantine planId =>
    match w.quarantine planId with
    | some _ => (.error .storage, w)
    | none =>
      (.ok (), { w with quarantine := Function.update w.quarantine planId (some fun _ => none) })
  | .beginImmediate => (.ok (), { w with transaction := some w.databases })
  | .selectJob tenantId jobId =>
    (.ok ((w.seen.jobs.jobs.find (jobOf tenantId jobId)).map fun j => (j.status, j.updatedAt)), w)
  | .selectBindings tenantId jobId => (.ok (bindingRecords w.seen.index tenantId jobId), w)
  | .readFile tenantId slot => (.ok (w.file (slot.place H.host tenantId)), w)
  | .move planId tenantId slot =>
    match w.file (slot.place H.host tenantId) with
    | none => (.error .storage, w)
    | some content =>
      (.ok (), (w.setHeld planId slot (some content)).setFile (slot.place H.host tenantId) none)
  | .selectReferents tenantId digest => (.ok (referents w.seen.index tenantId digest), w)
  | .deleteArtifacts tenantId jobId =>
    (.ok (), { w with transaction := some (w.seen.deleteArtifacts tenantId jobId) })
  | .deleteJob tenantId jobId =>
    (.ok (if (w.seen.jobs.jobs.find (jobOf tenantId jobId)).isSome then 1 else 0),
      { w with transaction := some (w.seen.deleteJob tenantId jobId) })
  | .commit => (.ok (), w.committed w.seen)
  | .walCheckpoint => (.ok true, w)
  | .discard planId _ => (.ok (), { w with quarantine := Function.update w.quarantine planId none })
  | .rollback => (.ok (), { w with transaction := none })
  | .restorable planId tenantId slot =>
    (.ok ((w.held planId slot).isSome && (w.file (slot.place H.host tenantId)).isNone), w)
  | .restore planId tenantId slot =>
    match w.held planId slot with
    | none => (.error .storage, w)
    | some content =>
      (.ok (),
        (w.setHeld planId slot none).setFile (slot.place H.host tenantId) (some content))
  | .release => (.ok (), { w with locked := false, transaction := none })

/-- An operation that the system may fail; those of the abort path it does not. -/
def RetentionOp.mayFail : RetentionOp → Bool
  | .lock | .quarantineExists _ | .rollback | .restorable _ _ _ | .restore _ _ _ | .release => false
  | .discard _ ignoreErrors => !ignoreErrors
  | _ => true

/-- What an operation does; the checkpoint of the logs may be incomplete. -/
def performs (w : World T) :
    (o : RetentionOp) → Except RetentionError (Result T o) → World T → Prop
  | .walCheckpoint, _, w' => w' = w
  | o, r, w' =>
    respond H w o = (r, w') ∨ (o.mayFail = true ∧ r = .error .storage ∧ w' = w)

/-! ## Execution -/

abbrev Action (T α : Type) :=
  Fallible RetentionOp (fun o => Except RetentionError (Result T o)) RetentionError α

def act (o : RetentionOp) : Action T (Result T o) := ask o

def raiseIf (c : Prop) [Decidable c] (e : RetentionError) : Action T Unit :=
  if c then throw e else pure ()

/-- `_validate_plan`. -/
def validatePlan (plan : Plan T) (acknowledgedSha256 : PyStr) : Action T Unit := do
  raiseIf (plan.schemaVersion ≠ 1) .unsupportedPlan
  match planDigest H plan.toPlanCore with
  | .error e => throw e
  | .ok calculated =>
    raiseIf (plan.planSha256 ≠ calculated ∨ acknowledgedSha256 ≠ calculated) .acknowledgement
    raiseIf (isSafeId plan.tenantId = false) (.unsafeId "tenant_id")
    raiseIf (isSafeId plan.planId = false) (.unsafeId "plan_id")

def Plan.record (plan : Plan T) (acknowledgedSha256 : PyStr) (event : AuditEvent) : AuditRecord :=
  ⟨plan.planId, H.host.sha256 ((encode plan.tenantId).getD []), acknowledgedSha256, event⟩

/-- The checks of a ledger, and its move. -/
def moveLedger (plan : Plan T) (t : Target T) : Action T Unit := do
  match ← act (.readFile plan.tenantId (.ledger t.jobId)) with
  | none => throw (.ledgerChanged t.jobId)
  | some file =>
    match ledgerRecord H file with
    | .error e => throw e
    | .ok found =>
      raiseIf (found ≠ some t.ledger) (.ledgerChanged t.jobId)
      act (.move plan.planId plan.tenantId (.ledger t.jobId))

/-- One turn of the loop over the targets. -/
def moveTarget (plan : Plan T) (t : Target T) : Action T Unit := do
  raiseIf (isSafeId t.jobId = false) (.unsafeId "job_id")
  match ← act (.selectJob plan.tenantId t.jobId) with
  | none => throw (.jobChanged t.jobId)
  | some (status, updatedAt) =>
    raiseIf (status ≠ t.status ∨ updatedAt ≠ t.updatedAt) (.jobChanged t.jobId)
    raiseIf (status ∉ terminal) (.nonTerminal t.jobId)
    raiseIf (plan.cutoffEpoch < updatedAt) (.outsideCutoff t.jobId)
    let actual ← act (.selectBindings plan.tenantId t.jobId)
    raiseIf (actual ≠ t.artifactBindings) (.bindingsChanged t.jobId)
    moveLedger H plan t

def isHexDigit (c : ℕ) : Bool := (48 ≤ c && c ≤ 57) || (97 ≤ c && c ≤ 102)

/-- `re.fullmatch(r"[0-9a-f]{64}", digest)`. -/
def isDigest (s : PyStr) : Bool := s.length == 64 && s.all isHexDigit

/-- One turn of the loop over the blobs. -/
def moveBlob (plan : Plan T) (targetIds : List PyStr) (b : BlobRecord) : Action T Unit := do
  raiseIf (isDigest b.contentSha256 = false) .invalidDigest
  let remaining ← act (.selectReferents plan.tenantId b.contentSha256)
  raiseIf (∃ jobId ∈ remaining, jobId ∉ targetIds) .survivingReference
  match ← act (.readFile plan.tenantId (.blob b.contentSha256)) with
  | none => throw .blobChanged
  | some content =>
    raiseIf (content.length ≠ b.sizeBytes ∨ H.host.sha256 content ≠ b.contentSha256) .blobChanged
    act (.move plan.planId plan.tenantId (.blob b.contentSha256))

/-- The deletions of one job. -/
def deleteTarget (plan : Plan T) (jobId : PyStr) : Action T Unit := do
  act (.deleteArtifacts plan.tenantId jobId)
  let rowcount ← act (.deleteJob plan.tenantId jobId)
  raiseIf (rowcount ≠ 1) .lostTarget

/-- The local variables that the abort path looks at. -/
structure Locals where
  moved : List Slot
  targetIds : List PyStr
  committed : Bool
  auditPrepared : Bool
  deriving DecidableEq, Repr

/-- The body of the `try`; an exception leaves with the local variables. -/
abbrev Guarded (T α : Type) :=
  Fallible RetentionOp (fun o => Except RetentionError (Result T o)) (RetentionError × Locals) α

def during {α : Type} (l : Locals) (x : Action T α) : Guarded T α := x.adapt fun e => (e, l)

def moveTargets (plan : Plan T) : List (Target T) → Locals → Guarded T Locals
  | [], l => pure l
  | t :: targets, l => do
    during l (moveTarget H plan t)
    moveTargets plan targets
      { l with moved := l.moved ++ [.ledger t.jobId], targetIds := l.targetIds ++ [t.jobId] }

def moveBlobs (plan : Plan T) : List BlobRecord → Locals → Guarded T Locals
  | [], l => pure l
  | b :: blobs, l => do
    during l (moveBlob H plan l.targetIds b)
    moveBlobs plan blobs { l with moved := l.moved ++ [.blob b.contentSha256] }

def deleteTargets (plan : Plan T) : List PyStr → Action T Unit
  | [] => pure ()
  | jobId :: jobIds => do
    deleteTarget plan jobId
    deleteTargets plan jobIds

def Plan.receipt (plan : Plan T) (acknowledgedSha256 : PyStr) (targetIds : List PyStr)
    (complete : Bool) : Receipt where
  operationId := plan.planId
  planSha256 := acknowledgedSha256
  deletedJobs := targetIds.length
  deletedArtifactBindings := (plan.targets.map fun t => t.artifactBindings.length).sum
  deletedExclusiveBlobs := plan.deletableBlobs.length
  deletedLedgers := targetIds.length
  walCheckpointComplete := complete

/-- What follows the commit. -/
def finish (plan : Plan T) (acknowledgedSha256 : PyStr) (targetIds : List PyStr) :
    Action T Receipt := do
  let complete ← act .walCheckpoint
  act (.discard plan.planId false)
  act (.appendAudit (plan.record H acknowledgedSha256
    (.completed (plan.receipt acknowledgedSha256 targetIds complete))))
  return plan.receipt acknowledgedSha256 targetIds complete

def prepare (plan : Plan T) : Action T Unit := do
  raiseIf (← act (.quarantineExists plan.planId)) .quarantineExists
  act (.makeQuarantine plan.planId)
  act .beginImmediate

/-- The body of the `try` of `execute_retention_plan`, behind its lock. -/
def executeBody (plan : Plan T) (acknowledgedSha256 : PyStr) : Guarded T Receipt := do
  during ⟨[], [], false, false⟩ (act (.appendAudit
    (plan.record H acknowledgedSha256 (.prepared plan.targets.length))))
  during ⟨[], [], false, true⟩ (prepare plan)
  let l ← moveTargets H plan plan.targets ⟨[], [], false, true⟩
  let l ← moveBlobs H plan plan.deletableBlobs l
  during l (do deleteTargets plan l.targetIds; act .commit)
  during { l with committed := true } (finish H plan acknowledgedSha256 l.targetIds)

/-- One file goes back, unless its place has been taken. -/
def undo (plan : Plan T) : List Slot → Action T Unit
  | [] => pure ()
  | slot :: slots => do
    if ← act (.restorable plan.planId plan.tenantId slot) then
      act (.restore plan.planId plan.tenantId slot)
    undo plan slots

/-- The `except Exception` of `execute_retention_plan`. -/
def abort (plan : Plan T) (acknowledgedSha256 : PyStr) (l : Locals) : Action T Unit := do
  act .rollback
  if l.committed then return ()
  undo plan l.moved.reverse
  act (.discard plan.planId true)
  if l.auditPrepared then
    tryCatch (act (.appendAudit (plan.record H acknowledgedSha256 .aborted))) fun _ => pure ()

/-- `execute_retention_plan`. -/
def executeRetentionPlan (plan : Plan T) (acknowledgedSha256 : PyStr) : Action T Receipt := do
  validatePlan H plan acknowledgedSha256
  act .lock
  match ← ExceptT.lift (executeBody H plan acknowledgedSha256).run with
  | .ok receipt =>
    act .release
    return receipt
  | .error (e, l) =>
    abort H plan acknowledgedSha256 l
    act .release
    throw e

end Code

end Retention
