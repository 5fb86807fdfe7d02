import VeriMat.LedgerGrowth
import VeriMat.PolicyOutbox
import VeriMat.RelyGuarantee

/-! # The policy audit bridge

`learning/audit.py` over one policy database and one policy ledger: `flush` hands the
undispatched rows of a tenant to the ledger, batch by batch, and marks each row once the ledger
has its event. A call of the store or of the ledger is one operation; a process that is killed
inside a write of the ledger leaves a part of the line behind. -/
namespace PolicyAudit

open PyText JsonText PyValue AtomicProgram RelyGuarantee Transaction JsonWritable
open PolicyStore PolicyCredit PolicyOutbox LedgerConcurrent LedgerGrowth
open Ledger (LedgerError LedgerIssue AppendArgs VerificationReport)
open Events (EventEnvelope isHash replaceZ)

variable {F T : Type} [PyFloat F]

/-! ## Operations -/

/-- The digests, hexadecimal, and `utc_now`, a date with a timezone. -/
structure AuditHost (F T : Type) [PyFloat F] where
  ledger : Events.Host
  policy : PolicyHost F
  utcNow : T → PyStr
  ledger_digest : ∀ bytes, isHash (ledger.sha256 bytes) = true
  policy_digest : HexDigest policy
  utcNow_date : ∀ t, ledger.fromisoformat (replaceZ (utcNow t)) = some true
  utcNow_label : ∀ t, Label (utcNow t)

/-- The arguments `flush` calls `EventLedger.append` with. -/
structure EventCall (F : Type) where
  tenantId : PyStr
  jobId : PyStr
  aggregateType : PyStr
  aggregateId : PyStr
  eventType : PyStr
  payload : PyVal F
  idempotencyKey : PyStr

omit [PyFloat F] in
/-- The call with the id and the time a new event gets. -/
def EventCall.args (c : EventCall F) (uuid now : PyStr) : AppendArgs F :=
  ⟨c.tenantId, c.jobId, c.aggregateType, c.aggregateId, c.eventType, c.payload, c.idempotencyKey,
    none, none, none, uuid, now⟩

inductive FlushError (F : Type) where
  | auditJobIdRequired
  | flushArguments
  | store (e : PolicyError)
  | ledger (e : LedgerError F)
  | invalidLedger (error : Option (LedgerIssue F))
  | killed

inductive FlushOp (F : Type) where
  | pendingEvents (tenantId : PyStr) (limit : ℤ)
  | append (c : EventCall F)
  | markDispatched (tenantId eventId : PyStr)
  | verify

/-- What an operation returns. -/
abbrev FlushOp.Result (T : Type) : FlushOp F → Type
  | .pendingEvents .. => List (PolicyEvent F T)
  | .append _ => EventEnvelope F
  | .markDispatched .. => Unit
  | .verify => VerificationReport F

/-- What an operation replies: its result or an exception. -/
abbrev FlushReply (F T : Type) (o : FlushOp F) : Type := Except (FlushError F) (o.Result T)

abbrev FlushProgram (F T α : Type) := Fallible (FlushOp F) (FlushReply F T) (FlushError F) α

/-- One call of the store or of the ledger. -/
def act (o : FlushOp F) : FlushProgram F T (o.Result T) := ask o

/-! ## `flush` -/

/-- A call of `PolicyAuditBridge(audit_job_id=..).flush`; `rounds` bounds its `while` loop. -/
structure FlushCall where
  auditJobId : PyStr
  batchSize : ℤ
  rounds : ℕ
  deriving DecidableEq, Repr

structure PolicyFlushReport where
  dispatched : ℕ
  ledgerEvents : ℕ
  ledgerHead : PyStr
  deriving DecidableEq, Repr

/-- The ledger call for an event. -/
def eventCall (auditJobId tenantId : PyStr) (event : PolicyEvent F T) : EventCall F :=
  ⟨tenantId, auditJobId, event.aggregateType, event.aggregateId, event.eventType, event.payload,
    event.idempotencyKey⟩

/-- `for event in pending`. -/
def dispatchAll (auditJobId tenantId : PyStr) :
    List (PolicyEvent F T) → ℕ → FlushProgram F T ℕ
  | [], dispatched => pure dispatched
  | event :: pending, dispatched => do
    let _ ← act (.append (eventCall auditJobId tenantId event))
    act (.markDispatched tenantId event.eventId)
    dispatchAll auditJobId tenantId pending (dispatched + 1)

/-- `while True`; `none` when the rounds are used up. -/
def flushRounds (auditJobId tenantId : PyStr) (batchSize : ℤ) :
    ℕ → ℕ → FlushProgram F T (Option ℕ)
  | 0, _ => pure none
  | rounds + 1, dispatched => do
    let pending : List (PolicyEvent F T) ← act (.pendingEvents tenantId batchSize)
    if pending.isEmpty then pure (some dispatched)
    else do
      let dispatched ← dispatchAll auditJobId tenantId pending dispatched
      if pending.length < batchSize then pure (some dispatched)
      else flushRounds auditJobId tenantId batchSize rounds dispatched

/-- What `flush` does once its events are dispatched. -/
def flushReport : Option ℕ → FlushProgram F T (Option PolicyFlushReport)
  | none => pure none
  | some dispatched => do
    let receipt : VerificationReport F ← act .verify
    if receipt.ok then pure (some ⟨dispatched, receipt.eventCount, receipt.headHash⟩)
    else throw (.invalidLedger receipt.error)

/-- `PolicyAuditBridge.__init__` and `flush`. -/
def flush (tenantId : PyStr) (c : FlushCall) : FlushProgram F T (Option PolicyFlushReport) :=
  if isBlank c.auditJobId then throw .auditJobIdRequired
  else if isBlank tenantId ∨ c.batchSize < 1 then throw .flushArguments
  else do
    let dispatched ← flushRounds c.auditJobId tenantId c.batchSize c.rounds 0
    flushReport dispatched

/-! ## The shared state -/

structure Audit (F T : Type) where
  db : PolicyDatabase F T
  file : PyBytes

/-- An id as `uuid4` gives it, of no event on record. -/
def FreshId (H : AuditHost F T) (file : PyBytes) (uuid : PyStr) : Prop :=
  Label uuid ∧ ∀ es : List (EventEnvelope F), Ledger.events H.ledger file = .ok es →
    ∀ e ∈ es, e.eventId ≠ .str uuid

variable [LinearOrder T]

/-- An operation that is carried out. -/
def Performs (H : AuditHost F T) (s : Audit F T) :
    (o : FlushOp F) → FlushReply F T o → Audit F T → Prop
  | .pendingEvents tenantId limit, r, s' =>
    r = (ran (pendingEvents tenantId limit) s.db).1.mapError .store ∧
      s' = { s with db := (ran (pendingEvents (F := F) (T := T) tenantId limit) s.db).2 }
  | .append c, r, s' => ∃ uuid t, FreshId H s.file uuid ∧
    r = ((Ledger.append H.ledger s.file (c.args uuid (H.utcNow t))).map Prod.fst).mapError .ledger ∧
      s' = { s with file := fileAfter H.ledger s.file (c.args uuid (H.utcNow t)) }
  | .markDispatched tenantId eventId, r, s' => ∃ now,
    r = (ran (markDispatched tenantId eventId now) s.db).1.mapError .store ∧
      s' = { s with db := (ran (markDispatched tenantId eventId now) s.db).2 }
  | .verify, r, s' => r = (Ledger.verify H.ledger s.file).mapError .ledger ∧ s' = s

/-- A process killed inside the write of an event has written some bytes of its line. -/
def Killed (H : AuditHost F T) (s : Audit F T) :
    (o : FlushOp F) → FlushReply F T o → Audit F T → Prop
  | .append c, r, s' => r = .error .killed ∧ ∃ uuid t file₂, FreshId H s.file uuid ∧
    Grown H.ledger s.file (c.args uuid (H.utcNow t)) file₂ ∧ s' = { s with file := file₂ }
  | _, _, _ => False

/-- The flushes of one tenant against one ledger, among the mutations of every process. -/
def auditMachine (H : AuditHost F T) (tenantId : PyStr) :
    Machine (Audit F T) FlushCall (FlushOp F) (FlushReply F T)
      (Except (FlushError F) (Option PolicyFlushReport)) where
  program c := (flush tenantId c).run
  perform s o r s' := Performs H s o r s' ∨ Killed H s o r s'
  external s s' := ∃ o : Operation F T, Mutates o ∧ s' = { s with db := o.after H.policy s.db }

/-- A migrated database and a ledger without a file. -/
def Audit.initial : Audit F T := ⟨.empty, []⟩

end PolicyAudit
