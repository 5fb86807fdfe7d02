import VeriMat.Events

/-! # The event ledger

`evidence/ledger.py` over the bytes of one ledger file; a missing file reads and grows as the
empty one. `append` holds the exclusive lock from its first read to its last write, so it is
one step that returns the new file. It splits lines at line feeds only, while `events` and
`verify` open the file in universal newline mode. -/
namespace Ledger

open PyText JsonText PyValue Events

/-- What the text of a `LedgerIntegrityError` says. -/
inductive LedgerIssue (F : Type) where
  | event (line : ℕ) (issue : EventIssue)
  | sequence (line expected : ℕ) (got : PyVal F)
  | previousHash (line : ℕ)
  | duplicateEventId (line : ℕ)
  | duplicateIdempotencyKey (line : ℕ)
  | optimisticAppend (expected head : PyStr)

/-- The exceptions of this module. `idempotencyConflict` is a subclass of the integrity
error; the last three escape it. -/
inductive LedgerError (F : Type) where
  | integrity (issue : LedgerIssue F)
  | idempotencyConflict (key : PyStr)
  | event (e : EventError)
  | typeError
  | unicodeDecodeError

structure VerificationReport (F : Type) where
  ok : Bool
  eventCount : ℕ
  headHash : PyStr
  error : Option (LedgerIssue F)

variable {F : Type} [PyFloat F]

/-- `value == text`. -/
def isStr (v : PyVal F) (s : PyStr) : Bool :=
  match v with
  | .str t => t == s
  | _ => false

/-- A value `hash()` takes. -/
def hashable : PyVal F → Bool
  | .list _ | .dict _ => false
  | _ => true

/-- `event.event_hash` once the event is valid. -/
def hashOf (e : EventEnvelope F) : PyStr :=
  match e.eventHash with
  | .str h => h
  | _ => []

/-- `events[-1].event_hash if events else ""`. -/
def headHash (events : List (EventEnvelope F)) : PyStr :=
  match events.getLast? with
  | some e => hashOf e
  | none => []

/-- The checks of one event against the events before it. -/
def checkEvent (events : List (EventEnvelope F)) (line : ℕ) (e : EventEnvelope F) :
    Except (LedgerError F) Unit :=
  if !equalsInt e.sequence (events.length + 1 : ℕ) then
    .error (.integrity (.sequence line (events.length + 1) e.sequence))
  else if !isStr e.previousHash (headHash events) then
    .error (.integrity (.previousHash line))
  else if !hashable e.eventId then .error .typeError
  else if events.any fun x => pyEq x.eventId e.eventId then
    .error (.integrity (.duplicateEventId line))
  else if !hashable e.idempotencyKey then .error .typeError
  else if events.any fun x => pyEq x.idempotencyKey e.idempotencyKey then
    .error (.integrity (.duplicateIdempotencyKey line))
  else .ok ()

/-- The loop of `_load_locked` from line `n` on, after the events already read. -/
def loadLines (H : Host) :
    List (EventEnvelope F) → ℕ → List PyStr → Except (LedgerError F) (List (EventEnvelope F))
  | events, _, [] => .ok events
  | events, n, raw :: rest =>
    if isBlank raw then loadLines H events (n + 1) rest
    else
      match EventEnvelope.fromJson H raw with
      | .error (.validation issue) => .error (.integrity (.event n issue))
      | .error e => .error (.event e)
      | .ok e =>
        match checkEvent events n e with
        | .error x => .error x
        | .ok () => loadLines H (events ++ [e]) (n + 1) rest

/-- `_load_locked` on a file opened for the given way of splitting lines. -/
def loadLocked (H : Host) (split : PyStr → List PyStr) (file : PyBytes) :
    Except (LedgerError F) (List (EventEnvelope F)) :=
  match decode file with
  | none => .error .unicodeDecodeError
  | some text => loadLines H [] 1 (split text)

/-- `EventLedger.events`. -/
def events (H : Host) (file : PyBytes) : Except (LedgerError F) (List (EventEnvelope F)) :=
  loadLocked H universalLines file

/-- `EventLedger.verify`: only an integrity error becomes a report. -/
def verify (H : Host) (file : PyBytes) : Except (LedgerError F) (VerificationReport F) :=
  match events H file with
  | .ok es => .ok ⟨true, es.length, headHash es, none⟩
  | .error (.integrity issue) => .ok ⟨false, 0, [], some issue⟩
  | .error e => .error e

/-- The arguments of `append`; `uuid` and `now` are what `uuid.uuid4` and the clock give. -/
structure AppendArgs (F : Type) where
  tenantId : PyStr
  jobId : PyStr
  aggregateType : PyStr
  aggregateId : PyStr
  eventType : PyStr
  payload : PyVal F
  idempotencyKey : PyStr
  eventId : Option PyStr
  occurredAt : Option PyStr
  expectedHead : Option PyStr
  uuid : PyStr
  now : PyStr

/-- `_semantic_fingerprint`. -/
def semanticFingerprint (tenantId jobId aggregateType aggregateId eventType payload : PyVal F) :
    Except JsonError PyStr :=
  canonicalJson (.dict [(.str (py "tenant_id"), tenantId), (.str (py "job_id"), jobId),
    (.str (py "aggregate_type"), aggregateType), (.str (py "aggregate_id"), aggregateId),
    (.str (py "event_type"), eventType), (.str (py "payload"), payload)])

def AppendArgs.semantic (a : AppendArgs F) : Except JsonError PyStr :=
  semanticFingerprint (.str a.tenantId) (.str a.jobId) (.str a.aggregateType)
    (.str a.aggregateId) (.str a.eventType) a.payload

def envelopeSemantic (e : EventEnvelope F) : Except JsonError PyStr :=
  semanticFingerprint e.tenantId e.jobId e.aggregateType e.aggregateId e.eventType e.payload

/-- `event_id or str(uuid.uuid4())`. -/
def AppendArgs.newId (a : AppendArgs F) : PyStr := orElse a.eventId a.uuid

/-- The envelope a new event gets behind the events already there. -/
def AppendArgs.buildArgs (a : AppendArgs F) (es : List (EventEnvelope F)) : BuildArgs F where
  sequence := (es.length + 1 : ℕ)
  eventId := a.newId
  tenantId := a.tenantId
  jobId := a.jobId
  aggregateType := a.aggregateType
  aggregateId := a.aggregateId
  eventType := a.eventType
  payload := a.payload
  idempotencyKey := a.idempotencyKey
  previousHash := headHash es
  occurredAt := a.occurredAt
  now := a.now

/-- A new event built and written at the end of the file. -/
def writeNew (H : Host) (file : PyBytes) (a : AppendArgs F) (es : List (EventEnvelope F)) :
    Except (LedgerError F) (EventEnvelope F × PyBytes) :=
  match EventEnvelope.build H (a.buildArgs es) with
  | .error x => .error (.event x)
  | .ok envelope =>
    match envelope.toJson H with
    | .error x => .error (.event x)
    | .ok text =>
      match encode (text ++ [10]) with
      | none => .error (.event .unicodeEncodeError)
      | some bytes => .ok (envelope, file ++ bytes)

/-- `EventLedger.append`: the envelope it returns and the file it leaves; an exception leaves
the file as it was. -/
def append (H : Host) (file : PyBytes) (a : AppendArgs F) :
    Except (LedgerError F) (EventEnvelope F × PyBytes) :=
  match loadLocked H lines file with
  | .error x => .error x
  | .ok es =>
    match a.semantic with
    | .error x => .error (.event (JsonError.raised x))
    | .ok semantic =>
      match es.find? fun e => isStr e.idempotencyKey a.idempotencyKey with
      | some existing =>
        match envelopeSemantic existing with
        | .error x => .error (.event (JsonError.raised x))
        | .ok existingSemantic =>
          if existingSemantic = semantic then .ok (existing, file)
          else .error (.idempotencyConflict a.idempotencyKey)
      | none =>
        match a.expectedHead with
        | some expected =>
          if expected = headHash es then writeNew H file a es
          else .error (.integrity (.optimisticAppend expected (headHash es)))
        | none => writeNew H file a es

end Ledger
