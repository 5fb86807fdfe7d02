import VeriMat.PyValue

/-! # Event envelopes

`core/events.py`: durable payload validation and the hashed, versioned event envelope. A
dataclass does not check the types of its fields, so every field of an envelope is a Python
value. The digest function and `datetime.fromisoformat` are parameters (`Host`). -/
namespace Events

open PyText JsonText PyValue

/-- What the envelope takes from the host: `hashlib.sha256(..).hexdigest()`, and
`datetime.fromisoformat` as whether the text is a date and whether it has a timezone. -/
structure Host where
  sha256 : PyBytes → PyStr
  fromisoformat : PyStr → Option Bool

/-- Why an `EventValidationError` was raised; the field is the one its text names. -/
inductive EventIssue where
  | schemaVersion
  | sequence
  | emptyField (field : PyStr)
  | occurredAtFormat
  | occurredAtTimezone
  | payloadNotObject (field : PyStr)
  | sensitiveFields (paths : List PyStr)
  | payloadNotJson (field : PyStr) (cause : JsonError)
  | previousHash
  | eventHashFormat
  | eventHashMismatch
  | invalidJson
  deriving DecidableEq, Repr

/-- The exceptions of this module; all but the first leave it as Python raised them. -/
inductive EventError where
  | validation (issue : EventIssue)
  | typeError
  | attributeError
  | valueError
  | unicodeEncodeError
  deriving DecidableEq, Repr

def JsonError.raised : JsonError → EventError
  | .typeError => .typeError
  | .valueError => .valueError

variable {F : Type} [PyFloat F]

/-- `canonical_json`. -/
def canonicalJson (v : PyVal F) : Except JsonError PyStr := dumps v

/-! ## The sensitive-key pattern -/

/-- The alternatives of `_SENSITIVE_KEY_RE`. -/
def sensitiveWords : List PyStr :=
  [py "apikey", py "api_key", py "authorization", py "cookie", py "credential", py "password",
    py "secret", py "token"]

/-- A pattern character against a text character under `re.IGNORECASE`: letters match either
case, and three of them a non-ASCII letter besides. -/
def matchesChar (w c : ℕ) : Bool :=
  c == w || (97 ≤ w && w ≤ 122 &&
    (c + 32 == w || (w == 105 && (c == 0x130 || c == 0x131)) || (w == 107 && c == 0x212A) ||
      (w == 115 && c == 0x17F)))

def matchesWord : PyStr → PyStr → Option PyStr
  | [], r => some r
  | _ :: _, [] => none
  | w :: ws, c :: r => if matchesChar w c then matchesWord ws r else none

/-- `($|_)`: the end of the text, a final line feed, or an underscore. -/
def endsWord : PyStr → Bool
  | [] => true
  | [c] => c == 10 || c == 95
  | c :: _ => c == 95

def sensitiveAt (s : PyStr) : Bool :=
  sensitiveWords.any fun w => (matchesWord w s).any endsWord

def sensitiveAfter : PyStr → Bool
  | [] => false
  | c :: r => (c == 95 && sensitiveAt r) || sensitiveAfter r

/-- `_SENSITIVE_KEY_RE.search(key) is not None`. -/
def isSensitiveKey (s : PyStr) : Bool := sensitiveAt s || sensitiveAfter s

/-- `str(key)`. -/
def keyStr : PyKey F → PyStr
  | .str s => s
  | .int n => intText n
  | .float x => PyFloat.repr x
  | .bool true => py "True"
  | .bool false => py "False"
  | .none => py "None"

mutual

/-- `_sensitive_paths`: it looks into dicts and lists, not into tuples. -/
def sensitivePaths : PyVal F → PyStr → List PyStr
  | .dict kvs, path => sensitiveItems kvs path
  | .list xs, path => sensitiveElems xs path 0
  | _, _ => []

def sensitiveItems : List (PyKey F × PyVal F) → PyStr → List PyStr
  | [], _ => []
  | (k, v) :: kvs, path =>
    (if isSensitiveKey (keyStr k) then [path ++ py "." ++ keyStr k] else []) ++
      sensitivePaths v (path ++ py "." ++ keyStr k) ++ sensitiveItems kvs path

def sensitiveElems : List (PyVal F) → PyStr → ℕ → List PyStr
  | [], _, _ => []
  | x :: xs, path, i =>
    sensitivePaths x (path ++ py "[" ++ decimal i ++ py "]") ++ sensitiveElems xs path (i + 1)

end

/-- `validate_durable_payload`. -/
def validateDurablePayload (v : PyVal F) (field : PyStr) : Except EventError Unit :=
  match v with
  | .dict kvs =>
    let sensitive := sensitivePaths (.dict kvs) field
    if sensitive ≠ [] then .error (.validation (.sensitiveFields sensitive))
    else
      match canonicalJson (.dict kvs) with
      | .error e => .error (.validation (.payloadNotJson field e))
      | .ok _ => .ok ()
  | _ => .error (.validation (.payloadNotObject field))

/-! ## Envelopes -/

structure EventEnvelope (F : Type) where
  schemaVersion : PyVal F
  sequence : PyVal F
  eventId : PyVal F
  occurredAt : PyVal F
  tenantId : PyVal F
  jobId : PyVal F
  aggregateType : PyVal F
  aggregateId : PyVal F
  eventType : PyVal F
  payload : PyVal F
  idempotencyKey : PyVal F
  previousHash : PyVal F
  eventHash : PyVal F

/-- The fields in the order of their declaration. -/
def EventEnvelope.fields (e : EventEnvelope F) : List (PyVal F) :=
  [e.schemaVersion, e.sequence, e.eventId, e.occurredAt, e.tenantId, e.jobId, e.aggregateType,
    e.aggregateId, e.eventType, e.payload, e.idempotencyKey, e.previousHash, e.eventHash]

/-- The dataclass's `__eq__`. -/
def EventEnvelope.eq (e e' : EventEnvelope F) : Bool := pyEqElems e.fields e'.fields

/-- `unsigned_dict`: every field but the hash. -/
def EventEnvelope.unsignedDict (e : EventEnvelope F) : PyVal F :=
  .dict [(.str (py "schema_version"), e.schemaVersion), (.str (py "sequence"), e.sequence),
    (.str (py "event_id"), e.eventId), (.str (py "occurred_at"), e.occurredAt),
    (.str (py "tenant_id"), e.tenantId), (.str (py "job_id"), e.jobId),
    (.str (py "aggregate_type"), e.aggregateType), (.str (py "aggregate_id"), e.aggregateId),
    (.str (py "event_type"), e.eventType), (.str (py "payload"), e.payload),
    (.str (py "idempotency_key"), e.idempotencyKey),
    (.str (py "previous_hash"), e.previousHash)]

/-- `dataclasses.asdict`. -/
def EventEnvelope.asdict (e : EventEnvelope F) : PyVal F :=
  .dict [(.str (py "schema_version"), e.schemaVersion), (.str (py "sequence"), e.sequence),
    (.str (py "event_id"), e.eventId), (.str (py "occurred_at"), e.occurredAt),
    (.str (py "tenant_id"), e.tenantId), (.str (py "job_id"), e.jobId),
    (.str (py "aggregate_type"), e.aggregateType), (.str (py "aggregate_id"), e.aggregateId),
    (.str (py "event_type"), e.eventType), (.str (py "payload"), e.payload),
    (.str (py "idempotency_key"), e.idempotencyKey),
    (.str (py "previous_hash"), e.previousHash), (.str (py "event_hash"), e.eventHash)]

/-- `sha256(canonical_json(value).encode("utf-8")).hexdigest()`. -/
def contentHash (H : Host) (v : PyVal F) : Except EventError PyStr :=
  match canonicalJson v with
  | .error e => .error (JsonError.raised e)
  | .ok text =>
    match encode text with
    | none => .error .unicodeEncodeError
    | some bytes => .ok (H.sha256 bytes)

def EventEnvelope.calculatedHash (H : Host) (e : EventEnvelope F) : Except EventError PyStr :=
  contentHash H e.unsignedDict

/-- `value == n` for an integer `n`. -/
def equalsInt (v : PyVal F) (n : ℤ) : Bool :=
  match v with
  | .int m => m == n
  | .bool b => (if b then 1 else 0) == n
  | .float x =>
    match PyFloat.value x with
    | .finite q => q == n
    | _ => false
  | _ => false

/-- `value < n` for an integer `n`; `none` is the TypeError. -/
def lessThanInt (v : PyVal F) (n : ℤ) : Option Bool :=
  match v with
  | .int m => some (m < n)
  | .bool b => some ((if b then 1 else 0) < n)
  | .float x =>
    match PyFloat.value x with
    | .finite q => some (q < n)
    | .negInf => some true
    | _ => some false
  | _ => none

/-- `not str(value).strip()`: only a string can be blank. -/
def isBlankField : PyVal F → Bool
  | .str s => isBlank s
  | _ => false

/-- `bool(value)`. -/
def truthy : PyVal F → Bool
  | .none => false
  | .bool b => b
  | .int n => n != 0
  | .float x =>
    match PyFloat.value x with
    | .finite q => q != 0
    | _ => true
  | .str s => s != []
  | .list xs => !xs.isEmpty
  | .tuple xs => !xs.isEmpty
  | .dict kvs => !kvs.isEmpty
  | .other => true

/-- `_HASH_RE.fullmatch`. -/
def isHash (s : PyStr) : Bool :=
  s.length == 64 && s.all fun c => (48 ≤ c && c ≤ 57) || (97 ≤ c && c ≤ 102)

/-- `text.replace("Z", "+00:00")`. -/
def replaceZ (s : PyStr) : PyStr := s.flatMap fun c => if c = 90 then py "+00:00" else [c]

/-- The names and values of the fields that must not be blank, in the order of the check. -/
def EventEnvelope.requiredFields (e : EventEnvelope F) : List (PyStr × PyVal F) :=
  [(py "event_id", e.eventId), (py "occurred_at", e.occurredAt), (py "tenant_id", e.tenantId),
    (py "job_id", e.jobId), (py "aggregate_type", e.aggregateType),
    (py "aggregate_id", e.aggregateId), (py "event_type", e.eventType),
    (py "idempotency_key", e.idempotencyKey)]

def checkOccurredAt (H : Host) (v : PyVal F) : Except EventError Unit :=
  match v with
  | .str s =>
    match H.fromisoformat (replaceZ s) with
    | none => .error (.validation .occurredAtFormat)
    | some false => .error (.validation .occurredAtTimezone)
    | some true => .ok ()
  | _ => .error .attributeError

def checkPreviousHash (v : PyVal F) : Except EventError Unit :=
  if truthy v then
    match v with
    | .str s => if isHash s then .ok () else .error (.validation .previousHash)
    | _ => .error .typeError
  else .ok ()

def checkEventHash (H : Host) (e : EventEnvelope F) : Except EventError Unit :=
  match e.eventHash with
  | .str s =>
    if isHash s then
      match e.calculatedHash H with
      | .error x => .error x
      | .ok h => if h = s then .ok () else .error (.validation .eventHashMismatch)
    else .error (.validation .eventHashFormat)
  | _ => .error .typeError

/-- `EventEnvelope.validate`. -/
def EventEnvelope.validate (H : Host) (e : EventEnvelope F) : Except EventError Unit :=
  if !equalsInt e.schemaVersion 1 then .error (.validation .schemaVersion)
  else
    match lessThanInt e.sequence 1 with
    | none => .error .typeError
    | some true => .error (.validation .sequence)
    | some false =>
      match e.requiredFields.find? fun p => isBlankField p.2 with
      | some p => .error (.validation (.emptyField p.1))
      | none => do
        checkOccurredAt H e.occurredAt
        validateDurablePayload e.payload (py "payload")
        checkPreviousHash e.previousHash
        checkEventHash H e

/-- `EventEnvelope.to_json`. -/
def EventEnvelope.toJson (H : Host) (e : EventEnvelope F) : Except EventError PyStr := do
  e.validate H
  match canonicalJson e.asdict with
  | .error x => .error (JsonError.raised x)
  | .ok text => .ok text

/-- The arguments of `EventEnvelope.build`, with the clock reading it takes when
`occurred_at` is missing or empty. -/
structure BuildArgs (F : Type) where
  sequence : ℤ
  eventId : PyStr
  tenantId : PyStr
  jobId : PyStr
  aggregateType : PyStr
  aggregateId : PyStr
  eventType : PyStr
  payload : PyVal F
  idempotencyKey : PyStr
  previousHash : PyStr
  occurredAt : Option PyStr
  now : PyStr

/-- `a or b` for an optional string. -/
def orElse (a : Option PyStr) (b : PyStr) : PyStr :=
  match a with
  | some s => if s = [] then b else s
  | none => b

def BuildArgs.provisional (a : BuildArgs F) : EventEnvelope F where
  schemaVersion := .int 1
  sequence := .int a.sequence
  eventId := .str a.eventId
  occurredAt := .str (orElse a.occurredAt a.now)
  tenantId := .str a.tenantId
  jobId := .str a.jobId
  aggregateType := .str a.aggregateType
  aggregateId := .str a.aggregateId
  eventType := .str a.eventType
  payload := a.payload
  idempotencyKey := .str a.idempotencyKey
  previousHash := .str a.previousHash
  eventHash := .str (List.replicate 64 48)

/-- The provisional envelope with its hash filled in. -/
def BuildArgs.envelope (a : BuildArgs F) (eventHash : PyStr) : EventEnvelope F :=
  { a.provisional with eventHash := .str eventHash }

/-- `EventEnvelope.build`. -/
def EventEnvelope.build (H : Host) (a : BuildArgs F) : Except EventError (EventEnvelope F) :=
  match a.provisional.calculatedHash H with
  | .error x => .error x
  | .ok h =>
    match (a.envelope h).validate H with
    | .error x => .error x
    | .ok () => .ok (a.envelope h)

/-- The keyword arguments of the dataclass, in the order of its fields. -/
def fieldNames : List PyStr :=
  [py "schema_version", py "sequence", py "event_id", py "occurred_at", py "tenant_id",
    py "job_id", py "aggregate_type", py "aggregate_id", py "event_type", py "payload",
    py "idempotency_key", py "previous_hash", py "event_hash"]

/-- The envelope with these fields, in the order of their declaration. -/
def ofFields : List (PyVal F) → Option (EventEnvelope F)
  | [schemaVersion, sequence, eventId, occurredAt, tenantId, jobId, aggregateType, aggregateId,
      eventType, payload, idempotencyKey, previousHash, eventHash] =>
    some ⟨schemaVersion, sequence, eventId, occurredAt, tenantId, jobId, aggregateType,
      aggregateId, eventType, payload, idempotencyKey, previousHash, eventHash⟩
  | _ => none

/-- `cls(**value)`: every field once and nothing else; `none` is the TypeError. -/
def ofMapping (kvs : List (PyStr × Json F)) : Option (EventEnvelope F) :=
  if kvs.all fun p => fieldNames.contains p.1 then
    match fieldNames.mapM fun name => (kvs.lookup name).map ofJson with
    | some fields => ofFields fields
    | none => none
  else none

/-- The envelope a line spells out, before it is validated. -/
def readEnvelope (line : PyStr) : Option (EventEnvelope F) :=
  match loads (F := F) line with
  | some (.obj kvs) => ofMapping kvs
  | _ => none

/-- `EventEnvelope.from_json`. -/
def EventEnvelope.fromJson (H : Host) (line : PyStr) : Except EventError (EventEnvelope F) :=
  match readEnvelope line with
  | none => .error (.validation .invalidJson)
  | some e => do
    e.validate H
    .ok e

end Events
