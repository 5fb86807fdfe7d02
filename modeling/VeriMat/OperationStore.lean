import VeriMat.CircuitBreaker
import VeriMat.DecisionGraph
import VeriMat.DurablePayload

/-! # Operation databases

`evaluation/operation_recovery.py` and the operation tables of the transports. A database holds
one table of external calls, the reconciliations of its operators and its circuits. The model
table and the retrieval table differ in their response columns only (`ResponseTable`); each
method below is one transaction. -/
namespace OperationStore

open PyText JsonText PyValue PyDict Transaction Events CircuitBreaker
open DecisionGraph (getItem)

inductive OperationKind where
  | model
  | retrieval
  deriving DecidableEq, Repr

inductive OperationStatus where
  | pending
  | completed
  | retryAuthorized
  | abandoned
  deriving DecidableEq, Repr

def OperationStatus.name : OperationStatus → PyStr
  | .pending => py "PENDING"
  | .completed => py "COMPLETED"
  | .retryAuthorized => py "RETRY_AUTHORIZED"
  | .abandoned => py "ABANDONED"

/-! ## Exceptions of the transports -/

/-- A `BaselineContractError`, its two subclasses, or an exception of another kind. -/
inductive ErrorClass where
  | contract
  | indeterminate
  | circuitOpen
  | other
  deriving DecidableEq, Repr

structure OperationError where
  errorClass : ErrorClass
  text : PyStr
  deriving DecidableEq, Repr

def contractError (text : PyStr) : OperationError := ⟨.contract, text⟩
def indeterminateOperation (text : PyStr) : OperationError := ⟨.indeterminate, text⟩
def otherError (text : PyStr) : OperationError := ⟨.other, text⟩

def surrogatesNotAllowed : OperationError := otherError (py "surrogates not allowed")

def jsonRaised : JsonError → OperationError
  | .typeError => otherError (py "Object is not JSON serializable")
  | .valueError => otherError (py "Out of range float values are not JSON compliant")

/-- The exceptions of the circuit breaker. -/
def circuitText : CircuitError → PyStr
  | .operationIdInvalid => py "circuit operation id is invalid"
  | .reasonCodeInvalid => py "circuit failure reason code is invalid"
  | .stateDisappeared => py "circuit state disappeared"
  | .probeLeaseExpired =>
    py "half-open probe lease expired; circuit reopened for a new cooldown"
  | .anotherProbe => py "circuit is HALF_OPEN with another probe in flight"
  | .cooldown => py "circuit is OPEN; recovery cooldown has not elapsed"
  | .probeAcquired => py "half-open probe was acquired concurrently"
  | .successNotOfProbe => py "success does not belong to the half-open probe"
  | .successWhileOpen => py "cannot record success while circuit is open"
  | .failureNotOfProbe => py "failure does not belong to the half-open probe"
  | .unicodeEncodeError => py "surrogates not allowed"

def circuitRaised (e : CircuitError) : OperationError :=
  if e.isOpenError then ⟨.circuitOpen, circuitText e⟩
  else if e = .unicodeEncodeError then otherError (circuitText e)
  else contractError (circuitText e)

/-! ## Tables -/

/-- A row of an operation table, without its key; `response` is its response columns. -/
structure OperationRow (R T : Type) where
  requestSha256 : PyStr
  status : OperationStatus
  response : Option R
  createdAt : T
  completedAt : Option T

inductive ReconcileAction where
  | complete
  | authorizeRetry
  | abandon
  deriving DecidableEq, Repr

/-- A row of `operation_reconciliations`, without its number. -/
structure Reconciliation (T : Type) where
  operationKind : OperationKind
  operationId : PyStr
  requestSha256 : PyStr
  priorStatus : OperationStatus
  action : ReconcileAction
  actor : PyStr
  reason : PyStr
  evidenceReceiptSha256 : PyStr
  reconciledAt : T

structure OperationDb (R T : Type) where
  operations : Dict PyStr (OperationRow R T)
  reconciliations : List (Reconciliation T)
  circuits : Circuits T

/-- Why an operator's action was refused: the texts of `OperationRecoveryError`, and the
exceptions of other kinds. -/
inductive RecoveryError where
  | unsupportedAction (action : PyStr)
  | operationIdInvalid
  | requestNotDigest
  | actorInvalid
  | reasonInvalid
  | receiptNotDigest
  | modelFields
  | modelText
  | tokensInvalid (field : PyStr)
  | retrievalShape
  | retrievalNotJson (cause : JsonError)
  | responseNotAccepted
  | noSuchOperation
  | hashMismatch
  | notPending (status : OperationStatus)
  | changed
  | attributeError
  | notStorable
  deriving DecidableEq

/-- What the two kinds of operation table differ in: what sqlite3 can bind to the response
columns, how a transport reads them, and what an operator may complete an operation with. -/
structure ResponseTable (F R A : Type) where
  kind : OperationKind
  storable : R → Bool
  read : R → A
  validated : Option (PyVal F) → Except RecoveryError R

abbrev OperationTx (R T α : Type) := EStateM OperationError (OperationDb R T) α
abbrev RecoveryTx (R T α : Type) := EStateM RecoveryError (OperationDb R T) α

variable {F R A T : Type}

/-- sqlite3 refuses a text it cannot encode. -/
def bindText (s : PyStr) : OperationTx R T Unit :=
  raiseIf ((encode s).isNone = true) surrogatesNotAllowed

def OperationDb.row (db : OperationDb R T) (operationId : PyStr) : Option (OperationRow R T) :=
  db.operations.get operationId

/-- `SELECT * .. WHERE operation_id=?`. -/
def selectOperation (operationId : PyStr) : OperationTx R T (Option (OperationRow R T)) := do
  bindText operationId
  let db ← get
  pure (db.row operationId)

/-- `UPDATE .. WHERE operation_id=? AND request_sha256=? AND status=?`, and its row count. -/
def updateOperation {ε : Type} (operationId requestHash : PyStr) (status : OperationStatus)
    (f : OperationRow R T → OperationRow R T) : EStateM ε (OperationDb R T) ℕ := do
  let db ← get
  if (db.row operationId).any fun row =>
      row.requestSha256 == requestHash && row.status == status then
    set { db with operations := db.operations.modify operationId f }
    pure 1
  else pure 0

/-! ## Lookups and reservations -/

def reusedText : OperationKind → PyStr
  | .model => py "model operation id was reused with different request semantics"
  | .retrieval => py "retrieval operation id was reused with different semantics"

def unresolvedText (status : OperationStatus) : OperationKind → PyStr
  | .model => py "model operation is " ++ status.name ++
      py "; never auto-retry a possibly charged call"
  | .retrieval => py "retrieval operation is " ++ status.name ++
      py "; operator reconciliation required"

/-- What `_lookup` makes of the row it selected. -/
def readRow (table : ResponseTable F R A) (requestHash : PyStr) :
    Option (OperationRow R T) → Except OperationError (Option A)
  | none => .ok none
  | some row =>
    if row.requestSha256 ≠ requestHash then .error (contractError (reusedText table.kind))
    else
      match row.status with
      | .pending | .abandoned =>
        .error (indeterminateOperation (unresolvedText row.status table.kind))
      | .retryAuthorized => .ok none
      | .completed =>
        match row.response with
        | none => .error (otherError (py "response columns are NULL"))
        | some response => .ok (some (table.read response))

/-- The row that a retry reserves again. -/
def OperationRow.reopen (row : OperationRow R T) (now : T) : OperationRow R T :=
  { row with status := .pending, createdAt := now }

/-- The transaction of `_reserve`: whether the caller now holds the operation. Otherwise a
lookup of its own follows. -/
def reserveOperation (table : ResponseTable F R A) (operationId requestHash : PyStr) (now : T) :
    OperationTx R T Bool :=
  immediate do
    let existing ← selectOperation operationId
    match existing with
    | some row =>
      raiseIf (row.requestSha256 ≠ requestHash) (contractError (reusedText table.kind))
      if row.status = .retryAuthorized then
        bindText requestHash
        let rowcount ← updateOperation operationId requestHash .retryAuthorized (·.reopen now)
        raiseIf (rowcount ≠ 1)
          (indeterminateOperation (py "retry authorization was consumed concurrently"))
        pure true
      else pure false
    | none =>
      bindText operationId
      bindText requestHash
      modify fun db => { db with
        operations := db.operations.set operationId ⟨requestHash, .pending, none, now, none⟩ }
      pure true

/-- The row that a response completes. -/
def OperationRow.complete (row : OperationRow R T) (response : R) (now : T) : OperationRow R T :=
  { row with status := .completed, response := some response, completedAt := some now }

/-- The statement that commits a response, and its row count. -/
def commitResponse (table : ResponseTable F R A) (operationId requestHash : PyStr) (response : R)
    (now : T) : OperationTx R T ℕ := do
  raiseIf (table.storable response = false) surrogatesNotAllowed
  bindText operationId
  bindText requestHash
  updateOperation operationId requestHash .pending (·.complete response now)

/-! ## Reconciliation -/

/-- The arguments of `reconcile_operation`. -/
structure ReconcileArgs (F : Type) where
  operationId : PyStr
  requestSha256 : PyStr
  action : PyStr
  actor : PyStr
  reason : PyStr
  evidenceReceiptSha256 : PyStr
  response : Option (PyVal F)

def ReconcileAction.ofText (action : PyStr) : Option ReconcileAction :=
  if action = py "complete" then some .complete
  else if action = py "authorize_retry" then some .authorizeRetry
  else if action = py "abandon" then some .abandon
  else none

/-- `_validate_attestation`. -/
def validateAttestation (args : ReconcileArgs F) : RecoveryTx R T Unit := do
  raiseIf (isBlank args.actor ∨ 200 < args.actor.length) .actorInvalid
  raiseIf (isBlank args.reason ∨ 2000 < args.reason.length) .reasonInvalid
  raiseIf (isHash args.evidenceReceiptSha256 = false) .receiptNotDigest

/-- `complete`'s response, checked; no other action takes one. -/
def completionOf (table : ResponseTable F R A) (args : ReconcileArgs F)
    (action : ReconcileAction) : RecoveryTx R T (Option R) :=
  if action = .complete then
    match table.validated args.response with
    | .ok response => pure (some response)
    | .error e => throw e
  else do
    raiseIf args.response.isSome .responseNotAccepted
    pure none

/-- The row after an operator's action. -/
def reconciled (action : ReconcileAction) (completion : Option R) (now : T)
    (row : OperationRow R T) : OperationRow R T :=
  match action, completion with
  | .complete, some response => row.complete response now
  | .complete, none => row
  | .authorizeRetry, _ => { row with status := .retryAuthorized }
  | .abandon, _ => { row with status := .abandoned }

/-- The transaction of `reconcile_operation`. -/
def reconcileTransaction (table : ResponseTable F R A) (args : ReconcileArgs F)
    (action : ReconcileAction) (completion : Option R) (now : T) : RecoveryTx R T Unit :=
  immediate do
    raiseIf ((encode args.operationId).isNone = true) .notStorable
    let db ← get
    let row ← orRaise (db.row args.operationId) .noSuchOperation
    raiseIf (row.requestSha256 ≠ args.requestSha256) .hashMismatch
    raiseIf (row.status ≠ .pending) (.notPending row.status)
    raiseIf (completion.any fun response => !table.storable response) .notStorable
    let rowcount ← updateOperation args.operationId args.requestSha256 .pending
      (reconciled action completion now)
    raiseIf (rowcount ≠ 1) .changed
    raiseIf ((encode args.actor).isNone = true ∨ (encode args.reason).isNone = true) .notStorable
    modify fun db => { db with reconciliations := db.reconciliations ++
      [⟨table.kind, args.operationId, args.requestSha256, .pending, action, args.actor,
        args.reason, args.evidenceReceiptSha256, now⟩] }

/-- `reconcile_operation`. -/
def reconcileOperation (table : ResponseTable F R A) (args : ReconcileArgs F) (now : T) :
    RecoveryTx R T Unit := do
  let action ← orRaise (ReconcileAction.ofText args.action) (.unsupportedAction args.action)
  raiseIf (isBlank args.operationId ∨ 500 < args.operationId.length) .operationIdInvalid
  raiseIf (isHash args.requestSha256 = false) .requestNotDigest
  validateAttestation args
  let completion ← completionOf table args action
  reconcileTransaction table args action completion now

/-! ## The two tables -/

/-- A `ModelResponse`, and the response columns of `model_operations`. -/
structure ModelResponse where
  text : PyStr
  inputTokens : ℤ
  outputTokens : ℤ
  requestId : PyStr
  deriving DecidableEq

/-- An INTEGER column. -/
def isInt64 (n : ℤ) : Bool := -2 ^ 63 ≤ n && n < 2 ^ 63

def ModelResponse.storable (r : ModelResponse) : Bool :=
  (encode r.text).isSome && isInt64 r.inputTokens && isInt64 r.outputTokens &&
    (encode r.requestId).isSome

/-- `isinstance(value, int) and not isinstance(value, bool) and value >= 0`. -/
def tokenCount : Option (PyVal F) → Option ℤ
  | some (.int n) => if 0 ≤ n then some n else none
  | _ => none

section Tables
variable [PyFloat F]

/-- `set(response) == {"response_text", "input_tokens", "output_tokens", "request_id"}`. -/
def hasModelFields (kvs : List (PyKey F × PyVal F)) : Bool :=
  kvs.length == 4 && [py "response_text", py "input_tokens", py "output_tokens",
    py "request_id"].all fun field => (getItem kvs field).isSome

/-- `_validated_response("model", response)`. -/
def validatedModelResponse : Option (PyVal F) → Except RecoveryError ModelResponse
  | some (.dict kvs) => do
    if !hasModelFields kvs then throw .modelFields
    let .some (.str text) := getItem kvs (py "response_text") | throw .modelText
    let .some (.str requestId) := getItem kvs (py "request_id") | throw .attributeError
    if isBlank requestId then throw .modelText
    let .some inputTokens := tokenCount (getItem kvs (py "input_tokens"))
      | throw (.tokensInvalid (py "input_tokens"))
    let .some outputTokens := tokenCount (getItem kvs (py "output_tokens"))
      | throw (.tokensInvalid (py "output_tokens"))
    pure ⟨text, inputTokens, outputTokens, requestId⟩
  | _ => throw .modelFields

def modelTable : ResponseTable F ModelResponse ModelResponse where
  kind := .model
  storable := ModelResponse.storable
  read := id
  validated := validatedModelResponse

/-- A text that `json.loads` reads. -/
structure RenderedJson (F : Type) [PyFloat F] where
  text : PyStr
  loads_isSome : (loads text : Option (Json F)).isSome = true

/-- `json.loads(rendered)`. -/
def RenderedJson.value (r : RenderedJson F) : PyVal F := ofJson ((loads r.text).get r.loads_isSome)

theorem loads_canonicalJson {v : PyVal F} {text : PyStr} (h : canonicalJson v = .ok text) :
    (loads text : Option (Json F)).isSome = true := by
  rw [canonicalJson, dumps] at h
  cases hlower : lower v with
  | error e =>
    rw [hlower] at h
    cases h
  | ok j =>
    rw [hlower] at h
    obtain rfl := Except.ok.inj h
    have hloads := loads_render (DurablePayload.lower_finite v j hlower) (t := [])
      (by intro c hc; cases hc)
    rw [List.append_nil] at hloads
    rw [hloads]
    rfl

/-- `canonical_json(value)`, a text that can be read back. -/
def renderJson (v : PyVal F) : Except JsonError (RenderedJson F) :=
  match h : canonicalJson v with
  | .error e => .error e
  | .ok text => .ok ⟨text, loads_canonicalJson h⟩

def isList : PyVal F → Bool
  | .list _ => true
  | _ => false

def isDict : PyVal F → Bool
  | .dict _ => true
  | _ => false

/-- `_validated_response("retrieval", response)`. -/
def validatedRetrievalResponse : Option (PyVal F) → Except RecoveryError (RenderedJson F)
  | some v =>
    if isDict v || isList v then
      match renderJson v with
      | .ok rendered => .ok rendered
      | .error e => .error (.retrievalNotJson e)
    else .error .retrievalShape
  | none => .error .retrievalShape

def retrievalTable : ResponseTable F (RenderedJson F) (PyVal F) where
  kind := .retrieval
  storable r := (encode r.text).isSome
  read := RenderedJson.value
  validated := validatedRetrievalResponse

end Tables

end OperationStore
