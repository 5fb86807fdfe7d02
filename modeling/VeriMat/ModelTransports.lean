import VeriMat.Transports

/-! # Transports of model calls

`ClaudeCodeStructuredTransport.complete` and `OpenCodeStructuredTransport.complete`, with what
they make of the provider's answer. -/
namespace ModelTransports

open PyText JsonText PyValue PyDisplay Events CircuitBreaker OperationStore AtomicProgram
  Transports
open DecisionGraph (getItem)

/-- The exceptions of `int(value)`: TypeError or ValueError, and OverflowError. -/
inductive IntError where
  | invalid
  | overflow

/-- What the transports take from the interpreter besides `str`. -/
structure Builtins (F : Type) extends Display where
  int : PyVal F → Except IntError ℤ
  lower : PyStr → PyStr

variable {F T : Type} [PyFloat F]

/-! ## Answers -/

/-- `value or default`, for a value that may be missing. -/
def orDefault (value : Option (PyVal F)) (default : PyVal F) : PyVal F :=
  match value with
  | some v => if truthy v then v else default
  | none => default

/-- `not (value is None)`, for a value that may be missing. -/
def present : Option (PyVal F) → Option (PyVal F)
  | none | some .none => none
  | some v => some v

/-- `ModelResponse.usage` does not raise. -/
def hasUsage (r : ModelResponse) : Bool :=
  !isBlank r.text && !isBlank r.requestId && 0 ≤ r.inputTokens && 0 ≤ r.outputTokens

/-- `text.strip()`. -/
def strip (text : PyStr) : PyStr :=
  ((text.dropWhile isSpace).reverse.dropWhile isSpace).reverse

section Decoding
variable (B : Builtins F)

/-- `int(value)`, a refused value being reported as `missing`. -/
def intOr (missing : OperationError) (value : Option (PyVal F)) : Except OperationError ℤ :=
  match value with
  | none => .error missing
  | some v =>
    match B.int v with
    | .ok n => .ok n
    | .error .invalid => .error missing
    | .error .overflow => .error (otherError (py "cannot convert float infinity to integer"))

def omittedUsage (provider : PyStr) : OperationError :=
  indeterminateOperation (provider ++ py " omitted authoritative usage metadata")

/-- A `ModelResponse` that passed its own check. -/
def checkedResponse (provider text : PyStr) (inputTokens outputTokens : ℤ) (requestId : PyStr) :
    Except OperationError ModelResponse :=
  let response : ModelResponse := ⟨text, inputTokens, outputTokens, requestId⟩
  if hasUsage response then .ok response else .error (omittedUsage provider)

/-! ### OpenCode -/

/-- `part.get("type") in {"tool", "tool-invocation"}`, for a part that is a dict. -/
def isToolPart : PyVal F → Except OperationError Bool
  | .dict part =>
    match getItem part (py "type") with
    | none => .ok false
    | some (.str t) => .ok (t == py "tool" || t == py "tool-invocation")
    | some v => if canHash v then .ok false else .error (otherError (py "unhashable type"))
  | _ => .ok false

/-- The tool parts of a message. -/
def toolParts : List (PyVal F) → Except OperationError (List (PyVal F))
  | [] => .ok []
  | part :: parts => do
    let isTool ← isToolPart part
    let rest ← toolParts parts
    pure (if isTool then part :: rest else rest)

/-- A tool other than the one that carries structured output. -/
def isRealTool (part : PyVal F) : Bool :=
  match part with
  | .dict kvs =>
    let name := B.lower (strOf B.toDisplay (orDefault (getItem kvs (py "tool")) (.str [])))
    !(name == py "structuredoutput" || name == py "structured_output")
  | _ => false

/-- The texts of the text parts. -/
def joinedText (parts : List (PyVal F)) : PyStr :=
  parts.flatMap fun part =>
    match part with
    | .dict kvs =>
      match getItem kvs (py "type") with
      | some (.str t) =>
        if t = py "text" then
          strOf B.toDisplay ((getItem kvs (py "text")).getD (.str []))
        else []
      | _ => []
    | _ => []

def isText (value : Option (PyVal F)) (text : PyStr) : Bool :=
  match value with
  | some (.str s) => s == text
  | _ => false

/-- What `complete` makes of the server's answer. -/
def decodeMessage (providerId modelId : PyStr) (result : HttpResult F) :
    Except OperationError ModelResponse := do
  if result.status ≠ 200 then
    throw (indeterminateOperation (py "OpenCode structured request did not complete"))
  let .some (.dict info) := getItem result.value (py "info")
    | throw (indeterminateOperation (py "OpenCode returned an incomplete message envelope"))
  let .some (.list parts) := getItem result.value (py "parts")
    | throw (indeterminateOperation (py "OpenCode returned an incomplete message envelope"))
  let error := (getItem info (py "error")).getD .none
  if truthy error then
    throw (indeterminateOperation
      (py "OpenCode reported a model error: " ++ (strOf B.toDisplay error).take 300))
  if !isText (getItem info (py "providerID")) providerId ||
      !isText (getItem info (py "modelID")) modelId then
    throw (indeterminateOperation (py "OpenCode reported a different provider/model alias"))
  let structured := present (getItem info (py "structured"))
  let tools ← toolParts parts
  if tools.any (isRealTool B) || (!tools.isEmpty && structured.isNone) then
    throw (indeterminateOperation (py "tool use occurred in a tool-free benchmark session"))
  let text ← match structured with
    | some v => (canonicalJson v).mapError jsonRaised
    | none => .ok (joinedText B parts)
  let missing := omittedUsage (py "OpenCode")
  let .dict tokens := orDefault (getItem info (py "tokens")) (.dict []) | throw missing
  let inputTokens ← intOr B missing (getItem tokens (py "input"))
  let outputTokens ← intOr B missing (getItem tokens (py "output"))
  let .some requestId := getItem info (py "id") | throw missing
  checkedResponse (py "OpenCode") text inputTokens outputTokens (strOf B.toDisplay requestId)

/-! ### Claude Code -/

structure ClaudeCodeTransport (T : Type) [LT T] [Zero T] where
  circuit : Breaker T
  model : Option PyStr
  maxResponseBytes : ℕ
  usageLog : Bool
  requestResponseLog : Bool

/-- `len(text.encode("utf-8", "ignore"))`. -/
def byteCount (text : PyStr) : ℕ := (text.map fun c => ((encodeChar c).getD []).length).sum

/-- What `_invoke` makes of the finished process. -/
def readEnvelope (maxResponseBytes : ℕ) (result : ProcessResult) :
    Except OperationError (List (PyKey F × PyVal F)) :=
  if maxResponseBytes < byteCount result.stdout then
    .error (contractError (py "Claude Code response exceeded the byte limit"))
  else if result.returncode ≠ 0 ∧ isBlank result.stdout then
    .error (indeterminateOperation (py "Claude Code exited " ++ intText result.returncode ++
      py " without a result envelope: " ++ (strip result.stderr).take 400))
  else
    match (loads result.stdout : Option (Json F)) with
    | none =>
      .error (indeterminateOperation (py "Claude Code did not emit a JSON result envelope"))
    | some j =>
      match ofJson j with
      | .dict payload => .ok payload
      | _ =>
        .error (indeterminateOperation (py "Claude Code result envelope must be an object"))

/-- `sorted((payload.get("modelUsage") or {}).keys())`; the keys of a decoded object are
strings. -/
def servedBy (payload : List (PyKey F × PyVal F)) : Except OperationError (List (PyVal F)) :=
  match orDefault (getItem payload (py "modelUsage")) (.dict []) with
  | .dict kvs => .ok (((kvs.map fun p => p.1.strValue).insertionSort (· ≤ ·)).map .str)
  | _ => .error (otherError (py "object has no attribute 'keys'"))

/-- The response of an envelope. -/
def envelopeResponse (payload : List (PyKey F × PyVal F)) :
    Except OperationError ModelResponse := do
  let result := strOf B.toDisplay ((getItem payload (py "result")).getD (.str []))
  if !isText (getItem payload (py "type")) (py "result") ||
      !isText (getItem payload (py "subtype")) (py "success") then
    throw (indeterminateOperation
      (py "Claude Code reported no usable result: " ++ result.take 400))
  if truthy ((getItem payload (py "is_error")).getD .none) then
    throw (indeterminateOperation (py "Claude Code reported an error: " ++ result.take 400))
  if truthy ((getItem payload (py "permission_denials")).getD .none) then
    throw (indeterminateOperation
      (py "a tool permission was requested during a tool-free benchmark call"))
  let .some (.dict structured) := getItem payload (py "structured_output")
    | throw (indeterminateOperation
        (py "Claude Code returned no structured object for the supplied schema"))
  let missing := omittedUsage (py "Claude Code")
  let .some (.dict usage) := getItem payload (py "usage") | throw missing
  let input ← intOr B missing (getItem usage (py "input_tokens"))
  let creation ← intOr B missing
    (some (orDefault (getItem usage (py "cache_creation_input_tokens")) (.int 0)))
  let reads ← intOr B missing
    (some (orDefault (getItem usage (py "cache_read_input_tokens")) (.int 0)))
  let text ← (canonicalJson (.dict structured)).mapError fun _ => missing
  let output ← intOr B missing (getItem usage (py "output_tokens"))
  let .some requestId := getItem payload (py "uuid") | throw missing
  checkedResponse (py "Claude Code") text (input + creation + reads) output
    (strOf B.toDisplay requestId)

/-- A dict with these fields. -/
def record (fields : List (PyStr × PyVal F)) : PyVal F :=
  .dict (fields.map fun p => (.str p.1, p.2))

/-- `self.model or "session-default"`. -/
def requestAlias (model : Option PyStr) : PyStr := model.getD (py "session-default")

/-- The accounting that `_decode` returns beside the response. -/
def accountingOf (model : Option PyStr) (payload : List (PyKey F × PyVal F))
    (response : ModelResponse) (served : List (PyVal F)) : List (PyStr × PyVal F) :=
  let field (key : PyStr) := (getItem payload key).getD .none
  [(py "request_alias", .str (requestAlias model)), (py "served_by", .list served),
    (py "input_tokens", .int response.inputTokens),
    (py "output_tokens", .int response.outputTokens),
    (py "total_cost_usd", field (py "total_cost_usd")),
    (py "duration_ms", field (py "duration_ms")), (py "num_turns", field (py "num_turns")),
    (py "session_id", field (py "session_id"))]

/-- `_decode`. -/
def decodeEnvelope (model : Option PyStr) (payload : List (PyKey F × PyVal F)) :
    Except OperationError (ModelResponse × List (PyStr × PyVal F)) := do
  let response ← envelopeResponse B payload
  let served ← servedBy payload
  pure (response, accountingOf model payload response served)

end Decoding

/-! ## Audit records -/

/-- What a call of either transport asks for. -/
structure ModelRequest (F : Type) where
  operationId : PyStr
  system : PyStr
  user : PyStr
  responseSchema : PyVal F

/-- The request that `_request_hash` hashes. -/
def ModelRequest.hashed (r : ModelRequest F) : PyVal F :=
  .dict [(.str (py "system"), .str r.system), (.str (py "user"), .str r.user),
    (.str (py "response_schema"), r.responseSchema)]

def routeId : PyStr := py "claude-code-cli"

/-- The record of `_record_request_response`. -/
def completedRecord (H : Hasher) (r : ModelRequest F) (requestHash : PyStr) (now : Timestamp)
    (response : ModelResponse) (accounting : Option (List (PyStr × PyVal F))) (cacheHit : Bool) :
    PyVal F :=
  record [(py "schema_version", .int 1), (py "recorded_at", .str now.text),
    (py "route_id", .str routeId), (py "operation_id", .str r.operationId),
    (py "request_sha256", .str requestHash), (py "system", .str r.system),
    (py "user", .str r.user), (py "response_schema", r.responseSchema),
    (py "response_text", .str response.text),
    (py "response_sha256", .str (H.hexdigest ((encode response.text).getD []))),
    (py "request_id", .str response.requestId), (py "input_tokens", .int response.inputTokens),
    (py "output_tokens", .int response.outputTokens),
    (py "accounting", (accounting.map record).getD .none), (py "cache_hit", .bool cacheHit),
    (py "status", .str (py "COMPLETED"))]

/-- The record of `_record_indeterminate_request`. -/
def indeterminateRecord (r : ModelRequest F) (requestHash : PyStr) (now : Timestamp)
    (payload : Option (List (PyKey F × PyVal F))) (error : OperationError) : PyVal F :=
  record [(py "schema_version", .int 1), (py "recorded_at", .str now.text),
    (py "route_id", .str routeId), (py "operation_id", .str r.operationId),
    (py "request_sha256", .str requestHash), (py "system", .str r.system),
    (py "user", .str r.user), (py "response_schema", r.responseSchema),
    (py "response_text", .none), (py "response_sha256", .none), (py "request_id", .none),
    (py "input_tokens", .none), (py "output_tokens", .none), (py "accounting", .none),
    (py "cache_hit", .bool false), (py "status", .str (py "INDETERMINATE")),
    (py "reason", .str error.text), (py "result_envelope", (payload.map .dict).getD .none)]

/-- The record of `_record_usage`. -/
def usageRecord (r : ModelRequest F) (requestHash : PyStr) (now : Timestamp)
    (accounting : List (PyStr × PyVal F)) : PyVal F :=
  record ([(py "recorded_at", .str now.text), (py "route_id", .str routeId),
    (py "operation_id", .str r.operationId), (py "request_sha256", .str requestHash)] ++
    accounting)

/-! ## Calls -/

section Calls
variable [LinearOrder T] [Zero T] (H : Hasher) (B : Builtins F)

/-- A call of the model transports over their own table. -/
abbrev ModelCallM (F T α : Type) [LinearOrder T] [Zero T] := Call F T ModelResponse α

/-- A record is appended where the log is configured. -/
def appendRecord (enabled : Bool) (make : Timestamp → PyVal F) : ModelCallM F T Unit :=
  if enabled then do
    let now ← utcnow
    appendLine (make now)
  else pure ()

/-- The operation ids that `complete` takes. -/
def ValidId (operationId : PyStr) : Prop := ¬ (isBlank operationId ∨ 500 < operationId.length)

/-- The operation id is checked, and the request hashed. -/
def admitRequest (r : ModelRequest F) : Except OperationError PyStr :=
  if isBlank r.operationId ∨ 500 < r.operationId.length then
    .error (contractError (py "model operation id is invalid"))
  else fingerprint H r.hashed

/-- The statement that commits a model response, and the lookup after it. -/
def commitModel (r : ModelRequest F) (requestHash : PyStr) (response : ModelResponse) :
    ModelCallM F T ModelResponse := do
  let _ ← commit r.operationId requestHash response
  let committed ← lookup modelTable r.operationId requestHash
  match committed with
  | some answer => pure answer
  | none => throw (indeterminateOperation (py "model response cache commit failed"))

/-- The `except` clauses of the two `complete`s; before the failure is recorded, Claude Code's
keeps what the provider returned. -/
def onModelFailure {α : Type} (circuit : Breaker T) (operationId : PyStr)
    (preserve : OperationError → ModelCallM F T Unit) (e : OperationError) :
    ModelCallM F T α :=
  if e.errorClass = .circuitOpen then throw e
  else do
    preserve e
    recordFailure circuit operationId (py "model_operation_failed")
    throw e

/-- An answer that another process has got first is a success. -/
def reserveModel (circuit : Breaker T) (operationId requestHash : PyStr) :
    ModelCallM F T (Option ModelResponse) := do
  let raced ← reserve (modelTable : ResponseTable F ModelResponse ModelResponse) operationId
    requestHash
  match raced with
  | some answer =>
    recordSuccess circuit operationId
    pure (some answer)
  | none => pure none

/-! ### OpenCode -/

structure OpenCodeTransport (T : Type) [LT T] [Zero T] where
  circuit : Breaker T
  providerId : PyStr
  modelId : PyStr

/-- The server is asked and its answer decoded. -/
def postMessage (t : OpenCodeTransport T) (operationId : PyStr) :
    ModelCallM F T ModelResponse := do
  transmit operationId
  let result : HttpResult F ← receive .message operationId
  compute (decodeMessage B t.providerId t.modelId result)

/-- The body of `complete`'s `try`. -/
def fetchOpenCode (t : OpenCodeTransport T) (operationId requestHash : PyStr) :
    ModelCallM F T (ModelResponse ⊕ ModelResponse) := do
  let raced ← reserveModel t.circuit operationId requestHash
  match raced with
  | some answer => pure (.inl answer)
  | none =>
    let response ← postMessage B t operationId
    pure (.inr response)

/-- A session was created and has an identity. -/
def sessionCreated (session : HttpResult F) : Bool :=
  session.status == 200 && truthy (orDefault (getItem session.value (py "id"))
    ((getItem session.value (py "sessionID")).getD .none))

/-- `OpenCodeStructuredTransport.complete`. -/
def completeOpenCode (t : OpenCodeTransport T) (r : ModelRequest F) :
    ModelCallM F T ModelResponse := do
  let requestHash ← compute (admitRequest H r)
  let cached ← lookup (modelTable : ResponseTable F ModelResponse ModelResponse) r.operationId
    requestHash
  match cached with
  | some answer => pure answer
  | none =>
    let session : HttpResult F ← openSession
    if sessionCreated session then do
      beforeCall t.circuit r.operationId
      let outcome ← tryCatch (fetchOpenCode B t r.operationId requestHash)
        (onModelFailure t.circuit r.operationId fun _ => pure ())
      match outcome with
      | .inl raced => pure raced
      | .inr response =>
        recordSuccess t.circuit r.operationId
        commitModel r requestHash response
    else throw (contractError (py "OpenCode did not create a benchmark session"))

/-! ### Claude Code -/

/-- `_invoke`. -/
def invoke (t : ClaudeCodeTransport T) (operationId : PyStr) :
    ModelCallM F T (List (PyKey F × PyVal F)) := do
  transmit operationId
  let result : ProcessResult ← receive .process operationId
  compute (readEnvelope t.maxResponseBytes result)

/-- `_record_indeterminate_request`, for an operation that is reserved. -/
def preserveEnvelope (t : ClaudeCodeTransport T) (r : ModelRequest F) (requestHash : PyStr)
    (payload : Option (List (PyKey F × PyVal F))) (e : OperationError) : ModelCallM F T Unit :=
  appendRecord t.requestResponseLog fun now => indeterminateRecord r requestHash now payload e

/-- The answer with its accounting, of a process that holds the operation. The `except` clause
knows the envelope once there is one. -/
def askClaude (t : ClaudeCodeTransport T) (r : ModelRequest F) (requestHash : PyStr) :
    ModelCallM F T (ModelResponse × List (PyStr × PyVal F)) := do
  let payload ← tryCatch (invoke t r.operationId)
    (onModelFailure t.circuit r.operationId (preserveEnvelope t r requestHash none))
  tryCatch (compute (decodeEnvelope B t.model payload))
    (onModelFailure t.circuit r.operationId (preserveEnvelope t r requestHash (some payload)))

/-- The end of `complete`, once the success is recorded. -/
def settleClaude (t : ClaudeCodeTransport T) (r : ModelRequest F) (requestHash : PyStr)
    (response : ModelResponse) (accounting : List (PyStr × PyVal F)) :
    ModelCallM F T ModelResponse := do
  let committed ← commitModel r requestHash response
  appendRecord t.usageLog fun now => usageRecord r requestHash now accounting
  appendRecord t.requestResponseLog fun now =>
    completedRecord H r requestHash now committed (some accounting) false
  pure committed

/-- `ClaudeCodeStructuredTransport.complete`. -/
def completeClaudeCode (t : ClaudeCodeTransport T) (r : ModelRequest F) :
    ModelCallM F T ModelResponse := do
  let requestHash ← compute (admitRequest H r)
  let cached ← lookup (modelTable : ResponseTable F ModelResponse ModelResponse) r.operationId
    requestHash
  match cached with
  | some answer =>
    appendRecord t.requestResponseLog fun now =>
      completedRecord H r requestHash now answer none true
    pure answer
  | none =>
    beforeCall t.circuit r.operationId
    let raced ← tryCatch (reserveModel t.circuit r.operationId requestHash)
      (onModelFailure t.circuit r.operationId fun _ => pure ())
    match raced with
    | some answer => pure answer
    | none =>
      let (response, accounting) ← askClaude B t r requestHash
      recordSuccess t.circuit r.operationId
      settleClaude H t r requestHash response accounting

end Calls

end ModelTransports
