import VeriMat.AtomicProgram
import VeriMat.OperationStore
import VeriMat.PyDisplay

/-! # Transports of paid calls

`CachedSciverseTransport` (`evaluation/literature_retriever.py`), `ClaudeCodeStructuredTransport`
(`evaluation/claude_code_transport.py`) and `OpenCodeStructuredTransport`
(`evaluation/opencode_transport.py`) as programs of atomic operations: each transaction of the
operation database is one, and so is each message to and from the provider. What is sent to the
provider is not modelled, what it may answer is anything. -/
namespace Transports

open PyText JsonText PyValue PyDict PyDisplay Transaction Events CircuitBreaker OperationStore
  AtomicProgram
open DecisionGraph (getItem)

/-! ## Operations -/

/-- The three ways to call a provider: the client, the command line tool, the local server. -/
inductive Wire where
  | client
  | process
  | message
  deriving DecidableEq, Repr

structure ProcessResult where
  returncode : ℤ
  stdout : PyStr
  stderr : PyStr

/-- A decoded JSON object and the status it came with. -/
structure HttpResult (F : Type) where
  status : ℤ
  value : List (PyKey F × PyVal F)

abbrev Received (F : Type) : Wire → Type
  | .client => PyVal F
  | .process => ProcessResult
  | .message => HttpResult F

/-- `hashlib.sha256(..).hexdigest()`. -/
structure Hasher where
  hexdigest : PyBytes → PyStr
  hexdigest_isHash : ∀ bytes, isHash (hexdigest bytes) = true

/-- `datetime.now(timezone.utc).isoformat()`. -/
structure Timestamp where
  text : PyStr
  ascii : ∀ c ∈ text, c < 128

inductive Op (F T R : Type) [LT T] [Zero T] where
  | select (operationId : PyStr)
  | reserve (operationId requestHash : PyStr)
  | commit (operationId requestHash : PyStr) (response : R)
  | beforeCall (circuit : Breaker T) (operationId : PyStr)
  | recordSuccess (circuit : Breaker T) (operationId : PyStr)
  | recordFailure (circuit : Breaker T) (operationId reasonCode : PyStr)
  | session
  | transmit (operationId : PyStr)
  | receive (wire : Wire) (operationId : PyStr)
  | utcnow
  | append (record : PyVal F)

variable {F T R A : Type}

section Programs
variable [LinearOrder T] [Zero T]

/-- An operation's value or the exception it raises; the clock and the sending of a request
raise none. -/
def Reply : Op F T R → Type
  | .select _ => Except OperationError (Option (OperationRow R T))
  | .reserve _ _ => Except OperationError Bool
  | .commit _ _ _ => Except OperationError ℕ
  | .beforeCall _ _ => Except OperationError Unit
  | .recordSuccess _ _ => Except OperationError Unit
  | .recordFailure _ _ _ => Except OperationError Unit
  | .session => Except OperationError (HttpResult F)
  | .transmit _ => Unit
  | .receive wire _ => Except OperationError (Received F wire)
  | .utcnow => Timestamp
  | .append _ => Except OperationError Unit

/-- A method of a transport. -/
abbrev Call (F T R α : Type) [LinearOrder T] [Zero T] :=
  Fallible (Op F T R) Reply OperationError α

def select (operationId : PyStr) : Call F T R (Option (OperationRow R T)) :=
  ExceptT.mk (.step (.select operationId) .done)

def reserveTransaction (operationId requestHash : PyStr) : Call F T R Bool :=
  ExceptT.mk (.step (.reserve operationId requestHash) .done)

def commit (operationId requestHash : PyStr) (response : R) : Call F T R ℕ :=
  ExceptT.mk (.step (.commit operationId requestHash response) .done)

def beforeCall (circuit : Breaker T) (operationId : PyStr) : Call F T R Unit :=
  ExceptT.mk (.step (.beforeCall circuit operationId) .done)

def recordSuccess (circuit : Breaker T) (operationId : PyStr) : Call F T R Unit :=
  ExceptT.mk (.step (.recordSuccess circuit operationId) .done)

def recordFailure (circuit : Breaker T) (operationId reasonCode : PyStr) : Call F T R Unit :=
  ExceptT.mk (.step (.recordFailure circuit operationId reasonCode) .done)

def openSession : Call F T R (HttpResult F) := ExceptT.mk (.step .session .done)

def transmit (operationId : PyStr) : Call F T R Unit :=
  ExceptT.lift (.step (.transmit operationId) .done)

def receive (wire : Wire) (operationId : PyStr) : Call F T R (Received F wire) :=
  ExceptT.mk (.step (.receive wire operationId) .done)

def utcnow : Call F T R Timestamp := ExceptT.lift (.step .utcnow .done)

def appendLine (record : PyVal F) : Call F T R Unit := ExceptT.mk (.step (.append record) .done)

/-- A computation of its own, in the course of a call. -/
def compute {α : Type} (x : Except OperationError α) : Call F T R α := ExceptT.mk (pure x)

section Shared
variable (table : ResponseTable F R A)

/-- `_lookup`. -/
def lookup (operationId requestHash : PyStr) : Call F T R (Option A) := do
  let row ← select operationId
  compute (readRow table requestHash row)

def changedText : OperationKind → PyStr
  | .model => py "model operation changed during reservation"
  | .retrieval => py "retrieval operation changed during reservation"

/-- `_reserve`: an answer that another process has got first, or the operation is the caller's. -/
def reserve (operationId requestHash : PyStr) : Call F T R (Option A) := do
  let reserved ← reserveTransaction operationId requestHash
  if reserved then pure none
  else
    let cached ← lookup table operationId requestHash
    match cached with
    | some answer => pure (some answer)
    | none => throw (indeterminateOperation (changedText table.kind))

end Shared

variable [PyFloat F] (H : Hasher)

/-- `canonical_json(request).encode()`. -/
def requestBytes (request : PyVal F) : Except OperationError PyBytes :=
  match canonicalJson request with
  | .error e => .error (jsonRaised e)
  | .ok text =>
    match encode text with
    | none => .error surrogatesNotAllowed
    | some bytes => .ok bytes

/-- `hashlib.sha256(canonical_json(request).encode()).hexdigest()`. -/
def fingerprint (request : PyVal F) : Except OperationError PyStr :=
  (requestBytes request).map H.hexdigest

/-! ## Retrieval -/

/-- `_complete`. -/
def completeRetrieval (operationId requestHash : PyStr) (response : PyVal F) :
    Call F T (RenderedJson F) (PyVal F) := do
  let rendered ← compute ((renderJson response).mapError jsonRaised)
  let rowcount ← commit operationId requestHash rendered
  if rowcount = 1 then pure rendered.value
  else throw (indeterminateOperation (py "retrieval cache commit failed"))

/-- What `search` and `content` differ in once their request is hashed. -/
structure Endpoint (F : Type) where
  reasonCode : PyStr
  accepts : PyVal F → Bool
  invalidText : PyStr
  indeterminateText : PyStr

/-- The `except` clause of `search` and `content`. -/
def onRetrievalFailure {α : Type} (circuit : Breaker T) (endpoint : Endpoint F)
    (operationId : PyStr) (e : OperationError) : Call F T R α := do
  recordFailure circuit operationId endpoint.reasonCode
  if e.errorClass = .indeterminate then throw e
  else throw (indeterminateOperation endpoint.indeterminateText)

/-- The body of their `try`: an answer found, or the response of the provider. -/
def fetch (circuit : Breaker T) (endpoint : Endpoint F) (operationId requestHash : PyStr) :
    Call F T (RenderedJson F) (PyVal F ⊕ PyVal F) := do
  let raced ← reserve retrievalTable operationId requestHash
  match raced with
  | some answer =>
    recordSuccess circuit operationId
    pure (.inl answer)
  | none =>
    transmit operationId
    let response : PyVal F ← receive .client operationId
    if endpoint.accepts response then pure (.inr response)
    else throw (indeterminateOperation endpoint.invalidText)

/-- `search` and `content` from the request hash on. -/
def retrieve (circuit : Breaker T) (endpoint : Endpoint F) (operationId requestHash : PyStr) :
    Call F T (RenderedJson F) (PyVal F) := do
  let cached ← lookup retrievalTable operationId requestHash
  match cached with
  | some answer => pure answer
  | none =>
    beforeCall circuit operationId
    let outcome ← tryCatch (fetch circuit endpoint operationId requestHash)
      (onRetrievalFailure circuit endpoint operationId)
    match outcome with
    | .inl raced => pure raced
    | .inr response =>
      recordSuccess circuit operationId
      completeRetrieval operationId requestHash response

/-- The request that `_hash` hashes. -/
def hashedRequest (kind : PyStr) (request : List (PyKey F × PyVal F)) : PyVal F :=
  .dict [(.str (py "kind"), .str kind), (.str (py "request"), .dict request)]

def searchRequest (query : PyStr) (topK : ℤ) (filters : PyVal F) : PyVal F :=
  hashedRequest (py "search") [(.str (py "query"), .str query), (.str (py "top_k"), .int topK),
    (.str (py "filters"), filters)]

def contentRequest (docId : PyStr) (offset limit : ℤ) : PyVal F :=
  hashedRequest (py "content") [(.str (py "doc_id"), .str docId),
    (.str (py "offset"), .int offset), (.str (py "limit"), .int limit)]

def searchEndpoint : Endpoint F where
  reasonCode := py "retrieval_search_failed"
  accepts := isList
  invalidText := py "Sciverse search returned an invalid response"
  indeterminateText := py "Sciverse search state is indeterminate; automatic retry is disabled"

def contentEndpoint : Endpoint F where
  reasonCode := py "retrieval_content_failed"
  accepts := isDict
  invalidText := py "Sciverse content returned an invalid response"
  indeterminateText := py "Sciverse content state is indeterminate; automatic retry is disabled"

/-- `search`. -/
def search (circuit : Breaker T) (operationId query : PyStr) (topK : ℤ) (filters : PyVal F) :
    Call F T (RenderedJson F) (PyVal F) := do
  let requestHash ← compute (fingerprint H (searchRequest query topK filters))
  retrieve circuit searchEndpoint operationId requestHash

/-- `content`. -/
def content (circuit : Breaker T) (operationId docId : PyStr) (offset limit : ℤ) :
    Call F T (RenderedJson F) (PyVal F) := do
  let requestHash ← compute (fingerprint H (contentRequest docId offset limit : PyVal F))
  retrieve circuit contentEndpoint operationId requestHash

end Programs

end Transports
