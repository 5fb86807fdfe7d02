import VeriMat.JsonAscii
import VeriMat.JsonWritable
import VeriMat.PyDict
import VeriMat.Transaction

/-! # The retrieval cache

`experiments/retrieval_cache.py`: a proxy over a retrieval client that may answer anything. The
state holds the file and the memory of one proxy; the calls of the inner client and the payloads
it answered, which the code does not keep, are kept beside them. Waiting is left out. -/
namespace RetrievalCache

open PyText JsonText PyValue PyDict Events Transaction

variable {F W : Type}

/-! ## Lines -/

/-- The characters `str.splitlines` ends a line at. -/
def isLineEnd (c : ℕ) : Bool :=
  (10 ≤ c && c ≤ 13) || (28 ≤ c && c ≤ 30) || c == 0x85 || c == 0x2028 || c == 0x2029

/-- `text.splitlines()`. -/
def splitlines : PyStr → List PyStr
  | [] => []
  | 13 :: 10 :: cs => [] :: splitlines cs
  | c :: cs =>
    if isLineEnd c then [] :: splitlines cs
    else
      match splitlines cs with
      | [] => [[c]]
      | l :: ls => (c :: l) :: ls

/-! ## Data -/

/-- One call of the inner client: the method, its arguments and its keyword arguments. -/
structure Request (F : Type) where
  name : PyStr
  args : List (PyVal F)
  kwargs : List (PyStr × PyVal F)

/-- What a call raises; the text is that of an exception of the inner client. -/
inductive CallError where
  | json (cause : JsonError)
  | unicodeEncodeError
  | jsonDecodeError
  | raised (text : PyStr)
  | unboundLocalError
  deriving DecidableEq

/-- What `__init__` raises on a cache file. -/
inductive OpenError where
  | unicodeDecodeError
  | jsonDecodeError
  | keyError
  | typeError
  deriving DecidableEq, Repr

/-- The proxy's client and its bound on retries; `sha256` gives the hexadecimal digits. -/
structure CachedThrottledSciverse (F W : Type) where
  sha256 : PyBytes → List (Fin 16)
  inner : Request F → W → Except PyStr (PyVal F) × W
  max429 : ℤ

/-- The world, the cache file, the memory of the proxy, and what happened: the calls the inner
client got, and its payloads under their keys. -/
structure Cache (F W : Type) where
  world : W
  file : Option PyBytes
  store : Dict PyStr (PyVal F)
  hits : ℕ
  misses : ℕ
  asked : List (Request F)
  answered : List (PyStr × PyVal F)

abbrev CacheRun (F W α : Type) := EStateM CallError (Cache F W) α

variable [PyFloat F]

/-! ## Opening -/

/-- `self._store[row["key"]] = row["payload"]`; a key that is not a text is one no request has. -/
def loadRow (store : Dict PyStr (PyVal F)) : Json F → Except OpenError (Dict PyStr (PyVal F))
  | .obj members =>
    match members.lookup (py "payload"), members.lookup (py "key") with
    | some payload, some (.str key) => .ok (store.set key (ofJson payload))
    | some _, some (.arr _) | some _, some (.obj _) => .error .typeError
    | some _, some _ => .ok store
    | _, _ => .error .keyError
  | _ => .error .typeError

def loadLine (store : Dict PyStr (PyVal F)) (line : PyStr) :
    Except OpenError (Dict PyStr (PyVal F)) :=
  if isBlank line then .ok store
  else
    match loads line with
    | none => .error .jsonDecodeError
    | some row => loadRow store row

/-- The store `__init__` builds. -/
def openCache : Option PyBytes → Except OpenError (Dict PyStr (PyVal F))
  | none => .ok empty
  | some file =>
    match decode file with
    | none => .error .unicodeDecodeError
    | some text => (splitlines (translateNewlines text)).foldlM loadLine empty

/-! ## Calling -/

def Request.body (request : Request F) : PyVal F :=
  .dict [(.str (py "call"), .str request.name), (.str (py "args"), .tuple request.args),
    (.str (py "kwargs"), .dict (request.kwargs.map fun p => (.str p.1, p.2)))]

/-- `text.encode("utf-8")` of a canonical text. -/
def canonicalBytes (value : PyVal F) : Except CallError PyBytes :=
  match canonicalJson value with
  | .error cause => .error (.json cause)
  | .ok text =>
    match encode text with
    | none => .error .unicodeEncodeError
    | some bytes => .ok bytes

/-- `_key`. -/
def keyOf (C : CachedThrottledSciverse F W) (request : Request F) : Except CallError PyStr :=
  (canonicalBytes request.body).map fun body => (C.sha256 body).map fun d => hexDigit d.val

def rowValue (key : PyStr) (payload : PyVal F) : PyVal F :=
  .dict [(.str (py "key"), .str key), (.str (py "payload"), payload)]

/-- `_append`: the file is there once it was opened, also when nothing can be written. -/
def append (key : PyStr) (payload : PyVal F) : CacheRun F W Unit := do
  modify fun s => { s with file := some (s.file.getD []) }
  match canonicalBytes (rowValue key payload) with
  | .error e => throw e
  | .ok row => modify fun s => { s with file := some (s.file.getD [] ++ row ++ [10]) }

/-- `json.loads(json.dumps(value))`. -/
def detach (value : PyVal F) : CacheRun F W (PyVal F) :=
  match dumpsDefault value with
  | .error cause => throw (.json cause)
  | .ok text =>
    match loads text with
    | none => throw .jsonDecodeError
    | some j => pure (ofJson j)

/-- The attempts that are left; another one is made only for an exception that names 429. Without
any, `value` stays unbound. -/
def attempts (C : CachedThrottledSciverse F W) (request : Request F) :
    ℕ → CacheRun F W (Option (PyVal F))
  | 0 => pure none
  | n + 1 => do
    let s : Cache F W ← get
    let reply := C.inner request s.world
    set { s with world := reply.2, asked := s.asked ++ [request] }
    match reply.1 with
    | .ok value => pure (some value)
    | .error text =>
      if ¬(py "429") <:+: text ∨ n = 0 then throw (.raised text) else attempts C request n

/-- `except (TypeError, ValueError)`: a `UnicodeEncodeError` is a `ValueError`. -/
def CallError.bypasses : CallError → Bool
  | .json _ | .unicodeEncodeError | .jsonDecodeError => true
  | .raised _ | .unboundLocalError => false

/-- The payload of a miss is stored where it can be written. -/
def keep (key : PyStr) (payload : PyVal F) : CacheRun F W Unit :=
  tryCatch
    (do
      append key payload
      modify fun s => { s with store := s.store.set key payload })
    fun e => if e.bypasses then pure () else throw e

/-- `call` of `__getattr__`. -/
def call (C : CachedThrottledSciverse F W) (request : Request F) : CacheRun F W (PyVal F) :=
  match keyOf C request with
  | .error e => throw e
  | .ok key => do
    let s : Cache F W ← get
    match s.store.get key with
    | some value =>
      modify fun s => { s with hits := s.hits + 1 }
      detach value
    | none =>
      let value ← attempts C request (C.max429 + 1).toNat
      modify fun s => { s with misses := s.misses + 1 }
      match value with
      | none => throw .unboundLocalError
      | some value =>
        modify fun s => { s with answered := s.answered ++ [(key, value)] }
        keep key value
        pure value

/-! ## Runs -/

/-- The cache is used, or its file is opened again by a new proxy. -/
inductive CacheEvent (F : Type) where
  | call (request : Request F)
  | reopen

/-- A new proxy over the file, with the store `__init__` built. -/
def Cache.reopened (s : Cache F W) (store : Dict PyStr (PyVal F)) : Cache F W :=
  { s with store := store, hits := 0, misses := 0 }

/-- A run ends where the file cannot be opened. -/
def happen (C : CachedThrottledSciverse F W) (s : Cache F W) : CacheEvent F → Option (Cache F W)
  | .call request => some (ran (call C request) s).2
  | .reopen =>
    match openCache s.file with
    | .error _ => none
    | .ok store => some (s.reopened store)

def run (C : CachedThrottledSciverse F W) (events : List (CacheEvent F)) (s : Cache F W) :
    Option (Cache F W) :=
  events.foldlM (happen C) s

/-- No file yet. -/
def started (world : W) : Cache F W := ⟨world, none, empty, 0, 0, [], []⟩

end RetrievalCache
