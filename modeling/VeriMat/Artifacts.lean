import VeriMat.Events
import VeriMat.KeyedTable
import VeriMat.RelyGuarantee

/-! # The artifact store

`orchestration/artifacts.py`: an SQLite index from logical keys to references, over files that
are named by the digest of their content. A statement, a transaction and an operation on a file
are one step each; a temporary file is written in full before it is linked to its name. -/
namespace Artifacts

open PyText JsonText PyValue KeyedTable Events AtomicProgram RelyGuarantee

/-! ## The store -/

structure ArtifactRef where
  tenantId : PyStr
  jobId : PyStr
  logicalKey : PyStr
  contentSha256 : PyStr
  sizeBytes : ℕ
  mediaType : PyStr
  deriving DecidableEq, Repr

/-- `PRIMARY KEY(tenant_id, job_id, logical_key)`. -/
abbrev ArtifactKey := PyStr × PyStr × PyStr

def ArtifactRef.key (ref : ArtifactRef) : ArtifactKey := (ref.tenantId, ref.jobId, ref.logicalKey)

/-- What two bindings of a key have to agree in. -/
def ArtifactRef.semantic (ref : ArtifactRef) : PyStr × ℕ × PyStr :=
  (ref.contentSha256, ref.sizeBytes, ref.mediaType)

abbrev Index := Table ArtifactRef.key Eq

/-- The name of a file: the digest of its tenant and the one of its content. -/
structure BlobPath where
  tenantHash : PyStr
  digest : PyStr
  deriving DecidableEq, Repr

structure ArtifactStore where
  index : Index
  blobs : BlobPath → Option PyBytes

def ArtifactStore.empty : ArtifactStore := ⟨KeyedTable.empty, fun _ => none⟩

inductive ArtifactError where
  | unsafeId (name : String)
  | emptyContent
  | mediaType
  | conflict
  | racedConflict
  | notFound
  | verification
  | refMismatch
  | blobMissing
  | sizeMismatch
  | hashMismatch
  | fileNotFoundError
  | unicodeEncodeError
  | integrityError
  | payload (e : EventError)
  deriving DecidableEq, Repr

/-! ## Operations -/

inductive ArtifactOp where
  | select (key : ArtifactKey)
  | blobExists (path : BlobPath)
  | link (path : BlobPath) (content : PyBytes)
  | readBlob (path : BlobPath)
  | bindRow (ref : ArtifactRef)

abbrev Result : ArtifactOp → Type
  | .select _ => Option ArtifactRef
  | .blobExists _ => Bool
  | .link _ _ => Unit
  | .readBlob _ => PyBytes
  | .bindRow _ => Unit

/-- The row of a key. -/
def ArtifactStore.binding (s : ArtifactStore) (key : ArtifactKey) : Option ArtifactRef :=
  s.index.find fun row => row.key == key

/-- `BEGIN IMMEDIATE` to `COMMIT` of `put_bytes`. -/
def bindTransaction (ref : ArtifactRef) (s : ArtifactStore) : Except ArtifactError ArtifactStore :=
  match s.binding ref.key with
  | some existing => if existing.semantic = ref.semantic then .ok s else .error .racedConflict
  | none =>
    if (encode ref.mediaType).isNone then .error .unicodeEncodeError
    else
      match s.index.insert ref with
      | some index => .ok { s with index }
      | none => .error .integrityError

/-- `os.link`, when the name may be taken. -/
def ArtifactStore.linked (s : ArtifactStore) (path : BlobPath) (content : PyBytes) :
    ArtifactStore :=
  { s with blobs := Function.update s.blobs path (some ((s.blobs path).getD content)) }

/-- What an operation replies and leaves. -/
def respond (s : ArtifactStore) : (o : ArtifactOp) → Except ArtifactError (Result o) × ArtifactStore
  | .select key => (.ok (s.binding key), s)
  | .blobExists path => (.ok (s.blobs path).isSome, s)
  | .link path content => (.ok (), s.linked path content)
  | .readBlob path =>
    match s.blobs path with
    | some content => (.ok content, s)
    | none => (.error .fileNotFoundError, s)
  | .bindRow ref =>
    match bindTransaction ref s with
    | .ok s' => (.ok (), s')
    | .error e => (.error e, s)

def perform (s : ArtifactStore) (o : ArtifactOp) (r : Except ArtifactError (Result o))
    (s' : ArtifactStore) : Prop :=
  respond s o = (r, s')

/-- A method of the store. -/
abbrev Action (α : Type) :=
  Fallible ArtifactOp (fun o => Except ArtifactError (Result o)) ArtifactError α

def act (o : ArtifactOp) : Action (Result o) := ask o

def raiseIf (c : Prop) [Decidable c] (e : ArtifactError) : Action Unit :=
  if c then throw e else pure ()

/-! ## Methods -/

section Methods
variable (H : Host)

def isSafeChar (c : ℕ) : Bool :=
  (65 ≤ c && c ≤ 90) || (97 ≤ c && c ≤ 122) || (48 ≤ c && c ≤ 57) || c = 46 || c = 95 || c = 58 ||
    c = 45

/-- `SAFE_ID.fullmatch`. -/
def isSafeId (s : PyStr) : Bool := 1 ≤ s.length && s.length ≤ 200 && s.all isSafeChar

/-- `_validate_id`. -/
def validateId (name : String) (value : PyStr) : Action Unit :=
  raiseIf (isSafeId value = false) (.unsafeId name)

/-- `_blob_path`. -/
def blobPath (tenantId digest : PyStr) : BlobPath := ⟨H.sha256 ((encode tenantId).getD []), digest⟩

/-- The file that a row is of. -/
def ArtifactRef.path (ref : ArtifactRef) : BlobPath := blobPath H ref.tenantId ref.contentSha256

/-- A row is looked up by parameters that have to be text. -/
def selectRow (key : ArtifactKey) : Action (Option ArtifactRef) := do
  raiseIf ((encode key.1).isNone ∨ (encode key.2.1).isNone ∨ (encode key.2.2).isNone)
    .unicodeEncodeError
  act (.select key)

/-- `get_ref`. -/
def getRef (key : ArtifactKey) : Action ArtifactRef := do
  match ← selectRow key with
  | none => throw .notFound
  | some row => return row

/-- `path.read_bytes()`, in `read_bytes`. -/
def readFile (path : BlobPath) : Action PyBytes :=
  tryCatch (act (.readBlob path)) fun e =>
    throw (if e = .fileNotFoundError then .blobMissing else e)

/-- `read_bytes`. -/
def readBytes (ref : ArtifactRef) : Action PyBytes := do
  let current ← getRef ref.key
  raiseIf (current ≠ ref) .refMismatch
  let content ← readFile (ref.path H)
  raiseIf (content.length ≠ ref.sizeBytes) .sizeMismatch
  raiseIf (H.sha256 content ≠ ref.contentSha256) .hashMismatch
  return content

structure PutArgs where
  tenantId : PyStr
  jobId : PyStr
  logicalKey : PyStr
  content : PyBytes
  mediaType : PyStr
  deriving DecidableEq, Repr

/-- The reference of these bytes. -/
def PutArgs.ref (a : PutArgs) : ArtifactRef :=
  ⟨a.tenantId, a.jobId, a.logicalKey, H.sha256 a.content, a.content.length, a.mediaType⟩

def PutArgs.key (a : PutArgs) : ArtifactKey := (a.tenantId, a.jobId, a.logicalKey)

def PutArgs.path (a : PutArgs) : BlobPath := blobPath H a.tenantId (H.sha256 a.content)

/-- The file is put under its name, unless there is one. -/
def publish (a : PutArgs) : Action Unit := do
  if ← act (.blobExists (a.path H)) then return ()
  else act (.link (a.path H) a.content)

/-- `put_bytes`. -/
def putBytes (a : PutArgs) : Action ArtifactRef := do
  validateId "tenant_id" a.tenantId
  validateId "job_id" a.jobId
  validateId "logical_key" a.logicalKey
  raiseIf (a.content = []) .emptyContent
  raiseIf (isBlank a.mediaType ∨ 200 < a.mediaType.length) .mediaType
  match ← selectRow a.key with
  | some existing =>
    raiseIf (existing.semantic ≠ (a.ref H).semantic) .conflict
    let _ ← readBytes H existing
    return existing
  | none =>
    publish H a
    let stored ← act (.readBlob (a.path H))
    raiseIf (H.sha256 stored ≠ H.sha256 a.content) .verification
    act (.bindRow (a.ref H))
    getRef a.key

variable {F : Type} [PyFloat F]

structure PutJson (F : Type) where
  tenantId : PyStr
  jobId : PyStr
  logicalKey : PyStr
  value : List (PyKey F × PyVal F)

/-- What `put_json` passes on. -/
def PutJson.args (a : PutJson F) : Except ArtifactError PutArgs :=
  match validateDurablePayload (.dict a.value) (py "artifact") with
  | .error e => .error (.payload e)
  | .ok () =>
    match canonicalJson (.dict a.value) with
    | .error e => .error (.payload (JsonError.raised e))
    | .ok text =>
      match encode (text ++ [10]) with
      | none => .error .unicodeEncodeError
      | some content => .ok ⟨a.tenantId, a.jobId, a.logicalKey, content, py "application/json"⟩

/-- `put_json`. -/
def putJson (a : PutJson F) : Action ArtifactRef :=
  match a.args with
  | .error e => throw e
  | .ok args => putBytes H args

end Methods

end Artifacts
