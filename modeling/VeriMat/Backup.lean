import VeriMat.FileTree
import VeriMat.PosixPath
import VeriMat.PyDisplay
import VeriMat.Ledger

/-! # Verifying a backup

`operations/backup.py`: what `verify_backup` asks of a directory that holds a backup. What SQLite
finds in a file may depend on the files beside it, so it is a function of the tree and the path. -/
namespace Backup

open PyText JsonText PyValue PyDisplay Events FileTree PosixPath
open Ledger (LedgerError)

/-- What the text of a `BackupError` says. -/
inductive BackupIssue where
  | unsafeRoot
  | symbolicLink (path : List PyStr)
  | manifestUnreadable
  | manifestFields
  | unsupportedFormat
  | manifestIdentity
  | emptyFileList
  | recordInvalid (index : ℕ)
  | unsafePath (relative : Path)
  | fileMissing (relative : Path)
  | contentMismatch (relative : Path)
  | receiptMismatch (relative : Path)
  | unmanifestedFiles
  | snapshotInvalid (path : List PyStr)
  | indexMismatch
  deriving DecidableEq, Repr

/-- The exceptions of this module; all but the first escape it. -/
inductive BackupFailure (F : Type) where
  | backup (issue : BackupIssue)
  | ledger (e : LedgerError F)
  | json (cause : JsonError)
  | unicodeDecodeError
  | unicodeEncodeError
  | sqlite
  | conversion

abbrev Checked (F α : Type) := Except (BackupFailure F) α

/-- `if condition: raise BackupError(..)`. -/
def refuseIf {F : Type} (c : Prop) [Decidable c] (issue : BackupIssue) : Checked F Unit :=
  if c then .error (.backup issue) else .ok ()

/-- A value SQLite returns. -/
inductive Column (F : Type) where
  | null
  | integer (n : ℤ)
  | real (x : F)
  | text (s : PyStr)
  | blob (bytes : PyBytes)

structure ArtifactRow (F : Type) where
  tenantId : Column F
  contentSha256 : Column F
  sizeBytes : Column F

/-- What the statements on a database return: the first row of `PRAGMA integrity_check`, the names
of the tables, and the artifact rows, where that statement does not raise. -/
structure Database (F : Type) where
  integrity : Option PyStr
  tables : List PyStr
  artifacts : Option (List (ArtifactRow F))

abbrev Directory := Entry PyStr PyBytes

abbrev BackupTree := Tree ValidName PyBytes

/-- What the check takes from the machine besides the tree. -/
structure Machine (F : Type) extends Host, Display where
  sha256_isHash : ∀ bytes, isHash (sha256 bytes) = true
  lower : PyStr → PyStr
  /-- `int(value)`. -/
  int : Column F → Option ℤ
  /-- `str(value)` of a `bytes` object. -/
  bytesText : PyBytes → PyStr
  sqlite : Directory → List PyStr → Option (Database F)
  /-- The content of the file at a path that is absolute or goes upwards. -/
  outside : Directory → Path → Option PyBytes

variable {F : Type} [PyFloat F] (M : Machine F)

/-- `str(value)`. -/
def columnText : Column F → PyStr
  | .null => py "None"
  | .integer n => intText n
  | .real x => strOf M.toDisplay (.float x)
  | .text s => s
  | .blob bytes => M.bytesText bytes

/-! ## The manifest -/

def manifestName : PyStr := py "manifest.json"

/-- The fields of a manifest. -/
def manifestFields : List PyStr :=
  [py "schema_version", py "created_at", py "format", py "summary", py "files", py "security",
    py "backup_id"]

omit [PyFloat F] in
/-- `members.get(name)`. -/
def get (members : List (PyStr × Json F)) (name : PyStr) : PyVal F :=
  match members.lookup name with
  | some j => ofJson j
  | none => .none

def canonicalBytes (value : PyVal F) : Checked F PyBytes :=
  match canonicalJson value with
  | .error cause => .error (.json cause)
  | .ok text =>
    match encode text with
    | none => .error .unicodeEncodeError
    | some bytes => .ok bytes

/-- `set(manifest) == required`. -/
def HasFields (manifest : List (PyStr × Json F)) : Prop :=
  (∀ p ∈ manifest, p.1 ∈ manifestFields) ∧ ∀ name ∈ manifestFields, name ∈ manifest.map Prod.fst

instance (manifest : List (PyStr × Json F)) : Decidable (HasFields manifest) :=
  inferInstanceAs (Decidable (_ ∧ _))

def checkManifest (manifest : List (PyStr × Json F)) : Checked F Unit := do
  refuseIf (¬HasFields manifest) .manifestFields
  refuseIf (pyEq (get manifest (py "schema_version")) (.int 1) = false ∨
    pyEq (get manifest (py "format")) (.str (py "goai-single-node-backup-v1")) = false)
    .unsupportedFormat
  let core := manifest.filter fun p => p.1 ≠ py "backup_id"
  let bytes ← canonicalBytes (.dict (ofMembers core))
  refuseIf (pyEq (.str (M.sha256 bytes)) (get manifest (py "backup_id")) = false)
    .manifestIdentity

/-- `json.loads(path.read_text(encoding="utf-8"))`. -/
def loadManifest (root : Directory) : Checked F (Json F) :=
  match root.content? [manifestName] with
  | none => .error (.backup .manifestUnreadable)
  | some content =>
    match decode content with
    | none => .error .unicodeDecodeError
    | some text =>
      match loads (translateNewlines text) with
      | none => .error (.backup .manifestUnreadable)
      | some value => .ok value

/-- `_manifest`. -/
def readManifest (root : Directory) : Checked F (List (PyStr × Json F)) := do
  match ← loadManifest root with
  | .obj manifest =>
    checkManifest M manifest
    return manifest
  | _ => .error (.backup .manifestFields)

/-! ## The files -/

/-- `_reject_symlinks`. -/
def rejectSymlinks (root : Directory) : Checked F Unit :=
  match root with
  | .directory _ =>
    match root.walk.find? fun found => found.2 matches .symlink with
    | some found => .error (.backup (.symbolicLink found.1))
    | none => .ok ()
  | _ => .error (.backup .unsafeRoot)

/-- What every file record has. -/
def recordFields : List PyStr := [py "path", py "kind", py "size_bytes", py "sha256"]

/-- `Path(str(record["path"]))`. -/
def pathOf (record : List (PyStr × Json F)) : Path :=
  parse (strOf M.toDisplay (get record (py "path")))

/-- The receipt of a ledger against its file. -/
def checkLedger (record : List (PyStr × Json F)) (content : PyBytes) : Checked F Unit :=
  match Ledger.verify (F := F) M.toHost content with
  | .error e => .error (.ledger e)
  | .ok report =>
    refuseIf (report.ok = false ∨
      pyEq (.int report.eventCount) (get record (py "events")) = false ∨
        pyEq (.str report.headHash) (get record (py "head_sha256")) = false)
      (.receiptMismatch (pathOf M record))

/-- The checks of one record, with the paths of those before it. -/
def checkRecord (root : Directory) (expectedPaths : List PyStr) (index : ℕ) :
    Json F → Checked F (List PyStr)
  | .obj record => do
    refuseIf (¬∀ name ∈ recordFields, name ∈ record.map Prod.fst) (.recordInvalid index)
    let relative := pathOf M record
    refuseIf (relative.absolute = true ∨ parent ∈ relative.parts ∨
      posixText relative.parts ∈ expectedPaths) (.unsafePath relative)
    match root.content? relative.parts with
    | none => .error (.backup (.fileMissing relative))
    | some content =>
      refuseIf (pyEq (.int content.length) (get record (py "size_bytes")) = false ∨
        pyEq (.str (M.sha256 content)) (get record (py "sha256")) = false)
        (.contentMismatch relative)
      if pyEq (get record (py "kind")) (.str (py "event_ledger")) then checkLedger M record content
      return expectedPaths ++ [posixText relative.parts]
  | _ => .error (.backup (.recordInvalid index))

/-- The loop over the records: the paths they expect. -/
def checkRecords (root : Directory) : List PyStr → ℕ → List (Json F) → Checked F (List PyStr)
  | expectedPaths, _, [] => .ok expectedPaths
  | expectedPaths, index, record :: records => do
    let expectedPaths ← checkRecord M root expectedPaths index record
    checkRecords root expectedPaths (index + 1) records

/-- `actual_paths`: every regular file but those with the name of the manifest. -/
def actualPaths (root : Directory) : List PyStr :=
  root.walk.filterMap fun found =>
    match found.2 with
    | .file _ =>
      if found.1.getLast? = some manifestName then none else some (posixText found.1)
    | _ => none

/-! ## The databases -/

/-- `_verify_sqlite`. -/
def verifySqlite (root : Directory) (path requiredTables : List PyStr) :
    Checked F (Database F) :=
  match M.sqlite root path with
  | none => .error .sqlite
  | some database =>
    if database.integrity.map M.lower = some (py "ok") ∧
        ∀ table ∈ requiredTables, table ∈ database.tables then .ok database
    else .error (.backup (.snapshotInvalid path))

/-- `_artifact_blob_path`. -/
def artifactBlobPath (tenantId : PyBytes) (digest : PyStr) : Path :=
  (Path.join ⟨false, [py "artifacts", py "tenants", M.sha256 tenantId, py "blobs"]⟩
    (parse (digest.take 2))).join (parse digest)

/-- The content of the regular file at a path below the root, or outside. -/
def contentAt (root : Directory) (path : Path) : Option PyBytes :=
  if path.absolute = true ∨ parent ∈ path.parts then M.outside root path
  else root.content? path.parts

def isText : Column F → PyStr → Bool
  | .text s, t => s == t
  | _, _ => false

/-- One artifact row against its blob. -/
def checkArtifact (root : Directory) (row : ArtifactRow F) : Checked F Unit :=
  match encode (columnText M row.tenantId) with
  | none => .error .unicodeEncodeError
  | some tenantId =>
    match contentAt M root (artifactBlobPath M tenantId (columnText M row.contentSha256)) with
    | none => .error (.backup .indexMismatch)
    | some content =>
      match M.int row.sizeBytes with
      | none => .error .conversion
      | some size =>
        refuseIf ((content.length : ℤ) ≠ size ∨ isText row.contentSha256 (M.sha256 content) = false)
          .indexMismatch

/-! ## The whole check -/

/-- What `verify_backup` returns. -/
structure Verification (F : Type) where
  backupId : PyVal F
  summary : PyVal F

def controlPath : List PyStr := [py "control", py "jobs.db"]

def artifactsPath : List PyStr := [py "artifacts", py "artifacts.db"]

/-- `records = manifest["files"]`, which must be a list with something in it. -/
def fileRecords (manifest : List (PyStr × Json F)) : Checked F (List (Json F)) :=
  match manifest.lookup (py "files") with
  | some (.arr (record :: records)) => .ok (record :: records)
  | _ => .error (.backup .emptyFileList)

/-- The artifact rows of a database, all against their blobs. -/
def checkArtifacts (root : Directory) (database : Database F) : Checked F Unit :=
  match database.artifacts with
  | none => .error .sqlite
  | some rows => rows.forM (checkArtifact M root)

/-- `verify_backup`. -/
def verifyBackup (backup : BackupTree) : Checked F (Verification F) := do
  rejectSymlinks backup.root
  let manifest ← readManifest M backup.root
  let records ← fileRecords manifest
  let expectedPaths ← checkRecords M backup.root [] 0 records
  refuseIf (¬((∀ path ∈ actualPaths backup.root, path ∈ expectedPaths) ∧
    ∀ path ∈ expectedPaths, path ∈ actualPaths backup.root)) .unmanifestedFiles
  let _ ← verifySqlite M backup.root controlPath [py "jobs", py "checkpoints", py "usage_ledger"]
  let artifacts ← verifySqlite M backup.root artifactsPath [py "artifacts"]
  checkArtifacts M backup.root artifacts
  return ⟨get manifest (py "backup_id"), get manifest (py "summary")⟩

end Backup
