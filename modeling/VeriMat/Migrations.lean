import VeriMat.Events
import VeriMat.Interleaving
import VeriMat.KeyedTable
import VeriMat.Transaction

/-! # Migrations of the runtime databases

`operations/runtime_migrations.py`: any number of processes inspect, migrate and verify one
database file. A PRAGMA or a SELECT outside the transaction is a read of its own, and
`BEGIN EXCLUSIVE .. COMMIT` is one operation. What SQLite makes of a DDL statement is a parameter;
a file that does not exist is a database without content. -/
namespace Migrations

open PyText JsonText PyValue Events AtomicProgram RelyGuarantee Interleaving Transaction KeyedTable

/-! ## Specifications -/

/-- `DatabaseSpec`; version `n` has the `n`-th entry of the migrations. -/
structure DatabaseSpec where
  kind : PyStr
  applicationId : ℤ
  migrations : List (List PyStr)
  legacyAnchorTables : List PyStr
  versioned : migrations ≠ []

def DatabaseSpec.latestVersion (spec : DatabaseSpec) : ℤ := spec.migrations.length

/-- `spec.migrations[version]`. -/
def DatabaseSpec.statements (spec : DatabaseSpec) (version : ℤ) : Option (List PyStr) :=
  if 1 ≤ version then spec.migrations[(version - 1).toNat]? else none

/-- `range(start, stop)`. -/
def pyRange (start stop : ℤ) : List ℤ :=
  (List.range (stop - start).toNat).map fun k : ℕ => start + k

def migrationName (spec : DatabaseSpec) (version : ℤ) : PyStr :=
  if version = 1 then py "initial_" ++ spec.kind ++ py "_schema"
  else spec.kind ++ py "_v" ++ decimal version.toNat

def migrationChecksum (H : Host) (spec : DatabaseSpec) (version : ℤ) : Except EventError PyStr :=
  contentHash (F := NonFinite) H (.dict [(.str (py "database"), .str spec.kind),
    (.str (py "version"), .int version),
    (.str (py "statements"), .list (((spec.statements version).getD []).map .str))])

/-- A version of the software: it knows the first migrations. -/
structure Release (all : DatabaseSpec) where
  version : ℕ
  positive : 1 ≤ version
  known : version ≤ all.migrations.length

def Release.spec {all : DatabaseSpec} (r : Release all) : DatabaseSpec :=
  { all with
    migrations := all.migrations.take r.version
    versioned := by
      have hpositive := r.positive
      have hlength := List.length_pos_iff.mpr all.versioned
      intro hnil
      have hzero := congrArg List.length hnil
      rw [List.length_take, List.length_nil] at hzero
      omega }

/-! ## Exceptions -/

/-- What the text of a `MigrationError` says. -/
inductive MigrationIssue where
  | identity (kind : PyStr)
  | newer (kind : PyStr) (version latest : ℤ)
  | nonContiguous
  | checksumMismatch (version : ℤ)
  | noHistory
  | notAdoptable (kind : PyStr)
  | unexpectedTable
  | unexpectedColumns (table : PyStr)
  | structureDiffers (kind : PyStr)
  | adoptionRequired (kind : PyStr)
  | notMigratable (kind : PyStr)
  | notSupportedVersion (kind : PyStr)
  | integrity (kind : PyStr)
  | missing

/-- A `MigrationError`, an exception of `sqlite3`, one of the checksum, or a `KeyError`. -/
inductive Failure where
  | migration (issue : MigrationIssue)
  | sqlite
  | checksum (e : EventError)
  | keyError

/-! ## The database -/

/-- What SQLite makes of a schema; the last field is `isfinite(applied_at) and applied_at > 0`. -/
structure Engine (σ κ T : Type) where
  blank : σ
  execute : PyStr → σ → Option σ
  businessTables : σ → List PyStr
  columns : σ → PyStr → κ
  keysAndIndexes : σ → PyStr → κ
  dated : T → Bool

variable {σ κ T : Type}

/-- `for statement in statements: connection.execute(statement)`. -/
def Engine.executeAll (E : Engine σ κ T) : List PyStr → σ → Option σ
  | [], schema => some schema
  | statement :: statements, schema => (E.execute statement schema).bind (E.executeAll statements)

abbrev Signature (κ : Type) : Type := List (PyStr × κ × κ)

/-- `_signature`. -/
def Engine.signature (E : Engine σ κ T) (schema : σ) : Signature κ :=
  ((E.businessTables schema).insertionSort (· ≤ ·)).map fun table =>
    (table, E.columns schema table, E.keysAndIndexes schema table)

/-- The statements of some versions, in order. -/
def DatabaseSpec.script (spec : DatabaseSpec) (versions : List ℤ) : Option (List PyStr) :=
  (versions.mapM spec.statements).map List.flatten

/-- `_expected_signature`. -/
def expectedSignature (E : Engine σ κ T) (spec : DatabaseSpec) (version : ℤ) :
    Except Failure (Signature κ) :=
  match spec.script (pyRange 1 (version + 1)) with
  | none => .error .keyError
  | some statements =>
    match E.executeAll statements E.blank with
    | none => .error .sqlite
    | some schema => .ok (E.signature schema)

/-- A row of `schema_migrations`. -/
structure MigrationRow (T : Type) where
  version : ℤ
  name : PyStr
  checksumSha256 : PyStr
  appliedAt : T

abbrev MigrationTable (T : Type) : Type := Table (MigrationRow.version (T := T)) Eq

structure Database (σ T : Type) where
  applicationId : ℤ
  userVersion : ℤ
  schema : σ
  schemaMigrations : Option (MigrationTable T)

/-- The rows of `schema_migrations`, in the order of their insertion. -/
def Database.recorded (s : Database σ T) : List (MigrationRow T) :=
  match s.schemaMigrations with
  | none => []
  | some t => t.rows

/-- `_history`. -/
def Database.history (s : Database σ T) : List (MigrationRow T) :=
  s.recorded.insertionSort fun a b => a.version ≤ b.version

/-! ## The transaction -/

abbrev Db (σ T α : Type) : Type := EStateM Failure (Database σ T) α

section Transaction
variable [DecidableEq κ] (E : Engine σ κ T) (H : Host) (spec : DatabaseSpec)

/-- `MIGRATION_TABLE_SQL`. -/
def createMigrationTable : Db σ T Unit :=
  modify fun s => { s with schemaMigrations := some (s.schemaMigrations.getD KeyedTable.empty) }

def executeStatements (statements : List PyStr) : Db σ T Unit := do
  let s ← get
  let schema ← orRaise (E.executeAll statements s.schema) .sqlite
  set { s with schema }

/-- `INSERT INTO schema_migrations VALUES (?,?,?,?)`. -/
def insertMigration (row : MigrationRow T) : Db σ T Unit := do
  let s ← get
  let t ← orRaise (s.schemaMigrations.bind (Table.insert · row)) .sqlite
  set { s with schemaMigrations := some t }

/-- One turn of the loop over the versions, when the clock reads `now`. -/
def applyVersion (now : T) (version : ℤ) : Db σ T Unit := do
  let statements ← orRaise (spec.statements version) .keyError
  executeStatements E statements
  match migrationChecksum H spec version with
  | .error e => throw (.checksum e)
  | .ok checksum => do
    insertMigration ⟨version, migrationName spec version, checksum, now⟩
    modify fun s => { s with userVersion := version }

def applyVersions (now : ℤ → T) : List ℤ → Db σ T Unit
  | [] => pure ()
  | version :: versions => do
    applyVersion E H spec (now version) version
    applyVersions now versions

/-- `_verify_structure`, within the transaction. -/
def verifyTransaction : Db σ T Unit := do
  let s ← get
  match expectedSignature E spec spec.latestVersion with
  | .error e => throw e
  | .ok expected =>
    raiseIf (E.signature s.schema ≠ expected) (.migration (.structureDiffers spec.kind))

/-- `BEGIN EXCLUSIVE .. COMMIT`. -/
def migrateTransaction (now : ℤ → T) (first : ℤ) : Db σ T Unit :=
  immediate do
    createMigrationTable
    applyVersions E H spec now (pyRange first (spec.latestVersion + 1))
    modify fun s => { s with applicationId := spec.applicationId }
    verifyTransaction E spec

end Transaction

/-! ## Operations -/

inductive MigrationOp (all : DatabaseSpec) where
  | connect (mustExist : Bool)
  | applicationId
  | userVersion
  | businessTables
  | history
  | signature
  | migrate (r : Release all) (first : ℤ)
  | journalMode
  | quickCheck
  | foreignKeyCheck

abbrev MigrationOp.Result (κ T : Type) {all : DatabaseSpec} : MigrationOp all → Type
  | .connect _ => Unit
  | .applicationId => ℤ
  | .userVersion => ℤ
  | .businessTables => List PyStr
  | .history => List (MigrationRow T)
  | .signature => Signature κ
  | .migrate _ _ => Unit
  | .journalMode => Unit
  | .quickCheck => Bool
  | .foreignKeyCheck => Bool

abbrev MigrationReply (κ T : Type) {all : DatabaseSpec} (o : MigrationOp all) : Type :=
  Except Failure (o.Result κ T)

/-- What an operation reads. A signature takes many reads, between which the schema may change,
and what the integrity checks find is not modelled: these may give anything. -/
def Reads (E : Engine σ κ T) (s : Database σ T) {all : DatabaseSpec} :
    (o : MigrationOp all) → o.Result κ T → Prop
  | .applicationId, a => a = s.applicationId
  | .userVersion, a => a = s.userVersion
  | .businessTables, a => a = E.businessTables s.schema
  | .history, a => a = s.history
  | _, _ => True

/-- An operation that is carried out; SQLite may refuse any. -/
def Performs [DecidableEq κ] (E : Engine σ κ T) (H : Host) {all : DatabaseSpec}
    (s : Database σ T) : (o : MigrationOp all) → MigrationReply κ T o → Database σ T → Prop
  | .migrate r first, reply, s' =>
    (∃ now, Outcome (migrateTransaction E H r.spec now first) s reply s') ∨
      reply = .error .sqlite ∧ s' = s
  | .connect mustExist, reply, s' =>
    s' = s ∧ (mustExist = false → ∀ e, reply = .error e → e = .sqlite)
  | o, reply, s' => s' = s ∧ ((∃ a, reply = .ok a ∧ Reads E s o a) ∨ reply = .error .sqlite)

/-! ## Programs -/

abbrev MigrationProgram (κ T : Type) (all : DatabaseSpec) (α : Type) : Type :=
  Fallible (MigrationOp all) (MigrationReply κ T) Failure α

variable {all : DatabaseSpec}

def act (o : MigrationOp all) : MigrationProgram κ T all (o.Result κ T) := ask o

/-- A check that reads nothing. -/
def check {α : Type} (x : Except Failure α) : MigrationProgram κ T all α := ExceptT.mk (.done x)

/-- What `runtime_schema_status` returns. -/
structure SchemaStatus (T : Type) where
  databaseKind : PyStr
  applicationId : ℤ
  currentVersion : ℤ
  latestVersion : ℤ
  blank : Bool
  legacyAdoptionRequired : Bool
  pendingVersions : List ℤ
  history : List (MigrationRow T)
  ready : Bool

section Checks
variable (E : Engine σ κ T) (H : Host) (spec : DatabaseSpec)

/-- `for row in history`. -/
def checkRows : List (MigrationRow T) → Except Failure Unit
  | [] => .ok ()
  | row :: rows =>
    if row.version < 1 ∨ spec.latestVersion < row.version then
      .error (.migration (.checksumMismatch row.version))
    else
      match migrationChecksum H spec row.version with
      | .error e => .error (.checksum e)
      | .ok checksum =>
        if row.checksumSha256 ≠ checksum ∨ row.name ≠ migrationName spec row.version ∨
            E.dated row.appliedAt = false then
          .error (.migration (.checksumMismatch row.version))
        else checkRows rows

def checkHistory (userVersion : ℤ) (history : List (MigrationRow T)) : Except Failure Unit :=
  if history.isEmpty then
    if userVersion ≠ 0 then .error (.migration .noHistory) else .ok ()
  else if history.map MigrationRow.version ≠ pyRange 1 (userVersion + 1) then
    .error (.migration .nonContiguous)
  else checkRows E H spec history

/-- The checks of `runtime_schema_status` in front of the structure. -/
def checkIdentity (applicationId userVersion : ℤ) (tables : List PyStr)
    (history : List (MigrationRow T)) (legacy : Bool) : Except Failure Unit :=
  if ¬(applicationId = 0 ∨ applicationId = spec.applicationId) then
    .error (.migration (.identity spec.kind))
  else if spec.latestVersion < userVersion then
    .error (.migration (.newer spec.kind userVersion spec.latestVersion))
  else
    match checkHistory E H spec userVersion history with
    | .error e => .error e
    | .ok () =>
      if tables ≠ [] ∧ legacy = false ∧ userVersion = 0 then
        .error (.migration (.notAdoptable spec.kind))
      else .ok ()

end Checks

section Programs
variable [DecidableEq κ] (E : Engine σ κ T) (H : Host)

/-- `for table in tables` of a legacy database. -/
def checkLegacy (expected : Signature κ) : List PyStr → MigrationProgram κ T all Unit
  | [] => pure ()
  | table :: tables =>
    match expected.lookup table with
    | none => throw (.migration .unexpectedTable)
    | some wanted => do
      let signature : Signature κ ← act .signature
      match signature.lookup table with
      | none => throw .keyError
      | some actual =>
        if actual.1 ≠ wanted.1 then throw (.migration (.unexpectedColumns table))
        else checkLegacy expected tables

/-- `_verify_structure`. -/
def verifyStructure (spec : DatabaseSpec) (version : ℤ) : MigrationProgram κ T all Unit := do
  let actual : Signature κ ← act .signature
  let expected ← check (expectedSignature E spec version)
  if actual ≠ expected then throw (.migration (.structureDiffers spec.kind)) else pure ()

/-- `if legacy: ..; if user_version: ..`. -/
def checkStructure (spec : DatabaseSpec) (userVersion : ℤ) (tables : List PyStr) (legacy : Bool) :
    MigrationProgram κ T all Unit :=
  if legacy then do
    let expected ← check (expectedSignature E spec spec.latestVersion)
    checkLegacy expected tables
  else if userVersion ≠ 0 then verifyStructure E spec userVersion
  else pure ()

/-- `runtime_schema_status`. -/
def runtimeSchemaStatus (spec : DatabaseSpec) (mustExist : Bool) :
    MigrationProgram κ T all (SchemaStatus T) := do
  act (.connect mustExist)
  let applicationId : ℤ ← act .applicationId
  let userVersion : ℤ ← act .userVersion
  let tables : List PyStr ← act .businessTables
  let history : List (MigrationRow T) ← act .history
  let blank := tables.isEmpty && userVersion == 0 && applicationId == 0
  let legacy := tables.any (· ∈ spec.legacyAnchorTables) && userVersion == 0
  check (checkIdentity E H spec applicationId userVersion tables history legacy)
  checkStructure E spec userVersion tables legacy
  pure {
    databaseKind := spec.kind
    applicationId
    currentVersion := userVersion
    latestVersion := spec.latestVersion
    blank
    legacyAdoptionRequired := legacy
    pendingVersions := if legacy then [] else pyRange (userVersion + 1) (spec.latestVersion + 1)
    history
    ready := applicationId == spec.applicationId && userVersion == spec.latestVersion &&
      (history.length : ℤ) == spec.latestVersion }

/-- `verify_runtime_database`. -/
def verifyRuntimeDatabase (spec : DatabaseSpec) : MigrationProgram κ T all (SchemaStatus T) := do
  let status ← runtimeSchemaStatus E H spec true
  if status.ready = false then throw (.migration (.notSupportedVersion spec.kind))
  else do
    act (.connect true)
    let quick : Bool ← act .quickCheck
    let foreign : Bool ← act .foreignKeyCheck
    if quick = false ∨ foreign = true then throw (.migration (.integrity spec.kind))
    else pure status

/-- The first version `migrate_runtime_database` applies. -/
def firstVersion (status : SchemaStatus T) : ℤ :=
  if status.blank = true ∨ status.legacyAdoptionRequired = true then 1
  else status.currentVersion + 1

/-- `migrate_runtime_database`. -/
def migrateRuntimeDatabase (r : Release all) (allowLegacyAdoption : Bool) :
    MigrationProgram κ T all (SchemaStatus T) := do
  let status ← runtimeSchemaStatus E H r.spec false
  if status.ready then verifyRuntimeDatabase E H r.spec
  else if status.legacyAdoptionRequired = true ∧ allowLegacyAdoption = false then
    throw (.migration (.adoptionRequired r.spec.kind))
  else if status.blank = false ∧ status.legacyAdoptionRequired = false ∧
      ¬(status.applicationId = r.spec.applicationId ∧ 0 < status.currentVersion ∧
        status.currentVersion < r.spec.latestVersion) then
    throw (.migration (.notMigratable r.spec.kind))
  else do
    act (.connect false)
    act (.migrate r (firstVersion status))
    act .journalMode
    verifyRuntimeDatabase E H r.spec

/-- `prepare_runtime_database`. -/
def prepareRuntimeDatabase (r : Release all) : MigrationProgram κ T all (SchemaStatus T) := do
  let status ← runtimeSchemaStatus E H r.spec false
  if status.blank then migrateRuntimeDatabase E H r false
  else if status.legacyAdoptionRequired then throw (.migration (.adoptionRequired r.spec.kind))
  else verifyRuntimeDatabase E H r.spec

/-! ## Processes -/

inductive Task where
  | status (mustExist : Bool)
  | verify
  | migrate (allowLegacyAdoption : Bool)
  | prepare

/-- A call by a release of the software. -/
structure Call (all : DatabaseSpec) where
  release : Release all
  task : Task

def Call.program (c : Call all) : MigrationProgram κ T all (SchemaStatus T) :=
  match c.task with
  | .status mustExist => runtimeSchemaStatus E H c.release.spec mustExist
  | .verify => verifyRuntimeDatabase E H c.release.spec
  | .migrate allowLegacyAdoption => migrateRuntimeDatabase E H c.release allowLegacyAdoption
  | .prepare => prepareRuntimeDatabase E H c.release

/-- Any number of calls on one file. Jobs write rows of business tables meanwhile, which are no
part of this state. -/
def migrating (all : DatabaseSpec) : Machine (Database σ T) (Call all) (MigrationOp all)
    (MigrationReply κ T) (Except Failure (SchemaStatus T)) where
  program c := (c.program E H).run
  perform := Performs E H
  external _ _ := False

end Programs

end Migrations
