import VeriMat.Backup
import VeriMat.LedgerAppend

/-! # What an accepted backup holds

The files of an accepted backup are those of its manifest, but for files with the name of the
manifest below the top level: the check passes over them. -/
namespace Backup

open PyText JsonText PyValue PyDisplay Events FileTree PosixPath

variable {F : Type} [PyFloat F]

/-- A member of a JSON object list. -/
abbrev Record (F : Type) := List (PyStr × Json F)

omit [PyFloat F] in
theorem bind_eq_ok {α β : Type} {x : Checked F α} {f : α → Checked F β} {b : β} :
    (x >>= f) = .ok b ↔ ∃ a, x = .ok a ∧ f a = .ok b := by
  cases x with
  | error e => simp [bind, Except.bind]
  | ok a => simp [bind, Except.bind]

omit [PyFloat F] in
@[simp] theorem refuseIf_eq_ok {c : Prop} [Decidable c] {issue : BackupIssue} {u : Unit} :
    refuseIf (F := F) c issue = .ok u ↔ ¬c := by
  unfold refuseIf
  split <;> simp_all

/-! ## What is to hold -/

/-- The file is a sound ledger with as many events and the head that the record says. -/
def LedgerMatches (M : Machine F) (record : Record F) (content : PyBytes) : Prop :=
  ∃ report, Ledger.verify (F := F) M.toHost content = .ok report ∧ report.ok = true ∧
    pyEq (.int report.eventCount) (get record (py "events")) = true ∧
      pyEq (.str report.headHash) (get record (py "head_sha256")) = true

/-- There is a regular file with the size and the hash of the record, and the receipt of a ledger
matches. -/
def Recorded (M : Machine F) (root : Directory) (record : Record F) : Prop :=
  ∃ content, root.content? (pathOf M record).parts = some content ∧
    pyEq (.int content.length) (get record (py "size_bytes")) = true ∧
      pyEq (.str (M.sha256 content)) (get record (py "sha256")) = true ∧
        (pyEq (get record (py "kind")) (.str (py "event_ledger")) = true →
          LedgerMatches M record content)

/-- The blob of an artifact row is under the hash of its tenant, with its size and content hash. -/
def HasBlob (M : Machine F) (root : Directory) (row : ArtifactRow F) : Prop :=
  ∃ tenantId digest content, encode (columnText M row.tenantId) = some tenantId ∧
    row.contentSha256 = .text digest ∧
      root.content? [py "artifacts", py "tenants", M.sha256 tenantId, py "blobs", digest.take 2,
        digest] = some content ∧
        M.sha256 content = digest ∧ M.int row.sizeBytes = some (content.length : ℤ)

/-- The records of a manifest. -/
def recordsOf (manifest : Record F) : List (Record F) :=
  match manifest.lookup (py "files") with
  | some (.arr records) => records.filterMap fun
      | .obj record => some record
      | _ => none
  | _ => []

/-- The regular files but the manifest are those of the records, each as it is recorded, and every
artifact row has its blob. -/
structure Exact (M : Machine F) (backup : BackupTree) (manifest : Record F) : Prop where
  listed : ∀ path, (path ≠ [manifestName] ∧ ∃ content, backup.root.content? path = some content) ↔
    ∃ record ∈ recordsOf manifest, (pathOf M record).parts = path
  recorded : ∀ record ∈ recordsOf manifest, Recorded M backup.root record
  indexed : ∃ artifacts rows, M.sqlite backup.root artifactsPath = some artifacts ∧
    artifacts.artifacts = some rows ∧ ∀ row ∈ rows, HasBlob M backup.root row

/-- No regular file below the top level has the name of the manifest. -/
def NoStray (backup : BackupTree) : Prop :=
  ∀ path, path ≠ [manifestName] → path.getLast? = some manifestName →
    backup.root.content? path = none

/-! ## Records -/

theorem parts_plain (M : Machine F) (record : Record F) :
    ∀ part ∈ (pathOf M record).parts, Plain part :=
  plain_parse _

theorem checkLedger_eq_ok {M : Machine F} {record : Record F} {content : PyBytes} {u : Unit}
    (h : checkLedger M record content = .ok u) : LedgerMatches M record content := by
  rw [checkLedger] at h
  cases hreport : Ledger.verify (F := F) M.toHost content with
  | error e => simp [hreport] at h
  | ok report =>
    simp only [hreport, refuseIf_eq_ok, not_or, Bool.not_eq_false] at h
    exact ⟨report, hreport, h⟩

theorem checkRecord_eq_ok {M : Machine F} {root : Directory} {expectedPaths paths : List PyStr}
    {index : ℕ} {j : Json F} (h : checkRecord M root expectedPaths index j = .ok paths) :
    ∃ record, j = .obj record ∧ Recorded M root record ∧
      paths = expectedPaths ++ [posixText (pathOf M record).parts] := by
  cases j with
  | obj record =>
    rw [checkRecord] at h
    obtain ⟨_, -, h⟩ := bind_eq_ok.mp h
    obtain ⟨_, -, h⟩ := bind_eq_ok.mp h
    cases hcontent : root.content? (pathOf M record).parts with
    | none => simp [hcontent] at h
    | some content =>
      simp only [hcontent] at h
      obtain ⟨_, hmatch, h⟩ := bind_eq_ok.mp h
      simp only [refuseIf_eq_ok, not_or, Bool.not_eq_false] at hmatch
      refine ⟨record, rfl, ⟨content, hcontent, hmatch.1, hmatch.2, ?_⟩, ?_⟩
      · intro hkind
        rw [if_pos hkind] at h
        obtain ⟨_, hledger, -⟩ := bind_eq_ok.mp h
        exact checkLedger_eq_ok hledger
      · split at h
        · obtain ⟨_, -, h⟩ := bind_eq_ok.mp h
          cases h
          rfl
        · cases h
          rfl
  | _ => cases h

theorem checkRecords_eq_ok {M : Machine F} {root : Directory} {expectedPaths paths : List PyStr}
    {index : ℕ} {records : List (Json F)}
    (h : checkRecords M root expectedPaths index records = .ok paths) :
    ∃ rows : List (Record F), records = rows.map Json.obj ∧ (∀ row ∈ rows, Recorded M root row) ∧
      paths = expectedPaths ++ rows.map fun row => posixText (pathOf M row).parts := by
  induction records generalizing expectedPaths index with
  | nil =>
    cases h
    exact ⟨[], rfl, by simp, by simp⟩
  | cons j records ih =>
    rw [checkRecords] at h
    obtain ⟨next, hfirst, hrest⟩ := bind_eq_ok.mp h
    obtain ⟨record, rfl, hrecorded, rfl⟩ := checkRecord_eq_ok hfirst
    obtain ⟨rows, rfl, hall, rfl⟩ := ih hrest
    exact ⟨record :: rows, rfl, List.forall_mem_cons.mpr ⟨hrecorded, hall⟩, by simp⟩

omit [PyFloat F] in
theorem recordsOf_eq {manifest : Record F} {rows : List (Record F)}
    (h : fileRecords (F := F) manifest = .ok (rows.map Json.obj)) : recordsOf manifest = rows := by
  have hobjects : (rows.map Json.obj).filterMap (fun
      | .obj record => some record
      | _ => none) = rows := by
    rw [List.filterMap_map]
    exact List.filterMap_some
  rw [fileRecords] at h
  split at h
  · next record records hfiles =>
    rw [recordsOf, hfiles]
    rw [Except.ok.injEq] at h
    simp only [h, hobjects]
  · cases h

/-! ## Files -/

omit [PyFloat F] in
theorem isDirectory_of_rejectSymlinks {root : Directory} {u : Unit}
    (h : rejectSymlinks (F := F) root = .ok u) : ∃ entries, root = .directory entries := by
  cases root with
  | directory entries => exact ⟨entries, rfl⟩
  | _ => cases h

omit [PyFloat F] in
theorem content?_nil {root : Directory} {u : Unit} (h : rejectSymlinks (F := F) root = .ok u) :
    root.content? [] = none := by
  obtain ⟨entries, rfl⟩ := isDirectory_of_rejectSymlinks h
  rfl

theorem mem_actualPaths {backup : BackupTree} {text : PyStr} :
    text ∈ actualPaths backup.root ↔ ∃ path content, backup.root.content? path = some content ∧
      path ≠ [] ∧ path.getLast? ≠ some manifestName ∧ posixText path = text := by
  simp only [actualPaths, List.mem_filterMap]
  constructor
  · rintro ⟨⟨path, e⟩, hwalk, htext⟩
    obtain ⟨hne, hfind⟩ := (mem_walk backup.wellFormed).mp hwalk
    cases e with
    | file content =>
      simp only [Option.ite_none_left_eq_some, Option.some.injEq] at htext
      exact ⟨path, content, content?_eq_some.mpr hfind, hne, htext.1, htext.2⟩
    | _ => simp at htext
  · rintro ⟨path, content, hcontent, hne, hlast, rfl⟩
    refine ⟨(path, .file content), (mem_walk backup.wellFormed).mpr ⟨hne, ?_⟩, ?_⟩
    · exact content?_eq_some.mp hcontent
    · simp only [if_neg hlast]

theorem plain_of_content? {backup : BackupTree} {path : List PyStr} {content : PyBytes}
    (h : backup.root.content? path = some content) : ∀ name ∈ path, Plain name := fun name hname =>
  (valid_of_find? backup.wellFormed (content?_eq_some.mp h) name hname).1

/-! ## Blobs -/

theorem plain_of_digits {s : PyStr} (hne : s ≠ []) (h : ∀ c ∈ s, 48 ≤ c) :
    Plain s ∧ s ≠ parent := by
  refine ⟨⟨hne, ?_, ?_⟩, ?_⟩
  · rintro rfl
    exact absurd (h 46 (by decide)) (by decide)
  · exact fun hmem => absurd (h 47 hmem) (by decide)
  · rintro rfl
    exact absurd (h 46 (by decide)) (by decide)

/-- A hash and its first two digits are names, and neither goes upwards. -/
theorem name_of_isHash {s : PyStr} (h : isHash s = true) :
    (Plain s ∧ s ≠ parent) ∧ Plain (s.take 2) ∧ s.take 2 ≠ parent := by
  rw [isHash, Bool.and_eq_true, beq_iff_eq, List.all_eq_true] at h
  obtain ⟨hlength, hhex⟩ := h
  have hdigits : ∀ c ∈ s, 48 ≤ c := by
    intro c hc
    have hdigit := hhex c hc
    simp only [Bool.or_eq_true, Bool.and_eq_true, decide_eq_true_eq] at hdigit
    omega
  have hne : s ≠ [] := by
    rintro rfl
    cases hlength
  exact ⟨plain_of_digits hne hdigits,
    plain_of_digits (by simp [hne]) fun c hc => hdigits c (List.mem_of_mem_take hc)⟩

omit [PyFloat F] in
/-- The blob of a hash is looked for in the tree. -/
theorem contentAt_blob (M : Machine F) (root : Directory) (tenantId : PyBytes) {digest : PyStr}
    (h : isHash digest = true) :
    contentAt M root (artifactBlobPath M tenantId digest) =
      root.content? [py "artifacts", py "tenants", M.sha256 tenantId, py "blobs", digest.take 2,
        digest] := by
  obtain ⟨⟨hplain, hup⟩, hplain₂, hup₂⟩ := name_of_isHash h
  obtain ⟨⟨-, htenant⟩, -⟩ := name_of_isHash (M.sha256_isHash tenantId)
  have hpath : artifactBlobPath M tenantId digest = ⟨false,
      [py "artifacts", py "tenants", M.sha256 tenantId, py "blobs", digest.take 2, digest]⟩ := by
    rw [artifactBlobPath, parse_name hplain, parse_name hplain₂]
    rfl
  have hinside : parent ∉ [py "artifacts", py "tenants", M.sha256 tenantId, py "blobs",
      digest.take 2, digest] := by
    simp only [List.mem_cons, List.not_mem_nil, or_false, not_or]
    exact ⟨by decide, by decide, Ne.symm htenant, by decide, Ne.symm hup₂, Ne.symm hup⟩
  rw [hpath, contentAt, if_neg (by simp [hinside])]

theorem checkArtifact_eq_ok {M : Machine F} {root : Directory} {row : ArtifactRow F} {u : Unit}
    (h : checkArtifact M root row = .ok u) : HasBlob M root row := by
  rw [checkArtifact] at h
  cases htenant : encode (columnText M row.tenantId) with
  | none => simp [htenant] at h
  | some tenantId =>
    simp only [htenant] at h
    cases hcontent : contentAt M root
        (artifactBlobPath M tenantId (columnText M row.contentSha256)) with
    | none => simp [hcontent] at h
    | some content =>
      simp only [hcontent] at h
      cases hsize : M.int row.sizeBytes with
      | none => simp [hsize] at h
      | some size =>
        simp only [hsize, refuseIf_eq_ok, not_or, not_not, Bool.not_eq_false] at h
        obtain ⟨rfl, htext⟩ := h
        -- Only a text equals the hash, and then it is where the blob was looked for.
        have hdigest : row.contentSha256 = .text (M.sha256 content) := by
          cases hcolumn : row.contentSha256 with
          | text s =>
            rw [hcolumn, isText, beq_iff_eq] at htext
            rw [htext]
          | _ => simp [hcolumn, isText] at htext
        rw [hdigest, columnText, contentAt_blob M root tenantId (M.sha256_isHash content)]
          at hcontent
        exact ⟨tenantId, _, content, htenant, hdigest, hcontent, rfl, hsize⟩

/-! ## Accepted backups -/

/-- What the check of a backup establishes. -/
structure Accepted (M : Machine F) (backup : BackupTree) (manifest : Record F) : Prop where
  read : readManifest M backup.root = .ok manifest
  listed : ∀ path, (path.getLast? ≠ some manifestName ∧
    ∃ content, backup.root.content? path = some content) ↔
      ∃ record ∈ recordsOf manifest, (pathOf M record).parts = path
  recorded : ∀ record ∈ recordsOf manifest, Recorded M backup.root record
  indexed : ∃ artifacts rows, M.sqlite backup.root artifactsPath = some artifacts ∧
    artifacts.artifacts = some rows ∧ ∀ row ∈ rows, HasBlob M backup.root row

/-- Equal sets of texts are equal sets of paths. -/
theorem listed_of_texts {M : Machine F} {backup : BackupTree} {rows : List (Record F)}
    (hroot : backup.root.content? [] = none)
    (hactual : ∀ text ∈ actualPaths backup.root,
      text ∈ rows.map fun row => posixText (pathOf M row).parts)
    (hexpected : ∀ text ∈ rows.map fun row => posixText (pathOf M row).parts,
      text ∈ actualPaths backup.root) (path : List PyStr) :
    (path.getLast? ≠ some manifestName ∧ ∃ content, backup.root.content? path = some content) ↔
      ∃ record ∈ rows, (pathOf M record).parts = path := by
  constructor
  · rintro ⟨hlast, content, hcontent⟩
    have hne : path ≠ [] := by
      rintro rfl
      rw [hroot] at hcontent
      cases hcontent
    have hmem := hactual _ (mem_actualPaths.mpr ⟨path, content, hcontent, hne, hlast, rfl⟩)
    obtain ⟨row, hrow, htext⟩ := List.mem_map.mp hmem
    exact ⟨row, hrow, posixText_injective (parts_plain M row) (plain_of_content? hcontent) htext⟩
  · rintro ⟨row, hrow, rfl⟩
    have hmem := hexpected _ (List.mem_map.mpr ⟨row, hrow, rfl⟩)
    obtain ⟨path, content, hcontent, -, hlast, htext⟩ := mem_actualPaths.mp hmem
    have hpath := posixText_injective (plain_of_content? hcontent) (parts_plain M row) htext
    rw [← hpath]
    exact ⟨hlast, content, hcontent⟩

omit [PyFloat F] in
theorem verifySqlite_eq_ok {M : Machine F} {root : Directory} {path requiredTables : List PyStr}
    {database : Database F} (h : verifySqlite M root path requiredTables = .ok database) :
    M.sqlite root path = some database := by
  rw [verifySqlite] at h
  cases hopened : M.sqlite root path with
  | none => simp [hopened] at h
  | some opened =>
    simp only [hopened] at h
    split at h
    · cases h
      rfl
    · cases h

theorem checkArtifacts_eq_ok {M : Machine F} {root : Directory} {database : Database F} {u : Unit}
    (h : checkArtifacts M root database = .ok u) :
    ∃ rows, database.artifacts = some rows ∧ ∀ row ∈ rows, HasBlob M root row := by
  rw [checkArtifacts] at h
  cases hrows : database.artifacts with
  | none => simp [hrows] at h
  | some rows =>
    simp only [hrows] at h
    refine ⟨rows, rfl, ?_⟩
    clear hrows
    induction rows with
    | nil => simp
    | cons row rows ih =>
      have hcons : (row :: rows).forM (checkArtifact M root) =
          (checkArtifact M root row >>= fun _ => rows.forM (checkArtifact M root)) := rfl
      rw [hcons] at h
      obtain ⟨_, hrow, hrest⟩ := bind_eq_ok.mp h
      exact List.forall_mem_cons.mpr ⟨checkArtifact_eq_ok hrow, ih hrest⟩

theorem accepted_of_verify {M : Machine F} {backup : BackupTree} {verification : Verification F}
    (h : verifyBackup M backup = .ok verification) : ∃ manifest, Accepted M backup manifest := by
  rw [verifyBackup] at h
  obtain ⟨_, hlinks, h⟩ := bind_eq_ok.mp h
  obtain ⟨manifest, hread, h⟩ := bind_eq_ok.mp h
  obtain ⟨records, hrecords, h⟩ := bind_eq_ok.mp h
  obtain ⟨expectedPaths, hchecked, h⟩ := bind_eq_ok.mp h
  obtain ⟨_, hsame, h⟩ := bind_eq_ok.mp h
  obtain ⟨_, -, h⟩ := bind_eq_ok.mp h
  obtain ⟨artifacts, hartifacts, h⟩ := bind_eq_ok.mp h
  obtain ⟨_, hblobs, -⟩ := bind_eq_ok.mp h
  obtain ⟨rows, rfl, hrecorded, rfl⟩ := checkRecords_eq_ok hchecked
  rw [refuseIf_eq_ok, not_not, List.nil_append] at hsame
  obtain ⟨rowsFound, hfound, hindexed⟩ := checkArtifacts_eq_ok hblobs
  have hrows := recordsOf_eq hrecords
  refine ⟨manifest, hread, ?_, ?_, artifacts, rowsFound, verifySqlite_eq_ok hartifacts, hfound,
    hindexed⟩
  · rw [hrows]
    exact listed_of_texts (content?_nil hlinks) hsame.1 hsame.2
  · rw [hrows]
    exact hrecorded

/-! ## Exactness -/

/-- The files of the tree are those of the manifest it has. -/
def IsExact (M : Machine F) (backup : BackupTree) : Prop :=
  ∃ manifest, readManifest M backup.root = .ok manifest ∧ Exact M backup manifest

/-- What is listed is what is there, but for the files the check passes over. -/
theorem Accepted.exact_iff {M : Machine F} {backup : BackupTree} {manifest : Record F}
    (h : Accepted M backup manifest) : Exact M backup manifest ↔ NoStray backup := by
  constructor
  · intro hexact path hne hlast
    cases hcontent : backup.root.content? path with
    | none => rfl
    | some content =>
      have hrecord := (hexact.listed path).mp ⟨hne, content, hcontent⟩
      exact absurd hlast ((h.listed path).mpr hrecord).1
  · intro hnostray
    refine ⟨fun path => ?_, h.recorded, h.indexed⟩
    rw [← h.listed path]
    constructor
    · rintro ⟨hne, content, hcontent⟩
      refine ⟨fun hlast => ?_, content, hcontent⟩
      rw [hnostray path hne hlast] at hcontent
      cases hcontent
    · rintro ⟨hlast, hcontent⟩
      exact ⟨fun heq => hlast (by rw [heq]; rfl), hcontent⟩

theorem isExact_iff {M : Machine F} {backup : BackupTree} {verification : Verification F}
    (h : verifyBackup M backup = .ok verification) : IsExact M backup ↔ NoStray backup := by
  obtain ⟨manifest, haccepted⟩ := accepted_of_verify h
  rw [← haccepted.exact_iff]
  constructor
  · rintro ⟨read, hread, hexact⟩
    obtain rfl := Except.ok.inj (haccepted.read.symm.trans hread)
    exact hexact
  · exact fun hexact => ⟨manifest, haccepted.read, hexact⟩

/-! ## Tampering -/

/-- What tells the file at a path from others: its hash, if there is one. -/
def digestAt (M : Machine F) (backup : BackupTree) (path : List PyStr) : Option PyStr :=
  (backup.root.content? path).map M.sha256

/-- The two trees have the same files, but for the manifest. -/
def SameFiles (M : Machine F) (backup backup' : BackupTree) : Prop :=
  ∀ path, path ≠ [manifestName] → digestAt M backup path = digestAt M backup' path

/-- The two trees have the same files with the name of the manifest below the top level. -/
def SameStrays (M : Machine F) (backup backup' : BackupTree) : Prop :=
  ∀ path, path ≠ [manifestName] → path.getLast? = some manifestName →
    digestAt M backup path = digestAt M backup' path

theorem readManifest_congr {M : Machine F} {root root' : Directory}
    (h : root.content? [manifestName] = root'.content? [manifestName]) :
    readManifest M root = readManifest M root' := by
  have hload : loadManifest (F := F) root = loadManifest root' := by
    unfold loadManifest
    rw [h]
  unfold readManifest
  rw [hload]

theorem eq_str_of_pyEq {v : PyVal F} {s : PyStr} (h : pyEq (.str s) v = true) : v = .str s := by
  cases v with
  | str t =>
    rw [LedgerAppend.pyEq_str, Ledger.isStr, beq_iff_eq] at h
    rw [h]
  | _ => cases h

/-- A record leaves one hash for its file. -/
theorem digestAt_recorded {M : Machine F} {backup backup' : BackupTree} {record : Record F}
    (h : Recorded M backup.root record) (h' : Recorded M backup'.root record) :
    digestAt M backup (pathOf M record).parts = digestAt M backup' (pathOf M record).parts := by
  obtain ⟨content, hcontent, -, hdigest, -⟩ := h
  obtain ⟨content', hcontent', -, hdigest', -⟩ := h'
  have hsame := (eq_str_of_pyEq hdigest).symm.trans (eq_str_of_pyEq hdigest')
  rw [digestAt, digestAt, hcontent, hcontent', Option.map_some, Option.map_some,
    PyVal.str.inj hsame]

omit [PyFloat F] in
theorem digestAt_eq_none {M : Machine F} {backup : BackupTree} {path : List PyStr}
    (h : ¬∃ content, backup.root.content? path = some content) : digestAt M backup path = none := by
  rw [digestAt]
  cases hcontent : backup.root.content? path with
  | none => rfl
  | some content => exact absurd ⟨content, hcontent⟩ h

theorem sameFiles_iff {M : Machine F} {backup backup' : BackupTree}
    {verification verification' : Verification F} (h : verifyBackup M backup = .ok verification)
    (h' : verifyBackup M backup' = .ok verification')
    (hmanifest : backup.root.content? [manifestName] = backup'.root.content? [manifestName]) :
    SameFiles M backup backup' ↔ SameStrays M backup backup' := by
  constructor
  · exact fun hsame path hne _ => hsame path hne
  obtain ⟨manifest, haccepted⟩ := accepted_of_verify h
  obtain ⟨manifest', haccepted'⟩ := accepted_of_verify h'
  obtain rfl : manifest = manifest' := by
    have hread := haccepted.read
    rw [readManifest_congr hmanifest] at hread
    exact Except.ok.inj (hread.symm.trans haccepted'.read)
  intro hstrays path hne
  by_cases hlast : path.getLast? = some manifestName
  · exact hstrays path hne hlast
  by_cases hlisted : ∃ record ∈ recordsOf manifest, (pathOf M record).parts = path
  · obtain ⟨record, hrecord, rfl⟩ := hlisted
    exact digestAt_recorded (haccepted.recorded record hrecord) (haccepted'.recorded record hrecord)
  · have hnone := fun hcontent => hlisted ((haccepted.listed path).mp ⟨hlast, hcontent⟩)
    have hnone' := fun hcontent => hlisted ((haccepted'.listed path).mp ⟨hlast, hcontent⟩)
    rw [digestAt_eq_none hnone, digestAt_eq_none hnone']

/-- An accepted backup is exact where nothing below the top level has the name of the manifest, and
two accepted trees with one manifest can differ in such files only. -/
theorem verified_exact_iff (M : Machine F) (backup backup' : BackupTree)
    (verification verification' : Verification F)
    (h : verifyBackup M backup = .ok verification)
    (h' : verifyBackup M backup' = .ok verification')
    (hmanifest : backup.root.content? [manifestName] = backup'.root.content? [manifestName]) :
    (IsExact M backup ↔ NoStray backup) ∧
      (SameFiles M backup backup' ↔ SameStrays M backup backup') :=
  ⟨isExact_iff h, sameFiles_iff h h' hmanifest⟩

/-! ## A small backup -/

theorem isHash_hexText (n : ℕ) : isHash (hexText 64 n) = true := by
  have hdigit : ∀ d < 16, ((48 ≤ hexDigit d && hexDigit d ≤ 57) ||
      (97 ≤ hexDigit d && hexDigit d ≤ 102)) = true := by decide
  have hall : ∀ width n, (hexText width n).length = width ∧
      (hexText width n).all (fun c => (48 ≤ c && c ≤ 57) || (97 ≤ c && c ≤ 102)) = true := by
    intro width
    induction width with
    | zero => exact fun _ => ⟨rfl, rfl⟩
    | succ width ih =>
      intro n
      obtain ⟨hlength, hhex⟩ := ih (n / 16)
      rw [hexText, List.length_append, hlength, List.all_append, hhex]
      exact ⟨rfl, by simp [hdigit (n % 16) (Nat.mod_lt n (by decide))]⟩
  obtain ⟨hlength, hhex⟩ := hall 64 n
  rw [isHash, hlength, hhex]
  rfl

/-- The content of the two databases of the sample. -/
def sampleDatabase : Option PyBytes → Option (Database NonFinite)
  | some [1] =>
    some ⟨some (py "ok"), [py "jobs", py "checkpoints", py "usage_ledger"], none⟩
  | some [2] => some ⟨some (py "ok"), [py "artifacts"], some []⟩
  | _ => none

def sampleMachine : Machine NonFinite where
  sha256 := fun bytes => hexText 64 (bytes.foldl (fun n c => 257 * n + c + 1) 0)
  sha256_isHash := fun _ => isHash_hexText _
  fromisoformat := fun _ => none
  isPrintable := fun c => decide (32 ≤ c ∧ c < 127)
  object := py "<object>"
  lower := id
  int := fun
    | .integer n => some n
    | _ => none
  bytesText := fun _ => py "b''"
  sqlite := fun root path => sampleDatabase (root.content? path)
  outside := fun _ _ => none

def sampleRecord (path : PyStr) (content : PyBytes) : Json NonFinite :=
  .obj [(py "path", .str path), (py "kind", .str (py "sqlite")),
    (py "size_bytes", .int content.length), (py "sha256", .str (sampleMachine.sha256 content))]

def sampleCore : Record NonFinite :=
  [(py "schema_version", .int 1), (py "created_at", .str (py "2026-01-01T00:00:00+00:00")),
    (py "format", .str (py "goai-single-node-backup-v1")), (py "summary", .obj []),
    (py "files", .arr [sampleRecord (py "artifacts/artifacts.db") [2],
      sampleRecord (py "control/jobs.db") [1]]),
    (py "security", .obj [])]

/-- The manifest with the hash of the rest in it, or nothing. -/
def sampleManifest : PyBytes :=
  match canonicalBytes (.dict (ofMembers sampleCore)) with
  | .ok core =>
    let manifest := sampleCore ++ [(py "backup_id", .str (sampleMachine.sha256 core))]
    (encode (render (.obj manifest))).getD []
  | .error _ => []

/-- The two databases, the manifest, and these entries beside the control database. -/
def sampleRoot (beside : List (PyStr × Directory)) : Directory :=
  .directory
    [(py "control", .directory ((py "jobs.db", .file [1]) :: beside)),
      (py "artifacts", .directory [(py "artifacts.db", .file [2])]),
      (manifestName, .file sampleManifest)]

def sampleBackup : BackupTree where
  root := sampleRoot []
  wellFormed := by
    simp only [sampleRoot, Entry.WellFormed, EntriesWellFormed]
    decide

/-- The same with another file, under the name of the manifest. -/
def strayBackup : BackupTree where
  root := sampleRoot [(manifestName, .file [0])]
  wellFormed := by
    simp only [sampleRoot, Entry.WellFormed, EntriesWellFormed]
    decide

theorem exists_of_isOk {α : Type} {x : Checked NonFinite α} (h : x.isOk = true) :
    ∃ a, x = .ok a := by
  cases x with
  | error e => cases h
  | ok a => exact ⟨a, rfl⟩

theorem verified_exact_iff_sample :
    (IsExact sampleMachine sampleBackup ↔ NoStray sampleBackup) ∧
      (SameFiles sampleMachine sampleBackup sampleBackup ↔
        SameStrays sampleMachine sampleBackup sampleBackup) := by
  obtain ⟨verification, h⟩ : ∃ verification, verifyBackup sampleMachine sampleBackup =
      .ok verification := exists_of_isOk (by decide +kernel)
  exact verified_exact_iff sampleMachine sampleBackup sampleBackup verification verification h h rfl

/-- A file that no record lists is accepted if it is called `manifest.json`. -/
theorem stray_accepted :
    ∃ verification, verifyBackup sampleMachine strayBackup = .ok verification ∧
      ¬IsExact sampleMachine strayBackup := by
  obtain ⟨verification, h⟩ : ∃ verification, verifyBackup sampleMachine strayBackup =
      .ok verification := exists_of_isOk (by decide +kernel)
  refine ⟨verification, h, fun hexact => ?_⟩
  have habsent := (isExact_iff h).mp hexact [py "control", manifestName] (by decide) rfl
  cases habsent

end Backup
