import VeriMat.Blinding
import VeriMat.LedgerAppend

/-! # Blind bundles that verify

A bundle is written with raw Unicode and one line feed after every task, and read back with
`str.splitlines`, which ends a line at three more characters than JSON escapes. Apart from these the
bundle verifies, and its tasks are read back as they were. -/
namespace Blinding

open PyText JsonText PyValue PyDisplay Events Challenge
open RetrievalCache (splitlines Unbroken)
open LedgerTamper (SameJson)

variable {F D : Type} [PyFloat F]

/-! ## What is read is distinct -/

theorem dedup_of_readLines {path : PyStr} {number : ℕ} {lines : List PyStr} {rows : List (Row F)}
    (h : readLines path number lines = .ok rows) :
    ∀ row ∈ rows, (Json.obj row).dedup = .obj row := by
  induction lines generalizing number rows with
  | nil =>
    cases h
    simp
  | cons line lines ih =>
    rw [readLines] at h
    split at h
    · exact ih h
    cases hline : loads (F := F) line with
    | none => rw [hline] at h; cases h
    | some j =>
      rw [hline] at h
      cases j with
      | obj row =>
        cases hrest : readLines (F := F) path (number + 1) lines with
        | error e => simp only [hrest, Except.map] at h; cases h
        | ok rest =>
          simp only [hrest, Except.map, Except.ok.injEq] at h
          subst h
          refine List.forall_mem_cons.mpr ⟨?_, ih hrest⟩
          obtain ⟨raw, _, hraw⟩ := Option.map_eq_some_iff.mp hline
          rw [← hraw, dedup_dedup]
      | _ => cases h

theorem dedup_of_readJsonl {path : PyStr} {file : PyBytes} {rows : List (Row F)}
    (h : readJsonl path file = .ok rows) : ∀ row ∈ rows, (Json.obj row).dedup = .obj row := by
  rw [readJsonl] at h
  split at h
  · cases h
  · exact dedup_of_readLines h

omit [PyFloat F] in
/-- Names that are distinct, over values that are distinct within. -/
theorem dedup_row {row : Row F} (h : (row.map Prod.fst).Nodup)
    (hvalues : ∀ p ∈ row, p.2.dedup = p.2) : (Json.obj row).dedup = .obj row := by
  have hmembers : dedupMembers row = row := by
    rw [dedupMembers_eq]
    exact (List.map_congr_left fun p hp => by rw [hvalues p hp]).trans (List.map_id' row)
  rw [Json.dedup, hmembers, ofPairs_of_nodup h]

omit [PyFloat F] in
/-- A task has the task fields, with the values of its challenge. -/
theorem blindTask_eq_ok {challenge task : Row F} (h : blindTask challenge = .ok task) :
    task.map Prod.fst = taskFields ∧ ∀ p ∈ task, challenge.lookup p.1 = some p.2 := by
  rw [blindTask] at h
  generalize taskFields = names at h
  induction names generalizing task with
  | nil =>
    cases h
    simp
  | cons name names ih =>
    rw [List.mapM_cons] at h
    obtain ⟨p, hp, h⟩ := bind_eq_ok.mp h
    obtain ⟨rest, hrest, h⟩ := bind_eq_ok.mp h
    cases h
    cases hlookup : challenge.lookup name with
    | none => rw [hlookup] at hp; cases hp
    | some j =>
      rw [hlookup, Except.ok.injEq] at hp
      subst hp
      obtain ⟨hnames, hvalues⟩ := ih hrest
      exact ⟨by rw [List.map_cons, hnames], List.forall_mem_cons.mpr ⟨hlookup, hvalues⟩⟩

omit [PyFloat F] in
theorem dedup_blindTask {challenge task : Row F} (h : blindTask challenge = .ok task)
    (hdistinct : (Json.obj challenge).dedup = .obj challenge) :
    (Json.obj task).dedup = .obj task := by
  obtain ⟨hnames, hvalues⟩ := blindTask_eq_ok h
  refine dedup_row (by rw [hnames]; decide) fun p hp => ?_
  exact (obj_dedup_eq_self hdistinct).2 (p.1, p.2) (PyDict.mem_of_lookup (hvalues p hp))

/-! ## What is written -/

omit [PyFloat F] in
theorem forall₂_of_mapM {α β : Type} {f : α → Checked β} {l : List α} {l' : List β}
    (h : l.mapM f = .ok l') : List.Forall₂ (fun a b => f a = .ok b) l l' := by
  induction l generalizing l' with
  | nil =>
    cases h
    exact .nil
  | cons a l ih =>
    rw [List.mapM_cons] at h
    obtain ⟨b, hb, h⟩ := bind_eq_ok.mp h
    obtain ⟨rest, hrest, h⟩ := bind_eq_ok.mp h
    cases h
    exact .cons hb (ih hrest)

omit [PyFloat F] in
theorem dedup_tasks {challenges tasks : List (Row F)}
    (h : List.Forall₂ (fun challenge task => blindTask challenge = .ok task) challenges tasks)
    (hdistinct : ∀ challenge ∈ challenges, (Json.obj challenge).dedup = .obj challenge) :
    ∀ task ∈ tasks, (Json.obj task).dedup = .obj task := by
  induction h with
  | nil => simp
  | cons htask _ ih =>
    obtain ⟨hchallenge, hrest⟩ := List.forall_mem_cons.mp hdistinct
    exact List.forall_mem_cons.mpr ⟨dedup_blindTask htask hchallenge, ih hrest⟩

theorem canonicalText_eq_ok {j : Json F} {text : PyStr} (h : canonicalText (ofJson j) = .ok text) :
    j.Finite ∧ text = render (sortNames j) := by
  rw [canonicalText, canonicalJson, dumps] at h
  cases hlower : lower (ofJson j) with
  | error e => simp only [hlower, Except.map] at h; cases h
  | ok x =>
    have hfinite := LedgerTamper.finite_of_lower j x hlower
    rw [lower_ofJson j hfinite, Except.ok.injEq] at hlower
    simp only [lower_ofJson j hfinite, Except.map, Except.ok.injEq] at h
    exact ⟨hfinite, h.symm⟩

theorem encodeText_eq_ok {text : PyStr} {bytes : PyBytes} :
    encodeText text = .ok bytes ↔ encode text = some bytes := by
  rw [encodeText]
  cases encode text with
  | none => simp
  | some b => simp

theorem lines_eq {tasks : List (Row F)} {lines : List PyStr}
    (h : List.Forall₂ (fun task line => (Json.obj task).Finite ∧
      line = render (sortNames (.obj task))) tasks lines) :
    (∀ task ∈ tasks, (Json.obj task).Finite) ∧
      (lines.flatMap fun line => line ++ [10]) = linesOf tasks := by
  induction h with
  | nil => simp [linesOf]
  | cons hline _ ih =>
    refine ⟨List.forall_mem_cons.mpr ⟨hline.1, ih.1⟩, ?_⟩
    rw [List.flatMap_cons, ih.2, hline.2]
    rfl

theorem taskFile_eq_ok {tasks : List (Row F)} {file : PyBytes} (h : taskFile tasks = .ok file) :
    (∀ task ∈ tasks, (Json.obj task).Finite) ∧ encode (linesOf tasks) = some file := by
  rw [taskFile] at h
  obtain ⟨lines, hlines, htext⟩ := bind_eq_ok.mp h
  obtain ⟨hfinite, hall⟩ :=
    lines_eq ((forall₂_of_mapM hlines).imp fun task line hline => canonicalText_eq_ok hline)
  rw [hall] at htext
  exact ⟨hfinite, encodeText_eq_ok.mp htext⟩

/-! ## Reading the two files back -/

theorem noReturn_linesOf {tasks : List (Row F)} (h : ∀ task ∈ tasks, Writable task) :
    13 ∉ linesOf tasks := by
  intro hmem
  obtain ⟨task, htask, hmem⟩ := List.mem_flatMap.mp hmem
  rcases List.mem_append.mp hmem with hmem | hmem
  · exact absurd (written_render _ (finite_sorted (h task htask)) 13 hmem).1 (by decide)
  · simp at hmem

/-- The file is read line by line from the text that was written. -/
theorem readJsonl_written {path : PyStr} {tasks : List (Row F)} {file : PyBytes}
    (h : ∀ task ∈ tasks, Writable task) (hfile : encode (linesOf tasks) = some file) :
    readJsonl (F := F) path file = readLines path 1 (splitlines (linesOf tasks)) := by
  rw [readJsonl, decode_encode hfile]
  show readLines path 1 (splitlines (translateNewlines (linesOf tasks))) = _
  rw [translateNewlines_of_noReturn (noReturn_linesOf h)]

theorem finite_manifest (createdAt taskSha256 sourceSha256 idsSha256 : PyStr) (count : ℕ) :
    (Json.obj (manifestOf (F := F) createdAt taskSha256 sourceSha256 idsSha256 count)).Finite := by
  simp [manifestOf, Json.Finite, FiniteMembers, finiteElems_iff]

omit [PyFloat F] in
theorem names_manifest (createdAt taskSha256 sourceSha256 idsSha256 : PyStr) (count : ℕ) :
    ((manifestOf (F := F) createdAt taskSha256 sourceSha256 idsSha256 count).map
      Prod.fst).Nodup := by
  have hnames : (manifestOf (F := F) createdAt taskSha256 sourceSha256 idsSha256 count).map
      Prod.fst = [py "schema_version", py "created_at", py "task_file", py "task_sha256",
        py "source_challenge_sha256", py "tasks", py "challenge_ids_sha256",
        py "forbidden_gold_keys"] := rfl
  rw [hnames]
  decide

omit [PyFloat F] in
theorem dedup_manifest (createdAt taskSha256 sourceSha256 idsSha256 : PyStr) (count : ℕ) :
    (Json.obj (manifestOf (F := F) createdAt taskSha256 sourceSha256 idsSha256 count)).dedup =
      .obj (manifestOf createdAt taskSha256 sourceSha256 idsSha256 count) := by
  refine dedup_row (names_manifest ..) fun p hp => ?_
  simp only [manifestOf, List.mem_cons, List.not_mem_nil, or_false] at hp
  rcases hp with rfl | rfl | rfl | rfl | rfl | rfl | rfl | rfl <;> rfl

/-- A manifest is read back with its keys sorted. -/
theorem readManifest_written {manifest : Row F} {file : PyBytes}
    (hfinite : (Json.obj manifest).Finite) (hdistinct : (Json.obj manifest).dedup = .obj manifest)
    (hfile : encode (manifestText manifest) = some file) :
    readManifest file = .ok (sortedRow manifest) := by
  have hsorted := finite_sortNames _ hfinite
  have hreturn : 13 ∉ manifestText manifest := by
    simp [manifestText, noReturn_renderIndented 0 _ hsorted]
  have hloads : loads (manifestText manifest) = some (Json.obj (sortedRow manifest)) := by
    have hnames : NamesSorted (sortNames (.obj manifest)) := by
      rw [← hdistinct]
      exact namesSorted_sortNames_dedup _
    have hparse := parse_renderIndented 0 hsorted (t := [10]) (by simp [isWs])
    rw [loads, manifestText, hparse, Option.map_some, dedup_of_sorted _ hnames, sortNames_obj]
  rw [readManifest, decode_encode hfile]
  simp only [translateNewlines_of_noReturn hreturn, hloads]

/-! ## Bundles -/

/-- Two rows that are equal in Python and the same JSON. -/
def SameRow (row row' : Row F) : Prop :=
  pyEq (.dict (ofMembers row)) (.dict (ofMembers row')) = true ∧
    SameJson (.dict (ofMembers row)) (.dict (ofMembers row'))

/-- The bundle is accepted, and its task file holds these tasks. -/
def Verifies (H : Hasher) (display : Display) (path : PyStr) (bundle : Bundle)
    (tasks : List (Row F)) : Prop :=
  verifyBlindBundle F H display path bundle = .ok () ∧
    ∃ rows : List (Row F), readJsonl path bundle.tasks = .ok rows ∧
      List.Forall₂ SameRow rows tasks

/-- No text or key of the tasks ends a line, and the identifiers stay distinct when the keys inside
them are sorted. -/
def Sealable (display : Display) (tasks : List (Row F)) : Prop :=
  (∀ task ∈ tasks, Unbroken (.obj task)) ∧
    (tasks.map fun task => identifier display (sortedRow task)).Nodup

theorem Writable.sorted {task : Row F} (h : Writable task) : Writable (sortedRow task) :=
  ⟨finite_sorted h, dedup_of_sorted _ h.namesSorted⟩

theorem sameRow_sorted {task : Row F} (h : Writable task) : SameRow (sortedRow task) task := by
  have hself : sortNames (.obj (sortedRow task)) = sortNames (.obj task) := by
    rw [← sortNames_obj, sortNames_of_sorted _ h.namesSorted]
  have hsame : SameJson (ofJson (.obj (sortedRow task))) (ofJson (.obj task)) := by
    refine ⟨sortNames (.obj task), ?_, lower_ofJson _ h.finite⟩
    rw [lower_ofJson _ h.sorted.finite, hself]
  exact ⟨hsame.pyEq ⟨_, rfl, h.sorted.distinct⟩ ⟨_, rfl, h.distinct⟩, hsame⟩

/-- What a bundle that was written is made of. -/
theorem materialize_eq_ok [LinearOrder D] {H : Hasher} {P : Platform F D} {path : PyStr}
    {source : PyBytes} {createdAt : PyStr} {challenges tasks : List (Row F)} {bundle : Bundle}
    (hread : readJsonl path source = .ok challenges)
    (htasks : challenges.mapM blindTask = .ok tasks)
    (h : materializeBlindBundle H P path source createdAt = .ok bundle) :
    (∀ task ∈ tasks, Acceptable P.toDisplay task ∧ Writable task) ∧
      encode (linesOf tasks) = some bundle.tasks ∧
        ∃ manifest : Row F, readManifest bundle.manifest = .ok (sortedRow manifest) ∧
          (manifest.map Prod.fst).Nodup ∧
            manifest.lookup (py "task_sha256") = some (.str (H.sha256 bundle.tasks)) ∧
              manifest.lookup (py "tasks") = some (.int tasks.length) := by
  rw [materializeBlindBundle, hread] at h
  obtain ⟨rows, hrows, h⟩ := bind_eq_ok.mp h
  obtain rfl := Except.ok.inj hrows
  obtain ⟨_, -, h⟩ := bind_eq_ok.mp h
  obtain ⟨blinded, hblinded, h⟩ := bind_eq_ok.mp h
  obtain rfl := Except.ok.inj (htasks.symm.trans hblinded)
  obtain ⟨_, hvalid, h⟩ := bind_eq_ok.mp h
  obtain ⟨file, hfile, h⟩ := bind_eq_ok.mp h
  obtain ⟨ids, -, h⟩ := bind_eq_ok.mp h
  obtain ⟨sortedIds, -, h⟩ := bind_eq_ok.mp h
  obtain ⟨idsText, -, h⟩ := bind_eq_ok.mp h
  obtain ⟨idsBytes, -, h⟩ := bind_eq_ok.mp h
  obtain ⟨manifestBytes, hmanifest, h⟩ := bind_eq_ok.mp h
  cases h
  obtain ⟨hfinite, hlines⟩ := taskFile_eq_ok hfile
  have hdistinct := dedup_tasks (forall₂_of_mapM htasks) (dedup_of_readJsonl hread)
  refine ⟨fun task htask => ⟨?_, hfinite task htask, hdistinct task htask⟩, hlines, _,
    readManifest_written (finite_manifest ..) (dedup_manifest ..) (encodeText_eq_ok.mp hmanifest),
    names_manifest .., rfl, rfl⟩
  exact (validateBlindTasks_eq_ok.mp hvalid).1 task htask

/-- A bundle that was written verifies, with the tasks of the challenges in order, exactly when
nothing in them ends a line and sorting keeps their identifiers apart. -/
theorem bundle_verifies_iff [LinearOrder D] (H : Hasher) (P : Platform F D) (path path' : PyStr)
    (source : PyBytes) (createdAt : PyStr) (challenges tasks : List (Row F)) (bundle : Bundle)
    (hread : readJsonl path source = .ok challenges)
    (htasks : challenges.mapM blindTask = .ok tasks)
    (h : materializeBlindBundle H P path source createdAt = .ok bundle) :
    Verifies H P.toDisplay path' bundle tasks ↔ Sealable P.toDisplay tasks := by
  obtain ⟨hgood, hlines, manifest, hmanifest, hnames, hhash, hcount⟩ :=
    materialize_eq_ok hread htasks h
  have hwritable : ∀ task ∈ tasks, Writable task := fun task htask => (hgood task htask).2
  have hfile : readJsonl (F := F) path' bundle.tasks =
      readLines path' 1 (splitlines (linesOf tasks)) := readJsonl_written hwritable hlines
  constructor
  · rintro ⟨haccepted, rows, hrows, -⟩
    have hunbroken : ∀ task ∈ tasks, Unbroken (.obj task) := by
      by_contra hbroken
      obtain ⟨context, hspoilt⟩ : ∃ context, readLines (F := F) path' 1
          (splitlines (linesOf tasks)) = .error (.benchmark context .invalidJson) :=
        readLines_broken hwritable hbroken
      rw [hfile, hspoilt] at hrows
      cases hrows
    rw [readLines_whole hwritable hunbroken] at hfile
    rw [verifyBlindBundle, hfile] at haccepted
    obtain ⟨read, hread, haccepted⟩ := bind_eq_ok.mp haccepted
    obtain rfl := Except.ok.inj hread
    obtain ⟨_, hvalid, -⟩ := bind_eq_ok.mp haccepted
    have hdistinct := (validateBlindTasks_eq_ok.mp hvalid).2
    rw [List.map_map] at hdistinct
    exact ⟨hunbroken, hdistinct⟩
  · rintro ⟨hunbroken, hdistinct⟩
    rw [readLines_whole hwritable hunbroken] at hfile
    refine ⟨?_, _, hfile, ?_⟩
    · have hvalid : validateBlindTasks P.toDisplay (tasks.map sortedRow) = .ok () := by
        refine validateBlindTasks_eq_ok.mpr ⟨?_, by rw [List.map_map]; exact hdistinct⟩
        rw [List.forall_mem_map]
        exact fun task htask => (hgood task htask).1.sorted (hwritable task htask).names
      have hkept : get (sortedRow manifest) (py "task_sha256") = .str (H.sha256 bundle.tasks) := by
        rw [get, lookup_sortedRow hnames, hhash]
        rfl
      have hcounted : get (sortedRow manifest) (py "tasks") = .int tasks.length := by
        rw [get, lookup_sortedRow hnames, hcount]
        rfl
      simp only [verifyBlindBundle, bind_eq_ok, refuseIf_eq_ok, Bool.not_eq_false]
      refine ⟨_, hfile, (), hvalid, _, hmanifest, (), ?_, ?_⟩
      · rw [hkept]
        exact LedgerAppend.pyEq_str_self _
      · rw [hcounted, List.length_map]
        exact LedgerAppend.pyEq_int_self _
    · rw [List.forall₂_map_left_iff, List.forall₂_same]
      exact fun task htask => sameRow_sorted (hwritable task htask)

/-! ## Two challenge files -/

theorem exists_of_isOk {α : Type} {x : Checked α} (h : x.isOk = true) : ∃ a, x = .ok a := by
  cases x with
  | error e => cases h
  | ok a => exact ⟨a, rfl⟩

/-- A bundle is made of the challenges of its file. -/
theorem parts_of_materialize [LinearOrder D] {H : Hasher} {P : Platform F D} {path : PyStr}
    {source : PyBytes} {createdAt : PyStr} {bundle : Bundle}
    (h : materializeBlindBundle H P path source createdAt = .ok bundle) :
    ∃ challenges tasks : List (Row F), readJsonl path source = .ok challenges ∧
      challenges.mapM blindTask = .ok tasks := by
  rw [materializeBlindBundle] at h
  obtain ⟨challenges, hread, h⟩ := bind_eq_ok.mp h
  obtain ⟨_, -, h⟩ := bind_eq_ok.mp h
  obtain ⟨tasks, htasks, -⟩ := bind_eq_ok.mp h
  exact ⟨challenges, tasks, hread, htasks⟩

/-- The text of an object whose members have these texts. -/
def objectText (members : List (PyStr × PyStr)) : PyStr :=
  py "\x7b" ++ (py ", ").intercalate (members.map fun m => quote m.1 ++ py ": " ++ m.2) ++ py "\x7d"

/-- A file with one challenge without evidence, and this between the quotes of its prompt. -/
def challengeFile (prompt : PyStr) : PyBytes :=
  objectText
    [(py "schema_version", py "1"), (py "challenge_id", quote (py "c1")),
      (py "benchmark_track", quote (py "known_answer")), (py "split", quote (py "test")),
      (py "task_family", quote (py "alloys")), (py "leakage_group", quote (py "g1")),
      (py "prompt", py "\"" ++ prompt ++ py "\""), (py "cutoff_date", quote (py "2024-01-01")),
      (py "counterevidence_exists", py "false"),
      (py "expected_decision", quote (py "UNRESOLVED")), (py "accepted_evidence", py "[]"),
      (py "construction_provenance",
        objectText
          [(py "source", quote (py "s")), (py "curator", quote (py "c")),
            (py "status", quote (py "draft"))])] ++ [10]

/-- Days are counted from the first of the first year. -/
def samplePlatform : Platform NonFinite ℕ where
  isPrintable := fun c => decide (32 ≤ c ∧ c < 127)
  object := py "<object>"
  int := fun
    | .int n => .ok n
    | _ => .error .invalid
  lower := id
  date := fun text => if text = py "2024-01-01" then some 738886 else none

def sampleHasher : Hasher := ⟨fun bytes => intText bytes.length⟩

def sampleBundle (prompt : PyStr) : Checked Bundle :=
  materializeBlindBundle sampleHasher samplePlatform (py "challenges.jsonl") (challengeFile prompt)
    (py "2026-01-01T00:00:00+00:00")

theorem bundle_verifies_iff_plain :
    ∃ challenges tasks : List (Row NonFinite), ∃ bundle,
      readJsonl (py "challenges.jsonl") (challengeFile (py "Ti")) = .ok challenges ∧
        challenges.mapM blindTask = .ok tasks ∧ sampleBundle (py "Ti") = .ok bundle ∧
          (Verifies sampleHasher samplePlatform.toDisplay (py "tasks.jsonl") bundle tasks ↔
            Sealable samplePlatform.toDisplay tasks) := by
  obtain ⟨bundle, hbundle⟩ :=
    exists_of_isOk (x := sampleBundle (py "Ti")) (by decide +kernel)
  obtain ⟨challenges, tasks, hread, htasks⟩ := parts_of_materialize hbundle
  exact ⟨challenges, tasks, bundle, hread, htasks, hbundle,
    bundle_verifies_iff sampleHasher samplePlatform _ _ _ _ challenges tasks bundle hread htasks
      hbundle⟩

/-- The first call returns, and the second refuses what it returned. -/
def refusedLater {α : Type} (x : Checked α) (f : α → Checked Unit) : Bool :=
  match x with
  | .ok a => !(f a).isOk
  | .error _ => false

theorem refusedLater_eq_true {α : Type} {x : Checked α} {f : α → Checked Unit}
    (h : refusedLater x f = true) : ∃ a, x = .ok a ∧ f a ≠ .ok () := by
  cases x with
  | error e => cases h
  | ok a =>
    refine ⟨a, rfl, fun haccepted => ?_⟩
    rw [refusedLater, haccepted] at h
    cases h

/-- A prompt with an escaped LINE SEPARATOR is accepted, and its bundle is refused. -/
theorem not_verifies_separator :
    ∃ challenges tasks : List (Row NonFinite), ∃ bundle,
      readJsonl (py "challenges.jsonl") (challengeFile (py "Ti\\u2028Al")) = .ok challenges ∧
        challenges.mapM blindTask = .ok tasks ∧ sampleBundle (py "Ti\\u2028Al") = .ok bundle ∧
          ¬Verifies sampleHasher samplePlatform.toDisplay (py "tasks.jsonl") bundle tasks := by
  have hlater : refusedLater (sampleBundle (py "Ti\\u2028Al")) (verifyBlindBundle NonFinite
      sampleHasher samplePlatform.toDisplay (py "tasks.jsonl")) = true := by
    decide +kernel
  obtain ⟨bundle, hbundle, hrefused⟩ := refusedLater_eq_true hlater
  obtain ⟨challenges, tasks, hread, htasks⟩ := parts_of_materialize hbundle
  exact ⟨challenges, tasks, bundle, hread, htasks, hbundle, fun h => hrefused h.1⟩

end Blinding
