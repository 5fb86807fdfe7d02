import VeriMat.Challenge
import VeriMat.JsonIndent
import VeriMat.LedgerTamper

/-! # Blind task bundles

`evaluation/blinding.py`: the challenges without their gold fields, one canonical line each, and a
manifest with the hash of that file. The files of a bundle are its bytes; the paths of the three
files are different ones. -/
namespace Blinding

open PyText JsonText PyValue PyDisplay Events Challenge
open RetrievalCache (splitlines isLineEnd IsSeparator Unbroken)
open LedgerTamper (SameJson)

variable {F D : Type} [PyFloat F]

/-- `TASK_FIELDS`. -/
def taskFields : List PyStr :=
  [py "schema_version", py "challenge_id", py "benchmark_track", py "split", py "task_family",
    py "prompt", py "cutoff_date"]

/-- `FORBIDDEN_GOLD_KEYS`. -/
def forbiddenGoldKeys : List PyStr :=
  [py "accepted_evidence", py "counterevidence_exists", py "expected_decision",
    py "construction_provenance", py "leakage_group", py "oracle_scope", py "evidence_id"]

/-! ## Checking tasks -/

mutual

/-- `_forbidden_paths`. -/
def forbiddenPaths (path : PyStr) : Json F → List PyStr
  | .obj kvs => forbiddenMembers path kvs
  | .arr xs => forbiddenElems path 0 xs
  | _ => []

def forbiddenMembers (path : PyStr) : List (PyStr × Json F) → List PyStr
  | [] => []
  | (key, item) :: kvs =>
    (if key ∈ forbiddenGoldKeys then [path ++ py "." ++ key] else []) ++
      forbiddenPaths (path ++ py "." ++ key) item ++ forbiddenMembers path kvs

def forbiddenElems (path : PyStr) : ℕ → List (Json F) → List PyStr
  | _, [] => []
  | index, item :: xs =>
    forbiddenPaths (path ++ py "[" ++ intText index ++ py "]") item ++
      forbiddenElems path (index + 1) xs

end

omit [PyFloat F] in
/-- `row[name]`. -/
def item (row : Row F) (name : PyStr) : Checked (PyVal F) :=
  match row.lookup name with
  | some j => .ok (ofJson j)
  | none => .error .keyError

omit [PyFloat F] in
/-- `set(row) == set(TASK_FIELDS)`. -/
def HasTaskFields (row : Row F) : Prop :=
  (∀ p ∈ row, p.1 ∈ taskFields) ∧ ∀ name ∈ taskFields, name ∈ row.map Prod.fst

instance (row : Row F) : Decidable (HasTaskFields row) :=
  inferInstanceAs (Decidable (_ ∧ _))

/-- The checks of one task, with the identifiers of those before it. -/
def validateBlindTask (display : Display) (identifiers : List PyStr) (context : PyStr)
    (row : Row F) : Checked PyStr := do
  refuseIf (¬HasTaskFields row) context .taskFields
  let forbidden := forbiddenMembers context row
  refuseIf (forbidden ≠ []) context (.goldLeaked forbidden)
  refuseIf (pyEq (← item row (py "schema_version")) (.int 1) = false) context .taskVersion
  let identifier := strOf display (← item row (py "challenge_id"))
  refuseIf (identifier = [] ∨ identifier ∈ identifiers) context .taskIdentifier
  (taskFields.drop 2).forM fun name => do
    refuseIf (isBlank (strOf display (← item row name)) = true) context (.emptyField name)
  return identifier

def validateFrom (display : Display) : ℕ → List PyStr → List (Row F) → Checked Unit
  | _, _, [] => .ok ()
  | index, identifiers, row :: rows => do
    let identifier ← validateBlindTask display identifiers
      (py "task[" ++ intText index ++ py "]") row
    validateFrom display (index + 1) (identifiers ++ [identifier]) rows

/-- `validate_blind_tasks`. -/
def validateBlindTasks (display : Display) (rows : List (Row F)) : Checked Unit :=
  validateFrom display 0 [] rows

/-! ## Writing a bundle -/

/-- What the bundle takes from the platform: `hashlib.sha256(..).hexdigest()`. -/
structure Hasher where
  sha256 : PyBytes → PyStr

/-- `{field: challenge[field] for field in TASK_FIELDS}`. -/
def blindTask (challenge : Row F) : Checked (Row F) :=
  taskFields.mapM fun name =>
    match challenge.lookup name with
    | some j => .ok (name, j)
    | none => .error .keyError

/-- `canonical_json(value)`. -/
def canonicalText (value : PyVal F) : Checked PyStr :=
  match canonicalJson value with
  | .ok text => .ok text
  | .error cause => .error (.json cause)

def encodeText (text : PyStr) : Checked PyBytes :=
  match encode text with
  | some bytes => .ok bytes
  | none => .error .unicodeEncodeError

def lessNumber : FloatValue → FloatValue → Bool
  | .finite p, .finite q => decide (p < q)
  | .finite _, .inf | .negInf, .finite _ | .negInf, .inf => true
  | _, _ => false

mutual

/-- `a < b`: texts, numbers, and lists by their first difference. -/
def lessThan : PyVal F → PyVal F → Checked Bool
  | .str s, .str t => .ok (decide (s < t))
  | .list xs, .list ys => lessElems xs ys
  | x, y =>
    match numberOf x, numberOf y with
    | some v, some w => .ok (lessNumber v w)
    | _, _ => .error .typeError

def lessElems : List (PyVal F) → List (PyVal F) → Checked Bool
  | [], ys => .ok (!ys.isEmpty)
  | _ :: _, [] => .ok false
  | x :: xs, y :: ys => if pyEq x y then lessElems xs ys else lessThan x y

end

def insertValue (x : PyVal F) : List (PyVal F) → Checked (List (PyVal F))
  | [] => .ok [x]
  | y :: ys => do
    if ← lessThan x y then return x :: y :: ys
    else return y :: (← insertValue x ys)

/-- `sorted(values)`. -/
def sortValues (xs : List (PyVal F)) : Checked (List (PyVal F)) :=
  xs.foldlM (fun sorted x => insertValue x sorted) []

/-- The task file: `canonical_json(row) + "\n"` for every task. -/
def taskFile (tasks : List (Row F)) : Checked PyBytes := do
  let lines ← tasks.mapM fun task => canonicalText (.dict (ofMembers task))
  encodeText (lines.flatMap fun line => line ++ [10])

structure Bundle where
  tasks : PyBytes
  manifest : PyBytes
  deriving DecidableEq

/-- The manifest, in the order of the source. -/
def manifestOf (createdAt taskSha256 sourceSha256 idsSha256 : PyStr) (count : ℕ) : Row F :=
  [(py "schema_version", .int 1), (py "created_at", .str createdAt),
    (py "task_file", .str (py "tasks.jsonl")), (py "task_sha256", .str taskSha256),
    (py "source_challenge_sha256", .str sourceSha256), (py "tasks", .int count),
    (py "challenge_ids_sha256", .str idsSha256),
    (py "forbidden_gold_keys", .arr ((forbiddenGoldKeys.insertionSort (· ≤ ·)).map .str))]

/-- `json.dumps(manifest, ensure_ascii=False, sort_keys=True, indent=2) + "\n"`. -/
def manifestText (manifest : Row F) : PyStr :=
  renderIndented 0 (sortNames (.obj manifest)) ++ [10]

/-- `materialize_blind_bundle` of a file with these bytes. -/
def materializeBlindBundle [LinearOrder D] (H : Hasher) (P : Platform F D) (path : PyStr)
    (source : PyBytes) (createdAt : PyStr) : Checked Bundle := do
  let challenges : List (Row F) ← readJsonl path source
  validateChallenges P (challenges.map ofMembers)
  let tasks ← challenges.mapM blindTask
  validateBlindTasks P.toDisplay tasks
  let file ← taskFile tasks
  let ids ← tasks.mapM fun task => item task (py "challenge_id")
  let sortedIds ← sortValues ids
  let idsText ← canonicalText (.list sortedIds)
  let idsBytes ← encodeText idsText
  let manifest : Row F := manifestOf createdAt (H.sha256 file) (H.sha256 source)
    (H.sha256 idsBytes) tasks.length
  let manifestBytes ← encodeText (manifestText manifest)
  return ⟨file, manifestBytes⟩

/-! ## Verifying a bundle -/

/-- `json.loads(path.read_text(encoding="utf-8"))`, which must be an object. -/
def readManifest (file : PyBytes) : Checked (Row F) :=
  match decode file with
  | none => .error .unicodeDecodeError
  | some text =>
    match loads (translateNewlines text) with
    | none => .error .jsonDecodeError
    | some (.obj manifest) => .ok manifest
    | some _ => .error .attributeError

omit [PyFloat F] in
/-- `manifest.get(name)`. -/
def get (manifest : Row F) (name : PyStr) : PyVal F :=
  match manifest.lookup name with
  | some j => ofJson j
  | none => .none

/-- `verify_blind_bundle`. -/
def verifyBlindBundle (F : Type) [PyFloat F] (H : Hasher) (display : Display) (path : PyStr)
    (bundle : Bundle) : Checked Unit := do
  let tasks : List (Row F) ← readJsonl path bundle.tasks
  validateBlindTasks display tasks
  let manifest : Row F ← readManifest bundle.manifest
  refuseIf (pyEq (get manifest (py "task_sha256")) (.str (H.sha256 bundle.tasks)) = false) []
    .bundleHash
  refuseIf (pyEq (get manifest (py "tasks")) (.int tasks.length) = false) [] .bundleCount

/-! ## Tasks that pass -/

mutual

/-- No object of the value has a gold key. -/
def GoldFree : Json F → Prop
  | .obj kvs => GoldFreeMembers kvs
  | .arr xs => GoldFreeElems xs
  | _ => True

def GoldFreeMembers : List (PyStr × Json F) → Prop
  | [] => True
  | (key, j) :: kvs => (key ∉ forbiddenGoldKeys ∧ GoldFree j) ∧ GoldFreeMembers kvs

def GoldFreeElems : List (Json F) → Prop
  | [] => True
  | j :: xs => GoldFree j ∧ GoldFreeElems xs

end

omit [PyFloat F] in
theorem goldFreeMembers_iff {kvs : List (PyStr × Json F)} :
    GoldFreeMembers kvs ↔ ∀ p ∈ kvs, p.1 ∉ forbiddenGoldKeys ∧ GoldFree p.2 := by
  induction kvs with
  | nil => simp [GoldFreeMembers]
  | cons p kvs ih => rw [GoldFreeMembers, ih, List.forall_mem_cons]

omit [PyFloat F] in
theorem goldFreeElems_iff {xs : List (Json F)} : GoldFreeElems xs ↔ ∀ j ∈ xs, GoldFree j := by
  induction xs with
  | nil => simp [GoldFreeElems]
  | cons j xs ih => rw [GoldFreeElems, ih, List.forall_mem_cons]

omit [PyFloat F] in
theorem forbiddenPaths_eq_nil (j : Json F) (path : PyStr) :
    forbiddenPaths path j = [] ↔ GoldFree j := by
  induction j using Json.nested generalizing path with
  | null => simp [forbiddenPaths, GoldFree]
  | bool b => simp [forbiddenPaths, GoldFree]
  | int n => simp [forbiddenPaths, GoldFree]
  | float x => simp [forbiddenPaths, GoldFree]
  | str s => simp [forbiddenPaths, GoldFree]
  | arr xs ih =>
    rw [forbiddenPaths, GoldFree]
    have helems : ∀ (l : List (Json F)) (index : ℕ), (∀ j ∈ l, j ∈ xs) →
        (forbiddenElems path index l = [] ↔ GoldFreeElems l) := by
      intro l
      induction l with
      | nil => simp [forbiddenElems, GoldFreeElems]
      | cons j l ihl =>
        intro index hl
        obtain ⟨hj, hl⟩ := List.forall_mem_cons.mp hl
        rw [forbiddenElems, List.append_eq_nil_iff, ih j hj, ihl _ hl, GoldFreeElems]
    exact helems xs 0 fun _ hj => hj
  | obj kvs ih =>
    rw [forbiddenPaths, GoldFree]
    have hmembers : ∀ l : List (PyStr × Json F), (∀ p ∈ l, p ∈ kvs) →
        (forbiddenMembers path l = [] ↔ GoldFreeMembers l) := by
      intro l
      induction l with
      | nil => simp [forbiddenMembers, GoldFreeMembers]
      | cons p l ihl =>
        intro hl
        obtain ⟨hp, hl⟩ := List.forall_mem_cons.mp hl
        rw [forbiddenMembers, List.append_eq_nil_iff, List.append_eq_nil_iff, ih p hp, ihl hl,
          GoldFreeMembers]
        simp
    exact hmembers kvs fun _ hp => hp

omit [PyFloat F] in
theorem goldFree_sortNames (j : Json F) : GoldFree (sortNames j) ↔ GoldFree j := by
  induction j using Json.nested with
  | null => rfl
  | bool b => rfl
  | int n => rfl
  | float x => rfl
  | str s => rfl
  | arr xs ih =>
    rw [sortNames, GoldFree, GoldFree, goldFreeElems_iff, goldFreeElems_iff, sortElems_eq,
      List.forall_mem_map]
    exact forall₂_congr ih
  | obj kvs ih =>
    rw [sortNames, GoldFree, GoldFree, goldFreeMembers_iff, goldFreeMembers_iff, sortMembers_eq]
    simp only [List.mem_insertionSort, List.forall_mem_map]
    exact forall₂_congr fun p hp => and_congr_right fun _ => ih p hp

/-- A task that passes every check but that for duplicates. -/
structure Acceptable (display : Display) (task : Row F) : Prop where
  fields : HasTaskFields task
  goldFree : GoldFree (.obj task)
  version : ∃ j, task.lookup (py "schema_version") = some j ∧ pyEq (ofJson j) (.int 1) = true
  identified : ∃ j, task.lookup (py "challenge_id") = some j ∧ strOf display (ofJson j) ≠ []
  filled : ∀ name ∈ taskFields.drop 2, ∃ j, task.lookup name = some j ∧
    isBlank (strOf display (ofJson j)) = false

/-- `str(row["challenge_id"])`. -/
def identifier (display : Display) (task : Row F) : PyStr :=
  strOf display (get task (py "challenge_id"))

omit [PyFloat F] in
@[simp] theorem item_eq_ok {row : Row F} {name : PyStr} {v : PyVal F} :
    item row name = .ok v ↔ ∃ j, row.lookup name = some j ∧ v = ofJson j := by
  rw [item]
  cases row.lookup name with
  | none => simp
  | some j => simp [eq_comm]

theorem forM_eq_ok {α : Type} {l : List α} {f : α → Checked Unit} {u : Unit} :
    l.forM f = .ok u ↔ ∀ x ∈ l, f x = .ok () := by
  induction l with
  | nil => simp [pure, Except.pure]
  | cons x l ih =>
    have hcons : (x :: l).forM f = (f x >>= fun _ => l.forM f) := rfl
    rw [hcons, bind_eq_ok, List.forall_mem_cons]
    constructor
    · rintro ⟨_, hx, hl⟩
      exact ⟨hx, ih.mp hl⟩
    · rintro ⟨hx, hl⟩
      exact ⟨(), hx, ih.mpr hl⟩

theorem validateBlindTask_eq_ok {display : Display} {identifiers : List PyStr} {context i : PyStr}
    {task : Row F} :
    validateBlindTask display identifiers context task = .ok i ↔
      Acceptable display task ∧ i = identifier display task ∧ i ∉ identifiers := by
  have hfilled : ((taskFields.drop 2).forM fun name => do
      refuseIf (isBlank (strOf display (← item task name)) = true) context (.emptyField name) :
        Checked Unit) = .ok () ↔ ∀ name ∈ taskFields.drop 2, ∃ j, task.lookup name = some j ∧
          isBlank (strOf display (ofJson j)) = false := by
    rw [forM_eq_ok]
    refine forall₂_congr fun name _ => ?_
    simp [bind_eq_ok]
  have hgold : forbiddenMembers context task = [] ↔ GoldFree (.obj task) :=
    forbiddenPaths_eq_nil (.obj task) context
  simp only [validateBlindTask, bind_eq_ok, refuseIf_eq_ok, not_not, hgold, item_eq_ok,
    Bool.not_eq_false, not_or]
  constructor
  · rintro ⟨_, hfields, _, hfree, _, ⟨j, hj, rfl⟩, _, hversion, _, ⟨k, hk, rfl⟩, _, ⟨hne, hnew⟩, _,
      hrest, hi⟩
    obtain rfl : strOf display (ofJson k) = i := Except.ok.inj hi
    have hid : strOf display (ofJson k) = identifier display task := by
      rw [identifier, get, hk]
    exact ⟨⟨hfields, hfree, ⟨j, hj, hversion⟩, ⟨k, hk, hne⟩, hfilled.mp hrest⟩, hid, hnew⟩
  · rintro ⟨⟨hfields, hfree, ⟨j, hj, hversion⟩, ⟨k, hk, hne⟩, hrest⟩, rfl, hnew⟩
    have hid : identifier display task = strOf display (ofJson k) := by
      rw [identifier, get, hk]
    rw [hid] at hnew ⊢
    exact ⟨(), hfields, (), hfree, _, ⟨j, hj, rfl⟩, (), hversion, _, ⟨k, hk, rfl⟩, (), ⟨hne, hnew⟩,
      (), hfilled.mpr hrest, rfl⟩

theorem validateFrom_eq_ok {display : Display} {index : ℕ} {identifiers : List PyStr}
    {tasks : List (Row F)} {u : Unit} :
    validateFrom display index identifiers tasks = .ok u ↔
      (∀ task ∈ tasks, Acceptable display task) ∧ (tasks.map (identifier display)).Nodup ∧
        ∀ task ∈ tasks, identifier display task ∉ identifiers := by
  induction tasks generalizing index identifiers with
  | nil => simp [validateFrom]
  | cons task tasks ih =>
    rw [validateFrom, bind_eq_ok]
    simp only [validateBlindTask_eq_ok, ih, List.forall_mem_cons, List.map_cons, List.nodup_cons,
      List.mem_append, List.mem_singleton, not_or]
    constructor
    · rintro ⟨_, ⟨hacceptable, rfl, hnew⟩, hall, hdistinct, hothers⟩
      refine ⟨⟨hacceptable, hall⟩, ⟨?_, hdistinct⟩, hnew, fun t ht => (hothers t ht).1⟩
      intro hmem
      obtain ⟨t, ht, heq⟩ := List.mem_map.mp hmem
      exact (hothers t ht).2 heq
    · rintro ⟨⟨hacceptable, hall⟩, ⟨hnot, hdistinct⟩, hnew, hothers⟩
      refine ⟨_, ⟨hacceptable, rfl, hnew⟩, hall, hdistinct, fun t ht => ⟨hothers t ht, ?_⟩⟩
      exact fun heq => hnot (List.mem_map.mpr ⟨t, ht, heq⟩)

theorem validateBlindTasks_eq_ok {display : Display} {tasks : List (Row F)} {u : Unit} :
    validateBlindTasks display tasks = .ok u ↔
      (∀ task ∈ tasks, Acceptable display task) ∧ (tasks.map (identifier display)).Nodup := by
  rw [validateBlindTasks, validateFrom_eq_ok]
  simp

/-! ## Tasks with their keys sorted -/

omit [PyFloat F] in
/-- A row as it is written. -/
def sortedRow (row : Row F) : Row F := (sortMembers row).insertionSort nameLE

omit [PyFloat F] in
theorem sortNames_obj (row : Row F) : sortNames (.obj row) = .obj (sortedRow row) := rfl

omit [PyFloat F] in
theorem mem_sortedRow {row : Row F} {name : PyStr} {j : Json F} :
    (name, j) ∈ sortedRow row ↔ ∃ k, (name, k) ∈ row ∧ sortNames k = j := by
  rw [sortedRow, List.mem_insertionSort, sortMembers_eq]
  simp only [List.mem_map, Prod.mk.injEq]
  constructor
  · rintro ⟨p, hp, rfl, rfl⟩
    exact ⟨p.2, hp, rfl⟩
  · rintro ⟨k, hk, rfl⟩
    exact ⟨(name, k), hk, rfl, rfl⟩

omit [PyFloat F] in
theorem names_sortedRow (row : Row F) :
    ((sortedRow row).map Prod.fst).Perm (row.map Prod.fst) := by
  have hperm := (List.perm_insertionSort nameLE (sortMembers row)).map Prod.fst
  rw [sortMembers_eq, List.map_map] at hperm
  rw [sortedRow, sortMembers_eq]
  exact hperm

omit [PyFloat F] in
theorem lookup_sortedRow {row : Row F} (h : (row.map Prod.fst).Nodup) (name : PyStr) :
    (sortedRow row).lookup name = (row.lookup name).map sortNames := by
  have hsorted : ((sortedRow row).map Prod.fst).Nodup := (names_sortedRow row).nodup_iff.mpr h
  ext j
  rw [PyDict.lookup_eq_some hsorted, mem_sortedRow, Option.map_eq_some_iff]
  exact exists_congr fun k => and_congr_left fun _ => (PyDict.lookup_eq_some h).symm

theorem pyEq_one_sortNames (j : Json F) :
    pyEq (ofJson (sortNames j)) (.int 1) = pyEq (ofJson j) (.int 1) := by
  cases j <;> rfl

/-- A text keeps itself, and every other value is shown as something. -/
theorem strOf_sortNames_ne_nil (display : Display) (j : Json F)
    (h : strOf display (ofJson j) ≠ []) : strOf display (ofJson (sortNames j)) ≠ [] := by
  cases j with
  | arr xs => exact fun hnil => by cases hnil
  | obj kvs => exact fun hnil => by cases hnil
  | _ => exact h

theorem isBlank_sortNames (display : Display) (j : Json F)
    (h : isBlank (strOf display (ofJson j)) = false) :
    isBlank (strOf display (ofJson (sortNames j))) = false := by
  cases j with
  | arr xs => rfl
  | obj kvs => rfl
  | _ => exact h

theorem Acceptable.sorted {display : Display} {task : Row F} (h : Acceptable display task)
    (hnames : (task.map Prod.fst).Nodup) : Acceptable display (sortedRow task) := by
  obtain ⟨⟨honly, hall⟩, hfree, ⟨j, hj, hversion⟩, ⟨k, hk, hne⟩, hfilled⟩ := h
  refine ⟨⟨?_, ?_⟩, (goldFree_sortNames (.obj task)).mpr hfree, ⟨sortNames j, ?_, ?_⟩,
    ⟨sortNames k, ?_, strOf_sortNames_ne_nil display k hne⟩, ?_⟩
  · rintro ⟨name, v⟩ hp
    obtain ⟨w, hw, _⟩ := mem_sortedRow.mp hp
    exact honly (name, w) hw
  · exact fun name hname => (names_sortedRow task).mem_iff.mpr (hall name hname)
  · rw [lookup_sortedRow hnames, hj]
    rfl
  · rw [pyEq_one_sortNames]
    exact hversion
  · rw [lookup_sortedRow hnames, hk]
    rfl
  · intro name hname
    obtain ⟨v, hv, hfull⟩ := hfilled name hname
    refine ⟨sortNames v, ?_, isBlank_sortNames display v hfull⟩
    rw [lookup_sortedRow hnames, hv]
    rfl

/-! ## Reading the task file back -/

/-- A task that was read and can be written. -/
structure Writable (task : Row F) : Prop where
  finite : (Json.obj task).Finite
  distinct : (Json.obj task).dedup = .obj task

omit [PyFloat F] in
theorem Writable.names {task : Row F} [PyFloat F] (h : Writable task) :
    (task.map Prod.fst).Nodup := by
  have hdedup := h.distinct
  rw [Json.dedup, Json.obj.injEq] at hdedup
  rw [← hdedup]
  exact ofPairs_nodup _

theorem Writable.namesSorted {task : Row F} (h : Writable task) :
    NamesSorted (sortNames (.obj task)) := by
  rw [← h.distinct]
  exact namesSorted_sortNames_dedup _

/-- The lines of the tasks. -/
def linesOf (tasks : List (Row F)) : PyStr :=
  tasks.flatMap fun task => render (sortNames (.obj task)) ++ [10]

theorem finite_sorted {task : Row F} (h : Writable task) : (Json.obj (sortedRow task)).Finite :=
  finite_sortNames (.obj task) h.finite

theorem isSeparator_mem {task : Row F} (h : Writable task) {c : ℕ} (hc : IsSeparator c) :
    c ∈ render (sortNames (.obj task)) ↔ c ∈ chars (.obj task) := by
  have hlarge : 128 ≤ c := by
    rcases hc with rfl | rfl | rfl <;> decide
  constructor
  · intro hmem
    have hwritten := (written_render _ (finite_sorted h) c hmem).2.resolve_left (by omega)
    exact (mem_chars_sortNames (.obj task)).mp hwritten
  · intro hmem
    exact mem_render hlarge _ ((mem_chars_sortNames _).mpr hmem)

theorem isLineEnd_line {task : Row F} (h : Writable task) {c : ℕ}
    (hc : c ∈ render (sortNames (.obj task))) (hsep : ¬IsSeparator c) : isLineEnd c = false :=
  RetrievalCache.isLineEnd_false (written_render _ (finite_sorted h) c hc).1 hsep

theorem loads_line {task : Row F} (h : Writable task) :
    loads (render (sortNames (.obj task))) = some (.obj (sortedRow task)) := by
  have hread := loads_render (finite_sorted h) (t := []) (by simp)
  rw [List.append_nil] at hread
  have hsorted := h.namesSorted
  rw [sortNames_obj] at hsorted ⊢
  rw [hread, dedup_of_sorted _ hsorted]

theorem isBlank_line (task : Row F) : isBlank (render (sortNames (.obj task))) = false := by
  rw [sortNames_obj]
  cases sortedRow task <;> rfl

/-- Without a separator every line is read back as its row. -/
theorem readLines_whole {path : PyStr} {number : ℕ} {tasks : List (Row F)}
    (hwritable : ∀ task ∈ tasks, Writable task) (h : ∀ task ∈ tasks, Unbroken (.obj task)) :
    readLines path number (splitlines (linesOf tasks)) = .ok (tasks.map sortedRow) := by
  induction tasks generalizing number with
  | nil => rfl
  | cons task tasks ih =>
    obtain ⟨htask, hrest⟩ := List.forall_mem_cons.mp hwritable
    obtain ⟨hu, hunbroken⟩ := List.forall_mem_cons.mp h
    have hline : ∀ c ∈ render (sortNames (.obj task)), isLineEnd c = false := fun c hc =>
      isLineEnd_line htask hc fun hsep => hu c ((isSeparator_mem htask hsep).mp hc) hsep
    have htext : linesOf (task :: tasks) =
        render (sortNames (.obj task)) ++ 10 :: linesOf tasks := by
      simp [linesOf]
    rw [htext, RetrievalCache.splitlines_line hline rfl (by decide), readLines, isBlank_line,
      if_neg (by simp), loads_line htask, ih hrest hunbroken]
    rfl

/-- One separator is enough to spoil the file. -/
theorem readLines_broken {path : PyStr} {number : ℕ} {tasks : List (Row F)}
    (hwritable : ∀ task ∈ tasks, Writable task) (h : ¬∀ task ∈ tasks, Unbroken (.obj task)) :
    ∃ context, readLines (F := F) path number (splitlines (linesOf tasks)) =
      .error (.benchmark context .invalidJson) := by
  induction tasks generalizing number with
  | nil => simp at h
  | cons task tasks ih =>
    obtain ⟨htask, hrest⟩ := List.forall_mem_cons.mp hwritable
    have htext : linesOf (task :: tasks) =
        render (sortNames (.obj task)) ++ 10 :: linesOf tasks := by
      simp [linesOf]
    rw [htext]
    by_cases hu : Unbroken (.obj task)
    · have hline : ∀ c ∈ render (sortNames (.obj task)), isLineEnd c = false := fun c hc =>
        isLineEnd_line htask hc fun hsep => hu c ((isSeparator_mem htask hsep).mp hc) hsep
      obtain ⟨context, hspoilt⟩ : ∃ context, readLines (F := F) path (number + 1)
          (splitlines (linesOf tasks)) = .error (.benchmark context .invalidJson) :=
        ih hrest fun hall => h (List.forall_mem_cons.mpr ⟨hu, hall⟩)
      refine ⟨context, ?_⟩
      rw [RetrievalCache.splitlines_line hline rfl (by decide), readLines, isBlank_line,
        if_neg (by simp), loads_line htask, hspoilt]
      rfl
    · have hsep : ∃ c ∈ render (sortNames (.obj task)), IsSeparator c := by
        unfold RetrievalCache.Unbroken at hu
        push Not at hu
        obtain ⟨c, hc, hsep⟩ := hu
        exact ⟨c, (isSeparator_mem htask hsep).mpr hc, hsep⟩
      obtain ⟨l, c, t, hcut, hsep, hl⟩ := RetrievalCache.cut_separator hsep
      have hline : ∀ d ∈ l, isLineEnd d = false := by
        intro d hd
        have hmem : d ∈ render (sortNames (.obj task)) := hcut ▸ List.mem_append_left _ hd
        exact isLineEnd_line htask hmem (hl d hd)
      have hreturn : c ≠ 13 := by
        rcases hsep with rfl | rfl | rfl <;> decide
      obtain ⟨b, hb⟩ : ∃ b, render (sortNames (.obj task)) = 123 :: b := by
        rw [sortNames_obj]
        cases sortedRow task <;> exact ⟨_, rfl⟩
      obtain ⟨l, rfl⟩ : ∃ l', l = 123 :: l' := by
        cases l with
        | nil =>
          rw [hb, List.nil_append, List.cons.injEq] at hcut
          rw [← hcut.1] at hsep
          exact absurd hsep (by decide)
        | cons d l =>
          rw [hb, List.cons_append, List.cons.injEq] at hcut
          exact ⟨l, by rw [hcut.1]⟩
      have hloads : loads (F := F) (123 :: l) = none :=
        RetrievalCache.loads_cut (finite_sorted htask) hcut.symm (by simp) (by simp)
      refine ⟨path ++ py ":" ++ intText number, ?_⟩
      rw [hcut, List.append_assoc, List.cons_append (a := c),
        RetrievalCache.splitlines_line hline hsep.isLineEnd hreturn, readLines]
      have hblank : isBlank (123 :: l) = false := rfl
      rw [hblank, if_neg (by simp), hloads]

end Blinding
