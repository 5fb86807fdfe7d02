import VeriMat.PyDict

/-! # Trees of files

What is stored under one directory: files with their contents, directories, symbolic links and
special files. A path is the list of the names on the way down. -/
namespace FileTree

variable {ν κ : Type}

inductive Entry (ν κ : Type) where
  | file (content : κ)
  | directory (entries : List (ν × Entry ν κ))
  | symlink
  | special

mutual

/-- Everything below an entry, with its path. -/
def Entry.walk : Entry ν κ → List (List ν × Entry ν κ)
  | .directory entries => walkEntries entries
  | _ => []

def walkEntries : List (ν × Entry ν κ) → List (List ν × Entry ν κ)
  | [] => []
  | (name, e) :: entries =>
    ([name], e) :: (e.walk.map fun found => (name :: found.1, found.2)) ++ walkEntries entries

end

mutual

/-- In every directory the names are valid and distinct. -/
def Entry.WellFormed (valid : ν → Prop) : Entry ν κ → Prop
  | .directory entries => (entries.map Prod.fst).Nodup ∧ EntriesWellFormed valid entries
  | _ => True

def EntriesWellFormed (valid : ν → Prop) : List (ν × Entry ν κ) → Prop
  | [] => True
  | (name, e) :: entries => (valid name ∧ e.WellFormed valid) ∧ EntriesWellFormed valid entries

end

/-- A tree as a file system keeps it. -/
structure Tree (valid : ν → Prop) (κ : Type) where
  root : Entry ν κ
  wellFormed : root.WellFormed valid

section Lookup
variable [DecidableEq ν]

/-- The entry at a path, symbolic links not followed. -/
def Entry.find? : Entry ν κ → List ν → Option (Entry ν κ)
  | e, [] => some e
  | .directory entries, name :: path =>
    match entries.lookup name with
    | some e => e.find? path
    | none => none
  | _, _ :: _ => none

/-- The content of the regular file at a path. -/
def Entry.content? (e : Entry ν κ) (path : List ν) : Option κ :=
  match e.find? path with
  | some (.file content) => some content
  | _ => none

theorem content?_eq_some {e : Entry ν κ} {path : List ν} {content : κ} :
    e.content? path = some content ↔ e.find? path = some (.file content) := by
  rw [Entry.content?]
  cases e.find? path with
  | none => simp
  | some found => cases found <;> simp

end Lookup

theorem mem_walkEntries {entries : List (ν × Entry ν κ)} {path : List ν} {x : Entry ν κ} :
    (path, x) ∈ walkEntries entries ↔ ∃ name e, (name, e) ∈ entries ∧
      (path = [name] ∧ x = e ∨ ∃ rest, (rest, x) ∈ e.walk ∧ path = name :: rest) := by
  induction entries with
  | nil => simp [walkEntries]
  | cons entry entries ih =>
    obtain ⟨name, e⟩ := entry
    rw [walkEntries, List.cons_append, List.mem_cons, List.mem_append, ih]
    constructor
    · rintro (heq | hbelow | ⟨name', e', hmem, hcase⟩)
      · exact ⟨name, e, List.mem_cons_self, .inl (Prod.mk.inj heq)⟩
      · obtain ⟨found, hfound, heq⟩ := List.mem_map.mp hbelow
        obtain ⟨hpath, hx⟩ := Prod.mk.inj heq
        exact ⟨name, e, List.mem_cons_self, .inr ⟨found.1, hx ▸ hfound, hpath.symm⟩⟩
      · exact ⟨name', e', List.mem_cons_of_mem _ hmem, hcase⟩
    · rintro ⟨name', e', hmem, hcase⟩
      rcases List.mem_cons.mp hmem with heq | hmem
      · obtain ⟨rfl, rfl⟩ := Prod.mk.inj heq
        rcases hcase with ⟨rfl, rfl⟩ | ⟨rest, hrest, rfl⟩
        · exact .inl rfl
        · exact .inr (.inl (List.mem_map.mpr ⟨(rest, x), hrest, rfl⟩))
      · exact .inr (.inr ⟨name', e', hmem, hcase⟩)

theorem entriesWellFormed_iff {valid : ν → Prop} {entries : List (ν × Entry ν κ)} :
    EntriesWellFormed valid entries ↔ ∀ entry ∈ entries, valid entry.1 ∧
      entry.2.WellFormed valid := by
  induction entries with
  | nil => simp [EntriesWellFormed]
  | cons entry entries ih => rw [EntriesWellFormed, ih, List.forall_mem_cons]

theorem walk_ne_nil {e x : Entry ν κ} {path : List ν} (h : (path, x) ∈ e.walk) : path ≠ [] := by
  cases e with
  | directory entries =>
    rw [Entry.walk] at h
    obtain ⟨name, _, _, ⟨rfl, _⟩ | ⟨rest, _, rfl⟩⟩ := mem_walkEntries.mp h
    · exact List.cons_ne_nil _ _
    · exact List.cons_ne_nil _ _
  | _ => simp [Entry.walk] at h

section Walks
variable [DecidableEq ν] {valid : ν → Prop}

/-- A walk finds what lookups find. -/
theorem mem_walk {e : Entry ν κ} (h : e.WellFormed valid) {path : List ν} {x : Entry ν κ} :
    (path, x) ∈ e.walk ↔ path ≠ [] ∧ e.find? path = some x := by
  induction path generalizing e with
  | nil => exact ⟨fun hmem => absurd rfl (walk_ne_nil hmem), fun hmem => absurd rfl hmem.1⟩
  | cons name path ih =>
    cases e with
    | directory entries =>
      obtain ⟨hnodup, hentries⟩ := h
      rw [Entry.walk, mem_walkEntries, Entry.find?]
      have hbelow : ∀ e, (name, e) ∈ entries →
          ((path, x) ∈ e.walk ↔ path ≠ [] ∧ e.find? path = some x) := fun e he =>
        ih (entriesWellFormed_iff.mp hentries _ he).2
      constructor
      · rintro ⟨_, e, he, ⟨hpath, rfl⟩ | ⟨rest, hrest, hpath⟩⟩
        · obtain ⟨rfl, rfl⟩ := List.cons.inj hpath
          rw [(PyDict.lookup_eq_some hnodup).mpr he]
          exact ⟨List.cons_ne_nil _ _, rfl⟩
        · obtain ⟨rfl, rfl⟩ := List.cons.inj hpath
          rw [(PyDict.lookup_eq_some hnodup).mpr he]
          exact ⟨List.cons_ne_nil _ _, ((hbelow e he).mp hrest).2⟩
      · rintro ⟨-, hfind⟩
        cases hlookup : entries.lookup name with
        | none => simp [hlookup] at hfind
        | some e =>
          have he := (PyDict.lookup_eq_some hnodup).mp hlookup
          simp only [hlookup] at hfind
          refine ⟨name, e, he, ?_⟩
          cases path with
          | nil =>
            rw [Entry.find?, Option.some.injEq] at hfind
            exact .inl ⟨rfl, hfind.symm⟩
          | cons next rest =>
            exact .inr ⟨_, (hbelow e he).mpr ⟨List.cons_ne_nil _ _, hfind⟩, rfl⟩
    | _ => simp [Entry.walk, Entry.find?]

/-- Every name on the way to an entry is valid. -/
theorem valid_of_find? {e x : Entry ν κ} (h : e.WellFormed valid) {path : List ν}
    (hfind : e.find? path = some x) : ∀ name ∈ path, valid name := by
  induction path generalizing e with
  | nil => simp
  | cons name path ih =>
    cases e with
    | directory entries =>
      obtain ⟨hnodup, hentries⟩ := h
      rw [Entry.find?] at hfind
      cases hlookup : entries.lookup name with
      | none => simp [hlookup] at hfind
      | some e =>
        simp only [hlookup] at hfind
        have he := entriesWellFormed_iff.mp hentries _
          ((PyDict.lookup_eq_some hnodup).mp hlookup)
        exact List.forall_mem_cons.mpr ⟨he.1, ih he.2 hfind⟩
    | _ => simp [Entry.find?] at hfind

end Walks

end FileTree
