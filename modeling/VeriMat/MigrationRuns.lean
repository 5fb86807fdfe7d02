import VeriMat.GrowingState
import VeriMat.Migrations

/-! # Any number of migrations at once

A process reads the version, and migrates from what it has read; by then others may have migrated.
The primary key of `schema_migrations` refuses a version that is there already, so that the
versions are applied one after another, each of them once, whoever applies it. -/
namespace MigrationRuns

open PyText JsonText PyValue Events AtomicProgram RelyGuarantee Interleaving GrowingState
open Transaction KeyedTable Migrations

variable {σ κ T : Type}

/-! ## Ranges -/

theorem mem_pyRange {start stop v : ℤ} : v ∈ pyRange start stop ↔ start ≤ v ∧ v < stop := by
  simp only [pyRange, List.mem_map, List.mem_range]
  constructor
  · rintro ⟨k, hk, rfl⟩
    omega
  · rintro ⟨hle, hlt⟩
    exact ⟨(v - start).toNat, by omega, by omega⟩

theorem pyRange_append {a b c : ℤ} (hab : a ≤ b) (hbc : b ≤ c) :
    pyRange a b ++ pyRange b c = pyRange a c := by
  have hlength : (c - a).toNat = (b - a).toNat + (c - b).toNat := by omega
  simp only [pyRange, hlength, List.range_add, List.map_append, List.map_map]
  congr 1
  apply List.map_congr_left
  intro k hk
  simp only [Function.comp_apply, Nat.cast_add]
  omega

theorem getLast?_pyRange {start stop : ℤ} (h : start < stop) :
    (pyRange start stop).getLast? = some (stop - 1) := by
  have hlength : (stop - start).toNat = (stop - 1 - start).toNat + 1 := by omega
  rw [pyRange, hlength, List.range_succ, List.map_append, List.map_singleton,
    List.getLast?_concat]
  congr 1
  omega

/-! ## What is recorded -/

/-- The row has the name and the checksum of its version. -/
structure Genuine (H : Host) (spec : DatabaseSpec) (row : MigrationRow T) : Prop where
  name : row.name = migrationName spec row.version
  checksum : migrationChecksum H spec row.version = .ok row.checksumSha256

/-- The versions up to the one of the database are recorded, each of them once. -/
structure Coherent (d : Database σ T) : Prop where
  nonneg : 0 ≤ d.userVersion
  recorded : (d.recorded.map MigrationRow.version).Perm (pyRange 1 (d.userVersion + 1))

/-- A database the migrations may touch: it has the identity or none, its history is genuine, and
without a version it holds no tables but legacy ones. -/
structure Admissible (E : Engine σ κ T) (H : Host) (all : DatabaseSpec) (d : Database σ T) :
    Prop where
  identity : d.applicationId = 0 ∨ d.applicationId = all.applicationId
  coherent : Coherent d
  genuine : ∀ row ∈ d.recorded, Genuine H all row
  adoptable : d.userVersion = 0 → E.businessTables d.schema ≠ [] →
    ∃ table ∈ E.businessTables d.schema, table ∈ all.legacyAnchorTables

/-- What lies between a database and a later state of it: exactly the versions between theirs. -/
structure Migrated (E : Engine σ κ T) (H : Host) (all : DatabaseSpec) (d d' : Database σ T) :
    Prop where
  newer : d.userVersion < d'.userVersion
  known : d'.userVersion ≤ all.latestVersion
  identity : d'.applicationId = all.applicationId
  recorded : ∃ rows, d'.recorded = d.recorded ++ rows ∧
    rows.map MigrationRow.version = pyRange (d.userVersion + 1) (d'.userVersion + 1) ∧
    ∀ row ∈ rows, Genuine H all row
  schema : ∃ statements,
    all.script (pyRange (d.userVersion + 1) (d'.userVersion + 1)) = some statements ∧
    E.executeAll statements d.schema = some d'.schema
  verified : expectedSignature E all d'.userVersion = .ok (E.signature d'.schema)

/-! ## Scripts -/

theorem executeAll_append {E : Engine σ κ T} {first second : List PyStr} {s s₁ s₂ : σ}
    (h₁ : E.executeAll first s = some s₁) (h₂ : E.executeAll second s₁ = some s₂) :
    E.executeAll (first ++ second) s = some s₂ := by
  induction first generalizing s with
  | nil =>
    obtain rfl : s = s₁ := Option.some.inj h₁
    exact h₂
  | cons statement first ih =>
    obtain ⟨s', hs', hrest⟩ := Option.bind_eq_some_iff.mp h₁
    exact Option.bind_eq_some_iff.mpr ⟨s', hs', ih hrest⟩

theorem script_cons {spec : DatabaseSpec} {version : ℤ} {versions : List ℤ}
    {first rest : List PyStr} (h : spec.statements version = some first)
    (hrest : spec.script versions = some rest) :
    spec.script (version :: versions) = some (first ++ rest) := by
  obtain ⟨lists, hlists, rfl⟩ := Option.map_eq_some_iff.mp hrest
  simp only [DatabaseSpec.script, List.mapM_cons, h, hlists]
  rfl

theorem script_append {spec : DatabaseSpec} {versions versions' : List ℤ}
    {first second : List PyStr} (h₁ : spec.script versions = some first)
    (h₂ : spec.script versions' = some second) :
    spec.script (versions ++ versions') = some (first ++ second) := by
  induction versions generalizing first with
  | nil =>
    obtain rfl : [] = first := Option.some.inj h₁
    exact h₂
  | cons version versions ih =>
    obtain ⟨lists, hlists, rfl⟩ := Option.map_eq_some_iff.mp h₁
    rw [List.mapM_cons] at hlists
    obtain ⟨statements, hstatements, hlists⟩ := Option.bind_eq_some_iff.mp hlists
    obtain ⟨lists', hlists', hcons⟩ := Option.bind_eq_some_iff.mp hlists
    obtain rfl : statements :: lists' = lists := Option.some.inj hcons
    have hscript : spec.script versions = some lists'.flatten := by
      rw [DatabaseSpec.script, hlists']
      rfl
    have hrest := ih hscript
    rw [List.cons_append, script_cons hstatements hrest, List.flatten_cons, List.append_assoc]

theorem script_positive {spec : DatabaseSpec} {versions : List ℤ} {statements : List PyStr}
    (h : spec.script versions = some statements) : ∀ v ∈ versions, 1 ≤ v := by
  induction versions generalizing statements with
  | nil => simp
  | cons version versions ih =>
    obtain ⟨lists, hlists, rfl⟩ := Option.map_eq_some_iff.mp h
    rw [List.mapM_cons] at hlists
    obtain ⟨first, hfirst, hlists⟩ := Option.bind_eq_some_iff.mp hlists
    obtain ⟨rest, hrest, -⟩ := Option.bind_eq_some_iff.mp hlists
    intro v hv
    rcases List.mem_cons.mp hv with rfl | hv
    · by_contra hlt
      rw [DatabaseSpec.statements, if_neg hlt] at hfirst
      cases hfirst
    · exact ih (by rw [DatabaseSpec.script, hrest]; rfl) v hv

theorem Migrated.trans {E : Engine σ κ T} {H : Host} {all : DatabaseSpec}
    {d d' d'' : Database σ T} (h : Migrated E H all d d') (h' : Migrated E H all d' d'') :
    Migrated E H all d d'' := by
  obtain ⟨rows, hrows, hversions, hgenuine⟩ := h.recorded
  obtain ⟨rows', hrows', hversions', hgenuine'⟩ := h'.recorded
  obtain ⟨statements, hscript, hschema⟩ := h.schema
  obtain ⟨statements', hscript', hschema'⟩ := h'.schema
  have hnewer := h.newer
  have hnewer' := h'.newer
  have hrange := pyRange_append (a := d.userVersion + 1) (b := d'.userVersion + 1)
    (c := d''.userVersion + 1) (by omega) (by omega)
  refine ⟨by omega, h'.known, h'.identity, ⟨rows ++ rows', ?_, ?_, ?_⟩,
    ⟨statements ++ statements', ?_, executeAll_append hschema hschema'⟩, h'.verified⟩
  · rw [hrows', hrows, List.append_assoc]
  · rw [List.map_append, hversions, hversions', hrange]
  · intro row hrow
    rcases List.mem_append.mp hrow with hrow | hrow
    · exact hgenuine row hrow
    · exact hgenuine' row hrow
  · rw [← hrange]
    exact script_append hscript hscript'

/-! ## Releases -/

section Releases
variable {all : DatabaseSpec} (r : Release all) {v : ℤ}

theorem latestVersion_spec : r.spec.latestVersion = r.version := by
  have h := r.known
  simp only [DatabaseSpec.latestVersion, Release.spec, List.length_take]
  omega

theorem version_le_latest : (r.version : ℤ) ≤ all.latestVersion := Int.ofNat_le.mpr r.known

theorem statements_spec (h : v ≤ r.version) : r.spec.statements v = all.statements v := by
  by_cases hv : 1 ≤ v
  · simp only [DatabaseSpec.statements, Release.spec, if_pos hv]
    exact List.getElem?_take_of_lt (by omega)
  · simp only [DatabaseSpec.statements, if_neg hv]

theorem script_spec {versions : List ℤ} (h : ∀ v ∈ versions, v ≤ (r.version : ℤ)) :
    r.spec.script versions = all.script versions := by
  have hmap : versions.mapM r.spec.statements = versions.mapM all.statements := by
    induction versions with
    | nil => rfl
    | cons v versions ih =>
      rw [List.mapM_cons, List.mapM_cons, statements_spec r (h v List.mem_cons_self),
        ih fun w hw => h w (List.mem_cons_of_mem _ hw)]
  rw [DatabaseSpec.script, DatabaseSpec.script, hmap]

theorem expectedSignature_spec (E : Engine σ κ T) (h : v ≤ r.version) :
    expectedSignature E r.spec v = expectedSignature E all v := by
  have hscript : r.spec.script (pyRange 1 (v + 1)) = all.script (pyRange 1 (v + 1)) := by
    apply script_spec
    intro w hw
    have hlt := (mem_pyRange.mp hw).2
    omega
  rw [expectedSignature, expectedSignature, hscript]

theorem genuine_spec {H : Host} {row : MigrationRow T} (h : row.version ≤ r.version) :
    Genuine H r.spec row ↔ Genuine H all row := by
  have hchecksum : migrationChecksum H r.spec row.version =
      migrationChecksum H all row.version := by
    rw [migrationChecksum, migrationChecksum, statements_spec r h]
    rfl
  constructor
  · exact fun hrow => ⟨hrow.name, hchecksum ▸ hrow.checksum⟩
  · exact fun hrow => ⟨hrow.name, hchecksum.symm ▸ hrow.checksum⟩

end Releases

/-! ## The transaction -/

section Transaction
variable {E : Engine σ κ T} {H : Host} {spec : DatabaseSpec} {s s' : Database σ T}

/-- What the loop over some versions has done. -/
structure Applied (E : Engine σ κ T) (H : Host) (spec : DatabaseSpec) (versions : List ℤ)
    (s s' : Database σ T) : Prop where
  recorded : ∃ rows, s'.recorded = s.recorded ++ rows ∧
    rows.map MigrationRow.version = versions ∧ ∀ row ∈ rows, Genuine H spec row
  schema : ∃ statements, spec.script versions = some statements ∧
    E.executeAll statements s.schema = some s'.schema
  fresh : ∀ v ∈ versions, ∀ row ∈ s.recorded, row.version ≠ v
  version : s'.userVersion = (versions.getLast?).getD s.userVersion

theorem applied_nil : Applied E H spec [] s s :=
  ⟨⟨[], (List.append_nil _).symm, rfl, by simp⟩, ⟨[], rfl, rfl⟩, by simp, rfl⟩

theorem Applied.cons {s₁ : Database σ T} {version : ℤ} {versions : List ℤ}
    (h : Applied E H spec [version] s s₁) (hrest : Applied E H spec versions s₁ s') :
    Applied E H spec (version :: versions) s s' := by
  obtain ⟨rows, hrows, hversions, hgenuine⟩ := h.recorded
  obtain ⟨rows', hrows', hversions', hgenuine'⟩ := hrest.recorded
  obtain ⟨statements, hscript, hschema⟩ := h.schema
  obtain ⟨statements', hscript', hschema'⟩ := hrest.schema
  refine ⟨⟨rows ++ rows', ?_, ?_, ?_⟩,
    ⟨statements ++ statements', script_append hscript hscript',
      executeAll_append hschema hschema'⟩, ?_, ?_⟩
  · rw [hrows', hrows, List.append_assoc]
  · rw [List.map_append, hversions, hversions', List.singleton_append]
  · intro row hrow
    rcases List.mem_append.mp hrow with hrow | hrow
    · exact hgenuine row hrow
    · exact hgenuine' row hrow
  · intro v hv row hrow
    rcases List.mem_cons.mp hv with rfl | hv
    · exact h.fresh v List.mem_cons_self row hrow
    · exact hrest.fresh v hv row (hrows ▸ List.mem_append_left _ hrow)
  · rw [hrest.version, h.version]
    cases versions with
    | nil => rfl
    | cons v versions => rfl

/-- A row goes in only where its version is not recorded yet. -/
theorem insertMigration_ok {row : MigrationRow T} {u : Unit}
    (h : insertMigration row s = .ok u s') :
    s'.recorded = s.recorded ++ [row] ∧ (∀ old ∈ s.recorded, old.version ≠ row.version) ∧
      s'.schema = s.schema ∧ s'.applicationId = s.applicationId := by
  obtain ⟨t', hinsert, hset⟩ := orRaise_bind_ok.mp (get_bind_ok.mp h)
  obtain ⟨t, ht, hinsert⟩ := Option.bind_eq_some_iff.mp hinsert
  obtain rfl := set_eq_ok.mp hset
  have hrecorded : s.recorded = t.rows := by rw [Database.recorded, ht]
  rw [hrecorded]
  exact ⟨Table.insert_rows hinsert, Table.insert_isSome.mp ⟨t', hinsert⟩, rfl, rfl⟩

theorem applyVersion_ok {now : T} {version : ℤ} {u : Unit}
    (h : applyVersion E H spec now version s = .ok u s') : Applied E H spec [version] s s' := by
  obtain ⟨statements, hstatements, h⟩ := orRaise_bind_ok.mp h
  obtain ⟨u₁, s₁, hexecute, h⟩ := bind_eq_ok.mp h
  obtain ⟨schema, hschema, hset⟩ := orRaise_bind_ok.mp (get_bind_ok.mp hexecute)
  obtain rfl := set_eq_ok.mp hset
  cases hchecksum : migrationChecksum H spec version with
  | error e =>
    rw [hchecksum] at h
    cases h
  | ok checksum =>
    rw [hchecksum] at h
    obtain ⟨u₂, s₂, hinsert, h⟩ := bind_eq_ok.mp h
    obtain rfl := modify_eq_ok.mp h
    obtain ⟨hrecorded, hfresh, hsame, -⟩ := insertMigration_ok hinsert
    refine ⟨⟨_, hrecorded, rfl, ?_⟩, ⟨statements, ?_, ?_⟩, ?_, rfl⟩
    · intro row hrow
      rw [List.mem_singleton.mp hrow]
      exact ⟨rfl, hchecksum⟩
    · have hnone : spec.script [] = some [] := rfl
      rw [script_cons hstatements hnone, List.append_nil]
    · exact hschema.trans (congrArg some hsame.symm)
    · intro v hv row hrow
      rw [List.mem_singleton.mp hv]
      exact hfresh row hrow

theorem applyVersions_ok {now : ℤ → T} {versions : List ℤ} {u : Unit}
    (h : applyVersions E H spec now versions s = .ok u s') :
    Applied E H spec versions s s' := by
  induction versions generalizing s with
  | nil =>
    obtain ⟨-, rfl⟩ := pure_eq_ok.mp h
    exact applied_nil
  | cons version versions ih =>
    obtain ⟨u₁, s₁, hfirst, hrest⟩ := bind_eq_ok.mp h
    exact (applyVersion_ok hfirst).cons (ih hrest)

variable [DecidableEq κ]

theorem migrateTransaction_ok {now : ℤ → T} {first : ℤ} {u : Unit}
    (h : migrateTransaction E H spec now first s = .ok u s') :
    Applied E H spec (pyRange first (spec.latestVersion + 1)) s s' ∧
      s'.applicationId = spec.applicationId ∧
      expectedSignature E spec spec.latestVersion = .ok (E.signature s'.schema) := by
  obtain ⟨u₁, s₁, hcreate, h⟩ := bind_eq_ok.mp (immediate_eq_ok.mp h)
  obtain rfl := modify_eq_ok.mp hcreate
  obtain ⟨u₂, s₂, happly, h⟩ := bind_eq_ok.mp h
  obtain ⟨u₃, s₃, hidentity, h⟩ := bind_eq_ok.mp h
  obtain rfl := modify_eq_ok.mp hidentity
  have hverify := get_bind_ok.mp h
  have happlied := applyVersions_ok happly
  have hrecorded : Database.recorded
      { s with schemaMigrations := some (s.schemaMigrations.getD KeyedTable.empty) } =
      s.recorded := by
    cases hnone : s.schemaMigrations with
    | none => simp only [Database.recorded, hnone]; rfl
    | some t => simp only [Database.recorded, hnone]; rfl
  cases hexpected : expectedSignature E spec spec.latestVersion with
  | error e =>
    rw [hexpected] at hverify
    cases hverify
  | ok expected =>
    rw [hexpected] at hverify
    obtain ⟨hsame, rfl⟩ := raiseIf_eq_ok.mp hverify
    obtain rfl := not_not.mp hsame
    refine ⟨⟨?_, happlied.schema, ?_, happlied.version⟩, rfl, rfl⟩
    · rw [← hrecorded]
      exact happlied.recorded
    · rw [← hrecorded]
      exact happlied.fresh

end Transaction

/-! ## One step -/

section Steps
variable {E : Engine σ κ T} {H : Host} {all : DatabaseSpec} {r : Release all} {first : ℤ}
  {s s' : Database σ T}

/-- What a transaction that has gone through means for the versions. -/
structure Advanced (E : Engine σ κ T) (H : Host) (r : Release all) (first : ℤ)
    (s s' : Database σ T) : Prop where
  applied : Applied E H r.spec (pyRange first (r.version + 1)) s s'
  identity : s'.applicationId = all.applicationId
  verified : expectedSignature E all r.version = .ok (E.signature s'.schema)

/-- The first version a transaction applies is a version, and not one that is recorded. -/
theorem Advanced.next (h : Advanced E H r first s s') (hs : Coherent s)
    (hfirst : first ≤ r.version) : s.userVersion < first := by
  have hmem : first ∈ pyRange first (r.version + 1) := mem_pyRange.mpr ⟨le_rfl, by omega⟩
  obtain ⟨statements, hscript, -⟩ := h.applied.schema
  have hpositive := script_positive hscript first hmem
  by_contra hle
  have hrecorded : first ∈ s.recorded.map MigrationRow.version :=
    hs.recorded.mem_iff.mpr (mem_pyRange.mpr ⟨hpositive, by omega⟩)
  obtain ⟨row, hrow, hversion⟩ := List.mem_map.mp hrecorded
  exact h.applied.fresh first hmem row hrow hversion

/-- The version and the identity of a database are never taken back. -/
structure Grows (all : DatabaseSpec) (s s' : Database σ T) : Prop where
  version : s.userVersion ≤ s'.userVersion
  identity : s.applicationId = all.applicationId → s'.applicationId = all.applicationId

theorem Advanced.grows (h : Advanced E H r first s s') (hs : Coherent s) : Grows all s s' := by
  refine ⟨?_, fun _ => h.identity⟩
  by_cases hfirst : first ≤ r.version
  · have hnext := h.next hs hfirst
    rw [h.applied.version, getLast?_pyRange (by omega), Option.getD_some]
    omega
  · have hnil : pyRange first (r.version + 1) = [] := by
      have hzero : ((r.version : ℤ) + 1 - first).toNat = 0 := by omega
      rw [pyRange, hzero]
      rfl
    rw [h.applied.version, hnil]
    exact le_rfl

/-- A transaction that starts from a version the database had goes on from the one it has. -/
theorem Advanced.migrated (h : Advanced E H r first s s') (hs : Coherent s)
    (hseen : first ≤ s.userVersion + 1) (hfirst : first ≤ r.version) :
    Coherent s' ∧ Migrated E H all s s' := by
  have hnext := h.next hs hfirst
  obtain rfl : first = s.userVersion + 1 := by omega
  have hversion : s'.userVersion = r.version := by
    rw [h.applied.version, getLast?_pyRange (by omega), Option.getD_some]
    omega
  obtain ⟨rows, hrows, hversions, hgenuine⟩ := h.applied.recorded
  obtain ⟨statements, hscript, hschema⟩ := h.applied.schema
  have hnonneg := hs.nonneg
  constructor
  · refine ⟨by omega, ?_⟩
    rw [hrows, List.map_append, hversions, hversion,
      ← pyRange_append (a := 1) (b := s.userVersion + 1) (by omega) (by omega)]
    exact hs.recorded.append_right _
  · refine ⟨by omega, ?_, h.identity, ⟨rows, hrows, ?_, ?_⟩, ⟨statements, ?_, hschema⟩, ?_⟩
    · rw [hversion]
      exact version_le_latest r
    · rw [hversion, hversions]
    · intro row hrow
      have hmem : row.version ∈ pyRange (s.userVersion + 1) (r.version + 1) := by
        rw [← hversions]
        exact List.mem_map_of_mem hrow
      have hle := (mem_pyRange.mp hmem).2
      exact (genuine_spec r (by omega)).mp (hgenuine row hrow)
    · rw [hversion, ← hscript, script_spec r]
      intro v hv
      have hlt := (mem_pyRange.mp hv).2
      omega
    · rw [hversion]
      exact h.verified

end Steps

/-! ## Operations -/

section Operations
variable [DecidableEq κ] {E : Engine σ κ T} {H : Host} {all : DatabaseSpec}
  {s s' : Database σ T}

/-- An operation outside the transaction. -/
def Reading : MigrationOp all → Prop
  | .migrate _ _ => False
  | _ => True

theorem performs_reading {o : MigrationOp all} {reply : MigrationReply κ T o} (ho : Reading o)
    (h : Performs E H s o reply s') : s' = s ∧ ∀ a, reply = .ok a → Reads E s o a := by
  cases o with
  | migrate r first => exact ho.elim
  | connect mustExist => exact ⟨h.1, fun _ _ => trivial⟩
  | _ =>
    refine ⟨h.1, ?_⟩
    rintro a rfl
    rcases h.2 with ⟨b, hb, hreads⟩ | hrefused
    · exact Except.ok.inj hb ▸ hreads
    · cases hrefused

theorem performs_migrate {r : Release all} {first : ℤ}
    {reply : MigrationReply κ T (.migrate r first)}
    (h : Performs E H s (.migrate r first) reply s') :
    s' = s ∧ (∃ e, reply = .error e) ∨ Advanced E H r first s s' := by
  rcases h with ⟨now, houtcome⟩ | ⟨rfl, rfl⟩
  · cases reply with
    | error e =>
      exact .inl ⟨immediate_rollback (outcome_error.mp houtcome), e, rfl⟩
    | ok u =>
      obtain ⟨happlied, hidentity, hverified⟩ := migrateTransaction_ok (outcome_ok.mp houtcome)
      rw [latestVersion_spec] at happlied hverified
      rw [expectedSignature_spec r E le_rfl] at hverified
      exact .inr ⟨happlied, hidentity, hverified⟩
  · exact .inl ⟨rfl, _, rfl⟩

theorem performs_grows {o : MigrationOp all} {reply : MigrationReply κ T o} (hs : Coherent s)
    (h : Performs E H s o reply s') : Grows all s s' := by
  by_cases ho : Reading o
  · obtain rfl := (performs_reading ho h).1
    exact ⟨le_rfl, id⟩
  · cases o with
    | migrate r first =>
      rcases performs_migrate h with ⟨rfl, -⟩ | hadvanced
      · exact ⟨le_rfl, id⟩
      · exact hadvanced.grows hs
    | _ => exact absurd trivial ho

end Operations

/-! ## Programs that only read -/

section Reading
variable [DecidableEq κ] {E : Engine σ κ T} {H : Host} {all : DatabaseSpec} {α : Type}

omit [DecidableEq κ] in
theorem only_act {o : MigrationOp all} (ho : Reading o) :
    Only Reading (act o : MigrationProgram κ T all _).run :=
  ⟨ho, fun _ => trivial⟩

omit [DecidableEq κ] in
theorem only_check {x : Except Failure α} :
    Only Reading (check x : MigrationProgram κ T all α).run := trivial

theorem only_checkLegacy (expected : Signature κ) (tables : List PyStr) :
    Only Reading (checkLegacy expected tables : MigrationProgram κ T all Unit).run := by
  induction tables with
  | nil => exact only_run_pure _
  | cons table tables ih =>
    unfold checkLegacy
    cases expected.lookup table with
    | none => exact only_run_throw _
    | some wanted =>
      refine only_run_bind (only_act trivial) fun signature => ?_
      cases signature.lookup table with
      | none => exact only_run_throw _
      | some actual =>
        by_cases hdiffers : actual.1 ≠ wanted.1
        · simp only [if_pos hdiffers]
          exact only_run_throw _
        · simp only [if_neg hdiffers]
          exact ih

theorem only_checkStructure (spec : DatabaseSpec) (userVersion : ℤ) (tables : List PyStr)
    (legacy : Bool) : Only Reading
      (checkStructure E spec userVersion tables legacy : MigrationProgram κ T all Unit).run := by
  unfold checkStructure
  cases legacy with
  | true =>
    rw [if_pos rfl]
    exact only_run_bind only_check fun expected => only_checkLegacy expected tables
  | false =>
    rw [if_neg (by decide)]
    by_cases hversion : userVersion ≠ 0
    · rw [if_pos hversion]
      refine only_run_bind (only_act trivial) fun actual => ?_
      refine only_run_bind only_check fun expected => ?_
      by_cases hdiffers : actual ≠ expected
      · rw [if_pos hdiffers]
        exact only_run_throw _
      · rw [if_neg hdiffers]
        exact only_run_pure _
    · rw [if_neg hversion]
      exact only_run_pure _

variable {I A : Database σ T → Prop} {G : Database σ T → Database σ T → Prop}

/-- A program among any other calls; what it raises is left open. -/
abbrev RunsAmong (E : Engine σ κ T) (H : Host) (all : DatabaseSpec) (I A : Database σ T → Prop)
    (x : MigrationProgram κ T all α) (post : α → Database σ T → Prop) : Prop :=
  Runs (migrating E H all).perform (Interferes (migrating E H all)) I A x post fun _ _ => True

abbrev GrowingAmong (E : Engine σ κ T) (H : Host) (all : DatabaseSpec) (I : Database σ T → Prop)
    (G : Database σ T → Database σ T → Prop) : Prop :=
  Growing (migrating E H all).perform (Interferes (migrating E H all)) I G

theorem runs_read (hgrowing : GrowingAmong E H all I G)
    {o : MigrationOp all} (ho : Reading o) {post : o.Result κ T → Database σ T → Prop}
    (hpost : ∀ a, Upward G (post a)) (hreads : ∀ s a, I s → A s → Reads E s o a → post a s) :
    RunsAmong E H all I A (act o) post := by
  refine runs_ask ⟨?_, stable_ends (fun a => hgrowing.stable (hpost a)) fun _ => stable_const, ?_⟩
  · intro s reply s' hI _ h
    rw [(performs_reading ho h).1]
    exact hI
  · intro s reply s' hI hA h
    obtain ⟨rfl, hread⟩ := performs_reading ho h
    cases reply with
    | ok a => exact hreads _ a hI hA (hread a rfl)
    | error e => exact trivial

/-- What only grows outlasts a part that reads. -/
theorem runs_reading
    (hgrowing : GrowingAmong E H all I G)
    (hA : Upward G A) {x : MigrationProgram κ T all α} (hx : Only Reading x.run) :
    RunsAmong E H all I A x fun _ => A := by
  have hkeeps : ∀ s (o : MigrationOp all) (reply : MigrationReply κ T o) s', I s → Reading o →
      Performs E H s o reply s' → I s' := by
    intro s o reply s' hI ho h
    rw [(performs_reading ho h).1]
    exact hI
  have hruns := hgrowing.frame_runs (runs_of_only hkeeps hx) hA
  refine (hruns.strengthen fun s _ hs => ⟨trivial, hs⟩).weaken ?_ ?_
  · exact fun a s _ hs => hs.2
  · exact fun _ _ _ _ => trivial

theorem runs_check {x : Except Failure α} :
    RunsAmong E H all I A (check x) fun a s => A s ∧ x = .ok a := by
  cases x with
  | ok a => exact fun s _ hs => ⟨hs, rfl⟩
  | error e => exact fun _ _ _ => trivial

end Reading

/-! ## Databases that are not touched -/

section Refused
variable [DecidableEq κ] {E : Engine σ κ T} {H : Host} {all : DatabaseSpec} {d : Database σ T}
  (r : Release all)

omit [DecidableEq κ] in
theorem checkRows_ok {spec : DatabaseSpec} {rows : List (MigrationRow T)}
    (h : checkRows E H spec rows = .ok ()) : ∀ row ∈ rows,
      row.version ≤ spec.latestVersion ∧ Genuine H spec row := by
  induction rows with
  | nil => simp
  | cons row rows ih =>
    unfold checkRows at h
    split_ifs at h with hrange
    cases hchecksum : migrationChecksum H spec row.version with
    | error e =>
      rw [hchecksum] at h
      cases h
    | ok checksum =>
      rw [hchecksum] at h
      by_cases hrow : row.checksumSha256 ≠ checksum ∨ row.name ≠ migrationName spec row.version ∨
          E.dated row.appliedAt = false
      · simp only [if_pos hrow] at h
        cases h
      · simp only [if_neg hrow] at h
        push Not at hrow hrange
        intro old hold
        rcases List.mem_cons.mp hold with rfl | hold
        · exact ⟨hrange.2, hrow.2.1, by rw [hchecksum, hrow.1]⟩
        · exact ih h old hold

theorem history_perm (d : Database σ T) : d.history.Perm d.recorded :=
  List.perm_insertionSort _ _

omit [DecidableEq κ] in
theorem checkHistory_ok {spec : DatabaseSpec}
    (h : checkHistory E H spec d.userVersion d.history = .ok ()) :
    Coherent d ∧ ∀ row ∈ d.recorded, row.version ≤ spec.latestVersion ∧ Genuine H spec row := by
  have hperm := history_perm d
  unfold checkHistory at h
  by_cases hempty : d.history.isEmpty = true
  · rw [if_pos hempty] at h
    have hnil : d.recorded = [] := by
      have hhistory := List.isEmpty_iff.mp hempty
      exact (hhistory ▸ hperm).nil_eq.symm
    by_cases hzero : d.userVersion = 0
    · refine ⟨⟨hzero.ge, ?_⟩, by simp [hnil]⟩
      rw [hnil, hzero]
      exact List.Perm.refl _
    · rw [if_pos hzero] at h
      cases h
  · rw [if_neg hempty] at h
    by_cases hversions : d.history.map MigrationRow.version = pyRange 1 (d.userVersion + 1)
    · rw [if_neg (not_not.mpr hversions)] at h
      refine ⟨⟨?_, ?_⟩, fun row hrow => checkRows_ok h row (hperm.mem_iff.mpr hrow)⟩
      · by_contra hneg
        have hzero : (d.userVersion + 1 - 1).toNat = 0 := by omega
        rw [pyRange, hzero, List.range_zero, List.map_nil, List.map_eq_nil_iff] at hversions
        exact hempty (List.isEmpty_iff.mpr hversions)
      · rw [← hversions]
        exact (hperm.map _).symm
    · rw [if_pos hversions] at h
      cases h

omit [DecidableEq κ] in
/-- The checks of the status of any release are passed by admissible databases alone. -/
theorem admissible_of_check
    (h : checkIdentity E H r.spec d.applicationId d.userVersion (E.businessTables d.schema)
      d.history ((E.businessTables d.schema).any (· ∈ r.spec.legacyAnchorTables) &&
        d.userVersion == 0) = .ok ()) : Admissible E H all d := by
  unfold checkIdentity at h
  by_cases hidentity : d.applicationId = 0 ∨ d.applicationId = r.spec.applicationId
  · rw [if_neg (not_not.mpr hidentity)] at h
    by_cases hnewer : r.spec.latestVersion < d.userVersion
    · rw [if_pos hnewer] at h
      cases h
    rw [if_neg hnewer] at h
    cases hhistory : checkHistory E H r.spec d.userVersion d.history with
    | error e =>
      rw [hhistory] at h
      cases h
    | ok u =>
      simp only [hhistory] at h
      obtain ⟨hcoherent, hrows⟩ := checkHistory_ok hhistory
      refine ⟨hidentity, hcoherent, ?_, ?_⟩
      · intro row hrow
        obtain ⟨hversion, hgenuine⟩ := hrows row hrow
        rw [latestVersion_spec] at hversion
        exact (genuine_spec r hversion).mp hgenuine
      · intro hzero htables
        by_contra hforeign
        push Not at hforeign
        have hnone : ((E.businessTables d.schema).any (· ∈ r.spec.legacyAnchorTables) &&
            d.userVersion == 0) = false := by
          rw [Bool.and_eq_false_iff]
          refine .inl (List.any_eq_false.mpr ?_)
          intro table htable
          rw [decide_eq_true_iff]
          exact hforeign table htable
        rw [if_pos ⟨htables, hnone, hzero⟩] at h
        cases h
  · rw [if_pos hidentity] at h
    cases h

end Refused

section Refusal
variable [DecidableEq κ] {E : Engine σ κ T} {H : Host} {all : DatabaseSpec} {d : Database σ T}
  (r : Release all)

variable (E H all d) in
theorem untouched_growing : GrowingAmong E H all (· = d) fun _ _ => True :=
  ⟨fun _ _ _ _ => trivial, fun _ _ _ _ _ _ => trivial⟩

/-- No release gets past its look at a database that is not admissible. -/
theorem status_refused (hd : ¬Admissible E H all d) (mustExist : Bool) :
    RunsAmong E H all (· = d) (fun _ => True) (runtimeSchemaStatus E H r.spec mustExist)
      fun _ _ => False := by
  have hgrowing := untouched_growing E H all d
  refine Runs.bind (runs_reading hgrowing upward_const (only_act trivial)) fun _ => ?_
  refine Runs.bind (J := fun a _ => a = d.applicationId)
    (runs_read hgrowing (o := .applicationId) trivial (fun _ => upward_const) ?_)
    fun applicationId => ?_
  · rintro s a rfl _ hread
    exact hread
  refine Runs.bind (J := fun u _ => applicationId = d.applicationId ∧ u = d.userVersion)
    (runs_read hgrowing (o := .userVersion) trivial (fun _ => upward_const) ?_)
    fun userVersion => ?_
  · rintro s u rfl hknown hread
    exact ⟨hknown, hread⟩
  refine Runs.bind (J := fun tables _ => applicationId = d.applicationId ∧
    userVersion = d.userVersion ∧ tables = E.businessTables d.schema)
    (runs_read hgrowing (o := .businessTables) trivial (fun _ => upward_const) ?_) fun tables => ?_
  · rintro s tables rfl hknown hread
    exact ⟨hknown.1, hknown.2, hread⟩
  refine Runs.bind (J := fun history _ => applicationId = d.applicationId ∧
    userVersion = d.userVersion ∧ tables = E.businessTables d.schema ∧ history = d.history)
    (runs_read hgrowing (o := .history) trivial (fun _ => upward_const) ?_) fun history => ?_
  · rintro s history rfl hknown hread
    exact ⟨hknown.1, hknown.2.1, hknown.2.2, hread⟩
  refine Runs.bind runs_check fun u => ?_
  refine Program.Meets.unreachable ?_
  rintro s - ⟨⟨rfl, rfl, rfl, rfl⟩, hcheck⟩
  exact hd (admissible_of_check r hcheck)

/-- No call gets past it either. -/
theorem call_refused (hd : ¬Admissible E H all d) (c : Call all) :
    RunsAmong E H all (· = d) (fun _ => True) (c.program E H) fun _ _ => False := by
  have hbehind : ∀ (mustExist : Bool)
      (f : SchemaStatus T → MigrationProgram κ T all (SchemaStatus T)),
      RunsAmong E H all (· = d) (fun _ => True)
        (runtimeSchemaStatus E H c.release.spec mustExist >>= f) fun _ _ => False := by
    intro mustExist f
    refine Runs.bind (status_refused c.release hd mustExist) fun status => ?_
    exact Program.Meets.unreachable fun _ _ h => h
  unfold Call.program
  cases c.task with
  | status mustExist => exact status_refused c.release hd mustExist
  | verify => exact hbehind true _
  | migrate allowLegacyAdoption => exact hbehind false _
  | prepare => exact hbehind false _

end Refusal

/-! ## Databases that are -/

section Accepted
variable [DecidableEq κ] {E : Engine σ κ T} {H : Host} {all : DatabaseSpec} {d : Database σ T}
  {r : Release all} {I : Database σ T → Prop}

/-- What a look at the database lets a process count on. -/
structure Looked (r : Release all) (status : SchemaStatus T) (s : Database σ T) : Prop where
  version : status.currentVersion ≤ s.userVersion
  unversioned : status.blank = true ∨ status.legacyAdoptionRequired = true →
    status.currentVersion = 0
  identity : status.applicationId = all.applicationId → s.applicationId = all.applicationId
  ready : status.ready = true →
    status.applicationId = all.applicationId ∧ status.currentVersion = r.version

/-- The database has the identity, and at least the version of the release. -/
structure Verified (r : Release all) (status : SchemaStatus T) (s : Database σ T) : Prop where
  ready : status.ready = true
  current : status.currentVersion = r.version
  version : r.version ≤ s.userVersion
  identity : s.applicationId = all.applicationId

theorem upward_looked {status : SchemaStatus T} :
    Upward (Grows all (T := T) (σ := σ)) (Looked r status) := by
  intro s s' h hs
  exact ⟨hs.version.trans h.version, hs.unversioned, fun hid => h.identity (hs.identity hid),
    hs.ready⟩

theorem upward_verified {status : SchemaStatus T} :
    Upward (Grows all (T := T) (σ := σ)) (Verified r status) := by
  intro s s' h hs
  exact ⟨hs.ready, hs.current, hs.version.trans h.version, h.identity hs.identity⟩

variable (E H all) in
theorem growing (hI : ∀ s, I s → Coherent s) :
    GrowingAmong E H all I (Grows all) := by
  constructor
  · rintro s s' hs (⟨o, reply, h⟩ | hfalse)
    · exact performs_grows (hI s hs) h
    · exact hfalse.elim
  · exact fun s o reply s' hs h => performs_grows (hI s hs) h

theorem status_looked (hI : ∀ s, I s → Coherent s) (mustExist : Bool) :
    RunsAmong E H all I (fun _ => True) (runtimeSchemaStatus E H r.spec mustExist)
      (Looked r) := by
  have hgrowing := growing E H all hI
  have hidentity : ∀ a : ℤ, Upward (Grows all) fun s : Database σ T =>
      a = all.applicationId → s.applicationId = all.applicationId :=
    fun a s s' h hs ha => h.identity (hs ha)
  have hknown : ∀ a u : ℤ, Upward (Grows all) fun s : Database σ T =>
      (a = all.applicationId → s.applicationId = all.applicationId) ∧ u ≤ s.userVersion :=
    fun a u => (hidentity a).and fun s s' h hu => hu.trans h.version
  refine Runs.bind (runs_reading hgrowing upward_const (only_act trivial)) fun _ => ?_
  refine Runs.bind (runs_read hgrowing (o := .applicationId) trivial hidentity ?_)
    fun applicationId => ?_
  · rintro s a - - rfl ha
    exact ha
  refine Runs.bind (runs_read hgrowing (o := .userVersion) trivial (hknown applicationId) ?_)
    fun userVersion => ?_
  · rintro s u - hs rfl
    exact ⟨hs, le_rfl⟩
  have hlasts := hknown applicationId userVersion
  refine Runs.bind (runs_reading hgrowing hlasts (only_act trivial)) fun tables => ?_
  refine Runs.bind (runs_reading hgrowing hlasts (only_act trivial)) fun history => ?_
  refine Runs.bind (runs_reading hgrowing hlasts only_check) fun _ => ?_
  refine Runs.bind (runs_reading hgrowing hlasts (only_checkStructure _ _ _ _)) fun _ => ?_
  refine runs_pure ?_
  rintro s - ⟨hid, hversion⟩
  refine ⟨hversion, ?_, hid, ?_⟩
  · simp only [Bool.and_eq_true, beq_iff_eq]
    rintro (hblank | hlegacy)
    · exact hblank.1.2
    · exact hlegacy.2
  · simp only [Bool.and_eq_true, beq_iff_eq, latestVersion_spec]
    exact fun hready => hready.1

theorem verify_runs (hI : ∀ s, I s → Coherent s) :
    RunsAmong E H all I (fun _ => True) (verifyRuntimeDatabase E H r.spec) (Verified r) := by
  have hgrowing := growing E H all hI
  refine Runs.bind (status_looked hI true) fun status => ?_
  by_cases hready : status.ready = false
  · simp only [if_pos hready]
    exact runs_throw fun _ _ _ => trivial
  · simp only [if_neg hready]
    have htrue : status.ready = true := by simpa using hready
    refine Runs.bind (runs_reading hgrowing upward_looked (only_act trivial)) fun _ => ?_
    refine Runs.bind (runs_reading hgrowing upward_looked (only_act trivial)) fun quick => ?_
    refine Runs.bind (runs_reading hgrowing upward_looked (only_act trivial)) fun foreign => ?_
    by_cases hcheck : quick = false ∨ foreign = true
    · simp only [if_pos hcheck]
      exact runs_throw fun _ _ _ => trivial
    · simp only [if_neg hcheck]
      refine runs_pure fun s _ hs => ?_
      obtain ⟨hidentity, hversion⟩ := hs.ready htrue
      exact ⟨htrue, hversion, hversion ▸ hs.version, hs.identity hidentity⟩

/-- The database is the one of the start, or lies ahead of it. -/
structure Ahead (E : Engine σ κ T) (H : Host) (all : DatabaseSpec) (d s : Database σ T) : Prop where
  coherent : Coherent s
  moved : s = d ∨ Migrated E H all d s

omit [DecidableEq κ] in
theorem Ahead.step {s s' : Database σ T} {first : ℤ} (h : Ahead E H all d s)
    (hadvanced : Advanced E H r first s s') (hseen : first ≤ s.userVersion + 1)
    (hfirst : first ≤ r.version) : Ahead E H all d s' := by
  obtain ⟨hcoherent, hmigrated⟩ := hadvanced.migrated h.coherent hseen hfirst
  refine ⟨hcoherent, .inr ?_⟩
  rcases h.moved with rfl | hmoved
  · exact hmigrated
  · exact hmoved.trans hmigrated

theorem Looked.first_le {status : SchemaStatus T} {s : Database σ T} (h : Looked r status s) :
    firstVersion status ≤ s.userVersion + 1 := by
  have hversion := h.version
  unfold firstVersion
  by_cases hfresh : status.blank = true ∨ status.legacyAdoptionRequired = true
  · have hzero := h.unversioned hfresh
    rw [if_pos hfresh]
    omega
  · rw [if_neg hfresh]
    omega

theorem first_known {status : SchemaStatus T}
    (hsafe : ¬(status.blank = false ∧ status.legacyAdoptionRequired = false ∧
      ¬(status.applicationId = r.spec.applicationId ∧ 0 < status.currentVersion ∧
        status.currentVersion < r.spec.latestVersion))) :
    firstVersion status ≤ r.version := by
  have hpositive := r.positive
  unfold firstVersion
  by_cases hfresh : status.blank = true ∨ status.legacyAdoptionRequired = true
  · rw [if_pos hfresh]
    omega
  · rw [if_neg hfresh]
    rw [not_or, Bool.not_eq_true, Bool.not_eq_true] at hfresh
    by_contra hlt
    refine hsafe ⟨hfresh.1, hfresh.2, ?_⟩
    rw [latestVersion_spec]
    omega

theorem migrate_runs (allowLegacyAdoption : Bool) :
    RunsAmong E H all (Ahead E H all d) (fun _ => True)
      (migrateRuntimeDatabase E H r allowLegacyAdoption) (Verified r) := by
  have hI : ∀ s, Ahead E H all d s → Coherent s := fun s hs => hs.coherent
  have hgrowing := growing E H all hI
  refine Runs.bind (status_looked hI false) fun status => ?_
  by_cases hready : status.ready = true
  · simp only [if_pos hready]
    exact (verify_runs hI).strengthen fun _ _ _ => trivial
  simp only [if_neg hready]
  by_cases hadoption : status.legacyAdoptionRequired = true ∧ allowLegacyAdoption = false
  · simp only [if_pos hadoption]
    exact runs_throw fun _ _ _ => trivial
  simp only [if_neg hadoption]
  by_cases hunsafe : status.blank = false ∧ status.legacyAdoptionRequired = false ∧
      ¬(status.applicationId = r.spec.applicationId ∧ 0 < status.currentVersion ∧
        status.currentVersion < r.spec.latestVersion)
  · simp only [if_pos hunsafe]
    exact runs_throw fun _ _ _ => trivial
  simp only [if_neg hunsafe]
  refine Runs.bind (runs_reading hgrowing upward_looked (only_act trivial)) fun _ => ?_
  refine Runs.bind (J := fun _ _ => True) (runs_ask ⟨?_, ?_, ?_⟩) fun _ => ?_
  · intro s reply s' hs hlooked hperform
    rcases performs_migrate hperform with ⟨rfl, -⟩ | hadvanced
    · exact hs
    · exact hs.step hadvanced hlooked.first_le (first_known hunsafe)
  · exact stable_ends (fun _ => stable_const) fun _ => stable_const
  · intro s reply s' _ _ _
    cases reply with
    | ok u => exact trivial
    | error e => exact trivial
  refine Runs.bind (runs_reading hgrowing upward_const (only_act trivial)) fun _ => ?_
  exact verify_runs hI

theorem prepare_runs :
    RunsAmong E H all (Ahead E H all d) (fun _ => True) (prepareRuntimeDatabase E H r)
      (Verified r) := by
  have hI : ∀ s, Ahead E H all d s → Coherent s := fun s hs => hs.coherent
  refine Runs.bind (status_looked hI false) fun status => ?_
  by_cases hblank : status.blank = true
  · simp only [if_pos hblank]
    exact (migrate_runs false).strengthen fun _ _ _ => trivial
  simp only [if_neg hblank]
  by_cases hlegacy : status.legacyAdoptionRequired = true
  · simp only [if_pos hlegacy]
    exact runs_throw fun _ _ _ => trivial
  · simp only [if_neg hlegacy]
    exact (verify_runs hI).strengthen fun _ _ _ => trivial

end Accepted

/-! ## Whole runs -/

section Runs
variable [DecidableEq κ] {E : Engine σ κ T} {H : Host} {all : DatabaseSpec} {d : Database σ T}

/-- A task that ends with `verify_runtime_database`. -/
def Verifies : Task → Prop
  | .status _ => False
  | _ => True

/-- What the status a call returns stands for. -/
def Promises (c : Call all) (status : SchemaStatus T) (s : Database σ T) : Prop :=
  Verifies c.task → Verified c.release status s

theorem call_runs (c : Call all) :
    RunsAmong E H all (Ahead E H all d) (fun _ => True) (c.program E H) (Promises c) := by
  have hI : ∀ s, Ahead E H all d s → Coherent s := fun s hs => hs.coherent
  have hpromised : ∀ {x : MigrationProgram κ T all (SchemaStatus T)},
      RunsAmong E H all (Ahead E H all d) (fun _ => True) x (Verified c.release) →
      RunsAmong E H all (Ahead E H all d) (fun _ => True) x (Promises c) :=
    fun hx => hx.weaken (fun status s _ hs _ => hs) fun _ _ _ _ => trivial
  rcases c with ⟨r, task⟩
  cases task with
  | status mustExist =>
    refine (status_looked (r := r) hI mustExist).weaken ?_ fun _ _ _ _ => trivial
    exact fun status s _ _ hfalse => hfalse.elim
  | verify => exact hpromised (verify_runs hI)
  | migrate allowLegacyAdoption => exact hpromised (migrate_runs allowLegacyAdoption)
  | prepare => exact hpromised prepare_runs

/-- Whatever releases migrate and verify a database at once, it stays as it was or goes through
exactly the versions in between, each of them once; a database that is not admissible is never
touched, and what a call has verified stays true. -/
theorem migrations_forward (E : Engine σ κ T) (H : Host) (all : DatabaseSpec) (d : Database σ T)
    (sys : System (Database σ T) (Call all) (MigrationOp all) (MigrationReply κ T)
      (Except Failure (SchemaStatus T)))
    (h : Reaches (migrating E H all) Unguarded (System.idle d) sys) :
    (sys.state = d ∨ Admissible E H all d ∧ Migrated E H all d sys.state) ∧
      ∀ p ∈ sys.processes, ∀ status, p.program = .done (.ok status) →
        Admissible E H all d ∧
          (Verifies p.call.task → Verified p.call.release status sys.state) := by
  by_cases hd : Admissible E H all d
  · obtain ⟨⟨hahead, -⟩, hended⟩ := sound (M := migrating E H all) call_runs stable_const
      (fun _ _ _ hfalse => hfalse.elim) (Ahead.mk hd.coherent (.inl rfl)) trivial h
    refine ⟨hahead.moved.imp_right fun hmoved => ⟨hd, hmoved⟩, ?_⟩
    intro p hp status hdone
    obtain ⟨i, hi⟩ := List.mem_iff_getElem?.mp hp
    exact ⟨hd, hended i p _ hi hdone⟩
  · obtain ⟨⟨hstate, -⟩, hended⟩ := sound (M := migrating E H all) (call_refused hd) stable_const
      (fun _ _ _ hfalse => hfalse.elim) rfl trivial h
    refine ⟨.inl hstate, ?_⟩
    intro p hp status hdone
    obtain ⟨i, hi⟩ := List.mem_iff_getElem?.mp hp
    exact (hended i p _ hi hdone).elim

end Runs

/-! ### Two processes -/

section Responses
variable [DecidableEq κ] (E : Engine σ κ T) (H : Host) {all : DatabaseSpec}

/-- What an operation gives where nothing fails and the clock reads `now`. -/
def respond (now : T) (s : Database σ T) : (o : MigrationOp all) →
    MigrationReply κ T o × Database σ T
  | .connect _ => (.ok (), s)
  | .applicationId => (.ok s.applicationId, s)
  | .userVersion => (.ok s.userVersion, s)
  | .businessTables => (.ok (E.businessTables s.schema), s)
  | .history => (.ok s.history, s)
  | .signature => (.ok (E.signature s.schema), s)
  | .migrate r first => ran (migrateTransaction E H r.spec (fun _ => now) first) s
  | .journalMode => (.ok (), s)
  | .quickCheck => (.ok true, s)
  | .foreignKeyCheck => (.ok false, s)

theorem performs_respond (now : T) (s : Database σ T) (o : MigrationOp all) :
    Performs E H s o (respond E H now s o).1 (respond E H now s o).2 := by
  cases o with
  | connect mustExist =>
    refine ⟨rfl, ?_⟩
    rintro - e ⟨⟩
  | migrate r first => exact .inl ⟨_, outcome_ran _ s⟩
  | applicationId => exact ⟨rfl, .inl ⟨_, rfl, rfl⟩⟩
  | userVersion => exact ⟨rfl, .inl ⟨_, rfl, rfl⟩⟩
  | businessTables => exact ⟨rfl, .inl ⟨_, rfl, rfl⟩⟩
  | history => exact ⟨rfl, .inl ⟨_, rfl, rfl⟩⟩
  | _ => exact ⟨rfl, .inl ⟨_, rfl, trivial⟩⟩

end Responses

/-- A schema is the `CREATE TABLE IF NOT EXISTS` statements that made its tables. -/
def tableEngine : Engine (List PyStr) PyStr ℕ where
  blank := []
  execute statement schema :=
    some (if statement ∈ schema then schema else schema ++ [statement])
  businessTables schema := schema.map fun statement => (statement.drop 27).takeWhile (· ≠ 40)
  columns schema table :=
    (schema.find? fun statement => (statement.drop 27).takeWhile (· ≠ 40) = table).getD []
  keysAndIndexes _ _ := []
  dated _ := true

def lengthHost : Host where
  sha256 b := [b.length]
  fromisoformat _ := none

/-- A specification whose second version adds a table. -/
def twoVersions : DatabaseSpec where
  kind := py "circuit"
  applicationId := 0x474F4105
  migrations := [[py "CREATE TABLE IF NOT EXISTS a(x)"], [py "CREATE TABLE IF NOT EXISTS b(x)"]]
  legacyAnchorTables := [py "a"]
  versioned := List.cons_ne_nil _ _

def olderRelease : Release twoVersions := ⟨1, Nat.one_pos, Nat.le_succ 1⟩

def newerRelease : Release twoVersions := ⟨2, Nat.le_succ 1, le_rfl⟩

def blankDatabase : Database (List PyStr) ℕ := ⟨0, 0, [], none⟩

/-- Both releases look at the blank database before either migrates, and the older one wins;
the newer one fails, and migrates in a second call. -/
def twoReleases : System (Database (List PyStr) ℕ) (Call twoVersions) (MigrationOp twoVersions)
    (MigrationReply PyStr ℕ) (Except Failure (SchemaStatus ℕ)) :=
  (System.idle blankDatabase).play (migrating tableEngine lengthHost twoVersions).program
    (respond tableEngine lengthHost)
    ([.start ⟨newerRelease, .migrate false⟩, .start ⟨olderRelease, .migrate false⟩,
      .start ⟨newerRelease, .migrate false⟩] ++ List.replicate 6 (.act 0 1) ++
        List.replicate 17 (.act 1 1) ++ [.act 0 1] ++ List.replicate 18 (.act 2 1))

theorem migrations_forward_twoReleases : twoReleases.state.userVersion = 2 ∧
    (twoReleases.state = blankDatabase ∨ Admissible tableEngine lengthHost twoVersions
      blankDatabase ∧ Migrated tableEngine lengthHost twoVersions blankDatabase
        twoReleases.state) ∧
      ∀ p ∈ twoReleases.processes, ∀ status, p.program = .done (.ok status) →
        Admissible tableEngine lengthHost twoVersions blankDatabase ∧
          (Verifies p.call.task → Verified p.call.release status twoReleases.state) :=
  ⟨by decide +kernel, migrations_forward tableEngine lengthHost twoVersions blankDatabase
    twoReleases (reaches_play (performs_respond tableEngine lengthHost) _)⟩

end MigrationRuns
