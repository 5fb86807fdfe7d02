import VeriMat.CoverageMatrix
import VeriMat.Fallible

/-! # Unexplored combinations

The two indices of a property list the other ends of the cells with a material, and of those with
a feature, so every lookup along an axis finds its cell. -/
namespace GapCandidates

open PyText JsonText PyValue PyDict KeyedRecords Grouping Events SurveyRecords RelationExtraction
  Fallible
open Verification (Interpreter)

variable {F : Type}

/-! ## Axes -/

/-- At least `MIN_AXIS_SUPPORT` names have the property. -/
def Supported (present : PyStr → Prop) : Prop :=
  ∃ names : List PyStr, names.Nodup ∧ minAxisSupport ≤ names.length ∧
    ∀ name ∈ names, present name

section Axis
variable {owner other : CoverageCell → PyStr} {population : List CoverageCell}

theorem get_axis (name : PyStr) : (axis owner other population).get name =
    if withKey owner population name = [] then none
    else some (sortedSet ((withKey owner population name).map other)) := by
  rw [axis, get_mapItems, get_groupBy]
  by_cases h : withKey owner population name = []
  · rw [if_pos h, if_pos h]
    rfl
  · rw [if_neg h, if_neg h]
    rfl

/-- What the axis lists for a name; nothing if it does not have it. -/
def onAxis (owner other : CoverageCell → PyStr) (population : List CoverageCell)
    (name : PyStr) : List PyStr :=
  ((axis owner other population).get name).getD []

theorem onAxis_eq (name : PyStr) : onAxis owner other population name =
    sortedSet ((withKey owner population name).map other) := by
  rw [onAxis, get_axis]
  by_cases h : withKey owner population name = []
  · rw [if_pos h, h]
    rfl
  · rw [if_neg h]
    rfl

theorem mem_onAxis {name end' : PyStr} : end' ∈ onAxis owner other population name ↔
    ∃ cell ∈ population, owner cell = name ∧ other cell = end' := by
  rw [onAxis_eq, mem_sortedSet, List.mem_map]
  simp only [mem_withKey, and_assoc]

theorem nodup_onAxis (name : PyStr) : (onAxis owner other population name).Nodup := by
  rw [onAxis_eq]
  exact nodup_sortedSet _

theorem mem_supported {name : PyStr} : name ∈ supported (axis owner other population) ↔
    Supported fun end' => ∃ cell ∈ population, owner cell = name ∧ other cell = end' := by
  rw [supported, List.mem_insertionSort, List.mem_map]
  constructor
  · rintro ⟨p, hp, rfl⟩
    obtain ⟨hmem, hlength⟩ := List.mem_filter.mp hp
    have hends : onAxis owner other population p.1 = p.2 := by
      rw [onAxis, Dict.get_eq_some.mpr hmem]
      rfl
    refine ⟨p.2, hends ▸ nodup_onAxis p.1, of_decide_eq_true hlength, fun end' hend => ?_⟩
    exact mem_onAxis.mp (hends.symm ▸ hend)
  · rintro ⟨names, hnodup, hlength, hpresent⟩
    have hsub : names ⊆ onAxis owner other population name := fun end' hend =>
      mem_onAxis.mpr (hpresent end' hend)
    have hle := (List.subperm_of_subset hnodup hsub).length_le
    cases hget : (axis owner other population).get name with
    | none =>
      have hnone : onAxis owner other population name = [] := by
        rw [onAxis, hget]
        rfl
      rw [hnone] at hle
      exact absurd (hlength.trans hle) (by decide)
    | some ends =>
      have hends : onAxis owner other population name = ends := by
        rw [onAxis, hget]
        rfl
      refine ⟨(name, ends), List.mem_filter.mpr ⟨Dict.get_eq_some.mp hget, ?_⟩, rfl⟩
      exact decide_eq_true (hlength.trans (hends ▸ hle))

theorem nodup_supported : (supported (axis owner other population)).Nodup := by
  rw [supported, (List.perm_insertionSort _ _).nodup_iff]
  exact (axis owner other population).nodup.sublist (List.filter_sublist.map Prod.fst)

end Axis

/-! ## Cells of one property -/

/-- Every cell is under the key it knows. -/
def Placed (cells : Dict CoverageKey CoverageCell) : Prop :=
  ∀ key cell, cells.get key = some cell → cell.key = key

section Cells
variable {cells : Dict CoverageKey CoverageCell}

theorem placed_coverageMatrix (I : Interpreter) (result : ExtractionResult)
    (corpus : SurveyCorpus F) : Placed (coverageMatrix I result corpus) :=
  fun _ _ => key_of_get

/-- The cells of a property. -/
def population (cells : Dict CoverageKey CoverageCell) (propertyName : PyStr) :
    List CoverageCell :=
  withKey (·.propertyName) cells.values propertyName

theorem mem_population (h : Placed cells) {propertyName : PyStr} {cell : CoverageCell} :
    cell ∈ population cells propertyName ↔
      cells.get cell.key = some cell ∧ cell.propertyName = propertyName := by
  rw [population, mem_withKey, Dict.mem_values]
  apply and_congr_left
  intro _
  constructor
  · rintro ⟨key, hget⟩
    rw [h key cell hget]
    exact hget
  · exact fun hget => ⟨_, hget⟩

/-- The population has a cell with these two coordinates exactly when the matrix has it. -/
theorem exists_in_population (h : Placed cells) {material feature propertyName : PyStr} :
    (∃ cell ∈ population cells propertyName, cell.material = material ∧
      cell.structuralFeature = feature) ↔
    (cells.get (material, feature, propertyName)).isSome := by
  constructor
  · rintro ⟨cell, hcell, rfl, rfl⟩
    obtain ⟨hget, rfl⟩ := (mem_population h).mp hcell
    exact Option.isSome_iff_exists.mpr ⟨cell, hget⟩
  · intro hsome
    obtain ⟨cell, hget⟩ := Option.isSome_iff_exists.mp hsome
    have hkey := h _ _ hget
    obtain ⟨hm, hrest⟩ := Prod.mk.inj hkey
    obtain ⟨hf, hp⟩ := Prod.mk.inj hrest
    refine ⟨cell, (mem_population h).mpr ⟨hkey ▸ hget, hp⟩, hm, hf⟩

theorem cellAt_eq_ok {key : CoverageKey} {cell : CoverageCell} :
    cellAt cells key = .ok cell ↔ cells.get key = some cell := by
  unfold cellAt
  cases cells.get key with
  | none => simp
  | some c => simp

/-! ## Holes -/

/-- No cell, between two supported axes. -/
structure IsHole (cells : Dict CoverageKey CoverageCell) (key : CoverageKey) : Prop where
  absent : cells.get key = none
  features : Supported fun feature => (cells.get (key.1, feature, key.2.2)).isSome
  materials : Supported fun material => (cells.get (material, key.2.1, key.2.2)).isSome

/-- The two axes of a place. -/
def OnAxes (key key' : CoverageKey) : Prop :=
  key'.2.2 = key.2.2 ∧ (key'.1 = key.1 ∨ key'.2.1 = key.2.1)

/-- The candidate cites what the cells on its axes hold, each once. -/
structure Cites (cells : Dict CoverageKey CoverageCell) (key : CoverageKey)
    (c : GapCandidate F) : Prop where
  relations_nodup : c.relationIds.Nodup
  passages_nodup : c.passageIds.Nodup
  relations : ∀ id, id ∈ c.relationIds ↔
    ∃ key' cell, OnAxes key key' ∧ cells.get key' = some cell ∧ id ∈ cell.relationIds
  passages : ∀ id, id ∈ c.passageIds ↔
    ∃ key' cell, OnAxes key key' ∧ cells.get key' = some cell ∧ id ∈ cell.passageIds

/-- The candidate reports the hole at this place. -/
def Reports (cells : Dict CoverageKey CoverageCell) (key : CoverageKey)
    (c : GapCandidate F) : Prop :=
  c.kind = py "unexplored_combination" ∧ c.subject = subjectOf key ∧ Cites cells key c

/-- `features_by_material` of a property. -/
def featuresOf (cells : Dict CoverageKey CoverageCell) (propertyName : PyStr) :
    Dict PyStr (List PyStr) :=
  axis (·.material) (·.structuralFeature) (population cells propertyName)

/-- `materials_by_feature` of a property. -/
def materialsOf (cells : Dict CoverageKey CoverageCell) (propertyName : PyStr) :
    Dict PyStr (List PyStr) :=
  axis (·.structuralFeature) (·.material) (population cells propertyName)

theorem mem_featuresOf (h : Placed cells) {material feature propertyName : PyStr} :
    feature ∈ ((featuresOf cells propertyName).get material).getD [] ↔
      (cells.get (material, feature, propertyName)).isSome :=
  mem_onAxis.trans (exists_in_population h)

theorem mem_materialsOf (h : Placed cells) {material feature propertyName : PyStr} :
    material ∈ ((materialsOf cells propertyName).get feature).getD [] ↔
      (cells.get (material, feature, propertyName)).isSome := by
  refine mem_onAxis.trans (Iff.trans ?_ (exists_in_population h))
  simp only [and_comm]

/-- The lookups along an axis find the cells on it. -/
theorem exists_cells {names : List PyStr} (place : PyStr → CoverageKey)
    (h : ∀ name, name ∈ names ↔ (cells.get (place name)).isSome) :
    ∃ found, names.mapM (fun name => cellAt cells (place name)) = .ok found ∧
      ∀ cell, cell ∈ found ↔ ∃ name, cells.get (place name) = some cell := by
  have hall : ∀ name ∈ names, ∃ cell, cellAt cells (place name) = .ok cell ∧ True := by
    intro name hname
    obtain ⟨cell, hcell⟩ := Option.isSome_iff_exists.mp ((h name).mp hname)
    exact ⟨cell, cellAt_eq_ok.mpr hcell, trivial⟩
  obtain ⟨found, hfound, _⟩ := exists_mapM hall
  refine ⟨found, hfound, fun cell => ?_⟩
  rw [mem_of_mapM hfound]
  constructor
  · rintro ⟨name, _, hcell⟩
    exact ⟨name, cellAt_eq_ok.mp hcell⟩
  · rintro ⟨name, hcell⟩
    exact ⟨name, (h name).mpr (Option.isSome_iff_exists.mpr ⟨cell, hcell⟩), cellAt_eq_ok.mpr hcell⟩

theorem holeCandidate_spec (h : Placed cells) (material feature propertyName : PyStr) :
    ∃ c : GapCandidate F, holeCandidate cells propertyName (featuresOf cells propertyName)
      (materialsOf cells propertyName) material feature = .ok c ∧
        Reports cells (material, feature, propertyName) c := by
  obtain ⟨materialCells, hmaterial, hmem⟩ := exists_cells
    (fun other => (material, other, propertyName)) fun _ => mem_featuresOf h
  obtain ⟨featureCells, hfeature, hmem'⟩ := exists_cells
    (fun other => (other, feature, propertyName)) fun _ => mem_materialsOf h
  -- the cells looked up are those on the two axes
  have hcells : ∀ (ids : CoverageCell → List PyStr) (id : PyStr),
      id ∈ distinct ((materialCells ++ featureCells).flatMap ids) ↔
        ∃ key' cell, OnAxes (material, feature, propertyName) key' ∧
          cells.get key' = some cell ∧ id ∈ ids cell := by
    intro ids id
    rw [mem_distinct, List.mem_flatMap]
    constructor
    · rintro ⟨cell, hcell, hid⟩
      rcases List.mem_append.mp hcell with hcell | hcell
      · obtain ⟨other, hget⟩ := (hmem cell).mp hcell
        exact ⟨(material, other, propertyName), cell, ⟨rfl, .inl rfl⟩, hget, hid⟩
      · obtain ⟨other, hget⟩ := (hmem' cell).mp hcell
        exact ⟨(other, feature, propertyName), cell, ⟨rfl, .inr rfl⟩, hget, hid⟩
    · rintro ⟨⟨m, f, p⟩, cell, ⟨hp, haxis⟩, hget, hid⟩
      change p = propertyName at hp
      subst hp
      refine ⟨cell, List.mem_append.mpr ?_, hid⟩
      rcases haxis with hm | hf
      · change m = material at hm
        subst hm
        exact .inl ((hmem cell).mpr ⟨f, hget⟩)
      · change f = feature at hf
        subst hf
        exact .inr ((hmem' cell).mpr ⟨m, hget⟩)
  refine ⟨_, bind_eq_ok.mpr ⟨materialCells, hmaterial,
    bind_eq_ok.mpr ⟨featureCells, hfeature, rfl⟩⟩, rfl, rfl, ?_⟩
  exact ⟨nodup_distinct _, nodup_distinct _, hcells (·.relationIds), hcells (·.passageIds)⟩

/-- The places of the holes of a property, in the order of the loops. -/
def holeKeys (cells : Dict CoverageKey CoverageCell) (propertyName : PyStr) :
    List CoverageKey :=
  (holes cells propertyName (supported (featuresOf cells propertyName))
    (supported (materialsOf cells propertyName))).map fun hole => (hole.1, hole.2, propertyName)

theorem mem_holeKeys (h : Placed cells) {propertyName : PyStr} {key : CoverageKey} :
    key ∈ holeKeys cells propertyName ↔ key.2.2 = propertyName ∧ IsHole cells key := by
  obtain ⟨material, feature, property⟩ := key
  have hmaterials : ∀ p, material ∈ supported (featuresOf cells p) ↔
      Supported fun other => (cells.get (material, other, p)).isSome := by
    intro p
    rw [featuresOf, mem_supported]
    simp only [exists_in_population h]
  have hfeatures : ∀ p, feature ∈ supported (materialsOf cells p) ↔
      Supported fun other => (cells.get (other, feature, p)).isSome := by
    intro p
    rw [materialsOf, mem_supported]
    simp only [← exists_in_population h, and_comm]
  simp only [holeKeys, holes, List.mem_map, List.mem_flatMap, List.mem_filter,
    Option.isNone_iff_eq_none, Prod.exists, Prod.mk.injEq]
  constructor
  · rintro ⟨m, f, ⟨m', hm, f', ⟨hf, hnone⟩, rfl, rfl⟩, rfl, rfl, rfl⟩
    exact ⟨rfl, hnone, (hmaterials _).mp hm, (hfeatures _).mp hf⟩
  · rintro ⟨rfl, hnone, hm, hf⟩
    exact ⟨_, _, ⟨_, (hmaterials _).mpr hm, _, ⟨(hfeatures _).mpr hf, hnone⟩, rfl, rfl⟩, rfl, rfl,
      rfl⟩

theorem nodup_holeKeys (propertyName : PyStr) : (holeKeys cells propertyName).Nodup := by
  refine List.Nodup.map (fun a b hab => ?_) ?_
  · simp only [Prod.mk.injEq, and_true] at hab
    exact Prod.ext hab.1 hab.2
  · refine List.nodup_flatMap.mpr ⟨fun material _ => ?_, ?_⟩
    · exact (nodup_supported.filter _).map fun _ _ hab => (Prod.mk.inj hab).2
    · refine List.Nodup.pairwise_of_forall_ne nodup_supported fun m _ m' _ hne => ?_
      intro hole hhole hhole'
      obtain ⟨_, _, rfl⟩ := List.mem_map.mp hhole
      obtain ⟨_, _, heq⟩ := List.mem_map.mp hhole'
      exact hne (Prod.mk.inj heq).1.symm

theorem unexploredOf_spec (h : Placed cells) (propertyName : PyStr) :
    ∃ found : List (GapCandidate F),
      unexploredOf cells propertyName (population cells propertyName) = .ok found ∧
        List.Forall₂ (Reports cells) (holeKeys cells propertyName) found := by
  have hholes : ∀ hole ∈ holes cells propertyName (supported (featuresOf cells propertyName))
      (supported (materialsOf cells propertyName)), ∃ c : GapCandidate F,
        holeCandidate cells propertyName (featuresOf cells propertyName)
          (materialsOf cells propertyName) hole.1 hole.2 = .ok c ∧
          Reports cells (hole.1, hole.2, propertyName) c :=
    fun hole _ => holeCandidate_spec h hole.1 hole.2 propertyName
  obtain ⟨found, hfound, hreports⟩ := exists_mapM hholes
  exact ⟨found, hfound, List.forall₂_map_left_iff.mpr hreports⟩

/-- The properties of the matrix, in order. -/
def properties (cells : Dict CoverageKey CoverageCell) : List PyStr :=
  (inOrder (groupBy (·.propertyName) cells.values)).items.map Prod.fst

theorem nodup_properties : (properties cells).Nodup := (inOrder _).nodup

theorem mem_properties {propertyName : PyStr} :
    propertyName ∈ properties cells ↔ ∃ cell ∈ cells.values, cell.propertyName = propertyName := by
  rw [properties, List.mem_map]
  constructor
  · rintro ⟨p, hp, rfl⟩
    obtain ⟨hgroup, hne⟩ := mem_groupBy.mp ((items_inOrder _).mem_iff.mp hp)
    obtain ⟨cell, hcell⟩ := List.exists_mem_of_ne_nil _ hne
    rw [hgroup] at hcell
    exact ⟨cell, mem_withKey.mp hcell⟩
  · rintro ⟨cell, hcell, rfl⟩
    have hmem : cell ∈ withKey (·.propertyName) cells.values cell.propertyName :=
      mem_withKey.mpr ⟨hcell, rfl⟩
    exact ⟨(cell.propertyName, _), (items_inOrder _).mem_iff.mpr
      (mem_groupBy.mpr ⟨rfl, List.ne_nil_of_mem hmem⟩), rfl⟩

/-- The places of all holes. -/
def allHoles (cells : Dict CoverageKey CoverageCell) : List CoverageKey :=
  (properties cells).flatMap (holeKeys cells)

theorem mem_allHoles (h : Placed cells) {key : CoverageKey} :
    key ∈ allHoles cells ↔ IsHole cells key := by
  rw [allHoles, List.mem_flatMap]
  constructor
  · rintro ⟨p, _, hkey⟩
    exact ((mem_holeKeys h).mp hkey).2
  · intro hhole
    obtain ⟨names, _, hlength, hpresent⟩ := hhole.features
    have hne : names ≠ [] := by
      rintro rfl
      exact absurd hlength (by decide)
    obtain ⟨feature, hfeature⟩ := List.exists_mem_of_ne_nil names hne
    obtain ⟨cell, hcell, _⟩ := (exists_in_population h).mpr (hpresent feature hfeature)
    exact ⟨key.2.2, mem_properties.mpr ⟨cell, mem_withKey.mp hcell⟩,
      (mem_holeKeys h).mpr ⟨rfl, hhole⟩⟩

theorem nodup_allHoles (h : Placed cells) : (allHoles cells).Nodup := by
  refine List.nodup_flatMap.mpr ⟨fun p _ => nodup_holeKeys p, ?_⟩
  refine List.Nodup.pairwise_of_forall_ne nodup_properties fun p _ p' _ hne key hkey hkey' => ?_
  exact hne (((mem_holeKeys h).mp hkey).1.symm.trans ((mem_holeKeys h).mp hkey').1)

theorem unexploredCombinations_spec (h : Placed cells) :
    ∃ found : List (GapCandidate F), unexploredCombinations cells = .ok found ∧
      List.Forall₂ (Reports cells) (allHoles cells) found := by
  have hgroups : ∀ p ∈ (inOrder (groupBy (·.propertyName) cells.values)).items,
      p.2 = population cells p.1 := fun p hp =>
    (mem_groupBy.mp ((items_inOrder _).mem_iff.mp hp)).1
  have hfound : ∀ p ∈ (inOrder (groupBy (·.propertyName) cells.values)).items,
      ∃ found : List (GapCandidate F), unexploredOf cells p.1 p.2 = .ok found ∧
        List.Forall₂ (Reports cells) (holeKeys cells p.1) found := by
    intro p hp
    rw [hgroups p hp]
    exact unexploredOf_spec h p.1
  obtain ⟨batches, hbatches, hreports⟩ := exists_mapM hfound
  refine ⟨batches.flatten, bind_eq_ok.mpr ⟨batches, hbatches, rfl⟩, ?_⟩
  rw [allHoles, List.flatMap_def, properties, List.map_map]
  exact List.rel_flatten (List.forall₂_map_left_iff.mpr hreports)

end Cells

/-! ## The detector -/

/-- It never raises, reports every hole once and nothing else, and cites what is on its axes. -/
theorem unexplored_exactly (I : Interpreter) (result : ExtractionResult)
    (corpus : SurveyCorpus F) :
    ∃ found : List (GapCandidate F),
      unexploredCombinations (coverageMatrix I result corpus) = .ok found ∧
        (found.map (·.subject)).Nodup ∧
        (∀ key, (∃ c ∈ found, c.subject = subjectOf key) ↔
          IsHole (coverageMatrix I result corpus) key) ∧
        ∀ c ∈ found, ∃ key, Reports (coverageMatrix I result corpus) key c := by
  have hplaced := placed_coverageMatrix I result corpus
  obtain ⟨found, hfound, hreports⟩ := unexploredCombinations_spec (F := F) hplaced
  have hsubjects : found.map (·.subject) =
      (allHoles (coverageMatrix I result corpus)).map subjectOf := by
    have hsame : List.Forall₂ Eq (found.map (·.subject))
        ((allHoles (coverageMatrix I result corpus)).map subjectOf) := by
      rw [List.forall₂_map_left_iff, List.forall₂_map_right_iff]
      exact hreports.flip.imp fun c key h => h.2.1
    rwa [List.forall₂_eq_eq_eq] at hsame
  refine ⟨found, hfound, ?_, fun key => ?_, fun c hc => ?_⟩
  · rw [hsubjects]
    exact (nodup_allHoles hplaced).map fun _ _ h => subjectOf_inj.mp h
  · have hmem : (∃ c ∈ found, c.subject = subjectOf key) ↔
        subjectOf key ∈ found.map (·.subject) := List.mem_map.symm
    rw [hmem, hsubjects, List.mem_map]
    constructor
    · rintro ⟨key', hkey', heq⟩
      rw [← subjectOf_inj.mp heq]
      exact (mem_allHoles hplaced).mp hkey'
    · exact fun hhole => ⟨key, (mem_allHoles hplaced).mpr hhole, rfl⟩
  · obtain ⟨key, _, hreport⟩ := DurablePayload.exists_left hreports hc
    exact ⟨key, hreport⟩

end GapCandidates
