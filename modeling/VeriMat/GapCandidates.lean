import VeriMat.GapNarration
import VeriMat.Grouping

/-! # Gap candidates

`survey/gaps.py` before any model is asked: the admitted relations folded into the cells of a
coverage matrix, the five detectors that read the cells, and the bound on what each of them may
report. -/
namespace GapCandidates

open PyText JsonText PyValue PyDict KeyedRecords Grouping Events SurveyRecords RelationExtraction
open Verification (Interpreter)
open DecisionGraph (Payload)

variable {F : Type}

/-! ## Cells -/

/-- Material, structural feature and property. -/
abbrev CoverageKey := PyStr × PyStr × PyStr

/-- `casefold`. -/
def casefold (I : Interpreter) (text : PyStr) : PyStr := text.flatMap I.casefold

/-- `coverage_key`. -/
def coverageKey (I : Interpreter) (r : ExtractedRelation) : CoverageKey :=
  (casefold I r.material, casefold I r.structuralFeature, r.propertyName)

structure CoverageCell where
  material : PyStr
  structuralFeature : PyStr
  propertyName : PyStr
  relationIds : List PyStr
  passageIds : List PyStr
  docIds : List PyStr
  directions : List PyStr
  methods : List PyStr
  nWithValue : ℕ
  nWithTemperature : ℕ

/-- `key`. -/
def CoverageCell.key (c : CoverageCell) : CoverageKey :=
  (c.material, c.structuralFeature, c.propertyName)

/-- `sorted(set(values))`. -/
def sortedSet (values : List PyStr) : List PyStr := values.dedup.insertionSort (· ≤ ·)

/-- The documents of these passages, of those that are in the corpus. -/
def docIdsOf (corpus : SurveyCorpus F) (passageIds : List PyStr) : List PyStr :=
  distinct ((passageIds.filterMap corpus.passages.get).map (·.docId))

/-- The cell of relations with one key. -/
def coverageCell (corpus : SurveyCorpus F) (key : CoverageKey)
    (relations : List ExtractedRelation) : CoverageCell :=
  let passageIds := distinct (relations.map (·.passageId))
  { material := key.1
    structuralFeature := key.2.1
    propertyName := key.2.2
    relationIds := relations.map (·.relationId)
    passageIds
    docIds := docIdsOf corpus passageIds
    directions := sortedSet (relations.map (·.direction))
    methods := sortedSet (relations.map (·.method))
    nWithValue := relations.countP fun r => !isBlank r.value
    nWithTemperature := relations.countP fun r => !isBlank r.temperatureK }

/-- `coverage_matrix`. -/
def coverageMatrix (I : Interpreter) (result : ExtractionResult) (corpus : SurveyCorpus F) :
    Dict CoverageKey CoverageCell :=
  mapItems (coverageCell corpus) (groupBy (coverageKey I) (sortedValues result.relations))

/-- `[cells[key] for key in sorted(cells)]`. -/
def orderedCells (cells : Dict CoverageKey CoverageCell) : List CoverageCell :=
  (cells.items.insertionSort fun a b =>
    toLex (a.1.1, toLex a.1.2) ≤ toLex (b.1.1, toLex b.1.2)).map Prod.snd

/-! ## Candidates -/

/-- A `GapCandidate` with the count it is sorted by. -/
structure GapCandidate (F : Type) extends GapNarration.GapCandidate F where
  nDocuments : ℕ

/-- `_KIND_ORDER.get(kind, 99)`. -/
def kindOrder (kind : PyStr) : ℕ :=
  if kind = py "contradictory_evidence" then 0
  else if kind = py "missing_condition" then 1
  else if kind = py "unvalidated_mechanism" then 2
  else if kind = py "single_source" then 3
  else if kind = py "unexplored_combination" then 4
  else 99

abbrev SortKey := ℕ ×ₗ ℤ ×ₗ PyStr

/-- `sort_key`. -/
def GapCandidate.sortKey [PyFloat F] (I : Interpreter) (c : GapCandidate F) : Checked SortKey :=
  (c.candidateId I).map fun id => toLex (kindOrder c.kind, toLex (-(c.nDocuments : ℤ), id))

/-- The `subject` of a candidate about a cell, or about a hole where one would be. -/
def subjectOf (key : CoverageKey) : Dict PyStr PyStr :=
  ⟨[(py "material", key.1), (py "structural_feature", key.2.1), (py "property_name", key.2.2)],
    by
      change [py "material", py "structural_feature", py "property_name"].Nodup
      decide⟩

/-! ## Detectors -/

/-- A member of an `evidence` dict. -/
def fact (name : PyStr) (value : PyVal F) : PyKey F × PyVal F := (.str name, value)

def texts (values : List PyStr) : PyVal F := .list (values.map .str)

/-- What a detector makes of a cell. -/
def CoverageCell.candidate (cell : CoverageCell) (kind : PyStr) (evidence : Payload F)
    (nDocuments : ℕ) : GapCandidate F where
  kind
  subject := subjectOf cell.key
  evidence
  relationIds := cell.relationIds
  passageIds := cell.passageIds
  nDocuments

/-- `_OPPOSED`. -/
def opposed : List (PyStr × PyStr) := [(py "increase", py "decrease")]

/-- The pairs of opposed directions that the cell has both of. -/
def CoverageCell.clashes (cell : CoverageCell) : List (PyStr × PyStr) :=
  opposed.filter fun pair => pair.1 ∈ cell.directions ∧ pair.2 ∈ cell.directions

/-- `_contradictions`. -/
def contradictions (cells : List CoverageCell) : List (GapCandidate F) :=
  (cells.filter fun cell => cell.clashes ≠ [] ∧ 2 ≤ cell.docIds.length).map fun cell =>
    cell.candidate (py "contradictory_evidence")
      [fact (py "opposed_directions") (.list (cell.clashes.map fun pair =>
          texts [pair.1, pair.2])),
        fact (py "n_sources") (.int cell.docIds.length),
        fact (py "methods_present") (texts cell.methods)]
      cell.docIds.length

/-- `_single_source`. -/
def singleSource (cells : List CoverageCell) : List (GapCandidate F) :=
  (cells.filter fun cell => cell.docIds.length = 1).map fun cell =>
    cell.candidate (py "single_source")
      [fact (py "n_sources") (.int 1), fact (py "directions") (texts cell.directions),
        fact (py "methods_present") (texts cell.methods),
        fact (py "n_relations") (.int cell.relationIds.length)]
      1

/-- `_missing_condition`. -/
def missingCondition (cells : List CoverageCell) : List (GapCandidate F) :=
  (cells.filter fun cell => cell.nWithValue ≠ 0 ∧ cell.nWithTemperature = 0).map fun cell =>
    cell.candidate (py "missing_condition")
      [fact (py "n_relations_with_value") (.int cell.nWithValue),
        fact (py "n_relations_with_temperature") (.int 0),
        fact (py "missing_condition") (.str (py "temperature")),
        fact (py "n_sources") (.int cell.docIds.length)]
      cell.docIds.length

/-- `_unvalidated_mechanism`. -/
def unvalidatedMechanism (cells : List CoverageCell) : List (GapCandidate F) :=
  (cells.filter fun cell => py "experiment" ∉ cell.methods ∧
      ∃ method ∈ cell.methods, method ∈ [py "dft", py "simulation", py "review"]).map fun cell =>
    cell.candidate (py "unvalidated_mechanism")
      [fact (py "methods_present") (texts cell.methods),
        fact (py "experimental_confirmation") (.bool false),
        fact (py "n_sources") (.int cell.docIds.length)]
      cell.docIds.length

/-! ## Unexplored combinations -/

/-- `MIN_AXIS_SUPPORT`. -/
def minAxisSupport : ℕ := 2

/-- `owners.setdefault(owner(cell), set()).add(other(cell))` for every cell; a set is kept
sorted. -/
def axis (owner other : CoverageCell → PyStr) (population : List CoverageCell) :
    Dict PyStr (List PyStr) :=
  mapItems (fun _ cells => sortedSet (cells.map other)) (groupBy owner population)

/-- The names of an axis with enough on the other one. -/
def supported (names : Dict PyStr (List PyStr)) : List PyStr :=
  ((names.items.filter fun p => minAxisSupport ≤ p.2.length).map Prod.fst).insertionSort (· ≤ ·)

/-- `cells[key]`. -/
def cellAt (cells : Dict CoverageKey CoverageCell) (key : CoverageKey) : Checked CoverageCell :=
  match cells.get key with
  | none => .error .keyError
  | some cell => .ok cell

/-- The candidate of a material and a feature that are not studied together. -/
def holeCandidate (cells : Dict CoverageKey CoverageCell) (propertyName : PyStr)
    (featuresOf materialsOf : Dict PyStr (List PyStr)) (material feature : PyStr) :
    Checked (GapCandidate F) := do
  let features := (featuresOf.get material).getD []
  let materials := (materialsOf.get feature).getD []
  let materialCells ← features.mapM fun other => cellAt cells (material, other, propertyName)
  let featureCells ← materials.mapM fun other => cellAt cells (other, feature, propertyName)
  let axes := materialCells ++ featureCells
  let nDocuments := (axes.flatMap (·.docIds)).dedup.length
  return {
    kind := py "unexplored_combination"
    subject := subjectOf (material, feature, propertyName)
    evidence := [fact (py "material_studied_with") (texts features),
      fact (py "feature_studied_in") (texts materials),
      fact (py "combination_present") (.bool false),
      fact (py "n_sources_on_the_two_axes") (.int nDocuments)]
    relationIds := distinct (axes.flatMap (·.relationIds))
    passageIds := distinct (axes.flatMap (·.passageIds))
    nDocuments }

/-- The pairs of names on the two axes that no cell has. -/
def holes (cells : Dict CoverageKey CoverageCell) (propertyName : PyStr)
    (materials features : List PyStr) : List (PyStr × PyStr) :=
  materials.flatMap fun material =>
    (features.filter fun feature => (cells.get (material, feature, propertyName)).isNone).map
      fun feature => (material, feature)

/-- The candidates of one property. -/
def unexploredOf (cells : Dict CoverageKey CoverageCell) (propertyName : PyStr)
    (population : List CoverageCell) : Checked (List (GapCandidate F)) :=
  let featuresOf := axis (·.material) (·.structuralFeature) population
  let materialsOf := axis (·.structuralFeature) (·.material) population
  (holes cells propertyName (supported featuresOf) (supported materialsOf)).mapM fun hole =>
    holeCandidate cells propertyName featuresOf materialsOf hole.1 hole.2

/-- `_unexplored_combinations`. -/
def unexploredCombinations (cells : Dict CoverageKey CoverageCell) :
    Checked (List (GapCandidate F)) := do
  let byProperty := groupBy (·.propertyName) cells.values
  let found ← (inOrder byProperty).items.mapM fun p => unexploredOf cells p.1 p.2
  return found.flatten

/-! ## The candidates of a corpus -/

/-- What the detectors report, by kind. -/
def batches (cells : Dict CoverageKey CoverageCell) :
    Checked (List (PyStr × List (GapCandidate F))) := do
  let ordered := orderedCells cells
  let unexplored ← unexploredCombinations cells
  return [(py "contradictory_evidence", contradictions ordered),
    (py "single_source", singleSource ordered),
    (py "missing_condition", missingCondition ordered),
    (py "unvalidated_mechanism", unvalidatedMechanism ordered),
    (py "unexplored_combination", unexplored)]

structure CandidateSet (F : Type) where
  candidates : List (GapCandidate F)
  suppressed : Dict PyStr ℤ

/-- `xs[:n]`; a negative bound counts from the end. -/
def sliceTo {α : Type} (xs : List α) (n : ℤ) : List α :=
  if 0 ≤ n then xs.take n.toNat else xs.take (xs.length - n.natAbs)

section Finding
variable [PyFloat F] (I : Interpreter)

/-- `batch.sort(key=lambda item: item.sort_key())`. -/
def sortCandidates (batch : List (GapCandidate F)) : Checked (List (GapCandidate F)) := do
  let keyed ← batch.mapM fun c => do return (← c.sortKey I, c)
  return (keyed.insertionSort fun a b => a.1 ≤ b.1).map Prod.snd

/-- The bound on one kind. -/
def addBatch (maxPerKind : ℤ) (set : CandidateSet F) (entry : PyStr × List (GapCandidate F)) :
    Checked (CandidateSet F) := do
  let batch ← sortCandidates I entry.2
  return {
    candidates := set.candidates ++ sliceTo batch maxPerKind
    suppressed := if maxPerKind < batch.length then
        set.suppressed.set entry.1 (batch.length - maxPerKind)
      else set.suppressed }

/-- `MAX_CANDIDATES_PER_KIND`. -/
def maxCandidatesPerKind : ℤ := 20

/-- `find_candidates`. -/
def findCandidates (maxPerKind : ℤ) (result : ExtractionResult) (corpus : SurveyCorpus F) :
    Checked (CandidateSet F) := do
  let found ← (← batches (coverageMatrix I result corpus)).foldlM (addBatch I maxPerKind)
    ⟨[], empty⟩
  return ⟨← sortCandidates I found.candidates, found.suppressed⟩

end Finding

end GapCandidates
