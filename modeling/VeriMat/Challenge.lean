import VeriMat.ModelTransports
import VeriMat.RetrievalSnapshot

/-! # Challenge files

`evaluation/challenge.py`: how a file of JSON lines is read, and what a challenge must look like.
A row is a JSON object. Dates and the folding of case are the platform's. -/
namespace Challenge

open PyText JsonText PyValue PyDisplay Events ModelTransports
open DecisionGraph (Payload getItem isUnset)
open RetrievalCache (splitlines)

/-! ## Vocabularies -/

/-- `COUNTER_RELATIONS`. -/
def counterRelations : List PyStr := [py "CONTRADICTS", py "BOUNDS", py "PRECEDENT_FOR"]

/-- `COUNTER_RELATIONS | {"SUPPORTS"}`. -/
def evidenceRelations : List PyStr := counterRelations ++ [py "SUPPORTS"]

/-- `DECISIONS`. -/
def decisions : List PyStr := [py "SURVIVED", py "NARROWED", py "REFUTED", py "UNRESOLVED"]

/-- `TRACKS`. -/
def tracks : List PyStr := [py "known_answer", py "temporal_holdout"]

/-- `SPLITS`. -/
def splits : List PyStr := [py "development", py "test"]

/-- The fields of a challenge. -/
def challengeFields : List PyStr :=
  [py "schema_version", py "challenge_id", py "benchmark_track", py "split", py "task_family",
    py "leakage_group", py "prompt", py "cutoff_date", py "counterevidence_exists",
    py "expected_decision", py "accepted_evidence", py "construction_provenance"]

/-- The fields of a piece of gold evidence. -/
def goldFields : List PyStr :=
  [py "evidence_id", py "doc_id", py "relation", py "locator", py "content_sha256",
    py "publication_date", py "oracle_scope", py "snapshot_id", py "source_url", py "doi",
    py "license_spdx", py "source_locator"]

/-- `available_by_cutoff`. -/
def available : PyStr := py "available_by_cutoff"

/-- `post_cutoff_validation`. -/
def postCutoff : PyStr := py "post_cutoff_validation"

/-! ## Errors -/

/-- What the text of a `BenchmarkError` says after the place it names. -/
inductive Issue where
  | invalidJson
  | rowNotObject
  | missingFields (fields : List PyStr)
  | badDate
  | locatorNotObject
  | locatorChoice
  | locatorPosition
  | unexpectedChallengeFields
  | versionOrTrack
  | splitOrDecision
  | existenceNotBoolean
  | duplicateChallenge (challengeId : PyStr)
  | evidenceNotArray
  | evidenceNotObject
  | unexpectedEvidenceFields
  | duplicateEvidence (evidenceId : PyStr)
  | evidenceRelation
  | contentHash
  | sourceUrl
  | doi
  | licence
  | oracleScope
  | datedAfterCutoff
  | notAfterCutoff
  | knownAnswerScope
  | labelDisagrees
  | decisionLacksGold
  | provenanceFields
  | curationStatus
  | leakage (groups : List PyStr)
  | taskFields
  | goldLeaked (paths : List PyStr)
  | taskVersion
  | taskIdentifier
  | emptyField (field : PyStr)
  | bundleHash
  | bundleCount
  deriving DecidableEq, Repr

/-- What the code of this benchmark raises. -/
inductive Failure where
  | benchmark (context : PyStr) (issue : Issue)
  | json (cause : JsonError)
  | jsonDecodeError
  | unicodeDecodeError
  | unicodeEncodeError
  | typeError
  | keyError
  | attributeError
  deriving DecidableEq, Repr

abbrev Checked (α : Type) := Except Failure α

/-- `if condition: raise BenchmarkError(f"{context}: ..")`. -/
def refuseIf (c : Prop) [Decidable c] (context : PyStr) (issue : Issue) : Checked Unit :=
  if c then .error (.benchmark context issue) else .ok ()

@[simp] theorem refuseIf_eq_ok {c : Prop} [Decidable c] {context : PyStr} {issue : Issue}
    {u : Unit} : refuseIf c context issue = .ok u ↔ ¬c := by
  unfold refuseIf
  split <;> simp_all

theorem bind_eq_ok {α β : Type} {x : Checked α} {f : α → Checked β} {b : β} :
    (x >>= f) = .ok b ↔ ∃ a, x = .ok a ∧ f a = .ok b := by
  cases x with
  | error e => simp [bind, Except.bind]
  | ok a => simp [bind, Except.bind]

/-! ## Reading -/

/-- A row as `json.loads` reads it. -/
abbrev Row (F : Type) := List (PyStr × Json F)

section Reading
variable {F : Type} [PyFloat F]

/-- The rows of some lines, the first with this number. -/
def readLines (path : PyStr) : ℕ → List PyStr → Checked (List (Row F))
  | _, [] => .ok []
  | number, line :: rest =>
    if isBlank line then readLines path (number + 1) rest
    else
      match loads line with
      | none => .error (.benchmark (path ++ py ":" ++ intText number) .invalidJson)
      | some (.obj row) => (readLines path (number + 1) rest).map (row :: ·)
      | some _ => .error (.benchmark (path ++ py ":" ++ intText number) .rowNotObject)

/-- `_read_jsonl`. -/
def readJsonl (path : PyStr) (file : PyBytes) : Checked (List (Row F)) :=
  match decode file with
  | none => .error .unicodeDecodeError
  | some text => readLines path 1 (splitlines (translateNewlines text))

end Reading

/-! ## Values -/

/-- What the checks take from the platform besides `str` and `str.lower`: `date.fromisoformat`. -/
structure Platform (F D : Type) extends Builtins F where
  date : PyStr → Option D

variable {F D : Type} [PyFloat F]

/-- `value[name]`, for a value with text keys. -/
def subscript (value : PyVal F) (name : PyStr) : Checked (PyVal F) :=
  match value with
  | .dict kvs =>
    match getItem kvs name with
    | some v => .ok v
    | none => .error .keyError
  | _ => .error .typeError

/-- `row[name]`. -/
def field (row : Payload F) (name : PyStr) : Checked (PyVal F) := subscript (.dict row) name

/-- `value in names`, for a set of texts. -/
def isIn (value : PyVal F) (names : List PyStr) : Checked Bool :=
  if canHash value then .ok (names.any fun name => pyEq value (.str name)) else .error .typeError

/-- `set(keys) == names`. -/
def sameNames (keys : List (PyVal F)) (names : List PyStr) : Bool :=
  keys.all (fun key => names.any fun name => pyEq key (.str name)) &&
    names.all fun name => keys.any fun key => pyEq key (.str name)

/-- `_require`. -/
def require (row : Payload F) (fields : List PyStr) (context : PyStr) : Checked Unit :=
  let missing := (fields.filter fun name => isUnset (getItem row name)).insertionSort (· ≤ ·)
  refuseIf (missing ≠ []) context (.missingFields missing)

/-- `_parse_date`. -/
def parseDate (P : Platform F D) (value : PyVal F) (context : PyStr) : Checked D :=
  match P.date (strOf P.toDisplay value) with
  | some d => .ok d
  | none => .error (.benchmark context .badDate)

/-- `_is_sha256`. -/
def isSha256 (P : Platform F D) (value : PyVal F) : Bool := isHash (strOf P.toDisplay value)

/-- The positions a locator gives: `offset`, then `page_no`. -/
def choices (locator : Payload F) : List (PyStr × PyVal F) :=
  [py "offset", py "page_no"].filterMap fun name =>
    (present (getItem locator name)).map fun position => (name, position)

/-- `_locator`. -/
def locator (value : PyVal F) (context : PyStr) : Checked (PyStr × ℤ) :=
  match value with
  | .dict kvs =>
    match choices kvs with
    | [(name, .int position)] =>
      if position < 0 then .error (.benchmark context .locatorPosition) else .ok (name, position)
    | [_] => .error (.benchmark context .locatorPosition)
    | _ => .error (.benchmark context .locatorChoice)
  | _ => .error (.benchmark context .locatorNotObject)

/-! ## Challenges -/

/-- What the rows checked so far have used up: their ids, those of their evidence, and the splits
of their leakage groups. -/
structure Seen where
  ids : List PyStr
  evidenceIds : List PyStr
  leakage : List (PyStr × PyStr)

/-- `challenge[index]`. -/
def challengeContext (index : ℕ) : PyStr := py "challenge[" ++ intText index ++ py "]"

section Challenges
variable [LinearOrder D] (P : Platform F D)

/-- One piece of gold evidence of a challenge of this track and cutoff, with the evidence ids
taken before. -/
def validateGold (track : PyVal F) (cutoff : D) (context : PyStr) (evidenceIds : List PyStr) :
    PyVal F → Checked (List PyStr)
  | .dict gold => do
    require gold goldFields context
    refuseIf (sameNames (gold.map fun p => p.1.toVal) goldFields = false) context
      .unexpectedEvidenceFields
    let evidenceId := strOf P.toDisplay (← field gold (py "evidence_id"))
    refuseIf (evidenceId ∈ evidenceIds) context (.duplicateEvidence evidenceId)
    refuseIf ((← isIn (← field gold (py "relation")) evidenceRelations) = false) context
      .evidenceRelation
    let _ ← locator (← field gold (py "locator")) context
    refuseIf (isSha256 P (← field gold (py "content_sha256")) = false) context .contentHash
    refuseIf (¬py "https://" <+: strOf P.toDisplay (← field gold (py "source_url"))) context
      .sourceUrl
    refuseIf (¬py "10." <+: P.lower (strOf P.toDisplay (← field gold (py "doi")))) context .doi
    refuseIf (pyEq (← field gold (py "license_spdx")) (.str (py "CC-BY-4.0")) = false) context
      .licence
    let publication ← parseDate P (← field gold (py "publication_date")) context
    let scope ← field gold (py "oracle_scope")
    refuseIf ((← isIn scope [available, postCutoff]) = false) context .oracleScope
    refuseIf (pyEq scope (.str available) = true ∧ cutoff < publication) context .datedAfterCutoff
    refuseIf (pyEq scope (.str postCutoff) = true ∧ publication ≤ cutoff) context .notAfterCutoff
    refuseIf (pyEq track (.str (py "known_answer")) = true ∧ pyEq scope (.str available) = false)
      context .knownAnswerScope
    .ok (evidenceIds ++ [evidenceId])
  | _ => .error (.benchmark context .evidenceNotObject)

/-- `f"{context}.accepted_evidence[{ev_index}]"` for every piece in turn. -/
def validateGolds (track : PyVal F) (cutoff : D) (context : PyStr) :
    ℕ → List PyStr → List (PyVal F) → Checked (List PyStr)
  | _, evidenceIds, [] => .ok evidenceIds
  | index, evidenceIds, gold :: golds => do
    let evidenceIds ← validateGold P track cutoff
      (context ++ py ".accepted_evidence[" ++ intText index ++ py "]") evidenceIds gold
    validateGolds track cutoff context (index + 1) evidenceIds golds

/-- `item["oracle_scope"] == "available_by_cutoff"`. -/
def isAvailable : PyVal F → Bool
  | .dict gold => (getItem gold (py "oracle_scope")).any (pyEq · (.str available))
  | _ => false

/-- Some available piece has one of these relations. -/
def hasRelation (golds : List (PyVal F)) (names : List PyStr) : Bool :=
  golds.any fun
    | .dict gold => isAvailable (.dict gold) &&
        (getItem gold (py "relation")).any fun relation => names.any (pyEq relation <| .str ·)
    | _ => false

/-- The relations of which a decision needs one. -/
def requiredRelations (decision : PyVal F) : List PyStr :=
  if pyEq decision (.str (py "SURVIVED")) then [py "SUPPORTS"]
  else if pyEq decision (.str (py "NARROWED")) then [py "BOUNDS"]
  else if pyEq decision (.str (py "REFUTED")) then [py "CONTRADICTS", py "PRECEDENT_FOR"]
  else []

/-- `construction_provenance`. -/
def validateProvenance (context : PyStr) : PyVal F → Checked Unit
  | .dict provenance => do
    refuseIf (sameNames (provenance.map fun p => p.1.toVal)
      [py "source", py "curator", py "status"] = false) context .provenanceFields
    refuseIf ((← isIn (← field provenance (py "status"))
      [py "draft", py "independently_checked", py "frozen"]) = false) context .curationStatus
  | _ => .error (.benchmark context .provenanceFields)

/-- The checks of one row, with what the rows before it have used up. -/
def validateChallenge (seen : Seen) (context : PyStr) (row : Payload F) : Checked Seen := do
  require row challengeFields context
  refuseIf (sameNames (row.map fun p => p.1.toVal) challengeFields = false) context
    .unexpectedChallengeFields
  refuseIf (pyEq (← field row (py "schema_version")) (.int 1) = false) context .versionOrTrack
  let track ← field row (py "benchmark_track")
  refuseIf ((← isIn track tracks) = false) context .versionOrTrack
  let split ← field row (py "split")
  refuseIf ((← isIn split splits) = false) context .splitOrDecision
  let decision ← field row (py "expected_decision")
  refuseIf ((← isIn decision decisions) = false) context .splitOrDecision
  match ← field row (py "counterevidence_exists") with
  | .bool counterevidenceExists =>
    let challengeId := strOf P.toDisplay (← field row (py "challenge_id"))
    refuseIf (challengeId ∈ seen.ids) context (.duplicateChallenge challengeId)
    let group := strOf P.toDisplay (← field row (py "leakage_group"))
    let cutoff ← parseDate P (← field row (py "cutoff_date")) context
    match ← field row (py "accepted_evidence") with
    | .list golds =>
      let evidenceIds ← validateGolds P track cutoff context 0 seen.evidenceIds golds
      refuseIf (counterevidenceExists ≠ hasRelation golds counterRelations) context
        .labelDisagrees
      refuseIf (requiredRelations decision ≠ [] ∧
        hasRelation golds (requiredRelations decision) = false) context .decisionLacksGold
      validateProvenance context (← field row (py "construction_provenance"))
      .ok ⟨seen.ids ++ [challengeId], evidenceIds,
        seen.leakage ++ [(group, strOf P.toDisplay split)]⟩
    | _ => .error (.benchmark context .evidenceNotArray)
  | _ => .error (.benchmark context .existenceNotBoolean)

def validateRows : ℕ → Seen → List (Payload F) → Checked Seen
  | _, seen, [] => .ok seen
  | index, seen, row :: rows => do
    let seen ← validateChallenge P seen (challengeContext index) row
    validateRows (index + 1) seen rows

/-- The groups with rows of more than one split. -/
def Seen.leaked (seen : Seen) : List PyStr :=
  (seen.leakage.filterMap fun p =>
    if seen.leakage.any fun q => q.1 == p.1 && q.2 != p.2 then some p.1 else none).dedup.insertionSort
    (· ≤ ·)

/-- `validate_challenges`. -/
def validateChallenges (rows : List (Payload F)) : Checked Unit := do
  let seen ← validateRows P 0 ⟨[], [], []⟩ rows
  refuseIf (seen.leaked ≠ []) [] (.leakage seen.leaked)

end Challenges

end Challenge
