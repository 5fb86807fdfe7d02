import VeriMat.RelationExtraction

/-! # Narration of gaps

`survey/gaps.py`: a model is asked about every gap candidate, may refuse it, and what it answers
passes a gate before it is kept; afterwards the split into known and new gaps is audited. -/
namespace GapNarration

open PyText JsonText PyValue PyDict KeyedRecords PyDisplay Events ModelTransports SurveyRecords
  RelationExtraction
open Verification (Interpreter)
open DecisionGraph (getItem Payload)
open OperationStore (ModelResponse)

variable {F : Type}

/-! ## Candidates -/

/-- A `GapCandidate`, without the count it is sorted by elsewhere. -/
structure GapCandidate (F : Type) where
  kind : PyStr
  subject : Dict PyStr PyStr
  evidence : Payload F
  relationIds : List PyStr
  passageIds : List PyStr

/-- `candidate_id`. -/
def GapCandidate.candidateId [PyFloat F] (I : Interpreter) (c : GapCandidate F) : Checked PyStr :=
  digestId (F := F) I (py "cand") [.str c.kind,
    ofJson (.obj (c.subject.items.map fun p => (p.1, .str p.2))), .list (c.relationIds.map .str)]

/-- What varies in a request: the prompts and the schema are constants. -/
structure GapRequest (F : Type) where
  operationId : PyStr
  candidate : GapCandidate F
  relations : List ExtractedRelation
  passages : List (PyStr × PyStr)

/-! ## Results -/

structure RefusedCandidate where
  candidateId : PyStr
  kind : PyStr
  subject : Dict PyStr PyStr
  reason : PyStr

inductive DropReason where
  | noPassageInCorpus
  | narrationRefused (e : SurveyError)
  | noveltyQuoteNotInAnyPassage
  | contractViolation
  | duplicate
  deriving DecidableEq, Repr

structure DroppedCandidate where
  candidateId : PyStr
  kind : PyStr
  reason : DropReason
  deriving DecidableEq, Repr

structure GapResult where
  gaps : Dict PyStr ResearchGap
  refused : List RefusedCandidate
  dropped : List DroppedCandidate
  calls : ℤ
  tokens : ℤ

/-- `GapResult()`. -/
def GapResult.new : GapResult := ⟨empty, [], [], 0, 0⟩

/-- `result.dropped.append(..)`. -/
def GapResult.drop (result : GapResult) (item : DroppedCandidate) : GapResult :=
  { result with dropped := result.dropped ++ [item] }

/-- A call that was read, with the gap it added to the result. -/
structure Narrated (F : Type) where
  candidate : GapCandidate F
  exposed : Dict PyStr (SurveyPassage F)
  response : ModelResponse
  admitted : List ResearchGap

/-- `GapNarrator`, with what its constructor checks. -/
structure GapNarrator (F : Type) where
  transport : List (Narrated F) → GapRequest F → Except Unit ModelResponse
  maxPassages : ℤ
  maxPassageChars : ℤ
  promptProfile : PyStr
  exposes : 1 ≤ maxPassages
  profiled : isBlank promptProfile = false

/-! ## Exposure -/

/-- `_exposed`, with what is chosen so far. -/
def choose (maxPassages : ℤ) (corpus : SurveyCorpus F) :
    List PyStr → Dict PyStr (SurveyPassage F) → Dict PyStr (SurveyPassage F)
  | [], chosen => chosen
  | passageId :: rest, chosen =>
    if maxPassages ≤ chosen.items.length then chosen
    else
      match corpus.passages.get passageId with
      | none => choose maxPassages corpus rest chosen
      | some passage => choose maxPassages corpus rest (chosen.set passageId passage)

/-- `text[:n]`; a negative bound counts from the end. -/
def headOf (text : PyStr) (n : ℤ) : PyStr :=
  if 0 ≤ n then text.take n.toNat else text.take (text.length - n.natAbs)

/-! ## The gate -/

/-- What becomes of a candidate that was narrated. -/
inductive Judged where
  | refused (reason : PyStr)
  | dropped (reason : DropReason)
  | gap (g : ResearchGap)

/-- `GAP_SCHEMA["required"]`. -/
def gapFields : List PyStr :=
  [py "verdict", py "statement", py "novelty", py "novelty_quote", py "novelty_basis"]

section Narration
variable [PyFloat F] (I : Interpreter) (N : GapNarrator F)

/-- `_parse`. -/
def parseGap (text : PyStr) : Checked (Payload F) := do
  match exactFields gapFields (← rawJson text) with
  | none => .error (.contract .topLevelFields)
  | some value => .ok value

/-- `str(value[name])`. -/
def itemText (value : Payload F) (name : PyStr) : PyStr :=
  strOf I.display ((getItem value name).getD .none)

/-- `value["verdict"] == verdict`. -/
def hasVerdict (value : Payload F) (verdict : PyStr) : Bool :=
  pyEq ((getItem value (py "verdict")).getD .none) (.str verdict)

/-- `_admit`, before the check for a duplicate. -/
def judge (candidate : GapCandidate F) (value : Payload F)
    (exposed : Dict PyStr (SurveyPassage F)) : Checked Judged :=
  if hasVerdict value (py "not_a_gap") then .ok (.refused (itemText I value (py "novelty_basis")))
  else
    let quote := Verification.textOf I value (py "novelty_quote")
    if quote ≠ [] ∧ exposed.values.any (·.supportsQuote I quote) = false then
      .ok (.dropped .noveltyQuoteNotInAnyPassage)
    else do
      let gap ← ResearchGap.build I F candidate.kind (itemText I value (py "statement"))
        (itemText I value (py "novelty")) (itemText I value (py "novelty_basis"))
        candidate.passageIds candidate.relationIds quote
      match gap.validate with
      | .ok _ => .ok (.gap gap)
      | .error (.contract _) => .ok (.dropped .contractViolation)
      | .error e => .error e

/-- `_admit`. -/
def admitGap (candidateId : PyStr) (candidate : GapCandidate F) (value : Payload F)
    (exposed : Dict PyStr (SurveyPassage F)) (result : GapResult) : Checked GapResult := do
  match ← judge I candidate value exposed with
  | .refused reason => .ok { result with
      refused := result.refused ++ [⟨candidateId, candidate.kind, candidate.subject, reason⟩] }
  | .dropped reason => .ok (result.drop ⟨candidateId, candidate.kind, reason⟩)
  | .gap gap =>
    if (result.gaps.get gap.gapId).isSome then
      .ok (result.drop ⟨candidateId, candidate.kind, .duplicate⟩)
    else .ok { result with gaps := result.gaps.set gap.gapId gap }

/-- What a response makes of the result; one that does not parse drops its candidate. -/
def readNarration (candidateId : PyStr) (candidate : GapCandidate F)
    (exposed : Dict PyStr (SurveyPassage F)) (response : ModelResponse) (result : GapResult) :
    Checked GapResult :=
  match parseGap response.text with
  | .error e => .ok (result.drop ⟨candidateId, candidate.kind, .narrationRefused e⟩)
  | .ok value => admitGap I candidateId candidate value exposed result

/-! ## Runs -/

/-- One candidate. -/
def narrateOne (fingerprint : PyStr) (extracted : ExtractionResult) (corpus : SurveyCorpus F)
    (result : GapResult) (candidate : GapCandidate F) : Calling (Narrated F) GapResult := do
  let exposed := choose N.maxPassages corpus candidate.passageIds empty
  let candidateId ← candidate.candidateId I
  if exposed.items = [] then
    return result.drop ⟨candidateId, candidate.kind, .noPassageInCorpus⟩
  let operationId ← digestId (F := F) I (py "op") [.str (py "gap"), .str N.promptProfile,
    .str fingerprint, .str candidateId]
  let request : GapRequest F := ⟨operationId, candidate,
    candidate.relationIds.filterMap extracted.relations.get,
    (inOrder exposed).items.map fun p => (p.1, headOf p.2.text N.maxPassageChars)⟩
  let response ← ask (N.transport · request)
  checkUsage response
  let read ← readNarration I candidateId candidate exposed response { result with
    calls := result.calls + 1
    tokens := result.tokens + (response.inputTokens + response.outputTokens) }
  note ⟨candidate, exposed, response, read.gaps.values.drop result.gaps.values.length⟩
  return read

/-- `sorted(candidates, key=lambda item: item.candidate_id())`. -/
def sortedCandidates (candidates : List (GapCandidate F)) : Checked (List (GapCandidate F)) := do
  let keyed ← candidates.mapM fun c => do return (← c.candidateId I, c)
  return (keyed.insertionSort fun a b => a.1 ≤ b.1).map Prod.snd

/-- `narrate`. -/
def narrate (candidates : List (GapCandidate F)) (extracted : ExtractionResult)
    (corpus : SurveyCorpus F) : Calling (Narrated F) GapResult := do
  corpus.validate I
  let fingerprint ← corpus.topic.fingerprint I F
  let sorted ← sortedCandidates I candidates
  let result ← sorted.foldlM (narrateOne I N fingerprint extracted corpus) .new
  checkTotals result.calls result.tokens
  return result

end Narration

/-! ## The audit -/

inductive NoveltyProblem where
  | knownWithoutAPresentQuote
  | newWithARecognitionQuote
  deriving DecidableEq, Repr

structure NoveltyAudit where
  nKnown : ℕ
  nNew : ℕ
  mismatches : List (PyStr × NoveltyProblem)
  verified : Bool
  deriving DecidableEq, Repr

/-- The problem of a gap, if it has one. -/
def noveltyProblem (I : Interpreter) (corpus : SurveyCorpus F) (gap : ResearchGap) :
    Option NoveltyProblem :=
  let cited := gap.supportingPassages.filterMap corpus.passages.get
  if gap.novelty = py "known" then
    if I.normaliseQuote gap.noveltyQuote = [] ∨
        cited.any (·.supportsQuote I gap.noveltyQuote) = false then
      some .knownWithoutAPresentQuote
    else none
  else if isBlank gap.noveltyQuote = false then some .newWithARecognitionQuote
  else none

/-- `novelty_audit`. -/
def noveltyAudit (I : Interpreter) (outcome : GapResult) (corpus : SurveyCorpus F) :
    NoveltyAudit :=
  let mismatches := (inOrder outcome.gaps).items.filterMap fun p =>
    (noveltyProblem I corpus p.2).map fun problem => (p.1, problem)
  { nKnown := outcome.gaps.values.countP fun gap => gap.novelty = py "known"
    nNew := outcome.gaps.values.countP fun gap => gap.novelty = py "new"
    mismatches
    verified := mismatches.isEmpty }

end GapNarration
