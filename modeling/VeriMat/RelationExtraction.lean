import VeriMat.CorpusBuild

/-! # Extraction of relations

`survey/extraction.py`: passages are shown to a model in batches, cut to a window, and every
proposal of a response passes gates that involve no model. A transport may answer anything, also
depending on the calls made before. -/
namespace RelationExtraction

open PyText JsonText PyValue PyDict KeyedRecords PyDisplay Events ModelTransports SurveyRecords
open Verification (Interpreter)
open DecisionGraph (getItem Payload)
open OperationStore (ModelResponse)

variable {F : Type}

/-! ## Numbers -/

section Numbers
variable (D : ℕ → Bool)

/-- A match of `-?\d+(?:\.\d+)?` at the front, and the rest; `D` holds of what `\d` matches. -/
def numberAt (text : PyStr) : Option (PyStr × PyStr) :=
  let (sign, body) := match text with
    | 45 :: rest => ([45], rest)
    | _ => ([], text)
  let whole := body.takeWhile D
  if whole = [] then none
  else
    match body.dropWhile D with
    | 46 :: rest =>
      let fraction := rest.takeWhile D
      if fraction = [] then some (sign ++ whole, 46 :: rest)
      else some (sign ++ whole ++ 46 :: fraction, rest.dropWhile D)
    | rest => some (sign ++ whole, rest)

/-- The matches from left to right; every step consumes a character. -/
def scanNumbers : ℕ → PyStr → List PyStr
  | 0, _ | _, [] => []
  | fuel + 1, c :: text =>
    match numberAt D (c :: text) with
    | some (number, rest) => number :: scanNumbers fuel rest
    | none => scanNumbers fuel text

/-- `_numbers_in`. -/
def numbersIn (text : PyStr) : List PyStr := scanNumbers D text.length text

/-- `_numbers_are_backed`. -/
def numbersAreBacked (value quote : PyStr) : Bool :=
  let wanted := numbersIn D value
  wanted != [] && wanted.all fun item => (numbersIn D quote).contains item

end Numbers

/-! ## Responses -/

/-- `response.usage()` does not raise. -/
def checkUsage (response : ModelResponse) : Checked Unit :=
  if hasUsage response then .ok () else .error .invalidUsage

/-- `Usage(calls, tokens).validate()`. -/
def checkTotals (calls tokens : ℤ) : Checked Unit :=
  if calls < 0 ∨ tokens < 0 then .error .invalidUsage else .ok ()

section Responses
variable [PyFloat F]

/-- The JSON value of a response without a code fence. -/
def rawJson (text : PyStr) : Checked (PyVal F) :=
  if (py "```").isPrefixOf (text.dropWhile isSpace) then .error (.contract .codeFence)
  else
    match loads text with
    | none => .error (.contract .invalidJson)
    | some j => .ok (ofJson j)

/-- A dict with exactly these fields. -/
def exactFields (names : List PyStr) : PyVal F → Option (Payload F)
  | .dict kvs =>
    if kvs.all (fun p => names.any fun name => sameKey (.str name) p.1) &&
        names.all (fun name => (getItem kvs name).isSome) then some kvs
    else none
  | _ => none

/-- `_RELATION_FIELDS`. -/
def relationFields : List PyStr :=
  [py "passage_id", py "material", py "structural_feature", py "property_name", py "direction",
    py "quote", py "composition", py "value", py "unit", py "temperature_k", py "method"]

/-- A proposal with every field and no other. -/
def proposalOf (item : PyVal F) : Checked (Payload F) :=
  match exactFields relationFields item with
  | none => .error (.contract .proposalFields)
  | some proposal => .ok proposal

/-- `_parse`. -/
def parseRelations (text : PyStr) : Checked (List (Payload F)) := do
  let value ← rawJson text
  match exactFields [py "relations"] value with
  | none => .error (.contract .topLevelFields)
  | some fields =>
    match getItem fields (py "relations") with
    | some (.list items) => items.mapM proposalOf
    | _ => .error (.contract .relationsNotArray)

end Responses

/-! ## Gates -/

/-- `REJECTION_REASONS`. -/
inductive RejectionReason where
  | unexposedPassage
  | quoteNotInPassage
  | valueNotInQuote
  | temperatureNotInQuote
  | contractViolation
  | duplicate
  deriving DecidableEq, Repr

structure RejectedProposal where
  reason : RejectionReason
  passageId : PyStr
  payload : PyStr
  deriving DecidableEq, Repr

structure ExtractionResult where
  relations : Dict PyStr ExtractedRelation
  rejections : List RejectedProposal
  calls : ℤ
  tokens : ℤ

/-- `ExtractionResult()`. -/
def ExtractionResult.new : ExtractionResult := ⟨empty, [], 0, 0⟩

/-- `result.rejections.append(item)`. -/
def ExtractionResult.reject (result : ExtractionResult) (item : RejectedProposal) :
    ExtractionResult :=
  { result with rejections := result.rejections ++ [item] }

/-- What varies in a request: the prompts and the schema are constants. -/
structure ExtractionRequest where
  operationId : PyStr
  passages : List (PyStr × PyStr)
  properties : List PyStr
  promptProfile : PyStr
  deriving DecidableEq, Repr

/-- A call that was read, with the relations it added to the result. -/
structure Call (F : Type) where
  batch : List (SurveyPassage F)
  request : ExtractionRequest
  response : ModelResponse
  admitted : List ExtractedRelation

/-- `RelationExtractor`, with what its constructor checks. -/
structure RelationExtractor (F : Type) where
  transport : List (Call F) → ExtractionRequest → Except Unit ModelResponse
  batchSize : ℤ
  maxPassageChars : ℤ
  promptProfile : PyStr
  vocabulary : PyStr
  properties : List PyStr
  batched : 1 ≤ batchSize
  window : 200 ≤ maxPassageChars
  known : propertySet vocabulary = some properties
  profiled : isBlank promptProfile = false

section Extraction
variable [PyFloat F] (I : Interpreter) (D : ℕ → Bool) (E : RelationExtractor F)

/-- The text of `_exposed`. -/
def shownText (p : SurveyPassage F) : PyStr := p.text.take E.maxPassageChars.toNat

/-- `{passage.passage_id: passage for passage in batch}`. -/
def exposedPassages (batch : List (SurveyPassage F)) : Dict PyStr (SurveyPassage F) :=
  collect SurveyPassage.passageId batch

/-- `str(proposal.get(name) or "")`. -/
def fieldText (proposal : Payload F) (name : PyStr) : PyStr := Verification.textOf I proposal name

/-- The gates of `_admit` before the one for duplicates. -/
def gate (exposed : Dict PyStr (SurveyPassage F)) (payload : PyStr) (proposal : Payload F) :
    Checked (RejectedProposal ⊕ ExtractedRelation) :=
  let passageId := fieldText I proposal (py "passage_id")
  let refuse (reason : RejectionReason) : Checked (RejectedProposal ⊕ ExtractedRelation) :=
    .ok (.inl ⟨reason, passageId, payload⟩)
  match exposed.get passageId with
  | none => refuse .unexposedPassage
  | some passage =>
    let quote := fieldText I proposal (py "quote")
    let value := fieldText I proposal (py "value")
    let temperature := fieldText I proposal (py "temperature_k")
    if passage.supportsQuote I quote = false then refuse .quoteNotInPassage
    else if value ≠ [] ∧ numbersAreBacked D value quote = false then refuse .valueNotInQuote
    else if temperature ≠ [] ∧ numbersAreBacked D temperature quote = false then
      refuse .temperatureNotInQuote
    else do
      let material := fieldText I proposal (py "material")
      let structuralFeature := fieldText I proposal (py "structural_feature")
      let propertyName := fieldText I proposal (py "property_name")
      let direction := fieldText I proposal (py "direction")
      let composition := fieldText I proposal (py "composition")
      let relation : ExtractedRelation := {
        relationId := ← relationId I F passageId material composition structuralFeature
          propertyName direction
        passageId, material, structuralFeature, propertyName, direction, quote, composition, value
        unit := fieldText I proposal (py "unit")
        temperatureK := temperature
        method := strOf I.display (orDefault (getItem proposal (py "method"))
          (.str (py "unspecified")))
        vocabulary := E.vocabulary }
      match relation.validate with
      | .ok _ => .ok (.inr relation)
      | .error (.contract _) => refuse .contractViolation
      | .error e => .error e

/-- `_admit`. -/
def admitProposal (exposed : Dict PyStr (SurveyPassage F)) (result : ExtractionResult)
    (proposal : Payload F) : Checked ExtractionResult :=
  match canonicalJson (.dict proposal) with
  | .error e => .error (.json e)
  | .ok payload => do
    match ← gate I D E exposed payload proposal with
    | .inl item => .ok (result.reject item)
    | .inr relation =>
      if (result.relations.get relation.relationId).isSome then
        .ok (result.reject ⟨.duplicate, relation.passageId, payload⟩)
      else .ok { result with relations := result.relations.set relation.relationId relation }

/-- The proposals of a response. -/
def admitAll (exposed : Dict PyStr (SurveyPassage F)) (proposals : List (Payload F))
    (result : ExtractionResult) : Checked ExtractionResult :=
  proposals.foldlM (admitProposal I D E exposed) result

/-! ## Runs -/

/-- One batch. -/
def readBatch (fingerprint : PyStr) (result : ExtractionResult) (batch : List (SurveyPassage F)) :
    Calling (Call F) ExtractionResult := do
  let exposed := exposedPassages batch
  let operationId ← digestId (F := F) I (py "op") [.str (py "extract"), .str E.promptProfile,
    .str fingerprint, .list (((inOrder exposed).items.map Prod.fst).map .str)]
  let request : ExtractionRequest :=
    ⟨operationId, batch.map fun p => (p.passageId, shownText E p), E.properties, E.promptProfile⟩
  let response ← ask (E.transport · request)
  checkUsage response
  let proposals ← parseRelations response.text
  let read ← admitAll I D E exposed proposals { result with
    calls := result.calls + 1
    tokens := result.tokens + (response.inputTokens + response.outputTokens) }
  note ⟨batch, request, response, read.relations.values.drop result.relations.values.length⟩
  return read

/-- `extract`. -/
def extract (corpus : SurveyCorpus F) : Calling (Call F) ExtractionResult := do
  corpus.validate I
  let fingerprint ← corpus.topic.fingerprint I F
  let result ← (slices E.batchSize.toNat (sortedValues corpus.passages)).foldlM
    (readBatch I D E fingerprint) .new
  checkTotals result.calls result.tokens
  return result

end Extraction

end RelationExtraction
