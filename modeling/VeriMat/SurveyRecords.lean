import VeriMat.Verification

/-! # The records of a survey

`survey/records.py`: topics, documents, queries, passages, extracted relations and research gaps,
with the checks they pass, and the corpus they are kept in. Fields have the types the dataclasses
declare; an identifier is a prefix and a shortened digest of the canonical JSON of its parts. -/
namespace SurveyRecords

open PyText JsonText PyValue PyDict Events ModelTransports
open Verification (Interpreter)

/-! ## Vocabularies -/

/-- `PROPERTIES`. -/
def properties : List PyStr :=
  [py "ZT", py "Seebeck coefficient", py "electrical conductivity", py "electrical resistivity",
    py "thermal conductivity", py "lattice thermal conductivity", py "power factor",
    py "carrier concentration", py "carrier mobility", py "band gap", py "effective mass",
    py "phonon lifetime", py "thermal stability", py "hardness"]

/-- `SOLID_ELECTROLYTE_PROPERTIES`. -/
def solidElectrolyteProperties : List PyStr :=
  [py "ionic conductivity", py "activation energy", py "critical current density",
    py "electrochemical window", py "interfacial resistance", py "area specific resistance",
    py "air stability", py "moisture stability", py "cycling stability", py "capacity retention",
    py "transference number", py "electronic conductivity", py "formation energy",
    py "energy above hull", py "band gap", py "thermal stability", py "density",
    py "phase stability"]

/-- `PROPERTY_SETS.get`. -/
def propertySet (vocabulary : PyStr) : Option (List PyStr) :=
  if vocabulary = py "thermoelectric" then some properties
  else if vocabulary = py "solid_electrolyte" then some solidElectrolyteProperties
  else none

/-- `DIRECTIONS`. -/
def directions : List PyStr :=
  [py "increase", py "decrease", py "non_monotonic", py "unchanged", py "unclear"]

/-- `METHODS`. -/
def methods : List PyStr :=
  [py "experiment", py "dft", py "simulation", py "review", py "unspecified"]

/-- `GAP_KINDS`. -/
def gapKinds : List PyStr :=
  [py "unexplored_combination", py "contradictory_evidence", py "single_source",
    py "missing_condition", py "unvalidated_mechanism"]

/-- `NOVELTY`. -/
def novelties : List PyStr := [py "new", py "known"]

/-- `DATABASE_SCIVERSE`. -/
def sciverse : PyStr := py "Sciverse"

/-! ## Errors -/

/-- What the text of a `SurveyContractError` says. -/
inductive ContractIssue where
  | required (name : PyStr)
  | notOneOf (name : PyStr) (allowed : List PyStr) (got : PyStr)
  | noSeedQuery
  | noProbeQuestion
  | blankQuery
  | yearsReversed
  | noHandle
  | docIdFormat
  | implausibleYear (year : ℤ)
  | negativeHits
  | impossibleTotal (queryId : PyStr) (nHits total : ℤ)
  | blankSemanticQuery
  | noPassageText
  | digestMismatch (passageId : PyStr)
  | negativeOffset
  | unknownVocabulary (got : PyStr)
  | unitRequired (propertyName value : PyStr)
  | gapWithoutPassage (gapId : PyStr)
  | knownUnquoted (gapId : PyStr)
  | newQuoted (gapId : PyStr)
  | unrecordedDocument (passageId docId : PyStr)
  | unrecordedQuery (passageId queryId : PyStr)
  | unsupportedSnapshot
  | snapshotDigest
  | snapshotTopic
  | codeFence
  | invalidJson
  | topLevelFields
  | relationsNotArray
  | proposalFields
  deriving DecidableEq, Repr

/-- What survey code raises. `untyped` stands where a value of a type that its field does not
declare is not followed further. -/
inductive SurveyError where
  | contract (issue : ContractIssue)
  | json (e : JsonError)
  | unicodeEncodeError
  | typeError
  | attributeError
  | keyError
  | overflowError
  | invalidUsage
  | source
  | untyped
  deriving DecidableEq, Repr

abbrev Checked (α : Type) := Except SurveyError α

/-- `if condition: raise SurveyContractError(..)`. -/
def refuseIf (c : Prop) [Decidable c] (issue : ContractIssue) : Checked Unit :=
  if c then .error (.contract issue) else .ok ()

/-- `_require`. -/
def require (value name : PyStr) : Checked Unit := refuseIf (isBlank value) (.required name)

/-- `_one_of`. -/
def oneOf (value : PyStr) (allowed : List PyStr) (name : PyStr) : Checked Unit :=
  refuseIf (strip value ∉ allowed) (.notOneOf name allowed (strip value))

@[simp] theorem refuseIf_eq_ok {c : Prop} [Decidable c] {issue : ContractIssue} {u : Unit} :
    refuseIf c issue = .ok u ↔ ¬c := by
  unfold refuseIf
  split <;> simp_all

@[simp] theorem require_eq_ok {value name : PyStr} {u : Unit} :
    require value name = .ok u ↔ isBlank value = false := by
  simp [require]

@[simp] theorem oneOf_eq_ok {value name : PyStr} {allowed : List PyStr} {u : Unit} :
    oneOf value allowed name = .ok u ↔ strip value ∈ allowed := by
  simp [oneOf]

theorem bind_eq_ok {α β : Type} {x : Checked α} {f : α → Checked β} {b : β} :
    (x >>= f) = .ok b ↔ ∃ a, x = .ok a ∧ f a = .ok b := by
  cases x with
  | error e => simp [bind, Except.bind]
  | ok a => simp [bind, Except.bind]

/-- What a result looks like tells that there is one. -/
theorem exists_of_toOption {α β : Type} {x : Checked α} {f : α → β} {b : β}
    (h : x.toOption.map f = some b) : ∃ a, x = .ok a ∧ f a = b := by
  cases x with
  | error e => cases h
  | ok a => exact ⟨a, rfl, Option.some.inj h⟩

/-! ## Code that calls a service -/

section Calling
variable {E α β R : Type} {log log' : List E}

/-- Code that raises, or goes on with the calls it has made on its log. -/
abbrev Calling (E α : Type) := StateT (List E) Checked α

/-- A service that raises or replies, by the calls made so far. -/
def ask (reply? : List E → Except Unit R) : Calling E R := fun log =>
  match reply? log with
  | .error _ => .error .source
  | .ok reply => .ok (reply, log)

/-- One more call on the log. -/
def note (entry : E) : Calling E Unit := fun log => .ok ((), log ++ [entry])

theorem run_bind {x : Calling E α} {f : α → Calling E β} {b : β} :
    (x >>= f) log = .ok (b, log') ↔ ∃ a log₁, x log = .ok (a, log₁) ∧ f a log₁ = .ok (b, log') := by
  have hbind : (x >>= f) log = x log >>= fun p => f p.1 p.2 := rfl
  rw [hbind, bind_eq_ok, Prod.exists]

theorem run_lift {x : Checked α} {a : α} :
    (liftM x : Calling E α) log = .ok (a, log') ↔ x = .ok a ∧ log' = log := by
  have hlift : (liftM x : Calling E α) log = x >>= fun a => .ok (a, log) := rfl
  rw [hlift, bind_eq_ok]
  constructor
  · rintro ⟨b, hx, hb⟩
    cases hb
    exact ⟨hx, rfl⟩
  · rintro ⟨hx, rfl⟩
    exact ⟨a, hx, rfl⟩

/-- A check, and what goes on from it. -/
theorem run_lift_bind {x : Checked α} {f : α → Calling E β} {b : β} :
    ((liftM x : Calling E α) >>= f) log = .ok (b, log') ↔
      ∃ a, x = .ok a ∧ f a log = .ok (b, log') := by
  rw [run_bind]
  constructor
  · rintro ⟨a, log₁, hran, hf⟩
    obtain ⟨hx, rfl⟩ := run_lift.mp hran
    exact ⟨a, hx, hf⟩
  · rintro ⟨a, hx, hf⟩
    exact ⟨a, log, run_lift.mpr ⟨hx, rfl⟩, hf⟩

theorem run_pure {a b : α} :
    (pure a : Calling E α) log = .ok (b, log') ↔ b = a ∧ log' = log := by
  have hpure : (pure a : Calling E α) log = .ok (a, log) := rfl
  rw [hpure, Except.ok.injEq, Prod.mk.injEq]
  exact ⟨fun h => ⟨h.1.symm, h.2.symm⟩, fun h => ⟨h.1.symm, h.2.symm⟩⟩

/-- A reply, and what goes on from it. -/
theorem run_ask_bind {reply? : List E → Except Unit R} {f : R → Calling E β} {b : β} :
    (ask reply? >>= f) log = .ok (b, log') ↔
      ∃ reply, reply? log = .ok reply ∧ f reply log = .ok (b, log') := by
  rw [run_bind, ask]
  cases reply? log with
  | error e => simp
  | ok reply => simp

theorem run_note_bind {entry : E} {f : Unit → Calling E β} {b : β} :
    (note entry >>= f) log = .ok (b, log') ↔ f () (log ++ [entry]) = .ok (b, log') :=
  Iff.rfl

end Calling

/-! ## Digests -/

variable {F : Type} [PyFloat F]

/-- `hashlib.sha256(text.encode("utf-8")).hexdigest()`. -/
def textDigest (I : Interpreter) (text : PyStr) : Checked PyStr :=
  match encode text with
  | none => .error .unicodeEncodeError
  | some bytes => .ok (I.sha256 bytes)

/-- `hashlib.sha256(canonical_json(value).encode("utf-8")).hexdigest()`. -/
def jsonDigest (I : Interpreter) (value : PyVal F) : Checked PyStr :=
  match canonicalJson value with
  | .error e => .error (.json e)
  | .ok text => textDigest I text

/-- `digest_id`. -/
def digestId (I : Interpreter) (kind : PyStr) (parts : List (PyVal F)) : Checked PyStr :=
  (jsonDigest I (.list parts)).map fun digest => kind ++ py "-" ++ digest.take 16

/-! ## Topics -/

structure SurveyTopic where
  topicId : PyStr
  title : PyStr
  seedQueries : List PyStr
  probeQuestions : List PyStr
  yearFrom : Option ℤ
  yearTo : Option ℤ
  language : PyStr
  domain : PyStr
  deriving DecidableEq, Repr

/-- `validate`. -/
def SurveyTopic.validate (t : SurveyTopic) : Checked Unit := do
  require t.topicId (py "topic_id")
  require t.title (py "title")
  refuseIf (t.seedQueries = []) .noSeedQuery
  refuseIf (t.probeQuestions = []) .noProbeQuestion
  refuseIf ((t.seedQueries ++ t.probeQuestions).any isBlank) .blankQuery
  refuseIf (t.yearFrom.any fun a => t.yearTo.any fun b => b < a) .yearsReversed

/-- An optional whole number as JSON has it. -/
def optInt : Option ℤ → Json F
  | none => .null
  | some n => .int n

def texts (xs : List PyStr) : Json F := .arr (xs.map .str)

/-- `fingerprint`. -/
def SurveyTopic.fingerprint (I : Interpreter) (F : Type) [PyFloat F] (t : SurveyTopic) :
    Checked PyStr :=
  digestId (F := F) I (py "topic") [ofJson (.obj [(py "title", .str t.title),
    (py "seed_queries", texts t.seedQueries), (py "probe_questions", texts t.probeQuestions),
    (py "year_from", optInt t.yearFrom), (py "year_to", optInt t.yearTo),
    (py "language", .str t.language), (py "domain", .str t.domain)])]

/-! ## Documents -/

structure DocumentRecord where
  docId : PyStr
  uniqueId : PyStr
  title : PyStr
  year : Option ℤ
  venue : PyStr
  doi : PyStr
  citationCount : ℤ
  database : PyStr
  deriving DecidableEq, Repr

def isLowerHex (c : ℕ) : Bool := (48 ≤ c && c ≤ 57) || (97 ≤ c && c ≤ 102)

/-- `_DOC_ID.match`; a line feed may follow. -/
def isDocId (text : PyStr) : Bool :=
  let digits := if text.getLast? = some 10 then text.dropLast else text
  digits.length == 64 && digits.all isLowerHex

/-- `validate`. -/
def DocumentRecord.validate (d : DocumentRecord) : Checked Unit := do
  require d.title (py "title")
  require d.database (py "database")
  refuseIf (d.docId = [] ∧ d.uniqueId = []) .noHandle
  refuseIf (d.docId ≠ [] ∧ isDocId d.docId = false) .docIdFormat
  match d.year with
  | none => .ok ()
  | some year => refuseIf (¬(1600 ≤ year ∧ year ≤ 2100)) (.implausibleYear year)

/-- `is_citable`. -/
def DocumentRecord.isCitable (d : DocumentRecord) : Bool :=
  !isBlank d.title && (!isBlank d.doi || (!isBlank d.venue && d.year.any (· != 0)))

/-- `record.doc_id or record.unique_id`. -/
def DocumentRecord.key (d : DocumentRecord) : PyStr := if d.docId = [] then d.uniqueId else d.docId

/-! ## Queries -/

structure QueryRecord where
  queryId : PyStr
  text : PyStr
  stage : PyStr
  intent : PyStr
  nHits : ℤ
  totalMatched : Option ℤ
  filtersFingerprint : PyStr
  saturated : Bool
  database : PyStr
  deriving DecidableEq, Repr

/-- `validate`. -/
def QueryRecord.validate (q : QueryRecord) : Checked Unit := do
  require q.queryId (py "query_id")
  oneOf q.stage [py "metadata", py "semantic"] (py "stage")
  require q.intent (py "intent")
  require q.database (py "database")
  refuseIf (q.nHits < 0) .negativeHits
  match q.totalMatched with
  | none => .ok ()
  | some total => refuseIf (total < q.nHits) (.impossibleTotal q.queryId q.nHits total)
  refuseIf (q.stage = py "semantic" ∧ isBlank q.text = true) .blankSemanticQuery

/-! ## Passages -/

structure SurveyPassage (F : Type) where
  passageId : PyStr
  docId : PyStr
  queryId : PyStr
  text : PyStr
  contentSha256 : PyStr
  offset : Option ℤ
  pageNo : Option ℤ
  score : Option F
  retrievedBy : PyStr
  database : PyStr
  deriving DecidableEq, Repr

/-- What `SurveyPassage.build` is called with; the rest has its defaults. -/
structure NewPassage (F : Type) where
  docId : PyStr
  queryId : PyStr
  text : PyStr
  offset : Option ℤ
  pageNo : Option ℤ
  score : Option F

/-- `build`. -/
def SurveyPassage.build (I : Interpreter) (p : NewPassage F) : Checked (SurveyPassage F) := do
  let digest ← textDigest I p.text
  let passageId ← digestId I (py "psg") [.str p.docId, ofJson (F := F) (optInt p.offset),
    .str digest]
  .ok ⟨passageId, p.docId, p.queryId, p.text, digest, p.offset, p.pageNo, p.score,
    py "agentic-search", sciverse⟩

/-- `validate`. -/
def SurveyPassage.validate (I : Interpreter) (p : SurveyPassage F) : Checked Unit := do
  require p.passageId (py "passage_id")
  require p.docId (py "doc_id")
  require p.queryId (py "query_id")
  require p.database (py "database")
  refuseIf (isBlank p.text) .noPassageText
  let digest ← textDigest I p.text
  refuseIf (digest ≠ p.contentSha256) (.digestMismatch p.passageId)
  refuseIf (p.offset.any (· < 0)) .negativeOffset

/-- `supports_quote`. -/
def SurveyPassage.supportsQuote (I : Interpreter) (p : SurveyPassage F) (quote : PyStr) : Bool :=
  I.normaliseQuote quote != [] && I.quoted quote p.text

/-! ## Relations -/

structure ExtractedRelation where
  relationId : PyStr
  passageId : PyStr
  material : PyStr
  structuralFeature : PyStr
  propertyName : PyStr
  direction : PyStr
  quote : PyStr
  composition : PyStr
  value : PyStr
  unit : PyStr
  temperatureK : PyStr
  method : PyStr
  vocabulary : PyStr
  deriving DecidableEq, Repr

/-- The identifier `build` gives a relation. -/
def relationId (I : Interpreter) (F : Type) [PyFloat F]
    (passageId material composition structuralFeature propertyName direction : PyStr) :
    Checked PyStr :=
  digestId (F := F) I (py "rel") [.str passageId, .str material, .str composition,
    .str structuralFeature, .str propertyName, .str direction]

/-- `validate`. -/
def ExtractedRelation.validate (r : ExtractedRelation) : Checked Unit := do
  require r.relationId (py "relation_id")
  require r.passageId (py "passage_id")
  require r.material (py "material")
  require r.structuralFeature (py "structural_feature")
  require r.quote (py "quote")
  match propertySet r.vocabulary with
  | none => .error (.contract (.unknownVocabulary r.vocabulary))
  | some vocabulary => oneOf r.propertyName vocabulary (py "property_name")
  oneOf r.direction directions (py "direction")
  oneOf r.method methods (py "method")
  refuseIf (r.value ≠ [] ∧ r.unit = [] ∧ r.propertyName ≠ py "ZT")
    (.unitRequired r.propertyName r.value)

/-! ## Gaps -/

structure ResearchGap where
  gapId : PyStr
  kind : PyStr
  statement : PyStr
  novelty : PyStr
  noveltyBasis : PyStr
  supportingPassages : List PyStr
  supportingRelations : List PyStr
  noveltyQuote : PyStr
  deriving DecidableEq, Repr

/-- `tuple(dict.fromkeys(values))`. -/
def distinct (values : List PyStr) : List PyStr :=
  (ofPairs (values.map fun v => (v, ()))).map Prod.fst

/-- `build`. -/
def ResearchGap.build (I : Interpreter) (F : Type) [PyFloat F]
    (kind statement novelty noveltyBasis : PyStr)
    (supportingPassages supportingRelations : List PyStr) (noveltyQuote : PyStr) :
    Checked ResearchGap := do
  let gapId ← digestId (F := F) I (py "gap") [.str kind, .str statement,
    ofJson (texts (distinct supportingPassages))]
  .ok ⟨gapId, kind, statement, novelty, noveltyBasis, distinct supportingPassages,
    distinct supportingRelations, noveltyQuote⟩

/-- `validate`. -/
def ResearchGap.validate (g : ResearchGap) : Checked Unit := do
  require g.gapId (py "gap_id")
  require g.statement (py "statement")
  require g.noveltyBasis (py "novelty_basis")
  oneOf g.kind gapKinds (py "kind")
  oneOf g.novelty novelties (py "novelty")
  refuseIf (g.supportingPassages = []) (.gapWithoutPassage g.gapId)
  refuseIf (g.novelty = py "known" ∧ isBlank g.noveltyQuote = true) (.knownUnquoted g.gapId)
  refuseIf (g.novelty = py "new" ∧ isBlank g.noveltyQuote = false) (.newQuoted g.gapId)

/-! ## The corpus -/

structure SurveyCorpus (F : Type) where
  topic : SurveyTopic
  documents : Dict PyStr DocumentRecord
  passages : Dict PyStr (SurveyPassage F)
  queries : Dict PyStr QueryRecord

/-- `SurveyCorpus(topic=topic)`. -/
def SurveyCorpus.new (topic : SurveyTopic) : SurveyCorpus F := ⟨topic, empty, empty, empty⟩

/-- `add_document`. -/
def SurveyCorpus.addDocument (c : SurveyCorpus F) (d : DocumentRecord) :
    Checked (SurveyCorpus F) := do
  d.validate
  .ok { c with documents := c.documents.set d.key d }

/-- `add_query`. -/
def SurveyCorpus.addQuery (c : SurveyCorpus F) (q : QueryRecord) : Checked (SurveyCorpus F) := do
  q.validate
  .ok { c with queries := c.queries.set q.queryId q }

/-- `add_passage`. -/
def SurveyCorpus.addPassage (I : Interpreter) (c : SurveyCorpus F) (p : SurveyPassage F) :
    Checked (SurveyCorpus F) := do
  p.validate I
  .ok { c with passages := c.passages.set p.passageId p }

/-- The checks of `validate` on one passage. -/
def SurveyCorpus.checkPassage (I : Interpreter) (c : SurveyCorpus F) (p : SurveyPassage F) :
    Checked Unit := do
  p.validate I
  refuseIf (c.documents.get p.docId = none) (.unrecordedDocument p.passageId p.docId)
  refuseIf (c.queries.get p.queryId = none) (.unrecordedQuery p.passageId p.queryId)

/-- `validate`. -/
def SurveyCorpus.validate (I : Interpreter) (c : SurveyCorpus F) : Checked Unit := do
  c.topic.validate
  c.passages.values.forM (c.checkPassage I)

end SurveyRecords
