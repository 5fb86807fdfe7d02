import VeriMat.SurveySnapshot

/-! # Building a corpus

`survey/corpus.py`: metadata searches fix the candidate documents, semantic searches over slices of
them and over single documents collect passages, and every executed search is to leave a record. A
literature source may answer anything, also depending on what it was asked before. -/
namespace CorpusBuild

open PyText JsonText PyValue PyDict KeyedRecords PyDisplay Events ModelTransports SurveyRecords
open Verification (Interpreter dicts)
open DecisionGraph (getItem Payload)

variable {F : Type}

/-! ## Searches -/

/-- What `meta_search` is asked. -/
structure MetadataRequest (F : Type) where
  query : PyStr
  filters : Json F
  fields : List PyStr
  pageSize : ℤ

/-- What `agentic_search` is asked; the document scope is its only filter. -/
structure SemanticRequest where
  query : PyStr
  topK : ℤ
  docIds : List PyStr
  deriving DecidableEq, Repr

/-- A search that returned, with the stage that made it. -/
inductive Executed (F : Type) where
  | metadata (intent : PyStr) (request : MetadataRequest F) (reply : Payload F)
  | evidence (shard : List PyStr) (request : SemanticRequest) (reply : List (PyVal F))
  | documentProbe (docId : PyStr) (request : SemanticRequest) (reply : List (PyVal F))

/-- A source that raises or replies, by the searches executed so far. -/
structure LiteratureSource (F : Type) where
  metaSearch : List (Executed F) → MetadataRequest F → Except Unit (Payload F)
  agenticSearch : List (Executed F) → SemanticRequest → Except Unit (List (PyVal F))

/-- Code that searches, with the searches executed so far. -/
abbrev Searching (F α : Type) := Calling (Executed F) α

/-- One search of a source. -/
def search {R : Type} (reply? : List (Executed F) → Except Unit R) (entry : R → Executed F) :
    Searching F R := do
  let reply ← ask reply?
  note (entry reply)
  return reply

/-! ## Values of a reply -/

/-- What `float(value)` and `int(x)` raise. -/
inductive NumberError where
  | typeError
  | valueError
  | overflowError

/-- What the builder takes from the interpreter: `float(value)` and `template.format(..)`. -/
structure Conversions (F : Type) where
  float : PyVal F → Except NumberError F
  format : PyStr → List (PyStr × PyVal F) → Checked PyStr

section Values
variable [PyFloat F] (I : Interpreter) (P : Conversions F)

/-- `int(x)` of a float. -/
def truncate (x : F) : Except NumberError ℤ :=
  match PyFloat.value x with
  | .finite q => .ok (q.num.tdiv q.den)
  | .nan => .error .valueError
  | .inf | .negInf => .error .overflowError

/-- `_int_or_none`; an OverflowError is not caught. -/
def intOrNone : Option (PyVal F) → Checked (Option ℤ)
  | none | some .none => .ok none
  | some value =>
    match P.float value >>= truncate with
    | .ok n => .ok (some n)
    | .error .overflowError => .error .overflowError
    | .error _ => .ok none

/-- `_year_or_none`. -/
def yearOrNone (value : Option (PyVal F)) : Checked (Option ℤ) :=
  (intOrNone P value).map fun number => number.filter fun n => 1600 ≤ n ∧ n ≤ 2100

/-- `_non_negative`. -/
def nonNegative (value : Option (PyVal F)) : Checked (Option ℤ) :=
  (intOrNone P value).map fun number => number.filter fun n => 0 ≤ n

/-- `_text`. -/
def textOf : Option (PyVal F) → PyStr
  | none | some .none => []
  | some value => strip (strOf I.display value)

/-- `document_from_row`. -/
def documentFromRow (row : Payload F) : Checked (Option DocumentRecord) :=
  let docId := textOf I (getItem row (py "doc_id"))
  if docId = [] then .ok none
  else do
    let record : DocumentRecord := {
      docId
      uniqueId := textOf I (getItem row (py "unique_id"))
      title := textOf I (getItem row (py "title"))
      year := ← yearOrNone P (getItem row (py "publication_published_year"))
      venue := textOf I (getItem row (py "publication_venue_name_unified"))
      doi := textOf I (getItem row (py "doi"))
      citationCount := (← nonNegative P (getItem row (py "citation_count"))).getD 0
      database := sciverse }
    match record.validate with
    | .ok _ => .ok (some record)
    | .error (.contract _) => .ok none
    | .error e => .error e

/-- The dicts among `envelope.get("results") or []`. -/
def rowsOf (envelope : Payload F) : Checked (List (Payload F)) :=
  match orDefault (getItem envelope (py "results")) (.list []) with
  | .list xs | .tuple xs => .ok (dicts xs)
  | .dict _ | .str _ => .ok []
  | .other => .error .untyped
  | _ => .error .typeError

/-- `hit.get("chunk") or hit.get("text") or hit.get("content")`, as text. -/
def bodyOf (hit : Payload F) : PyStr :=
  textOf I (some (orDefault (getItem hit (py "chunk")) (orDefault (getItem hit (py "text"))
    ((getItem hit (py "content")).getD .none))))

/-- `float(score) if isinstance(score, (int, float)) else None`. -/
def scoreOf (hit : Payload F) : Checked (Option F) :=
  match getItem hit (py "score") with
  | some (.bool b) => number (.bool b)
  | some (.int n) => number (.int n)
  | some (.float x) => number (.float x)
  | _ => .ok none
where
  number (value : PyVal F) : Checked (Option F) :=
    match P.float value with
    | .ok x => .ok (some x)
    | .error .overflowError => .error .overflowError
    | .error _ => .error .typeError

end Values

/-! ## Document scopes -/

/-- `text.lower()`, as far as it can give a hexadecimal digit. -/
def lowered (text : PyStr) : PyStr := text.map fun c => if 65 ≤ c ∧ c ≤ 90 then c + 32 else c

/-- `_normalise_doc_ids`, of texts. -/
def normaliseDocIds (docIds : List PyStr) : Checked (List PyStr) := do
  let ids := docIds.map fun value => lowered (strip value)
  if ids.all isDocId = false then .error .source
  if 1000 < (distinct ids).length then .error .source
  .ok (distinct ids)

/-! ## The builder -/

/-- `CorpusBuilder`, with the bounds its constructor checks. -/
structure CorpusBuilder (F : Type) where
  source : LiteratureSource F
  maxCandidates : ℤ
  semanticTopK : ℤ
  minPassageChars : ℤ
  scopeShardSize : ℤ
  citationFloor : ℤ
  documentProbeTemplates : List PyStr
  candidate : 1 ≤ maxCandidates
  scope : maxCandidates ≤ 1000

/-- `METADATA_FIELDS`. -/
def metadataFields : List PyStr :=
  [py "unique_id", py "doc_id", py "title", py "doi", py "publication_published_year",
    py "publication_venue_name_unified", py "citation_count"]

/-- One of `metadata_filters`. -/
def filterItem (field : PyStr) (value : Json F) (operator : Option PyStr) : Json F :=
  .obj ([(py "field", .str field), (py "value", value)] ++
    operator.toList.map fun o => (py "operator", .str o))

/-- `metadata_filters(lang=.., year_from=.., year_to=.., require_full_text=True,
min_citations=..)`. -/
def metadataFilters (topic : SurveyTopic) (minCitations : Option ℤ) : Json F :=
  .arr ((if topic.language = [] then [] else
      [filterItem (py "language") (.str topic.language) none]) ++
    topic.yearFrom.toList.map (fun year =>
      filterItem (py "publication_published_year") (.int year) (some (py "FILTER_OP_GTE"))) ++
    topic.yearTo.toList.map (fun year =>
      filterItem (py "publication_published_year") (.int year) (some (py "FILTER_OP_LTE"))) ++
    minCitations.toList.map (fun count =>
      filterItem (py "citation_count") (.int count) (some (py "FILTER_OP_GTE"))) ++
    [filterItem (py "doc_id") (.str []) (some (py "FILTER_OP_NE"))])

section Stages
variable [PyFloat F] (I : Interpreter) (P : Conversions F) (B : CorpusBuilder F)

/-- `_passes`. -/
def passes (topic : SurveyTopic) : List (PyStr × Json F) :=
  (py "coverage", metadataFilters topic none) ::
    if 0 < B.citationFloor then [(py "seminal", metadataFilters topic (some B.citationFloor))]
    else []

/-- `len(corpus.documents)`. -/
def documentCount (c : SurveyCorpus F) : ℤ := c.documents.items.length

/-- The rows of one search: new documents are added until the candidates are full. -/
def addRows : List (Payload F) → SurveyCorpus F → Checked (SurveyCorpus F)
  | [], c => .ok c
  | row :: rows, c => do
    match ← documentFromRow I P row with
    | none => addRows rows c
    | some record =>
      if (c.documents.get record.key).isSome then addRows rows c
      else if B.maxCandidates ≤ documentCount c then .ok c
      else addRows rows (← c.addDocument record)

/-- `digest_id("flt", filters)`. -/
def filtersFingerprint (filters : Json F) : Checked PyStr :=
  digestId I (py "flt") [ofJson filters]

/-- `digest_id("flt", doc_ids)`. -/
def scopeFingerprint (F : Type) [PyFloat F] (docIds : List PyStr) : Checked PyStr :=
  digestId (F := F) I (py "flt") [.list (docIds.map .str)]

/-- The record of a metadata search. -/
def metadataRecord (intent query fingerprint : PyStr) (envelope : Payload F) (nHits : ℤ) :
    Checked QueryRecord := do
  let queryId ← digestId (F := F) I (py "qry")
    [.str (py "metadata"), .str intent, .str query, .str fingerprint]
  let totalMatched ← nonNegative P (getItem envelope (py "total_count"))
  .ok ⟨queryId, query, py "metadata", intent, nHits, totalMatched, fingerprint, false, sciverse⟩

/-- The record of a semantic search. -/
def semanticRecord (queryId question intent fingerprint : PyStr) (nHits : ℤ) : QueryRecord :=
  ⟨queryId, question, py "semantic", intent, nHits, none, fingerprint, decide (50 ≤ nHits),
    sciverse⟩

/-- One seed query of a pass. -/
def searchCandidates (intent : PyStr) (filters : Json F) (fingerprint query : PyStr)
    (c : SurveyCorpus F) : Searching F (SurveyCorpus F) := do
  let request : MetadataRequest F :=
    ⟨query, filters, metadataFields, min 50 (B.maxCandidates - documentCount c)⟩
  let envelope ← search (B.source.metaSearch · request) (.metadata intent request)
  let rows ← rowsOf envelope
  let c ← addRows I P B rows c
  c.addQuery (← metadataRecord I P intent query fingerprint envelope rows.length)

/-- The seed queries of a pass, and whether the candidates were full before the last of them. -/
def searchPass (intent : PyStr) (filters : Json F) (fingerprint : PyStr) :
    List PyStr → SurveyCorpus F → Searching F (SurveyCorpus F × Bool)
  | [], c => pure (c, false)
  | query :: queries, c =>
    if B.maxCandidates - documentCount c ≤ 0 then pure (c, true)
    else do
      let c ← searchCandidates I P B intent filters fingerprint query c
      searchPass intent filters fingerprint queries c

/-- `_candidate_stage`. -/
def candidateStage (topic : SurveyTopic) :
    List (PyStr × Json F) → SurveyCorpus F → Searching F (SurveyCorpus F)
  | [], c => pure c
  | (intent, filters) :: rest, c => do
    let fingerprint ← filtersFingerprint I filters
    let (c, full) ← searchPass I P B intent filters fingerprint topic.seedQueries c
    if full then pure c else candidateStage topic rest c

/-- `_shards`. -/
def shards (scope : List PyStr) : List (List PyStr) :=
  slices (max 1 B.scopeShardSize).toNat scope

/-- One hit: a passage of an admitted document, unless its text is too short. -/
def storeHit (admitted : PyStr → Bool) (queryId : PyStr) (c : SurveyCorpus F) :
    PyVal F → Checked (SurveyCorpus F)
  | .dict hit => do
    let docId := textOf I (getItem hit (py "doc_id"))
    let body := bodyOf I hit
    if admitted docId = false ∨ (body.length : ℤ) < B.minPassageChars then .ok c
    else
      let offset ← nonNegative P (getItem hit (py "offset"))
      let pageNo ← nonNegative P (getItem hit (py "page_no"))
      let score ← scoreOf P hit
      c.addPassage I (← SurveyPassage.build I ⟨docId, queryId, body, offset, pageNo, score⟩)
  | _ => .error .attributeError

/-- The hits of one search. -/
def storeHits (admitted : PyStr → Bool) (queryId : PyStr) (hits : List (PyVal F))
    (c : SurveyCorpus F) : Checked (SurveyCorpus F) :=
  hits.foldlM (storeHit I P B admitted queryId) c

/-- `sorted(corpus.documents)`. -/
def sortedKeys (c : SurveyCorpus F) : List PyStr :=
  (c.documents.items.map Prod.fst).insertionSort (· ≤ ·)

/-- One question over one slice of the candidates. -/
def searchShard (question : PyStr) (c : SurveyCorpus F) (shard : List PyStr) :
    Searching F (SurveyCorpus F) := do
  let request : SemanticRequest := ⟨question, B.semanticTopK, ← normaliseDocIds shard⟩
  let hits ← search (B.source.agenticSearch · request) (.evidence shard request)
  let queryId ← digestId (F := F) I (py "qry")
    [.str (py "semantic"), .str question, .list (shard.map .str)]
  let c ← storeHits I P B (fun docId => (c.documents.get docId).isSome) queryId hits c
  let fingerprint ← scopeFingerprint I F shard
  c.addQuery (semanticRecord queryId question (py "evidence") fingerprint hits.length)

/-- `_evidence_stage`. -/
def evidenceStage (topic : SurveyTopic) (c : SurveyCorpus F) : Searching F (SurveyCorpus F) :=
  let scope := sortedKeys c
  if scope = [] then pure c
  else topic.probeQuestions.foldlM
    (fun c question => (shards B scope).foldlM (searchShard I P B question) c) c

/-- The question of a template about a document. -/
def renderedQuestion (topic : SurveyTopic) (template : PyStr) (record : DocumentRecord) :
    Checked PyStr :=
  P.format template [(py "title", .str record.title),
    (py "year", match record.year with
      | some year => if year = 0 then .str [] else .int year
      | none => .str []),
    (py "venue", .str record.venue), (py "doi", .str record.doi),
    (py "unique_id", .str record.uniqueId), (py "domain", .str topic.domain)]

/-- One template over one document. -/
def probeDocument (topic : SurveyTopic) (docId : PyStr) (record : DocumentRecord)
    (c : SurveyCorpus F) (template : PyStr) : Searching F (SurveyCorpus F) := do
  let question ← renderedQuestion P topic template record
  let request : SemanticRequest := ⟨question, B.semanticTopK, ← normaliseDocIds [docId]⟩
  let hits ← search (B.source.agenticSearch · request) (.documentProbe docId request)
  let queryId ← digestId (F := F) I (py "qry")
    [.str (py "semantic-document"), .str question, .str docId]
  let c ← storeHits I P B (fun hitDocId => hitDocId == docId) queryId hits c
  let fingerprint ← scopeFingerprint I F [docId]
  c.addQuery (semanticRecord queryId question (py "document_evidence") fingerprint hits.length)

/-- `_document_probe_stage`. -/
def documentProbeStage (topic : SurveyTopic) (c : SurveyCorpus F) :
    Searching F (SurveyCorpus F) :=
  if B.documentProbeTemplates = [] then pure c
  else (sortedKeys c).foldlM (fun c docId =>
    match c.documents.get docId with
    | none => throw .keyError
    | some record => B.documentProbeTemplates.foldlM (probeDocument I P B topic docId record) c) c

/-- `build`. -/
def build (topic : SurveyTopic) : Searching F (SurveyCorpus F) := do
  topic.validate
  let c ← candidateStage I P B topic (passes B topic) (.new topic)
  let c ← evidenceStage I P B topic c
  let c ← documentProbeStage I P B topic c
  c.validate I
  return c

end Stages

end CorpusBuild
