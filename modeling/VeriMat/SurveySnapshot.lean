import VeriMat.KeyedRecords
import VeriMat.RetrievalSnapshot
import VeriMat.SurveyRecords

/-! # Corpus snapshots

A snapshot lists the documents, queries and passages of a corpus by key and carries the digest of
the rest of it. Reading one back re-keys the records and checks them again. -/
namespace SurveySnapshot

open PyText JsonText PyValue PyDict KeyedRecords Events SurveyRecords
open Verification (Interpreter)
open DecisionGraph (getItem Payload)

variable {F : Type} [PyFloat F]

/-! ## Writing -/

/-- `sorted(set(values))`. -/
def sortedSet {α : Type} [LinearOrder α] (values : List α) : List α :=
  values.dedup.insertionSort (· ≤ ·)

def spanOf (years : List ℤ) : List (Json F) :=
  match years.head?, years.getLast? with
  | some first, some last => [.int first, .int last]
  | _, _ => []

/-- `manifest`. -/
def manifest (I : Interpreter) (c : SurveyCorpus F) : Checked (Json F) := do
  let fingerprint ← c.topic.fingerprint I F
  let documents := c.documents.values
  let queries := c.queries.values
  .ok (.obj [(py "topic_id", .str c.topic.topicId), (py "topic_fingerprint", .str fingerprint),
    (py "databases", texts (sortedSet (documents.map DocumentRecord.database))),
    (py "n_queries", .int queries.length), (py "n_documents", .int documents.length),
    (py "n_citable_documents", .int (documents.countP DocumentRecord.isCitable)),
    (py "n_passages", .int c.passages.values.length),
    (py "n_empty_queries", .int (queries.countP (·.nHits == 0))),
    (py "n_saturated_queries", .int (queries.countP (·.saturated))),
    (py "year_span", .arr (spanOf (sortedSet
      (documents.filterMap fun d => d.year.filter (· != 0)))))])

def topicMembers (t : SurveyTopic) : List (PyStr × Json F) :=
  [(py "topic_id", .str t.topicId), (py "title", .str t.title),
    (py "seed_queries", texts t.seedQueries), (py "probe_questions", texts t.probeQuestions),
    (py "year_from", optInt t.yearFrom), (py "year_to", optInt t.yearTo),
    (py "language", .str t.language), (py "domain", .str t.domain)]

def documentMembers (d : DocumentRecord) : List (PyStr × Json F) :=
  [(py "doc_id", .str d.docId), (py "unique_id", .str d.uniqueId), (py "title", .str d.title),
    (py "year", optInt d.year), (py "venue", .str d.venue), (py "doi", .str d.doi),
    (py "citation_count", .int d.citationCount), (py "database", .str d.database)]

def queryMembers (q : QueryRecord) : List (PyStr × Json F) :=
  [(py "query_id", .str q.queryId), (py "text", .str q.text), (py "stage", .str q.stage),
    (py "intent", .str q.intent), (py "n_hits", .int q.nHits),
    (py "total_matched", optInt q.totalMatched),
    (py "filters_fingerprint", .str q.filtersFingerprint), (py "saturated", .bool q.saturated),
    (py "database", .str q.database)]

def optFloat : Option F → Json F
  | none => .null
  | some x => .float x

def passageMembers (p : SurveyPassage F) : List (PyStr × Json F) :=
  [(py "passage_id", .str p.passageId), (py "doc_id", .str p.docId),
    (py "query_id", .str p.queryId), (py "text", .str p.text),
    (py "content_sha256", .str p.contentSha256), (py "offset", optInt p.offset),
    (py "page_no", optInt p.pageNo), (py "score", optFloat p.score),
    (py "retrieved_by", .str p.retrievedBy), (py "database", .str p.database)]

/-- The members of a snapshot before it is signed. -/
def members (c : SurveyCorpus F) (manifest : Json F) : List (PyStr × Json F) :=
  [(py "schema_version", .int 1), (py "topic", .obj (topicMembers c.topic)),
    (py "documents", .arr ((sortedValues c.documents).map fun d => .obj (documentMembers d))),
    (py "queries", .arr ((sortedValues c.queries).map fun q => .obj (queryMembers q))),
    (py "passages", .arr ((sortedValues c.passages).map fun p => .obj (passageMembers p))),
    (py "manifest", manifest)]

/-- `snapshot`, as the JSON value it is. -/
def snapshot (I : Interpreter) (c : SurveyCorpus F) : Checked (Json F) := do
  c.validate I
  let manifest ← manifest I c
  let digest ← jsonDigest I (ofJson (.obj (members c manifest)))
  .ok (.obj (members c manifest ++ [(py "payload_sha256", .str digest)]))

/-! ## Reading -/

/-- A text argument; without a default a missing one is a TypeError. -/
def textField (kvs : Payload F) (name : PyStr) (default : Option PyStr) : Checked PyStr :=
  match getItem kvs name, default with
  | some (.str s), _ => .ok s
  | some _, _ => .error .untyped
  | none, some s => .ok s
  | none, none => .error .typeError

def intField (kvs : Payload F) (name : PyStr) (default : Option ℤ) : Checked ℤ :=
  match getItem kvs name, default with
  | some (.int n), _ => .ok n
  | some _, _ => .error .untyped
  | none, some n => .ok n
  | none, none => .error .typeError

def optIntField (kvs : Payload F) (name : PyStr) (default : Option (Option ℤ)) :
    Checked (Option ℤ) :=
  match getItem kvs name, default with
  | some .none, _ => .ok none
  | some (.int n), _ => .ok (some n)
  | some _, _ => .error .untyped
  | none, some n => .ok n
  | none, none => .error .typeError

def boolField (kvs : Payload F) (name : PyStr) (default : Bool) : Checked Bool :=
  match getItem kvs name with
  | some (.bool b) => .ok b
  | some _ => .error .untyped
  | none => .ok default

def optFloatField (kvs : Payload F) (name : PyStr) : Checked (Option F) :=
  match getItem kvs name with
  | some (.float x) => .ok (some x)
  | some .none | none => .ok none
  | some _ => .error .untyped

def asText : PyVal F → Checked PyStr
  | .str s => .ok s
  | _ => .error .untyped

/-- `tuple(kvs.get(name, ()))`, of texts. -/
def textsField (kvs : Payload F) (name : PyStr) : Checked (List PyStr) :=
  match getItem kvs name with
  | some (.list xs) | some (.tuple xs) => xs.mapM asText
  | some (.str _) | some (.dict _) => .error .untyped
  | some _ => .error .typeError
  | none => .ok []

/-- The keyword arguments of a dataclass: a mapping whose keys are all field names. -/
def keywords (names : List PyStr) : PyVal F → Checked (Payload F)
  | .dict kvs =>
    if kvs.all fun p => names.any fun name => sameKey (.str name) p.1 then .ok kvs
    else .error .typeError
  | _ => .error .typeError

/-- `SurveyTopic(topic_id=topic_value.get("topic_id", ""), ..)`. -/
def readTopic (kvs : Payload F) : Checked SurveyTopic := do
  .ok {
    topicId := ← textField kvs (py "topic_id") (some [])
    title := ← textField kvs (py "title") (some [])
    seedQueries := ← textsField kvs (py "seed_queries")
    probeQuestions := ← textsField kvs (py "probe_questions")
    yearFrom := ← optIntField kvs (py "year_from") (some none)
    yearTo := ← optIntField kvs (py "year_to") (some none)
    language := ← textField kvs (py "language") (some (py "en"))
    domain := ← textField kvs (py "domain") (some []) }

def documentFields : List PyStr :=
  [py "doc_id", py "unique_id", py "title", py "year", py "venue", py "doi", py "citation_count",
    py "database"]

/-- `DocumentRecord(**value)`. -/
def readDocument (value : PyVal F) : Checked DocumentRecord := do
  let kvs ← keywords documentFields value
  .ok {
    docId := ← textField kvs (py "doc_id") none
    uniqueId := ← textField kvs (py "unique_id") none
    title := ← textField kvs (py "title") none
    year := ← optIntField kvs (py "year") none
    venue := ← textField kvs (py "venue") none
    doi := ← textField kvs (py "doi") none
    citationCount := ← intField kvs (py "citation_count") (some 0)
    database := ← textField kvs (py "database") (some sciverse) }

def queryFields : List PyStr :=
  [py "query_id", py "text", py "stage", py "intent", py "n_hits", py "total_matched",
    py "filters_fingerprint", py "saturated", py "database"]

/-- `QueryRecord(**value)`. -/
def readQuery (value : PyVal F) : Checked QueryRecord := do
  let kvs ← keywords queryFields value
  .ok {
    queryId := ← textField kvs (py "query_id") none
    text := ← textField kvs (py "text") none
    stage := ← textField kvs (py "stage") none
    intent := ← textField kvs (py "intent") none
    nHits := ← intField kvs (py "n_hits") none
    totalMatched := ← optIntField kvs (py "total_matched") (some none)
    filtersFingerprint := ← textField kvs (py "filters_fingerprint") (some [])
    saturated := ← boolField kvs (py "saturated") false
    database := ← textField kvs (py "database") (some sciverse) }

def passageFields : List PyStr :=
  [py "passage_id", py "doc_id", py "query_id", py "text", py "content_sha256", py "offset",
    py "page_no", py "score", py "retrieved_by", py "database"]

/-- `SurveyPassage(**value)`. -/
def readPassage (value : PyVal F) : Checked (SurveyPassage F) := do
  let kvs ← keywords passageFields value
  .ok {
    passageId := ← textField kvs (py "passage_id") none
    docId := ← textField kvs (py "doc_id") none
    queryId := ← textField kvs (py "query_id") none
    text := ← textField kvs (py "text") none
    contentSha256 := ← textField kvs (py "content_sha256") none
    offset := ← optIntField kvs (py "offset") (some none)
    pageNo := ← optIntField kvs (py "page_no") (some none)
    score := ← optFloatField kvs (py "score")
    retrievedBy := ← textField kvs (py "retrieved_by") (some (py "agentic-search"))
    database := ← textField kvs (py "database") (some sciverse) }

/-- `payload.get(name, ())`, iterated. -/
def elements (kvs : Payload F) (name : PyStr) : Checked (List (PyVal F)) :=
  match getItem kvs name with
  | some (.list xs) | some (.tuple xs) => .ok xs
  | some (.str _) | some (.dict _) => .error .untyped
  | some _ => .error .typeError
  | none => .ok []

/-- `payload` without its digest. -/
def unsigned (kvs : Payload F) : Payload F :=
  kvs.filter fun p => !sameKey (.str (py "payload_sha256")) p.1

/-- `payload.get(name) == value`. -/
def itemIs (kvs : Payload F) (name : PyStr) (value : PyVal F) : Bool :=
  match getItem kvs name with
  | some v => pyEq v value
  | none => false

/-- The records of a snapshot, added to a new corpus. -/
def rebuild (I : Interpreter) (topic : SurveyTopic) (kvs : Payload F) :
    Checked (SurveyCorpus F) := do
  let documents ← elements kvs (py "documents")
  let c ← documents.foldlM (fun c v => do c.addDocument (← readDocument v)) (.new topic)
  let queries ← elements kvs (py "queries")
  let c ← queries.foldlM (fun c v => do c.addQuery (← readQuery v)) c
  let passages ← elements kvs (py "passages")
  let c ← passages.foldlM (fun c v => do c.addPassage I (← readPassage v)) c
  c.validate I
  .ok c

/-- `from_snapshot`. -/
def fromSnapshot (I : Interpreter) : PyVal F → Checked (SurveyCorpus F)
  | .dict kvs => do
    refuseIf (itemIs kvs (py "schema_version") (.int 1) = false) .unsupportedSnapshot
    let actual ← jsonDigest I (.dict (unsigned kvs))
    refuseIf (itemIs kvs (py "payload_sha256") (.str actual) = false) .snapshotDigest
    match getItem kvs (py "topic") with
    | some (.dict t) => rebuild I (← readTopic t) kvs
    | _ => .error (.contract .snapshotTopic)
  | _ => .error (.contract .unsupportedSnapshot)

/-! ## Items -/

/-- The value of the first member of this name. -/
def member (ms : List (PyStr × Json F)) (name : PyStr) : Option (Json F) :=
  (ms.find? fun p => name == p.1).map Prod.snd

/-- A dict that reads as these members. -/
structure Reads (kvs : Payload F) (ms : List (PyStr × Json F)) : Prop where
  item : ∀ name, getItem kvs name = (member ms name).map ofJson
  key : ∀ p ∈ kvs, ∃ q ∈ ms, p.1 = .str q.1

theorem getItem_ofMembers (ms : List (PyStr × Json F)) (name : PyStr) :
    getItem (ofMembers ms) name = (member ms name).map ofJson := by
  rw [getItem, member, ofMembers_eq, List.find?_map, Option.map_map, Option.map_map]
  rfl

omit [PyFloat F] in
theorem mem_ofMembers {ms : List (PyStr × Json F)} {p : PyKey F × PyVal F}
    (h : p ∈ ofMembers ms) : ∃ q ∈ ms, p = (.str q.1, ofJson q.2) := by
  rw [ofMembers_eq] at h
  obtain ⟨q, hq, rfl⟩ := List.mem_map.mp h
  exact ⟨q, hq, rfl⟩

theorem reads_ofMembers (ms : List (PyStr × Json F)) : Reads (ofMembers ms) ms where
  item := getItem_ofMembers ms
  key p hp := by
    obtain ⟨q, hq, rfl⟩ := mem_ofMembers hp
    exact ⟨q, hq, rfl⟩

omit [PyFloat F] in
theorem member_eq_some {ms : List (PyStr × Json F)} (h : (ms.map Prod.fst).Nodup) {name : PyStr}
    {j : Json F} : member ms name = some j ↔ (name, j) ∈ ms := by
  constructor
  · intro hm
    obtain ⟨p, hp, rfl⟩ := Option.map_eq_some_iff.mp hm
    have hname : name = p.1 := by simpa using List.find?_some hp
    rw [hname]
    exact List.mem_of_find?_eq_some hp
  · intro hm
    rw [member, find_key h hm]
    rfl

/-- The members `sortNames` leaves. -/
def sortedMembers (ms : List (PyStr × Json F)) : List (PyStr × Json F) :=
  (sortMembers ms).insertionSort nameLE

omit [PyFloat F] in
theorem sortedMembers_nodup {ms : List (PyStr × Json F)} (h : (ms.map Prod.fst).Nodup) :
    ((sortedMembers ms).map Prod.fst).Nodup := by
  refine (names_insertionSort _).nodup_iff.mpr ?_
  rw [sortMembers_eq, List.map_map]
  exact h

omit [PyFloat F] in
theorem member_sortedMembers {ms : List (PyStr × Json F)} (h : (ms.map Prod.fst).Nodup)
    (name : PyStr) : member (sortedMembers ms) name = (member ms name).map sortNames := by
  ext v
  rw [member_eq_some (sortedMembers_nodup h), sortedMembers, List.mem_insertionSort,
    sortMembers_eq, List.mem_map, Option.map_eq_some_iff]
  constructor
  · rintro ⟨⟨k, j⟩, hj, heq⟩
    cases heq
    exact ⟨j, (member_eq_some h).mpr hj, rfl⟩
  · rintro ⟨j, hj, rfl⟩
    exact ⟨(name, j), (member_eq_some h).mp hj, rfl⟩

/-- Members with distinct names whose values hold no object. -/
structure Flat (ms : List (PyStr × Json F)) : Prop where
  names : (ms.map Prod.fst).Nodup
  sorted : ∀ p ∈ ms, NamesSorted p.2

/-- A flat object reads the same once its names are sorted. -/
theorem reads_sorted {ms : List (PyStr × Json F)} (h : Flat ms) :
    Reads (ofMembers (sortedMembers ms)) ms where
  item name := by
    rw [getItem_ofMembers, member_sortedMembers h.names]
    cases hm : member ms name with
    | none => rfl
    | some j =>
      have hj : NamesSorted j := h.sorted _ ((member_eq_some h.names).mp hm)
      rw [Option.map_some, sortNames_of_sorted j hj]
  key p hp := by
    obtain ⟨q, hq, rfl⟩ := mem_ofMembers hp
    rw [sortedMembers, List.mem_insertionSort, sortMembers_eq] at hq
    obtain ⟨r, hr, rfl⟩ := List.mem_map.mp hq
    exact ⟨r, hr, rfl⟩

/-! ## Reading the records -/

section Fields

variable {kvs : Payload F} {ms : List (PyStr × Json F)}

theorem Reads.text (h : Reads kvs ms) (name : PyStr) {s : PyStr} (hm : member ms name = some (.str s))
    (default : Option PyStr) : textField kvs name default = .ok s := by
  simp only [textField, h.item, hm, Option.map_some, ofJson]

theorem Reads.int (h : Reads kvs ms) (name : PyStr) {n : ℤ} (hm : member ms name = some (.int n))
    (default : Option ℤ) : intField kvs name default = .ok n := by
  simp only [intField, h.item, hm, Option.map_some, ofJson]

theorem Reads.optInt (h : Reads kvs ms) (name : PyStr) {n : Option ℤ} (hm : member ms name = some (optInt n))
    (default : Option (Option ℤ)) : optIntField kvs name default = .ok n := by
  cases n with
  | none => simp only [optIntField, h.item, hm, Option.map_some, SurveyRecords.optInt, ofJson]
  | some n => simp only [optIntField, h.item, hm, Option.map_some, SurveyRecords.optInt, ofJson]

theorem Reads.bool (h : Reads kvs ms) (name : PyStr) {b : Bool} (hm : member ms name = some (.bool b))
    (default : Bool) : boolField kvs name default = .ok b := by
  rw [boolField, h.item, hm]
  rfl

theorem Reads.optFloat (h : Reads kvs ms) (name : PyStr) {x : Option F}
    (hm : member ms name = some (optFloat x)) : optFloatField kvs name = .ok x := by
  rw [optFloatField, h.item, hm]
  cases x with
  | none => rfl
  | some x => rfl

omit [PyFloat F] in
theorem mapM_asText (xs : List PyStr) :
    (ofElems (xs.map .str : List (Json F))).mapM asText = .ok xs := by
  induction xs with
  | nil => rfl
  | cons x xs ih =>
    rw [List.map_cons, ofElems, List.mapM_cons, ih]
    rfl

theorem Reads.texts (h : Reads kvs ms) (name : PyStr) {xs : List PyStr}
    (hm : member ms name = some (texts xs)) : textsField kvs name = .ok xs := by
  rw [textsField, h.item, hm]
  exact mapM_asText xs

theorem Reads.keywords (h : Reads kvs ms) (names : List PyStr) (hn : ms.map Prod.fst = names) :
    keywords names (.dict kvs) = .ok kvs := by
  rw [SurveySnapshot.keywords, if_pos]
  rw [List.all_eq_true]
  intro p hp
  obtain ⟨q, hq, hkey⟩ := h.key p hp
  rw [List.any_eq_true]
  refine ⟨q.1, hn ▸ List.mem_map_of_mem hq, ?_⟩
  rw [hkey, sameKey, beq_iff_eq]

end Fields

theorem reads_topic {kvs : Payload F} {t : SurveyTopic} (h : Reads kvs (topicMembers t)) :
    readTopic kvs = .ok t := by
  have htopicId := h.text (py "topic_id") rfl (some [])
  have htitle := h.text (py "title") rfl (some [])
  have hseeds := h.texts (py "seed_queries") rfl
  have hprobes := h.texts (py "probe_questions") rfl
  have hfrom := h.optInt (py "year_from") rfl (some none)
  have hto := h.optInt (py "year_to") rfl (some none)
  have hlanguage := h.text (py "language") rfl (some (py "en"))
  have hdomain := h.text (py "domain") rfl (some [])
  simp only [readTopic, htopicId, htitle, hseeds, hprobes, hfrom, hto, hlanguage, hdomain, bind,
    Except.bind]

theorem reads_document {kvs : Payload F} {d : DocumentRecord} (h : Reads kvs (documentMembers d)) :
    readDocument (.dict kvs) = .ok d := by
  have hkeywords := h.keywords documentFields rfl
  have hdocId := h.text (py "doc_id") rfl none
  have huniqueId := h.text (py "unique_id") rfl none
  have htitle := h.text (py "title") rfl none
  have hyear := h.optInt (py "year") rfl none
  have hvenue := h.text (py "venue") rfl none
  have hdoi := h.text (py "doi") rfl none
  have hcitations := h.int (py "citation_count") rfl (some 0)
  have hdatabase := h.text (py "database") rfl (some sciverse)
  simp only [readDocument, hkeywords, hdocId, huniqueId, htitle, hyear, hvenue, hdoi, hcitations,
    hdatabase, bind, Except.bind]

theorem reads_query {kvs : Payload F} {q : QueryRecord} (h : Reads kvs (queryMembers q)) :
    readQuery (.dict kvs) = .ok q := by
  have hkeywords := h.keywords queryFields rfl
  have hqueryId := h.text (py "query_id") rfl none
  have htext := h.text (py "text") rfl none
  have hstage := h.text (py "stage") rfl none
  have hintent := h.text (py "intent") rfl none
  have hhits := h.int (py "n_hits") rfl none
  have htotal := h.optInt (py "total_matched") rfl (some none)
  have hfilters := h.text (py "filters_fingerprint") rfl (some [])
  have hsaturated := h.bool (py "saturated") rfl false
  have hdatabase := h.text (py "database") rfl (some sciverse)
  simp only [readQuery, hkeywords, hqueryId, htext, hstage, hintent, hhits, htotal, hfilters,
    hsaturated, hdatabase, bind, Except.bind]

theorem reads_passage {kvs : Payload F} {p : SurveyPassage F} (h : Reads kvs (passageMembers p)) :
    readPassage (.dict kvs) = .ok p := by
  have hkeywords := h.keywords passageFields rfl
  have hpassageId := h.text (py "passage_id") rfl none
  have hdocId := h.text (py "doc_id") rfl none
  have hqueryId := h.text (py "query_id") rfl none
  have htext := h.text (py "text") rfl none
  have hsha := h.text (py "content_sha256") rfl none
  have hoffset := h.optInt (py "offset") rfl (some none)
  have hpage := h.optInt (py "page_no") rfl (some none)
  have hscore := h.optFloat (py "score") rfl
  have hretrieved := h.text (py "retrieved_by") rfl (some (py "agentic-search"))
  have hdatabase := h.text (py "database") rfl (some sciverse)
  simp only [readPassage, hkeywords, hpassageId, hdocId, hqueryId, htext, hsha, hoffset, hpage,
    hscore, hretrieved, hdatabase, bind, Except.bind]

/-! ## Flat members -/

omit [PyFloat F] in
theorem namesSorted_optInt (n : Option ℤ) : NamesSorted (optInt n : Json F) := by
  cases n <;> trivial

omit [PyFloat F] in
theorem namesSorted_optFloat (x : Option F) : NamesSorted (optFloat x) := by
  cases x <;> trivial

omit [PyFloat F] in
theorem namesSorted_texts (xs : List PyStr) : NamesSorted (texts xs : Json F) := by
  rw [texts, NamesSorted, elemsSorted_iff]
  intro x hx
  obtain ⟨s, _, rfl⟩ := List.mem_map.mp hx
  trivial

omit [PyFloat F] in
theorem flat_topic (t : SurveyTopic) : Flat (topicMembers t : List (PyStr × Json F)) where
  names := by
    have hnames : (topicMembers t : List (PyStr × Json F)).map Prod.fst =
        [py "topic_id", py "title", py "seed_queries", py "probe_questions", py "year_from",
          py "year_to", py "language", py "domain"] := rfl
    rw [hnames]
    decide
  sorted := by
    simp [topicMembers, namesSorted_optInt, namesSorted_texts, NamesSorted]

omit [PyFloat F] in
theorem flat_document (d : DocumentRecord) :
    Flat (documentMembers d : List (PyStr × Json F)) where
  names := by
    have hnames : (documentMembers d : List (PyStr × Json F)).map Prod.fst = documentFields := rfl
    rw [hnames]
    decide
  sorted := by
    simp [documentMembers, namesSorted_optInt, NamesSorted]

omit [PyFloat F] in
theorem flat_query (q : QueryRecord) : Flat (queryMembers q : List (PyStr × Json F)) where
  names := by
    have hnames : (queryMembers q : List (PyStr × Json F)).map Prod.fst = queryFields := rfl
    rw [hnames]
    decide
  sorted := by
    simp [queryMembers, namesSorted_optInt, NamesSorted]

omit [PyFloat F] in
theorem flat_passage (p : SurveyPassage F) : Flat (passageMembers p) where
  names := by
    have hnames : (passageMembers p).map Prod.fst = passageFields := rfl
    rw [hnames]
    decide
  sorted := by
    simp [passageMembers, namesSorted_optInt, namesSorted_optFloat, NamesSorted]

end SurveySnapshot
