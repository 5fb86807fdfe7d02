import VeriMat.CorpusBuild
import VeriMat.SurveyRoundTrip

/-! # Runs of the corpus builder

A run is a sequence of executed searches. Each adds documents or passages that were checked and
writes one record under its query id; what follows from one search is carried along the run. -/
namespace CorpusRuns

open PyText JsonText PyValue PyDict KeyedRecords ModelTransports SurveyRecords SurveyRoundTrip
  CorpusBuild
open Verification (Interpreter)
open DecisionGraph (getItem Payload)

variable {F : Type}

/-! ## Searching code -/

theorem run_search {R : Type} {reply? : List (Executed F) → Except Unit R}
    {entry : R → Executed F} {log log' : List (Executed F)} {reply : R} :
    search reply? entry log = .ok (reply, log') ↔
      reply? log = .ok reply ∧ log' = log ++ [entry reply] := by
  rw [search, run_ask_bind]
  constructor
  · rintro ⟨r, hask, h⟩
    rw [run_note_bind] at h
    obtain ⟨rfl, rfl⟩ := run_pure.mp h
    exact ⟨hask, rfl⟩
  · rintro ⟨hask, rfl⟩
    exact ⟨reply, hask, rfl⟩

/-- A search, and what goes on from its reply. -/
theorem run_search_bind {R β : Type} {reply? : List (Executed F) → Except Unit R}
    {entry : R → Executed F} {f : R → Searching F β} {log log' : List (Executed F)} {b : β} :
    (search reply? entry >>= f) log = .ok (b, log') ↔
      ∃ reply, reply? log = .ok reply ∧ f reply (log ++ [entry reply]) = .ok (b, log') := by
  rw [run_bind]
  constructor
  · rintro ⟨reply, log₁, hran, hf⟩
    obtain ⟨hask, rfl⟩ := run_search.mp hran
    exact ⟨reply, hask, hf⟩
  · rintro ⟨reply, hask, hf⟩
    exact ⟨reply, _, run_search.mpr ⟨hask, rfl⟩, hf⟩

/-! ## Document handles -/

/-- A handle as it is sent: 64 hexadecimal digits. -/
structure HexId (docId : PyStr) : Prop where
  length : docId.length = 64
  digits : ∀ c ∈ docId, isLowerHex c = true

theorem isSpace_of_hex {c : ℕ} (h : isLowerHex c = true) : isSpace c = false := by
  simp only [isLowerHex, Bool.or_eq_true, Bool.and_eq_true, decide_eq_true_eq] at h
  simp only [isSpace, Bool.or_eq_false_iff, Bool.and_eq_false_iff, decide_eq_false_iff_not,
    beq_eq_false_iff_ne]
  omega

theorem dropWhile_space {s : PyStr} (h : ∀ c ∈ s, isSpace c = false) :
    s.dropWhile isSpace = s := by
  cases s with
  | nil => rfl
  | cons c s => rw [List.dropWhile_cons_of_neg (by simp [h c])]

theorem strip_of_noSpace {s : PyStr} (h : ∀ c ∈ s, isSpace c = false) : strip s = s := by
  have hreverse : ∀ c ∈ s.reverse, isSpace c = false := fun c hc => h c (List.mem_reverse.mp hc)
  rw [strip, dropWhile_space h, dropWhile_space hreverse, List.reverse_reverse]

theorem getLast_strip {s : PyStr} {c : ℕ} (h : (strip s).getLast? = some c) :
    isSpace c = false := by
  rw [strip, List.getLast?_reverse] at h
  have hhead := List.head?_dropWhile_not isSpace (s.dropWhile isSpace).reverse
  rw [h] at hhead
  exact hhead

/-- A stripped handle that passes the check has no line feed behind its digits. -/
theorem hexId_strip {s : PyStr} (h : isDocId (strip s) = true) : HexId (strip s) := by
  have hlast : (strip s).getLast? ≠ some 10 := by
    intro hfeed
    have hspace := getLast_strip hfeed
    cases hspace
  rw [isDocId, if_neg hlast, Bool.and_eq_true, List.all_eq_true] at h
  exact ⟨beq_iff_eq.mp h.1, h.2⟩

theorem HexId.isDocId {docId : PyStr} (h : HexId docId) : isDocId docId = true := by
  have hlast : docId.getLast? ≠ some 10 := by
    intro hfeed
    have hdigit := h.digits 10 (List.mem_of_getLast? hfeed)
    cases hdigit
  rw [SurveyRecords.isDocId, if_neg hlast, Bool.and_eq_true, List.all_eq_true]
  exact ⟨beq_iff_eq.mpr h.length, h.digits⟩

theorem HexId.normalised {docId : PyStr} (h : HexId docId) : lowered (strip docId) = docId := by
  rw [strip_of_noSpace fun c hc => isSpace_of_hex (h.digits c hc), lowered]
  refine (List.map_congr_left fun c hc => ?_).trans (List.map_id _)
  have hdigit := h.digits c hc
  simp only [isLowerHex, Bool.or_eq_true, Bool.and_eq_true, decide_eq_true_eq] at hdigit
  rw [if_neg (by omega), id]

theorem distinct_of_nodup {xs : List PyStr} (h : xs.Nodup) : distinct xs = xs := by
  have hkeys : ((xs.map fun v => (v, ())).map Prod.fst).Nodup := by
    rw [List.map_map]
    exact (List.map_id xs).symm ▸ h
  rw [distinct, ofPairs_of_nodup hkeys, List.map_map]
  exact List.map_id xs

/-- A scope of handles is sent as it is. -/
theorem normaliseDocIds_eq {docIds : List PyStr} (h : ∀ d ∈ docIds, HexId d) (hn : docIds.Nodup)
    (hlength : docIds.length ≤ 1000) : normaliseDocIds docIds = .ok docIds := by
  have hids : (docIds.map fun value => lowered (strip value)) = docIds :=
    (List.map_congr_left fun d hd => (h d hd).normalised).trans (List.map_id docIds)
  have hall : docIds.all isDocId = true := by
    rw [List.all_eq_true]
    exact fun d hd => (h d hd).isDocId
  rw [normaliseDocIds, hids, distinct_of_nodup hn, hall]
  simp [Nat.not_lt.mpr hlength]

/-! ## What a run gathers -/

section Gathering
variable [PyFloat F] {I : Interpreter} {P : Conversions F} {B : CorpusBuilder F}

/-- A passage that was built from a long enough text. -/
structure Kept (I : Interpreter) (B : CorpusBuilder F) (p : SurveyPassage F) : Prop where
  valid : p.validate I = .ok ()
  long : B.minPassageChars ≤ p.text.length
  built : ∃ n, SurveyPassage.build I n = .ok p

/-- The invariant of the builder. -/
structure Gathered (I : Interpreter) (B : CorpusBuilder F) (c : SurveyCorpus F) : Prop where
  documents : Keyed DocumentRecord.key (HexId ·.docId) c.documents
  few : documentCount c ≤ B.maxCandidates
  passages : Keyed SurveyPassage.passageId (Kept I B) c.passages

theorem gathered_new (topic : SurveyTopic) : Gathered I B (.new topic) where
  documents := keyed_empty _ _
  few := le_trans zero_le_one B.candidate
  passages := keyed_empty _ _

omit [PyFloat F] in
theorem documentCount_add {c : SurveyCorpus F} {key : PyStr} {d : DocumentRecord}
    (hnew : (c.documents.get key).isSome = false) :
    documentCount { c with documents := c.documents.set key d } = documentCount c + 1 := by
  have hkey : key ∉ c.documents.items.map Prod.fst := by
    intro hmem
    obtain ⟨p, hp, rfl⟩ := List.mem_map.mp hmem
    rw [Dict.get_eq_some.mpr hp] at hnew
    cases hnew
  simp [documentCount, Dict.set, setItem_of_notMem hkey]

theorem isDocId_of_valid {d : DocumentRecord} (h : d.validate = .ok ()) (hid : d.docId ≠ []) :
    isDocId d.docId = true := by
  rw [DocumentRecord.validate, bind_eq_ok] at h
  obtain ⟨_, _, h⟩ := h
  obtain ⟨_, _, h⟩ := bind_eq_ok.mp h
  obtain ⟨_, _, h⟩ := bind_eq_ok.mp h
  obtain ⟨_, hformat, _⟩ := bind_eq_ok.mp h
  rw [refuseIf_eq_ok] at hformat
  by_contra hbad
  exact hformat ⟨hid, Bool.eq_false_iff.mpr hbad⟩

theorem textOf_eq (value : Option (PyVal F)) : ∃ s, textOf I value = strip s := by
  cases value with
  | none => exact ⟨[], rfl⟩
  | some v =>
    cases v with
    | none => exact ⟨[], rfl⟩
    | _ => exact ⟨_, rfl⟩

theorem text_build {n : NewPassage F} {p : SurveyPassage F}
    (h : SurveyPassage.build I n = .ok p) : p.text = n.text := by
  rw [SurveyPassage.build] at h
  obtain ⟨digest, _, h⟩ := bind_eq_ok.mp h
  obtain ⟨passageId, _, h⟩ := bind_eq_ok.mp h
  cases h
  rfl

/-- A row that becomes a document has a handle. -/
theorem hexId_documentFromRow {row : Payload F} {d : DocumentRecord}
    (h : documentFromRow I P row = .ok (some d)) : HexId d.docId := by
  rw [documentFromRow] at h
  split_ifs at h with hempty
  · cases h
  · obtain ⟨year, _, h⟩ := bind_eq_ok.mp h
    obtain ⟨count, _, h⟩ := bind_eq_ok.mp h
    dsimp only at h
    split at h
    case h_1 hvalid =>
      cases h
      have hformat := isDocId_of_valid hvalid hempty
      obtain ⟨s, hs⟩ := textOf_eq (I := I) (getItem row (py "doc_id"))
      have hdocId := hexId_strip (hs ▸ hformat)
      rwa [← hs] at hdocId
    all_goals cases h

/-- Rows add documents and nothing else, as far as there is room for them. -/
theorem addRows_ok {rows : List (Payload F)} {c c' : SurveyCorpus F} (hc : Gathered I B c)
    (h : addRows I P B rows c = .ok c') : Gathered I B c' ∧ c'.queries = c.queries := by
  induction rows generalizing c with
  | nil =>
    cases h
    exact ⟨hc, rfl⟩
  | cons row rows ih =>
    rw [addRows] at h
    obtain ⟨record, hrecord, h⟩ := bind_eq_ok.mp h
    cases record with
    | none => exact ih hc h
    | some d =>
      by_cases hknown : (c.documents.get d.key).isSome
      · simp only [hknown, if_true] at h
        exact ih hc h
      · by_cases hfull : B.maxCandidates ≤ documentCount c
        · simp only [hknown, hfull, if_true] at h
          cases h
          exact ⟨hc, rfl⟩
        · simp only [hknown, hfull, if_false] at h
          obtain ⟨c₁, hadd, h⟩ := bind_eq_ok.mp h
          obtain ⟨_, rfl⟩ := addDocument_eq_ok.mp hadd
          have hroom : documentCount { c with documents := c.documents.set d.key d } ≤
              B.maxCandidates := by
            rw [documentCount_add (Bool.eq_false_iff.mpr hknown)]
            omega
          have hc₁ : Gathered I B { c with documents := c.documents.set d.key d } :=
            ⟨hc.documents.set (hexId_documentFromRow hrecord), hroom, hc.passages⟩
          obtain ⟨hc', hqueries⟩ := ih hc₁ h
          exact ⟨hc', hqueries⟩

/-- A hit adds a passage at most. -/
theorem storeHit_ok {admitted : PyStr → Bool} {queryId : PyStr} {c c' : SurveyCorpus F}
    {hit : PyVal F} (hc : Gathered I B c) (h : storeHit I P B admitted queryId c hit = .ok c') :
    Gathered I B c' ∧ c'.queries = c.queries ∧ c'.documents = c.documents := by
  cases hit with
  | dict hit =>
    rw [storeHit] at h
    split_ifs at h with hskip
    · cases h
      exact ⟨hc, rfl, rfl⟩
    · obtain ⟨offset, _, h⟩ := bind_eq_ok.mp h
      obtain ⟨pageNo, _, h⟩ := bind_eq_ok.mp h
      obtain ⟨score, _, h⟩ := bind_eq_ok.mp h
      obtain ⟨p, hbuild, h⟩ := bind_eq_ok.mp h
      obtain ⟨hvalid, rfl⟩ := addPassage_eq_ok.mp h
      have htext := text_build hbuild
      have hlong : B.minPassageChars ≤ p.text.length := by
        rw [htext]
        push Not at hskip
        exact hskip.2
      exact ⟨⟨hc.documents, hc.few, hc.passages.set ⟨hvalid, hlong, _, hbuild⟩⟩, rfl, rfl⟩
  | _ => cases h

theorem storeHits_ok {admitted : PyStr → Bool} {queryId : PyStr} {hits : List (PyVal F)}
    {c c' : SurveyCorpus F} (hc : Gathered I B c)
    (h : storeHits I P B admitted queryId hits c = .ok c') :
    Gathered I B c' ∧ c'.queries = c.queries ∧ c'.documents = c.documents := by
  induction hits generalizing c with
  | nil =>
    cases h
    exact ⟨hc, rfl, rfl⟩
  | cons hit hits ih =>
    rw [storeHits, List.foldlM_cons] at h
    obtain ⟨c₁, hstore, h⟩ := bind_eq_ok.mp h
    obtain ⟨hc₁, hqueries, hdocuments⟩ := storeHit_ok hc hstore
    obtain ⟨hc', hqueries', hdocuments'⟩ := ih hc₁ h
    exact ⟨hc', hqueries'.trans hqueries, hdocuments'.trans hdocuments⟩

theorem addQuery_ok {c c' : SurveyCorpus F} {q : QueryRecord} (hc : Gathered I B c)
    (h : c.addQuery q = .ok c') :
    Gathered I B c' ∧ c'.queries = c.queries.set q.queryId q ∧ c'.documents = c.documents := by
  obtain ⟨_, rfl⟩ := addQuery_eq_ok.mp h
  exact ⟨⟨hc.documents, hc.few, hc.passages⟩, rfl, rfl⟩

/-! ## One search -/

/-- The record of an executed search. -/
def record (I : Interpreter) (P : Conversions F) : Executed F → Checked QueryRecord
  | .metadata intent request reply => do
    let fingerprint ← filtersFingerprint I request.filters
    let rows ← rowsOf reply
    metadataRecord I P intent request.query fingerprint reply rows.length
  | .evidence shard request reply => do
    let queryId ← digestId (F := F) I (py "qry")
      [.str (py "semantic"), .str request.query, .list (shard.map .str)]
    let fingerprint ← scopeFingerprint I F shard
    .ok (semanticRecord queryId request.query (py "evidence") fingerprint reply.length)
  | .documentProbe docId request reply => do
    let queryId ← digestId (F := F) I (py "qry")
      [.str (py "semantic-document"), .str request.query, .str docId]
    let fingerprint ← scopeFingerprint I F [docId]
    .ok (semanticRecord queryId request.query (py "document_evidence") fingerprint reply.length)

/-- What one executed search makes of the corpus. -/
structure Step (I : Interpreter) (P : Conversions F) (B : CorpusBuilder F) (c : SurveyCorpus F)
    (e : Executed F) (c' : SurveyCorpus F) : Prop where
  gathered : Gathered I B c'
  recorded : ∃ r, record I P e = .ok r ∧ c'.queries = c.queries.set r.queryId r

variable {log log' : List (Executed F)} {c c' : SurveyCorpus F}

theorem searchCandidates_step {intent query fingerprint : PyStr} {filters : Json F}
    (hc : Gathered I B c) (hfingerprint : filtersFingerprint I filters = .ok fingerprint)
    (h : searchCandidates I P B intent filters fingerprint query c log = .ok (c', log')) :
    ∃ request reply, log' = log ++ [.metadata intent request reply] ∧
      Step I P B c (.metadata intent request reply) c' := by
  obtain ⟨envelope, _, h⟩ := run_search_bind.mp h
  obtain ⟨rows, hrows, h⟩ := run_lift_bind.mp h
  obtain ⟨c₁, hadd, h⟩ := run_lift_bind.mp h
  obtain ⟨r, hrecord, h⟩ := run_lift_bind.mp h
  obtain ⟨hquery, rfl⟩ := run_lift.mp h
  obtain ⟨hc₁, hqueries⟩ := addRows_ok hc hadd
  obtain ⟨hc', hset, _⟩ := addQuery_ok hc₁ hquery
  refine ⟨_, _, rfl, hc', r, ?_, hqueries ▸ hset⟩
  rw [record, hfingerprint]
  exact bind_eq_ok.mpr ⟨fingerprint, rfl, bind_eq_ok.mpr ⟨rows, hrows, hrecord⟩⟩

theorem searchShard_step {question : PyStr} {shard : List PyStr} (hc : Gathered I B c)
    (h : searchShard I P B question c shard log = .ok (c', log')) :
    ∃ docIds reply, normaliseDocIds shard = .ok docIds ∧
      log' = log ++ [.evidence shard ⟨question, B.semanticTopK, docIds⟩ reply] ∧
      Step I P B c (.evidence shard ⟨question, B.semanticTopK, docIds⟩ reply) c' ∧
      c'.documents = c.documents := by
  obtain ⟨docIds, hids, h⟩ := run_lift_bind.mp h
  obtain ⟨hits, _, h⟩ := run_search_bind.mp h
  obtain ⟨queryId, hid, h⟩ := run_lift_bind.mp h
  obtain ⟨c₁, hstore, h⟩ := run_lift_bind.mp h
  obtain ⟨fingerprint, hfingerprint, h⟩ := run_lift_bind.mp h
  obtain ⟨hquery, rfl⟩ := run_lift.mp h
  obtain ⟨hc₁, hqueries, hdocuments⟩ := storeHits_ok hc hstore
  obtain ⟨hc', hset, hkept⟩ := addQuery_ok hc₁ hquery
  refine ⟨docIds, hits, hids, rfl, ⟨hc', _, ?_, hqueries ▸ hset⟩, hkept.trans hdocuments⟩
  exact bind_eq_ok.mpr ⟨queryId, hid, bind_eq_ok.mpr ⟨fingerprint, hfingerprint, rfl⟩⟩

theorem probeDocument_step {topic : SurveyTopic} {docId template : PyStr} {d : DocumentRecord}
    (hc : Gathered I B c)
    (h : probeDocument I P B topic docId d c template log = .ok (c', log')) :
    ∃ request reply, log' = log ++ [.documentProbe docId request reply] ∧
      Step I P B c (.documentProbe docId request reply) c' ∧ c'.documents = c.documents := by
  obtain ⟨question, _, h⟩ := run_lift_bind.mp h
  obtain ⟨docIds, _, h⟩ := run_lift_bind.mp h
  obtain ⟨hits, _, h⟩ := run_search_bind.mp h
  obtain ⟨queryId, hid, h⟩ := run_lift_bind.mp h
  obtain ⟨c₁, hstore, h⟩ := run_lift_bind.mp h
  obtain ⟨fingerprint, hfingerprint, h⟩ := run_lift_bind.mp h
  obtain ⟨hquery, rfl⟩ := run_lift.mp h
  obtain ⟨hc₁, hqueries, hdocuments⟩ := storeHits_ok hc hstore
  obtain ⟨hc', hset, hkept⟩ := addQuery_ok hc₁ hquery
  refine ⟨_, hits, rfl, ⟨hc', _, ?_, hqueries ▸ hset⟩, hkept.trans hdocuments⟩
  exact bind_eq_ok.mpr ⟨queryId, hid, bind_eq_ok.mpr ⟨fingerprint, hfingerprint, rfl⟩⟩

/-! ## Runs of searches -/

/-- The searches that led from one corpus to another. -/
inductive Trace (I : Interpreter) (P : Conversions F) (B : CorpusBuilder F) :
    SurveyCorpus F → List (Executed F) → SurveyCorpus F → Prop
  | nil (c : SurveyCorpus F) : Trace I P B c [] c
  | cons {c c₁ c' : SurveyCorpus F} {e : Executed F} {es : List (Executed F)} :
    Step I P B c e c₁ → Trace I P B c₁ es c' → Trace I P B c (e :: es) c'

theorem Trace.append {c c₁ c' : SurveyCorpus F} {es es' : List (Executed F)}
    (h : Trace I P B c es c₁) (h' : Trace I P B c₁ es' c') : Trace I P B c (es ++ es') c' := by
  induction h with
  | nil c => exact h'
  | cons hstep _ ih => exact .cons hstep (ih h')

theorem Trace.gathered {es : List (Executed F)} (h : Trace I P B c es c')
    (hc : Gathered I B c) : Gathered I B c' := by
  induction h with
  | nil c => exact hc
  | cons hstep _ ih => exact ih hstep.gathered

/-- The records of a run are added in its order. -/
theorem Trace.recorded {es : List (Executed F)} (h : Trace I P B c es c') :
    ∃ records, List.Forall₂ (fun e r => record I P e = .ok r) es records ∧
      c'.queries = records.foldl (fun d r => d.set r.queryId r) c.queries := by
  induction h with
  | nil c => exact ⟨[], .nil, rfl⟩
  | cons hstep _ ih =>
    obtain ⟨r, hr, hqueries⟩ := hstep.recorded
    obtain ⟨records, hrecords, hrest⟩ := ih
    exact ⟨r :: records, .cons hr hrecords, by rw [hrest, hqueries, List.foldl_cons]⟩

/-- The slice and the request of a search of the evidence stage. -/
def evidenceCall : Executed F → Option (List PyStr × SemanticRequest)
  | .evidence shard request _ => some (shard, request)
  | _ => none

/-- A run from one corpus to another, with the calls of the evidence stage in it. -/
def Ran (I : Interpreter) (P : Conversions F) (B : CorpusBuilder F) (c : SurveyCorpus F)
    (log : List (Executed F)) (calls : List (List PyStr × SemanticRequest))
    (c' : SurveyCorpus F) (log' : List (Executed F)) : Prop :=
  ∃ es, log' = log ++ es ∧ Trace I P B c es c' ∧ es.filterMap evidenceCall = calls

theorem Ran.refl : Ran I P B c log [] c log := ⟨[], by simp, .nil c, rfl⟩

theorem Ran.trans {c₁ : SurveyCorpus F} {log₁ : List (Executed F)}
    {calls calls' : List (List PyStr × SemanticRequest)} (h : Ran I P B c log calls c₁ log₁)
    (h' : Ran I P B c₁ log₁ calls' c' log') : Ran I P B c log (calls ++ calls') c' log' := by
  obtain ⟨es, rfl, htrace, rfl⟩ := h
  obtain ⟨es', rfl, htrace', rfl⟩ := h'
  exact ⟨es ++ es', by rw [List.append_assoc], htrace.append htrace', List.filterMap_append⟩

theorem Ran.gathered {calls : List (List PyStr × SemanticRequest)}
    (h : Ran I P B c log calls c' log') (hc : Gathered I B c) : Gathered I B c' := by
  obtain ⟨es, _, htrace, _⟩ := h
  exact htrace.gathered hc

/-- One search after another. -/
theorem foldlM_ran {α : Type} {f : SurveyCorpus F → α → Searching F (SurveyCorpus F)}
    (Inv : SurveyCorpus F → Prop) (calls : α → List (List PyStr × SemanticRequest)) {xs : List α}
    (hf : ∀ x ∈ xs, ∀ c log c' log', Inv c → f c x log = .ok (c', log') →
      Ran I P B c log (calls x) c' log' ∧ Inv c')
    (hc : Inv c) (h : xs.foldlM f c log = .ok (c', log')) :
    Ran I P B c log (xs.flatMap calls) c' log' ∧ Inv c' := by
  induction xs generalizing c log with
  | nil =>
    obtain ⟨rfl, rfl⟩ := run_pure.mp h
    exact ⟨.refl, hc⟩
  | cons x xs ih =>
    rw [List.foldlM_cons] at h
    obtain ⟨c₁, log₁, hx, h⟩ := run_bind.mp h
    obtain ⟨hran, hc₁⟩ := hf x (by simp) c log c₁ log₁ hc hx
    obtain ⟨hrest, hc'⟩ := ih (fun y hy => hf y (by simp [hy])) hc₁ h
    exact ⟨hran.trans hrest, hc'⟩

/-! ### The candidate stage -/

theorem searchPass_ran {intent fingerprint : PyStr} {filters : Json F}
    (hfingerprint : filtersFingerprint I filters = .ok fingerprint) {queries : List PyStr}
    {full : Bool} (hc : Gathered I B c)
    (h : searchPass I P B intent filters fingerprint queries c log = .ok ((c', full), log')) :
    Ran I P B c log [] c' log' := by
  induction queries generalizing c log with
  | nil =>
    obtain ⟨heq, rfl⟩ := run_pure.mp h
    cases heq
    exact .refl
  | cons query queries ih =>
    rw [searchPass] at h
    split_ifs at h with hfull
    · obtain ⟨heq, rfl⟩ := run_pure.mp h
      cases heq
      exact .refl
    · obtain ⟨c₁, log₁, hsearch, h⟩ := run_bind.mp h
      obtain ⟨request, reply, rfl, hstep⟩ := searchCandidates_step hc hfingerprint hsearch
      have hone : Ran I P B c log [] c₁ (log ++ [.metadata intent request reply]) :=
        ⟨_, rfl, .cons hstep (.nil c₁), rfl⟩
      exact hone.trans (ih hstep.gathered h)

theorem candidateStage_ran {topic : SurveyTopic} {rest : List (PyStr × Json F)}
    (hc : Gathered I B c) (h : candidateStage I P B topic rest c log = .ok (c', log')) :
    Ran I P B c log [] c' log' := by
  induction rest generalizing c log with
  | nil =>
    obtain ⟨rfl, rfl⟩ := run_pure.mp h
    exact .refl
  | cons p rest ih =>
    obtain ⟨fingerprint, hfingerprint, h⟩ := run_lift_bind.mp h
    obtain ⟨⟨c₁, full⟩, log₁, hpass, h⟩ := run_bind.mp h
    have hran := searchPass_ran hfingerprint hc hpass
    cases full with
    | true =>
      obtain ⟨rfl, rfl⟩ := run_pure.mp h
      exact hran
    | false => exact hran.trans (ih (hran.gathered hc) h)

/-! ### Slices -/

omit [PyFloat F] in
theorem flatten_shards (scope : List PyStr) : (shards B scope).flatten = scope := by
  have hsize : 0 < (max 1 B.scopeShardSize).toNat := by omega
  exact flatten_slices hsize scope

omit [PyFloat F] in
theorem mem_shards {scope shard : List PyStr} (h : shard ∈ shards B scope) :
    shard.Sublist scope ∧ (shard.length : ℤ) ≤ max 1 B.scopeShardSize := by
  obtain ⟨hsub, hlength⟩ := mem_slices h
  exact ⟨hsub, by omega⟩

/-! ### The evidence stage -/

omit [PyFloat F] in
theorem nodup_sortedKeys (c : SurveyCorpus F) : (sortedKeys c).Nodup :=
  (List.perm_insertionSort _ _).nodup_iff.mpr c.documents.nodup

omit [PyFloat F] in
theorem mem_sortedKeys {key : PyStr} :
    key ∈ sortedKeys c ↔ (c.documents.get key).isSome = true := by
  rw [sortedKeys, List.mem_insertionSort, Option.isSome_iff_exists]
  constructor
  · intro hkey
    obtain ⟨p, hp, rfl⟩ := List.mem_map.mp hkey
    exact ⟨p.2, Dict.get_eq_some.mpr hp⟩
  · rintro ⟨d, hd⟩
    exact List.mem_map.mpr ⟨_, Dict.get_eq_some.mp hd, rfl⟩

theorem Gathered.hexId (hc : Gathered I B c) {key : PyStr} (h : key ∈ sortedKeys c) :
    HexId key := by
  obtain ⟨p, hp, rfl⟩ := List.mem_map.mp ((List.mem_insertionSort _).mp h)
  have hid := hc.documents.valid p hp
  have hne : p.2.docId ≠ [] := by
    intro hnil
    have hlength := hid.length
    rw [hnil] at hlength
    cases hlength
  rwa [hc.documents.own p hp, DocumentRecord.key, if_neg hne]

theorem Gathered.length_sortedKeys (hc : Gathered I B c) : (sortedKeys c).length ≤ 1000 := by
  have hlength : (sortedKeys c).length = c.documents.items.length := by
    rw [sortedKeys, List.length_insertionSort, List.length_map]
  have hfew := le_trans hc.few B.scope
  rw [documentCount] at hfew
  omega

/-- Every slice of the candidates is sent as it is. -/
theorem Gathered.normalised (hc : Gathered I B c) {shard : List PyStr}
    (h : shard ∈ shards B (sortedKeys c)) : normaliseDocIds shard = .ok shard := by
  obtain ⟨hsub, _⟩ := mem_shards h
  exact normaliseDocIds_eq (fun d hd => hc.hexId (hsub.subset hd))
    (hsub.nodup (nodup_sortedKeys c)) (hsub.length_le.trans hc.length_sortedKeys)

/-- The calls of the evidence stage: for every question one for each slice. -/
def evidenceCalls (B : CorpusBuilder F) (topic : SurveyTopic) (c : SurveyCorpus F) :
    List (List PyStr × SemanticRequest) :=
  topic.probeQuestions.flatMap fun question =>
    (shards B (sortedKeys c)).map fun shard => (shard, ⟨question, B.semanticTopK, shard⟩)

omit [PyFloat F] in
theorem sortedKeys_congr (h : c'.documents = c.documents) : sortedKeys c' = sortedKeys c := by
  rw [sortedKeys, sortedKeys, h]

theorem evidenceStage_ran {topic : SurveyTopic} (hc : Gathered I B c)
    (h : evidenceStage I P B topic c log = .ok (c', log')) :
    Ran I P B c log (evidenceCalls B topic c) c' log' ∧ c'.documents = c.documents := by
  rw [evidenceStage] at h
  split_ifs at h with hscope
  · obtain ⟨rfl, rfl⟩ := run_pure.mp h
    have hnone : evidenceCalls B topic c' = [] := by simp [evidenceCalls, hscope, shards, slices]
    rw [hnone]
    exact ⟨.refl, rfl⟩
  · have hrun := foldlM_ran (I := I) (P := P) (B := B)
      (fun c₁ => Gathered I B c₁ ∧ c₁.documents = c.documents)
      (fun question => (shards B (sortedKeys c)).map fun shard =>
        (shard, ⟨question, B.semanticTopK, shard⟩)) ?_ ⟨hc, rfl⟩ h
    · exact ⟨hrun.1, hrun.2.2⟩
    · intro question _ c₁ log₁ c₂ log₂ hinv hinner
      rw [List.map_eq_flatMap]
      refine foldlM_ran (fun c₁ => Gathered I B c₁ ∧ c₁.documents = c.documents) _ ?_ hinv
        hinner
      intro shard hshard c₃ log₃ c₄ log₄ hinv₃ hsearch
      obtain ⟨docIds, reply, hids, rfl, hstep, hkept⟩ := searchShard_step hinv₃.1 hsearch
      rw [hc.normalised hshard] at hids
      cases hids
      exact ⟨⟨_, rfl, .cons hstep (.nil c₄), rfl⟩, hstep.gathered, hkept.trans hinv₃.2⟩

/-! ### The document probe stage -/

theorem documentProbeStage_ran {topic : SurveyTopic} (hc : Gathered I B c)
    (h : documentProbeStage I P B topic c log = .ok (c', log')) :
    Ran I P B c log [] c' log' ∧ c'.documents = c.documents := by
  rw [documentProbeStage] at h
  split_ifs at h with htemplates
  · obtain ⟨rfl, rfl⟩ := run_pure.mp h
    exact ⟨.refl, rfl⟩
  · have hrun := foldlM_ran (I := I) (P := P) (B := B)
      (fun c₁ => Gathered I B c₁ ∧ c₁.documents = c.documents) (fun _ => []) ?_ ⟨hc, rfl⟩ h
    · rw [List.flatMap_eq_nil_iff.mpr fun _ _ => rfl] at hrun
      exact ⟨hrun.1, hrun.2.2⟩
    · intro docId _ c₁ log₁ c₂ log₂ hinv hinner
      cases hd : c₁.documents.get docId with
      | none =>
        rw [hd] at hinner
        cases hinner
      | some d =>
        rw [hd] at hinner
        have hprobes := foldlM_ran (I := I) (P := P) (B := B)
          (fun c₁ => Gathered I B c₁ ∧ c₁.documents = c.documents) (fun _ => []) ?_ hinv hinner
        · rwa [List.flatMap_eq_nil_iff.mpr fun _ _ => rfl] at hprobes
        · intro template _ c₃ log₃ c₄ log₄ hinv₃ hprobe
          obtain ⟨request, reply, rfl, hstep, hkept⟩ := probeDocument_step hinv₃.1 hprobe
          exact ⟨⟨_, rfl, .cons hstep (.nil c₄), rfl⟩, hstep.gathered, hkept.trans hinv₃.2⟩

/-! ### Whole runs -/

/-- What a run of `build` that returns has done. -/
structure Finished (I : Interpreter) (P : Conversions F) (B : CorpusBuilder F)
    (topic : SurveyTopic) (c : SurveyCorpus F) (log : List (Executed F)) : Prop where
  trace : Trace I P B (.new topic) log c
  calls : log.filterMap evidenceCall = evidenceCalls B topic c
  valid : c.validate I = .ok ()

theorem build_finished {topic : SurveyTopic} (h : build I P B topic [] = .ok (c, log)) :
    Finished I P B topic c log := by
  obtain ⟨_, _, h⟩ := run_lift_bind.mp h
  obtain ⟨c₁, log₁, hcandidates, h⟩ := run_bind.mp h
  obtain ⟨c₂, log₂, hevidence, h⟩ := run_bind.mp h
  obtain ⟨c₃, log₃, hprobes, h⟩ := run_bind.mp h
  obtain ⟨_, hvalid, h⟩ := run_lift_bind.mp h
  obtain ⟨rfl, rfl⟩ := run_pure.mp h
  have hran₁ := candidateStage_ran (gathered_new topic) hcandidates
  have hc₁ := hran₁.gathered (gathered_new topic)
  obtain ⟨hran₂, hkept₂⟩ := evidenceStage_ran hc₁ hevidence
  obtain ⟨hran₃, hkept₃⟩ := documentProbeStage_ran (hran₂.gathered hc₁) hprobes
  obtain ⟨es, hlog, htrace, hcalls⟩ := (hran₁.trans hran₂).trans hran₃
  rw [List.nil_append] at hlog
  subst hlog
  refine ⟨htrace, ?_, hvalid⟩
  rw [hcalls, List.nil_append, List.append_nil, evidenceCalls, evidenceCalls,
    sortedKeys_congr (hkept₃.trans hkept₂)]

end Gathering

/-- Conversions under which no value is a number, for runs that read none. -/
def sampleConversions : Conversions NonFinite where
  float _ := .error .typeError
  format _ _ := .ok []

end CorpusRuns
