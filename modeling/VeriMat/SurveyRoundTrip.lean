import VeriMat.Fallible
import VeriMat.LedgerTamper
import VeriMat.QuoteGate
import VeriMat.SurveySnapshot

/-! # What a snapshot gives back

A corpus filled through its `add_*` methods comes back from its snapshot record by record, in the
order of the keys; a payload that keeps the digest and has another content is refused. -/
namespace SurveyRoundTrip

open PyText JsonText PyValue PyDict KeyedRecords Events SurveyRecords SurveySnapshot
open Verification (Interpreter)
open DecisionGraph (getItem Payload)

variable {F ν : Type}

/-! ## Corpora that were built -/

/-- A corpus filled through `add_document`, `add_query` and `add_passage`. -/
inductive Built (I : Interpreter) (topic : SurveyTopic) : SurveyCorpus F → Prop
  | new : Built I topic (.new topic)
  | document {c c' : SurveyCorpus F} {d : DocumentRecord} :
    Built I topic c → c.addDocument d = .ok c' → Built I topic c'
  | query {c c' : SurveyCorpus F} {q : QueryRecord} :
    Built I topic c → c.addQuery q = .ok c' → Built I topic c'
  | passage {c c' : SurveyCorpus F} {p : SurveyPassage F} :
    Built I topic c → c.addPassage I p = .ok c' → Built I topic c'

/-- What the `add_*` methods keep. -/
structure Sound (I : Interpreter) (c : SurveyCorpus F) : Prop where
  documents : Keyed DocumentRecord.key (·.validate = .ok ()) c.documents
  queries : Keyed QueryRecord.queryId (·.validate = .ok ()) c.queries
  passages : Keyed SurveyPassage.passageId (·.validate I = .ok ()) c.passages

theorem sound_new (I : Interpreter) (topic : SurveyTopic) :
    Sound I (.new topic : SurveyCorpus F) where
  documents := keyed_empty _ _
  queries := keyed_empty _ _
  passages := keyed_empty _ _

theorem addDocument_eq_ok {c c' : SurveyCorpus F} {d : DocumentRecord} :
    c.addDocument d = .ok c' ↔
      d.validate = .ok () ∧ c' = { c with documents := c.documents.set d.key d } := by
  rw [SurveyCorpus.addDocument, bind_eq_ok]
  constructor
  · rintro ⟨_, hvalid, heq⟩
    exact ⟨hvalid, (Except.ok.inj heq).symm⟩
  · rintro ⟨hvalid, rfl⟩
    exact ⟨(), hvalid, rfl⟩

theorem addQuery_eq_ok {c c' : SurveyCorpus F} {q : QueryRecord} :
    c.addQuery q = .ok c' ↔
      q.validate = .ok () ∧ c' = { c with queries := c.queries.set q.queryId q } := by
  rw [SurveyCorpus.addQuery, bind_eq_ok]
  constructor
  · rintro ⟨_, hvalid, heq⟩
    exact ⟨hvalid, (Except.ok.inj heq).symm⟩
  · rintro ⟨hvalid, rfl⟩
    exact ⟨(), hvalid, rfl⟩

theorem addPassage_eq_ok {I : Interpreter} {c c' : SurveyCorpus F} {p : SurveyPassage F} :
    c.addPassage I p = .ok c' ↔
      p.validate I = .ok () ∧ c' = { c with passages := c.passages.set p.passageId p } := by
  rw [SurveyCorpus.addPassage, bind_eq_ok]
  constructor
  · rintro ⟨_, hvalid, heq⟩
    exact ⟨hvalid, (Except.ok.inj heq).symm⟩
  · rintro ⟨hvalid, rfl⟩
    exact ⟨(), hvalid, rfl⟩

theorem Built.sound {I : Interpreter} {topic : SurveyTopic} {c : SurveyCorpus F}
    (h : Built I topic c) : Sound I c := by
  induction h with
  | new => exact sound_new I topic
  | document _ hadd ih =>
    obtain ⟨hvalid, rfl⟩ := addDocument_eq_ok.mp hadd
    exact { ih with documents := ih.documents.set hvalid }
  | query _ hadd ih =>
    obtain ⟨hvalid, rfl⟩ := addQuery_eq_ok.mp hadd
    exact { ih with queries := ih.queries.set hvalid }
  | passage _ hadd ih =>
    obtain ⟨hvalid, rfl⟩ := addPassage_eq_ok.mp hadd
    exact { ih with passages := ih.passages.set hvalid }

/-- The same topic and the same records under the same keys: dicts compare without their order. -/
structure Same (c c' : SurveyCorpus F) : Prop where
  topic : c'.topic = c.topic
  documents : ∀ key, c'.documents.get key = c.documents.get key
  queries : ∀ key, c'.queries.get key = c.queries.get key
  passages : ∀ key, c'.passages.get key = c.passages.get key

/-- The corpus a snapshot is read into. -/
def reordered (c : SurveyCorpus F) : SurveyCorpus F where
  topic := c.topic
  documents := inOrder c.documents
  passages := inOrder c.passages
  queries := inOrder c.queries

theorem same_reordered (c : SurveyCorpus F) : Same c (reordered c) where
  topic := rfl
  documents := get_inOrder c.documents
  queries := get_inOrder c.queries
  passages := get_inOrder c.passages

/-! ## What does not depend on the order -/

theorem sortedSet_perm {α : Type} [LinearOrder α] {xs ys : List α} (h : xs.Perm ys) :
    sortedSet xs = sortedSet ys := by
  have hperm : (sortedSet xs).Perm (sortedSet ys) :=
    (List.perm_insertionSort _ _).trans (h.dedup.trans (List.perm_insertionSort _ _).symm)
  exact hperm.eq_of_pairwise' (List.pairwise_insertionSort _ _) (List.pairwise_insertionSort _ _)

theorem validate_eq_ok {I : Interpreter} {c : SurveyCorpus F} :
    c.validate I = .ok () ↔
      c.topic.validate = .ok () ∧ ∀ p ∈ c.passages.values, c.checkPassage I p = .ok () := by
  rw [SurveyCorpus.validate, bind_eq_ok, ← Fallible.forM_eq_ok]
  constructor
  · rintro ⟨_, htopic, hpassages⟩
    exact ⟨htopic, hpassages⟩
  · rintro ⟨htopic, hpassages⟩
    exact ⟨(), htopic, hpassages⟩

theorem checkPassage_reordered (I : Interpreter) (c : SurveyCorpus F) (p : SurveyPassage F) :
    (reordered c).checkPassage I p = c.checkPassage I p := by
  simp only [SurveyCorpus.checkPassage, reordered, get_inOrder]

theorem validate_reordered {I : Interpreter} {c : SurveyCorpus F} (h : c.validate I = .ok ()) :
    (reordered c).validate I = .ok () := by
  obtain ⟨htopic, hpassages⟩ := validate_eq_ok.mp h
  refine validate_eq_ok.mpr ⟨htopic, fun p hp => ?_⟩
  rw [checkPassage_reordered]
  exact hpassages p ((values_inOrder c.passages).mem_iff.mp hp)

variable [PyFloat F]

theorem manifest_reordered (I : Interpreter) (c : SurveyCorpus F) :
    manifest I (reordered c) = manifest I c := by
  have hd := values_inOrder c.documents
  have hq := values_inOrder c.queries
  have hp := values_inOrder c.passages
  simp only [manifest, reordered, hd.length_eq, hq.length_eq, hp.length_eq, hd.countP_eq,
    hq.countP_eq, sortedSet_perm (hd.map DocumentRecord.database),
    sortedSet_perm (hd.filterMap fun d => d.year.filter (· != 0))]

omit [PyFloat F] in
theorem members_reordered (c : SurveyCorpus F) (m : Json F) :
    members (reordered c) m = members c m := by
  simp only [members, reordered, sortedValues_inOrder]

/-- The parts of a snapshot that was taken. -/
structure Taken (I : Interpreter) (c : SurveyCorpus F) (m : Json F) (digest : PyStr) : Prop where
  valid : c.validate I = .ok ()
  manifest : manifest I c = .ok m
  digest : jsonDigest I (ofJson (.obj (members c m))) = .ok digest

/-- The members of a signed snapshot. -/
def signed (c : SurveyCorpus F) (m : Json F) (digest : PyStr) : List (PyStr × Json F) :=
  members c m ++ [(py "payload_sha256", .str digest)]

theorem snapshot_eq_ok {I : Interpreter} {c : SurveyCorpus F} {s : Json F} :
    snapshot I c = .ok s ↔ ∃ m digest, Taken I c m digest ∧ s = .obj (signed c m digest) := by
  rw [snapshot, bind_eq_ok]
  constructor
  · rintro ⟨_, hvalid, h⟩
    obtain ⟨m, hm, h⟩ := bind_eq_ok.mp h
    obtain ⟨digest, hdigest, h⟩ := bind_eq_ok.mp h
    exact ⟨m, digest, ⟨hvalid, hm, hdigest⟩, (Except.ok.inj h).symm⟩
  · rintro ⟨m, digest, h, rfl⟩
    exact ⟨(), h.valid, bind_eq_ok.mpr ⟨m, h.manifest, bind_eq_ok.mpr ⟨digest, h.digest, rfl⟩⟩⟩

theorem Taken.finite {I : Interpreter} {c : SurveyCorpus F} {m : Json F} {digest : PyStr}
    (h : Taken I c m digest) : (Json.obj (members c m)).Finite := by
  have hdigest := h.digest
  rw [jsonDigest, canonicalJson, dumps] at hdigest
  cases hlower : lower (ofJson (.obj (members c m))) with
  | error e =>
    rw [hlower] at hdigest
    cases hdigest
  | ok j => exact LedgerTamper.finite_of_lower _ j hlower

theorem Taken.reordered {I : Interpreter} {c : SurveyCorpus F} {m : Json F} {digest : PyStr}
    (h : Taken I c m digest) : Taken I (reordered c) m digest where
  valid := validate_reordered h.valid
  manifest := by rw [manifest_reordered, h.manifest]
  digest := by rw [members_reordered, h.digest]

/-- A corpus and its copy in order have one snapshot. -/
theorem snapshot_reordered {I : Interpreter} {c : SurveyCorpus F} {s : Json F}
    (h : snapshot I c = .ok s) : snapshot I (reordered c) = .ok s := by
  obtain ⟨m, digest, ht, rfl⟩ := snapshot_eq_ok.mp h
  refine snapshot_eq_ok.mpr ⟨m, digest, ht.reordered, ?_⟩
  rw [signed, signed, members_reordered]

/-! ## Payloads that present a snapshot -/

/-- A list of dicts that read as these records, one each. -/
def Listed {ν : Type} (fields : ν → List (PyStr × Json F)) (vs : List (PyVal F))
    (records : List ν) : Prop :=
  List.Forall₂ (fun v r => ∃ kvs, v = .dict kvs ∧ Reads kvs (fields r)) vs records

/-- A payload with the items of a signed snapshot. -/
structure Presents (kvs : Payload F) (c : SurveyCorpus F) (m : Json F) (digest : PyStr) :
    Prop where
  version : getItem kvs (py "schema_version") = some (.int 1)
  sha : getItem kvs (py "payload_sha256") = some (.str digest)
  topic : ∃ t, getItem kvs (py "topic") = some (.dict t) ∧ Reads t (topicMembers c.topic)
  documents : ∃ vs, getItem kvs (py "documents") = some (.list vs) ∧
    Listed documentMembers vs (sortedValues c.documents)
  queries : ∃ vs, getItem kvs (py "queries") = some (.list vs) ∧
    Listed queryMembers vs (sortedValues c.queries)
  passages : ∃ vs, getItem kvs (py "passages") = some (.list vs) ∧
    Listed passageMembers vs (sortedValues c.passages)
  content : canonicalJson (.dict (unsigned kvs)) = canonicalJson (ofJson (.obj (members c m)))

/-- Records that are read and added one by one. -/
theorem foldlM_add {σ α : Type} {add : σ → α → Checked σ} {put : σ → ν → σ} {values : List α}
    {records : List ν}
    (h : List.Forall₂ (fun v r => ∀ s, add s v = .ok (put s r)) values records) (s : σ) :
    values.foldlM add s = .ok (records.foldl put s) := by
  induction h generalizing s with
  | nil => rfl
  | cons hadd _ ih =>
    rw [List.foldlM_cons, hadd s]
    exact ih _

omit [PyFloat F] in
theorem foldl_documents (c : SurveyCorpus F) (records : List DocumentRecord) :
    records.foldl (fun c d => { c with documents := c.documents.set d.key d }) c =
      { c with documents := records.foldl (fun ds d => ds.set d.key d) c.documents } := by
  induction records generalizing c with
  | nil => rfl
  | cons d records ih => exact ih _

omit [PyFloat F] in
theorem foldl_queries (c : SurveyCorpus F) (records : List QueryRecord) :
    records.foldl (fun c q => { c with queries := c.queries.set q.queryId q }) c =
      { c with queries := records.foldl (fun qs q => qs.set q.queryId q) c.queries } := by
  induction records generalizing c with
  | nil => rfl
  | cons q records ih => exact ih _

omit [PyFloat F] in
theorem foldl_passages (c : SurveyCorpus F) (records : List (SurveyPassage F)) :
    records.foldl (fun c p => { c with passages := c.passages.set p.passageId p }) c =
      { c with passages := records.foldl (fun ps p => ps.set p.passageId p) c.passages } := by
  induction records generalizing c with
  | nil => rfl
  | cons p records ih => exact ih _

theorem Listed.added {σ : Type} {fields : ν → List (PyStr × Json F)} {vs : List (PyVal F)}
    {records : List ν} (h : Listed fields vs records) {add : σ → PyVal F → Checked σ}
    (put : σ → ν → σ)
    (hadd : ∀ kvs, ∀ r ∈ records, Reads kvs (fields r) → ∀ s, add s (.dict kvs) = .ok (put s r))
    (s : σ) : vs.foldlM add s = .ok (records.foldl put s) := by
  apply foldlM_add
  induction h with
  | nil => exact .nil
  | cons hv _ ih =>
    obtain ⟨kvs, rfl, hreads⟩ := hv
    refine .cons (hadd kvs _ (by simp) hreads) (ih fun kvs r hr => hadd kvs r (by simp [hr]))

theorem readDocuments_eq {d : Dict PyStr DocumentRecord}
    (hd : Keyed DocumentRecord.key (·.validate = .ok ()) d) {vs : List (PyVal F)}
    (h : Listed documentMembers vs (sortedValues d)) {c : SurveyCorpus F}
    (hnew : c.documents = empty) :
    vs.foldlM (fun c v => do c.addDocument (← readDocument v)) c =
      .ok { c with documents := inOrder d } := by
  rw [h.added (fun c d => { c with documents := c.documents.set d.key d }) ?_ c,
    foldl_documents, hnew]
  · exact congrArg (fun ds => Except.ok { c with documents := ds }) (collect_sortedValues hd)
  · intro kvs r hr hreads s
    rw [reads_document hreads]
    exact addDocument_eq_ok.mpr ⟨valid_sortedValues hd hr, rfl⟩

theorem readQueries_eq {d : Dict PyStr QueryRecord}
    (hd : Keyed QueryRecord.queryId (·.validate = .ok ()) d) {vs : List (PyVal F)}
    (h : Listed queryMembers vs (sortedValues d)) {c : SurveyCorpus F} (hnew : c.queries = empty) :
    vs.foldlM (fun c v => do c.addQuery (← readQuery v)) c = .ok { c with queries := inOrder d } := by
  rw [h.added (fun c q => { c with queries := c.queries.set q.queryId q }) ?_ c,
    foldl_queries, hnew]
  · exact congrArg (fun qs => Except.ok { c with queries := qs }) (collect_sortedValues hd)
  · intro kvs r hr hreads s
    rw [reads_query hreads]
    exact addQuery_eq_ok.mpr ⟨valid_sortedValues hd hr, rfl⟩

theorem readPassages_eq {I : Interpreter} {d : Dict PyStr (SurveyPassage F)}
    (hd : Keyed SurveyPassage.passageId (·.validate I = .ok ()) d) {vs : List (PyVal F)}
    (h : Listed passageMembers vs (sortedValues d)) {c : SurveyCorpus F}
    (hnew : c.passages = empty) :
    vs.foldlM (fun c v => do c.addPassage I (← readPassage v)) c =
      .ok { c with passages := inOrder d } := by
  rw [h.added (fun c p => { c with passages := c.passages.set p.passageId p }) ?_ c,
    foldl_passages, hnew]
  · exact congrArg (fun ps => Except.ok { c with passages := ps }) (collect_sortedValues hd)
  · intro kvs r hr hreads s
    rw [reads_passage hreads]
    exact addPassage_eq_ok.mpr ⟨valid_sortedValues hd hr, rfl⟩

theorem elements_list {kvs : Payload F} {name : PyStr} {vs : List (PyVal F)}
    (h : getItem kvs name = some (.list vs)) : elements kvs name = .ok vs := by
  rw [elements, h]

theorem rebuild_presents {I : Interpreter} {c : SurveyCorpus F} (hc : Sound I c)
    (hvalid : c.validate I = .ok ()) {kvs : Payload F} {m : Json F} {digest : PyStr}
    (h : Presents kvs c m digest) : rebuild I c.topic kvs = .ok (reordered c) := by
  obtain ⟨ds, hds, hdocuments⟩ := h.documents
  obtain ⟨qs, hqs, hqueries⟩ := h.queries
  obtain ⟨ps, hps, hpassages⟩ := h.passages
  rw [rebuild, bind_eq_ok]
  refine ⟨ds, elements_list hds, bind_eq_ok.mpr ⟨_, readDocuments_eq hc.documents hdocuments rfl,
    bind_eq_ok.mpr ⟨qs, elements_list hqs, bind_eq_ok.mpr ⟨_,
      readQueries_eq hc.queries hqueries rfl, bind_eq_ok.mpr ⟨ps, elements_list hps,
        bind_eq_ok.mpr ⟨_, readPassages_eq hc.passages hpassages rfl, ?_⟩⟩⟩⟩⟩⟩
  exact bind_eq_ok.mpr ⟨(), validate_reordered hvalid, rfl⟩

/-- Reading a payload that presents a snapshot gives the corpus in order. -/
theorem fromSnapshot_presents {I : Interpreter} {c : SurveyCorpus F} (hc : Sound I c)
    {kvs : Payload F} {m : Json F} {digest : PyStr} (ht : Taken I c m digest)
    (h : Presents kvs c m digest) : fromSnapshot I (.dict kvs) = .ok (reordered c) := by
  have hversion : itemIs kvs (py "schema_version") (.int 1) = true := by
    rw [itemIs, h.version]
    rfl
  have hdigest : jsonDigest I (.dict (unsigned kvs)) = .ok digest := by
    rw [jsonDigest, h.content]
    exact ht.digest
  have hsha : itemIs kvs (py "payload_sha256") (.str digest) = true := by
    rw [itemIs, h.sha]
    exact beq_self_eq_true digest
  obtain ⟨t, htopic, hreads⟩ := h.topic
  have hread := rebuild_presents hc ht.valid h
  rw [fromSnapshot, bind_eq_ok]
  refine ⟨(), by simp [hversion], bind_eq_ok.mpr ⟨digest, hdigest, bind_eq_ok.mpr
    ⟨(), by simp [hsha], ?_⟩⟩⟩
  rw [htopic]
  exact bind_eq_ok.mpr ⟨c.topic, reads_topic hreads, hread⟩

/-! ## The payload itself -/

theorem unsigned_ofMembers (ms : List (PyStr × Json F)) :
    unsigned (ofMembers ms) = ofMembers (ms.filter fun p => py "payload_sha256" != p.1) := by
  rw [unsigned, ofMembers_eq, ofMembers_eq, List.filter_map]
  rfl

omit [PyFloat F] in
theorem filter_signed (c : SurveyCorpus F) (m : Json F) (digest : PyStr) :
    (signed c m digest).filter (fun p => py "payload_sha256" != p.1) = members c m := by
  rfl

theorem listed_ofMembers (fields : ν → List (PyStr × Json F))
    (records : List ν) :
    Listed fields (ofElems (records.map fun r => .obj (fields r))) records := by
  induction records with
  | nil => exact .nil
  | cons r records ih => exact .cons ⟨_, rfl, reads_ofMembers (fields r)⟩ ih

theorem presents_signed (c : SurveyCorpus F) (m : Json F) (digest : PyStr) :
    Presents (ofMembers (signed c m digest)) c m digest where
  version := getItem_ofMembers _ _
  sha := getItem_ofMembers _ _
  topic := ⟨_, getItem_ofMembers _ _, reads_ofMembers _⟩
  documents := ⟨_, getItem_ofMembers _ _, listed_ofMembers _ _⟩
  queries := ⟨_, getItem_ofMembers _ _, listed_ofMembers _ _⟩
  passages := ⟨_, getItem_ofMembers _ _, listed_ofMembers _ _⟩
  content := by
    rw [unsigned_ofMembers, filter_signed]
    rfl

/-! ## The payload read back from its text -/

omit [PyFloat F] in
theorem names_signed (c : SurveyCorpus F) (m : Json F) (digest : PyStr) :
    ((signed c m digest).map Prod.fst).Nodup := by
  have hnames : (signed c m digest).map Prod.fst = [py "schema_version", py "topic",
    py "documents", py "queries", py "passages", py "manifest", py "payload_sha256"] := rfl
  rw [hnames]
  decide

omit [PyFloat F] in
theorem names_lt_sortedMembers {ms : List (PyStr × Json F)} (h : (ms.map Prod.fst).Nodup) :
    ((sortedMembers ms).map Prod.fst).Pairwise (· < ·) := by
  rw [sortedMembers]
  apply insertionSort_names_lt
  rw [sortMembers_names]
  exact h

omit [PyFloat F] in
/-- Members are sorted alike with and without those a filter on names leaves out. -/
theorem filter_sortedMembers {ms : List (PyStr × Json F)} (h : (ms.map Prod.fst).Nodup)
    (keep : PyStr → Bool) :
    (sortedMembers ms).filter (fun p => keep p.1) =
      sortedMembers (ms.filter fun p => keep p.1) := by
  have hlt := names_lt_sortedMembers h
  have hsub : ((ms.filter fun p => keep p.1).map Prod.fst).Nodup :=
    h.sublist (List.filter_sublist.map Prod.fst)
  have hlt' := names_lt_sortedMembers hsub
  have hperm : ((sortedMembers ms).filter fun p => keep p.1).Perm
      (sortedMembers (ms.filter fun p => keep p.1)) := by
    refine ((List.perm_insertionSort nameLE _).filter _).trans ?_
    refine List.Perm.trans (.of_eq ?_) (List.perm_insertionSort nameLE _).symm
    rw [sortMembers_eq, sortMembers_eq, List.filter_map]
    rfl
  have hasymm : ∀ a b : PyStr × Json F, a ∈ (sortedMembers ms).filter (fun p => keep p.1) →
      b ∈ sortedMembers (ms.filter fun p => keep p.1) → a.1 < b.1 → b.1 < a.1 → a = b :=
    fun a b _ _ hab hba => absurd hab (lt_asymm hba)
  exact hperm.eq_of_pairwise hasymm ((List.pairwise_map.mp hlt).filter _)
    (List.pairwise_map.mp hlt')

theorem listed_sorted {fields : ν → List (PyStr × Json F)} (hflat : ∀ r, Flat (fields r))
    (records : List ν) :
    Listed fields (ofElems (sortElems (records.map fun r => .obj (fields r)))) records := by
  induction records with
  | nil => exact .nil
  | cons r records ih => exact .cons ⟨_, rfl, reads_sorted (hflat r)⟩ ih

theorem getItem_sorted {ms : List (PyStr × Json F)} (h : (ms.map Prod.fst).Nodup) {name : PyStr}
    {j : Json F} (hm : member ms name = some j) :
    getItem (ofMembers (sortedMembers ms)) name = some (ofJson (sortNames j)) := by
  rw [getItem_ofMembers, member_sortedMembers h, hm]
  rfl

/-! ### Names are distinct at every level -/

omit [PyFloat F] in
theorem dedup_obj {ms : List (PyStr × Json F)} (h : (ms.map Prod.fst).Nodup)
    (hv : ∀ p ∈ ms, p.2.dedup = p.2) : (Json.obj ms).dedup = .obj ms := by
  have hm : dedupMembers ms = ms := by
    rw [dedupMembers_eq]
    exact (List.map_congr_left fun p hp => by rw [hv p hp]).trans (List.map_id' ms)
  rw [Json.dedup, hm, ofPairs_of_nodup h]

omit [PyFloat F] in
theorem dedup_records {fields : ν → List (PyStr × Json F)} (hflat : ∀ r, Flat (fields r))
    (records : List ν) :
    (Json.arr (records.map fun r => Json.obj (fields r))).dedup =
      .arr (records.map fun r => .obj (fields r)) := by
  rw [Json.dedup, dedupElems_eq, List.map_map]
  refine congrArg Json.arr (List.map_congr_left fun r _ => ?_)
  exact dedup_obj (hflat r).names fun p hp => dedup_of_sorted _ ((hflat r).sorted p hp)

omit [PyFloat F] in
theorem namesSorted_spanOf (years : List ℤ) : NamesSorted (.arr (spanOf years) : Json F) := by
  rw [NamesSorted, elemsSorted_iff]
  intro x hx
  unfold spanOf at hx
  split at hx
  · rcases List.mem_cons.mp hx with rfl | hx
    · trivial
    · rw [List.mem_singleton.mp hx]
      trivial
  · cases hx

theorem dedup_manifest {I : Interpreter} {c : SurveyCorpus F} {m : Json F}
    (h : manifest I c = .ok m) : m.dedup = m := by
  rw [manifest, bind_eq_ok] at h
  obtain ⟨fingerprint, _, h⟩ := h
  rw [← Except.ok.inj h]
  apply dedup_obj
  · simp only [List.map_cons, List.map_nil]
    decide
  · intro p hp
    apply dedup_of_sorted
    revert p hp
    simp only [List.forall_mem_cons, namesSorted_texts, namesSorted_spanOf, true_and]
    simp only [NamesSorted, true_and]
    intro p hp
    cases hp

omit [PyFloat F] in
theorem dedup_values {c : SurveyCorpus F} {m : Json F} (hm : m.dedup = m) :
    ∀ p ∈ members c m, p.2.dedup = p.2 := by
  have htopic : (Json.obj (topicMembers c.topic) : Json F).dedup = .obj (topicMembers c.topic) :=
    dedup_obj (flat_topic c.topic).names fun p hp =>
      dedup_of_sorted _ ((flat_topic c.topic).sorted p hp)
  simp only [members, List.forall_mem_cons, htopic, dedup_records flat_document,
    dedup_records flat_query, dedup_records flat_passage, hm, true_and]
  exact ⟨rfl, fun p hp => nomatch hp⟩

omit [PyFloat F] in
theorem dedup_members {c : SurveyCorpus F} {m : Json F} (hm : m.dedup = m) :
    (Json.obj (members c m)).dedup = .obj (members c m) := by
  have hnames := (names_signed c m []).sublist (List.sublist_append_left _ _ |>.map Prod.fst)
  exact dedup_obj hnames (dedup_values hm)

theorem Taken.finite_signed {I : Interpreter} {c : SurveyCorpus F} {m : Json F} {digest : PyStr}
    (h : Taken I c m digest) : (Json.obj (signed c m digest)).Finite := by
  have hfin := h.finite
  rw [Json.Finite, finiteMembers_iff] at hfin ⊢
  intro p hp
  rcases List.mem_append.mp hp with hp | hp
  · exact hfin p hp
  · rw [List.mem_singleton.mp hp]
    trivial

theorem Taken.sorted_signed {I : Interpreter} {c : SurveyCorpus F} {m : Json F} {digest : PyStr}
    (h : Taken I c m digest) : NamesSorted (sortNames (.obj (signed c m digest))) := by
  have hdedup : (Json.obj (signed c m digest)).dedup = .obj (signed c m digest) := by
    apply dedup_obj (names_signed c m digest)
    intro p hp
    rcases List.mem_append.mp hp with hp | hp
    · exact dedup_values (dedup_manifest h.manifest) p hp
    · rw [List.mem_singleton.mp hp]
      rfl
  have hsorted := namesSorted_sortNames_dedup (Json.obj (signed c m digest))
  rwa [hdedup] at hsorted

theorem presents_sorted {I : Interpreter} {c : SurveyCorpus F} {m : Json F} {digest : PyStr}
    (ht : Taken I c m digest) :
    Presents (ofMembers (sortedMembers (signed c m digest))) c m digest where
  version := getItem_sorted (j := .int 1) (names_signed c m digest) rfl
  sha := getItem_sorted (j := .str digest) (names_signed c m digest) rfl
  topic := ⟨_, getItem_sorted (j := .obj (topicMembers c.topic)) (names_signed c m digest) rfl,
    reads_sorted (flat_topic c.topic)⟩
  documents := ⟨_, getItem_sorted (j := .arr ((sortedValues c.documents).map fun d =>
    .obj (documentMembers d))) (names_signed c m digest) rfl, listed_sorted flat_document _⟩
  queries := ⟨_, getItem_sorted (j := .arr ((sortedValues c.queries).map fun q =>
    .obj (queryMembers q))) (names_signed c m digest) rfl, listed_sorted flat_query _⟩
  passages := ⟨_, getItem_sorted (j := .arr ((sortedValues c.passages).map fun p =>
    .obj (passageMembers p))) (names_signed c m digest) rfl, listed_sorted flat_passage _⟩
  content := by
    have hdedup : (Json.obj (members c m)).dedup = .obj (members c m) :=
      dedup_members (dedup_manifest ht.manifest)
    have hsorted := namesSorted_sortNames_dedup (Json.obj (members c m))
    rw [hdedup] at hsorted
    have hvalue : PyVal.dict (unsigned (ofMembers (sortedMembers (signed c m digest)))) =
        ofJson (sortNames (.obj (members c m))) := by
      rw [unsigned_ofMembers,
        filter_sortedMembers (names_signed c m digest) (py "payload_sha256" != ·), filter_signed]
      rfl
    have hfin := ht.finite
    rw [hvalue, canonicalJson, canonicalJson, dumps_ofJson hfin,
      dumps_ofJson (finite_sortNames _ hfin), sortNames_of_sorted _ hsorted]

/-! ## Payloads that were altered -/

/-- `payload.get("payload_sha256")`. -/
def storedDigest : PyVal F → Option (PyVal F)
  | .dict kvs => getItem kvs (py "payload_sha256")
  | _ => none

/-- A payload without its digest. -/
def content : PyVal F → PyVal F
  | .dict kvs => .dict (unsigned kvs)
  | v => v

/-- A payload that keeps the digest of another and says something else in JSON. -/
def Altered (payload original : PyVal F) : Prop :=
  storedDigest payload = storedDigest original ∧
    ¬LedgerTamper.SameJson (content payload) (content original)

theorem jsonDigest_eq_ok {I : Interpreter} {v : PyVal F} {digest : PyStr} :
    jsonDigest I v = .ok digest ↔
      ∃ j bytes, lower v = .ok j ∧ encode (render j) = some bytes ∧ I.sha256 bytes = digest := by
  rw [jsonDigest, canonicalJson, dumps]
  cases lower v with
  | error e => simp [Except.map]
  | ok j =>
    simp only [Except.map, textDigest, Except.ok.injEq, exists_and_left, exists_eq_left']
    cases encode (render j) with
    | none => simp
    | some bytes => simp

/-- One digest, one JSON value. -/
theorem sameJson_of_digest {I : Interpreter} (hsha : Function.Injective I.sha256)
    {v w : PyVal F} {digest : PyStr} (hv : jsonDigest I v = .ok digest)
    (hw : jsonDigest I w = .ok digest) : LedgerTamper.SameJson v w := by
  obtain ⟨j, bytes, hj, hencoded, hdigest⟩ := jsonDigest_eq_ok.mp hv
  obtain ⟨k, bytes', hk, hencoded', hdigest'⟩ := jsonDigest_eq_ok.mp hw
  have hbytes : bytes = bytes' := hsha (hdigest.trans hdigest'.symm)
  have htext : render j = render k := by
    have hdecoded := decode_encode hencoded
    rw [hbytes, decode_encode hencoded'] at hdecoded
    exact (Option.some.inj hdecoded).symm
  have heq : j = k := render_injective (DurablePayload.lower_finite v j hj)
    (DurablePayload.lower_finite w k hk) htext
  exact ⟨j, hj, heq ▸ hk⟩

theorem fromSnapshot_eq_ok {I : Interpreter} {kvs : Payload F} {c : SurveyCorpus F}
    (h : fromSnapshot I (.dict kvs) = .ok c) : ∃ digest,
      jsonDigest I (.dict (unsigned kvs)) = .ok digest ∧
        itemIs kvs (py "payload_sha256") (.str digest) = true := by
  rw [fromSnapshot, bind_eq_ok] at h
  obtain ⟨_, _, h⟩ := h
  obtain ⟨digest, hdigest, h⟩ := bind_eq_ok.mp h
  obtain ⟨_, hsha, _⟩ := bind_eq_ok.mp h
  exact ⟨digest, hdigest, by simpa using hsha⟩

theorem altered_refused {I : Interpreter} (hsha : Function.Injective I.sha256)
    {c : SurveyCorpus F} {m : Json F} {digest : PyStr} (ht : Taken I c m digest)
    {payload : PyVal F} (h : Altered payload (ofJson (.obj (signed c m digest)))) :
    ∃ e, fromSnapshot I payload = .error e := by
  have hp := presents_signed c m digest
  cases hread : fromSnapshot I payload with
  | error e => exact ⟨e, rfl⟩
  | ok c' =>
    exfalso
    cases payload with
    | dict kvs =>
      obtain ⟨actual, hactual, hitem⟩ := fromSnapshot_eq_ok hread
      have hstored : getItem kvs (py "payload_sha256") = some (.str digest) := h.1.trans hp.sha
      rw [itemIs, hstored] at hitem
      have hdigest : digest = actual := beq_iff_eq.mp hitem
      have horiginal : jsonDigest I (.dict (unsigned (ofMembers (signed c m digest)))) =
          .ok digest := by
        rw [jsonDigest, hp.content]
        exact ht.digest
      exact h.2 (sameJson_of_digest hsha (hdigest ▸ hactual) horiginal)
    | _ => cases hread

/-! ## Round trip -/

/-- What reading a payload back must give for a corpus with this snapshot. -/
def Restores (I : Interpreter) (c : SurveyCorpus F) (s : Json F) (payload : PyVal F) : Prop :=
  ∃ c', fromSnapshot I payload = .ok c' ∧ Same c c' ∧ snapshot I c' = .ok s

/-- A snapshot restores its corpus, also through its canonical text, and no altered payload is
read. -/
theorem snapshot_restores (I : Interpreter) (hsha : Function.Injective I.sha256)
    {topic : SurveyTopic} {c : SurveyCorpus F} (hc : Built I topic c) {s : Json F}
    (hs : snapshot I c = .ok s) :
    Restores I c s (ofJson s) ∧
      (∃ text read, canonicalJson (ofJson s) = .ok text ∧ loads text = some read ∧
        Restores I c s (ofJson read)) ∧
      ∀ payload, Altered payload (ofJson s) → ∃ e, fromSnapshot I payload = .error e := by
  obtain ⟨m, digest, ht, rfl⟩ := snapshot_eq_ok.mp hs
  have hread := fromSnapshot_presents hc.sound ht (presents_signed c m digest)
  have hloaded := fromSnapshot_presents hc.sound ht (presents_sorted ht)
  have hagain := snapshot_reordered hs
  refine ⟨⟨_, hread, same_reordered c, hagain⟩, ?_, fun payload => altered_refused hsha ht⟩
  have hload := loads_render (finite_sortNames _ ht.finite_signed) (t := []) (by simp)
  rw [List.append_nil, dedup_of_sorted _ ht.sorted_signed] at hload
  exact ⟨_, _, dumps_ofJson ht.finite_signed, hload, _, hloaded, same_reordered c, hagain⟩

/-! ### A corpus of one passage -/

def sampleTopic : SurveyTopic :=
  ⟨py "t1", py "Oxides", [py "oxide"], [py "Why do oxides harden?"], some 2000, none, py "en", []⟩

def sampleDocument : DocumentRecord := ⟨[], py "u1", py "On oxides", some 2001, [], [], 3, sciverse⟩

def sampleQuery : QueryRecord :=
  ⟨py "q1", py "oxide", py "semantic", py "probe", 1, none, [], false, sciverse⟩

def samplePassage : SurveyPassage NonFinite :=
  ⟨py "p1", py "u1", py "q1", py "Oxides harden.", py "Oxides harden.", some 0, none, none,
    py "agentic-search", sciverse⟩

def sampleCorpus : SurveyCorpus NonFinite where
  topic := sampleTopic
  documents := empty.set sampleDocument.key sampleDocument
  passages := empty.set samplePassage.passageId samplePassage
  queries := empty.set sampleQuery.queryId sampleQuery

theorem built_sampleCorpus : Built QuoteGate.sampleInterpreter sampleTopic sampleCorpus :=
  .passage (.query (.document .new (addDocument_eq_ok.mpr ⟨by decide +kernel, rfl⟩))
    (addQuery_eq_ok.mpr ⟨by decide +kernel, rfl⟩))
    (addPassage_eq_ok.mpr ⟨by decide +kernel, rfl⟩)

theorem snapshot_restores_sample :
    ∃ s, snapshot QuoteGate.sampleInterpreter sampleCorpus = .ok s ∧
      Restores QuoteGate.sampleInterpreter sampleCorpus s (ofJson s) ∧
      (∃ text read, canonicalJson (ofJson s) = .ok text ∧ loads text = some read ∧
        Restores QuoteGate.sampleInterpreter sampleCorpus s (ofJson read)) ∧
      ∀ payload, Altered payload (ofJson s) →
        ∃ e, fromSnapshot QuoteGate.sampleInterpreter payload = .error e := by
  have hok : (snapshot QuoteGate.sampleInterpreter sampleCorpus).toOption.isSome = true := by
    decide +kernel
  cases hs : snapshot QuoteGate.sampleInterpreter sampleCorpus with
  | error e =>
    rw [hs] at hok
    cases hok
  | ok s =>
    exact ⟨s, rfl, snapshot_restores _ Function.injective_id built_sampleCorpus hs⟩

end SurveyRoundTrip
