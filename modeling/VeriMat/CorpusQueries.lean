import VeriMat.CorpusRuns

/-! # The record of the searches

Every executed search writes a record, but under a digest of what was asked: a search repeated with
another outcome overwrites the record of the first one, and the number of hits that one had is lost.
Exactly the searches that agree with one no later search overwrites stay on the record. -/
namespace CorpusQueries

open PyText JsonText PyValue PyDict KeyedRecords SurveyRecords SurveyRoundTrip CorpusBuild CorpusRuns
open Verification (Interpreter)
open DecisionGraph (Payload)

variable {F : Type}

/-! ## What a record says -/

/-- The text that was searched for. -/
def searchText : Executed F → PyStr
  | .metadata _ request _ => request.query
  | .evidence _ request _ => request.query
  | .documentProbe _ request _ => request.query

/-- The stage of the survey: metadata or semantic. -/
def searchStage : Executed F → PyStr
  | .metadata .. => py "metadata"
  | .evidence .. => py "semantic"
  | .documentProbe .. => py "semantic"

section Records
variable [PyFloat F] {I : Interpreter} {P : Conversions F}

/-- How many rows or hits came back. -/
def searchHits : Executed F → ℤ
  | .metadata _ _ reply =>
    match rowsOf reply with
    | .ok rows => rows.length
    | .error _ => 0
  | .evidence _ _ reply => reply.length
  | .documentProbe _ _ reply => reply.length

/-- The identifier a search is recorded under. -/
def queryIdOf (I : Interpreter) : Executed F → Checked PyStr
  | .metadata intent request _ => do
    let fingerprint ← filtersFingerprint I request.filters
    digestId (F := F) I (py "qry")
      [.str (py "metadata"), .str intent, .str request.query, .str fingerprint]
  | .evidence shard request _ =>
    digestId (F := F) I (py "qry")
      [.str (py "semantic"), .str request.query, .list (shard.map .str)]
  | .documentProbe docId request _ =>
    digestId (F := F) I (py "qry")
      [.str (py "semantic-document"), .str request.query, .str docId]

/-- A record with the search's text, stage and number of hits. -/
structure Describes (e : Executed F) (q : QueryRecord) : Prop where
  text : q.text = searchText e
  stage : q.stage = searchStage e
  hits : q.nHits = searchHits e

/-- The record of a search describes it. -/
theorem record_describes {e : Executed F} {r : QueryRecord} (h : record I P e = .ok r) :
    Describes e r ∧ queryIdOf I e = .ok r.queryId := by
  cases e with
  | metadata intent request reply =>
    obtain ⟨fingerprint, hfingerprint, h⟩ := bind_eq_ok.mp h
    obtain ⟨rows, hrows, h⟩ := bind_eq_ok.mp h
    obtain ⟨queryId, hid, h⟩ := bind_eq_ok.mp h
    obtain ⟨total, _, h⟩ := bind_eq_ok.mp h
    cases h
    refine ⟨⟨rfl, rfl, ?_⟩, bind_eq_ok.mpr ⟨fingerprint, hfingerprint, hid⟩⟩
    rw [searchHits, hrows]
  | evidence shard request reply =>
    obtain ⟨queryId, hid, h⟩ := bind_eq_ok.mp h
    obtain ⟨fingerprint, _, h⟩ := bind_eq_ok.mp h
    cases h
    exact ⟨⟨rfl, rfl, rfl⟩, hid⟩
  | documentProbe docId request reply =>
    obtain ⟨queryId, hid, h⟩ := bind_eq_ok.mp h
    obtain ⟨fingerprint, _, h⟩ := bind_eq_ok.mp h
    cases h
    exact ⟨⟨rfl, rfl, rfl⟩, hid⟩

end Records

/-! ## Searches that stay -/

theorem forall₂_split {α β : Type} {R : α → β → Prop} {xs zs : List α} {x : α} {ys : List β}
    (h : List.Forall₂ R (xs ++ x :: zs) ys) :
    ∃ us y vs, ys = us ++ y :: vs ∧ R x y ∧ List.Forall₂ R zs vs := by
  induction xs generalizing ys with
  | nil =>
    cases h with
    | cons hx hzs => exact ⟨[], _, _, rfl, hx, hzs⟩
  | cons a xs ih =>
    cases h with
    | cons _ htail =>
      obtain ⟨us, y, vs, rfl, hx, hzs⟩ := ih htail
      exact ⟨_ :: us, y, vs, rfl, hx, hzs⟩

section Runs
variable [PyFloat F] {I : Interpreter} {P : Conversions F} {B : CorpusBuilder F}

/-- A search of the log that no later one has the query id of. -/
def Stands (I : Interpreter) (log : List (Executed F)) (e : Executed F) : Prop :=
  ∃ earlier later, log = earlier ++ e :: later ∧ ∀ e' ∈ later, queryIdOf I e' ≠ queryIdOf I e

theorem survives_of_stands {log : List (Executed F)} {records : List QueryRecord}
    (h : List.Forall₂ (fun e r => record I P e = .ok r) log records) {e : Executed F}
    (he : Stands I log e) :
    ∃ r, record I P e = .ok r ∧ Survives QueryRecord.queryId records r := by
  obtain ⟨earlier, later, rfl, hlater⟩ := he
  obtain ⟨us, r, vs, rfl, hr, hvs⟩ := forall₂_split h
  refine ⟨r, hr, us, vs, rfl, fun r' hr' hid => ?_⟩
  obtain ⟨e', he', hrecord⟩ := DurablePayload.exists_left hvs hr'
  apply hlater e' he'
  rw [(record_describes hrecord).2, (record_describes hr).2, hid]

theorem stands_of_survives {log : List (Executed F)} {records : List QueryRecord}
    (h : List.Forall₂ (fun e r => record I P e = .ok r) log records) {r : QueryRecord}
    (hr : Survives QueryRecord.queryId records r) :
    ∃ e, record I P e = .ok r ∧ Stands I log e := by
  obtain ⟨us, vs, rfl, hvs⟩ := hr
  obtain ⟨earlier, e, later, rfl, hrecord, hlater⟩ := forall₂_split h.flip
  refine ⟨e, hrecord, earlier, later, rfl, fun e' he' hid => ?_⟩
  obtain ⟨r', hr', hrecord'⟩ := DurablePayload.exists_left hlater he'
  rw [(record_describes hrecord').2, (record_describes hrecord).2, Except.ok.injEq] at hid
  exact hvs r' hr' hid

/-- The records that are left are those of the searches that stand. -/
theorem mem_queries_iff {topic : SurveyTopic} {c : SurveyCorpus F} {log : List (Executed F)}
    (h : Finished I P B topic c log) {q : QueryRecord} :
    q ∈ c.queries.values ↔ ∃ e, record I P e = .ok q ∧ Stands I log e := by
  obtain ⟨records, hrecords, hqueries⟩ := h.trace.recorded
  have hcollect : c.queries = collect QueryRecord.queryId records := hqueries
  rw [hcollect, mem_values_collect]
  constructor
  · exact stands_of_survives hrecords
  · rintro ⟨e, hrecord, hstands⟩
    obtain ⟨r, hr, hsurvives⟩ := survives_of_stands hrecords hstands
    rw [hrecord] at hr
    cases hr
    exact hsurvives

/-- Every search that stands has a record. -/
theorem record_of_stands {topic : SurveyTopic} {c : SurveyCorpus F} {log : List (Executed F)}
    (h : Finished I P B topic c log) {e : Executed F} (he : Stands I log e) :
    ∃ q ∈ c.queries.values, Describes e q := by
  obtain ⟨records, hrecords, _⟩ := h.trace.recorded
  obtain ⟨q, hq, _⟩ := survives_of_stands hrecords he
  exact ⟨q, (mem_queries_iff h).mpr ⟨e, hq, he⟩, (record_describes hq).1⟩

/-- The same text, stage and number of hits. -/
structure Agree (e e' : Executed F) : Prop where
  text : searchText e = searchText e'
  stage : searchStage e = searchStage e'
  hits : searchHits e = searchHits e'

/-- Every executed search is on the record. -/
def OnRecord (c : SurveyCorpus F) (log : List (Executed F)) : Prop :=
  ∀ e ∈ log, ∃ q ∈ c.queries.values, Describes e q

/-- Every search agrees with one that no later search has the query id of. -/
def NothingLost (I : Interpreter) (log : List (Executed F)) : Prop :=
  ∀ e ∈ log, ∃ e', Stands I log e' ∧ Agree e e'

/-- The searches of a run are all on the record exactly when none is lost to a repetition. -/
theorem onRecord_iff (I : Interpreter) (P : Conversions F) (B : CorpusBuilder F)
    (topic : SurveyTopic) (c : SurveyCorpus F) (log : List (Executed F))
    (h : build I P B topic [] = .ok (c, log)) : OnRecord c log ↔ NothingLost I log := by
  have hfinished := build_finished h
  constructor
  · intro hrecord e he
    obtain ⟨q, hq, hdescribes⟩ := hrecord e he
    obtain ⟨e', hq', hstands⟩ := (mem_queries_iff hfinished).mp hq
    have hdescribes' := (record_describes hq').1
    exact ⟨e', hstands, hdescribes.text.symm.trans hdescribes'.text,
      hdescribes.stage.symm.trans hdescribes'.stage, hdescribes.hits.symm.trans hdescribes'.hits⟩
  · intro hlost e he
    obtain ⟨e', hstands, hagree⟩ := hlost e he
    obtain ⟨q, hq, hdescribes⟩ := record_of_stands hfinished hstands
    exact ⟨q, hq, hdescribes.text.trans hagree.text.symm, hdescribes.stage.trans hagree.stage.symm,
      hdescribes.hits.trans hagree.hits.symm⟩

/-- Searches with distinct query ids all stand. -/
theorem nothingLost_of_distinct {log : List (Executed F)}
    (h : (log.map (queryIdOf I)).Nodup) : NothingLost I log := by
  intro e he
  obtain ⟨earlier, later, rfl⟩ := List.append_of_mem he
  refine ⟨e, ⟨earlier, later, rfl, fun e' he' hid => ?_⟩, rfl, rfl, rfl⟩
  rw [List.map_append, List.map_cons] at h
  have hcons := List.nodup_cons.mp (List.nodup_append.mp h).2.1
  exact hcons.1 (hid ▸ List.mem_map_of_mem he')

end Runs

/-! ## A repeated seed query -/

/-- Two rows the first time, none afterwards. -/
def shrinkingSource : LiteratureSource NonFinite where
  metaSearch log _ :=
    .ok [(.str (py "results"), .list (if log.isEmpty then [.dict [], .dict []] else []))]
  agenticSearch _ _ := .ok []

theorem one_candidate : (1 : ℤ) ≤ 1 := le_refl 1

def shrinkingBuilder : CorpusBuilder NonFinite where
  source := shrinkingSource
  maxCandidates := 1
  semanticTopK := 50
  minPassageChars := 200
  scopeShardSize := 25
  citationFloor := 0
  documentProbeTemplates := []
  candidate := one_candidate
  scope := by decide

def repeatedTopic : SurveyTopic :=
  ⟨py "t1", py "Oxides", [py "oxide", py "oxide"], [py "Why do oxides harden?"], none, none, py "en",
    []⟩

/-- The outcome of the run: the hits on the record, and those of the searches. -/
def repeatedHits : Option (List ℤ × List ℤ) :=
  (build QuoteGate.sampleInterpreter sampleConversions shrinkingBuilder repeatedTopic
    []).toOption.map fun p => (p.1.queries.values.map (·.nHits), p.2.map searchHits)

theorem repeatedHits_eq : repeatedHits = some ([0], [2, 0]) := by
  decide +kernel

theorem repeated_returns : ∃ c log,
    build QuoteGate.sampleInterpreter sampleConversions shrinkingBuilder repeatedTopic [] =
      .ok (c, log) ∧ c.queries.values.map (·.nHits) = [0] ∧ log.map searchHits = [2, 0] := by
  have hhits := repeatedHits_eq
  rw [repeatedHits] at hhits
  cases hran : build QuoteGate.sampleInterpreter sampleConversions shrinkingBuilder repeatedTopic []
  with
  | error e =>
    rw [hran] at hhits
    cases hhits
  | ok p =>
    rw [hran] at hhits
    have hpair := Prod.mk.inj (Option.some.inj hhits)
    exact ⟨p.1, p.2, rfl, hpair.1, hpair.2⟩

/-- The same seed query finds two rows and then none: the first search is not on the record. -/
theorem not_onRecord : ∃ c log,
    build QuoteGate.sampleInterpreter sampleConversions shrinkingBuilder repeatedTopic [] =
      .ok (c, log) ∧ ¬OnRecord c log := by
  obtain ⟨c, log, hran, hrecorded, hsearched⟩ := repeated_returns
  refine ⟨c, log, hran, fun hall => ?_⟩
  have htwo : (2 : ℤ) ∈ log.map searchHits := by simp [hsearched]
  obtain ⟨e, he, hhits⟩ := List.mem_map.mp htwo
  obtain ⟨q, hq, hdescribes⟩ := hall e he
  have hmem : q.nHits ∈ c.queries.values.map (·.nHits) := List.mem_map_of_mem hq
  rw [hrecorded, List.mem_singleton, hdescribes.hits, hhits] at hmem
  cases hmem

theorem onRecord_iff_repeated : ∃ c log,
    build QuoteGate.sampleInterpreter sampleConversions shrinkingBuilder repeatedTopic [] =
      .ok (c, log) ∧ (OnRecord c log ↔ NothingLost QuoteGate.sampleInterpreter log) := by
  obtain ⟨c, log, hran, _⟩ := repeated_returns
  exact ⟨c, log, hran, onRecord_iff _ _ _ _ c log hran⟩

end CorpusQueries
