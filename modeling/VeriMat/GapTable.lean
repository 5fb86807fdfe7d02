import VeriMat.GapDetection

/-! # The table of gaps

`gap_table` looks for the candidate of a gap among those of its kind with its passages, and takes
the first. Another candidate may rest on the same passages. -/
namespace GapCandidates

open PyText JsonText PyValue PyDict KeyedRecords Events SurveyRecords RelationExtraction Fallible
open GapNarration (GapResult GapNarrator Narrated narrate)
open ClosedVocabularies (Told judgedIn keyedGaps narrate_told)
open Verification (Interpreter)
open DecisionGraph (Payload)
open OperationStore (ModelResponse)

variable {F : Type}

/-! ## Rows -/

/-- A passage of a gap with the document it is from. -/
structure GapSource where
  passageId : PyStr
  contentSha256 : PyStr
  docId : PyStr
  uniqueId : PyStr
  doi : PyStr
  title : PyStr
  year : Option ℤ
  venue : PyStr
  database : PyStr

/-- The rule that found a candidate, and the facts that fired it. -/
structure Derivation (F : Type) where
  rule : PyStr
  subject : Dict PyStr PyStr
  facts : Payload F

structure GapRow (F : Type) where
  gapId : PyStr
  kind : PyStr
  statement : PyStr
  novelty : PyStr
  noveltyBasis : PyStr
  noveltyQuote : PyStr
  derivation : Derivation F
  supportingRelations : List PyStr
  evidence : List GapSource

/-- What escapes `gap_table`. -/
inductive TableError where
  | candidate (e : SurveyError)
  | passageNotInCorpus (gapId passageId : PyStr)
  | documentNeverRecorded (gapId passageId : PyStr)

/-- The source of a passage that a gap cites. -/
def gapSource (corpus : SurveyCorpus F) (gapId passageId : PyStr) : Except TableError GapSource :=
  match corpus.passages.get passageId with
  | none => .error (.passageNotInCorpus gapId passageId)
  | some passage =>
    match corpus.documents.get passage.docId with
    | none => .error (.documentNeverRecorded gapId passageId)
    | some document => .ok ⟨passageId, passage.contentSha256, document.docId, document.uniqueId,
        document.doi, document.title, document.year, document.venue, document.database⟩

/-- `set(a) == set(b)`. -/
def sameSet (a b : List PyStr) : Bool := a.all (· ∈ b) && b.all (· ∈ a)

/-- `item.kind == gap.kind and set(item.passage_ids) == set(gap.supporting_passages)`. -/
def restsOn (kind : PyStr) (passages : List PyStr) (item : GapCandidate F) : Bool :=
  item.kind == kind && sameSet item.passageIds passages

/-- The derivation of a gap, from the candidates by identifier. -/
def derivationOf (byId : Dict PyStr (GapCandidate F)) (gap : ResearchGap) : Derivation F :=
  match byId.values.find? (restsOn gap.kind gap.supportingPassages) with
  | some item => ⟨item.kind, item.subject, item.evidence⟩
  | none => ⟨gap.kind, empty, []⟩

/-- A row of the table. -/
def gapRow (byId : Dict PyStr (GapCandidate F)) (corpus : SurveyCorpus F)
    (entry : PyStr × ResearchGap) : Except TableError (GapRow F) := do
  let gap := entry.2
  let sources ← gap.supportingPassages.mapM (gapSource corpus entry.1)
  return ⟨entry.1, gap.kind, gap.statement, gap.novelty, gap.noveltyBasis, gap.noveltyQuote,
    derivationOf byId gap, gap.supportingRelations, sources⟩

/-- `{item.candidate_id(): item for item in candidates}`. -/
def indexById [PyFloat F] (I : Interpreter) (candidates : List (GapCandidate F)) :
    Checked (Dict PyStr (GapCandidate F)) :=
  candidates.foldlM (fun byId item => return byId.set (← item.candidateId I) item) empty

/-- `gap_table`. -/
def gapTable [PyFloat F] (I : Interpreter) (outcome : GapResult) (candidates : CandidateSet F)
    (corpus : SurveyCorpus F) : Except TableError (List (GapRow F)) := do
  let byId ← (indexById I candidates.candidates).mapError .candidate
  (inOrder outcome.gaps).items.mapM (gapRow byId corpus)

/-! ## Gaps and candidates -/

/-- The derivation a gap should have: that of the candidate that was narrated. -/
def derivationFrom (candidate : GapNarration.GapCandidate F) : Derivation F :=
  ⟨candidate.kind, candidate.subject, candidate.evidence⟩

theorem sameSet_eq_true {a b : List PyStr} : sameSet a b = true ↔ ∀ x, x ∈ a ↔ x ∈ b := by
  simp only [sameSet, Bool.and_eq_true, List.all_eq_true, decide_eq_true_eq]
  exact ⟨fun h x => ⟨h.1 x, h.2 x⟩, fun h => ⟨fun x => (h x).mp, fun x => (h x).mpr⟩⟩

/-- Repeated passages make no difference. -/
theorem restsOn_distinct (kind : PyStr) (passages : List PyStr) :
    restsOn (F := F) kind (distinct passages) = restsOn kind passages := by
  funext item
  rw [restsOn, restsOn, Bool.eq_iff_iff, Bool.and_eq_true, Bool.and_eq_true, sameSet_eq_true,
    sameSet_eq_true]
  simp only [mem_distinct]

section Runs
variable [PyFloat F] {I : Interpreter} {N : GapNarrator F}

theorem judge_kind {call : Narrated F} {value : Payload F} {g : ResearchGap}
    (h : GapNarration.judge I call.candidate value call.exposed = .ok (.gap g)) :
    g.kind = call.candidate.kind := by
  rw [GapNarration.judge] at h
  dsimp only at h
  split_ifs at h
  · cases h
  · cases h
  · obtain ⟨g', hbuild, h⟩ := bind_eq_ok.mp h
    obtain ⟨_, _, hbuild⟩ := bind_eq_ok.mp hbuild
    cases hbuild
    split at h
    case h_1 =>
      cases h
      rfl
    all_goals cases h

/-- A gap has the kind and the passages of the candidate it was narrated from. -/
theorem admitted_from {corpus : SurveyCorpus F} {result : GapResult} {log : List (Narrated F)}
    (h : Told I corpus result log) {call : Narrated F} (hcall : call ∈ log) {g : ResearchGap}
    (hg : g ∈ call.admitted) : g.kind = call.candidate.kind ∧
      g.supportingPassages = distinct call.candidate.passageIds := by
  have hmem : (call, g) ∈ recorded Narrated.admitted log := mem_recorded.mpr ⟨hcall, hg⟩
  rw [h.firsts, mem_firstsFrom] at hmem
  obtain ⟨earlier, later, heq, _⟩ := hmem.2
  have hrecorded : (call, g) ∈ recorded (judgedIn I) log := by simp [heq]
  obtain ⟨_, hjudged⟩ := mem_recorded.mp hrecorded
  refine ⟨?_, (ClosedVocabularies.judgedIn_sound hjudged).cites⟩
  rw [judgedIn] at hjudged
  split at hjudged
  case h_1 => cases hjudged
  case h_2 value _ =>
    split at hjudged
    case h_1 g' hjudge =>
      obtain rfl := List.mem_singleton.mp hjudged
      exact judge_kind hjudge
    case h_2 => cases hjudged

/-! ## The first candidate on the same ground -/

omit [PyFloat F] in
/-- The first candidate of this one's kind with its passages says the same as this one. -/
def FirstMatch (byId : Dict PyStr (GapCandidate F)) (c : GapNarration.GapCandidate F) : Prop :=
  match byId.values.find? (restsOn c.kind c.passageIds) with
  | some item => item.subject = c.subject ∧ item.evidence = c.evidence
  | none => c.subject = empty ∧ c.evidence = []

/-- The same, for the candidates of a set by identifier. -/
def Foremost (I : Interpreter) (set : CandidateSet F) (c : GapNarration.GapCandidate F) : Prop :=
  ∃ byId, indexById I set.candidates = .ok byId ∧ FirstMatch byId c

omit [PyFloat F] in
theorem derivationOf_eq_iff {byId : Dict PyStr (GapCandidate F)}
    {c : GapNarration.GapCandidate F} {g : ResearchGap} (hkind : g.kind = c.kind)
    (hpassages : g.supportingPassages = distinct c.passageIds) :
    derivationOf byId g = derivationFrom c ↔ FirstMatch byId c := by
  rw [derivationOf, FirstMatch, hkind, hpassages, restsOn_distinct, derivationFrom]
  cases hfind : byId.values.find? (restsOn c.kind c.passageIds) with
  | none =>
    simp only [Derivation.mk.injEq, true_and]
    exact and_congr eq_comm eq_comm
  | some item =>
    have hmatch := List.find?_some hfind
    rw [restsOn, Bool.and_eq_true, beq_iff_eq] at hmatch
    simp only [Derivation.mk.injEq, hmatch.1, true_and]

/-- Every gap was admitted in one call only. -/
theorem call_unique {corpus : SurveyCorpus F} {result : GapResult} {log : List (Narrated F)}
    (h : Told I corpus result log) {x y : Narrated F × ResearchGap}
    (hx : x ∈ recorded Narrated.admitted log) (hy : y ∈ recorded Narrated.admitted log)
    (hid : x.2.gapId = y.2.gapId) : x = y := by
  have hnodup : ((recorded Narrated.admitted log).map fun x => x.2.gapId).Nodup := by
    have hkeys := result.gaps.nodup
    rw [h.items, keyedGaps, List.map_map, ← map_snd_recorded, List.map_map] at hkeys
    exact hkeys
  exact List.inj_on_of_nodup_map hnodup hx hy hid

theorem mem_gaps {corpus : SurveyCorpus F} {result : GapResult} {log : List (Narrated F)}
    (h : Told I corpus result log) {entry : PyStr × ResearchGap} :
    entry ∈ result.gaps.items ↔
      ∃ x ∈ recorded Narrated.admitted log, (x.2.gapId, x.2) = entry := by
  rw [h.items, keyedGaps, ← map_snd_recorded, List.map_map, List.mem_map]
  rfl

omit [PyFloat F] in
theorem gapRow_eq_ok {byId : Dict PyStr (GapCandidate F)} {corpus : SurveyCorpus F}
    {entry : PyStr × ResearchGap} {row : GapRow F} (h : gapRow byId corpus entry = .ok row) :
    row.gapId = entry.1 ∧ row.derivation = derivationOf byId entry.2 := by
  obtain ⟨sources, _, hrow⟩ := bind_returns.mp h
  cases hrow
  exact ⟨rfl, rfl⟩

/-- The rows name the candidates they come from exactly when each narrated candidate that gave a
gap is the first on its ground, as far as subject and facts go. -/
theorem derivations_real_iff {candidates : CandidateSet F} {extracted : ExtractionResult}
    {corpus : SurveyCorpus F} {outcome : GapResult} {log : List (Narrated F)}
    {rows : List (GapRow F)}
    (hran : narrate I N (candidates.candidates.map (·.toGapCandidate)) extracted corpus [] =
      .ok (outcome, log))
    (htable : gapTable I outcome candidates corpus = .ok rows) :
    (∀ row ∈ rows, ∃ call ∈ log, ∃ g ∈ call.admitted, g.gapId = row.gapId ∧
      row.derivation = derivationFrom call.candidate) ↔
    ∀ call ∈ log, call.admitted ≠ [] → Foremost I candidates call.candidate := by
  have htold := narrate_told hran
  obtain ⟨byId, hindex, hrows⟩ := bind_returns.mp htable
  have hindex : indexById I candidates.candidates = .ok byId := by
    cases hresult : indexById I candidates.candidates with
    | error e =>
      rw [hresult] at hindex
      cases hindex
    | ok found =>
      rw [hresult] at hindex
      cases hindex
      rfl
  -- a row is that of a gap of a call, with the derivation looked up for it
  have hrow : ∀ row ∈ rows, ∃ x ∈ recorded Narrated.admitted log, x.2.gapId = row.gapId ∧
      (row.derivation = derivationFrom x.1.candidate ↔ FirstMatch byId x.1.candidate) := by
    intro row hmem
    obtain ⟨entry, hentry, hok⟩ := (mem_of_mapM hrows).mp hmem
    obtain ⟨x, hx, rfl⟩ := (mem_gaps htold).mp ((items_inOrder _).mem_iff.mp hentry)
    obtain ⟨hid, hderivation⟩ := gapRow_eq_ok hok
    obtain ⟨hcall, hg⟩ := mem_recorded.mp hx
    obtain ⟨hkind, hpassages⟩ := admitted_from htold hcall hg
    exact ⟨x, hx, hid.symm, by rw [hderivation, derivationOf_eq_iff hkind hpassages]⟩
  constructor
  · intro hreal call hcall hadmitted
    obtain ⟨g, hg⟩ := List.exists_mem_of_ne_nil _ hadmitted
    have hx : (call, g) ∈ recorded Narrated.admitted log := mem_recorded.mpr ⟨hcall, hg⟩
    have hentry : (g.gapId, g) ∈ (inOrder outcome.gaps).items :=
      (items_inOrder _).mem_iff.mpr ((mem_gaps htold).mpr ⟨_, hx, rfl⟩)
    obtain ⟨row, hmem, hok⟩ := DurablePayload.exists_right (mapM_eq_ok.mp hrows) hentry
    have hid : row.gapId = g.gapId := (gapRow_eq_ok hok).1
    obtain ⟨call', hcall', g', hg', hid', hderivation⟩ := hreal row hmem
    obtain ⟨y, hy, hyid, hiff⟩ := hrow row hmem
    have hxy : y = (call, g) := call_unique htold hy hx (hyid.trans hid)
    have hxz : (call', g') = (call, g) :=
      call_unique htold (mem_recorded.mpr ⟨hcall', hg'⟩) hx (hid'.trans hid)
    rw [hxy] at hiff
    rw [(Prod.mk.inj hxz).1] at hderivation
    exact ⟨byId, hindex, hiff.mp hderivation⟩
  · intro hforemost row hmem
    obtain ⟨x, hx, hid, hiff⟩ := hrow row hmem
    obtain ⟨hcall, hg⟩ := mem_recorded.mp hx
    obtain ⟨byId', hindex', hfirst⟩ := hforemost x.1 hcall (List.ne_nil_of_mem hg)
    cases hindex.symm.trans hindex'
    exact ⟨x.1, hcall, x.2, hg, hid, hiff.mpr hfirst⟩

end Runs

/-! ## Two cells on one passage -/

/-- Some row has the subject of none of the candidates narrated as its gap. -/
def misattributed (rows : List (GapRow F)) (log : List (Narrated F)) : Bool :=
  rows.any fun row => log.all fun call => call.admitted.all fun g =>
    g.gapId != row.gapId || row.derivation.subject.items != call.candidate.subject.items

theorem not_real_of_misattributed {rows : List (GapRow F)} {log : List (Narrated F)}
    (h : misattributed rows log = true) : ¬ ∀ row ∈ rows, ∃ call ∈ log, ∃ g ∈ call.admitted,
      g.gapId = row.gapId ∧ row.derivation = derivationFrom call.candidate := by
  intro hreal
  obtain ⟨row, hrow, hnone⟩ := List.any_eq_true.mp h
  obtain ⟨call, hcall, g, hg, hid, hderivation⟩ := hreal row hrow
  have hdiffer := List.all_eq_true.mp (List.all_eq_true.mp hnone call hcall) g hg
  rw [hderivation, hid] at hdiffer
  simp [derivationFrom] at hdiffer

/-- Digests that tell texts apart by how they end. -/
def endsInterpreter : Interpreter := ⟨⟨fun _ => true, []⟩, fun c => [c], List.reverse⟩

def sharedCorpus : SurveyCorpus NonFinite where
  topic := ⟨py "t1", py "Oxides", [py "oxide"], [py "Why?"], none, none, py "en", []⟩
  documents := empty.set (py "u1") ⟨[], py "u1", py "On oxides", none, [], [], 0, sciverse⟩
  passages := empty.set (py "p1") ⟨py "p1", py "u1", py "q1", py "oxide", py "edixo", none, none,
    none, py "agentic-search", sciverse⟩
  queries := empty.set (py "q1") ⟨py "q1", py "oxide", py "semantic", py "evidence", 1, none, [],
    false, sciverse⟩

/-- A cell that rests on the one passage. -/
def sharedCandidate (relationId propertyName : PyStr) : GapCandidate NonFinite where
  kind := py "single_source"
  subject := subjectOf (py "oxide", py "vacancies", propertyName)
  evidence := [fact (py "n_sources") (.int 1)]
  relationIds := [relationId]
  passageIds := [py "p1"]
  nDocuments := 1

def sharedCandidates : CandidateSet NonFinite :=
  ⟨[sharedCandidate (py "r1") (py "ZT"), sharedCandidate (py "r2") (py "seebeck")], empty⟩

/-- A gap with this statement. -/
def statementOf (statement : PyStr) : PyStr :=
  render (F := NonFinite) (.obj [(py "verdict", .str (py "gap")), (py "statement", .str statement),
    (py "novelty", .str (py "new")), (py "novelty_quote", .str []),
    (py "novelty_basis", .str (py "One study only."))])

theorem six_exposes : (1 : ℤ) ≤ 6 := by decide

theorem v2_profiled : isBlank (py "evidence_gap_v2") = false := by decide

/-- A narrator whose model states each candidate in words of its own. -/
def sharedNarrator : GapNarrator NonFinite where
  transport _ request := .ok ⟨statementOf (py "One study of the " ++
    (if request.candidate.relationIds = [py "r1"] then py "merit" else py "power")), 1, 1, py "m"⟩
  maxPassages := 6
  maxPassageChars := 2000
  promptProfile := py "evidence_gap_v2"
  exposes := six_exposes
  profiled := v2_profiled

def sharedNarration : Checked (GapResult × List (Narrated NonFinite)) :=
  narrate endsInterpreter sharedNarrator (sharedCandidates.candidates.map (·.toGapCandidate)) .new
    sharedCorpus []

def sharedTable : Option (List (GapRow NonFinite) × List (Narrated NonFinite)) :=
  sharedNarration.toOption.bind fun p =>
    (gapTable endsInterpreter p.1 sharedCandidates sharedCorpus).toOption.map fun rows =>
      (rows, p.2)

theorem sharedTable_eq :
    (sharedTable.map fun p => (p.1.length, misattributed p.1 p.2)) = some (2, true) := by
  decide +kernel

theorem shared_returns : ∃ outcome log rows, sharedNarration = .ok (outcome, log) ∧
    gapTable endsInterpreter outcome sharedCandidates sharedCorpus = .ok rows ∧
      misattributed rows log = true := by
  have htable := sharedTable_eq
  rw [sharedTable] at htable
  cases hran : sharedNarration with
  | error e =>
    rw [hran] at htable
    cases htable
  | ok p =>
    rw [hran] at htable
    cases hrows : gapTable endsInterpreter p.1 sharedCandidates sharedCorpus with
    | error e =>
      simp only [Except.toOption, Option.bind_some, hrows] at htable
      cases htable
    | ok rows =>
      simp only [Except.toOption, Option.bind_some, hrows, Option.map_some, Option.some.injEq,
        Prod.mk.injEq] at htable
      exact ⟨p.1, p.2, rows, rfl, hrows, htable.2⟩

/-- The second gap is given the subject of the first. -/
theorem shared_not_real : ∃ outcome log rows,
    narrate endsInterpreter sharedNarrator (sharedCandidates.candidates.map (·.toGapCandidate))
      .new sharedCorpus [] = .ok (outcome, log) ∧
    gapTable endsInterpreter outcome sharedCandidates sharedCorpus = .ok rows ∧
      ¬ ∀ row ∈ rows, ∃ call ∈ log, ∃ g ∈ call.admitted, g.gapId = row.gapId ∧
        row.derivation = derivationFrom call.candidate := by
  obtain ⟨outcome, log, rows, hran, hrows, hmis⟩ := shared_returns
  exact ⟨outcome, log, rows, hran, hrows, not_real_of_misattributed hmis⟩

theorem shared_not_foremost : ∃ outcome log,
    narrate endsInterpreter sharedNarrator (sharedCandidates.candidates.map (·.toGapCandidate))
      .new sharedCorpus [] = .ok (outcome, log) ∧
    ¬ ∀ call ∈ log, call.admitted ≠ [] →
      Foremost endsInterpreter sharedCandidates call.candidate := by
  obtain ⟨outcome, log, rows, hran, hrows, hmis⟩ := shared_returns
  exact ⟨outcome, log, hran, fun hforemost => not_real_of_misattributed hmis
    ((derivations_real_iff hran hrows).mpr hforemost)⟩

end GapCandidates
