import VeriMat.QuoteGate
import VeriMat.RelationExtraction

/-! # The quotes of extracted relations

The quote gate reads a passage whole, the model is shown its first characters. A relation that is
admitted cites a passage of its call and quotes it; whether the quote stands in the text that was
shown depends on the window alone. -/
namespace RelationQuotes

open PyText JsonText PyValue PyDict KeyedRecords Events ModelTransports SurveyRecords
  RelationExtraction
open Verification (Interpreter)
open DecisionGraph (getItem Payload)
open OperationStore (ModelResponse)

variable {F : Type} [PyFloat F] {I : Interpreter} {D : ℕ → Bool} {E : RelationExtractor F}

/-! ## What passes the gates -/

/-- The relation of a proposal that passes every gate but the one for duplicates. -/
def passed (I : Interpreter) (D : ℕ → Bool) (E : RelationExtractor F)
    (exposed : Dict PyStr (SurveyPassage F)) (proposal : Payload F) : Option ExtractedRelation :=
  match canonicalJson (.dict proposal) with
  | .error _ => none
  | .ok payload =>
    match gate I D E exposed payload proposal with
    | .ok (.inr r) => some r
    | _ => none

/-- A relation that passed was built from the proposal and checked. -/
structure Passed (I : Interpreter) (E : RelationExtractor F)
    (exposed : Dict PyStr (SurveyPassage F)) (r : ExtractedRelation) : Prop where
  quoted : ∃ p, exposed.get r.passageId = some p ∧ p.supportsQuote I r.quote = true
  valid : r.validate = .ok ()
  vocabulary : r.vocabulary = E.vocabulary

theorem gate_sound {exposed : Dict PyStr (SurveyPassage F)} {payload : PyStr}
    {proposal : Payload F} {r : ExtractedRelation}
    (h : gate I D E exposed payload proposal = .ok (.inr r)) : Passed I E exposed r := by
  rw [gate] at h
  dsimp only at h
  split at h
  case h_1 => cases h
  case h_2 p hexposed =>
    split_ifs at h with hquote hvalue htemperature
    · cases h
    · cases h
    · cases h
    · obtain ⟨id, _, h⟩ := bind_eq_ok.mp h
      split at h
      case h_1 hvalid =>
        cases h
        exact ⟨⟨p, hexposed, Bool.eq_true_of_not_eq_false hquote⟩, hvalid, rfl⟩
      all_goals cases h

theorem passed_sound {exposed : Dict PyStr (SurveyPassage F)} {proposal : Payload F}
    {r : ExtractedRelation} (h : passed I D E exposed proposal = some r) :
    Passed I E exposed r := by
  rw [passed] at h
  split at h
  case h_1 => cases h
  case h_2 payload _ =>
    split at h
    case h_1 r' hgate =>
      cases h
      exact gate_sound hgate
    case h_2 => cases h

/-! ## What a response adds -/

/-- The identifiers of the relations so far. -/
def knownIds (result : ExtractionResult) : List PyStr := result.relations.items.map Prod.fst

/-- Relations as the items of a dict. -/
def keyed (relations : List ExtractedRelation) : List (PyStr × ExtractedRelation) :=
  relations.map fun r => (r.relationId, r)

theorem get_isSome {result : ExtractionResult} {key : PyStr} :
    (result.relations.get key).isSome = true ↔ key ∈ knownIds result := by
  rw [Option.isSome_iff_exists, knownIds, List.mem_map]
  constructor
  · rintro ⟨r, hr⟩
    exact ⟨_, Dict.get_eq_some.mp hr, rfl⟩
  · rintro ⟨p, hp, rfl⟩
    exact ⟨p.2, Dict.get_eq_some.mpr hp⟩

/-- A proposal adds its relation if that passes and is new. -/
theorem admit_ok {exposed : Dict PyStr (SurveyPassage F)} {result result' : ExtractionResult}
    {proposal : Payload F} (h : admitProposal I D E exposed result proposal = .ok result') :
    result'.relations.items = result.relations.items ++
      keyed (firstsFrom ExtractedRelation.relationId (knownIds result)
        (passed I D E exposed proposal).toList) := by
  rw [admitProposal] at h
  rw [passed]
  cases hpayload : canonicalJson (.dict proposal) with
  | error e =>
    rw [hpayload] at h
    cases h
  | ok payload =>
    rw [hpayload] at h
    obtain ⟨outcome, hgate, h⟩ := bind_eq_ok.mp h
    dsimp only
    rw [hgate]
    cases outcome with
    | inl item =>
      cases h
      exact (List.append_nil _).symm
    | inr r =>
      dsimp only at h ⊢
      rw [Option.toList_some, firstsFrom]
      by_cases hknown : r.relationId ∈ knownIds result
      · rw [if_pos (get_isSome.mpr hknown)] at h
        cases h
        rw [if_pos hknown]
        exact (List.append_nil _).symm
      · rw [if_neg (fun hsome => hknown (get_isSome.mp hsome))] at h
        cases h
        rw [if_neg hknown]
        exact setItem_of_notMem hknown

theorem admitAll_ok {exposed : Dict PyStr (SurveyPassage F)} {proposals : List (Payload F)}
    {result result' : ExtractionResult}
    (h : admitAll I D E exposed proposals result = .ok result') :
    result'.relations.items = result.relations.items ++
      keyed (firstsFrom ExtractedRelation.relationId (knownIds result)
        (proposals.filterMap (passed I D E exposed))) := by
  induction proposals generalizing result with
  | nil =>
    cases h
    exact (List.append_nil _).symm
  | cons proposal proposals ih =>
    rw [admitAll, List.foldlM_cons] at h
    obtain ⟨result₁, hadmit, h⟩ := bind_eq_ok.mp h
    have hfirst := admit_ok hadmit
    have hids : knownIds result₁ = knownIds result ++ (firstsFrom ExtractedRelation.relationId
        (knownIds result) (passed I D E exposed proposal).toList).map
          ExtractedRelation.relationId := by
      rw [knownIds, hfirst, List.map_append, keyed, List.map_map]
      rfl
    have hcons : (proposal :: proposals).filterMap (passed I D E exposed) =
        (passed I D E exposed proposal).toList ++ proposals.filterMap (passed I D E exposed) := by
      cases hpassed : passed I D E exposed proposal with
      | none => rw [List.filterMap_cons_none hpassed, Option.toList_none, List.nil_append]
      | some r => rw [List.filterMap_cons_some hpassed, Option.toList_some, List.singleton_append]
    rw [ih h, hfirst, hids, hcons, firstsFrom_append, keyed, keyed, keyed, List.map_append,
      List.append_assoc]

/-! ## Runs -/

/-- The relations that pass in a call. -/
def passedIn (I : Interpreter) (D : ℕ → Bool) (E : RelationExtractor F) (call : Call F) :
    List ExtractedRelation :=
  match parseRelations call.response.text with
  | .ok proposals => proposals.filterMap (passed I D E (exposedPassages call.batch))
  | .error _ => []

/-- Relations with the call they come from. -/
def within (call : Call F) (relations : List ExtractedRelation) :
    List (Call F × ExtractedRelation) :=
  relations.map fun r => (call, r)

/-- The relations that pass in a run, in order. -/
def candidates (I : Interpreter) (D : ℕ → Bool) (E : RelationExtractor F) (log : List (Call F)) :
    List (Call F × ExtractedRelation) :=
  log.flatMap fun call => within call (passedIn I D E call)

/-- The relations a run has admitted, in order. -/
def admissions (log : List (Call F)) : List (Call F × ExtractedRelation) :=
  log.flatMap fun call => within call call.admitted

/-- A call in which the new relations among those that passed were admitted. -/
theorem readBatch_ok {fingerprint : PyStr} {result result' : ExtractionResult}
    {batch : List (SurveyPassage F)} {log log' : List (Call F)}
    (h : readBatch I D E fingerprint result batch log = .ok (result', log')) :
    ∃ call : Call F, log' = log ++ [call] ∧ call.batch = batch ∧
      call.admitted = firstsFrom ExtractedRelation.relationId (knownIds result)
        (passedIn I D E call) ∧
      result'.relations.items = result.relations.items ++ keyed call.admitted := by
  obtain ⟨operationId, _, h⟩ := run_lift_bind.mp h
  obtain ⟨response, _, h⟩ := run_ask_bind.mp h
  obtain ⟨_, _, h⟩ := run_lift_bind.mp h
  obtain ⟨proposals, hparse, h⟩ := run_lift_bind.mp h
  obtain ⟨read, hread, h⟩ := run_lift_bind.mp h
  rw [run_note_bind] at h
  obtain ⟨rfl, rfl⟩ := run_pure.mp h
  have hitems := admitAll_ok hread
  have hvalues : result'.relations.values.drop result.relations.values.length =
      firstsFrom ExtractedRelation.relationId (knownIds result)
        (proposals.filterMap (passed I D E (exposedPassages batch))) := by
    rw [Dict.values, Dict.values, hitems, List.map_append, List.drop_left, keyed, List.map_map]
    exact List.map_id _
  refine ⟨_, rfl, rfl, ?_, ?_⟩
  · rw [hvalues, passedIn, hparse]
  · rw [hvalues]
    exact hitems

/-- What a run keeps: the result lists the admissions, which are the first candidates of each
identifier. -/
structure Read (I : Interpreter) (D : ℕ → Bool) (E : RelationExtractor F)
    (result : ExtractionResult) (log : List (Call F)) : Prop where
  items : result.relations.items = keyed ((admissions log).map Prod.snd)
  firsts : admissions log =
    firstsFrom (fun x => x.2.relationId) [] (candidates I D E log)

theorem read_new : Read I D E .new [] := ⟨rfl, rfl⟩

theorem Read.step {result result' : ExtractionResult} {log log' : List (Call F)}
    (hread : Read I D E result log) {fingerprint : PyStr} {batch : List (SurveyPassage F)}
    (h : readBatch I D E fingerprint result batch log = .ok (result', log')) :
    Read I D E result' log' := by
  obtain ⟨call, rfl, _, hadmitted, hitems⟩ := readBatch_ok h
  have hids : knownIds result = (admissions log).map fun x => x.2.relationId := by
    rw [knownIds, hread.items, keyed, List.map_map, List.map_map]
    rfl
  have hlast : admissions (log ++ [call]) = admissions log ++ within call call.admitted := by
    rw [admissions, admissions, List.flatMap_append, List.flatMap_singleton]
  constructor
  case items =>
    rw [hitems, hread.items, hlast, List.map_append, keyed, keyed, keyed, List.map_append, within,
      List.map_map]
    simp
  case firsts =>
    rw [hlast, candidates, List.flatMap_append, List.flatMap_singleton, firstsFrom_append,
      ← candidates, ← hread.firsts, List.nil_append, ← hids, hadmitted, within, within,
      firstsFrom_map]
    rfl

theorem foldlM_read {fingerprint : PyStr} {batches : List (List (SurveyPassage F))}
    {result result' : ExtractionResult} {log log' : List (Call F)} (hread : Read I D E result log)
    (h : batches.foldlM (readBatch I D E fingerprint) result log = .ok (result', log')) :
    Read I D E result' log' := by
  induction batches generalizing result log with
  | nil =>
    obtain ⟨rfl, rfl⟩ := run_pure.mp h
    exact hread
  | cons batch batches ih =>
    rw [List.foldlM_cons] at h
    obtain ⟨result₁, log₁, hbatch, h⟩ := run_bind.mp h
    exact ih (hread.step hbatch) h

theorem extract_read {corpus : SurveyCorpus F} {result : ExtractionResult} {log : List (Call F)}
    (h : extract I D E corpus [] = .ok (result, log)) : Read I D E result log := by
  obtain ⟨_, _, h⟩ := run_lift_bind.mp h
  obtain ⟨fingerprint, _, h⟩ := run_lift_bind.mp h
  obtain ⟨result₁, log₁, hbatches, h⟩ := run_bind.mp h
  obtain ⟨_, _, h⟩ := run_lift_bind.mp h
  obtain ⟨rfl, rfl⟩ := run_pure.mp h
  exact foldlM_read read_new hbatches

/-! ## Quotes and the window -/

theorem mem_candidates {log : List (Call F)} {x : Call F × ExtractedRelation} :
    x ∈ candidates I D E log ↔ x.1 ∈ log ∧ x.2 ∈ passedIn I D E x.1 := by
  rw [candidates, List.mem_flatMap]
  constructor
  · rintro ⟨call, hcall, hx⟩
    obtain ⟨r, hr, rfl⟩ := List.mem_map.mp hx
    exact ⟨hcall, hr⟩
  · rintro ⟨hcall, hr⟩
    exact ⟨x.1, hcall, List.mem_map.mpr ⟨x.2, hr, rfl⟩⟩

omit [PyFloat F] in
theorem mem_admissions {log : List (Call F)} {x : Call F × ExtractedRelation} :
    x ∈ admissions log ↔ x.1 ∈ log ∧ x.2 ∈ x.1.admitted := by
  rw [admissions, List.mem_flatMap]
  constructor
  · rintro ⟨call, hcall, hx⟩
    obtain ⟨r, hr, rfl⟩ := List.mem_map.mp hx
    exact ⟨hcall, hr⟩
  · rintro ⟨hcall, hr⟩
    exact ⟨x.1, hcall, List.mem_map.mpr ⟨x.2, hr, rfl⟩⟩

theorem passedIn_sound {call : Call F} {r : ExtractedRelation} (h : r ∈ passedIn I D E call) :
    Passed I E (exposedPassages call.batch) r := by
  rw [passedIn] at h
  split at h
  case h_1 proposals _ =>
    obtain ⟨proposal, _, hpassed⟩ := List.mem_filterMap.mp h
    exact passed_sound hpassed
  case h_2 => cases h

omit [PyFloat F] in
theorem get_exposedPassages {batch : List (SurveyPassage F)} {key : PyStr} {p : SurveyPassage F}
    (h : (exposedPassages batch).get key = some p) : p ∈ batch ∧ p.passageId = key := by
  obtain ⟨hkey, earlier, later, rfl, _⟩ := get_collect.mp h
  exact ⟨by simp, hkey⟩

/-- The quote of a relation stands in the text the call showed of the passage it cites. -/
def InWindow (I : Interpreter) (E : RelationExtractor F) (call : Call F)
    (r : ExtractedRelation) : Prop :=
  ∃ p ∈ call.batch, p.passageId = r.passageId ∧ I.quoted r.quote (shownText E p) = true

/-- A relation cites a passage of the call and quotes what the call showed of it. -/
def Shown (I : Interpreter) (E : RelationExtractor F) (call : Call F)
    (r : ExtractedRelation) : Prop :=
  ∃ p ∈ call.batch, p.passageId = r.passageId ∧ I.normaliseQuote r.quote ≠ [] ∧
    I.quoted r.quote (shownText E p) = true

omit [PyFloat F] in
theorem supportsQuote_eq_true {p : SurveyPassage F} {quote : PyStr} :
    p.supportsQuote I quote = true ↔ I.normaliseQuote quote ≠ [] ∧ I.quoted quote p.text = true := by
  rw [SurveyPassage.supportsQuote, Bool.and_eq_true, bne_iff_ne]

/-- What passes cites the call and quotes something: only the window is left to ask for. -/
theorem shown_iff {call : Call F} {r : ExtractedRelation} (h : r ∈ passedIn I D E call) :
    Shown I E call r ↔ InWindow I E call r := by
  obtain ⟨p, _, hsupports⟩ := (passedIn_sound h).quoted
  have hquote := (supportsQuote_eq_true.mp hsupports).1
  constructor
  · rintro ⟨p, hp, hid, _, hshown⟩
    exact ⟨p, hp, hid, hshown⟩
  · rintro ⟨p, hp, hid, hshown⟩
    exact ⟨p, hp, hid, hquote, hshown⟩

/-- A passage that fits the window is shown whole. -/
theorem inWindow_of_short {call : Call F} {r : ExtractedRelation} (h : r ∈ passedIn I D E call)
    (hshort : ∀ p ∈ call.batch, (p.text.length : ℤ) ≤ E.maxPassageChars) : InWindow I E call r := by
  obtain ⟨p, hexposed, hsupports⟩ := (passedIn_sound h).quoted
  obtain ⟨hp, hid⟩ := get_exposedPassages hexposed
  have hwhole : shownText E p = p.text := by
    rw [shownText, List.take_of_length_le]
    have := hshort p hp
    omega
  exact ⟨p, hp, hid, hwhole ▸ (supportsQuote_eq_true.mp hsupports).2⟩

theorem passedIn_of_leads {log : List (Call F)} {x : Call F × ExtractedRelation}
    (h : Leads (fun x => x.2.relationId) (candidates I D E log) x) :
    x.2 ∈ passedIn I D E x.1 := by
  obtain ⟨earlier, later, heq, _⟩ := h
  exact (mem_candidates.mp (heq ▸ List.mem_append_right _ List.mem_cons_self)).2

/-- The admitted relations are listed in the result, and all of them quote what their calls showed
exactly when every relation that passes the other gates first under its identifier does. -/
theorem quotes_shown_iff (I : Interpreter) (D : ℕ → Bool) (E : RelationExtractor F)
    (corpus : SurveyCorpus F) (result : ExtractionResult) (log : List (Call F))
    (h : extract I D E corpus [] = .ok (result, log)) :
    result.relations.values = log.flatMap Call.admitted ∧
      ((∀ call ∈ log, ∀ r ∈ call.admitted, Shown I E call r) ↔
        ∀ x, Leads (fun x => x.2.relationId) (candidates I D E log) x → InWindow I E x.1 x.2) := by
  have hread := extract_read h
  have hadmissions : ∀ x, x ∈ admissions log ↔
      Leads (fun x => x.2.relationId) (candidates I D E log) x := by
    intro x
    rw [hread.firsts, mem_firstsFrom]
    simp
  constructor
  · rw [Dict.values, hread.items, keyed, List.map_map, List.map_map, admissions, List.map_flatMap]
    refine List.flatMap_congr fun call _ => ?_
    rw [within, List.map_map]
    exact List.map_id _
  · constructor
    · intro hshown x hx
      obtain ⟨hcall, hr⟩ := mem_admissions.mp ((hadmissions x).mpr hx)
      exact (shown_iff (passedIn_of_leads hx)).mp (hshown x.1 hcall x.2 hr)
    · intro hwindow call hcall r hr
      have hx := (hadmissions (call, r)).mp (mem_admissions.mpr ⟨hcall, hr⟩)
      exact (shown_iff (passedIn_of_leads hx)).mpr (hwindow _ hx)

/-! ## A quote behind the window -/

/-- Two hundred letters, and four words the model is not shown. -/
def longText : PyStr := List.replicate 200 97 ++ py " vacancies raise the ZT"

def longPassage : SurveyPassage NonFinite :=
  ⟨py "p1", py "u1", py "q1", longText, longText, none, none, none, py "agentic-search", sciverse⟩

def longCorpus : SurveyCorpus NonFinite where
  topic := ⟨py "t1", py "Oxides", [py "oxide"], [py "Why?"], none, none, py "en", []⟩
  documents := empty.set (py "u1") ⟨[], py "u1", py "On oxides", none, [], [], 0, sciverse⟩
  passages := empty.set (py "p1") longPassage
  queries := empty.set (py "q1") ⟨py "q1", py "oxide", py "semantic", py "evidence", 1, none, [],
    false, sciverse⟩

/-- A response with one proposal. -/
def responseTo (quote : PyStr) : PyStr :=
  render (F := NonFinite) (.obj [(py "relations", .arr [.obj [(py "passage_id", .str (py "p1")),
    (py "material", .str (py "oxide")), (py "structural_feature", .str (py "vacancies")),
    (py "property_name", .str (py "ZT")), (py "direction", .str (py "increase")),
    (py "quote", .str quote), (py "composition", .str []), (py "value", .str []),
    (py "unit", .str []), (py "temperature_k", .str []), (py "method", .str (py "dft"))]])])

def tailQuote : PyStr := py "vacancies raise the ZT"

def tailExtractor : RelationExtractor NonFinite where
  transport _ _ := .ok ⟨responseTo tailQuote, 1, 1, py "r1"⟩
  batchSize := 4
  maxPassageChars := 200
  promptProfile := py "high_recall_v2"
  vocabulary := py "thermoelectric"
  properties := properties
  batched := by decide
  window := by decide
  known := by decide
  profiled := by decide

/-- The quotes of the relations admitted in each call, and the texts it showed. -/
def tailCalls : Option (List (List PyStr × List PyStr)) :=
  (extract QuoteGate.sampleInterpreter (fun _ => false) tailExtractor longCorpus
    []).toOption.map fun p => p.2.map fun call =>
      (call.admitted.map (·.quote), call.batch.map (shownText tailExtractor))

theorem tailCalls_eq : tailCalls = some [([tailQuote], [List.replicate 200 97])] := by
  decide +kernel

theorem tail_returns : ∃ result log,
    extract QuoteGate.sampleInterpreter (fun _ => false) tailExtractor longCorpus [] =
      .ok (result, log) ∧ log.map (fun call => (call.admitted.map (·.quote),
        call.batch.map (shownText tailExtractor))) = [([tailQuote], [List.replicate 200 97])] := by
  have hcalls := tailCalls_eq
  rw [tailCalls] at hcalls
  cases hran : extract QuoteGate.sampleInterpreter (fun _ => false) tailExtractor longCorpus [] with
  | error e =>
    rw [hran] at hcalls
    cases hcalls
  | ok p =>
    rw [hran] at hcalls
    exact ⟨p.1, p.2, rfl, Option.some.inj hcalls⟩

/-- The quote lies behind the cut: the model was not shown it, and its relation is admitted. -/
theorem not_quotes_shown : ∃ result log,
    extract QuoteGate.sampleInterpreter (fun _ => false) tailExtractor longCorpus [] =
      .ok (result, log) ∧ ∃ call ∈ log, ∃ r ∈ call.admitted,
        ¬Shown QuoteGate.sampleInterpreter tailExtractor call r := by
  obtain ⟨result, log, hran, hlog⟩ := tail_returns
  have hhead := List.mem_map.mp (hlog ▸ List.mem_singleton_self (α := List PyStr × List PyStr) _)
  obtain ⟨call, hcall, hpair⟩ := hhead
  obtain ⟨hquotes, htexts⟩ := Prod.mk.inj hpair
  obtain ⟨r, hr, hquote⟩ := List.mem_map.mp (hquotes ▸ List.mem_singleton_self tailQuote)
  refine ⟨result, log, hran, call, hcall, r, hr, ?_⟩
  rintro ⟨p, hp, _, _, hquoted⟩
  have htext : shownText tailExtractor p = List.replicate 200 97 := by
    have hmem := List.mem_map_of_mem (f := shownText tailExtractor) hp
    rw [htexts] at hmem
    exact List.mem_singleton.mp hmem
  rw [hquote, htext] at hquoted
  have hmissing : QuoteGate.sampleInterpreter.quoted tailQuote (List.replicate 200 97) = false := by
    decide +kernel
  rw [hmissing] at hquoted
  cases hquoted

theorem quotes_shown_iff_tail : ∃ result log,
    extract QuoteGate.sampleInterpreter (fun _ => false) tailExtractor longCorpus [] =
      .ok (result, log) ∧ result.relations.values = log.flatMap Call.admitted ∧
      ((∀ call ∈ log, ∀ r ∈ call.admitted,
        Shown QuoteGate.sampleInterpreter tailExtractor call r) ↔
        ∀ x, Leads (fun x => x.2.relationId)
          (candidates QuoteGate.sampleInterpreter (fun _ => false) tailExtractor log) x →
          InWindow QuoteGate.sampleInterpreter tailExtractor x.1 x.2) := by
  obtain ⟨result, log, hran, _⟩ := tail_returns
  exact ⟨result, log, hran, quotes_shown_iff _ _ _ longCorpus result log hran⟩

end RelationQuotes
