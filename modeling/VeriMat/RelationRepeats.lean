import VeriMat.RelationQuotes
import VeriMat.Fallible
import VeriMat.NumericGate

/-! # Repeated relations

Every proposal of a run is admitted or rejected, once. The identifier of a relation leaves out the
value, the unit, the temperature and the method, so a second measurement of one relation is
rejected like a repeat of the first. -/
namespace RelationRepeats

open PyText JsonText PyValue PyDict KeyedRecords Events SurveyRecords RelationExtraction
  RelationQuotes Fallible
open NumericGate (asciiDigit)
open Verification (Interpreter)
open DecisionGraph (Payload)

variable {F : Type}

/-! ## Proposals and what becomes of them -/

/-- A proposal with the passages it may cite. -/
abbrev Returned (F : Type) := Dict PyStr (SurveyPassage F) × Payload F

inductive Fate where
  | admitted (r : ExtractedRelation)
  | rejected (item : RejectedProposal)

def Fate.relation? : Fate → Option ExtractedRelation
  | admitted r => some r
  | rejected _ => none

def Fate.rejection? : Fate → Option RejectedProposal
  | admitted _ => none
  | rejected item => some item

/-- Two relations report the same, up to the quote. -/
structure SameMeasurement (r s : ExtractedRelation) : Prop where
  passageId : r.passageId = s.passageId
  material : r.material = s.material
  structuralFeature : r.structuralFeature = s.structuralFeature
  propertyName : r.propertyName = s.propertyName
  direction : r.direction = s.direction
  composition : r.composition = s.composition
  value : r.value = s.value
  unit : r.unit = s.unit
  temperatureK : r.temperatureK = s.temperatureK
  method : r.method = s.method

section Model
variable [PyFloat F] (I : Interpreter) (D : ℕ → Bool) (E : RelationExtractor F)

/-- The relation of a returned proposal, if it passes every gate but the one for duplicates. -/
def passing (x : Returned F) : Option ExtractedRelation := passed I D E x.1 x.2

/-- The proposals of a run, in order. -/
def returned (log : List (Call F)) : List (Returned F) :=
  log.flatMap fun call =>
    match parseRelations call.response.text with
    | .ok proposals => proposals.map fun proposal => (exposedPassages call.batch, proposal)
    | .error _ => []

/-- What is true of a proposal after it was read: an admitted one passed, a rejected one is on
record, as a duplicate if it passed and its identifier was taken. -/
def Settled (result : ExtractionResult) (x : Returned F) : Fate → Prop
  | .admitted r => passing I D E x = some r
  | .rejected item =>
    canonicalJson (.dict x.2) = .ok item.payload ∧
      item.passageId = fieldText I x.2 (py "passage_id") ∧
      (item.reason = .duplicate → ∃ r, passing I D E x = some r ∧
        r.relationId ∈ knownIds result) ∧
      (item.reason ≠ .duplicate → passing I D E x = none)

/-- The relations and the rejections of the result are the fates of these proposals, in order. -/
structure Accounts (xs : List (Returned F)) (result : ExtractionResult) (fates : List Fate) :
    Prop where
  settled : List.Forall₂ (Settled I D E result) xs fates
  relations : result.relations.values = fates.filterMap Fate.relation?
  rejections : result.rejections = fates.filterMap Fate.rejection?
  own : ∀ p ∈ result.relations.items, p.1 = p.2.relationId

end Model

/-! ## One proposal -/

section Reading
variable [PyFloat F] {I : Interpreter} {D : ℕ → Bool} {E : RelationExtractor F}

/-- The gates reject for reasons of their own. -/
theorem gate_rejection {exposed : Dict PyStr (SurveyPassage F)} {payload : PyStr}
    {proposal : Payload F} {item : RejectedProposal}
    (h : gate I D E exposed payload proposal = .ok (.inl item)) :
    item.payload = payload ∧ item.passageId = fieldText I proposal (py "passage_id") ∧
      item.reason ≠ .duplicate := by
  rw [gate] at h
  dsimp only at h
  split at h
  case h_1 =>
    cases h
    exact ⟨rfl, rfl, by rintro ⟨⟩⟩
  case h_2 =>
    split_ifs at h
    · cases h
      exact ⟨rfl, rfl, by rintro ⟨⟩⟩
    · cases h
      exact ⟨rfl, rfl, by rintro ⟨⟩⟩
    · cases h
      exact ⟨rfl, rfl, by rintro ⟨⟩⟩
    · obtain ⟨id, _, h⟩ := bind_eq_ok.mp h
      split at h
      case h_1 => cases h
      case h_2 =>
        cases h
        exact ⟨rfl, rfl, by rintro ⟨⟩⟩
      case h_3 => cases h

theorem gate_relation {exposed : Dict PyStr (SurveyPassage F)} {payload : PyStr}
    {proposal : Payload F} {r : ExtractedRelation}
    (h : gate I D E exposed payload proposal = .ok (.inr r)) :
    relationId I F r.passageId r.material r.composition r.structuralFeature r.propertyName
        r.direction = .ok r.relationId ∧
      r.passageId = fieldText I proposal (py "passage_id") := by
  rw [gate] at h
  dsimp only at h
  split at h
  case h_1 => cases h
  case h_2 =>
    split_ifs at h
    · cases h
    · cases h
    · cases h
    · obtain ⟨id, hid, h⟩ := bind_eq_ok.mp h
      split at h
      case h_1 =>
        cases h
        exact ⟨hid, rfl⟩
      all_goals cases h

/-- A relation that passed has the identifier its fields give it. -/
theorem passing_id {x : Returned F} {r : ExtractedRelation} (h : passing I D E x = some r) :
    relationId I F r.passageId r.material r.composition r.structuralFeature r.propertyName
      r.direction = .ok r.relationId := by
  rw [passing, passed] at h
  split at h
  case h_1 => cases h
  case h_2 payload _ =>
    split at h
    case h_1 r' hgate =>
      cases h
      exact (gate_relation hgate).1
    case h_2 => cases h

theorem Settled.mono {result result' : ExtractionResult}
    (hids : ∀ id ∈ knownIds result, id ∈ knownIds result') {x : Returned F} {fate : Fate}
    (h : Settled I D E result x fate) : Settled I D E result' x fate := by
  cases fate with
  | admitted r => exact h
  | rejected item =>
    obtain ⟨hpayload, hpassage, hduplicate, hother⟩ := h
    refine ⟨hpayload, hpassage, fun hreason => ?_, hother⟩
    obtain ⟨r, hr, hid⟩ := hduplicate hreason
    exact ⟨r, hr, hids _ hid⟩

/-- A proposal meets its fate, and the others keep theirs. -/
theorem Accounts.admit {xs : List (Returned F)} {result result' : ExtractionResult}
    {fates : List Fate} (h : Accounts I D E xs result fates)
    {exposed : Dict PyStr (SurveyPassage F)} {proposal : Payload F}
    (hadmitted : admitProposal I D E exposed result proposal = .ok result') :
    ∃ fate, Accounts I D E (xs ++ [(exposed, proposal)]) result' (fates ++ [fate]) := by
  rw [admitProposal] at hadmitted
  cases hpayload : canonicalJson (.dict proposal) with
  | error e =>
    rw [hpayload] at hadmitted
    cases hadmitted
  | ok payload =>
    rw [hpayload] at hadmitted
    obtain ⟨outcome, hgate, hadmitted⟩ := bind_eq_ok.mp hadmitted
    cases outcome with
    | inl item =>
      cases hadmitted
      have hpassing : passing I D E (exposed, proposal) = none := by
        simp only [passing, passed, hpayload, hgate]
      obtain ⟨hitem, hpassage, hreason⟩ := gate_rejection hgate
      refine ⟨.rejected item, ?_, ?_, ?_, h.own⟩
      · refine List.rel_append h.settled (.cons ?_ .nil)
        exact ⟨hitem ▸ hpayload, hpassage, fun heq => absurd heq hreason, fun _ => hpassing⟩
      · rw [List.filterMap_append, ← h.relations]
        exact (List.append_nil _).symm
      · simp [ExtractionResult.reject, Fate.rejection?, h.rejections]
    | inr r =>
      dsimp only at hadmitted
      have hpassing : passing I D E (exposed, proposal) = some r := by
        simp only [passing, passed, hpayload, hgate]
      by_cases hknown : r.relationId ∈ knownIds result
      · rw [if_pos (get_isSome.mpr hknown)] at hadmitted
        cases hadmitted
        refine ⟨.rejected ⟨.duplicate, r.passageId, payload⟩, ?_, ?_, ?_, h.own⟩
        · refine List.rel_append h.settled (.cons ?_ .nil)
          exact ⟨hpayload, (gate_relation hgate).2, fun _ => ⟨r, hpassing, hknown⟩,
            fun hne => absurd rfl hne⟩
        · rw [List.filterMap_append, ← h.relations]
          exact (List.append_nil _).symm
        · simp [ExtractionResult.reject, Fate.rejection?, h.rejections]
      · rw [if_neg (fun hsome => hknown (get_isSome.mp hsome))] at hadmitted
        cases hadmitted
        have hitems : (result.relations.set r.relationId r).items =
            result.relations.items ++ [(r.relationId, r)] := setItem_of_notMem hknown
        refine ⟨.admitted r, ?_, ?_, ?_, ?_⟩
        · refine List.rel_append (h.settled.imp fun x fate hsettled =>
            hsettled.mono fun id hid => ?_) (.cons hpassing .nil)
          rw [knownIds, hitems, List.map_append]
          exact List.mem_append_left _ hid
        · rw [Dict.values, hitems, List.map_append, List.filterMap_append, ← h.relations]
          rfl
        · rw [List.filterMap_append, ← h.rejections]
          exact (List.append_nil _).symm
        · intro p hp
          rw [hitems] at hp
          rcases List.mem_append.mp hp with hp | hp
          · exact h.own p hp
          · rw [List.mem_singleton.mp hp]

/-! ## Runs -/

theorem Accounts.admitAll {proposals : List (Payload F)} {exposed : Dict PyStr (SurveyPassage F)}
    {xs : List (Returned F)} {result result' : ExtractionResult} {fates : List Fate}
    (h : Accounts I D E xs result fates)
    (hall : admitAll I D E exposed proposals result = .ok result') :
    ∃ fates', Accounts I D E (xs ++ proposals.map fun proposal => (exposed, proposal)) result'
      fates' := by
  induction proposals generalizing xs result fates with
  | nil =>
    cases hall
    exact ⟨fates, by simpa using h⟩
  | cons proposal proposals ih =>
    rw [RelationExtraction.admitAll, List.foldlM_cons] at hall
    obtain ⟨result₁, hadmitted, hall⟩ := bind_eq_ok.mp hall
    obtain ⟨fate, hone⟩ := h.admit hadmitted
    obtain ⟨fates', hrest⟩ := ih hone hall
    exact ⟨fates', by simpa using hrest⟩

theorem Accounts.step {fingerprint : PyStr} {result result' : ExtractionResult}
    {batch : List (SurveyPassage F)} {log log' : List (Call F)} {fates : List Fate}
    (h : Accounts I D E (returned log) result fates)
    (hread : readBatch I D E fingerprint result batch log = .ok (result', log')) :
    ∃ fates', Accounts I D E (returned log') result' fates' := by
  obtain ⟨operationId, _, hread⟩ := run_lift_bind.mp hread
  obtain ⟨response, _, hread⟩ := run_ask_bind.mp hread
  obtain ⟨_, _, hread⟩ := run_lift_bind.mp hread
  obtain ⟨proposals, hparse, hread⟩ := run_lift_bind.mp hread
  obtain ⟨read, hall, hread⟩ := run_lift_bind.mp hread
  rw [run_note_bind] at hread
  obtain ⟨rfl, rfl⟩ := run_pure.mp hread
  have hstart : Accounts I D E (returned log) { result with
      calls := result.calls + 1
      tokens := result.tokens + (response.inputTokens + response.outputTokens) } fates :=
    ⟨h.settled, h.relations, h.rejections, h.own⟩
  obtain ⟨fates', hfates⟩ := hstart.admitAll hall
  refine ⟨fates', ?_⟩
  rw [returned, List.flatMap_append, List.flatMap_singleton, ← returned, hparse]
  exact hfates

theorem foldlM_accounts {fingerprint : PyStr} {batches : List (List (SurveyPassage F))}
    {result result' : ExtractionResult} {log log' : List (Call F)} {fates : List Fate}
    (h : Accounts I D E (returned log) result fates)
    (hran : batches.foldlM (readBatch I D E fingerprint) result log = .ok (result', log')) :
    ∃ fates', Accounts I D E (returned log') result' fates' := by
  induction batches generalizing result log fates with
  | nil =>
    obtain ⟨rfl, rfl⟩ := run_pure.mp hran
    exact ⟨fates, h⟩
  | cons batch batches ih =>
    rw [List.foldlM_cons] at hran
    obtain ⟨result₁, log₁, hbatch, hran⟩ := run_bind.mp hran
    obtain ⟨fates₁, hone⟩ := h.step hbatch
    exact ih hone hran

theorem extract_accounts {corpus : SurveyCorpus F} {result : ExtractionResult}
    {log : List (Call F)} (h : extract I D E corpus [] = .ok (result, log)) :
    ∃ fates, Accounts I D E (returned log) result fates := by
  obtain ⟨_, _, h⟩ := run_lift_bind.mp h
  obtain ⟨fingerprint, _, h⟩ := run_lift_bind.mp h
  obtain ⟨result₁, log₁, hbatches, h⟩ := run_bind.mp h
  obtain ⟨_, _, h⟩ := run_lift_bind.mp h
  obtain ⟨rfl, rfl⟩ := run_pure.mp h
  have hnew : Accounts I D E (returned []) .new [] :=
    ⟨.nil, rfl, rfl, fun _ hp => absurd hp List.not_mem_nil⟩
  exact foldlM_accounts hnew hbatches

/-! ## Repeats -/

variable (I D E) in
/-- If the proposal was rejected as a duplicate, an admitted relation reports the same. -/
def TrueRepeat (result : ExtractionResult) (x : Returned F) (fate : Fate) : Prop :=
  ∀ item r, fate = .rejected item → item.reason = .duplicate → passing I D E x = some r →
    ∃ s ∈ result.relations.values, SameMeasurement s r

/-- The identifier is a function of what two relations share that report the same. -/
theorem SameMeasurement.id {x y : Returned F} {r s : ExtractedRelation}
    (h : SameMeasurement r s) (hr : passing I D E x = some r) (hs : passing I D E y = some s) :
    r.relationId = s.relationId := by
  have hid := passing_id hr
  rw [h.passageId, h.material, h.composition, h.structuralFeature, h.propertyName, h.direction,
    passing_id hs] at hid
  exact (Except.ok.inj hid).symm

omit [PyFloat F] in
theorem exists_fate {R : Returned F → Fate → Prop} {xs : List (Returned F)} {fates : List Fate}
    (h : List.Forall₂ R xs fates) {x : Returned F} (hx : x ∈ xs) :
    ∃ fate, (x, fate) ∈ xs.zip fates ∧ R x fate := by
  induction h with
  | nil => cases hx
  | cons hhead _ ih =>
    rcases List.mem_cons.mp hx with rfl | hx
    · exact ⟨_, List.mem_cons_self, hhead⟩
    · obtain ⟨fate, hmem, hR⟩ := ih hx
      exact ⟨fate, List.mem_cons_of_mem _ hmem, hR⟩

/-- An admitted relation is that of a proposal. -/
theorem Accounts.source {xs : List (Returned F)} {result : ExtractionResult} {fates : List Fate}
    (h : Accounts I D E xs result fates) {s : ExtractedRelation}
    (hs : s ∈ result.relations.values) : ∃ x ∈ xs, passing I D E x = some s := by
  rw [h.relations] at hs
  obtain ⟨fate, hfate, hrelation⟩ := List.mem_filterMap.mp hs
  cases fate with
  | admitted r =>
    cases hrelation
    exact DurablePayload.exists_left h.settled hfate
  | rejected item => cases hrelation

/-- One admitted relation has an identifier. -/
theorem Accounts.unique {xs : List (Returned F)} {result : ExtractionResult} {fates : List Fate}
    (h : Accounts I D E xs result fates) {s t : ExtractedRelation}
    (hs : s ∈ result.relations.values) (ht : t ∈ result.relations.values)
    (hid : s.relationId = t.relationId) : s = t := by
  obtain ⟨p, hp, rfl⟩ := List.mem_map.mp hs
  obtain ⟨q, hq, rfl⟩ := List.mem_map.mp ht
  have hkeys : p.1 = q.1 := by rw [h.own p hp, h.own q hq, hid]
  rw [List.inj_on_of_nodup_map result.relations.nodup hp hq hkeys]

variable (I D E) in
/-- Proposals that pass and share an identifier report the same. -/
def NoDigestClash (xs : List (Returned F)) : Prop :=
  ∀ x ∈ xs, ∀ y ∈ xs, ∀ r s, passing I D E x = some r → passing I D E y = some s →
    r.relationId = s.relationId → SameMeasurement r s

theorem trueRepeats_iff {xs : List (Returned F)} {result : ExtractionResult} {fates : List Fate}
    (h : Accounts I D E xs result fates) :
    (∀ p ∈ xs.zip fates, TrueRepeat I D E result p.1 p.2) ↔ NoDigestClash I D E xs := by
  constructor
  · intro hrepeats
    -- whatever passes, an admitted relation reports the same
    have hadmitted : ∀ x ∈ xs, ∀ r, passing I D E x = some r →
        ∃ s ∈ result.relations.values, SameMeasurement s r := by
      intro x hx r hr
      obtain ⟨fate, hmem, hsettled⟩ := exists_fate h.settled hx
      cases fate with
      | admitted s =>
        have hrs : s = r := Option.some.inj (hsettled.symm.trans hr)
        refine ⟨s, ?_, hrs ▸ ⟨rfl, rfl, rfl, rfl, rfl, rfl, rfl, rfl, rfl, rfl⟩⟩
        rw [h.relations]
        exact List.mem_filterMap.mpr ⟨_, (List.of_mem_zip hmem).2, rfl⟩
      | rejected item =>
        obtain ⟨_, _, _, hother⟩ := hsettled
        by_cases hreason : item.reason = .duplicate
        · exact hrepeats _ hmem item r rfl hreason hr
        · rw [hother hreason] at hr
          cases hr
    intro x hx y hy r s hr hs hid
    obtain ⟨r', hr', hsame⟩ := hadmitted x hx r hr
    obtain ⟨s', hs', hsame'⟩ := hadmitted y hy s hs
    obtain ⟨x', _, hx'⟩ := h.source hr'
    obtain ⟨y', _, hy'⟩ := h.source hs'
    have hone : r' = s' := by
      apply h.unique hr' hs'
      rw [hsame.id hx' hr, hsame'.id hy' hs, hid]
    subst hone
    exact ⟨hsame.passageId.symm.trans hsame'.passageId, hsame.material.symm.trans hsame'.material,
      hsame.structuralFeature.symm.trans hsame'.structuralFeature,
      hsame.propertyName.symm.trans hsame'.propertyName,
      hsame.direction.symm.trans hsame'.direction,
      hsame.composition.symm.trans hsame'.composition, hsame.value.symm.trans hsame'.value,
      hsame.unit.symm.trans hsame'.unit, hsame.temperatureK.symm.trans hsame'.temperatureK,
      hsame.method.symm.trans hsame'.method⟩
  · rintro hclash ⟨x, fate⟩ hmem item r hfate hreason hr
    change fate = .rejected item at hfate
    subst hfate
    obtain ⟨hx, _⟩ := List.of_mem_zip hmem
    have hsettled : Settled I D E result x (.rejected item) :=
      (List.forall₂_iff_zip.mp h.settled).2 hmem
    obtain ⟨r', hr', hid⟩ := hsettled.2.2.1 hreason
    cases hr.symm.trans hr'
    obtain ⟨p, hp, hkey⟩ := List.mem_map.mp hid
    have hvalue : p.2 ∈ result.relations.values := List.mem_map_of_mem hp
    obtain ⟨y, hy, hpassing⟩ := h.source hvalue
    refine ⟨p.2, hvalue, hclash y hy x hx p.2 r hpassing hr ?_⟩
    rw [← h.own p hp, hkey]

/-- Every proposal of a run is admitted or rejected, once, and only true repeats are rejected as
duplicates exactly when no two proposals that pass differ and share an identifier. -/
theorem duplicates_are_repeats_iff (I : Interpreter) (D : ℕ → Bool) (E : RelationExtractor F)
    (corpus : SurveyCorpus F) (result : ExtractionResult) (log : List (Call F))
    (h : extract I D E corpus [] = .ok (result, log)) :
    (∃ fates, Accounts I D E (returned log) result fates) ∧
      ∀ fates, Accounts I D E (returned log) result fates →
        ((∀ p ∈ (returned log).zip fates, TrueRepeat I D E result p.1 p.2) ↔
          NoDigestClash I D E (returned log)) :=
  ⟨extract_accounts h, fun _ hfates => trueRepeats_iff hfates⟩

end Reading

/-! ## Two temperatures -/

def twoTemperatures : PyStr := py "ZT of the oxide is 1 at 300 K and 2 at 600 K"

/-- A proposal with a value at a temperature. -/
def zTAt (value temperature : PyStr) : Json NonFinite :=
  .obj [(py "passage_id", .str (py "p1")), (py "material", .str (py "oxide")),
    (py "structural_feature", .str (py "vacancies")), (py "property_name", .str (py "ZT")),
    (py "direction", .str (py "increase")), (py "quote", .str twoTemperatures),
    (py "composition", .str []), (py "value", .str value), (py "unit", .str []),
    (py "temperature_k", .str temperature), (py "method", .str (py "experiment"))]

def twoPointExtractor : RelationExtractor NonFinite :=
  { tailExtractor with
    transport _ _ := .ok ⟨render (.obj [(py "relations", .arr [zTAt (py "1") (py "300"),
      zTAt (py "2") (py "600")])]), 1, 1, py "m"⟩ }

def twoPointCorpus : SurveyCorpus NonFinite where
  topic := ⟨py "t1", py "Oxides", [py "oxide"], [py "Why?"], none, none, py "en", []⟩
  documents := empty.set (py "u1") ⟨[], py "u1", py "On oxides", none, [], [], 0, sciverse⟩
  passages := empty.set (py "p1") ⟨py "p1", py "u1", py "q1", twoTemperatures, twoTemperatures,
    none, none, none, py "agentic-search", sciverse⟩
  queries := empty.set (py "q1") ⟨py "q1", py "oxide", py "semantic", py "evidence", 1, none, [],
    false, sciverse⟩

def twoPoints : Checked (ExtractionResult × List (Call NonFinite)) :=
  extract QuoteGate.sampleInterpreter asciiDigit twoPointExtractor twoPointCorpus []

/-- Two proposals pass with one identifier and different values. -/
def valuesClash (xs : List (Returned NonFinite)) : Bool :=
  xs.any fun x => xs.any fun y =>
    match passing QuoteGate.sampleInterpreter asciiDigit twoPointExtractor x,
      passing QuoteGate.sampleInterpreter asciiDigit twoPointExtractor y with
    | some r, some s => r.relationId == s.relationId && r.value != s.value
    | _, _ => false

theorem not_noDigestClash {xs : List (Returned NonFinite)} (h : valuesClash xs = true) :
    ¬ NoDigestClash QuoteGate.sampleInterpreter asciiDigit twoPointExtractor xs := by
  intro hnone
  obtain ⟨x, hx, h⟩ := List.any_eq_true.mp h
  obtain ⟨y, hy, h⟩ := List.any_eq_true.mp h
  cases hr : passing QuoteGate.sampleInterpreter asciiDigit twoPointExtractor x with
  | none => simp [hr] at h
  | some r =>
    cases hs : passing QuoteGate.sampleInterpreter asciiDigit twoPointExtractor y with
    | none => simp [hr, hs] at h
    | some s =>
      simp only [hr, hs, Bool.and_eq_true, beq_iff_eq, bne_iff_ne] at h
      exact h.2 (hnone x hx y hy r s hr hs h.1).value

theorem twoPoints_eq : (twoPoints.toOption.map fun p =>
    ((p.1.relations.values.map (·.value), p.1.rejections.map (·.reason)),
      valuesClash (returned p.2))) = some (([py "1"], [.duplicate]), true) := by
  decide +kernel

/-- The second measurement is rejected as a duplicate of the first, which has another value at
another temperature. -/
theorem second_measurement_dropped : ∃ result log,
    extract QuoteGate.sampleInterpreter asciiDigit twoPointExtractor twoPointCorpus [] =
      .ok (result, log) ∧ result.relations.values.map (·.value) = [py "1"] ∧
      result.rejections.map (·.reason) = [.duplicate] ∧
      ∀ fates, Accounts QuoteGate.sampleInterpreter asciiDigit twoPointExtractor (returned log)
        result fates → ¬ ∀ p ∈ (returned log).zip fates,
          TrueRepeat QuoteGate.sampleInterpreter asciiDigit twoPointExtractor result p.1 p.2 := by
  obtain ⟨p, hran, hvalues⟩ := exists_of_toOption twoPoints_eq
  obtain ⟨hlists, hclash⟩ := Prod.mk.inj hvalues
  obtain ⟨hadmitted, hrejected⟩ := Prod.mk.inj hlists
  refine ⟨p.1, p.2, hran, hadmitted, hrejected, fun fates hfates hrepeats => ?_⟩
  exact not_noDigestClash hclash ((trueRepeats_iff hfates).mp hrepeats)

theorem duplicates_are_repeats_iff_twoPoints : ∃ result log,
    extract QuoteGate.sampleInterpreter asciiDigit twoPointExtractor twoPointCorpus [] =
      .ok (result, log) ∧
    (∃ fates, Accounts QuoteGate.sampleInterpreter asciiDigit twoPointExtractor (returned log)
      result fates) ∧
    ∀ fates, Accounts QuoteGate.sampleInterpreter asciiDigit twoPointExtractor (returned log)
      result fates → ((∀ p ∈ (returned log).zip fates,
          TrueRepeat QuoteGate.sampleInterpreter asciiDigit twoPointExtractor result p.1 p.2) ↔
        NoDigestClash QuoteGate.sampleInterpreter asciiDigit twoPointExtractor (returned log)) := by
  obtain ⟨p, hran, _⟩ := exists_of_toOption twoPoints_eq
  exact ⟨p.1, p.2, hran, duplicates_are_repeats_iff _ _ _ twoPointCorpus p.1 p.2 hran⟩

end RelationRepeats
