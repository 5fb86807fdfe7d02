import VeriMat.GapNarration
import VeriMat.RelationQuotes

/-! # Closed vocabularies

The checks of a relation and of a gap compare stripped texts with their vocabularies, and the texts
are stored as they came; a verdict is only compared with the refusal. So what is admitted is spelled
as its vocabulary spells it exactly when nothing admitted is padded. -/
namespace ClosedVocabularies

open PyText JsonText PyValue PyDict KeyedRecords ModelTransports SurveyRecords RelationExtraction
  GapNarration
open Verification (Interpreter)
open DecisionGraph (getItem Payload)

variable {F : Type} [PyFloat F] {I : Interpreter} {D : ℕ → Bool} {E : RelationExtractor F}
  {N : GapNarrator F}

/-! ## Spelling -/

/-- No entry of the vocabulary is padded. -/
def Spelled (allowed : List PyStr) : Prop := ∀ entry ∈ allowed, strip entry = entry

instance (allowed : List PyStr) : Decidable (Spelled allowed) :=
  inferInstanceAs (Decidable (∀ entry ∈ allowed, strip entry = entry))

theorem strip_py (cs : List Char) (h : strip (cs.map Char.toNat) = cs.map Char.toNat) :
    strip (py (String.ofList cs)) = py (String.ofList cs) := by
  rw [py, String.toList_ofList, h]

theorem spelled_propertySet {vocabulary : PyStr} {allowed : List PyStr}
    (h : propertySet vocabulary = some allowed) : Spelled allowed := by
  rw [propertySet] at h
  split_ifs at h
  · cases h
    rw [Spelled, properties]
    repeat refine List.forall_mem_cons.mpr ⟨strip_py _ rfl, ?_⟩
    exact List.forall_mem_nil _
  · cases h
    rw [Spelled, solidElectrolyteProperties]
    repeat refine List.forall_mem_cons.mpr ⟨strip_py _ rfl, ?_⟩
    exact List.forall_mem_nil _

/-- A text that passes `_one_of` is in the vocabulary itself if it is not padded. -/
theorem mem_iff_strip {allowed : List PyStr} (hspelled : Spelled allowed) {text : PyStr}
    (h : strip text ∈ allowed) : text ∈ allowed ↔ strip text = text := by
  constructor
  · exact hspelled text
  · intro heq
    rwa [heq] at h

/-! ## Relations -/

/-- The fields of a relation are entries of their vocabularies. -/
def InVocabularies (r : ExtractedRelation) : Prop :=
  (∃ allowed, propertySet r.vocabulary = some allowed ∧ r.propertyName ∈ allowed) ∧
    r.direction ∈ directions ∧ r.method ∈ methods

/-- The fields of a relation that have a vocabulary are not padded. -/
def Unpadded (r : ExtractedRelation) : Prop :=
  strip r.propertyName = r.propertyName ∧ strip r.direction = r.direction ∧
    strip r.method = r.method

theorem inVocabularies_iff {r : ExtractedRelation} (h : r.validate = .ok ()) :
    InVocabularies r ↔ Unpadded r := by
  rw [ExtractedRelation.validate] at h
  obtain ⟨_, _, h⟩ := bind_eq_ok.mp h
  obtain ⟨_, _, h⟩ := bind_eq_ok.mp h
  obtain ⟨_, _, h⟩ := bind_eq_ok.mp h
  obtain ⟨_, _, h⟩ := bind_eq_ok.mp h
  obtain ⟨_, _, h⟩ := bind_eq_ok.mp h
  cases hset : propertySet r.vocabulary with
  | none =>
    rw [hset] at h
    cases h
  | some allowed =>
    rw [hset] at h
    obtain ⟨_, hproperty, h⟩ := bind_eq_ok.mp h
    obtain ⟨_, hdirection, h⟩ := bind_eq_ok.mp h
    obtain ⟨_, hmethod, _⟩ := bind_eq_ok.mp h
    have hexists : (∃ xs, propertySet r.vocabulary = some xs ∧ r.propertyName ∈ xs) ↔
        r.propertyName ∈ allowed := by
      rw [hset]
      simp
    rw [InVocabularies, Unpadded, hexists,
      mem_iff_strip (spelled_propertySet hset) (oneOf_eq_ok.mp hproperty),
      mem_iff_strip (by decide) (oneOf_eq_ok.mp hdirection),
      mem_iff_strip (by decide) (oneOf_eq_ok.mp hmethod)]

/-! ## What a narration adds -/

/-- The gap of a call that passes every gate but the one for duplicates. -/
def judgedIn (I : Interpreter) (call : Narrated F) : List ResearchGap :=
  match parseGap call.response.text with
  | .error _ => []
  | .ok value =>
    match judge I call.candidate value call.exposed with
    | .ok (.gap g) => [g]
    | _ => []

/-- A gap that passed cites its candidate, quotes what the call exposed, and was checked. -/
structure Judicious (I : Interpreter) (call : Narrated F) (g : ResearchGap) : Prop where
  cites : g.supportingPassages = distinct call.candidate.passageIds
  quoted : g.noveltyQuote ≠ [] →
    ∃ p ∈ call.exposed.values, p.supportsQuote I g.noveltyQuote = true
  valid : g.validate = .ok ()

theorem judge_sound {call : Narrated F} {value : Payload F} {g : ResearchGap}
    (h : judge I call.candidate value call.exposed = .ok (.gap g)) : Judicious I call g := by
  rw [judge] at h
  dsimp only at h
  split_ifs at h with hrefused hquote
  · cases h
  · cases h
  · obtain ⟨g', hbuild, h⟩ := bind_eq_ok.mp h
    obtain ⟨_, _, hbuild⟩ := bind_eq_ok.mp hbuild
    cases hbuild
    split at h
    case h_1 hvalid =>
      cases h
      refine ⟨rfl, fun hne => ?_, hvalid⟩
      have hany : call.exposed.values.any (·.supportsQuote I _) = true :=
        Bool.eq_true_of_not_eq_false fun hnone => hquote ⟨hne, hnone⟩
      exact List.any_eq_true.mp hany
    all_goals cases h

theorem judgedIn_sound {call : Narrated F} {g : ResearchGap} (h : g ∈ judgedIn I call) :
    Judicious I call g := by
  rw [judgedIn] at h
  split at h
  case h_1 => cases h
  case h_2 value _ =>
    split at h
    case h_1 g' hjudge =>
      obtain rfl := List.mem_singleton.mp h
      exact judge_sound hjudge
    case h_2 => cases h

/-- The identifiers of the gaps so far. -/
def gapIds (result : GapResult) : List PyStr := result.gaps.items.map Prod.fst

/-- Gaps as the items of a dict. -/
def keyedGaps (gaps : List ResearchGap) : List (PyStr × ResearchGap) :=
  gaps.map fun g => (g.gapId, g)

theorem get_gap_isSome {result : GapResult} {key : PyStr} :
    (result.gaps.get key).isSome = true ↔ key ∈ gapIds result := by
  rw [Option.isSome_iff_exists, gapIds, List.mem_map]
  constructor
  · rintro ⟨g, hg⟩
    exact ⟨_, Dict.get_eq_some.mp hg, rfl⟩
  · rintro ⟨p, hp, rfl⟩
    exact ⟨p.2, Dict.get_eq_some.mpr hp⟩

/-- A response adds its gap if that passes and is new. -/
theorem readNarration_ok {candidateId : PyStr} (call : Narrated F) {result result' : GapResult}
    (h : readNarration I candidateId call.candidate call.exposed call.response result =
      .ok result') :
    result'.gaps.items = result.gaps.items ++
      keyedGaps (firstsFrom ResearchGap.gapId (gapIds result) (judgedIn I call)) := by
  rw [readNarration] at h
  rw [judgedIn]
  cases hparse : (parseGap call.response.text : Checked (Payload F)) with
  | error e =>
    rw [hparse] at h
    cases h
    exact (List.append_nil _).symm
  | ok value =>
    rw [hparse] at h
    obtain ⟨outcome, hjudge, h⟩ := bind_eq_ok.mp h
    dsimp only
    rw [hjudge]
    cases outcome with
    | refused reason =>
      cases h
      exact (List.append_nil _).symm
    | dropped reason =>
      cases h
      exact (List.append_nil _).symm
    | gap g =>
      dsimp only at h ⊢
      rw [firstsFrom]
      by_cases hknown : g.gapId ∈ gapIds result
      · rw [if_pos (get_gap_isSome.mpr hknown)] at h
        cases h
        rw [if_pos hknown]
        exact (List.append_nil _).symm
      · rw [if_neg (fun hsome => hknown (get_gap_isSome.mp hsome))] at h
        cases h
        rw [if_neg hknown]
        exact setItem_of_notMem hknown

/-! ## What a narration exposes -/

/-- Passages of the corpus that the candidate lists. -/
def Exposed (corpus : SurveyCorpus F) (passageIds : List PyStr)
    (exposed : Dict PyStr (SurveyPassage F)) : Prop :=
  ∀ key p, exposed.get key = some p → key ∈ passageIds ∧ corpus.passages.get key = some p

omit [PyFloat F] in
theorem choose_exposed {maxPassages : ℤ} {corpus : SurveyCorpus F} {passageIds rest : List PyStr}
    {chosen : Dict PyStr (SurveyPassage F)} (hrest : ∀ key ∈ rest, key ∈ passageIds)
    (h : Exposed corpus passageIds chosen) :
    Exposed corpus passageIds (choose maxPassages corpus rest chosen) := by
  induction rest generalizing chosen with
  | nil => exact h
  | cons key rest ih =>
    obtain ⟨hkey, hrest⟩ := List.forall_mem_cons.mp hrest
    rw [choose]
    by_cases hfull : maxPassages ≤ chosen.items.length
    · rw [if_pos hfull]
      exact h
    · rw [if_neg hfull]
      cases hget : corpus.passages.get key with
      | none => exact ih hrest h
      | some p =>
        refine ih hrest fun key' p' hp' => ?_
        rw [Dict.get_set] at hp'
        by_cases heq : key' = key
        · rw [if_pos heq] at hp'
          cases hp'
          exact heq ▸ ⟨hkey, hget⟩
        · rw [if_neg heq] at hp'
          exact h key' p' hp'

/-! ## Runs -/

/-- A candidate that is not asked about leaves the gaps alone, one that is asked about adds its new
gap. -/
theorem narrateOne_ok {fingerprint : PyStr} {extracted : ExtractionResult}
    {corpus : SurveyCorpus F} {result result' : GapResult} {candidate : GapCandidate F}
    {log log' : List (Narrated F)}
    (h : narrateOne I N fingerprint extracted corpus result candidate log = .ok (result', log')) :
    (log' = log ∧ result'.gaps = result.gaps) ∨
      ∃ call : Narrated F, log' = log ++ [call] ∧
        Exposed corpus call.candidate.passageIds call.exposed ∧
        call.admitted = firstsFrom ResearchGap.gapId (gapIds result) (judgedIn I call) ∧
        result'.gaps.items = result.gaps.items ++ keyedGaps call.admitted := by
  obtain ⟨candidateId, _, h⟩ := run_lift_bind.mp h
  dsimp only at h
  by_cases hnone : (choose N.maxPassages corpus candidate.passageIds empty).items = []
  · rw [if_pos hnone] at h
    obtain ⟨rfl, rfl⟩ := run_pure.mp h
    exact .inl ⟨rfl, rfl⟩
  · rw [if_neg hnone] at h
    obtain ⟨operationId, _, h⟩ := run_lift_bind.mp h
    obtain ⟨response, _, h⟩ := run_ask_bind.mp h
    obtain ⟨_, _, h⟩ := run_lift_bind.mp h
    obtain ⟨read, hread, h⟩ := run_lift_bind.mp h
    rw [run_note_bind] at h
    obtain ⟨rfl, rfl⟩ := run_pure.mp h
    have hexposed : Exposed corpus candidate.passageIds
        (choose N.maxPassages corpus candidate.passageIds empty) :=
      choose_exposed (fun _ hkey => hkey) fun key p hp => nomatch hp
    let call : Narrated F := ⟨candidate, choose N.maxPassages corpus candidate.passageIds empty,
      response, result'.gaps.values.drop result.gaps.values.length⟩
    have hadded := readNarration_ok call hread
    have hitems : result'.gaps.items = result.gaps.items ++
        keyedGaps (firstsFrom ResearchGap.gapId (gapIds result) (judgedIn I call)) := hadded
    have hadmitted : call.admitted =
        firstsFrom ResearchGap.gapId (gapIds result) (judgedIn I call) := by
      change result'.gaps.values.drop result.gaps.values.length = _
      rw [Dict.values, Dict.values, hitems, List.map_append, List.drop_left, keyedGaps,
        List.map_map]
      exact List.map_id _
    exact .inr ⟨call, rfl, hexposed, hadmitted, hadmitted ▸ hitems⟩

/-- What a narration keeps: the result lists the gaps admitted, which are the first of each
identifier, and every call exposed passages of the corpus. -/
structure Told (I : Interpreter) (corpus : SurveyCorpus F) (result : GapResult)
    (log : List (Narrated F)) : Prop where
  items : result.gaps.items = keyedGaps (log.flatMap Narrated.admitted)
  firsts : recorded Narrated.admitted log =
    firstsFrom (fun x => x.2.gapId) [] (recorded (judgedIn I) log)
  exposed : ∀ call ∈ log, Exposed corpus call.candidate.passageIds call.exposed

theorem told_new (I : Interpreter) (corpus : SurveyCorpus F) : Told I corpus .new [] where
  items := rfl
  firsts := rfl
  exposed _ h := by cases h

theorem Told.step {corpus : SurveyCorpus F} {result result' : GapResult}
    {log log' : List (Narrated F)} (htold : Told I corpus result log) {fingerprint : PyStr}
    {extracted : ExtractionResult} {candidate : GapCandidate F}
    (h : narrateOne I N fingerprint extracted corpus result candidate log = .ok (result', log')) :
    Told I corpus result' log' := by
  rcases narrateOne_ok h with ⟨rfl, hgaps⟩ | ⟨call, rfl, hexposed, hadmitted, hitems⟩
  · exact ⟨hgaps ▸ htold.items, htold.firsts, htold.exposed⟩
  · have hids : gapIds result = (recorded Narrated.admitted log).map fun x => x.2.gapId := by
      rw [gapIds, htold.items, ← map_snd_recorded, keyedGaps, List.map_map, List.map_map]
      rfl
    constructor
    case items =>
      rw [hitems, htold.items, keyedGaps, keyedGaps, keyedGaps, ← List.map_append,
        List.flatMap_append, List.flatMap_singleton]
    case firsts => exact firsts_concat htold.firsts (hids ▸ hadmitted)
    case exposed =>
      intro call' hcall'
      rcases List.mem_append.mp hcall' with hcall' | hcall'
      · exact htold.exposed call' hcall'
      · exact List.mem_singleton.mp hcall' ▸ hexposed

theorem foldlM_told {fingerprint : PyStr} {extracted : ExtractionResult} {corpus : SurveyCorpus F}
    {candidates : List (GapCandidate F)} {result result' : GapResult} {log log' : List (Narrated F)}
    (htold : Told I corpus result log)
    (h : candidates.foldlM (narrateOne I N fingerprint extracted corpus) result log =
      .ok (result', log')) :
    Told I corpus result' log' := by
  induction candidates generalizing result log with
  | nil =>
    obtain ⟨rfl, rfl⟩ := run_pure.mp h
    exact htold
  | cons candidate candidates ih =>
    rw [List.foldlM_cons] at h
    obtain ⟨result₁, log₁, hone, h⟩ := run_bind.mp h
    exact ih (htold.step hone) h

theorem narrate_told {candidates : List (GapCandidate F)} {extracted : ExtractionResult}
    {corpus : SurveyCorpus F} {result : GapResult} {log : List (Narrated F)}
    (h : narrate I N candidates extracted corpus [] = .ok (result, log)) :
    Told I corpus result log := by
  obtain ⟨_, _, h⟩ := run_lift_bind.mp h
  obtain ⟨fingerprint, _, h⟩ := run_lift_bind.mp h
  obtain ⟨sorted, _, h⟩ := run_lift_bind.mp h
  obtain ⟨result₁, log₁, hall, h⟩ := run_bind.mp h
  obtain ⟨_, _, h⟩ := run_lift_bind.mp h
  obtain ⟨rfl, rfl⟩ := run_pure.mp h
  exact foldlM_told (told_new I corpus) hall

/-! ## Gaps -/

/-- The response of a call says that the candidate is a gap. -/
def SaysGap (call : Narrated F) : Prop :=
  ∃ value : Payload F, parseGap call.response.text = .ok value ∧
    getItem value (py "verdict") = some (.str (py "gap"))

/-- A known gap quotes a passage it cites, a new one quotes nothing. -/
def Labelled (I : Interpreter) (corpus : SurveyCorpus F) (g : ResearchGap) : Prop :=
  (g.novelty = py "known" ∧ isBlank g.noveltyQuote = false ∧
    ∃ key ∈ g.supportingPassages, ∃ p, corpus.passages.get key = some p ∧
      p.supportsQuote I g.noveltyQuote = true) ∨
    (g.novelty = py "new" ∧ g.noveltyQuote = [])

omit [PyFloat F] in
/-- White space quotes nothing. -/
theorem collapse_blank {text : PyStr} (h : isBlank text = true) (inRun : Bool) :
    isBlank (Verification.collapse inRun text) = true := by
  induction text generalizing inRun with
  | nil => rfl
  | cons c text ih =>
    rw [isBlank, List.all_cons, Bool.and_eq_true] at h
    rw [Verification.collapse, if_pos h.1, isBlank_append, ih h.2, Bool.and_true]
    cases inRun with
    | false => rfl
    | true => rfl

omit [PyFloat F] in
theorem strip_blank {text : PyStr} (h : isBlank text = true) : strip text = [] := by
  have hall : ∀ c ∈ text, isSpace c = true := List.all_eq_true.mp h
  rw [strip, List.dropWhile_eq_nil_iff.mpr hall]
  rfl

omit [PyFloat F] in
theorem isBlank_of_supportsQuote {p : SurveyPassage F} {quote : PyStr}
    (h : p.supportsQuote I quote = true) : isBlank quote = false := by
  refine Bool.eq_false_of_not_eq_true fun hblank => ?_
  have hnone : I.normaliseQuote quote = [] := by
    rw [Interpreter.normaliseQuote, strip_blank (collapse_blank hblank false)]
    rfl
  exact (RelationQuotes.supportsQuote_eq_true.mp h).1 hnone

theorem mem_distinct {values : List PyStr} {v : PyStr} (h : v ∈ values) : v ∈ distinct values := by
  have hkeys : ∀ d : List (PyStr × Unit), v ∈ d.map Prod.fst ∨ v ∈ values →
      v ∈ ((values.map fun v => (v, ())).foldl (fun d p => setItem p.1 p.2 d) d).map Prod.fst := by
    clear h
    induction values with
    | nil => exact fun d h => h.resolve_right List.not_mem_nil
    | cons w values ih =>
      intro d h
      refine ih _ ?_
      rw [setItem_keys, List.mem_cons] at *
      by_cases hw : w ∈ d.map Prod.fst
      · rw [if_pos hw]
        rcases h with h | rfl | h
        · exact .inl h
        · exact .inl hw
        · exact .inr h
      · rw [if_neg hw, List.mem_append, List.mem_singleton]
        rcases h with h | rfl | h
        · exact .inl (.inl h)
        · exact .inl (.inr rfl)
        · exact .inr h
  exact hkeys [] (.inr h)

omit [PyFloat F] in
/-- A gap that passed is labelled as it should be unless its novelty is padded. -/
theorem labelled_iff {corpus : SurveyCorpus F} {call : Narrated F} {g : ResearchGap}
    (hexposed : Exposed corpus call.candidate.passageIds call.exposed)
    (h : Judicious I call g) : Labelled I corpus g ↔ strip g.novelty = g.novelty := by
  have hvalid := h.valid
  rw [ResearchGap.validate] at hvalid
  obtain ⟨_, _, hvalid⟩ := bind_eq_ok.mp hvalid
  obtain ⟨_, _, hvalid⟩ := bind_eq_ok.mp hvalid
  obtain ⟨_, _, hvalid⟩ := bind_eq_ok.mp hvalid
  obtain ⟨_, _, hvalid⟩ := bind_eq_ok.mp hvalid
  obtain ⟨_, hnovelty, hvalid⟩ := bind_eq_ok.mp hvalid
  obtain ⟨_, _, hvalid⟩ := bind_eq_ok.mp hvalid
  obtain ⟨_, hknown, hnew⟩ := bind_eq_ok.mp hvalid
  have hspelled : Spelled novelties := by decide
  rw [← mem_iff_strip hspelled (oneOf_eq_ok.mp hnovelty)]
  rw [refuseIf_eq_ok] at hknown hnew
  constructor
  · rintro (⟨hnovelty, _⟩ | ⟨hnovelty, _⟩)
    · rw [hnovelty]
      decide
    · rw [hnovelty]
      decide
  · intro hin
    rcases List.mem_cons.mp hin with hnovelty | hin
    · refine .inr ⟨hnovelty, ?_⟩
      by_contra hne
      obtain ⟨p, _, hsupports⟩ := h.quoted hne
      exact hnew ⟨hnovelty, isBlank_of_supportsQuote hsupports⟩
    · have hnovelty := List.mem_singleton.mp hin
      have hblank : isBlank g.noveltyQuote = false :=
        Bool.eq_false_of_not_eq_true fun hblank => hknown ⟨hnovelty, hblank⟩
      have hne : g.noveltyQuote ≠ [] := by
        intro heq
        rw [heq] at hblank
        cases hblank
      obtain ⟨p, hp, hsupports⟩ := h.quoted hne
      obtain ⟨key, hkey⟩ := Dict.mem_values.mp hp
      obtain ⟨hlisted, hcorpus⟩ := hexposed key p hkey
      exact .inl ⟨hnovelty, hblank, key, h.cites ▸ mem_distinct hlisted, p, hcorpus, hsupports⟩

/-- The relations of an extraction are inside their vocabularies. -/
def RelationsClosed (result : ExtractionResult) : Prop :=
  ∀ r ∈ result.relations.values, InVocabularies r

/-- The gaps of a narration come from calls that say so and are labelled as they should be, every
gap is counted as known or as new, and the audit finds nothing. -/
structure GapsClosed (I : Interpreter) (corpus : SurveyCorpus F) (result : GapResult)
    (log : List (Narrated F)) : Prop where
  listed : result.gaps.values = log.flatMap Narrated.admitted
  admitted : ∀ call ∈ log, ∀ g ∈ call.admitted, SaysGap call ∧ Labelled I corpus g
  counted : (noveltyAudit I result corpus).nKnown + (noveltyAudit I result corpus).nNew =
    result.gaps.items.length
  verified : (noveltyAudit I result corpus).verified = true

omit [PyFloat F] in
theorem Labelled.noProblem {corpus : SurveyCorpus F} {g : ResearchGap}
    (h : Labelled I corpus g) : noveltyProblem I corpus g = none := by
  rw [noveltyProblem]
  rcases h with ⟨hnovelty, _, key, hkey, p, hp, hsupports⟩ | ⟨hnovelty, hquote⟩
  · have hany : (g.supportingPassages.filterMap corpus.passages.get).any
        (·.supportsQuote I g.noveltyQuote) = true :=
      List.any_eq_true.mpr ⟨p, List.mem_filterMap.mpr ⟨key, hkey, hp⟩, hsupports⟩
    have hquote := (RelationQuotes.supportsQuote_eq_true.mp hsupports).1
    rw [if_pos hnovelty, if_neg]
    rintro (hnone | hnone)
    · exact hquote hnone
    · rw [hany] at hnone
      cases hnone
  · have hother : g.novelty ≠ py "known" := by
      rw [hnovelty]
      decide
    rw [if_neg hother, hquote]
    rfl

/-- Labels that are known or new are counted once. -/
theorem count_labels {gaps : List ResearchGap}
    (h : ∀ g ∈ gaps, g.novelty = py "known" ∨ g.novelty = py "new") :
    gaps.countP (fun g => g.novelty = py "known") + gaps.countP (fun g => g.novelty = py "new") =
      gaps.length := by
  induction gaps with
  | nil => rfl
  | cons g gaps ih =>
    obtain ⟨hg, hgaps⟩ := List.forall_mem_cons.mp h
    have hrest := ih hgaps
    rw [List.countP_cons, List.countP_cons, List.length_cons]
    rcases hg with hg | hg
    · have hother : g.novelty ≠ py "new" := by
        rw [hg]
        decide
      rw [if_pos (decide_eq_true hg), if_neg (by simpa using hother)]
      omega
    · have hother : g.novelty ≠ py "known" := by
        rw [hg]
        decide
      rw [if_pos (decide_eq_true hg), if_neg (by simpa using hother)]
      omega

omit [PyFloat F] in
theorem audit_of_labelled {corpus : SurveyCorpus F} {result : GapResult}
    (h : ∀ g ∈ result.gaps.values, Labelled I corpus g) :
    (noveltyAudit I result corpus).nKnown + (noveltyAudit I result corpus).nNew =
        result.gaps.items.length ∧ (noveltyAudit I result corpus).verified = true := by
  constructor
  · have hlength : result.gaps.values.length = result.gaps.items.length := List.length_map _
    rw [← hlength]
    exact count_labels fun g hg => (h g hg).imp And.left And.left
  · have hnone : ((inOrder result.gaps).items.filterMap fun p =>
        (noveltyProblem I corpus p.2).map fun problem => (p.1, problem)) = [] := by
      rw [List.filterMap_eq_nil_iff]
      intro p hp
      have hvalue : p.2 ∈ result.gaps.values :=
        List.mem_map_of_mem ((items_inOrder result.gaps).mem_iff.mp hp)
      rw [(h p.2 hvalue).noProblem]
      rfl
    rw [noveltyAudit, hnone]
    rfl

theorem relationsClosed_iff {corpus : SurveyCorpus F} {result : ExtractionResult}
    {log : List (Call F)} (h : extract I D E corpus [] = .ok (result, log)) :
    RelationsClosed result ↔
      ∀ x, Leads (fun x => x.2.relationId) (RelationQuotes.candidates I D E log) x →
        Unpadded x.2 := by
  have hread := RelationQuotes.extract_read h
  have hvalues : result.relations.values =
      (RelationQuotes.admissions log).map Prod.snd := by
    rw [Dict.values, hread.items, RelationQuotes.keyed, List.map_map]
    exact List.map_id _
  have hadmissions : ∀ x, x ∈ RelationQuotes.admissions log ↔
      Leads (fun x => x.2.relationId) (RelationQuotes.candidates I D E log) x := by
    intro x
    rw [hread.firsts, mem_firstsFrom]
    simp
  have hvalid : ∀ x, Leads (fun x => x.2.relationId) (RelationQuotes.candidates I D E log) x →
      x.2.validate = .ok () := fun x hx =>
    (RelationQuotes.passedIn_sound (RelationQuotes.passedIn_of_leads hx)).valid
  rw [RelationsClosed, hvalues]
  constructor
  · intro hclosed x hx
    have hmem := List.mem_map_of_mem (f := Prod.snd) ((hadmissions x).mpr hx)
    exact (inVocabularies_iff (hvalid x hx)).mp (hclosed x.2 hmem)
  · intro hunpadded r hr
    obtain ⟨x, hx, rfl⟩ := List.mem_map.mp hr
    have hleads := (hadmissions x).mp hx
    exact (inVocabularies_iff (hvalid x hleads)).mpr (hunpadded x hleads)

theorem gapsClosed_iff {candidates : List (GapCandidate F)} {extracted : ExtractionResult}
    {corpus : SurveyCorpus F} {result : GapResult} {log : List (Narrated F)}
    (h : narrate I N candidates extracted corpus [] = .ok (result, log)) :
    GapsClosed I corpus result log ↔
      ∀ x, Leads (fun x => x.2.gapId) (recorded (judgedIn I) log) x →
        SaysGap x.1 ∧ strip x.2.novelty = x.2.novelty := by
  have htold := narrate_told h
  have hlisted : result.gaps.values = log.flatMap Narrated.admitted := by
    rw [Dict.values, htold.items, keyedGaps, List.map_map]
    exact List.map_id _
  have hadmitted : ∀ x, x ∈ recorded Narrated.admitted log ↔
      Leads (fun x => x.2.gapId) (recorded (judgedIn I) log) x := by
    intro x
    rw [htold.firsts, mem_firstsFrom]
    simp
  have hlabelled : ∀ x, Leads (fun x => x.2.gapId) (recorded (judgedIn I) log) x →
      (Labelled I corpus x.2 ↔ strip x.2.novelty = x.2.novelty) := by
    intro x hx
    obtain ⟨earlier, later, heq, _⟩ := hx
    obtain ⟨hcall, hjudged⟩ := mem_recorded.mp (heq ▸ List.mem_append_right _ List.mem_cons_self)
    exact labelled_iff (htold.exposed x.1 hcall) (judgedIn_sound hjudged)
  constructor
  · intro hclosed x hx
    obtain ⟨hcall, hg⟩ := mem_recorded.mp ((hadmitted x).mpr hx)
    obtain ⟨hcalled, hlabel⟩ := hclosed.admitted x.1 hcall x.2 hg
    exact ⟨hcalled, (hlabelled x hx).mp hlabel⟩
  · intro hasked
    have hall : ∀ call ∈ log, ∀ g ∈ call.admitted, SaysGap call ∧ Labelled I corpus g := by
      intro call hcall g hg
      have hx := (hadmitted (call, g)).mp (mem_recorded.mpr ⟨hcall, hg⟩)
      obtain ⟨hcalled, hstrip⟩ := hasked _ hx
      exact ⟨hcalled, (hlabelled _ hx).mpr hstrip⟩
    have hlabels : ∀ g ∈ result.gaps.values, Labelled I corpus g := by
      intro g hg
      rw [hlisted] at hg
      obtain ⟨call, hcall, hg⟩ := List.mem_flatMap.mp hg
      exact (hall call hcall g hg).2
    obtain ⟨hcounted, hverified⟩ := audit_of_labelled hlabels
    exact ⟨hlisted, hall, hcounted, hverified⟩

/-- What is admitted is spelled, quoted and counted as it should be exactly when the first relation
and the first gap of each identifier that pass are not padded, and the gap is called one. -/
theorem closed_iff (I : Interpreter) (D : ℕ → Bool) (E : RelationExtractor F)
    (N : GapNarrator F) (corpus : SurveyCorpus F) :
    (∀ result log, extract I D E corpus [] = .ok (result, log) →
      (RelationsClosed result ↔
        ∀ x, Leads (fun x => x.2.relationId) (RelationQuotes.candidates I D E log) x →
          Unpadded x.2)) ∧
    ∀ candidates extracted result log,
      narrate I N candidates extracted corpus [] = .ok (result, log) →
      (GapsClosed I corpus result log ↔
        ∀ x, Leads (fun x => x.2.gapId) (recorded (judgedIn I) log) x →
          SaysGap x.1 ∧ strip x.2.novelty = x.2.novelty) :=
  ⟨fun _ _ h => relationsClosed_iff h, fun _ _ _ _ h => gapsClosed_iff h⟩

/-! ## Padded answers -/

/-- A response with one proposal, which pads its property. -/
def paddedProposal : PyStr :=
  render (F := NonFinite) (.obj [(py "relations", .arr [.obj [(py "passage_id", .str (py "p1")),
    (py "material", .str (py "oxide")), (py "structural_feature", .str (py "vacancies")),
    (py "property_name", .str (py " ZT")), (py "direction", .str (py "increase")),
    (py "quote", .str (py "vacancies raise the ZT")), (py "composition", .str []),
    (py "value", .str []), (py "unit", .str []), (py "temperature_k", .str []),
    (py "method", .str (py "dft"))]])])

/-- A response that neither calls its candidate a gap nor refuses it, and pads the novelty. -/
def paddedNarration : PyStr :=
  render (F := NonFinite) (.obj [(py "verdict", .str (py "unsure")),
    (py "statement", .str (py "No study reports the hardness of the oxide.")),
    (py "novelty", .str (py " known ")), (py "novelty_quote", .str []),
    (py "novelty_basis", .str (py "It is said often."))])

def paddedExtractor : RelationExtractor NonFinite :=
  { RelationQuotes.tailExtractor with
    transport _ _ := .ok ⟨paddedProposal, 1, 1, py "r1"⟩ }

def paddedNarrator : GapNarrator NonFinite where
  transport _ _ := .ok ⟨paddedNarration, 1, 1, py "r2"⟩
  maxPassages := 6
  maxPassageChars := 2000
  promptProfile := py "evidence_gap_v2"
  exposes := by decide
  profiled := by decide

def soleCandidate : GapCandidate NonFinite :=
  ⟨py "single_source", empty, [], [], [py "p1"]⟩

def paddedRelations : Checked (ExtractionResult × List (Call NonFinite)) :=
  extract QuoteGate.sampleInterpreter (fun _ => false) paddedExtractor RelationQuotes.longCorpus []

def paddedGaps : Checked (GapResult × List (Narrated NonFinite)) :=
  narrate QuoteGate.sampleInterpreter paddedNarrator [soleCandidate] .new RelationQuotes.longCorpus
    []

theorem paddedRelations_eq : (paddedRelations.toOption.map fun p =>
    p.1.relations.values.map fun r => (r.vocabulary, r.propertyName)) =
      some [(py "thermoelectric", py " ZT")] := by
  decide +kernel

theorem paddedGaps_eq : (paddedGaps.toOption.map fun p => (p.1.gaps.items.length,
    noveltyAudit QuoteGate.sampleInterpreter p.1 RelationQuotes.longCorpus)) =
      some (1, ⟨0, 0, [], true⟩) := by
  decide +kernel

/-- The padded property is in no vocabulary, and the padded gap is counted neither as known nor as
new, while the audit finds nothing. -/
theorem not_closed :
    (∃ p, paddedRelations = .ok p ∧ ¬RelationsClosed p.1) ∧
      ∃ p, paddedGaps = .ok p ∧
        ¬GapsClosed QuoteGate.sampleInterpreter RelationQuotes.longCorpus p.1 p.2 := by
  constructor
  · obtain ⟨p, hran, hvalues⟩ := exists_of_toOption paddedRelations_eq
    refine ⟨p, hran, fun hclosed => ?_⟩
    have hhead := hvalues ▸ List.mem_singleton_self (α := PyStr × PyStr) _
    obtain ⟨r, hr, hpair⟩ := List.mem_map.mp hhead
    obtain ⟨hvocabulary, hproperty⟩ := Prod.mk.inj hpair
    obtain ⟨⟨allowed, hset, hmem⟩, _⟩ := hclosed r hr
    rw [hvocabulary] at hset
    rw [hproperty] at hmem
    cases hset
    exact absurd hmem (by decide)
  · obtain ⟨p, hran, haudit⟩ := exists_of_toOption paddedGaps_eq
    obtain ⟨hlength, haudit⟩ := Prod.mk.inj haudit
    refine ⟨p, hran, fun hclosed => ?_⟩
    have hcounted := hclosed.counted
    rw [haudit, hlength] at hcounted
    cases hcounted

theorem closed_iff_padded :
    (∃ p, paddedRelations = .ok p ∧ (RelationsClosed p.1 ↔
      ∀ x, Leads (fun x => x.2.relationId) (RelationQuotes.candidates QuoteGate.sampleInterpreter
        (fun _ => false) paddedExtractor p.2) x → Unpadded x.2)) ∧
    ∃ p, paddedGaps = .ok p ∧
      (GapsClosed QuoteGate.sampleInterpreter RelationQuotes.longCorpus p.1 p.2 ↔
        ∀ x, Leads (fun x => x.2.gapId) (recorded (judgedIn QuoteGate.sampleInterpreter) p.2) x →
          SaysGap x.1 ∧ strip x.2.novelty = x.2.novelty) := by
  obtain ⟨p, hran, _⟩ := exists_of_toOption paddedRelations_eq
  obtain ⟨q, hnarrated, _⟩ := exists_of_toOption paddedGaps_eq
  have hclosed := closed_iff QuoteGate.sampleInterpreter (fun _ => false) paddedExtractor
    paddedNarrator RelationQuotes.longCorpus
  exact ⟨⟨p, hran, hclosed.1 p.1 p.2 hran⟩, q, hnarrated,
    hclosed.2 [soleCandidate] .new q.1 q.2 hnarrated⟩

end ClosedVocabularies
