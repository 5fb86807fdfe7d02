import VeriMat.JsonAscii
import VeriMat.PolicyCredit

/-! # Recalling strategies

The reads of `learning/policy_store.py` that an ordered run selects its memory with, and the text
in which a bound intervention keeps the ids of its strategies. -/
namespace PolicyRecall

open PyText JsonText PyValue PyDisplay KeyedTable Transaction PolicyStore PolicyRefresh PolicyCredit

variable {F T : Type} [PyFloat F]

/-! ## The reads -/

section Reads
variable (H : PolicyHost F)

/-- `x == y` for finite floats. -/
def floatEq (x y : F) : Bool := floatLe x y && floatLe y x

/-- `x < y` for finite floats. -/
def floatLt (x y : F) : Bool := floatLe x y && !floatLe y x

/-- `(wilson_lower, success_rate, -mean_calls)` of the one is less than that of the other. -/
def ranksBelow (a b : StrategyScore F) : Bool :=
  if floatEq a.wilsonLower b.wilsonLower then
    if floatEq a.successRate b.successRate then floatLt b.meanCalls a.meanCalls
    else floatLt a.successRate b.successRate
  else floatLt a.wilsonLower b.wilsonLower

/-- The strategy of a tenant is from another task family. -/
def fromOtherFamily (db : PolicyDatabase F T) (tenantId family strategyId : PyStr) : Bool :=
  (db.strategies.find (Strategy.hasId strategyId tenantId)).any (·.sourceTaskFamily != family)

/-- `recall_active`. -/
def recallActive (tenantId targetTaskFamily : PyStr) (limit : ℤ) :
    PolicyDb F T (List (StrategyScore F)) :=
  if limit < 1 then pure []
  else do
    bindText tenantId
    let db ← get
    let scores ← scoreRows H tenantId
    let eligible := scores.filter fun score =>
      score.status == .active && fromOtherFamily db tenantId targetTaskFamily score.strategyId
    return (eligible.insertionSort fun a b => ranksBelow a b = false).take limit.toNat

variable [LinearOrder T]

/-- `ORDER BY created_at DESC,strategy_id`. -/
def recentOrder (a b : Strategy T) : Prop :=
  b.createdAt < a.createdAt ∨ a.createdAt = b.createdAt ∧ a.strategyId ≤ b.strategyId

instance : DecidableRel (recentOrder (T := T)) := fun a b =>
  inferInstanceAs (Decidable (b.createdAt < a.createdAt ∨ a.createdAt = b.createdAt ∧
    a.strategyId ≤ b.strategyId))

/-- `recall_uncredited`. -/
def recallUncredited (tenantId targetTaskFamily : PyStr) (limit : ℤ) :
    PolicyDb F T (List (StrategyScore F)) :=
  if limit < 1 then pure []
  else do
    let scores ← scoreRows H tenantId
    bindText targetTaskFamily
    bindInt limit
    let db ← get
    let rows := (db.strategies.rows.filter fun s => s.tenantId == tenantId &&
      s.status != .retired && s.sourceTaskFamily != targetTaskFamily).insertionSort recentOrder
    scoresOf scores ((rows.take limit.toNat).map (·.strategyId))

/-- `ORDER BY evaluations ASC,created_at ASC,strategy_id ASC`. -/
def leastEvaluated (db : PolicyDatabase F T) (a b : Strategy T) : Prop :=
  (db.credit a).length < (db.credit b).length ∨ (db.credit a).length = (db.credit b).length ∧
    (a.createdAt < b.createdAt ∨ a.createdAt = b.createdAt ∧ a.strategyId ≤ b.strategyId)

instance (db : PolicyDatabase F T) : DecidableRel (leastEvaluated db) := fun _ _ =>
  inferInstanceAs (Decidable (_ ∨ _))

/-- A candidate of another family with no application in this one. -/
def isExplorable (db : PolicyDatabase F T) (tenantId family : PyStr) (s : Strategy T) : Bool :=
  s.tenantId == tenantId && s.status == .candidate && s.sourceTaskFamily != family &&
    !db.applications.rows.any fun a =>
      a.strategyId == s.strategyId && a.targetTaskFamily == family

/-- `recall_candidate_for_evaluation`. -/
def recallCandidateForEvaluation (tenantId targetTaskFamily : PyStr) :
    PolicyDb F T (Option (StrategyScore F)) := do
  bindText tenantId
  bindText targetTaskFamily
  let db ← get
  let rows := (db.strategies.rows.filter
    (isExplorable db tenantId targetTaskFamily)).insertionSort (leastEvaluated db)
  match rows.head? with
  | none => return none
  | some s => do
    let scores ← scoreRows H tenantId
    let score ← orRaise (scores.find? (·.strategyId == s.strategyId)) .keyError
    return some score

omit [LinearOrder T]

def stringOf : Json F → Option PyStr
  | .str s => some s
  | _ => none

/-- `json.loads` of a list of strings. -/
def identifiersOf (F : Type) [PyFloat F] (text : PyStr) : Option (List PyStr) :=
  match loads (F := F) text with
  | some (.arr xs) => xs.mapM stringOf
  | _ => none

/-- `sequence_intervention`. -/
def sequenceIntervention (tenantId runId methodId : PyStr) (sequenceIndex : ℤ) :
    PolicyDb F T (Option (List (StrategyScore F))) := do
  bindText tenantId
  bindText runId
  bindText methodId
  bindInt sequenceIndex
  let db ← get
  match db.sequenceInterventions.find
    (SequenceIntervention.isAt tenantId runId methodId sequenceIndex) with
  | none => return none
  | some row => do
    let identifiers ← orRaise (identifiersOf F row.strategyIds) .jsonDecodeError
    let scores ← scoreRows H tenantId
    let selected ← scoresOf scores identifiers
    return some selected

end Reads

/-! ## The text of an intervention -/

/-- The ids after the first, each behind its comma, and the closing bracket. -/
def elementsText : List PyStr → PyStr
  | [] => [93]
  | s :: ids => 44 :: quoteAscii s ++ elementsText ids

/-- `json.dumps(strategy_ids, separators=(",", ":"))`. -/
def interventionText : List PyStr → PyStr
  | [] => [91, 93]
  | s :: ids => 91 :: quoteAscii s ++ elementsText ids

/-- Texts that a statement can bind. -/
def Bindable (ids : List PyStr) : Prop := ∀ s ∈ ids, (encode s).isSome = true

theorem isScalar_of_encode {s : PyStr} (h : (encode s).isSome = true) : Scalars s := by
  induction s with
  | nil => simp [Scalars]
  | cons c s ih =>
    rw [encode] at h
    cases hc : encodeChar c with
    | none => simp [hc] at h
    | some b =>
      cases hs : encode s with
      | none => simp [hc, hs] at h
      | some bs =>
        intro d hd
        rcases List.mem_cons.mp hd with rfl | hd
        · rw [IsScalar, hc]
          rfl
        · exact ih (by rw [hs]; rfl) d hd

theorem hexText_four (n : ℕ) : hexText 4 n = hex4 n := by
  simp [hexText, hex4, Nat.div_div_eq_div_mul]

/-- What the two writers make of one character. -/
theorem flatMap_escapeChar {c : ℕ} (hc : IsScalar c) :
    (escapeChar c).flatMap asciiChar = escapeAsciiChar c := by
  have hascii : ∀ c < 128, (escapeChar c).flatMap asciiChar = escapeAsciiChar c := by decide
  by_cases hlow : c < 128
  · exact hascii c hlow
  have hplain : escapeChar c = [c] := by
    unfold escapeChar
    simp only [show c ≠ 34 by omega, show c ≠ 92 by omega, show c ≠ 8 by omega,
      show c ≠ 9 by omega, show c ≠ 10 by omega, show c ≠ 12 by omega, show c ≠ 13 by omega,
      show ¬c < 32 by omega, if_false]
  have hwritten : escapeAsciiChar c = if c < 0x10000 then 92 :: 117 :: hex4 c
      else 92 :: 117 :: hex4 (0xD800 + (c - 0x10000) / 1024 % 1024) ++
        92 :: 117 :: hex4 (0xDC00 + (c - 0x10000) % 1024) := by
    unfold escapeAsciiChar
    simp only [show c ≠ 34 by omega, show c ≠ 92 by omega, show c ≠ 8 by omega,
      show c ≠ 9 by omega, show c ≠ 10 by omega, show c ≠ 12 by omega, show c ≠ 13 by omega,
      show ¬(32 ≤ c ∧ c ≤ 126) by omega, if_false]
  rw [hplain, hwritten, List.flatMap_singleton, asciiChar, if_neg (by omega)]
  by_cases hplane : c < 0x10000
  · rw [if_pos hplane, if_pos hplane, hexText_four]
    rfl
  · have hhigh : (c - 0x10000) / 1024 % 1024 = (c - 0x10000) / 1024 := by
      rcases isScalar_iff.mp hc with h | h
      · omega
      · omega
    rw [if_neg hplane, if_neg hplane, hhigh, hexText_four, hexText_four]
    rfl

theorem flatMap_quote {s : PyStr} (hs : Scalars s) :
    (quote s).flatMap asciiChar = quoteAscii s := by
  have hescape : (escape s).flatMap asciiChar = escapeAscii s := by
    rw [escape, escapeAscii, List.flatMap_assoc]
    apply List.flatMap_congr
    intro c hc
    exact flatMap_escapeChar (hs c hc)
  rw [quote, quoteAscii, List.cons_append, List.flatMap_cons, List.flatMap_append, hescape]
  rfl

theorem lowerElems_strings (ids : List PyStr) :
    lowerElems (F := F) (ids.map .str) = .ok (ids.map .str) := by
  induction ids with
  | nil => rfl
  | cons s ids ih =>
    rw [List.map_cons, lowerElems, lower]
    dsimp only
    rw [ih]
    rfl

theorem asciiDumps_strings {ids : List PyStr} (h : Bindable ids) :
    asciiDumps (.list (ids.map .str) : PyVal F) = .ok (interventionText ids) := by
  have helems : ∀ ids : List PyStr, Bindable ids →
      (renderElems (F := F) (ids.map .str)).flatMap asciiChar = elementsText ids := by
    intro ids hids
    induction ids with
    | nil => rfl
    | cons s ids ih =>
      have hs := isScalar_of_encode (hids s List.mem_cons_self)
      rw [List.map_cons, renderElems, render, elementsText, List.cons_append, List.flatMap_cons,
        List.flatMap_append, flatMap_quote hs, ih fun t ht => hids t (List.mem_cons_of_mem _ ht)]
      rfl
  rw [asciiDumps, dumps, lower, lowerElems_strings]
  cases ids with
  | nil => rfl
  | cons s ids =>
    have hs := isScalar_of_encode (h s List.mem_cons_self)
    have hrest := helems ids fun t ht => h t (List.mem_cons_of_mem _ ht)
    change Except.ok ((render (F := F) (.arr (.str s :: ids.map .str))).flatMap asciiChar) = _
    rw [render, render, interventionText, List.cons_append, List.flatMap_cons,
      List.flatMap_append, flatMap_quote hs, hrest]
    rfl

theorem scanElems_elementsText (s : PyStr) (ids : List PyStr) (n : ℕ) (r : PyStr)
    (h : Bindable (s :: ids)) (hn : s.length + (elementsText ids).length ≤ n) :
    scanElems (F := F) (n + 1) (quoteAscii s ++ (elementsText ids ++ r)) =
      some (.str s :: ids.map .str, r) := by
  have hs := isScalar_of_encode (h s List.mem_cons_self)
  induction ids generalizing s n with
  | nil =>
    obtain ⟨k, rfl⟩ : ∃ k, n = k + 1 := ⟨n - 1, by simp [elementsText] at hn; omega⟩
    rw [scanElems, scanValue_quoteAscii k hs]
    simp [elementsText, skipWs_cons (show isWs 93 = false from rfl)]
  | cons t ids ih =>
    have hrest : Bindable (t :: ids) := fun u hu => h u (List.mem_cons_of_mem _ hu)
    have hlength : t.length ≤ (quoteAscii t).length := by
      have hescaped := length_le_escapeAscii t
      simp only [quoteAscii, List.length_cons, List.length_append]
      omega
    simp only [elementsText, List.cons_append, List.length_cons, List.length_append] at hn
    obtain ⟨k, rfl⟩ : ∃ k, n = k + 1 := ⟨n - 1, by omega⟩
    have hnext := ih t k hrest (by omega) (isScalar_of_encode (hrest t List.mem_cons_self))
    rw [scanElems, scanValue_quoteAscii k hs]
    rw [quoteAscii_append] at hnext
    simp only [elementsText, List.cons_append, List.append_assoc, quoteAscii_append,
      skipWs_cons (show isWs 44 = false from rfl), if_neg (show ¬(44 = 93) by decide), if_true,
      skipWs_cons (show isWs 34 = false from rfl), hnext]
    rfl

theorem parse_interventionText {ids : List PyStr} (h : Bindable ids) :
    parse (F := F) (interventionText ids) = some (.arr (ids.map .str)) := by
  cases ids with
  | nil => rfl
  | cons s ids =>
    have hlength : s.length ≤ (quoteAscii s).length := by
      have hescaped := length_le_escapeAscii s
      simp only [quoteAscii, List.length_cons, List.length_append]
      omega
    have hscan := scanElems_elementsText (F := F) s ids
      ((quoteAscii s).length + (elementsText ids).length) [] h (by omega)
    have htotal : (interventionText (s :: ids)).length =
        (quoteAscii s).length + (elementsText ids).length + 1 := by
      simp only [interventionText, List.cons_append, List.length_cons, List.length_append]
    rw [List.append_nil, quoteAscii_append] at hscan
    rw [parse, htotal, interventionText, List.cons_append, quoteAscii_append,
      if_neg (by simp), skipWs_cons (show isWs 91 = false from rfl), scanValue,
      if_neg (by decide), if_neg (by decide), if_pos rfl,
      skipWs_cons (show isWs 34 = false from rfl)]
    simp only [if_neg (show ¬(34 = 93) by decide), hscan]
    rfl

/-- What is written of a list of ids is read back as that list. -/
theorem identifiersOf_interventionText {ids : List PyStr} (h : Bindable ids) :
    identifiersOf F (interventionText ids) = some ids := by
  have hdedup : ∀ ids : List PyStr, dedupElems (F := F) (ids.map .str) = ids.map .str := by
    intro ids
    induction ids with
    | nil => rfl
    | cons s ids ih =>
      rw [List.map_cons, dedupElems, ih]
      rfl
  have hstrings : ∀ ids : List PyStr,
      (ids.map (Json.str (F := F))).mapM stringOf = some ids := by
    intro ids
    induction ids with
    | nil => rfl
    | cons s ids ih =>
      rw [List.map_cons, List.mapM_cons, ih]
      rfl
  rw [identifiersOf, loads, parse_interventionText h, Option.map_some, Json.dedup, hdedup]
  exact hstrings ids

theorem interventionText_injective {ids ids' : List PyStr} (h : Bindable ids) (h' : Bindable ids')
    (heq : interventionText ids = interventionText ids') : ids = ids' := by
  have hread := identifiersOf_interventionText (F := NonFinite) h
  rw [heq, identifiersOf_interventionText h'] at hread
  exact (Option.some.inj hread).symm

/-! ## What the reads give -/

section Specs
variable {H : PolicyHost F} {db db' : PolicyDatabase F T} {tenantId family : PyStr} {limit : ℤ}
  {scores selected : List (StrategyScore F)}

omit [PyFloat F] in
theorem scoresOf_eq_ok {ids : List PyStr} (h : scoresOf scores ids db = .ok selected db') :
    db' = db ∧ selected.map (·.strategyId) = ids := by
  induction ids generalizing selected with
  | nil =>
    obtain ⟨rfl, rfl⟩ := pure_eq_ok.mp h
    exact ⟨rfl, rfl⟩
  | cons strategyId ids ih =>
    rw [scoresOf, List.mapM_cons] at h
    obtain ⟨score, hscore, h⟩ := orRaise_bind_ok.mp h
    obtain ⟨rest, db₁, hrest, h⟩ := bind_eq_ok.mp h
    obtain ⟨rfl, rfl⟩ := pure_eq_ok.mp h
    obtain ⟨rfl, hids⟩ := ih hrest
    have hid : score.strategyId = strategyId := by simpa using List.find?_some hscore
    exact ⟨rfl, by rw [List.map_cons, hid, hids]⟩

/-- A strategy that a recall may give: one of the tenant, of another family. -/
structure Recallable (H : PolicyHost F) (db : PolicyDatabase F T) (tenantId family : PyStr)
    (s : Strategy T) (score : StrategyScore F) : Prop where
  known : s ∈ db.strategies.rows
  tenant : s.tenantId = tenantId
  foreign : s.sourceTaskFamily ≠ family
  scored : score = db.score H s

theorem mem_scoreRows (h : scoreRows H tenantId db = .ok scores db') : db' = db ∧
    ∀ score ∈ scores, ∃ s ∈ db.strategies.rows, s.tenantId = tenantId ∧ score = db.score H s := by
  obtain ⟨-, rfl, rfl⟩ := scoreRows_eq_ok.mp h
  refine ⟨rfl, ?_⟩
  intro score hscore
  obtain ⟨s, hs, rfl⟩ := List.mem_map.mp hscore
  have hrow := (List.mem_insertionSort _).mp hs
  obtain ⟨hknown, htenant⟩ := List.mem_filter.mp hrow
  exact ⟨s, hknown, by simpa using htenant, rfl⟩

theorem recallActive_eq_ok (h : recallActive H tenantId family limit db = .ok selected db') :
    db' = db ∧ selected.length ≤ limit.toNat ∧ ∀ score ∈ selected, ∃ s,
      Recallable H db tenantId family s score ∧ s.status = .active := by
  unfold recallActive at h
  by_cases hlimit : limit < 1
  · rw [if_pos hlimit] at h
    obtain ⟨rfl, rfl⟩ := pure_eq_ok.mp h
    exact ⟨rfl, Nat.zero_le _, by simp⟩
  rw [if_neg hlimit] at h
  obtain ⟨u, db₁, hbind, hrest⟩ := bind_eq_ok.mp h
  obtain ⟨-, rfl⟩ := bindText_eq_ok.mp hbind
  have hread := get_bind_ok.mp hrest
  obtain ⟨scores, db₂, hscores, hreturn⟩ := bind_eq_ok.mp hread
  obtain ⟨rfl, hscored⟩ := mem_scoreRows hscores
  obtain ⟨rfl, rfl⟩ := pure_eq_ok.mp hreturn
  refine ⟨rfl, List.length_take_le _ _, ?_⟩
  intro score hscore
  have hsorted := (List.mem_insertionSort _).mp (List.mem_of_mem_take hscore)
  obtain ⟨hmem, hcheck⟩ := List.mem_filter.mp hsorted
  obtain ⟨s, hs, htenant, rfl⟩ := hscored score hmem
  simp only [Bool.and_eq_true, beq_iff_eq, fromOtherFamily, Option.any_eq_true] at hcheck
  obtain ⟨hactive, s', hfind, hforeign⟩ := hcheck
  obtain ⟨hs', hid⟩ := Table.mem_of_find hfind
  simp only [Strategy.hasId, Bool.and_eq_true, beq_iff_eq] at hid
  obtain rfl : s' = s := Table.eq_of_clash _ twoKeysClash_symm hs' hs (.inl hid.1)
  exact ⟨s', ⟨hs, htenant, by simpa using hforeign, rfl⟩, hactive⟩

omit [PyFloat F] in
theorem readOnly_scoresOf (scores : List (StrategyScore F)) (ids : List PyStr) :
    ReadOnly (scoresOf scores ids : PolicyDb F T (List (StrategyScore F))) :=
  readOnly_mapM (fun _ => readOnly_orRaise _ _) ids

theorem readOnly_recallActive :
    ReadOnly (recallActive H tenantId family limit : PolicyDb F T _) := by
  unfold recallActive
  by_cases hlimit : limit < 1
  · rw [if_pos hlimit]
    exact readOnly_pure _
  · rw [if_neg hlimit]
    exact (readOnly_bindText _).bind fun _ => readOnly_get.bind fun _ =>
      (readOnly_scoreRows H _).bind fun _ => readOnly_pure _

variable [LinearOrder T]

theorem readOnly_recallUncredited :
    ReadOnly (recallUncredited H tenantId family limit : PolicyDb F T _) := by
  unfold recallUncredited
  by_cases hlimit : limit < 1
  · rw [if_pos hlimit]
    exact readOnly_pure _
  · rw [if_neg hlimit]
    exact (readOnly_scoreRows H _).bind fun _ => (readOnly_bindText _).bind fun _ =>
      (readOnly_raiseIf _ _).bind fun _ => readOnly_get.bind fun _ => readOnly_scoresOf _ _

theorem readOnly_recallCandidate :
    ReadOnly (recallCandidateForEvaluation H tenantId family : PolicyDb F T _) := by
  refine (readOnly_bindText _).bind fun _ => (readOnly_bindText _).bind fun _ =>
    readOnly_get.bind fun db => ?_
  dsimp only
  generalize List.head? _ = found
  cases found with
  | none => exact readOnly_pure _
  | some s => exact (readOnly_scoreRows H _).bind fun _ => (readOnly_orRaise _ _).bind fun _ =>
      readOnly_pure _

omit [LinearOrder T]

theorem readOnly_sequenceIntervention {runId methodId : PyStr} {sequenceIndex : ℤ} :
    ReadOnly (sequenceIntervention H tenantId runId methodId sequenceIndex : PolicyDb F T _) := by
  refine (readOnly_bindText _).bind fun _ => (readOnly_bindText _).bind fun _ =>
    (readOnly_bindText _).bind fun _ => (readOnly_raiseIf _ _).bind fun _ =>
      readOnly_get.bind fun db => ?_
  generalize Table.find _ _ = found
  cases found with
  | none => exact readOnly_pure _
  | some row => exact (readOnly_orRaise _ _).bind fun _ => (readOnly_scoreRows H _).bind fun _ =>
      (readOnly_scoresOf _ _).bind fun _ => readOnly_pure _

/-- An intervention that is found is one of the place. -/
theorem sequenceIntervention_eq_ok {runId methodId : PyStr} {sequenceIndex : ℤ}
    (h : sequenceIntervention H tenantId runId methodId sequenceIndex db =
      .ok (some selected) db') :
    ∃ i ∈ db.sequenceInterventions.rows,
      SequenceIntervention.isAt tenantId runId methodId sequenceIndex i = true ∧
        identifiersOf F i.strategyIds = some (selected.map (·.strategyId)) := by
  simp only [sequenceIntervention, bind_eq_ok, bindText_eq_ok, bindInt, raiseIf_eq_ok] at h
  obtain ⟨_, _, ⟨-, rfl⟩, _, _, ⟨-, rfl⟩, _, _, ⟨-, rfl⟩, _, _, ⟨-, rfl⟩, hread⟩ := h
  obtain ⟨db₁, _, hget, hread⟩ := hread
  obtain ⟨rfl, rfl⟩ := EStateM.Result.ok.inj hget
  generalize hfind : Table.find _ _ = found at hread
  cases found with
  | none =>
    obtain ⟨hnone, -⟩ := pure_eq_ok.mp hread
    cases hnone
  | some row =>
    obtain ⟨identifiers, hids, hread⟩ := orRaise_bind_ok.mp hread
    obtain ⟨scores, db₂, hscores, hread⟩ := bind_eq_ok.mp hread
    obtain ⟨found, db₃, hfound, hread⟩ := bind_eq_ok.mp hread
    obtain ⟨hsome, rfl⟩ := pure_eq_ok.mp hread
    obtain rfl := Option.some.inj hsome
    obtain ⟨hmem, hat⟩ := Table.mem_of_find hfind
    exact ⟨row, hmem, hat, by rw [hids, (scoresOf_eq_ok hfound).2]⟩

end Specs

end PolicyRecall
