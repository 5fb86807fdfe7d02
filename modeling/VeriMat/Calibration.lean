import VeriMat.Grouping
import VeriMat.Methods

/-! # Calibration

`score_method` of `experiments/scoring.py` groups the decided predictions by the truncation of ten
times their confidence; `_ece` of `evaluation/challenge.py` scans ten intervals. Numbers are exact,
and `none` stands for a number that is none. -/
namespace Calibration

open PyText PyDict Grouping Verification Methods

variable {F : Type}

/-! ## Scoring -/

inductive ScoringError where
  | surveyContract
  deriving DecidableEq

/-- `agreement_score`. -/
def agreementScore (label : Label) (state : PyStr) : ℚ :=
  if label = .accepted ∧ state = py "supported" then 1
  else if label = .refuted ∧ state = py "contradicted" then 1
  else if label = .narrowed ∧ state = py "narrowed" then 1
  else if label = .narrowed ∧ state = py "supported" then 1 / 2
  else if label = .unresolved ∧ state = py "unresolved" then 1
  else 0

structure MethodScores where
  method : PyStr
  nClaims : ℕ
  decisionAccuracy : ℚ
  counterevidenceRecall : Option ℚ
  overclaimRate : ℚ
  nContradicted : ℕ
  brier : Option ℚ
  ece : Option ℚ
  replayPrecision : ℚ
  tokens : ℤ
  tokensPerValid : Option ℚ

/-- `replay_precision`. -/
def replayPrecision (I : Interpreter) (predictions : List (VerifiedClaim F))
    (passageText : Dict PyStr PyStr) : ℚ :=
  if predictions = [] then 0
  else predictions.countP (fun p =>
    I.quoted p.claim.quote ((passageText.get p.claim.passageId).getD [])) / predictions.length

section Predictions

variable (oracle : Dict PyStr PyStr)

/-- `oracle.get(p.claim.claim_id)`. -/
def stateOf (p : VerifiedClaim F) : Option PyStr := oracle.get p.claim.claimId

def isContradicted (p : VerifiedClaim F) : Bool := stateOf oracle p == some (py "contradicted")

def isDecided (p : VerifiedClaim F) : Bool :=
  stateOf oracle p == some (py "supported") || isContradicted oracle p

/-- The outcome of a decided prediction, with its confidence. -/
def outcomeOf (p : VerifiedClaim F) : ℚ × ℚ :=
  (if isContradicted oracle p then 0 else 1, p.confidence)

/-- `zip(outcomes, decided)`. -/
def decidedPairs (predictions : List (VerifiedClaim F)) : List (ℚ × ℚ) :=
  (predictions.filter (isDecided oracle)).map (outcomeOf oracle)

def agreementOf (p : VerifiedClaim F) : ℚ :=
  agreementScore p.label ((stateOf oracle p).getD (py "unresolved"))

end Predictions

/-- `int(x)` of a number. -/
def truncate (x : ℚ) : ℤ := if 0 ≤ x then x.floor else x.ceil

/-- `min(9, int(p.confidence * 10))`. -/
def binOf (confidence : ℚ) : ℤ := min 9 (truncate (confidence * 10))

def difference (pair : ℚ × ℚ) : ℚ := pair.1 - pair.2

/-- `bins.setdefault(min(9, int(p.confidence * 10)), []).append(o - p.confidence)` for each. -/
def survivalBins (pairs : List (ℚ × ℚ)) : Dict ℤ (List ℚ) :=
  pairs.foldl (fun bins pair => bins.set (binOf pair.2)
    ((bins.get (binOf pair.2)).getD [] ++ [difference pair])) empty

def brierScore (pairs : List (ℚ × ℚ)) : ℚ :=
  (pairs.map fun pair => (pair.2 - pair.1) ^ 2).sum / pairs.length

/-- `sum(len(v) / len(decided) * abs(sum(v) / len(v)) for v in bins.values())`. -/
def survivalError (pairs : List (ℚ × ℚ)) : ℚ :=
  ((survivalBins pairs).values.map fun v =>
    (v.length : ℚ) / pairs.length * |v.sum / (v.length : ℚ)|).sum

/-- `score_method`. -/
def scoreMethod (I : Interpreter) (method : PyStr) (predictions : List (VerifiedClaim F))
    (oracle passageText : Dict PyStr PyStr) (tokens : ℤ) : Except ScoringError MethodScores :=
  if predictions = [] then .error .surveyContract
  else
    let contradicted := predictions.filter (isContradicted oracle)
    let pairs := decidedPairs oracle predictions
    let valid := predictions.countP fun p => 1 ≤ agreementOf oracle p
    .ok {
      method
      nClaims := predictions.length
      decisionAccuracy := (predictions.map (agreementOf oracle)).sum / predictions.length
      counterevidenceRecall :=
        if contradicted = [] then none
        else some ((contradicted.countP fun p => p.label = .refuted ∨ p.label = .narrowed : ℕ) /
          (contradicted.length : ℚ))
      overclaimRate := predictions.countP (fun p => p.label = .accepted ∧ isContradicted oracle p) /
        predictions.length
      nContradicted := contradicted.length
      brier := if pairs = [] then none else some (brierScore pairs)
      ece := if pairs = [] then none else some (survivalError pairs)
      replayPrecision := replayPrecision I predictions passageText
      tokens
      tokensPerValid := if valid = 0 then none else some ((tokens : ℚ) / valid) }

/-! ## The scan of the intervals -/

/-- `lower <= probability < upper or (bin_index == bins - 1 and probability == 1)`. -/
def inBin (bins index : ℕ) (probability : ℚ) : Bool :=
  (index / bins : ℚ) ≤ probability && probability < ((index + 1) / bins : ℚ) ||
    index + 1 == bins && probability == 1

/-- The indices of the probabilities in a bin. -/
def members (probabilities : List ℚ) (bins index : ℕ) : List ℕ :=
  (probabilities.zipIdx.filter fun e => inBin bins index e.1).map Prod.snd

/-- One turn of the loop of `_ece`. -/
def binError (labels : List ℤ) (probabilities : List ℚ) (bins : ℕ) (error : ℚ) (index : ℕ) : ℚ :=
  let members := members probabilities bins index
  if members = [] then error
  else
    let confidence := (members.map fun i => probabilities.getD i 0).sum / members.length
    let accuracy := (members.map fun i => (labels.getD i 0 : ℚ)).sum / members.length
    error + (members.length : ℚ) / labels.length * |accuracy - confidence|

/-- `_ece`. -/
def ece (labels : List ℤ) (probabilities : List ℚ) (bins : ℕ) : Option ℚ :=
  if labels.length = 0 then none
  else some ((List.range bins).foldl (binError labels probabilities bins) 0)

/-! ## One bin -/

/-- What a bin adds to either error. -/
def binGap (pairs : List (ℚ × ℚ)) (k : ℤ) : ℚ :=
  |((withKey (fun pair => binOf pair.2) pairs k).map difference).sum| / pairs.length

theorem weighted_mean {values : List ℚ} (h : values ≠ []) (n : ℚ) :
    (values.length : ℚ) / n * |values.sum / values.length| = |values.sum| / n := by
  have hlength : (0 : ℚ) < values.length := by exact_mod_cast List.length_pos_iff.mpr h
  rw [abs_div, abs_of_pos hlength]
  field_simp

theorem truncate_eq {x : ℚ} (hx : 0 ≤ x) (k : ℤ) : truncate x = k ↔ (k : ℚ) ≤ x ∧ x < k + 1 := by
  rw [truncate, if_pos hx]
  exact Int.floor_eq_iff (a := x)

/-- The truncation of a probability names the interval it is in. -/
theorem binOf_eq_iff {p : ℚ} (h : 0 ≤ p) (h' : p ≤ 1) {b : ℕ} (hb : b < 10) :
    binOf p = b ↔ inBin 10 b p = true := by
  have htrunc := truncate_eq (x := p * 10) (by linarith)
  have hbin : inBin 10 b p = true ↔
      ((b : ℚ) ≤ p * 10 ∧ p * 10 < b + 1) ∨ (b = 9 ∧ p = 1) := by
    have hlower : ((b : ℚ) / (10 : ℕ) ≤ p) ↔ (b : ℚ) ≤ p * 10 := by
      rw [div_le_iff₀ (by norm_num)]
      norm_num
    have hupper : (p < ((b : ℚ) + 1) / (10 : ℕ)) ↔ p * 10 < b + 1 := by
      rw [lt_div_iff₀ (by norm_num)]
      norm_num
    simp only [inBin, Bool.or_eq_true, Bool.and_eq_true, decide_eq_true_eq, beq_iff_eq, hlower,
      hupper]
    refine or_congr_right (and_congr_left fun _ => ?_)
    omega
  rw [hbin, binOf]
  by_cases hone : p = 1
  · have hten : truncate (p * 10) = 10 := by
      rw [htrunc, hone]
      norm_num
    rw [hten, hone]
    have hcast : ((9 : ℤ) = b) ↔ b = 9 := by omega
    constructor
    · intro hmin
      exact .inr ⟨hcast.mp hmin, rfl⟩
    · rintro (⟨-, hlt⟩ | ⟨rfl, -⟩)
      · have : (9 : ℚ) < b := by linarith
        have : 9 < b := by exact_mod_cast this
        omega
      · rfl
  · have hlt : p * 10 < 10 := by
      have := lt_of_le_of_ne h' hone
      linarith
    have hfloor := (htrunc (truncate (p * 10))).mp rfl
    have hsmall : truncate (p * 10) ≤ 9 := by
      have : ((truncate (p * 10) : ℤ) : ℚ) < 10 := hfloor.1.trans_lt hlt
      have : truncate (p * 10) < 10 := by exact_mod_cast this
      omega
    rw [min_eq_right hsmall, htrunc]
    simp [hone]

theorem binOf_range {p : ℚ} (h : 0 ≤ p) : 0 ≤ binOf p ∧ binOf p < 10 := by
  have hfloor := (truncate_eq (x := p * 10) (by linarith) _).mp rfl
  have hnonneg : 0 ≤ truncate (p * 10) := by
    have : (-1 : ℚ) < truncate (p * 10) := by linarith
    have : (-1 : ℤ) < truncate (p * 10) := by exact_mod_cast this
    omega
  rw [binOf]
  omega

/-! ## The error over groups -/

theorem mapItems_set {κ ν μ : Type} [DecidableEq κ] (f : ν → μ) (d : Dict κ ν) (key : κ)
    (value : ν) : mapItems (fun _ => f) (d.set key value) =
      (mapItems (fun _ => f) d).set key (f value) := by
  apply Dict.ext_items
  obtain ⟨items, hnodup⟩ := d
  simp only [mapItems, Dict.set]
  clear hnodup
  induction items with
  | nil => rfl
  | cons p items ih =>
    rw [JsonText.setItem, List.map_cons, JsonText.setItem]
    by_cases hk : p.1 = key
    · simp [hk]
    · simp [hk, ih]

theorem survivalBins_eq (pairs : List (ℚ × ℚ)) :
    survivalBins pairs =
      mapItems (fun _ group => group.map difference) (groupBy (fun pair => binOf pair.2) pairs) := by
  induction pairs using List.reverseRecOn with
  | nil => rfl
  | append_singleton pairs pair ih =>
    have hstep : survivalBins (pairs ++ [pair]) = (survivalBins pairs).set (binOf pair.2)
        (((survivalBins pairs).get (binOf pair.2)).getD [] ++ [difference pair]) := by
      rw [survivalBins, List.foldl_append]
      rfl
    rw [hstep, groupBy_concat, mapItems_set, ih, get_mapItems]
    cases (groupBy (fun pair => binOf pair.2) pairs).get (binOf pair.2) <;> simp

/-- The bins of the probabilities, as numbers below ten. -/
theorem survivalError_eq {pairs : List (ℚ × ℚ)} (hpairs : ∀ pair ∈ pairs, 0 ≤ pair.2) :
    survivalError pairs = ∑ b ∈ Finset.range 10, binGap pairs b := by
  have hterm : survivalError pairs =
      (((groupBy (fun pair => binOf pair.2) pairs).items.map Prod.fst).map (binGap pairs)).sum := by
    rw [survivalError, survivalBins_eq, Dict.values, mapItems, List.map_map, List.map_map,
      List.map_map]
    congr 1
    refine List.map_congr_left fun item hitem => ?_
    obtain ⟨hgroup, hne⟩ := mem_groupBy.mp (show (item.1, item.2) ∈ _ from hitem)
    simp only [Function.comp_apply, binGap, ← hgroup]
    exact weighted_mean (by simpa using hne) _
  have hnodup := (groupBy (fun pair : ℚ × ℚ => binOf pair.2) pairs).nodup
  have hcast : ∑ b ∈ Finset.range 10, binGap pairs b =
      ∑ k ∈ (Finset.range 10).image (fun b : ℕ => (b : ℤ)), binGap pairs k :=
    (Finset.sum_image fun _ _ _ _ h => Int.ofNat.inj h).symm
  rw [hterm, ← List.sum_toFinset _ hnodup, hcast]
  refine Finset.sum_subset ?_ ?_
  · intro k hk
    obtain ⟨item, hitem, rfl⟩ := List.mem_map.mp (List.mem_toFinset.mp hk)
    obtain ⟨hgroup, hne⟩ := mem_groupBy.mp (show (item.1, item.2) ∈ _ from hitem)
    obtain ⟨pair, hpair⟩ := List.exists_mem_of_ne_nil _ hne
    rw [hgroup, mem_withKey] at hpair
    obtain ⟨hlow, hhigh⟩ := binOf_range (hpairs pair hpair.1)
    rw [hpair.2] at hlow hhigh
    exact Finset.mem_image.mpr ⟨item.1.toNat, Finset.mem_range.mpr (by omega), by omega⟩
  · intro k _ hk
    have hempty : withKey (fun pair : ℚ × ℚ => binOf pair.2) pairs k = [] := by
      by_contra hne
      have hitem := mem_groupBy.mpr ⟨rfl, hne⟩
      exact hk (List.mem_toFinset.mpr (List.mem_map_of_mem (f := Prod.fst) hitem))
    rw [binGap, hempty]
    simp

/-! ## The error over intervals -/

theorem filter_zipIdx {α : Type} (q : α → Bool) (l : List α) (n : ℕ) :
    ((l.zipIdx n).filter fun e => q e.1).map Prod.fst = l.filter q := by
  induction l generalizing n with
  | nil => rfl
  | cons x l ih =>
    rw [List.zipIdx_cons, List.filter_cons, List.filter_cons]
    by_cases hx : q x = true
    · simp only [hx, if_true, List.map_cons, ih]
    · simp only [hx, Bool.false_eq_true, if_false, ih]

/-- What is read at the indices of a bin is read off its pairs. -/
theorem members_map {β : Type} (labels : List (ℤ × ℚ)) (b : ℕ) (f : ℤ × ℚ → β) (d : β) :
    (members (labels.map Prod.snd) 10 b).map (fun i => (labels.map f).getD i d) =
      (labels.filter fun e => inBin 10 b e.2).map f := by
  rw [members, List.zipIdx_map, List.filter_map, List.map_map, List.map_map,
    ← filter_zipIdx _ labels 0, List.map_map]
  refine List.map_congr_left fun e he => ?_
  have hget : labels[e.2]? = some e.1 :=
    List.mk_mem_zipIdx_iff_getElem?.mp (List.mem_of_mem_filter he)
  simp [hget]

/-- The pairs as they are scored. -/
def scored (labels : List (ℤ × ℚ)) : List (ℚ × ℚ) := labels.map fun e => ((e.1 : ℚ), e.2)

theorem sum_difference (l : List (ℤ × ℚ)) :
    ((scored l).map difference).sum =
      (l.map fun e => (e.1 : ℚ)).sum - (l.map Prod.snd).sum := by
  induction l with
  | nil => simp [scored]
  | cons e l ih =>
    simp only [scored, List.map_cons, List.sum_cons, difference] at ih ⊢
    rw [ih]
    ring

theorem withKey_scored {labels : List (ℤ × ℚ)} (h : ∀ e ∈ labels, 0 ≤ e.2 ∧ e.2 ≤ 1) {b : ℕ}
    (hb : b < 10) : withKey (fun pair => binOf pair.2) (scored labels) b =
      scored (labels.filter fun e => inBin 10 b e.2) := by
  rw [withKey, scored, List.filter_map, scored]
  congr 1
  refine List.filter_congr fun e he => ?_
  obtain ⟨hlow, hhigh⟩ := h e he
  exact Bool.eq_iff_iff.mpr (decide_eq_true_iff.trans (binOf_eq_iff hlow hhigh hb))

/-- One turn adds the gap of its bin. -/
theorem binError_eq {labels : List (ℤ × ℚ)} (h : ∀ e ∈ labels, 0 ≤ e.2 ∧ e.2 ≤ 1) {b : ℕ}
    (hb : b < 10) (error : ℚ) :
    binError (labels.map Prod.fst) (labels.map Prod.snd) 10 error b =
      error + binGap (scored labels) b := by
  have hprobability := members_map labels b Prod.snd 0
  have hlabel : (members (labels.map Prod.snd) 10 b).map
      (fun i => (((labels.map Prod.fst).getD i 0 : ℤ) : ℚ)) =
        (labels.filter fun e => inBin 10 b e.2).map fun e => (e.1 : ℚ) := by
    have hfst := congrArg (List.map ((↑) : ℤ → ℚ)) (members_map labels b Prod.fst 0)
    rwa [List.map_map, List.map_map] at hfst
  have hlength : (members (labels.map Prod.snd) 10 b).length =
      (labels.filter fun e => inBin 10 b e.2).length := by
    have := congrArg List.length hprobability
    rwa [List.length_map, List.length_map] at this
  rw [binGap, withKey_scored h hb, sum_difference, binError]
  dsimp only
  rw [hprobability, hlabel, hlength]
  by_cases hempty : members (labels.map Prod.snd) 10 b = []
  · have hfilter : (labels.filter fun e => inBin 10 b e.2) = [] := by
      rw [← List.length_eq_zero_iff, ← hlength, hempty]
      rfl
    rw [if_pos hempty, hfilter]
    simp
  · have hne : (labels.filter fun e => inBin 10 b e.2) ≠ [] := by
      intro hfilter
      rw [hfilter] at hlength
      exact hempty (List.length_eq_zero_iff.mp hlength)
    have hpos : (0 : ℚ) < (labels.filter fun e => inBin 10 b e.2).length := by
      exact_mod_cast List.length_pos_iff.mpr hne
    rw [if_neg hempty, ← sub_div, abs_div, abs_of_pos hpos, List.length_map, scored,
      List.length_map]
    field_simp

theorem foldl_binError {labels : List (ℤ × ℚ)} (h : ∀ e ∈ labels, 0 ≤ e.2 ∧ e.2 ≤ 1) {n : ℕ}
    (hn : n ≤ 10) :
    (List.range n).foldl (binError (labels.map Prod.fst) (labels.map Prod.snd) 10) 0 =
      ∑ b ∈ Finset.range n, binGap (scored labels) b := by
  induction n with
  | zero => rfl
  | succ n ih =>
    rw [List.range_succ, List.foldl_append, ih (by omega), Finset.sum_range_succ]
    exact binError_eq h (by omega) _

/-! ## Agreement -/

/-- The bins share the pairs out. -/
theorem sum_lengths {pairs : List (ℚ × ℚ)} (h : ∀ pair ∈ pairs, 0 ≤ pair.2) :
    ∑ b ∈ Finset.range 10, (withKey (fun pair => binOf pair.2) pairs (b : ℤ)).length =
      pairs.length := by
  induction pairs with
  | nil => simp [withKey]
  | cons pair pairs ih =>
    obtain ⟨hlow, hhigh⟩ := binOf_range (h pair List.mem_cons_self)
    have hone : ∑ b ∈ Finset.range 10, (if binOf pair.2 = (b : ℤ) then 1 else 0) = 1 := by
      rw [Finset.sum_eq_single (binOf pair.2).toNat]
      · rw [if_pos (by omega)]
      · intro b _ hb
        rw [if_neg (by omega)]
      · intro hnot
        rw [Finset.mem_range] at hnot
        omega
    have hcons : ∀ b : ℕ, (withKey (fun pair => binOf pair.2) (pair :: pairs) (b : ℤ)).length =
        (if binOf pair.2 = (b : ℤ) then 1 else 0) +
          (withKey (fun pair => binOf pair.2) pairs (b : ℤ)).length := by
      intro b
      rw [withKey, List.filter_cons]
      by_cases hb : binOf pair.2 = (b : ℤ)
      · simp [hb, withKey, Nat.add_comm]
      · simp [hb, withKey]
    simp only [hcons, Finset.sum_add_distrib, hone, ih fun p hp => h p (List.mem_cons_of_mem _ hp),
      List.length_cons, Nat.add_comm]

theorem abs_sum_difference_le {l : List (ℚ × ℚ)}
    (h : ∀ pair ∈ l, |difference pair| ≤ 1) : |(l.map difference).sum| ≤ l.length := by
  induction l with
  | nil => simp
  | cons pair l ih =>
    rw [List.map_cons, List.sum_cons, List.length_cons, Nat.cast_succ, add_comm]
    have hrest := ih fun p hp => h p (List.mem_cons_of_mem _ hp)
    exact (abs_add_le _ _).trans (add_le_add hrest (h pair List.mem_cons_self))

/-- The error is a number between zero and one. -/
theorem survivalError_bounded {pairs : List (ℚ × ℚ)} (hne : pairs ≠ [])
    (h : ∀ pair ∈ pairs, 0 ≤ pair.2 ∧ |difference pair| ≤ 1) :
    0 ≤ survivalError pairs ∧ survivalError pairs ≤ 1 := by
  have hlength : (0 : ℚ) < pairs.length := by exact_mod_cast List.length_pos_iff.mpr hne
  rw [survivalError_eq fun pair hp => (h pair hp).1]
  constructor
  · exact Finset.sum_nonneg fun b _ => div_nonneg (abs_nonneg _) hlength.le
  · have hbin : ∀ b ∈ Finset.range 10, binGap pairs b ≤
        ((withKey (fun pair => binOf pair.2) pairs (b : ℤ)).length : ℚ) / pairs.length := by
      intro b _
      refine div_le_div_of_nonneg_right (abs_sum_difference_le fun pair hp => ?_) hlength.le
      exact (h pair (mem_withKey.mp hp).1).2
    refine (Finset.sum_le_sum hbin).trans ?_
    rw [← Finset.sum_div, ← Nat.cast_sum, sum_lengths fun pair hp => (h pair hp).1,
      div_self hlength.ne']

theorem scored_bounded {labels : List (ℤ × ℚ)}
    (h : ∀ e ∈ labels, (e.1 = 0 ∨ e.1 = 1) ∧ 0 ≤ e.2 ∧ e.2 ≤ 1) :
    ∀ pair ∈ scored labels, 0 ≤ pair.2 ∧ |difference pair| ≤ 1 := by
  intro pair hp
  obtain ⟨e, he, rfl⟩ := List.mem_map.mp hp
  obtain ⟨hlabel, hlow, hhigh⟩ := h e he
  refine ⟨hlow, ?_⟩
  rw [difference, abs_le]
  rcases hlabel with hzero | hone
  · rw [hzero]
    constructor <;> norm_num <;> linarith
  · rw [hone]
    constructor <;> norm_num <;> linarith

/-! ## Predictions with given outcomes -/

/-- An oracle that knows one claim contradicted and one supported. -/
def twoClaims : Dict PyStr PyStr :=
  (empty.set (py "c0") (py "contradicted")).set (py "c1") (py "supported")

/-- A prediction about one of them, with this confidence. -/
def predictionOf (e : ℤ × ℚ) : VerifiedClaim F :=
  ⟨.full, ⟨if e.1 = 0 then py "c0" else py "c1", [], [], [], [], [], [], [], [], [], []⟩,
    .unresolved, e.2, 0, 0, false, [], [], none⟩

theorem decidedPairs_predictionOf {labels : List (ℤ × ℚ)} (h : ∀ e ∈ labels, e.1 = 0 ∨ e.1 = 1) :
    decidedPairs twoClaims (labels.map (predictionOf (F := F))) = scored labels := by
  have hzero : twoClaims.get (py "c0") = some (py "contradicted") := by decide +kernel
  have hone : twoClaims.get (py "c1") = some (py "supported") := by decide +kernel
  have hne : py "supported" ≠ py "contradicted" := py_injective.ne (by decide)
  have hscored : ∀ e ∈ labels, isDecided twoClaims (predictionOf (F := F) e) = true ∧
      outcomeOf twoClaims (predictionOf (F := F) e) = ((e.1 : ℚ), e.2) := by
    intro e he
    rcases h e he with he | he
    · have hstate : stateOf twoClaims (predictionOf (F := F) e) = some (py "contradicted") := by
        rw [stateOf, predictionOf, if_pos he, hzero]
      have hcontradicted : isContradicted twoClaims (predictionOf (F := F) e) = true := by
        rw [isContradicted, hstate, beq_self_eq_true]
      rw [isDecided, outcomeOf, hcontradicted, Bool.or_true, if_pos rfl, he, Int.cast_zero]
      exact ⟨rfl, rfl⟩
    · have hstate : stateOf twoClaims (predictionOf (F := F) e) = some (py "supported") := by
        rw [stateOf, predictionOf, if_neg (by omega), hone]
      have hcontradicted : isContradicted twoClaims (predictionOf (F := F) e) = false := by
        rw [isContradicted, hstate]
        simpa using hne
      rw [isDecided, outcomeOf, hcontradicted, hstate, beq_self_eq_true, Bool.true_or,
        if_neg Bool.false_ne_true, he, Int.cast_one]
      exact ⟨rfl, rfl⟩
  have hdecided : (labels.map (predictionOf (F := F))).filter (isDecided twoClaims) =
      labels.map predictionOf := by
    refine List.filter_eq_self.mpr fun p hp => ?_
    obtain ⟨e, he, rfl⟩ := List.mem_map.mp hp
    exact (hscored e he).1
  rw [decidedPairs, hdecided, List.map_map, scored]
  exact List.map_congr_left fun e he => (hscored e he).2

/-- The two errors of the same outcomes and probabilities. -/
theorem calibration_errors_agree (labels : List (ℤ × ℚ)) (hne : labels ≠ [])
    (hlabels : ∀ e ∈ labels, (e.1 = 0 ∨ e.1 = 1) ∧ 0 ≤ e.2 ∧ e.2 ≤ 1) :
    ∃ error : ℚ, ece (labels.map Prod.fst) (labels.map Prod.snd) 10 = some error ∧
      0 ≤ error ∧ error ≤ 1 ∧
      (∀ (F : Type) (I : Interpreter) (method : PyStr) (predictions : List (VerifiedClaim F))
        (oracle passageText : Dict PyStr PyStr) (tokens : ℤ),
        decidedPairs oracle predictions = scored labels →
          ∃ scores, scoreMethod I method predictions oracle passageText tokens = .ok scores ∧
            scores.ece = some error) ∧
      ∃ (predictions : List (VerifiedClaim F)) (oracle : Dict PyStr PyStr),
        decidedPairs oracle predictions = scored labels := by
  have hscored : scored labels ≠ [] := by simpa [scored] using hne
  obtain ⟨hlow, hhigh⟩ := survivalError_bounded hscored (scored_bounded hlabels)
  refine ⟨survivalError (scored labels), ?_, hlow, hhigh, ?_, ?_⟩
  · have hlength : (labels.map Prod.fst).length ≠ 0 := by simpa using hne
    rw [ece, if_neg hlength, foldl_binError (fun e he => (hlabels e he).2) le_rfl,
      survivalError_eq fun pair hp => (scored_bounded hlabels pair hp).1]
  · intro F I method predictions oracle passageText tokens hpairs
    have hpredictions : predictions ≠ [] := by
      rintro rfl
      exact hscored hpairs.symm
    refine ⟨_, if_neg hpredictions, ?_⟩
    dsimp only
    rw [hpairs, if_neg hscored]
  · exact ⟨labels.map predictionOf, twoClaims,
      decidedPairs_predictionOf fun e he => (hlabels e he).1⟩

theorem calibration_errors_agree_boundaries :
    ∃ error : ℚ, ece [1, 0, 1] [1, 3 / 10, 3 / 10] 10 = some error ∧ 0 ≤ error ∧ error ≤ 1 ∧
      (∀ (F : Type) (I : Interpreter) (method : PyStr) (predictions : List (VerifiedClaim F))
        (oracle passageText : Dict PyStr PyStr) (tokens : ℤ),
        decidedPairs oracle predictions = scored [(1, 1), (0, 3 / 10), (1, 3 / 10)] →
          ∃ scores, scoreMethod I method predictions oracle passageText tokens = .ok scores ∧
            scores.ece = some error) ∧
      ∃ (predictions : List (VerifiedClaim Unit)) (oracle : Dict PyStr PyStr),
        decidedPairs oracle predictions = scored [(1, 1), (0, 3 / 10), (1, 3 / 10)] :=
  calibration_errors_agree [(1, 1), (0, 3 / 10), (1, 3 / 10)] (by simp) (by norm_num)

end Calibration
