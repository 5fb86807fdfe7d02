import VeriMat.CrossValidation
import VeriMat.Fallible
import VeriMat.GreedyMatching

/-! # Observations are matched one to one

A comparison is a greedy matching: every observation of the literature is compared once or listed
as unmatched, every record of the database is used once at most, and what is unmatched has no
comparable record among those left. -/
namespace MatchedObservations

open PyText JsonText PolicyRecall Formulas CrossValidation Fallible GreedyMatching

variable {F M : Type} [PyFloat F] (X : CrossHost F M) (policy : MatchPolicy F)
variable {item c d : MaterialObservation F}

/-- The record is comparable. -/
def Admits (item d : MaterialObservation F) : Prop :=
  ∃ delta, pairReason X policy item d = .ok (.matched delta)

/-- Both are comparable, and the one comes first. -/
def Closer (item d c : MaterialObservation F) : Prop :=
  ∃ delta delta', pairReason X policy item d = .ok (.matched delta) ∧
    pairReason X policy item c = .ok (.matched delta') ∧
      closeness (d, delta) < closeness (c, delta')

/-- The pair has been compared. -/
def Compares (p : MaterialObservation F × MaterialObservation F)
    (comparison : NumericComparison F) : Prop :=
  ∃ delta, pairReason X policy p.1 p.2 = .ok (.matched delta) ∧
    comparisonOf X policy p.1 (p.2, delta) = .ok comparison

/-- The observation is listed by its digest. -/
def Lists (o : MaterialObservation F) (entry : PyStr × PyStr) : Prop :=
  observationId X o = .ok entry.1

variable {X policy}

/-! ## The record that is removed -/

theorem sameOptional_delta {t a b : Option F} (h : sameOptional a b = true) :
    ∀ r, temperatureReason X policy t a = r →
      match r with
      | .matched delta => ∃ delta', temperatureReason X policy t b = .matched delta' ∧
          delta'.elim (-1) numberOf = delta.elim (-1) numberOf
      | .refused reason => temperatureReason X policy t b = .refused reason := by
  rintro r rfl
  cases t with
  | none =>
    cases a with
    | none =>
      cases b with
      | none => exact ⟨none, rfl, rfl⟩
      | some y => cases h
    | some x =>
      cases b with
      | none => cases h
      | some y => rfl
  | some t =>
    cases a with
    | none =>
      cases b with
      | none => rfl
      | some y => cases h
    | some x =>
      cases b with
      | none => cases h
      | some y =>
        have hvalue := X.distance_congr t x y h
        have hlt : floatLt policy.temperatureToleranceK (X.abs (X.sub t x)) =
            floatLt policy.temperatureToleranceK (X.abs (X.sub t y)) := by
          unfold floatLt PolicyStore.floatLe
          rw [hvalue]
        simp only [temperatureReason, hlt]
        by_cases hfar : floatLt policy.temperatureToleranceK (X.abs (X.sub t y)) = true
        · simp only [if_pos hfar]
        · simp only [if_neg hfar]
          refine ⟨_, rfl, ?_⟩
          simp only [Option.elim_some, numberOf, hvalue]

theorem canonicalValue_unit {v : PyStr × F} (h : canonicalValue X c = .ok v) :
    validate X c = .ok () ∧ (units.lookup (normaliseUnit X c.unit)).map Prod.fst = some v.1 := by
  obtain ⟨_, hvalid, h⟩ := bind_returns.mp h
  refine ⟨hvalid, ?_⟩
  cases hunit : units.lookup (normaliseUnit X c.unit) with
  | none =>
    simp only [hunit] at h
    cases h
  | some unit =>
    simp only [hunit] at h
    cases h
    rfl

/-- What a comparable pair agrees in. -/
theorem pairReason_matched {delta : Option F}
    (h : pairReason X policy item c = .ok (.matched delta)) :
    ∃ composition property left right,
      normaliseComposition X.formulas item.composition = .ok composition ∧
      normaliseComposition X.formulas c.composition = .ok composition ∧
      normaliseProperty X item.propertyName = .ok property ∧
      normaliseProperty X c.propertyName = .ok property ∧
      ¬ (policy.requireSameMethod = true ∧ item.method ≠ c.method) ∧
      canonicalValue X item = .ok left ∧ canonicalValue X c = .ok right ∧ left.1 = right.1 ∧
      temperatureReason X policy item.temperatureK c.temperatureK = .matched delta := by
  obtain ⟨composition, hcomposition, h⟩ := bind_returns.mp h
  obtain ⟨composition', hcomposition', h⟩ := bind_returns.mp h
  by_cases hsame : composition = composition'
  swap
  · rw [if_pos hsame] at h
    cases h
  rw [if_neg (not_not.mpr hsame)] at h
  obtain ⟨property, hproperty, h⟩ := bind_returns.mp h
  obtain ⟨property', hproperty', h⟩ := bind_returns.mp h
  by_cases hsame' : property = property'
  swap
  · rw [if_pos hsame'] at h
    cases h
  rw [if_neg (not_not.mpr hsame')] at h
  by_cases hmethod : policy.requireSameMethod = true ∧ item.method ≠ c.method
  · rw [if_pos hmethod] at h
    cases h
  rw [if_neg hmethod] at h
  obtain ⟨left, hleft, h⟩ := bind_returns.mp h
  obtain ⟨right, hright, h⟩ := bind_returns.mp h
  by_cases hunit : left.1 = right.1
  swap
  · rw [if_pos hunit] at h
    cases h
  rw [if_neg (not_not.mpr hunit)] at h
  subst hsame hsame'
  exact ⟨composition, property, left, right, hcomposition, hcomposition', hproperty, hproperty',
    hmethod, hleft, hright, hunit, Except.ok.inj h⟩

/-- A record that is the same is as comparable, and as close. -/
theorem pairReason_same {delta : Option F} {r : PairReason F} (hsame : sameObservation c d = true)
    (hc : pairReason X policy item c = .ok (.matched delta))
    (hd : pairReason X policy item d = .ok r) :
    ∃ delta', r = .matched delta' ∧ closeness (d, delta') = closeness (c, delta) := by
  simp only [sameObservation, Bool.and_eq_true, beq_iff_eq] at hsame
  obtain ⟨⟨⟨⟨⟨⟨⟨⟨⟨⟨hprovider, hproviderId⟩, hcomposition⟩, hproperty⟩, -⟩, hunit⟩, -⟩, -⟩,
    htemperature⟩, hmethod⟩, -⟩ := hsame
  obtain ⟨composition, property, left, right, h1, h2, h3, h4, h5, hleft, hright, hdimension,
    hdelta⟩ := pairReason_matched hc
  unfold pairReason at hd
  rw [← hcomposition, ← hproperty, ← hmethod, h1, h2, h3, h4] at hd
  obtain ⟨_, hfirst, hd⟩ := bind_returns.mp hd
  cases hfirst
  obtain ⟨_, hfirst, hd⟩ := bind_returns.mp hd
  cases hfirst
  rw [if_neg (not_not.mpr rfl)] at hd
  obtain ⟨_, hfirst, hd⟩ := bind_returns.mp hd
  cases hfirst
  obtain ⟨_, hfirst, hd⟩ := bind_returns.mp hd
  cases hfirst
  rw [if_neg (not_not.mpr rfl), if_neg h5, hleft] at hd
  obtain ⟨_, hfirst, hd⟩ := bind_returns.mp hd
  cases hfirst
  obtain ⟨right', hright', hd⟩ := bind_returns.mp hd
  have hdimension' : right.1 = right'.1 := by
    have hunits := (canonicalValue_unit hright).2
    rw [hunit, (canonicalValue_unit hright').2] at hunits
    exact (Option.some.inj hunits).symm
  rw [if_neg (not_not.mpr (hdimension.trans hdimension'))] at hd
  obtain ⟨delta', hmatched, hdistance⟩ := sameOptional_delta htemperature _ hdelta
  refine ⟨delta', ?_, ?_⟩
  · rw [hmatched] at hd
    exact (Except.ok.inj hd).symm
  · rw [closeness, closeness, hdistance, hprovider, hproviderId]

theorem raiseIf_eq_ok {p : Prop} [Decidable p] {issue : CrossIssue} :
    raiseIf p issue = .ok () ↔ ¬ p := by
  unfold raiseIf
  by_cases hp : p
  · simp [hp]
  · simp [hp]

theorem floatEq_self {x : F} (h : PolicyStore.isFiniteFloat x = true) : floatEq x x = true := by
  unfold PolicyStore.isFiniteFloat at h
  unfold floatEq PolicyStore.floatLe
  cases hx : PyFloat.value x with
  | finite q => simp
  | nan => simp [hx, FloatValue.isFinite] at h
  | inf => simp [hx, FloatValue.isFinite] at h
  | negInf => simp [hx, FloatValue.isFinite] at h

theorem sameOptional_self {x : Option F} (h : ¬ Improper x) : sameOptional x x = true := by
  cases x with
  | none => rfl
  | some y =>
    refine floatEq_self ?_
    by_contra hfinite
    exact h ⟨y, rfl, .inl (Bool.eq_false_iff.mpr hfinite)⟩

theorem validate_returns (h : validate X c = .ok ()) :
    PolicyStore.isFiniteFloat c.value = true ∧ ¬ Improper c.temperatureK ∧
      ¬ Improper c.uncertainty ∧ units.lookup (normaliseUnit X c.unit) ≠ none := by
  obtain ⟨_, -, h⟩ := bind_returns.mp h
  obtain ⟨_, -, h⟩ := bind_returns.mp h
  obtain ⟨_, -, h⟩ := bind_returns.mp h
  obtain ⟨_, -, h⟩ := bind_returns.mp h
  obtain ⟨_, -, h⟩ := bind_returns.mp h
  obtain ⟨_, -, h⟩ := bind_returns.mp h
  obtain ⟨_, hvalue, h⟩ := bind_returns.mp h
  obtain ⟨_, htemperature, h⟩ := bind_returns.mp h
  obtain ⟨_, huncertainty, hunit⟩ := bind_returns.mp h
  exact ⟨eq_true_of_ne_false (raiseIf_eq_ok.mp hvalue), raiseIf_eq_ok.mp htemperature,
    raiseIf_eq_ok.mp huncertainty, raiseIf_eq_ok.mp hunit⟩

/-- A valid observation is the same as itself. -/
theorem sameObservation_self (h : validate X c = .ok ()) : sameObservation c c = true := by
  obtain ⟨hvalue, htemperature, huncertainty, -⟩ := validate_returns h
  simp [sameObservation, floatEq_self hvalue, sameOptional_self htemperature,
    sameOptional_self huncertainty]

/-! ## One turn -/

theorem judged_spec {remaining : List (MaterialObservation F)}
    {judged : List (MaterialObservation F × PairReason F)}
    (h : (remaining.mapM fun candidate => do
      return (candidate, ← pairReason X policy item candidate)) = .ok judged) :
    judged.map Prod.fst = remaining ∧ ∀ p ∈ judged, pairReason X policy item p.1 = .ok p.2 := by
  have hall := mapM_eq_ok.mp h
  clear h
  induction hall with
  | nil => exact ⟨rfl, List.forall_mem_nil _⟩
  | cons hone _ ih =>
    obtain ⟨r, hr, hone⟩ := bind_returns.mp hone
    cases hone
    exact ⟨congrArg _ ih.1, List.forall_mem_cons.mpr ⟨hr, ih.2⟩⟩

omit [PyFloat F] in
theorem candidateOf_eq_some {p : MaterialObservation F × PairReason F} {chosen : Candidate F} :
    candidateOf p = some chosen ↔ p = (chosen.1, .matched chosen.2) := by
  obtain ⟨o, r⟩ := p
  cases r with
  | matched delta => simp [candidateOf, Prod.ext_iff]
  | refused reason => simp [candidateOf]

/-- A turn leaves the observation alone, or pairs it with the closest record. -/
theorem matchItem_returns {progress progress' : Progress F}
    (h : matchItem X policy progress item = .ok progress') :
    (∃ entry, (∀ d ∈ progress.remaining, ¬ Admits X policy item d) ∧ Lists X item entry ∧
      progress' = { progress with unmatched := progress.unmatched ++ [entry] }) ∨
    ∃ before after chosen comparison, progress.remaining = before ++ chosen :: after ∧
      Admits X policy item chosen ∧ Compares X policy (item, chosen) comparison ∧
      (∀ d ∈ before ++ after, Admits X policy item d → ¬ Closer X policy item d chosen) ∧
      progress' = { progress with
        remaining := before ++ after
        comparisons := progress.comparisons ++ [comparison] } := by
  obtain ⟨judged, hjudged, h⟩ := bind_returns.mp h
  obtain ⟨hremaining, hreasons⟩ := judged_spec hjudged
  cases hchosen : (judged.filterMap candidateOf).argmin closeness with
  | none =>
    simp only [hchosen] at h
    obtain ⟨identifier, hidentifier, h⟩ := bind_returns.mp h
    cases h
    refine .inl ⟨(identifier, firstReason (judged.filterMap reasonOf)), ?_, hidentifier, rfl⟩
    rintro d hd ⟨delta, hdelta⟩
    rw [← hremaining] at hd
    obtain ⟨p, hp, rfl⟩ := List.mem_map.mp hd
    have hmatched := Except.ok.inj ((hreasons p hp).symm.trans hdelta)
    have hmem : (p.1, delta) ∈ judged.filterMap candidateOf :=
      List.mem_filterMap.mpr ⟨p, hp, by rw [candidateOf, hmatched]⟩
    rw [List.argmin_eq_none.mp hchosen] at hmem
    cases hmem
  | some chosen =>
    simp only [hchosen] at h
    obtain ⟨comparison, hcomparison, h⟩ := bind_returns.mp h
    cases h
    right
    have hleast : ∀ p ∈ judged, ∀ delta, p.2 = .matched delta →
        closeness chosen ≤ closeness (p.1, delta) := by
      intro p hp delta hdelta
      refine List.le_of_mem_argmin (List.mem_filterMap.mpr ⟨p, hp, ?_⟩) hchosen
      rw [candidateOf, hdelta]
    obtain ⟨first, last, hsplit, hfirst⟩ := argmin_split hchosen
    obtain ⟨front, rest, rfl, rfl, hrest⟩ := List.filterMap_eq_append_iff.mp hsplit
    obtain ⟨skipped, p, back, rfl, hskipped, hp, rfl⟩ := List.filterMap_eq_cons_iff.mp hrest
    obtain rfl := candidateOf_eq_some.mp hp
    have hpair : pairReason X policy item chosen.1 = .ok (.matched chosen.2) :=
      hreasons (chosen.1, .matched chosen.2) (by simp)
    have hself : sameObservation chosen.1 chosen.1 = true := by
      obtain ⟨_, _, _, _, _, _, _, _, _, _, hright, _⟩ := pairReason_matched hpair
      exact sameObservation_self (canonicalValue_unit hright).1
    have hother : ∀ d ∈ (front ++ skipped).map Prod.fst, ¬ sameObservation chosen.1 d = true := by
      intro d hd hsame
      obtain ⟨p, hp, rfl⟩ := List.mem_map.mp hd
      have hmem : p ∈ front ++ (skipped ++ (chosen.1, .matched chosen.2) :: back) := by
        rw [← List.append_assoc]
        exact List.mem_append_left _ hp
      obtain ⟨delta, hdelta, hequal⟩ := pairReason_same hsame hpair (hreasons p hmem)
      have hcandidate : candidateOf p = some (p.1, delta) := by rw [candidateOf, hdelta]
      rcases List.mem_append.mp hp with hp | hp
      · have hless := hfirst _ (List.mem_filterMap.mpr ⟨p, hp, hcandidate⟩)
        rw [hequal] at hless
        exact lt_irrefl _ hless
      · rw [hskipped p hp] at hcandidate
        cases hcandidate
    have hsplitRemaining : progress.remaining =
        (front ++ skipped).map Prod.fst ++ chosen.1 :: back.map Prod.fst := by
      rw [← hremaining]
      simp
    refine ⟨_, _, chosen.1, comparison, hsplitRemaining, ⟨_, hpair⟩, ⟨_, hpair, hcomparison⟩, ?_,
      ?_⟩
    · rintro d hd - ⟨delta, delta', hdelta, hdelta', hless⟩
      have hchosenDelta := Except.ok.inj (hdelta'.symm.trans hpair)
      cases hchosenDelta
      rw [← List.map_append] at hd
      obtain ⟨p, hp, rfl⟩ := List.mem_map.mp hd
      have hmem : p ∈ front ++ (skipped ++ (chosen.1, .matched chosen.2) :: back) := by
        simp only [List.mem_append, List.mem_cons] at hp ⊢
        tauto
      have hreason := Except.ok.inj ((hreasons p hmem).symm.trans hdelta)
      exact absurd hless (not_lt.mpr (hleast p hmem delta hreason))
    · rw [hsplitRemaining, eraseP_first hother hself]

/-! ## The whole comparison -/

section Sorting
variable {κ : Type} {key : MaterialObservation F → Except CrossError κ}
  {observations sorted : List (MaterialObservation F)} {keyed : List (κ × MaterialObservation F)}

variable [LinearOrder κ]

end Sorting

/-- An observation that is valid and has a digest. -/
def Sound (X : CrossHost F M) (o : MaterialObservation F) : Prop :=
  validate X o = .ok () ∧ ∃ identifier, observationId X o = .ok identifier

theorem normalise_of_identified {identifier : PyStr} (h : observationId X c = .ok identifier) :
    (∃ composition, normaliseComposition X.formulas c.composition = .ok composition) ∧
      ∃ property, normaliseProperty X c.propertyName = .ok property := by
  obtain ⟨composition, hcomposition, h⟩ := bind_returns.mp h
  obtain ⟨property, hproperty, -⟩ := bind_returns.mp h
  exact ⟨⟨composition, hcomposition⟩, ⟨property, hproperty⟩⟩

theorem canonicalValue_of_valid (h : validate X c = .ok ()) :
    ∃ v, canonicalValue X c = .ok v := by
  cases hunit : units.lookup (normaliseUnit X c.unit) with
  | none => exact absurd hunit (validate_returns h).2.2.2
  | some unit =>
    refine ⟨(unit.1, X.mul c.value (PyFloat.ofText unit.2)), bind_returns.mpr ⟨(), h, ?_⟩⟩
    simp only [hunit]

theorem Sound.pairReason (policy : MatchPolicy F) (hitem : Sound X item) (hc : Sound X c) :
    ∃ r, pairReason X policy item c = .ok r := by
  obtain ⟨hvalid, identifier, hidentifier⟩ := hitem
  obtain ⟨hvalid', identifier', hidentifier'⟩ := hc
  obtain ⟨⟨composition, h1⟩, property, h2⟩ := normalise_of_identified hidentifier
  obtain ⟨⟨composition', h1'⟩, property', h2'⟩ := normalise_of_identified hidentifier'
  obtain ⟨left, h3⟩ := canonicalValue_of_valid hvalid
  obtain ⟨right, h3'⟩ := canonicalValue_of_valid hvalid'
  unfold CrossValidation.pairReason
  rw [h1, h1', h2, h2', h3, h3']
  simp only [bind, Except.bind]
  split_ifs <;> exact ⟨_, rfl⟩

theorem Sound.comparisonOf (policy : MatchPolicy F) (hitem : Sound X item) (hc : Sound X c)
    (delta : Option F) :
    ∃ comparison, comparisonOf X policy item (c, delta) = .ok comparison := by
  obtain ⟨hvalid, identifier, hidentifier⟩ := hitem
  obtain ⟨hvalid', identifier', hidentifier'⟩ := hc
  obtain ⟨⟨composition, h1⟩, property, h2⟩ := normalise_of_identified hidentifier
  obtain ⟨left, h3⟩ := canonicalValue_of_valid hvalid
  obtain ⟨right, h3'⟩ := canonicalValue_of_valid hvalid'
  unfold CrossValidation.comparisonOf
  rw [h3, h3', hidentifier, hidentifier', h1, h2]
  exact ⟨_, rfl⟩

/-- A turn over sound observations returns, and sound ones are left. -/
theorem Sound.matchItem (policy : MatchPolicy F) {progress : Progress F} (hitem : Sound X item)
    (hremaining : ∀ d ∈ progress.remaining, Sound X d) :
    ∃ progress', matchItem X policy progress item = .ok progress' ∧
      ∀ d ∈ progress'.remaining, Sound X d := by
  have hreturns :
      ∃ progress', CrossValidation.matchItem X policy progress item = .ok progress' := by
    have hreasons : ∀ d ∈ progress.remaining, ∃ p,
        (do return (d, ← CrossValidation.pairReason X policy item d) :
          Except CrossError (MaterialObservation F × PairReason F)) = .ok p ∧ p.1 = d := by
      intro d hd
      obtain ⟨r, hr⟩ := Sound.pairReason policy hitem (hremaining d hd)
      exact ⟨(d, r), bind_returns.mpr ⟨r, hr, rfl⟩, rfl⟩
    obtain ⟨judged, hjudged, -⟩ := exists_mapM hreasons
    cases hchosen : (judged.filterMap candidateOf).argmin closeness with
    | none =>
      obtain ⟨identifier, hidentifier⟩ := hitem.2
      refine exists_bind hjudged ?_
      simp only [hchosen]
      exact exists_bind hidentifier ⟨_, rfl⟩
    | some chosen =>
      have hmem : chosen.1 ∈ progress.remaining := by
        obtain ⟨p, hp, hcandidate⟩ := List.mem_filterMap.mp (List.argmin_mem hchosen)
        obtain rfl := candidateOf_eq_some.mp hcandidate
        rw [← (judged_spec hjudged).1]
        exact List.mem_map_of_mem hp
      obtain ⟨comparison, hcomparison⟩ :=
        Sound.comparisonOf policy hitem (hremaining _ hmem) chosen.2
      refine exists_bind hjudged ?_
      simp only [hchosen]
      exact exists_bind hcomparison ⟨_, rfl⟩
  obtain ⟨progress', h⟩ := hreturns
  refine ⟨progress', h, ?_⟩
  rcases matchItem_returns h with ⟨entry, -, -, rfl⟩ |
    ⟨before, after, chosen, comparison, hsplit, -, -, -, rfl⟩
  · exact hremaining
  · intro d hd
    refine hremaining d ?_
    rw [hsplit]
    simp only [List.mem_append, List.mem_cons] at hd ⊢
    tauto

theorem databaseKey_eq_ok {k : PyStr ×ₗ PyStr ×ₗ PyStr} : databaseKey X c = .ok k ↔
    ∃ identifier, observationId X c = .ok identifier ∧
      toLex (c.provider, toLex (c.providerId, identifier)) = k := by
  unfold databaseKey
  rw [bind_returns]
  refine exists_congr fun identifier => and_congr Iff.rfl ?_
  constructor
  · intro h
    cases h
    rfl
  · rintro rfl
    rfl

/-- No two observations have one digest. -/
def Distinct (X : CrossHost F M) (observations : List (MaterialObservation F)) : Prop :=
  ∀ a ∈ observations, ∀ b ∈ observations, ∀ k,
    observationId X a = .ok k → observationId X b = .ok k → a = b

theorem Distinct.databaseKey {observations : List (MaterialObservation F)}
    (h : Distinct X observations) : ∀ a ∈ observations, ∀ b ∈ observations, ∀ k,
      databaseKey X a = .ok k → databaseKey X b = .ok k → a = b := by
  intro a ha b hb k hka hkb
  obtain ⟨identifier, hidentifier, rfl⟩ := databaseKey_eq_ok.mp hka
  obtain ⟨identifier', hidentifier', hkey⟩ := databaseKey_eq_ok.mp hkb
  have hids : identifier' = identifier := by
    have htail := congrArg (fun k => (ofLex (ofLex k).2).2) hkey
    exact htail
  exact h a ha b hb identifier hidentifier (hids ▸ hidentifier')

end MatchedObservations
