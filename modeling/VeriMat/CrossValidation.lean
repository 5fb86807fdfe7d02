import VeriMat.Events
import VeriMat.Formulas
import VeriMat.PolicyRecall
import VeriMat.Verification

/-! # Comparing observations

`compare_observations` of `materials/cross_validation.py`: each observation of the literature, in
the order of their digests, takes the closest comparable record of a database that is left. -/
namespace CrossValidation

open PyText JsonText PyValue ModelTransports Formulas PolicyStore PolicyRecall

/-! ## Observations -/

structure MaterialObservation (F : Type) where
  provider : PyStr
  providerId : PyStr
  composition : PyStr
  propertyName : PyStr
  value : F
  unit : PyStr
  sourceLocator : PyStr
  contentSha256 : PyStr
  temperatureK : Option F
  method : PyStr
  uncertainty : Option F

structure MatchPolicy (F : Type) where
  temperatureToleranceK : F
  requireSameMethod : Bool
  toleranceAbsolute : F
  toleranceRelative : F

structure NumericComparison (F : Type) where
  literatureId : PyStr
  databaseId : PyStr
  composition : PyStr
  propertyName : PyStr
  literatureValue : F
  databaseValue : F
  canonicalUnitDimension : PyStr
  residual : F
  temperatureDeltaK : Option F
  withinTolerance : Bool

/-- `_metrics` is any function of the comparisons, and may overflow. -/
structure CrossHost (F M : Type) [PyFloat F] where
  formulas : FormulaHost
  casefold : ℕ → PyStr
  sha256 : PyBytes → PyStr
  sub : F → F → F
  mul : F → F → F
  abs : F → F
  metrics : List (NumericComparison F) → Except CrossError M
  /-- Equal floats are at one distance from a third. -/
  distance_congr : ∀ t x y : F, floatEq x y = true →
    PyFloat.value (abs (sub t x)) = PyFloat.value (abs (sub t y))

/-- `_PROPERTY_ALIASES`. -/
def propertyAliases : List (PyStr × PyStr) :=
  [(py "zt", py "ZT"), (py "figure of merit", py "ZT"), (py "band gap", py "band_gap"),
    (py "bandgap", py "band_gap"), (py "formation energy", py "formation_energy_per_atom"),
    (py "formation energy per atom", py "formation_energy_per_atom"),
    (py "energy above hull", py "energy_above_hull"),
    (py "thermal conductivity", py "thermal_conductivity"),
    (py "lattice thermal conductivity", py "lattice_thermal_conductivity"),
    (py "seebeck coefficient", py "seebeck_coefficient"),
    (py "electrical conductivity", py "electrical_conductivity"),
    (py "power factor", py "power_factor")]

/-- `_UNITS`: the dimension of a unit, and the literal of its scale. -/
def units : List (PyStr × PyStr × PyStr) :=
  [(py "1", py "dimensionless", py "1.0"), ([], py "dimensionless", py "1.0"),
    (py "ev", py "energy", py "1.0"), (py "mev", py "energy", py "0.001"),
    (py "ev/atom", py "energy_per_atom", py "1.0"),
    (py "mev/atom", py "energy_per_atom", py "0.001"),
    (py "w/(m*k)", py "thermal_conductivity", py "1.0"),
    (py "w/mk", py "thermal_conductivity", py "1.0"),
    (py "mw/(m*k)", py "thermal_conductivity", py "0.001"), (py "uv/k", py "seebeck", py "1.0"),
    (py "mv/k", py "seebeck", py "1000.0"), (py "v/k", py "seebeck", py "1000000.0"),
    (py "s/m", py "conductivity", py "1.0"), (py "s/cm", py "conductivity", py "100.0"),
    (py "w/(m*k^2)", py "power_factor", py "1.0"),
    (py "uw/(cm*k^2)", py "power_factor", py "0.0001")]

/-- Why two observations are not compared. -/
inductive Mismatch where
  | composition
  | property
  | method
  | unitDimension
  | temperatureUnavailable
  | temperature
  deriving DecidableEq, Repr

def Mismatch.text : Mismatch → PyStr
  | .composition => py "composition_mismatch"
  | .property => py "property_mismatch"
  | .method => py "method_mismatch"
  | .unitDimension => py "unit_dimension_mismatch"
  | .temperatureUnavailable => py "temperature_unavailable"
  | .temperature => py "temperature_mismatch"

/-- What `_pair_reason` says of two observations. -/
inductive PairReason (F : Type) where
  | matched (delta : Option F)
  | refused (reason : Mismatch)

section Host
variable {F M : Type} [PyFloat F] (X : CrossHost F M)

/-- `normalise_property`. -/
def normaliseProperty (value : PyStr) : Except CrossError PyStr := do
  let text ← required value (py "property_name")
  let folded := strip (Verification.collapse false (text.flatMap X.casefold))
  return (propertyAliases.lookup folded).getD (folded.map fun c => if c = 32 then 95 else c)

/-- `_normalise_unit`. -/
def normaliseUnit (value : PyStr) : PyStr :=
  ((value.flatMap X.casefold).filter fun c => !isSpace c).map fun c => if c = 183 then 42 else c

def raiseIf (p : Prop) [Decidable p] (issue : CrossIssue) : Except CrossError Unit :=
  if p then .error (.contract issue) else .ok ()

/-- `not math.isfinite(x) or x < 0`, where there is an x. -/
def Improper (x : Option F) : Prop :=
  ∃ y ∈ x, isFiniteFloat y = false ∨ isNonnegative y = false

instance (x : Option F) : Decidable (Improper x) :=
  inferInstanceAs (Decidable (∃ y ∈ x, _))

/-- `validate` of an observation. -/
def validate (o : MaterialObservation F) : Except CrossError Unit := do
  let _ ← required o.provider (py "provider")
  let _ ← required o.providerId (py "provider_id")
  let _ ← required o.composition (py "composition")
  let _ ← required o.propertyName (py "property_name")
  let _ ← required o.sourceLocator (py "source_locator")
  raiseIf (Events.isHash o.contentSha256 = false) .contentSha256
  raiseIf (isFiniteFloat o.value = false) .valueFinite
  raiseIf (Improper o.temperatureK) .temperature
  raiseIf (Improper o.uncertainty) .uncertainty
  raiseIf (units.lookup (normaliseUnit X o.unit) = none) .unsupportedUnit

/-- `validate` of a policy. -/
def MatchPolicy.validate (policy : MatchPolicy F) : Except CrossError Unit := do
  raiseIf (Improper (some policy.temperatureToleranceK))
    (.policyField (py "temperature_tolerance_k"))
  raiseIf (Improper (some policy.toleranceAbsolute)) (.policyField (py "tolerance_absolute"))
  raiseIf (Improper (some policy.toleranceRelative)) (.policyField (py "tolerance_relative"))

/-- `canonical_value`; the unit has been found by `validate`. -/
def canonicalValue (o : MaterialObservation F) : Except CrossError (PyStr × F) := do
  validate X o
  match units.lookup (normaliseUnit X o.unit) with
  | none => .error (.contract .unsupportedUnit)
  | some unit => .ok (unit.1, X.mul o.value (PyFloat.ofText unit.2))

def optionalFloat (x : Option F) : PyVal F := x.elim .none .float

/-- `observation_id`. -/
def observationId (o : MaterialObservation F) : Except CrossError PyStr := do
  let composition ← normaliseComposition X.formulas o.composition
  let property ← normaliseProperty X o.propertyName
  let payload : PyVal F := .dict [textItem "provider" o.provider,
    textItem "provider_id" o.providerId, textItem "composition" composition,
    textItem "property_name" property, (.str (py "value"), .float o.value),
    textItem "unit" o.unit, textItem "source_locator" o.sourceLocator,
    textItem "content_sha256" o.contentSha256,
    (.str (py "temperature_k"), optionalFloat o.temperatureK), textItem "method" o.method,
    (.str (py "uncertainty"), optionalFloat o.uncertainty)]
  let text ← (Events.canonicalJson payload).mapError .notJson
  match encode text with
  | none => .error .unicodeEncodeError
  | some bytes => .ok (py "observation-" ++ (X.sha256 bytes).take 16)

/-! ## Pairs -/

/-- The end of `_pair_reason`. -/
def temperatureReason (policy : MatchPolicy F) : Option F → Option F → PairReason F
  | none, none => .matched none
  | some a, some b =>
    if floatLt policy.temperatureToleranceK (X.abs (X.sub a b)) then .refused .temperature
    else .matched (some (X.abs (X.sub a b)))
  | _, _ => .refused .temperatureUnavailable

/-- `_pair_reason`. -/
def pairReason (policy : MatchPolicy F) (literature database : MaterialObservation F) :
    Except CrossError (PairReason F) := do
  let composition ← normaliseComposition X.formulas literature.composition
  let composition' ← normaliseComposition X.formulas database.composition
  if composition ≠ composition' then return .refused .composition
  let property ← normaliseProperty X literature.propertyName
  let property' ← normaliseProperty X database.propertyName
  if property ≠ property' then return .refused .property
  if policy.requireSameMethod = true ∧ literature.method ≠ database.method then
    return .refused .method
  let left ← canonicalValue X literature
  let right ← canonicalValue X database
  if left.1 ≠ right.1 then return .refused .unitDimension
  return temperatureReason X policy literature.temperatureK database.temperatureK

/-- A finite float by its number. -/
def numberOf (x : F) : ℚ :=
  match PyFloat.value x with
  | .finite q => q
  | _ => 0

/-- A candidate with the difference of the temperatures. -/
abbrev Candidate (F : Type) := MaterialObservation F × Option F

/-- `value[0], value[1].provider, value[1].provider_id`. -/
def closeness (c : Candidate F) : ℚ ×ₗ PyStr ×ₗ PyStr :=
  toLex (c.2.elim (-1) numberOf, toLex (c.1.provider, c.1.providerId))

def candidateOf (judged : MaterialObservation F × PairReason F) : Option (Candidate F) :=
  match judged.2 with
  | .matched delta => some (judged.1, delta)
  | .refused _ => none

def reasonOf (judged : MaterialObservation F × PairReason F) : Option PyStr :=
  match judged.2 with
  | .matched _ => none
  | .refused reason => some reason.text

def sameOptional : Option F → Option F → Bool
  | none, none => true
  | some x, some y => floatEq x y
  | _, _ => false

/-- `==` of the dataclass. -/
def sameObservation (a b : MaterialObservation F) : Bool :=
  a.provider == b.provider && a.providerId == b.providerId && a.composition == b.composition &&
    a.propertyName == b.propertyName && floatEq a.value b.value && a.unit == b.unit &&
    a.sourceLocator == b.sourceLocator && a.contentSha256 == b.contentSha256 &&
    sameOptional a.temperatureK b.temperatureK && a.method == b.method &&
    sameOptional a.uncertainty b.uncertainty

/-! ## The comparison -/

/-- `item.provider, item.provider_id, item.observation_id()`. -/
def databaseKey (o : MaterialObservation F) :
    Except CrossError (PyStr ×ₗ PyStr ×ₗ PyStr) := do
  let identifier ← observationId X o
  return toLex (o.provider, toLex (o.providerId, identifier))

/-- What the loop over the literature has done so far. -/
structure Progress (F : Type) where
  remaining : List (MaterialObservation F)
  comparisons : List (NumericComparison F)
  unmatched : List (PyStr × PyStr)

/-- The comparison of a pair. -/
def comparisonOf (policy : MatchPolicy F) (item : MaterialObservation F) (c : Candidate F) :
    Except CrossError (NumericComparison F) := do
  let left ← canonicalValue X item
  let right ← canonicalValue X c.1
  let residual := X.sub right.2 left.2
  let relative := X.mul (X.abs left.2) policy.toleranceRelative
  let tolerance :=
    if floatLt policy.toleranceAbsolute relative then relative else policy.toleranceAbsolute
  let literatureId ← observationId X item
  let databaseId ← observationId X c.1
  let composition ← normaliseComposition X.formulas item.composition
  let property ← normaliseProperty X item.propertyName
  return ⟨literatureId, databaseId, composition, property, left.2, right.2, left.1, residual, c.2,
    floatLe (X.abs residual) tolerance⟩

/-- `sorted(set(reasons))[0] if reasons else "no_provider_observation"`. -/
def firstReason (reasons : List PyStr) : PyStr :=
  ((reasons.insertionSort (· ≤ ·)).head?).getD (py "no_provider_observation")

/-- One turn of the loop over the literature. -/
def matchItem (policy : MatchPolicy F) (progress : Progress F) (item : MaterialObservation F) :
    Except CrossError (Progress F) := do
  let judged ← progress.remaining.mapM fun candidate => do
    return (candidate, ← pairReason X policy item candidate)
  match (judged.filterMap candidateOf).argmin closeness with
  | none =>
    let identifier ← observationId X item
    return { progress with
      unmatched := progress.unmatched ++ [(identifier, firstReason (judged.filterMap reasonOf))] }
  | some c =>
    let comparison ← comparisonOf X policy item c
    return { progress with
      remaining := progress.remaining.eraseP (sameObservation c.1)
      comparisons := progress.comparisons ++ [comparison] }

end Host

end CrossValidation
