import VeriMat.JsonRoundTrip
import VeriMat.ModelTransports
import VeriMat.PrimitiveRatios
import VeriMat.PyDict

/-! # Chemical formulas

`normalise_composition` of `materials/cross_validation.py`: a flat formula is read into the exact
amounts of its elements and written with the elements in order and the amounts in the ratio of
coprime naturals. -/
namespace Formulas

open PyText JsonText PyValue PyDict ModelTransports PrimitiveRatios

/-! ## Exceptions -/

/-- What the text of a `CrossValidationError` says. -/
inductive CrossIssue where
  | required (name : PyStr)
  | compositionFlat
  | formulaToken
  | contentSha256
  | valueFinite
  | temperature
  | uncertainty
  | unsupportedUnit
  | policyField (name : PyStr)
  deriving DecidableEq, Repr

/-- An exception of this module: one of its own, or one of Python's. -/
inductive CrossError where
  | contract (issue : CrossIssue)
  | valueError
  | zeroDivision
  | overflow
  | notJson (cause : JsonError)
  | unicodeEncodeError
  deriving DecidableEq, Repr

/-- `_required`. -/
def required (value name : PyStr) : Except CrossError PyStr :=
  if strip value = [] then .error (.contract (.required name)) else .ok (strip value)

/-! ## Reading -/

/-- What Python gives a formula: how many digits `int` takes, and how a float is written. -/
structure FormulaHost where
  digitLimit : ℕ
  /-- `str(float(q))`, or none where the float overflows. -/
  floatText : ℚ → Option PyStr
  limit : 640 ≤ digitLimit
  floatText_nat : ∀ n : ℕ, n ≤ 2 ^ 53 → floatText n = some (decimal n ++ [46, 48])

def isUpper (c : ℕ) : Bool := 65 ≤ c && c ≤ 90

def isLower (c : ℕ) : Bool := 97 ≤ c && c ≤ 122

/-- `[A-Z][a-z]?` at the front, and the rest. -/
def scanElement : PyStr → Option (PyStr × PyStr)
  | [] => none
  | [c] => if isUpper c then some ([c], []) else none
  | c :: d :: r =>
    if isUpper c then
      if isLower d then some ([c, d], r) else some ([c], d :: r)
    else none

/-- `([0-9]+(?:\.[0-9]+)?)?` at the front, its two parts, and the rest. -/
def scanAmount (s : PyStr) : (PyStr × PyStr) × PyStr :=
  let whole := s.takeWhile isDigit
  if whole = [] then (([], []), s)
  else
    let fraction := scanFrac (s.dropWhile isDigit)
    ((whole, fraction.1.drop 1), fraction.2)

/-- `Fraction(raw_amount or "1")`. -/
def fractionOf (H : FormulaHost) (whole decimals : PyStr) : Except CrossError ℚ :=
  if whole = [] then .ok 1
  else if H.digitLimit < whole.length ∨ H.digitLimit < decimals.length then .error .valueError
  else .ok (digitsValue whole + digitsValue decimals / 10 ^ decimals.length)

/-- `for match in _FORMULA_PART.finditer(compact)`, with the length of the text as fuel. -/
def scanParts (H : FormulaHost) : ℕ → PyStr → Except CrossError (List (PyStr × ℚ))
  | _, [] => .ok []
  | 0, _ :: _ => .error (.contract .formulaToken)
  | fuel + 1, c :: r =>
    match scanElement (c :: r) with
    | none => .error (.contract .formulaToken)
    | some (element, r₁) => do
      let amount ← fractionOf H (scanAmount r₁).1.1 (scanAmount r₁).1.2
      let parts ← scanParts H fuel (scanAmount r₁).2
      return (element, amount) :: parts

/-- `totals[element] = totals.get(element, Fraction()) + amount`. -/
def addPart (totals : Dict PyStr ℚ) (part : PyStr × ℚ) : Dict PyStr ℚ :=
  totals.set part.1 ((totals.get part.1).getD 0 + part.2)

/-- `character in "()[]+-"`. -/
def isBracket (c : ℕ) : Bool := py "()[]+-" |>.contains c

/-- The totals of a formula, its spaces removed. -/
def totalsOf (H : FormulaHost) (value : PyStr) : Except CrossError (Dict PyStr ℚ) := do
  let text ← required value (py "composition")
  let compact := text.filter fun c => !isSpace c
  if compact.any isBracket then throw (.contract .compositionFlat)
  let parts ← scanParts H compact.length compact
  return parts.foldl addPart empty

/-! ## Writing -/

def stripEnd (c : ℕ) (s : PyStr) : PyStr := (s.reverse.dropWhile (· == c)).reverse

/-- `"" if amount == 1 else str(float(amount)).rstrip("0").rstrip(".")`. -/
def amountText (H : FormulaHost) (amount : ℚ) : Except CrossError PyStr :=
  if amount = 1 then .ok []
  else
    match H.floatText amount with
    | none => .error .overflow
    | some text => .ok (stripEnd 46 (stripEnd 48 text))

/-- `for element in sorted(totals)`. -/
def renderAll (H : FormulaHost) (totals : Dict PyStr ℚ) : List PyStr → Except CrossError PyStr
  | [] => .ok []
  | element :: elements => do
    let number ← amountText H (reduced totals.values ((totals.get element).getD 0))
    let rendered ← renderAll H totals elements
    return element ++ number ++ rendered

def elementsOf (totals : Dict PyStr ℚ) : List PyStr :=
  (totals.items.map Prod.fst).insertionSort (· ≤ ·)

/-- `normalise_composition`. -/
def normaliseComposition (H : FormulaHost) (value : PyStr) : Except CrossError PyStr := do
  let totals ← totalsOf H value
  if divisor totals.values = 0 then throw .zeroDivision
  renderAll H totals (elementsOf totals)

end Formulas
