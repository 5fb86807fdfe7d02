import VeriMat.ModelTransports

/-! # Claims, passages and quotes

What the method variants and the oracle share: the claim, the passage read from a search hit, the
quote gate of `survey/records.py`, and the services they call. A service may answer anything and
may change with every call; the world is whatever the services keep. -/
namespace Verification

open PyText JsonText PyValue PyDisplay Events ModelTransports
open DecisionGraph (Payload getItem)

variable {F W : Type}

/-! ## Records -/

/-- A `Claim`. -/
structure Claim where
  claimId : PyStr
  relationId : PyStr
  material : PyStr
  structuralFeature : PyStr
  propertyName : PyStr
  direction : PyStr
  quote : PyStr
  passageId : PyStr
  composition : PyStr
  value : PyStr
  unit : PyStr
  deriving DecidableEq, Repr

/-- `as_dict`. -/
def Claim.asDict (c : Claim) : PyVal F :=
  .dict [(.str (py "claim_id"), .str c.claimId), (.str (py "relation_id"), .str c.relationId),
    (.str (py "material"), .str c.material),
    (.str (py "structural_feature"), .str c.structuralFeature),
    (.str (py "property_name"), .str c.propertyName), (.str (py "direction"), .str c.direction),
    (.str (py "quote"), .str c.quote), (.str (py "passage_id"), .str c.passageId),
    (.str (py "composition"), .str c.composition), (.str (py "value"), .str c.value),
    (.str (py "unit"), .str c.unit)]

/-- A passage as it is judged, with the search hit it was read from, which the code forgets. -/
structure Passage (F : Type) where
  ref : PyStr
  text : PyStr
  hit : Payload F

/-! ## Quotes -/

/-- The interpreter's tables: how values are shown and characters folded, and the digests. -/
structure Interpreter where
  display : Display
  casefold : ℕ → PyStr
  sha256 : PyBytes → PyStr

/-- `_WHITESPACE.sub(" ", text)`, inside or outside a run of white space. -/
def collapse : Bool → PyStr → PyStr
  | _, [] => []
  | inRun, c :: text =>
    if isSpace c then (if inRun then [] else [32]) ++ collapse true text
    else c :: collapse false text

/-- `normalise_quote`. -/
def Interpreter.normaliseQuote (I : Interpreter) (text : PyStr) : PyStr :=
  (strip (collapse false text)).flatMap I.casefold

/-- `normalise_quote(quote) in normalise_quote(text)`. -/
def Interpreter.quoted (I : Interpreter) (quote text : PyStr) : Bool :=
  decide (I.normaliseQuote quote <:+: I.normaliseQuote text)

/-- The part of a passage that a model is shown. -/
def shown (text : PyStr) : PyStr := text.take 4000

/-! ## Services -/

/-- What `agentic_search` is asked: the query, the years of the filters and `top_k`. -/
structure SearchRequest where
  query : PyStr
  yearFrom : ℤ
  yearTo : ℤ
  topK : ℤ
  deriving DecidableEq, Repr

/-- The constant system text of a model call, with its schema. -/
inductive Prompt where
  | verify
  | refine
  | oracle
  deriving DecidableEq, Repr

structure ModelRequest where
  operationId : PyStr
  prompt : Prompt
  user : PyStr
  deriving DecidableEq, Repr

structure DatabaseRequest where
  composition : PyStr
  propertyName : PyStr
  operationId : PyStr
  deriving DecidableEq, Repr

/-- The services: hits, the text of a response or the text of the exception, and how many
observations a database returns. -/
structure Services (F W : Type) where
  agenticSearch : SearchRequest → W → Except Unit (List (PyVal F)) × W
  complete : ModelRequest → W → Except PyStr PyStr × W
  observations : Option (DatabaseRequest → W → Except PyStr ℕ × W)

/-- An answer of the transport about a passage. -/
structure Heard (F : Type) where
  passage : Passage F
  reply : Except PyStr PyStr

/-- `[h for h in hits if isinstance(h, dict)]`. -/
def dicts (values : List (PyVal F)) : List (Payload F) :=
  values.filterMap fun v =>
    match v with
    | .dict kvs => some kvs
    | _ => none

section Hits
variable [PyFloat F]

/-- `str(hit.get(key) or "")`. -/
def textOf (I : Interpreter) (hit : Payload F) (key : PyStr) : PyStr :=
  strOf I.display (orDefault (getItem hit key) (.str []))

/-- `bool(value.get(key))`. -/
def flagOf (value : Payload F) (key : PyStr) : Bool := truthy ((getItem value key).getD .none)

/-- The year a hit states, as a whole number. -/
def statedYear (hit : Payload F) : Option ℤ :=
  match getItem hit (py "publication_published_year") with
  | some (.int year) => some year
  | _ => none

end Hits

end Verification
