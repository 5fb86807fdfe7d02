import VeriMat.JsonPrefix

/-! # Python values and json.dumps

`lower` is what `json.dumps` with `sort_keys=True` and `allow_nan=False` makes of a Python
value before it writes it down: dict items are sorted as Python sorts their keys and only then
are the keys turned into text, and a tuple becomes an array. -/
namespace PyValue

open PyText JsonText

/-- The dict keys json.dumps takes. -/
inductive PyKey (F : Type) where
  | str (s : PyStr)
  | int (n : ℤ)
  | float (x : F)
  | bool (b : Bool)
  | none

/-- `other` is any object json.dumps refuses. -/
inductive PyVal (F : Type) where
  | none
  | bool (b : Bool)
  | int (n : ℤ)
  | float (x : F)
  | str (s : PyStr)
  | list (xs : List (PyVal F))
  | tuple (xs : List (PyVal F))
  | dict (kvs : List (PyKey F × PyVal F))
  | other

/-- The exceptions of json.dumps. -/
inductive JsonError where
  | typeError
  | valueError
  deriving DecidableEq, Repr

variable {F : Type} [PyFloat F]

def PyKey.isStr : PyKey F → Bool
  | .str _ => true
  | _ => false

def PyKey.isNumber : PyKey F → Bool
  | .int _ | .float _ | .bool _ => true
  | _ => false

/-- The text a `str` key sorts by. -/
def PyKey.strValue : PyKey F → PyStr
  | .str s => s
  | _ => []

/-- The value a numeric key sorts by; a key that is not finite fails wherever it stands. -/
def PyKey.number : PyKey F → ℚ
  | .int n => n
  | .bool true => 1
  | .float x =>
    match PyFloat.value x with
    | .finite q => q
    | _ => 0
  | _ => 0

/-- The member name json.dumps writes for a key. -/
def PyKey.jsonText : PyKey F → PyStr
  | .str s => s
  | .int n => intText n
  | .float x => PyFloat.repr x
  | .bool true => py "true"
  | .bool false => py "false"
  | .none => py "null"

def PyKey.isFinite : PyKey F → Bool
  | .float x => (PyFloat.value x).isFinite
  | _ => true

/-- Items in the order of their string keys. -/
def strLE {α : Type} (a b : PyKey F × α) : Prop := a.1.strValue ≤ b.1.strValue

/-- Items in the order of their numeric keys. -/
def numberLE {α : Type} (a b : PyKey F × α) : Prop := a.1.number ≤ b.1.number

instance {α : Type} : DecidableRel (strLE (F := F) (α := α)) :=
  fun a b => inferInstanceAs (Decidable (a.1.strValue ≤ b.1.strValue))

instance {α : Type} : DecidableRel (numberLE (F := F) (α := α)) :=
  fun a b => inferInstanceAs (Decidable (a.1.number ≤ b.1.number))

/-- `sorted(d.items())`: `<` is defined between two strings and between two numbers only. -/
def sortItems {α : Type} (items : List (PyKey F × α)) :
    Except JsonError (List (PyKey F × α)) :=
  if items.all (·.1.isStr) then .ok (items.insertionSort strLE)
  else if items.all (·.1.isNumber) then .ok (items.insertionSort numberLE)
  else if items.length ≤ 1 then .ok items
  else .error .typeError

/-- The members in the order they are written, the first failure ending the work. -/
def lowerMembers :
    List (PyKey F × Except JsonError (Json F)) → Except JsonError (List (PyStr × Json F))
  | [] => .ok []
  | (k, r) :: items =>
    if k.isFinite then
      match r with
      | .error e => .error e
      | .ok j => (lowerMembers items).map ((k.jsonText, j) :: ·)
    else .error .valueError

mutual

def lower : PyVal F → Except JsonError (Json F)
  | .none => .ok .null
  | .bool b => .ok (.bool b)
  | .int n => .ok (.int n)
  | .float x => if (PyFloat.value x).isFinite then .ok (.float x) else .error .valueError
  | .str s => .ok (.str s)
  | .list xs => (lowerElems xs).map .arr
  | .tuple xs => (lowerElems xs).map .arr
  | .dict kvs =>
    match sortItems (lowerItems kvs) with
    | .error e => .error e
    | .ok items => (lowerMembers items).map .obj
  | .other => .error .typeError

def lowerElems : List (PyVal F) → Except JsonError (List (Json F))
  | [] => .ok []
  | x :: xs =>
    match lower x with
    | .error e => .error e
    | .ok j => (lowerElems xs).map (j :: ·)

def lowerItems : List (PyKey F × PyVal F) → List (PyKey F × Except JsonError (Json F))
  | [] => []
  | (k, v) :: kvs => (k, lower v) :: lowerItems kvs

end

/-- `json.dumps(value, ensure_ascii=False, sort_keys=True, separators=(",", ":"),
allow_nan=False)`. -/
def dumps (v : PyVal F) : Except JsonError PyStr := (lower v).map render

mutual

/-- The Python value json.loads builds for a JSON value. -/
def ofJson : Json F → PyVal F
  | .null => .none
  | .bool b => .bool b
  | .int n => .int n
  | .float x => .float x
  | .str s => .str s
  | .arr xs => .list (ofElems xs)
  | .obj kvs => .dict (ofMembers kvs)

def ofElems : List (Json F) → List (PyVal F)
  | [] => []
  | x :: xs => ofJson x :: ofElems xs

def ofMembers : List (PyStr × Json F) → List (PyKey F × PyVal F)
  | [] => []
  | (k, v) :: kvs => (.str k, ofJson v) :: ofMembers kvs

end

/-! ## Equality -/

def numberOf : PyVal F → Option FloatValue
  | .bool b => some (.finite (if b then 1 else 0))
  | .int n => some (.finite n)
  | .float x => some (PyFloat.value x)
  | _ => none

/-- `==` between two numbers, whichever their types. -/
def sameNumber : Option FloatValue → Option FloatValue → Bool
  | some (.finite p), some (.finite q) => p == q
  | some .inf, some .inf => true
  | some .negInf, some .negInf => true
  | _, _ => false

def PyKey.toVal : PyKey F → PyVal F
  | .str s => .str s
  | .int n => .int n
  | .float x => .float x
  | .bool b => .bool b
  | .none => .none

/-- `==` between two dict keys. -/
def sameKey : PyKey F → PyKey F → Bool
  | .str s, .str t => s == t
  | .none, .none => true
  | a, b => sameNumber (numberOf a.toVal) (numberOf b.toVal)

mutual

/-- `a == b`: dicts compare without regard to the order of their items. -/
def pyEq : PyVal F → PyVal F → Bool
  | .none, .none => true
  | .str s, .str t => s == t
  | .list xs, .list ys => pyEqElems xs ys
  | .tuple xs, .tuple ys => pyEqElems xs ys
  | .dict kvs, .dict kvs' => kvs.length == kvs'.length && pyEqItems kvs kvs'
  | a, b => sameNumber (numberOf a) (numberOf b)

def pyEqElems : List (PyVal F) → List (PyVal F) → Bool
  | [], [] => true
  | x :: xs, y :: ys => pyEq x y && pyEqElems xs ys
  | _, _ => false

/-- Every item of the first dict has its equal in the second. -/
def pyEqItems : List (PyKey F × PyVal F) → List (PyKey F × PyVal F) → Bool
  | [], _ => true
  | (k, v) :: kvs, d =>
    (match d.find? fun p => sameKey k p.1 with
      | some p => pyEq v p.2
      | none => false) && pyEqItems kvs d

end

/-! ## Sorted objects -/

/-- Member names in the order `sorted` leaves strings in. -/
def nameLE (a b : PyStr × Json F) : Prop := a.1 ≤ b.1

instance : DecidableRel (nameLE (F := F)) := fun a b => inferInstanceAs (Decidable (a.1 ≤ b.1))

mutual

def sortNames : Json F → Json F
  | .arr xs => .arr (sortElems xs)
  | .obj kvs => .obj ((sortMembers kvs).insertionSort nameLE)
  | j => j

def sortElems : List (Json F) → List (Json F)
  | [] => []
  | x :: xs => sortNames x :: sortElems xs

def sortMembers : List (PyStr × Json F) → List (PyStr × Json F)
  | [] => []
  | (k, v) :: kvs => (k, sortNames v) :: sortMembers kvs

end

mutual

/-- Every object lists its members in strictly increasing order of their names. -/
def NamesSorted : Json F → Prop
  | .arr xs => ElemsSorted xs
  | .obj kvs => (kvs.map Prod.fst).Pairwise (· < ·) ∧ MembersSorted kvs
  | _ => True

def ElemsSorted : List (Json F) → Prop
  | [] => True
  | x :: xs => NamesSorted x ∧ ElemsSorted xs

def MembersSorted : List (PyStr × Json F) → Prop
  | [] => True
  | (_, v) :: kvs => NamesSorted v ∧ MembersSorted kvs

end

omit [PyFloat F] in
theorem sortMembers_names (kvs : List (PyStr × Json F)) :
    (sortMembers kvs).map Prod.fst = kvs.map Prod.fst := by
  induction kvs with
  | nil => rfl
  | cons p kvs ih => simp [sortMembers, ih]

omit [PyFloat F] in
theorem dedupMembers_names (kvs : List (PyStr × Json F)) :
    (dedupMembers kvs).map Prod.fst = kvs.map Prod.fst := by
  induction kvs with
  | nil => rfl
  | cons p kvs ih => simp [dedupMembers, ih]

end PyValue
