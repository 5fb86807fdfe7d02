import VeriMat.PyText

/-! # JSON text

The compact renderer and the reader of Python's json module over `str`. Objects keep their
members in text order, repeated keys included; `Json.dedup` is the dict built from them. The
reader counts down fuel, and `loads` gives it more than any text can use. -/
namespace JsonText

open PyText

/-! ## Numbers -/

def isDigit (c : ℕ) : Bool := 48 ≤ c && c ≤ 57

/-- The characters a JSON number can go on with. -/
def isNumeric (c : ℕ) : Bool :=
  isDigit c || c == 46 || c == 101 || c == 69 || c == 43 || c == 45

def scanInt : PyStr → Option (PyStr × PyStr)
  | [] => none
  | c :: r =>
    if c = 48 then some ([48], r)
    else if isDigit c then some (c :: r.takeWhile isDigit, r.dropWhile isDigit)
    else none

def scanFrac : PyStr → PyStr × PyStr
  | c :: d :: r =>
    if c = 46 ∧ isDigit d then (c :: d :: r.takeWhile isDigit, r.dropWhile isDigit)
    else ([], c :: d :: r)
  | r => ([], r)

/-- An optional sign in front of an exponent's digits. -/
def scanExpSign : PyStr → PyStr × PyStr
  | [] => ([], [])
  | c :: r => if c = 43 ∨ c = 45 then ([c], r) else ([], c :: r)

def scanExp : PyStr → PyStr × PyStr
  | [] => ([], [])
  | c :: r =>
    if (c = 101 ∨ c = 69) ∧ (scanExpSign r).2.takeWhile isDigit ≠ [] then
      (c :: (scanExpSign r).1 ++ (scanExpSign r).2.takeWhile isDigit,
        (scanExpSign r).2.dropWhile isDigit)
    else ([], c :: r)

def scanMinus : PyStr → PyStr × PyStr
  | [] => ([], [])
  | c :: r => if c = 45 then ([c], r) else ([], c :: r)

/-- The longest JSON number at the front of a text, whether it has a fraction or an exponent,
and what follows it. -/
def scanNumber (s : PyStr) : Option (PyStr × Bool × PyStr) :=
  match scanInt (scanMinus s).2 with
  | none => none
  | some (i, r) =>
    let f := scanFrac r
    let e := scanExp f.2
    some ((scanMinus s).1 ++ i ++ f.1 ++ e.1, f.1 ≠ [] ∨ e.1 ≠ [], e.2)

/-- `int(text)` for the text of a JSON integer. -/
def digitsValue (s : PyStr) : ℕ := s.foldl (fun a c => 10 * a + (c - 48)) 0

def intOfText (s : PyStr) : ℤ :=
  match s with
  | [] => 0
  | c :: r => if c = 45 then -(digitsValue r : ℤ) else digitsValue (c :: r)

def decimal (n : ℕ) : PyStr :=
  if n = 0 then [48] else (Nat.digits 10 n).reverse.map (48 + ·)

/-- `int.__repr__`. -/
def intText (n : ℤ) : PyStr := if n < 0 then 45 :: decimal n.natAbs else decimal n.natAbs

/-- The numbers a float stands for; only the finite ones can be written as JSON. -/
inductive FloatValue where
  | finite (q : ℚ)
  | nan
  | inf
  | negInf

def FloatValue.isFinite : FloatValue → Bool
  | .finite _ => true
  | _ => false

/-- What the json module asks of `float`: reading a literal, `float.__repr__`, and that a
finite float's repr is a JSON number which is not an integer and reads back to that float. -/
class PyFloat (F : Type) where
  ofText : PyStr → F
  repr : F → PyStr
  value : F → FloatValue
  nan : F
  inf : F
  negInf : F
  value_nan : value nan = .nan
  value_inf : value inf = .inf
  value_negInf : value negInf = .negInf
  ofText_repr : ∀ x, (value x).isFinite = true → ofText (repr x) = x
  scan_repr : ∀ x, (value x).isFinite = true → scanNumber (repr x) = some (repr x, true, [])

/-- The three floats JSON has no number for, for runs in which no other float occurs. -/
inductive NonFinite where
  | nan
  | inf
  | negInf
  deriving DecidableEq, Repr

instance : PyFloat NonFinite where
  ofText _ := .nan
  repr
    | .nan => py "nan"
    | .inf => py "inf"
    | .negInf => py "-inf"
  value
    | .nan => .nan
    | .inf => .inf
    | .negInf => .negInf
  nan := .nan
  inf := .inf
  negInf := .negInf
  value_nan := rfl
  value_inf := rfl
  value_negInf := rfl
  ofText_repr x h := by cases x <;> cases h
  scan_repr x h := by cases x <;> cases h

/-! ## Values -/

inductive Json (F : Type) where
  | null
  | bool (b : Bool)
  | int (n : ℤ)
  | float (x : F)
  | str (s : PyStr)
  | arr (xs : List (Json F))
  | obj (kvs : List (PyStr × Json F))

/-- Induction over a JSON value, with the hypothesis for every member of an array or object. -/
@[elab_as_elim]
theorem Json.nested {F : Type} {P : Json F → Prop} (null : P .null) (bool : ∀ b, P (.bool b))
    (int : ∀ n, P (.int n)) (float : ∀ x, P (.float x)) (str : ∀ s, P (.str s))
    (arr : ∀ xs, (∀ x ∈ xs, P x) → P (.arr xs))
    (obj : ∀ kvs, (∀ p ∈ kvs, P p.2) → P (.obj kvs)) (j : Json F) : P j := by
  refine @Json.rec F P (fun xs => ∀ x ∈ xs, P x) (fun kvs => ∀ p ∈ kvs, P p.2)
    (fun p => P p.2) null bool int float str arr obj ?_ ?_ ?_ ?_ ?_ j
  · simp
  · intro x xs hx hxs
    exact List.forall_mem_cons.mpr ⟨hx, hxs⟩
  · simp
  · intro p kvs hp hkvs
    exact List.forall_mem_cons.mpr ⟨hp, hkvs⟩
  · intro k v hv
    exact hv

def hexDigit (n : ℕ) : ℕ := if n < 10 then 48 + n else 87 + n

/-- `ESCAPE_DCT` of the json encoder without ASCII escaping. -/
def escapeChar (c : ℕ) : PyStr :=
  if c = 34 then [92, 34]
  else if c = 92 then [92, 92]
  else if c = 8 then [92, 98]
  else if c = 9 then [92, 116]
  else if c = 10 then [92, 110]
  else if c = 12 then [92, 102]
  else if c = 13 then [92, 114]
  else if c < 32 then [92, 117, 48, 48, hexDigit (c / 16), hexDigit (c % 16)]
  else [c]

def escape (s : PyStr) : PyStr := s.flatMap escapeChar

def quote (s : PyStr) : PyStr := 34 :: escape s ++ [34]

variable {F : Type} [PyFloat F]

mutual

def render : Json F → PyStr
  | .null => [110, 117, 108, 108]
  | .bool true => [116, 114, 117, 101]
  | .bool false => [102, 97, 108, 115, 101]
  | .int n => intText n
  | .float x => PyFloat.repr x
  | .str s => quote s
  | .arr [] => [91, 93]
  | .arr (x :: xs) => 91 :: render x ++ renderElems xs
  | .obj [] => [123, 125]
  | .obj ((k, v) :: kvs) => 123 :: quote k ++ 58 :: render v ++ renderMembers kvs

/-- The elements after the first, each behind its comma, and the closing bracket. -/
def renderElems : List (Json F) → PyStr
  | [] => [93]
  | x :: xs => 44 :: render x ++ renderElems xs

/-- The members after the first, each behind its comma, and the closing brace. -/
def renderMembers : List (PyStr × Json F) → PyStr
  | [] => [125]
  | (k, v) :: kvs => 44 :: quote k ++ 58 :: render v ++ renderMembers kvs

end

/-! ## Reading -/

def isWs (c : ℕ) : Bool := c == 32 || c == 9 || c == 10 || c == 13

def skipWs (s : PyStr) : PyStr := s.dropWhile isWs

def hexValue (c : ℕ) : Option ℕ :=
  if 48 ≤ c ∧ c ≤ 57 then some (c - 48)
  else if 97 ≤ c ∧ c ≤ 102 then some (c - 87)
  else if 65 ≤ c ∧ c ≤ 70 then some (c - 55)
  else none

/-- The four hexadecimal digits of a `\u` escape. -/
def scanHex4 : PyStr → Option (ℕ × PyStr)
  | a :: b :: c :: d :: r =>
    match hexValue a, hexValue b, hexValue c, hexValue d with
    | some a, some b, some c, some d => some (a * 4096 + b * 256 + c * 16 + d, r)
    | _, _, _, _ => none
  | _ => none

/-- The low half of a surrogate pair written as a second `\u` escape. -/
def scanLowSurrogate : PyStr → Option (ℕ × PyStr)
  | a :: b :: r =>
    if a = 92 ∧ b = 117 then
      match scanHex4 r with
      | some (u, r) => if 0xDC00 ≤ u ∧ u < 0xE000 then some (u, r) else none
      | none => none
    else none
  | _ => none

/-- The code point of a `\u` escape: two adjacent surrogate escapes make one code point. -/
def scanUnicodeEscape (s : PyStr) : Option (ℕ × PyStr) :=
  match scanHex4 s with
  | none => none
  | some (u, r) =>
    if 0xD800 ≤ u ∧ u < 0xDC00 then
      match scanLowSurrogate r with
      | some (l, r) => some (0x10000 + (u - 0xD800) * 1024 + (l - 0xDC00), r)
      | none => some (u, r)
    else some (u, r)

/-- One escape after its backslash. -/
def scanEscape : PyStr → Option (ℕ × PyStr)
  | [] => none
  | c :: r =>
    if c = 34 then some (34, r)
    else if c = 92 then some (92, r)
    else if c = 47 then some (47, r)
    else if c = 98 then some (8, r)
    else if c = 102 then some (12, r)
    else if c = 110 then some (10, r)
    else if c = 114 then some (13, r)
    else if c = 116 then some (9, r)
    else if c = 117 then scanUnicodeEscape r
    else none

/-- The rest of a string literal after its opening quote; control characters must be escaped. -/
def scanString : ℕ → PyStr → Option (PyStr × PyStr)
  | 0, _ => none
  | _ + 1, [] => none
  | n + 1, c :: r =>
    if c = 34 then some ([], r)
    else if c = 92 then
      match scanEscape r with
      | none => none
      | some (u, r) => (scanString n r).map fun p => (u :: p.1, p.2)
    else if c < 32 then none
    else (scanString n r).map fun p => (c :: p.1, p.2)

/-- `w` at the front of a text. -/
def scanWord : PyStr → PyStr → Option PyStr
  | [], r => some r
  | _ :: _, [] => none
  | w :: ws, c :: r => if c = w then scanWord ws r else none

def numberValue (p : PyStr × Bool × PyStr) : Json F × PyStr :=
  (if p.2.1 then .float (PyFloat.ofText p.1) else .int (intOfText p.1), p.2.2)

/-- Everything a value can start with besides a quote, a brace or a bracket. -/
def scanAtom (s : PyStr) : Option (Json F × PyStr) :=
  if let some r := scanWord [110, 117, 108, 108] s then some (.null, r)
  else if let some r := scanWord [116, 114, 117, 101] s then some (.bool true, r)
  else if let some r := scanWord [102, 97, 108, 115, 101] s then some (.bool false, r)
  else if let some p := scanNumber s then some (numberValue p)
  else if let some r := scanWord [78, 97, 78] s then some (.float PyFloat.nan, r)
  else if let some r := scanWord (py "Infinity") s then some (.float PyFloat.inf, r)
  else if let some r := scanWord (py "-Infinity") s then some (.float PyFloat.negInf, r)
  else none

mutual

def scanValue : ℕ → PyStr → Option (Json F × PyStr)
  | 0, _ => none
  | _ + 1, [] => none
  | n + 1, c :: r =>
    if c = 34 then (scanString r.length r).map fun p => (.str p.1, p.2)
    else if c = 123 then
      match skipWs r with
      | [] => none
      | d :: r =>
        if d = 125 then some (.obj [], r)
        else (scanMembers n (d :: r)).map fun p => (.obj p.1, p.2)
    else if c = 91 then
      match skipWs r with
      | [] => none
      | d :: r =>
        if d = 93 then some (.arr [], r)
        else (scanElems n (d :: r)).map fun p => (.arr p.1, p.2)
    else scanAtom (c :: r)

/-- Members from a key's opening quote to the closing brace. -/
def scanMembers : ℕ → PyStr → Option (List (PyStr × Json F) × PyStr)
  | 0, _ => none
  | _ + 1, [] => none
  | n + 1, c :: r =>
    if c = 34 then
      match scanString r.length r with
      | none => none
      | some (k, r) =>
        match skipWs r with
        | [] => none
        | d :: r =>
          if d = 58 then
            match scanValue n (skipWs r) with
            | none => none
            | some (v, r) =>
              match skipWs r with
              | [] => none
              | e :: r =>
                if e = 125 then some ([(k, v)], r)
                else if e = 44 then
                  (scanMembers n (skipWs r)).map fun p => ((k, v) :: p.1, p.2)
                else none
          else none
    else none

/-- Elements from the first one to the closing bracket. -/
def scanElems : ℕ → PyStr → Option (List (Json F) × PyStr)
  | 0, _ => none
  | n + 1, r =>
    match scanValue n r with
    | none => none
    | some (v, r) =>
      match skipWs r with
      | [] => none
      | e :: r =>
        if e = 93 then some ([v], r)
        else if e = 44 then (scanElems n (skipWs r)).map fun p => (v :: p.1, p.2)
        else none

end

/-- One JSON value and nothing else but white space; a leading byte order mark is refused. -/
def parse (s : PyStr) : Option (Json F) :=
  if s.head? = some 0xFEFF then none
  else
    match scanValue (s.length + 1) (skipWs s) with
    | some (v, r) => if skipWs r = [] then some v else none
    | none => none

/-! ## Dicts -/

/-- `dict.__setitem__` on members in insertion order: a known key keeps its place. -/
def setItem {α β : Type} [DecidableEq α] (k : α) (v : β) : List (α × β) → List (α × β)
  | [] => [(k, v)]
  | p :: ps => if p.1 = k then (k, v) :: ps else p :: setItem k v ps

/-- The dict built from members taken in order. -/
def ofPairs {α β : Type} [DecidableEq α] (kvs : List (α × β)) : List (α × β) :=
  kvs.foldl (fun d p => setItem p.1 p.2 d) []

mutual

def Json.dedup : Json F → Json F
  | .arr xs => .arr (dedupElems xs)
  | .obj kvs => .obj (ofPairs (dedupMembers kvs))
  | j => j

def dedupElems : List (Json F) → List (Json F)
  | [] => []
  | x :: xs => x.dedup :: dedupElems xs

def dedupMembers : List (PyStr × Json F) → List (PyStr × Json F)
  | [] => []
  | (k, v) :: kvs => (k, v.dedup) :: dedupMembers kvs

end

/-- `json.loads`; `none` is the JSONDecodeError. -/
def loads (s : PyStr) : Option (Json F) := (parse s).map Json.dedup

end JsonText
