import VeriMat.PyValue

/-! # str and repr

`str(value)` for the values JSON has, and `hash(value)` as whether it raises. A string is its
own text; every other value is shown as `repr` shows it. Which characters are printable is the
interpreter's Unicode table, a parameter here, as is the text of an object JSON has no value
for. -/
namespace PyDisplay

open PyText JsonText PyValue

structure Display where
  isPrintable : ℕ → Bool
  object : PyStr

/-- The last `width` hexadecimal digits of a number. -/
def hexText : ℕ → ℕ → PyStr
  | 0, _ => []
  | width + 1, n => hexText width (n / 16) ++ [hexDigit (n % 16)]

/-- One character of a string's repr between these quotes. -/
def reprChar (D : Display) (quote c : ℕ) : PyStr :=
  if c = quote ∨ c = 92 then [92, c]
  else if c = 9 then [92, 116]
  else if c = 10 then [92, 110]
  else if c = 13 then [92, 114]
  else if c < 32 ∨ c = 127 then [92, 120] ++ hexText 2 c
  else if c < 127 ∨ D.isPrintable c then [c]
  else if c < 256 then [92, 120] ++ hexText 2 c
  else if c < 65536 then [92, 117] ++ hexText 4 c
  else [92, 85] ++ hexText 8 c

/-- Single quotes, unless the string has some and no double ones. -/
def reprStr (D : Display) (s : PyStr) : PyStr :=
  let quote := if s.contains 39 && !s.contains 34 then 34 else 39
  quote :: s.flatMap (reprChar D quote) ++ [quote]

/-- `", ".join(texts)`. -/
def joinTexts (texts : List PyStr) : PyStr := List.intercalate (py ", ") texts

/-! ## Hashing -/

section Hashing
variable {F : Type}

mutual

/-- `hash(value)` does not raise. -/
def canHash : PyVal F → Bool
  | .list _ | .dict _ => false
  | .tuple xs => canHashElems xs
  | _ => true

def canHashElems : List (PyVal F) → Bool
  | [] => true
  | x :: xs => canHash x && canHashElems xs

end

/-- A value a set takes. -/
abbrev HashableVal (F : Type) := {v : PyVal F // canHash v = true}

/-- The value, if it can be put into a set. -/
def asHashable (v : PyVal F) : Option (HashableVal F) :=
  if h : canHash v = true then some ⟨v, h⟩ else none

end Hashing

variable {F : Type} [PyFloat F]

def reprKey (D : Display) : PyKey F → PyStr
  | .str s => reprStr D s
  | .int n => intText n
  | .float x => PyFloat.repr x
  | .bool true => py "True"
  | .bool false => py "False"
  | .none => py "None"

mutual

def reprOf (D : Display) : PyVal F → PyStr
  | .none => py "None"
  | .bool true => py "True"
  | .bool false => py "False"
  | .int n => intText n
  | .float x => PyFloat.repr x
  | .str s => reprStr D s
  | .list xs => py "[" ++ joinTexts (reprElems D xs) ++ py "]"
  | .tuple [x] => py "(" ++ reprOf D x ++ py ",)"
  | .tuple xs => py "(" ++ joinTexts (reprElems D xs) ++ py ")"
  | .dict kvs => [123] ++ joinTexts (reprItems D kvs) ++ [125]
  | .other => D.object

def reprElems (D : Display) : List (PyVal F) → List PyStr
  | [] => []
  | x :: xs => reprOf D x :: reprElems D xs

def reprItems (D : Display) : List (PyKey F × PyVal F) → List PyStr
  | [] => []
  | (k, v) :: kvs => (reprKey D k ++ py ": " ++ reprOf D v) :: reprItems D kvs

end

/-- `str(value)`. -/
def strOf (D : Display) : PyVal F → PyStr
  | .str s => s
  | v => reprOf D v

@[simp] theorem strOf_str (D : Display) (s : PyStr) : strOf D (.str s : PyVal F) = s := rfl

/-! ## Equality of hashable values -/

theorem sameNumber_none (x : Option FloatValue) : sameNumber x none = false := by
  cases x with
  | none => rfl
  | some v => cases v <;> rfl

mutual

/-- Only hashable values equal a hashable value. -/
theorem canHash_of_pyEq : ∀ v w : PyVal F, pyEq v w = true → canHash v = true → canHash w = true
  | .tuple xs, .tuple ys, h, hv => canHashElems_of_pyEq xs ys h hv
  | _, .none, _, _ | _, .bool _, _, _ | _, .int _, _, _ | _, .float _, _, _ | _, .str _, _, _
  | _, .other, _, _ => rfl
  | v, .list ys, h, hv => by
    cases v with
    | list xs => cases hv
    | _ => simp [pyEq, numberOf, sameNumber_none] at h
  | v, .dict kvs, h, hv => by
    cases v with
    | dict kvs' => cases hv
    | _ => simp [pyEq, numberOf, sameNumber_none] at h
  | .none, .tuple _, h, _ | .bool _, .tuple _, h, _ | .int _, .tuple _, h, _
  | .float _, .tuple _, h, _ | .str _, .tuple _, h, _ | .list _, .tuple _, h, _
  | .dict _, .tuple _, h, _ | .other, .tuple _, h, _ => by
    simp [pyEq, numberOf, sameNumber_none] at h

theorem canHashElems_of_pyEq : ∀ xs ys : List (PyVal F), pyEqElems xs ys = true →
    canHashElems xs = true → canHashElems ys = true
  | [], [], _, _ => rfl
  | [], _ :: _, h, _ | _ :: _, [], h, _ => by cases h
  | x :: xs, y :: ys, h, hv => by
    simp only [pyEqElems, canHashElems, Bool.and_eq_true] at *
    exact ⟨canHash_of_pyEq x y h.1 hv.1, canHashElems_of_pyEq xs ys h.2 hv.2⟩

end

theorem sameNumber_trans {x y z : Option FloatValue} (h : sameNumber x y = true)
    (h' : sameNumber y z = true) : sameNumber x z = true := by
  unfold sameNumber at *
  split at h
  · split at h' <;> simp_all
  · split at h' <;> simp_all
  · split at h' <;> simp_all
  · cases h

theorem sameNumber_isSome {x y : Option FloatValue} (h : sameNumber x y = true) :
    y.isSome = true := by
  cases y with
  | none => rw [sameNumber_none] at h; cases h
  | some v => rfl

/-- A number equals what is the same number. -/
theorem pyEq_number {u v : PyVal F} (h : (numberOf u).isSome = true) :
    pyEq u v = sameNumber (numberOf u) (numberOf v) := by
  cases u <;> cases v <;> first | rfl | cases h

theorem pyEq_number_trans {u v w : PyVal F} (hu : (numberOf u).isSome = true)
    (h : pyEq u v = true) (h' : pyEq v w = true) : pyEq u w = true := by
  rw [pyEq_number hu] at h ⊢
  rw [pyEq_number (sameNumber_isSome h)] at h'
  exact sameNumber_trans h h'

mutual

/-- `==` is transitive on hashable values. -/
theorem pyEq_trans : ∀ u v w : PyVal F, canHash u = true → pyEq u v = true → pyEq v w = true →
    pyEq u w = true
  | .tuple xs, .tuple ys, .tuple zs, hu, h, h' => pyEqElems_trans xs ys zs hu h h'
  | .bool _, v, w, _, h, h' | .int _, v, w, _, h, h' | .float _, v, w, _, h, h' =>
    pyEq_number_trans rfl h h'
  | .none, v, w, _, h, h' => by
    cases v with
    | none => exact h'
    | _ => cases h
  | .str s, v, w, _, h, h' => by
    cases v with
    | str t =>
      have hst : s = t := by simpa [pyEq] using h
      rwa [hst]
    | _ => cases h
  | .other, v, w, _, h, _ => by cases v <;> cases h
  | .list _, _, _, hu, _, _ | .dict _, _, _, hu, _, _ => by cases hu
  | .tuple _, .none, _, _, h, _ | .tuple _, .bool _, _, _, h, _ | .tuple _, .int _, _, _, h, _
  | .tuple _, .float _, _, _, h, _ | .tuple _, .str _, _, _, h, _ | .tuple _, .list _, _, _, h, _
  | .tuple _, .dict _, _, _, h, _ | .tuple _, .other, _, _, h, _ => by cases h
  | .tuple _, .tuple _, .none, _, _, h | .tuple _, .tuple _, .bool _, _, _, h
  | .tuple _, .tuple _, .int _, _, _, h | .tuple _, .tuple _, .float _, _, _, h
  | .tuple _, .tuple _, .str _, _, _, h | .tuple _, .tuple _, .list _, _, _, h
  | .tuple _, .tuple _, .dict _, _, _, h | .tuple _, .tuple _, .other, _, _, h => by cases h

theorem pyEqElems_trans : ∀ xs ys zs : List (PyVal F), canHashElems xs = true →
    pyEqElems xs ys = true → pyEqElems ys zs = true → pyEqElems xs zs = true
  | [], [], zs, _, _, h' => h'
  | x :: xs, y :: ys, z :: zs, hx, h, h' => by
    simp only [pyEqElems, canHashElems, Bool.and_eq_true] at *
    exact ⟨pyEq_trans x y z hx.1 h.1 h'.1, pyEqElems_trans xs ys zs hx.2 h.2 h'.2⟩
  | _ :: _, [], _, _, h, _ | [], _ :: _, _, _, h, _ | _ :: _, _ :: _, [], _, _, h => by cases h

end

end PyDisplay
