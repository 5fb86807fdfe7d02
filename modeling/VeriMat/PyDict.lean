import VeriMat.PyValueRoundTrip

/-! # Dicts

A Python `dict` with keys compared by `==`: its items in the order of their insertion, no key
twice. -/
namespace PyDict

open JsonText PyValue

variable {κ ν : Type} [DecidableEq κ]

structure Dict (κ ν : Type) where
  items : List (κ × ν)
  nodup : (items.map Prod.fst).Nodup

def empty : Dict κ ν := ⟨[], List.nodup_nil⟩

def Dict.values (d : Dict κ ν) : List ν := d.items.map Prod.snd

/-- `d.get(key)`. -/
def Dict.get (d : Dict κ ν) (key : κ) : Option ν := d.items.lookup key

/-- `d[key] = value`. -/
def Dict.set (d : Dict κ ν) (key : κ) (value : ν) : Dict κ ν :=
  ⟨setItem key value d.items, setItem_nodup d.nodup⟩

/-- The object under a key changed in place. -/
def Dict.modify (d : Dict κ ν) (key : κ) (f : ν → ν) : Dict κ ν where
  items := d.items.map fun p => if p.1 = key then (p.1, f p.2) else p
  nodup := by
    have hkeys : (d.items.map fun p => if p.1 = key then (p.1, f p.2) else p).map Prod.fst =
        d.items.map Prod.fst := by
      rw [List.map_map]
      apply List.map_congr_left
      intro p _
      by_cases hp : p.1 = key <;> simp [hp]
    rw [hkeys]
    exact d.nodup

/-! ## Lookups -/

@[simp] theorem get_empty (key : κ) : (empty : Dict κ ν).get key = none := rfl

section Association

variable {α β : Type} [BEq α] [LawfulBEq α] {items : List (α × β)} {key : α} {value : β}

theorem mem_of_lookup (h : items.lookup key = some value) : (key, value) ∈ items := by
  induction items with
  | nil => cases h
  | cons p items ih =>
    rw [List.lookup_cons] at h
    by_cases hk : key = p.1
    · rw [hk, beq_self_eq_true] at h
      exact List.mem_cons.mpr (.inl (by rw [hk, ← Option.some.inj h]))
    · rw [beq_eq_false_iff_ne.mpr hk] at h
      exact List.mem_cons_of_mem _ (ih h)

theorem lookup_eq_some (h : (items.map Prod.fst).Nodup) :
    items.lookup key = some value ↔ (key, value) ∈ items := by
  refine ⟨mem_of_lookup, ?_⟩
  intro hmem
  cases hlookup : items.lookup key with
  | none =>
    have hne := List.lookup_eq_none_iff.mp hlookup (key, value) hmem
    simp at hne
  | some value' =>
    have hsame := List.inj_on_of_nodup_map h (mem_of_lookup hlookup) hmem rfl
    rw [(Prod.mk.inj hsame).2]

end Association

theorem Dict.get_eq_some {d : Dict κ ν} {key : κ} {value : ν} :
    d.get key = some value ↔ (key, value) ∈ d.items :=
  lookup_eq_some d.nodup

theorem Dict.mem_values {d : Dict κ ν} {value : ν} :
    value ∈ d.values ↔ ∃ key, d.get key = some value := by
  simp [Dict.values, Dict.get_eq_some]

/-! ## Changes -/

theorem Dict.get_set (d : Dict κ ν) (key key' : κ) (value : ν) :
    (d.set key value).get key' = if key' = key then some value else d.get key' := by
  obtain ⟨items, hnodup⟩ := d
  simp only [Dict.get, Dict.set]
  clear hnodup
  induction items with
  | nil => by_cases hk : key' = key <;> simp [setItem, hk]
  | cons p items ih =>
    rw [setItem]
    by_cases hp : p.1 = key
    · rw [if_pos hp, List.lookup_cons, List.lookup_cons]
      by_cases hk : key' = key
      · simp [hk]
      · have hne : (key' == key) = false := by simpa using hk
        simp [hp, hne, hk]
    · rw [if_neg hp, List.lookup_cons, List.lookup_cons, ih]
      by_cases hk : key' = key
      · have hne : (key == p.1) = false := by simpa using Ne.symm hp
        simp [hk, hne]
      · simp [hk]

theorem Dict.get_set_self (d : Dict κ ν) (key : κ) (value : ν) :
    (d.set key value).get key = some value := by
  rw [Dict.get_set, if_pos rfl]

/-- A new key hides no other. -/
theorem Dict.get_set_of_get {d : Dict κ ν} {key key' : κ} {value value' : ν}
    (hnew : d.get key = none) (h : d.get key' = some value') :
    (d.set key value).get key' = some value' := by
  rw [Dict.get_set, if_neg, h]
  rintro rfl
  rw [hnew] at h
  cases h

theorem Dict.get_modify (d : Dict κ ν) (key key' : κ) (f : ν → ν) :
    (d.modify key f).get key' = if key' = key then (d.get key).map f else d.get key' := by
  obtain ⟨items, hnodup⟩ := d
  simp only [Dict.get, Dict.modify]
  clear hnodup
  induction items with
  | nil => simp
  | cons p items ih =>
    rw [List.map_cons, List.lookup_cons, List.lookup_cons, List.lookup_cons, ih]
    by_cases hk : key' = key
    · subst hk
      by_cases hp : p.1 = key'
      · subst hp
        simp
      · have hne : (key' == p.1) = false := by simpa using Ne.symm hp
        simp [hp, hne]
    · by_cases hp : p.1 = key
      · have hne : (key' == key) = false := by simpa using hk
        simp [hp, hk, hne]
      · simp [hp, hk]

omit [DecidableEq κ] in
theorem Dict.ext_items {d d' : Dict κ ν} (h : d.items = d'.items) : d = d' := by
  cases d; cases d'; cases h; rfl

/-- Two changes of one object are one. -/
theorem Dict.modify_modify (d : Dict κ ν) (key : κ) (f f' : ν → ν) :
    (d.modify key f).modify key f' = d.modify key fun v => f' (f v) := by
  apply Dict.ext_items
  simp only [Dict.modify, List.map_map]
  apply List.map_congr_left
  intro p _
  by_cases hp : p.1 = key <;> simp [hp]

end PyDict
