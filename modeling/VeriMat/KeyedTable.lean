import Mathlib

/-! # Tables under a uniqueness constraint

Rows in the order of their insertion, no two of which have clashing keys. An insertion that
would break the constraint is refused, and an update may not move a key, so that every table
that can be built satisfies the constraint. -/
namespace KeyedTable

variable {κ ρ : Type} {key : ρ → κ} {clash : κ → κ → Prop}

structure Table (key : ρ → κ) (clash : κ → κ → Prop) where
  rows : List ρ
  distinct : rows.Pairwise fun a b => ¬ clash (key a) (key b)

def empty : Table key clash := ⟨[], List.Pairwise.nil⟩

/-- The first row that satisfies `p`. -/
def Table.find (t : Table key clash) (p : ρ → Bool) : Option ρ := t.rows.find? p

/-- The table with a row more, unless a row already there clashes with it. -/
def Table.insert [DecidableRel clash] (t : Table key clash) (r : ρ) : Option (Table key clash) :=
  if h : ∀ a ∈ t.rows, ¬ clash (key a) (key r) then
    some ⟨t.rows ++ [r], List.pairwise_append.mpr
      ⟨t.distinct, List.pairwise_singleton _ _, fun a ha _ hb => List.mem_singleton.mp hb ▸ h a ha⟩⟩
  else none

/-- Every row that satisfies `p` replaced by its image. -/
def Table.update (t : Table key clash) (p : ρ → Bool) (f : ρ → ρ) (hf : ∀ r, key (f r) = key r) :
    Table key clash where
  rows := t.rows.map fun r => if p r then f r else r
  distinct := by
    refine List.pairwise_map.mpr (t.distinct.imp ?_)
    intro a b hab
    split <;> split <;> simpa only [hf] using hab

theorem Table.ext_rows {t t' : Table key clash} (h : t.rows = t'.rows) : t = t' := by
  cases t; cases t'; cases h; rfl

/-- Two rows whose keys clash are one row. -/
theorem Table.eq_of_clash (t : Table key clash) (hsymm : ∀ k k', clash k k' → clash k' k)
    {a b : ρ} (ha : a ∈ t.rows) (hb : b ∈ t.rows) (h : clash (key a) (key b)) : a = b := by
  by_contra hne
  have hsym : Std.Symm fun a b : ρ => ¬ clash (key a) (key b) := by
    constructor
    intro x y hxy hyx
    exact hxy (hsymm _ _ hyx)
  exact t.distinct.forall ha hb hne h

/-! ## Lookups -/

theorem Table.mem_of_find {t : Table key clash} {p : ρ → Bool} {r : ρ} (h : t.find p = some r) :
    r ∈ t.rows ∧ p r = true :=
  ⟨List.mem_of_find?_eq_some h, List.find?_some h⟩

theorem Table.find_eq_none {t : Table key clash} {p : ρ → Bool} :
    t.find p = none ↔ ∀ r ∈ t.rows, p r = false := by
  simp [Table.find]

/-- A row is found by a test that only clashing rows pass. -/
theorem Table.find_of_mem {t : Table key clash} {p : ρ → Bool}
    (hsymm : ∀ k k', clash k k' → clash k' k) {r : ρ} (hr : r ∈ t.rows) (hp : p r = true)
    (hone : ∀ a, p a = true → clash (key a) (key r)) : t.find p = some r := by
  cases h : t.find p with
  | none => exact absurd (Table.find_eq_none.mp h r hr) (by simp [hp])
  | some a =>
    obtain ⟨ha, hpa⟩ := Table.mem_of_find h
    rw [t.eq_of_clash hsymm ha hr (hone a hpa)]

/-- A test that only clashing rows pass selects at most one row. -/
theorem Table.countP_eq_one (t : Table key clash) {p : ρ → Bool}
    (hone : ∀ a b, p a = true → p b = true → clash (key a) (key b)) :
    t.rows.countP p = 1 ↔ ∃ r ∈ t.rows, p r = true := by
  have hpair := t.distinct.filter p
  rw [List.countP_eq_length_filter]
  constructor
  · intro h
    obtain ⟨r, hr⟩ := List.length_eq_one_iff.mp h
    exact ⟨r, List.mem_filter.mp (hr ▸ List.mem_singleton_self r)⟩
  · intro ⟨r, hr, hp⟩
    have hall : ∀ a ∈ t.rows.filter p, p a = true := fun a ha => (List.mem_filter.mp ha).2
    have hmem : r ∈ t.rows.filter p := List.mem_filter.mpr ⟨hr, hp⟩
    match hrows : t.rows.filter p with
    | [] => simp [hrows] at hmem
    | [_] => rfl
    | a :: b :: rest =>
      rw [hrows] at hpair hall
      have hne := (List.pairwise_cons.mp hpair).1 b (by simp)
      exact absurd (hone a b (hall a (by simp)) (hall b (by simp))) hne

@[simp] theorem find_empty (p : ρ → Bool) : (empty : Table key clash).find p = none := rfl

/-! ## Insertions -/

section Insert
variable [DecidableRel clash] {t t' : Table key clash} {r : ρ}

theorem Table.insert_rows (h : t.insert r = some t') : t'.rows = t.rows ++ [r] := by
  unfold Table.insert at h
  split at h
  · exact (Option.some.inj h) ▸ rfl
  · exact absurd h (by simp)

theorem Table.insert_isSome : (∃ t', t.insert r = some t') ↔ ∀ a ∈ t.rows, ¬ clash (key a) (key r) := by
  unfold Table.insert
  split
  · next h => exact ⟨fun _ => h, fun _ => ⟨_, rfl⟩⟩
  · next h => exact ⟨fun ⟨_, h'⟩ => absurd h' (by simp), fun h' => absurd h' h⟩

theorem Table.find_insert (h : t.insert r = some t') (p : ρ → Bool) :
    t'.find p = (t.find p).or (if p r then some r else none) := by
  rw [Table.find, Table.insert_rows h, List.find?_append, Table.find]
  by_cases hp : p r = true
  · simp [hp]
  · simp [hp]

end Insert

/-! ## Updates -/

section Update
variable {t : Table key clash} {p : ρ → Bool} {f : ρ → ρ} {hf : ∀ r, key (f r) = key r}

theorem Table.mem_update {r : ρ} :
    r ∈ (t.update p f hf).rows ↔ ∃ a ∈ t.rows, (if p a then f a else a) = r := by
  simp [Table.update]

/-- A lookup by a test that the update does not disturb finds the image of the row it found. -/
theorem Table.find_update {q : ρ → Bool} (hq : ∀ r, q (f r) = q r) :
    (t.update p f hf).find q = (t.find q).map fun r => if p r then f r else r := by
  have htest : (q ∘ fun r => if p r then f r else r) = q := by
    funext r
    by_cases hp : p r = true <;> simp [hp, hq]
  simp only [Table.find, Table.update, List.find?_map, htest]

/-- The row an update was for is found as its image. -/
theorem Table.find_update_self (hp : ∀ r, p (f r) = p r) :
    (t.update p f hf).find p = (t.find p).map f := by
  rw [Table.find_update hp]
  cases h : t.find p with
  | none => rfl
  | some r => simp [(Table.mem_of_find h).2]

/-- A lookup of a row the update does not touch. -/
theorem Table.find_update_other {q : ρ → Bool} (hq : ∀ r, q (f r) = q r)
    (hne : ∀ r, q r = true → p r = false) : (t.update p f hf).find q = t.find q := by
  rw [Table.find_update hq]
  cases h : t.find q with
  | none => rfl
  | some r => simp [hne r (Table.mem_of_find h).2]

/-- Two tests that agree on the rows select the same update. -/
theorem Table.update_congr {q : ρ → Bool} (h : ∀ r ∈ t.rows, p r = q r) :
    t.update p f hf = t.update q f hf := by
  apply Table.ext_rows
  apply List.map_congr_left
  intro r hr
  rw [h r hr]

/-- An update no row is selected for changes nothing. -/
theorem Table.update_none (h : ∀ r ∈ t.rows, p r = false) : t.update p f hf = t := by
  apply Table.ext_rows
  have hid : ∀ r ∈ t.rows, (if p r then f r else r) = r := by
    intro r hr
    simp [h r hr]
  exact (List.map_congr_left hid).trans (List.map_id' _)

end Update

/-! ## Deletions -/

section Delete
variable {t : Table key clash} {p : ρ → Bool}

/-- The rows that do not satisfy `p`. -/
def Table.delete (t : Table key clash) (p : ρ → Bool) : Table key clash :=
  ⟨t.rows.filter fun r => !p r, t.distinct.filter _⟩

theorem Table.mem_delete {r : ρ} : r ∈ (t.delete p).rows ↔ r ∈ t.rows ∧ p r = false := by
  rw [Table.delete, List.mem_filter, Bool.not_eq_true']

theorem Table.delete_delete {q : ρ → Bool} :
    (t.delete p).delete q = t.delete fun r => p r || q r := by
  apply Table.ext_rows
  change (t.rows.filter fun r => !p r).filter (fun r => !q r) = t.rows.filter fun r => !(p r || q r)
  rw [List.filter_filter]
  apply List.filter_congr
  intro r _
  rw [Bool.not_or, Bool.and_comm]

theorem Table.delete_none (h : ∀ r ∈ t.rows, p r = false) : t.delete p = t := by
  apply Table.ext_rows
  rw [Table.delete, List.filter_eq_self]
  intro r hr
  rw [h r hr, Bool.not_false]

end Delete

end KeyedTable
