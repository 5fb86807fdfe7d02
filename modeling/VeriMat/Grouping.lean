import VeriMat.PyDict

/-! # Grouping

A list taken apart by a key into a dict of lists, in the order in which the keys come up. The
groups are the sublists of the elements with one key, and together they are the whole list. -/
namespace Grouping

open JsonText PyValue PyDict

variable {α κ ν μ : Type} [DecidableEq κ]

/-! ## Dicts with other values -/

/-- `{key: f(key, value) for key, value in d.items()}`. -/
def mapItems (f : κ → ν → μ) (d : Dict κ ν) : Dict κ μ where
  items := d.items.map fun p => (p.1, f p.1 p.2)
  nodup := by
    rw [List.map_map]
    exact d.nodup

theorem get_mapItems (f : κ → ν → μ) (d : Dict κ ν) (key : κ) :
    (mapItems f d).get key = (d.get key).map (f key) := by
  obtain ⟨items, hnodup⟩ := d
  simp only [Dict.get, mapItems]
  clear hnodup
  induction items with
  | nil => rfl
  | cons p items ih =>
    rw [List.map_cons, List.lookup_cons, List.lookup_cons, ih]
    by_cases hk : key = p.1
    · simp [hk]
    · have hne : (key == p.1) = false := by simpa using hk
      simp [hne]

/-- Items in another order are looked up the same. -/
theorem get_perm {d d' : Dict κ ν} (h : d.items.Perm d'.items) (key : κ) :
    d.get key = d'.get key := by
  ext value
  rw [Dict.get_eq_some, Dict.get_eq_some, h.mem_iff]

/-! ## Groups -/

/-- `groups.setdefault(key(x), []).append(x)` for every element. -/
def groupBy (key : α → κ) (xs : List α) : Dict κ (List α) :=
  xs.foldl (fun groups x => groups.set (key x) ((groups.get (key x)).getD [] ++ [x])) empty

/-- The elements with this key. -/
def withKey (key : α → κ) (xs : List α) (k : κ) : List α := xs.filter fun x => key x = k

theorem mem_withKey {key : α → κ} {xs : List α} {k : κ} {x : α} :
    x ∈ withKey key xs k ↔ x ∈ xs ∧ key x = k := by
  simp [withKey]

theorem groupBy_concat (key : α → κ) (xs : List α) (x : α) :
    groupBy key (xs ++ [x]) =
      (groupBy key xs).set (key x) (((groupBy key xs).get (key x)).getD [] ++ [x]) := by
  rw [groupBy, List.foldl_append]
  rfl

theorem get_groupBy (key : α → κ) (xs : List α) (k : κ) :
    (groupBy key xs).get k =
      if withKey key xs k = [] then none else some (withKey key xs k) := by
  induction xs using List.reverseRecOn with
  | nil => simp [groupBy, withKey]
  | append_singleton xs x ih =>
    have hgroup : withKey key (xs ++ [x]) k =
        withKey key xs k ++ if key x = k then [x] else [] := by
      by_cases hx : key x = k <;> simp [withKey, List.filter_append, hx]
    rw [groupBy_concat, Dict.get_set, hgroup]
    by_cases hx : k = key x
    · subst hx
      rw [if_pos rfl, if_pos rfl, if_neg (by simp), ih]
      by_cases hnone : withKey key xs (key x) = []
      · rw [if_pos hnone, hnone]
        rfl
      · rw [if_neg hnone]
        rfl
    · rw [if_neg hx, if_neg (Ne.symm hx), List.append_nil, ih]

theorem mem_groupBy {key : α → κ} {xs : List α} {k : κ} {group : List α} :
    (k, group) ∈ (groupBy key xs).items ↔ group = withKey key xs k ∧ group ≠ [] := by
  rw [← Dict.get_eq_some, get_groupBy]
  by_cases hnone : withKey key xs k = []
  · rw [if_pos hnone, hnone]
    simp
  · rw [if_neg hnone, Option.some.injEq]
    constructor
    · rintro rfl
      exact ⟨rfl, hnone⟩
    · rintro ⟨rfl, _⟩
      rfl

/-- Every element is in one group, once. -/
theorem groupBy_perm (key : α → κ) (xs : List α) :
    ((groupBy key xs).values.flatten).Perm xs := by
  have hset : ∀ (items : List (κ × List α)) (k : κ) (x : α),
      ((setItem k ((items.lookup k).getD [] ++ [x]) items).map Prod.snd).flatten.Perm
        ((items.map Prod.snd).flatten ++ [x]) := by
    intro items k x
    induction items with
    | nil => simp [setItem]
    | cons p items ih =>
      rw [setItem, List.lookup_cons]
      by_cases hk : p.1 = k
      · subst hk
        simp only [beq_self_eq_true, Option.getD_some, if_true, List.map_cons, List.flatten_cons,
          List.append_assoc]
        exact List.perm_append_comm.append_left _
      · have hne : (k == p.1) = false := by simpa using Ne.symm hk
        simp only [hne, if_neg hk, List.map_cons, List.flatten_cons, List.append_assoc]
        exact ih.append_left _
  induction xs using List.reverseRecOn with
  | nil => exact .nil
  | append_singleton xs x ih =>
    rw [groupBy_concat]
    exact (hset _ _ _).trans (ih.append_right _)

end Grouping
