import VeriMat.PyDict

/-! # Keyed records

Dicts in which every record is stored under the key it carries: adding a record overwrites the one
with its key, and adding the records of a dict again in any order gives its items back. Lists of
records cut into slices, and left with the first record of every key. -/
namespace KeyedRecords

open PyText JsonText PyValue PyDict

variable {ν : Type}

/-- Records stored under the key they carry, each of which passes its check. -/
structure Keyed (key : ν → PyStr) (ok : ν → Prop) (d : Dict PyStr ν) : Prop where
  own : ∀ p ∈ d.items, p.1 = key p.2
  valid : ∀ p ∈ d.items, ok p.2

theorem keyed_empty (key : ν → PyStr) (ok : ν → Prop) : Keyed key ok empty where
  own p hp := by cases hp
  valid p hp := by cases hp

theorem Keyed.set {key : ν → PyStr} {ok : ν → Prop} {d : Dict PyStr ν} (h : Keyed key ok d)
    {r : ν} (hr : ok r) : Keyed key ok (d.set (key r) r) where
  own p hp := by
    rcases mem_setItem hp with rfl | hp
    · rfl
    · exact h.own p hp
  valid p hp := by
    rcases mem_setItem hp with rfl | hp
    · exact hr
    · exact h.valid p hp

/-! ## In the order of the keys -/

instance : IsTrans (PyStr × ν) fun a b => a.1 ≤ b.1 :=
  ⟨fun _ _ _ h k => le_trans (α := PyStr) h k⟩

instance : Std.Total fun a b : PyStr × ν => a.1 ≤ b.1 := ⟨fun a b => le_total a.1 b.1⟩

/-- `[value for _, value in sorted(d.items())]`. -/
def sortedValues (d : Dict PyStr ν) : List ν :=
  (d.items.insertionSort fun a b => a.1 ≤ b.1).map Prod.snd

/-- The same items in the order of their keys. -/
def inOrder (d : Dict PyStr ν) : Dict PyStr ν where
  items := d.items.insertionSort fun a b => a.1 ≤ b.1
  nodup := ((List.perm_insertionSort _ d.items).map Prod.fst).nodup_iff.mpr d.nodup

theorem items_inOrder (d : Dict PyStr ν) : (inOrder d).items.Perm d.items :=
  List.perm_insertionSort _ d.items

theorem get_inOrder (d : Dict PyStr ν) (key : PyStr) : (inOrder d).get key = d.get key := by
  ext value
  rw [Dict.get_eq_some, Dict.get_eq_some, (items_inOrder d).mem_iff]

theorem inOrder_perm {d d' : Dict PyStr ν} (h : d.items.Perm d'.items) :
    inOrder d = inOrder d' := by
  have hsame := (items_inOrder d).trans (h.trans (items_inOrder d').symm)
  refine Dict.ext_items (List.Perm.eq_of_pairwise (fun p q hp hq hpq hqp => ?_)
    (List.pairwise_insertionSort _ _) (List.pairwise_insertionSort _ _) hsame)
  exact List.inj_on_of_nodup_map (inOrder d).nodup hp (hsame.mem_iff.mpr hq) (le_antisymm hpq hqp)

theorem values_inOrder (d : Dict PyStr ν) : (inOrder d).values.Perm d.values :=
  (items_inOrder d).map Prod.snd

theorem sortedValues_inOrder (d : Dict PyStr ν) : sortedValues (inOrder d) = sortedValues d := by
  have hsorted := List.pairwise_insertionSort (fun a b : PyStr × ν => a.1 ≤ b.1) d.items
  have hitems : (inOrder d).items = d.items.insertionSort fun a b => a.1 ≤ b.1 := rfl
  rw [sortedValues, hitems, hsorted.insertionSort_eq, sortedValues]

theorem valid_sortedValues {key : ν → PyStr} {ok : ν → Prop} {d : Dict PyStr ν}
    (h : Keyed key ok d) {r : ν} (hr : r ∈ sortedValues d) : ok r := by
  obtain ⟨p, hp, rfl⟩ := List.mem_map.mp hr
  exact h.valid p (List.mem_insertionSort _ |>.mp hp)

/-! ## Records added one after the other -/

/-- The dict of these records, added one after the other. -/
def collect (key : ν → PyStr) (records : List ν) : Dict PyStr ν :=
  records.foldl (fun d r => d.set (key r) r) empty

theorem items_collect (key : ν → PyStr) (records : List ν) :
    (collect key records).items = ofPairs (records.map fun r => (key r, r)) := by
  rw [collect, ofPairs, List.foldl_map]
  have hfold : ∀ d : Dict PyStr ν, (records.foldl (fun d r => d.set (key r) r) d).items =
      records.foldl (fun items r => setItem (key r) r items) d.items := by
    induction records with
    | nil => exact fun d => rfl
    | cons r records ih => exact fun d => ih (d.set (key r) r)
  exact hfold empty

/-- Adding the records of a dict by key again gives its items in order. -/
theorem collect_sortedValues {key : ν → PyStr} {ok : ν → Prop} {d : Dict PyStr ν}
    (h : Keyed key ok d) : collect key (sortedValues d) = inOrder d := by
  apply Dict.ext_items
  have hpairs : ((sortedValues d).map fun r => (key r, r)) = (inOrder d).items := by
    rw [sortedValues, List.map_map]
    refine (List.map_congr_left fun p hp => ?_).trans (List.map_id _)
    have hown := h.own p (List.mem_insertionSort _ |>.mp hp)
    exact Prod.ext hown.symm rfl
  rw [items_collect, hpairs, ofPairs_of_nodup (inOrder d).nodup]

theorem collect_concat (key : ν → PyStr) (records : List ν) (r : ν) :
    collect key (records ++ [r]) = (collect key records).set (key r) r := by
  rw [collect, List.foldl_append]
  rfl

/-- A record no later one overwrites. -/
def Survives (key : ν → PyStr) (records : List ν) (r : ν) : Prop :=
  ∃ earlier later, records = earlier ++ r :: later ∧ ∀ r' ∈ later, key r' ≠ key r

theorem survives_concat {key : ν → PyStr} {records : List ν} {r s : ν} :
    Survives key (records ++ [s]) r ↔ r = s ∨ Survives key records r ∧ key s ≠ key r := by
  constructor
  · rintro ⟨earlier, later, heq, hlater⟩
    rcases List.eq_nil_or_concat later with rfl | ⟨init, last, rfl⟩
    · exact .inl (List.append_inj_right' heq rfl |> List.singleton_inj.mp).symm
    · rw [List.concat_eq_append, ← List.cons_append, ← List.append_assoc] at heq
      obtain ⟨hrecords, hlast⟩ := List.append_inj' heq rfl
      cases hlast
      exact .inr ⟨⟨earlier, init, hrecords, fun r' hr' => hlater r' (by simp [hr'])⟩,
        hlater s (by simp)⟩
  · rintro (rfl | ⟨⟨earlier, later, rfl, hlater⟩, hs⟩)
    · exact ⟨records, [], rfl, fun r' hr' => nomatch hr'⟩
    · refine ⟨earlier, later ++ [s], by simp, fun r' hr' => ?_⟩
      rcases List.mem_append.mp hr' with hr' | hr'
      · exact hlater r' hr'
      · rwa [List.mem_singleton.mp hr']

/-- The records a dict is left with are those that no later one overwrote. -/
theorem get_collect {key : ν → PyStr} {records : List ν} {k : PyStr} {r : ν} :
    (collect key records).get k = some r ↔ key r = k ∧ Survives key records r := by
  induction records using List.reverseRecOn with
  | nil =>
    constructor
    · intro h
      cases h
    · rintro ⟨_, earlier, later, heq, _⟩
      exact absurd heq (by simp)
  | append_singleton records s ih =>
    rw [collect_concat, Dict.get_set, survives_concat]
    by_cases hk : k = key s
    · subst hk
      rw [if_pos rfl, Option.some.injEq]
      constructor
      · rintro rfl
        exact ⟨rfl, .inl rfl⟩
      · rintro ⟨hkey, rfl | ⟨_, hne⟩⟩
        · rfl
        · exact absurd hkey.symm hne
    · rw [if_neg hk, ih]
      constructor
      · rintro ⟨rfl, hr⟩
        exact ⟨rfl, .inr ⟨hr, Ne.symm hk⟩⟩
      · rintro ⟨rfl, rfl | ⟨hr, _⟩⟩
        · exact absurd rfl hk
        · exact ⟨rfl, hr⟩

theorem mem_values_collect {key : ν → PyStr} {records : List ν} {r : ν} :
    r ∈ (collect key records).values ↔ Survives key records r := by
  rw [Dict.mem_values]
  constructor
  · rintro ⟨k, hk⟩
    exact (get_collect.mp hk).2
  · intro hr
    exact ⟨key r, get_collect.mpr ⟨rfl, hr⟩⟩

/-! ## First occurrences -/

section Firsts
variable {α κ : Type} [DecidableEq κ]

/-- The elements whose key was not seen before. -/
def firstsFrom (key : α → κ) : List κ → List α → List α
  | _, [] => []
  | seen, x :: xs =>
    if key x ∈ seen then firstsFrom key seen xs else x :: firstsFrom key (seen ++ [key x]) xs

omit [DecidableEq κ] in
/-- An element no earlier one has the key of. -/
def Leads (key : α → κ) (xs : List α) (x : α) : Prop :=
  ∃ earlier later, xs = earlier ++ x :: later ∧ ∀ y ∈ earlier, key y ≠ key x

omit [DecidableEq κ] in
theorem leads_cons {key : α → κ} {xs : List α} {x y : α} :
    Leads key (y :: xs) x ↔ x = y ∨ Leads key xs x ∧ key y ≠ key x := by
  constructor
  · rintro ⟨earlier, later, heq, hearlier⟩
    cases earlier with
    | nil => exact .inl (List.cons.inj heq).1.symm
    | cons z earlier =>
      obtain ⟨rfl, rfl⟩ := List.cons.inj heq
      exact .inr ⟨⟨earlier, later, rfl, fun w hw => hearlier w (by simp [hw])⟩,
        hearlier y (by simp)⟩
  · rintro (rfl | ⟨⟨earlier, later, rfl, hearlier⟩, hy⟩)
    · exact ⟨[], xs, rfl, fun w hw => nomatch hw⟩
    · exact ⟨y :: earlier, later, rfl, List.forall_mem_cons.mpr ⟨hy, hearlier⟩⟩

theorem mem_firstsFrom {key : α → κ} {seen : List κ} {xs : List α} {x : α} :
    x ∈ firstsFrom key seen xs ↔ key x ∉ seen ∧ Leads key xs x := by
  induction xs generalizing seen with
  | nil =>
    constructor
    · intro h
      cases h
    · rintro ⟨_, earlier, later, heq, _⟩
      exact absurd heq (by simp)
  | cons y xs ih =>
    rw [firstsFrom, leads_cons]
    by_cases hy : key y ∈ seen
    · rw [if_pos hy, ih]
      constructor
      · rintro ⟨hx, hleads⟩
        exact ⟨hx, .inr ⟨hleads, fun heq => hx (heq ▸ hy)⟩⟩
      · rintro ⟨hx, rfl | ⟨hleads, _⟩⟩
        · exact absurd hy hx
        · exact ⟨hx, hleads⟩
    · rw [if_neg hy, List.mem_cons, ih, List.mem_append, List.mem_singleton, not_or]
      constructor
      · rintro (rfl | ⟨⟨hx, hne⟩, hleads⟩)
        · exact ⟨hy, .inl rfl⟩
        · exact ⟨hx, .inr ⟨hleads, Ne.symm hne⟩⟩
      · rintro ⟨hx, rfl | ⟨hleads, hne⟩⟩
        · exact .inl rfl
        · exact .inr ⟨⟨hx, Ne.symm hne⟩, hleads⟩

theorem firstsFrom_append (key : α → κ) (seen : List κ) (xs ys : List α) :
    firstsFrom key seen (xs ++ ys) = firstsFrom key seen xs ++
      firstsFrom key (seen ++ (firstsFrom key seen xs).map key) ys := by
  induction xs generalizing seen with
  | nil => simp [firstsFrom]
  | cons x xs ih =>
    rw [List.cons_append, firstsFrom, firstsFrom]
    by_cases hx : key x ∈ seen
    · rw [if_pos hx, if_pos hx, ih]
    · rw [if_neg hx, if_neg hx, ih, List.map_cons, List.cons_append, List.append_assoc]
      rfl

theorem firstsFrom_map {β : Type} (key : β → κ) (f : α → β) (seen : List κ) (xs : List α) :
    firstsFrom key seen (xs.map f) = (firstsFrom (key ∘ f) seen xs).map f := by
  induction xs generalizing seen with
  | nil => rfl
  | cons x xs ih =>
    rw [List.map_cons, firstsFrom, firstsFrom, ih, ih, Function.comp_apply]
    by_cases hx : key (f x) ∈ seen
    · rw [if_pos hx, if_pos hx]
    · rw [if_neg hx, if_neg hx, List.map_cons]

variable {E : Type}

omit [DecidableEq κ] in
/-- The records of the entries of a log, each with its entry. -/
def recorded (records : E → List α) (log : List E) : List (E × α) :=
  log.flatMap fun e => (records e).map fun r => (e, r)

omit [DecidableEq κ] in
theorem mem_recorded {records : E → List α} {log : List E} {x : E × α} :
    x ∈ recorded records log ↔ x.1 ∈ log ∧ x.2 ∈ records x.1 := by
  rw [recorded, List.mem_flatMap]
  constructor
  · rintro ⟨e, he, hx⟩
    obtain ⟨r, hr, rfl⟩ := List.mem_map.mp hx
    exact ⟨he, hr⟩
  · rintro ⟨he, hr⟩
    exact ⟨x.1, he, List.mem_map.mpr ⟨x.2, hr, rfl⟩⟩

omit [DecidableEq κ] in
theorem recorded_concat (records : E → List α) (log : List E) (e : E) :
    recorded records (log ++ [e]) = recorded records log ++ (records e).map fun r => (e, r) := by
  rw [recorded, recorded, List.flatMap_append, List.flatMap_singleton]

omit [DecidableEq κ] in
theorem map_snd_recorded (records : E → List α) (log : List E) :
    (recorded records log).map Prod.snd = log.flatMap records := by
  rw [recorded, List.map_flatMap]
  refine List.flatMap_congr fun e _ => ?_
  rw [List.map_map]
  exact List.map_id _

/-- If every entry keeps the new ones among the records that pass in it, a log keeps the first ones
of every key. -/
theorem firsts_concat {key : α → κ} {kept passed : E → List α} {log : List E} {e : E}
    (hlog : recorded kept log = firstsFrom (fun x => key x.2) [] (recorded passed log))
    (he : kept e = firstsFrom key ((recorded kept log).map fun x => key x.2) (passed e)) :
    recorded kept (log ++ [e]) =
      firstsFrom (fun x => key x.2) [] (recorded passed (log ++ [e])) := by
  rw [recorded_concat, recorded_concat, firstsFrom_append, ← hlog, List.nil_append, firstsFrom_map,
    he]
  rfl

end Firsts

/-! ## Slices -/

section Slices
variable {α : Type}

/-- `[xs[i:i + size] for i in range(0, len(xs), size)]`. -/
def slices (size : ℕ) (xs : List α) : List (List α) :=
  (List.range ((xs.length + size - 1) / size)).map fun i => (xs.drop (i * size)).take size

theorem flatten_slices_take (xs : List α) (size n : ℕ) :
    ((List.range n).map fun i => (xs.drop (i * size)).take size).flatten = xs.take (n * size) := by
  induction n with
  | zero => simp
  | succ n ih =>
    rw [List.range_succ, List.map_append, List.flatten_append, ih, Nat.succ_mul, List.take_add]
    simp

/-- The slices put together are the list. -/
theorem flatten_slices {size : ℕ} (hsize : 0 < size) (xs : List α) :
    (slices size xs).flatten = xs := by
  rw [slices, flatten_slices_take]
  refine List.take_of_length_le ?_
  have hceil := Nat.lt_div_mul_add hsize (a := xs.length + size - 1)
  omega

theorem mem_slices {size : ℕ} {xs slice : List α} (h : slice ∈ slices size xs) :
    slice.Sublist xs ∧ slice.length ≤ size := by
  obtain ⟨i, _, rfl⟩ := List.mem_map.mp h
  exact ⟨(List.take_sublist _ _).trans (List.drop_sublist _ _), List.length_take_le _ _⟩

end Slices

end KeyedRecords
