import VeriMat.PyValue

/-! # Canonical JSON read back

What json.loads makes of json.dumps, in terms of the JSON value that was written: reading
gives its dict form, and writing that again gives the same text exactly when the names of
every object were strictly increasing. -/
namespace PyValue

open PyText JsonText

variable {F : Type}

/-! ## Induction over nested values -/

/-- Induction over a Python value, with the hypothesis for everything it contains. -/
@[elab_as_elim]
theorem PyVal.nested {P : PyVal F → Prop} (none : P .none) (bool : ∀ b, P (.bool b))
    (int : ∀ n, P (.int n)) (float : ∀ x, P (.float x)) (str : ∀ s, P (.str s))
    (list : ∀ xs, (∀ x ∈ xs, P x) → P (.list xs))
    (tuple : ∀ xs, (∀ x ∈ xs, P x) → P (.tuple xs))
    (dict : ∀ kvs, (∀ p ∈ kvs, P p.2) → P (.dict kvs)) (other : P .other) (v : PyVal F) :
    P v := by
  refine @PyVal.rec F P (fun xs => ∀ x ∈ xs, P x) (fun kvs => ∀ p ∈ kvs, P p.2)
    (fun p => P p.2) none bool int float str list tuple dict other ?_ ?_ ?_ ?_ ?_ v
  · simp
  · intro x xs hx hxs
    exact List.forall_mem_cons.mpr ⟨hx, hxs⟩
  · simp
  · intro p kvs hp hkvs
    exact List.forall_mem_cons.mpr ⟨hp, hkvs⟩
  · intro k v hv
    exact hv

theorem sortElems_eq (xs : List (Json F)) : sortElems xs = xs.map sortNames := by
  induction xs with
  | nil => rfl
  | cons x xs ih => simp [sortElems, ih]

theorem sortMembers_eq (kvs : List (PyStr × Json F)) :
    sortMembers kvs = kvs.map fun p => (p.1, sortNames p.2) := by
  induction kvs with
  | nil => rfl
  | cons p kvs ih => simp [sortMembers, ih]

theorem dedupElems_eq (xs : List (Json F)) : dedupElems xs = xs.map Json.dedup := by
  induction xs with
  | nil => rfl
  | cons x xs ih => simp [dedupElems, ih]

theorem dedupMembers_eq (kvs : List (PyStr × Json F)) :
    dedupMembers kvs = kvs.map fun p => (p.1, p.2.dedup) := by
  induction kvs with
  | nil => rfl
  | cons p kvs ih => simp [dedupMembers, ih]

theorem elemsSorted_iff (xs : List (Json F)) : ElemsSorted xs ↔ ∀ x ∈ xs, NamesSorted x := by
  induction xs with
  | nil => simp [ElemsSorted]
  | cons x xs ih => simp [ElemsSorted, ih]

theorem membersSorted_iff (kvs : List (PyStr × Json F)) :
    MembersSorted kvs ↔ ∀ p ∈ kvs, NamesSorted p.2 := by
  induction kvs with
  | nil => simp [MembersSorted]
  | cons p kvs ih => simp [MembersSorted, ih]

theorem ofElems_eq (xs : List (Json F)) : ofElems xs = xs.map ofJson := by
  induction xs with
  | nil => rfl
  | cons x xs ih => simp [ofElems, ih]

theorem ofMembers_eq (kvs : List (PyStr × Json F)) :
    ofMembers kvs = kvs.map fun p => (.str p.1, ofJson p.2) := by
  induction kvs with
  | nil => rfl
  | cons p kvs ih => simp [ofMembers, ih]

/-! ## Dicts -/

theorem setItem_keys {α β : Type} [DecidableEq α] (k : α) (v : β) (d : List (α × β)) :
    (setItem k v d).map Prod.fst =
      if k ∈ d.map Prod.fst then d.map Prod.fst else d.map Prod.fst ++ [k] := by
  induction d with
  | nil => simp [setItem]
  | cons p d ih =>
    rw [setItem]
    split_ifs with h₁ h₂ h₂
    · simp [h₁]
    · simp [h₁] at h₂
    · simp only [List.map_cons, ih]
      rw [if_pos (by simpa [Ne.symm h₁] using h₂)]
    · simp only [List.map_cons, ih]
      rw [if_neg (by simp_all)]
      rfl

theorem setItem_nodup {α β : Type} [DecidableEq α] {k : α} {v : β} {d : List (α × β)}
    (h : (d.map Prod.fst).Nodup) : ((setItem k v d).map Prod.fst).Nodup := by
  rw [setItem_keys]
  split_ifs with hk
  · exact h
  · exact List.nodup_append.mpr ⟨h, List.nodup_singleton k, by
      intro a ha b hb
      rw [List.mem_singleton.mp hb]
      rintro rfl
      exact hk ha⟩

theorem mem_setItem {α β : Type} [DecidableEq α] {k : α} {v : β} {d : List (α × β)}
    {p : α × β} (h : p ∈ setItem k v d) : p = (k, v) ∨ p ∈ d := by
  induction d with
  | nil => simpa [setItem] using h
  | cons q d ih =>
    rw [setItem] at h
    split_ifs at h with hq
    · rcases List.mem_cons.mp h with h | h
      · exact Or.inl h
      · exact Or.inr (List.mem_cons_of_mem _ h)
    · rcases List.mem_cons.mp h with rfl | h
      · exact Or.inr (by simp)
      · rcases ih h with h | h
        · exact Or.inl h
        · exact Or.inr (List.mem_cons_of_mem _ h)

theorem setItem_of_notMem {α β : Type} [DecidableEq α] {k : α} {v : β} {d : List (α × β)}
    (h : k ∉ d.map Prod.fst) : setItem k v d = d ++ [(k, v)] := by
  induction d with
  | nil => rfl
  | cons p d ih =>
    simp only [List.map_cons, List.mem_cons, not_or] at h
    rw [setItem, if_neg (Ne.symm h.1), ih h.2]
    rfl

theorem ofPairs_nodup {α β : Type} [DecidableEq α] (kvs : List (α × β)) :
    ((ofPairs kvs).map Prod.fst).Nodup := by
  have : ∀ d : List (α × β), (d.map Prod.fst).Nodup →
      ((kvs.foldl (fun d p => setItem p.1 p.2 d) d).map Prod.fst).Nodup := by
    induction kvs with
    | nil => exact fun d h => h
    | cons p kvs ih => exact fun d h => ih _ (setItem_nodup h)
  exact this [] (by simp)

theorem mem_ofPairs {α β : Type} [DecidableEq α] {kvs : List (α × β)} {p : α × β}
    (h : p ∈ ofPairs kvs) : p ∈ kvs := by
  have : ∀ d : List (α × β), p ∈ kvs.foldl (fun d p => setItem p.1 p.2 d) d →
      p ∈ d ∨ p ∈ kvs := by
    clear h
    induction kvs with
    | nil => exact fun d h => Or.inl h
    | cons q kvs ih =>
      intro d h
      rcases ih _ h with h | h
      · rcases mem_setItem h with rfl | h
        · exact Or.inr (by simp)
        · exact Or.inl h
      · exact Or.inr (List.mem_cons_of_mem _ h)
  rcases this [] h with h | h
  · simp at h
  · exact h

/-- A dict built from members without a repeated key has exactly these members. -/
theorem ofPairs_of_nodup {α β : Type} [DecidableEq α] {kvs : List (α × β)}
    (h : (kvs.map Prod.fst).Nodup) : ofPairs kvs = kvs := by
  have : ∀ d : List (α × β), ((d ++ kvs).map Prod.fst).Nodup →
      kvs.foldl (fun d p => setItem p.1 p.2 d) d = d ++ kvs := by
    clear h
    induction kvs with
    | nil => simp
    | cons p kvs ih =>
      intro d hd
      have hp : p.1 ∉ d.map Prod.fst := by
        intro hm
        rw [List.map_append, List.map_cons] at hd
        exact (List.nodup_append.mp hd).2.2 _ hm _ (by simp) rfl
      rw [List.foldl_cons, setItem_of_notMem hp, ih _ (by simpa using hd)]
      simp
  exact this [] (by simpa using h)

/-! ## Sorted names -/

instance : IsTrans (PyStr × Json F) nameLE := ⟨fun _ _ _ h k => le_trans (α := PyStr) h k⟩

instance : Std.Total (nameLE (F := F)) := ⟨fun a b => le_total a.1 b.1⟩

theorem names_insertionSort (kvs : List (PyStr × Json F)) :
    ((kvs.insertionSort nameLE).map Prod.fst).Perm (kvs.map Prod.fst) :=
  (List.perm_insertionSort nameLE kvs).map Prod.fst

/-- Sorting members with distinct names leaves the names strictly increasing. -/
theorem insertionSort_names_lt {kvs : List (PyStr × Json F)} (h : (kvs.map Prod.fst).Nodup) :
    ((kvs.insertionSort nameLE).map Prod.fst).Pairwise (· < ·) := by
  have hle : ((kvs.insertionSort nameLE).map Prod.fst).Pairwise (· ≤ ·) :=
    List.pairwise_map.mpr (List.pairwise_insertionSort nameLE kvs)
  have hne : ((kvs.insertionSort nameLE).map Prod.fst).Pairwise (· ≠ ·) :=
    (names_insertionSort kvs).nodup_iff.mpr h
  exact hle.imp₂ (fun _ _ h₁ h₂ => lt_of_le_of_ne h₁ h₂) hne

theorem insertionSort_of_names_lt {kvs : List (PyStr × Json F)}
    (h : (kvs.map Prod.fst).Pairwise (· < ·)) : kvs.insertionSort nameLE = kvs :=
  List.Pairwise.insertionSort_eq
    ((List.pairwise_map.mp h).imp fun hab => le_of_lt hab)

theorem names_nodup_of_lt {kvs : List (PyStr × Json F)}
    (h : (kvs.map Prod.fst).Pairwise (· < ·)) : (kvs.map Prod.fst).Nodup :=
  h.imp fun hab => ne_of_lt hab

theorem dedup_of_sorted (j : Json F) (h : NamesSorted j) : j.dedup = j := by
  induction j using Json.nested with
  | null => rfl
  | bool b => rfl
  | int n => rfl
  | float x => rfl
  | str s => rfl
  | arr xs ih =>
    have hxs := (elemsSorted_iff xs).mp h
    rw [Json.dedup, dedupElems_eq, List.map_congr_left fun x hx => ih x hx (hxs x hx),
      List.map_id']
  | obj kvs ih =>
    have hkvs := (membersSorted_iff kvs).mp h.2
    have hm : dedupMembers kvs = kvs := by
      rw [dedupMembers_eq]
      exact (List.map_congr_left fun p hp => by rw [ih p hp (hkvs p hp)]).trans (List.map_id' kvs)
    rw [Json.dedup, hm, ofPairs_of_nodup (names_nodup_of_lt h.1)]

theorem sortNames_of_sorted (j : Json F) (h : NamesSorted j) : sortNames j = j := by
  induction j using Json.nested with
  | null => rfl
  | bool b => rfl
  | int n => rfl
  | float x => rfl
  | str s => rfl
  | arr xs ih =>
    have hxs := (elemsSorted_iff xs).mp h
    rw [sortNames, sortElems_eq, List.map_congr_left fun x hx => ih x hx (hxs x hx),
      List.map_id']
  | obj kvs ih =>
    have hkvs := (membersSorted_iff kvs).mp h.2
    have hm : sortMembers kvs = kvs := by
      rw [sortMembers_eq]
      exact (List.map_congr_left fun p hp => by rw [ih p hp (hkvs p hp)]).trans (List.map_id' kvs)
    rw [sortNames, hm, insertionSort_of_names_lt h.1]

/-- What a reader holds, written again, has its names in strictly increasing order. -/
theorem namesSorted_sortNames_dedup (j : Json F) : NamesSorted (sortNames j.dedup) := by
  induction j using Json.nested with
  | null => trivial
  | bool b => trivial
  | int n => trivial
  | float x => trivial
  | str s => trivial
  | arr xs ih =>
    rw [Json.dedup, sortNames, NamesSorted, elemsSorted_iff, sortElems_eq, dedupElems_eq]
    intro x hx
    obtain ⟨y, hy, rfl⟩ := List.mem_map.mp hx
    obtain ⟨z, hz, rfl⟩ := List.mem_map.mp hy
    exact ih z hz
  | obj kvs ih =>
    rw [Json.dedup, sortNames]
    refine ⟨insertionSort_names_lt ?_, (membersSorted_iff _).mpr ?_⟩
    · rw [sortMembers_names]
      exact ofPairs_nodup _
    · intro p hp
      rw [List.mem_insertionSort, sortMembers_eq] at hp
      obtain ⟨q, hq, rfl⟩ := List.mem_map.mp hp
      have hq' := mem_ofPairs hq
      rw [dedupMembers_eq] at hq'
      obtain ⟨r, hr, rfl⟩ := List.mem_map.mp hq'
      exact ih r hr

theorem sortNames_dedup_eq_self_iff (j : Json F) : sortNames j.dedup = j ↔ NamesSorted j := by
  constructor
  · intro h
    rw [← h]
    exact namesSorted_sortNames_dedup j
  · intro h
    rw [dedup_of_sorted j h, sortNames_of_sorted j h]

/-! ## What a reader can hold -/

theorem dedup_dedup (j : Json F) : j.dedup.dedup = j.dedup := by
  induction j using Json.nested with
  | null => rfl
  | bool b => rfl
  | int n => rfl
  | float x => rfl
  | str s => rfl
  | arr xs ih =>
    simp only [Json.dedup, dedupElems_eq, List.map_map]
    exact congrArg Json.arr (List.map_congr_left fun x hx => ih x hx)
  | obj kvs ih =>
    have hfix : dedupMembers (ofPairs (dedupMembers kvs)) = ofPairs (dedupMembers kvs) := by
      rw [dedupMembers_eq (ofPairs _)]
      refine (List.map_congr_left fun p hp => ?_).trans (List.map_id' _)
      have hp' := mem_ofPairs hp
      rw [dedupMembers_eq] at hp'
      obtain ⟨q, hq, rfl⟩ := List.mem_map.mp hp'
      rw [ih q hq]
    rw [Json.dedup, Json.dedup, hfix, ofPairs_of_nodup (ofPairs_nodup _)]

theorem arr_dedup_eq_self {xs : List (Json F)} (h : (Json.arr xs).dedup = .arr xs) :
    ∀ x ∈ xs, x.dedup = x := by
  rw [Json.dedup, Json.arr.injEq, dedupElems_eq] at h
  intro x hx
  obtain ⟨i, hi, rfl⟩ := List.getElem_of_mem hx
  have := congrArg (·[i]?) h
  simpa [hi] using this

/-- An object a reader holds has distinct names and values that a reader can hold. -/
theorem obj_dedup_eq_self {kvs : List (PyStr × Json F)}
    (h : (Json.obj kvs).dedup = .obj kvs) :
    (kvs.map Prod.fst).Nodup ∧ ∀ p ∈ kvs, p.2.dedup = p.2 := by
  rw [Json.dedup, Json.obj.injEq] at h
  have hn : (kvs.map Prod.fst).Nodup := h ▸ ofPairs_nodup _
  rw [ofPairs_of_nodup ((dedupMembers_names kvs).symm ▸ hn), dedupMembers_eq] at h
  refine ⟨hn, fun p hp => ?_⟩
  obtain ⟨i, hi, rfl⟩ := List.getElem_of_mem hp
  have := congrArg (·[i]?) h
  simp only [List.getElem?_map, List.getElem?_eq_getElem hi, Option.map_some,
    Option.some.injEq] at this
  exact congrArg Prod.snd this

/-! ## Finite values -/

variable [PyFloat F]

theorem finite_dedup (j : Json F) (h : j.Finite) : j.dedup.Finite := by
  induction j using Json.nested with
  | null => exact h
  | bool b => exact h
  | int n => exact h
  | float x => exact h
  | str s => exact h
  | arr xs ih =>
    rw [Json.Finite, finiteElems_iff] at h
    rw [Json.dedup, Json.Finite, finiteElems_iff, dedupElems_eq]
    intro x hx
    obtain ⟨y, hy, rfl⟩ := List.mem_map.mp hx
    exact ih y hy (h y hy)
  | obj kvs ih =>
    rw [Json.Finite, finiteMembers_iff] at h
    rw [Json.dedup, Json.Finite, finiteMembers_iff]
    intro p hp
    have hp' := mem_ofPairs hp
    rw [dedupMembers_eq] at hp'
    obtain ⟨q, hq, rfl⟩ := List.mem_map.mp hp'
    exact ih q hq (h q hq)

theorem finite_sortNames (j : Json F) (h : j.Finite) : (sortNames j).Finite := by
  induction j using Json.nested with
  | null => exact h
  | bool b => exact h
  | int n => exact h
  | float x => exact h
  | str s => exact h
  | arr xs ih =>
    rw [Json.Finite, finiteElems_iff] at h
    rw [sortNames, Json.Finite, finiteElems_iff, sortElems_eq]
    intro x hx
    obtain ⟨y, hy, rfl⟩ := List.mem_map.mp hx
    exact ih y hy (h y hy)
  | obj kvs ih =>
    rw [Json.Finite, finiteMembers_iff] at h
    rw [sortNames, Json.Finite, finiteMembers_iff]
    intro p hp
    rw [List.mem_insertionSort, sortMembers_eq] at hp
    obtain ⟨q, hq, rfl⟩ := List.mem_map.mp hp
    exact ih q hq (h q hq)

theorem loads_render {j : Json F} (h : j.Finite) {t : PyStr} (ht : ∀ c ∈ t, isWs c = true) :
    loads (render j ++ t) = some j.dedup := by
  rw [loads, parse_render h ht]
  rfl

/-! ## Writing what was read -/

/-- Sorting items sees the keys only. -/
theorem sortItems_map {α β : Type} (f : α → β) (items : List (PyKey F × α)) :
    sortItems (items.map fun p => (p.1, f p.2)) =
      (sortItems items).map (List.map fun p => (p.1, f p.2)) := by
  unfold sortItems
  simp only [List.all_map, Function.comp_def, List.length_map]
  split_ifs
  · exact congrArg Except.ok (List.map_insertionSort strLE strLE
      (fun p : PyKey F × α => (p.1, f p.2)) items fun _ _ _ _ => Iff.rfl).symm
  · exact congrArg Except.ok (List.map_insertionSort numberLE numberLE
      (fun p : PyKey F × α => (p.1, f p.2)) items fun _ _ _ _ => Iff.rfl).symm
  · rfl
  · rfl

/-- Items with string keys are sorted by name. -/
theorem sortItems_str (kvs : List (PyStr × Json F)) :
    sortItems (kvs.map fun p => ((PyKey.str p.1 : PyKey F),
        (Except.ok p.2 : Except JsonError (Json F)))) =
      .ok ((kvs.insertionSort nameLE).map fun p => (PyKey.str p.1, .ok p.2)) := by
  have hall : (kvs.map fun p => ((PyKey.str p.1 : PyKey F),
      (Except.ok p.2 : Except JsonError (Json F)))).all (·.1.isStr) = true := by
    simp [PyKey.isStr]
  rw [sortItems, if_pos hall]
  exact congrArg Except.ok
    (List.map_insertionSort nameLE strLE _ kvs fun _ _ _ _ => Iff.rfl).symm

theorem lowerMembers_str (kvs : List (PyStr × Json F)) :
    lowerMembers (kvs.map fun p => ((PyKey.str p.1 : PyKey F), Except.ok p.2)) = .ok kvs := by
  induction kvs with
  | nil => rfl
  | cons p kvs ih =>
    simp only [List.map_cons, lowerMembers, PyKey.isFinite, if_true, ih, PyKey.jsonText]
    rfl

theorem lowerElems_ok {xs : List (PyVal F)} {js : List (Json F)}
    (h : List.Forall₂ (fun x j => lower x = .ok j) xs js) : lowerElems xs = .ok js := by
  induction h with
  | nil => rfl
  | cons hx _ ih => simp [lowerElems, hx, ih, Except.map]

theorem lowerItems_eq (kvs : List (PyKey F × PyVal F)) :
    lowerItems kvs = kvs.map fun p => (p.1, lower p.2) := by
  induction kvs with
  | nil => rfl
  | cons p kvs ih => simp [lowerItems, ih]

/-- json.dumps of a value that json.loads returned. -/
theorem lower_ofJson (j : Json F) (h : j.Finite) : lower (ofJson j) = .ok (sortNames j) := by
  induction j using Json.nested with
  | null => rfl
  | bool b => rfl
  | int n => rfl
  | float x =>
    have hx : (PyFloat.value x).isFinite = true := h
    rw [ofJson, lower, if_pos hx]
    rfl
  | str s => rfl
  | arr xs ih =>
    rw [Json.Finite, finiteElems_iff] at h
    have hok : lowerElems (ofElems xs) = .ok (sortElems xs) := by
      apply lowerElems_ok
      rw [ofElems_eq, sortElems_eq, List.forall₂_map_left_iff, List.forall₂_map_right_iff]
      exact List.forall₂_same.mpr fun x hx => ih x hx (h x hx)
    rw [ofJson, lower, hok]
    rfl
  | obj kvs ih =>
    rw [Json.Finite, finiteMembers_iff] at h
    have hitems : lowerItems (ofMembers kvs) =
        (sortMembers kvs).map fun p => (PyKey.str p.1, .ok p.2) := by
      rw [lowerItems_eq, ofMembers_eq, sortMembers_eq, List.map_map, List.map_map]
      exact List.map_congr_left fun p hp => by
        simp only [Function.comp_apply, ih p hp (h p hp)]
    rw [ofJson, lower, hitems, sortItems_str]
    simp only [lowerMembers_str]
    rfl

/-- The text of a value read from JSON. -/
theorem dumps_ofJson {j : Json F} (h : j.Finite) :
    dumps (ofJson j) = .ok (render (sortNames j)) := by
  rw [dumps, lower_ofJson j h]
  rfl

/-! ## Equality of values that were read -/

omit [PyFloat F] in
theorem find_key {kvs : List (PyStr × Json F)} (hn : (kvs.map Prod.fst).Nodup)
    {p : PyStr × Json F} (hp : p ∈ kvs) :
    kvs.find? (fun q => p.1 == q.1) = some p := by
  induction kvs with
  | nil => simp at hp
  | cons q kvs ih =>
    rw [List.map_cons, List.nodup_cons] at hn
    rcases List.mem_cons.mp hp with rfl | hp
    · simp
    · have hne : ¬p.1 = q.1 := fun he => hn.1 (he ▸ List.mem_map_of_mem hp)
      rw [List.find?_cons_of_neg (by simpa using hne), ih hn.2 hp]

theorem find_ofMembers {kvs : List (PyStr × Json F)} (hn : (kvs.map Prod.fst).Nodup)
    {p : PyStr × Json F} (hp : p ∈ kvs) :
    (ofMembers kvs).find? (fun q => sameKey (.str p.1) q.1) = some (.str p.1, ofJson p.2) := by
  rw [ofMembers_eq, List.find?_map]
  have hfun : ((fun q : PyKey F × PyVal F => sameKey (.str p.1) q.1) ∘
      fun q : PyStr × Json F => (PyKey.str q.1, ofJson q.2)) = fun q => p.1 == q.1 := rfl
  rw [hfun, find_key hn hp]
  rfl

theorem pyEqElems_of_forall₂ {xs ys : List (PyVal F)}
    (h : List.Forall₂ (fun x y => pyEq x y = true) xs ys) : pyEqElems xs ys = true := by
  induction h with
  | nil => rfl
  | cons hxy _ ih => simp [pyEqElems, hxy, ih]

theorem pyEqItems_of_forall {kvs d : List (PyKey F × PyVal F)}
    (h : ∀ p ∈ kvs, ∃ q, d.find? (fun q => sameKey p.1 q.1) = some q ∧ pyEq p.2 q.2 = true) :
    pyEqItems kvs d = true := by
  induction kvs with
  | nil => rfl
  | cons p kvs ih =>
    obtain ⟨q, hq, hpq⟩ := h p (by simp)
    have ih := ih fun r hr => h r (List.mem_cons_of_mem _ hr)
    simp [pyEqItems, hq, hpq, ih]

/-- Two values read from JSON that are written alike are equal in Python. -/
theorem pyEq_ofJson (j : Json F) :
    ∀ k : Json F, j.Finite → j.dedup = j → k.dedup = k → sortNames j = sortNames k →
      pyEq (ofJson j) (ofJson k) = true := by
  induction j using Json.nested with
  | null => intro k _ _ _ hs; cases k <;> cases hs; rfl
  | bool b =>
    intro k _ _ _ hs
    cases k <;> cases hs
    simp [ofJson, pyEq, numberOf, sameNumber]
  | int n =>
    intro k _ _ _ hs
    cases k <;> cases hs
    simp [ofJson, pyEq, numberOf, sameNumber]
  | float x =>
    intro k hf _ _ hs
    cases k <;> cases hs
    have hx : (PyFloat.value x).isFinite = true := hf
    cases hv : PyFloat.value x <;> rw [hv] at hx <;> cases hx
    simp [ofJson, pyEq, numberOf, sameNumber, hv]
  | str s =>
    intro k _ _ _ hs
    cases k <;> cases hs
    simp [ofJson, pyEq]
  | arr xs ih =>
    intro k hf hj hk hs
    cases k with
    | arr ys =>
      rw [Json.Finite, finiteElems_iff] at hf
      rw [sortNames, sortNames, Json.arr.injEq, sortElems_eq, sortElems_eq] at hs
      rw [ofJson, ofJson, pyEq, ofElems_eq, ofElems_eq]
      refine pyEqElems_of_forall₂ ?_
      rw [List.forall₂_map_left_iff, List.forall₂_map_right_iff, List.forall₂_iff_get]
      have hlen : xs.length = ys.length := by simpa using congrArg List.length hs
      refine ⟨hlen, fun i hx hy => ih _ (List.get_mem xs ⟨i, hx⟩) _ (hf _ (List.get_mem xs _))
        (arr_dedup_eq_self hj _ (List.get_mem xs _)) (arr_dedup_eq_self hk _ (List.get_mem ys _))
        ?_⟩
      have := congrArg (·[i]?) hs
      simpa [hx, hy] using this
    | _ => simp [sortNames] at hs
  | obj kvs ih =>
    intro k hf hj hk hs
    cases k with
    | obj kvs' =>
      rw [Json.Finite, finiteMembers_iff] at hf
      rw [sortNames, sortNames, Json.obj.injEq] at hs
      have hperm : (sortMembers kvs).Perm (sortMembers kvs') :=
        (List.perm_insertionSort nameLE _).symm.trans
          (hs ▸ List.perm_insertionSort nameLE _)
      have hlen : kvs.length = kvs'.length := by
        simpa [sortMembers_eq] using hperm.length_eq
      obtain ⟨hn, hvals⟩ := obj_dedup_eq_self hj
      obtain ⟨hn', hvals'⟩ := obj_dedup_eq_self hk
      rw [ofJson, ofJson, pyEq, Bool.and_eq_true]
      refine ⟨by simp [ofMembers_eq, hlen], pyEqItems_of_forall ?_⟩
      intro p hp
      rw [ofMembers_eq] at hp
      obtain ⟨q, hq, rfl⟩ := List.mem_map.mp hp
      have hmem : (q.1, sortNames q.2) ∈ sortMembers kvs' := by
        rw [← hperm.mem_iff, sortMembers_eq]
        exact List.mem_map_of_mem (f := fun p => (p.1, sortNames p.2)) hq
      rw [sortMembers_eq] at hmem
      obtain ⟨r, hr, hrq⟩ := List.mem_map.mp hmem
      rw [Prod.mk.injEq] at hrq
      refine ⟨(.str r.1, ofJson r.2), ?_, ?_⟩
      · rw [← hrq.1]
        exact find_ofMembers hn' hr
      · exact ih q hq r.2 (hf q hq) (hvals q hq) (hvals' r hr) hrq.2.symm
    | _ => simp [sortNames] at hs

end PyValue
