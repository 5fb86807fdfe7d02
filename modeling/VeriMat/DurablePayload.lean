import VeriMat.PyValueRoundTrip
import VeriMat.Events

/-! # Durable payloads read back

A payload that passed `validate_durable_payload` is written with its keys in Python's order
and read back as a dict with text keys. `KeyOrderAgrees` and `hiddenKeys` name the two places
where the value that was checked and the JSON that is read part company. -/
namespace DurablePayload

open PyText JsonText PyValue Events

/-! ## A sorted list is ordered by another relation as well -/

section Sorting

variable {α : Type*} (r : α → α → Prop) [DecidableRel r] [IsTrans α r] [Std.Total r]

omit [Std.Total r] in
theorem pairwise_orderedInsert_iff {s : α → α → Prop} (a : α) (l : List α)
    (hl : l.Pairwise r) :
    (l.orderedInsert r a).Pairwise s ↔
      l.Pairwise s ∧ ∀ b ∈ l, if r a b then s a b else s b a := by
  induction l with
  | nil => simp
  | cons b l ih =>
    have hb : ∀ c ∈ l, r b c := fun c hc => List.rel_of_pairwise_cons hl hc
    have ih := ih (List.Pairwise.of_cons hl)
    by_cases hab : r a b
    · rw [List.orderedInsert_cons_of_le r l hab, List.pairwise_cons, and_comm]
      refine and_congr_right fun _ => forall₂_congr fun c hc => ?_
      rcases List.mem_cons.mp hc with rfl | hc
      · rw [if_pos hab]
      · rw [if_pos (trans_of r hab (hb c hc))]
    · rw [List.orderedInsert_of_not_le r l hab, List.pairwise_cons, ih, List.pairwise_cons]
      simp only [List.mem_orderedInsert, List.mem_cons, forall_eq_or_imp, if_neg hab]
      tauto

/-- A stable sort by `r` leaves a list ordered by `s` when `s` orders each pair as `r` does. -/
theorem pairwise_insertionSort_iff {s : α → α → Prop} (l : List α) :
    (l.insertionSort r).Pairwise s ↔ l.Pairwise fun a b => if r a b then s a b else s b a := by
  induction l with
  | nil => simp
  | cons a l ih =>
    rw [List.insertionSort_cons,
      pairwise_orderedInsert_iff r a _ (List.pairwise_insertionSort r l), ih,
      List.pairwise_cons, and_comm]
    simp only [List.mem_insertionSort]

end Sorting

variable {F : Type} [PyFloat F]

/-! ## Keys of a value and names of its JSON -/

mutual

/-- The dict keys at any depth of a value. -/
def allKeys : PyVal F → List (PyKey F)
  | .list xs | .tuple xs => allKeysElems xs
  | .dict kvs => allKeysItems kvs
  | _ => []

def allKeysElems : List (PyVal F) → List (PyKey F)
  | [] => []
  | x :: xs => allKeys x ++ allKeysElems xs

def allKeysItems : List (PyKey F × PyVal F) → List (PyKey F)
  | [] => []
  | (k, v) :: kvs => k :: allKeys v ++ allKeysItems kvs

end

mutual

/-- The dict keys inside some tuple, where the scan for sensitive keys does not go. -/
def hiddenKeys : PyVal F → List (PyKey F)
  | .list xs => hiddenKeysElems xs
  | .tuple xs => allKeysElems xs
  | .dict kvs => hiddenKeysItems kvs
  | _ => []

def hiddenKeysElems : List (PyVal F) → List (PyKey F)
  | [] => []
  | x :: xs => hiddenKeys x ++ hiddenKeysElems xs

def hiddenKeysItems : List (PyKey F × PyVal F) → List (PyKey F)
  | [] => []
  | (_, v) :: kvs => hiddenKeys v ++ hiddenKeysItems kvs

end

mutual

/-- The member names at any depth of a JSON value. -/
def names : Json F → List PyStr
  | .arr xs => namesElems xs
  | .obj kvs => namesMembers kvs
  | _ => []

def namesElems : List (Json F) → List PyStr
  | [] => []
  | x :: xs => names x ++ namesElems xs

def namesMembers : List (PyStr × Json F) → List PyStr
  | [] => []
  | (k, v) :: kvs => k :: names v ++ namesMembers kvs

end

/-- Python's `<` on two keys, where it is defined. -/
def keyLT (a b : PyKey F) : Prop :=
  (a.isStr = true ∧ b.isStr = true ∧ a.strValue < b.strValue) ∨
    (a.isNumber = true ∧ b.isNumber = true ∧ a.number < b.number)

instance : DecidableRel (keyLT (F := F)) := fun a b => by
  unfold keyLT; infer_instance

/-- Of a key and a later one, the texts are in the strict order Python sorts the keys in. -/
def TextOrderAgrees (a b : PyKey F) : Prop :=
  if keyLT b a then b.jsonText < a.jsonText else a.jsonText < b.jsonText

instance : DecidableRel (TextOrderAgrees (F := F)) := fun a b => by
  unfold TextOrderAgrees; infer_instance

mutual

/-- In every dict, Python sorts the keys as it sorts their texts. -/
def KeyOrderAgrees : PyVal F → Prop
  | .list xs | .tuple xs => ElemsAgree xs
  | .dict kvs => (kvs.map Prod.fst).Pairwise TextOrderAgrees ∧ ItemsAgree kvs
  | _ => True

def ElemsAgree : List (PyVal F) → Prop
  | [] => True
  | x :: xs => KeyOrderAgrees x ∧ ElemsAgree xs

def ItemsAgree : List (PyKey F × PyVal F) → Prop
  | [] => True
  | (_, v) :: kvs => KeyOrderAgrees v ∧ ItemsAgree kvs

end

omit [PyFloat F] in
theorem mem_allKeysElems {k : PyKey F} {xs : List (PyVal F)} :
    k ∈ allKeysElems xs ↔ ∃ x ∈ xs, k ∈ allKeys x := by
  induction xs with
  | nil => simp [allKeysElems]
  | cons x xs ih => simp [allKeysElems, ih]

omit [PyFloat F] in
theorem mem_allKeysItems {k : PyKey F} {kvs : List (PyKey F × PyVal F)} :
    k ∈ allKeysItems kvs ↔ ∃ p ∈ kvs, k = p.1 ∨ k ∈ allKeys p.2 := by
  induction kvs with
  | nil => simp [allKeysItems]
  | cons p kvs ih => simp [allKeysItems, ih, or_assoc]

omit [PyFloat F] in
theorem mem_hiddenKeysElems {k : PyKey F} {xs : List (PyVal F)} :
    k ∈ hiddenKeysElems xs ↔ ∃ x ∈ xs, k ∈ hiddenKeys x := by
  induction xs with
  | nil => simp [hiddenKeysElems]
  | cons x xs ih => simp [hiddenKeysElems, ih]

omit [PyFloat F] in
theorem mem_hiddenKeysItems {k : PyKey F} {kvs : List (PyKey F × PyVal F)} :
    k ∈ hiddenKeysItems kvs ↔ ∃ p ∈ kvs, k ∈ hiddenKeys p.2 := by
  induction kvs with
  | nil => simp [hiddenKeysItems]
  | cons p kvs ih => simp [hiddenKeysItems, ih]

omit [PyFloat F] in
theorem mem_namesElems {n : PyStr} {xs : List (Json F)} :
    n ∈ namesElems xs ↔ ∃ x ∈ xs, n ∈ names x := by
  induction xs with
  | nil => simp [namesElems]
  | cons x xs ih => simp [namesElems, ih]

omit [PyFloat F] in
theorem mem_namesMembers {n : PyStr} {kvs : List (PyStr × Json F)} :
    n ∈ namesMembers kvs ↔ ∃ p ∈ kvs, n = p.1 ∨ n ∈ names p.2 := by
  induction kvs with
  | nil => simp [namesMembers]
  | cons p kvs ih => simp [namesMembers, ih, or_assoc]

theorem elemsAgree_iff {xs : List (PyVal F)} :
    ElemsAgree xs ↔ ∀ x ∈ xs, KeyOrderAgrees x := by
  induction xs with
  | nil => simp [ElemsAgree]
  | cons x xs ih => simp [ElemsAgree, ih]

theorem itemsAgree_iff {kvs : List (PyKey F × PyVal F)} :
    ItemsAgree kvs ↔ ∀ p ∈ kvs, KeyOrderAgrees p.2 := by
  induction kvs with
  | nil => simp [ItemsAgree]
  | cons p kvs ih => simp [ItemsAgree, ih]

omit [PyFloat F] in
theorem hiddenKeys_subset (v : PyVal F) : ∀ k ∈ hiddenKeys v, k ∈ allKeys v := by
  induction v using PyVal.nested with
  | none => simp [hiddenKeys]
  | bool b => simp [hiddenKeys]
  | int n => simp [hiddenKeys]
  | float x => simp [hiddenKeys]
  | str s => simp [hiddenKeys]
  | list xs ih =>
    intro k hk
    obtain ⟨x, hx, hk⟩ := mem_hiddenKeysElems.mp hk
    exact mem_allKeysElems.mpr ⟨x, hx, ih x hx k hk⟩
  | tuple xs _ => exact fun k hk => hk
  | dict kvs ih =>
    intro k hk
    obtain ⟨p, hp, hk⟩ := mem_hiddenKeysItems.mp hk
    exact mem_allKeysItems.mpr ⟨p, hp, Or.inr (ih p hp k hk)⟩
  | other => simp [hiddenKeys]

/-! ## What json.dumps writes -/

theorem sortItems_perm {α : Type} {items sorted : List (PyKey F × α)}
    (h : sortItems items = .ok sorted) : sorted.Perm items := by
  unfold sortItems at h
  split_ifs at h <;> cases h
  · exact List.perm_insertionSort _ _
  · exact List.perm_insertionSort _ _
  · exact List.Perm.refl _

instance {α : Type} : IsTrans (PyKey F × α) strLE := ⟨fun _ _ _ h k => le_trans (α := PyStr) h k⟩

instance {α : Type} : Std.Total (strLE (F := F) (α := α)) :=
  ⟨fun a b => le_total a.1.strValue b.1.strValue⟩

instance {α : Type} : IsTrans (PyKey F × α) numberLE := ⟨fun _ _ _ h k => le_trans (α := ℚ) h k⟩

instance {α : Type} : Std.Total (numberLE (F := F) (α := α)) :=
  ⟨fun a b => le_total a.1.number b.1.number⟩

omit [PyFloat F] in
theorem isNumber_of_isStr {k : PyKey F} (h : k.isStr = true) : k.isNumber = false := by
  cases k <;> first | rfl | cases h

/-- Sorted items have their texts in strict order when each pair of keys does. -/
theorem sortItems_texts {α : Type} {items sorted : List (PyKey F × α)}
    (h : sortItems items = .ok sorted) :
    sorted.Pairwise (fun p q => p.1.jsonText < q.1.jsonText) ↔
      (items.map Prod.fst).Pairwise TextOrderAgrees := by
  rw [List.pairwise_map]
  unfold sortItems at h
  split_ifs at h with hs hn hl <;> cases h
  · rw [pairwise_insertionSort_iff strLE]
    refine List.Pairwise.iff_of_mem fun {a b} ha hb => ?_
    have ha := List.all_eq_true.mp hs a ha
    have hb := List.all_eq_true.mp hs b hb
    have hlt : keyLT b.1 a.1 ↔ ¬strLE a b := by
      simp [keyLT, strLE, ha, hb, isNumber_of_isStr ha]
    by_cases hab : strLE a b <;> simp [TextOrderAgrees, hlt, hab]
  · rw [pairwise_insertionSort_iff numberLE]
    refine List.Pairwise.iff_of_mem fun {a b} ha hb => ?_
    have ha := List.all_eq_true.mp hn a ha
    have hb := List.all_eq_true.mp hn b hb
    have hstr : a.1.isStr = false := by
      cases hk : a.1.isStr
      · rfl
      · rw [isNumber_of_isStr hk] at ha
        cases ha
    have hlt : keyLT b.1 a.1 ↔ ¬numberLE a b := by
      simp [keyLT, numberLE, ha, hb, hstr]
    by_cases hab : numberLE a b <;> simp [TextOrderAgrees, hlt, hab]
  · match items, hl with
    | [], _ => simp
    | [p], _ => simp

theorem lowerElems_inv {xs : List (PyVal F)} {js : List (Json F)}
    (h : lowerElems xs = .ok js) : List.Forall₂ (fun x j => lower x = .ok j) xs js := by
  induction xs generalizing js with
  | nil => cases h; exact .nil
  | cons x xs ih =>
    rw [lowerElems] at h
    cases hx : lower x with
    | error e => simp [hx] at h
    | ok j =>
      rw [hx] at h
      cases hxs : lowerElems xs with
      | error e => rw [hxs] at h; cases h
      | ok js' =>
        rw [hxs] at h
        cases h
        exact .cons hx (ih hxs)

/-- One member written for one item. -/
def WritesItem (p : PyKey F × Except JsonError (Json F)) (m : PyStr × Json F) : Prop :=
  p.1.isFinite = true ∧ p.2 = .ok m.2 ∧ m.1 = p.1.jsonText

theorem lowerMembers_inv {items : List (PyKey F × Except JsonError (Json F))}
    {kvs : List (PyStr × Json F)} (h : lowerMembers items = .ok kvs) :
    List.Forall₂ WritesItem items kvs := by
  induction items generalizing kvs with
  | nil => cases h; exact .nil
  | cons p items ih =>
    obtain ⟨k, r⟩ := p
    unfold lowerMembers at h
    split_ifs at h with hk
    cases r with
    | error e => cases h
    | ok j =>
      cases hi : lowerMembers items with
      | error e => rw [hi] at h; cases h
      | ok ms =>
        rw [hi] at h
        cases h
        exact .cons ⟨hk, rfl, rfl⟩ (ih hi)

/-- A dict is written as its sorted items, each key as its text. -/
theorem lower_dict_inv {kvs : List (PyKey F × PyVal F)} {j : Json F}
    (h : lower (.dict kvs) = .ok j) :
    ∃ sorted members, sortItems kvs = .ok sorted ∧ j = .obj members ∧
      List.Forall₂ (fun p m => p.1.isFinite = true ∧ lower p.2 = .ok m.2 ∧ m.1 = p.1.jsonText)
        sorted members := by
  rw [lower, lowerItems_eq, sortItems_map] at h
  cases hs : sortItems kvs with
  | error e => rw [hs] at h; cases h
  | ok sorted =>
    rw [hs] at h
    simp only [Except.map] at h
    cases hm : lowerMembers (sorted.map fun p => (p.1, lower p.2)) with
    | error e => rw [hm] at h; cases h
    | ok members =>
      rw [hm] at h
      cases h
      exact ⟨sorted, members, rfl, rfl, List.forall₂_map_left_iff.mp (lowerMembers_inv hm)⟩

theorem lower_list_inv {xs : List (PyVal F)} {j : Json F}
    (h : (lowerElems xs).map Json.arr = .ok j) :
    ∃ js, j = .arr js ∧ List.Forall₂ (fun x j => lower x = .ok j) xs js := by
  cases hxs : lowerElems xs with
  | error e => rw [hxs] at h; cases h
  | ok js =>
    rw [hxs] at h
    cases h
    exact ⟨js, rfl, lowerElems_inv hxs⟩

section Related

variable {α β : Type*} {R : α → β → Prop} {xs : List α} {ys : List β}

theorem exists_left (h : List.Forall₂ R xs ys) {y : β} (hy : y ∈ ys) : ∃ x ∈ xs, R x y := by
  induction h with
  | nil => simp at hy
  | cons hxy _ ih =>
    rcases List.mem_cons.mp hy with rfl | hy
    · exact ⟨_, List.mem_cons_self, hxy⟩
    · obtain ⟨x, hx, hR⟩ := ih hy
      exact ⟨x, List.mem_cons_of_mem _ hx, hR⟩

theorem exists_right (h : List.Forall₂ R xs ys) {x : α} (hx : x ∈ xs) : ∃ y ∈ ys, R x y :=
  exists_left h.flip hx

end Related

theorem finite_elems {xs : List (PyVal F)} {js : List (Json F)}
    (h : List.Forall₂ (fun x j => lower x = .ok j) xs js)
    (ih : ∀ x ∈ xs, ∀ j, lower x = .ok j → j.Finite) : (Json.arr js).Finite := by
  rw [Json.Finite, finiteElems_iff]
  intro y hy
  obtain ⟨x, hx, hxy⟩ := exists_left h hy
  exact ih x hx y hxy

theorem lower_finite (v : PyVal F) : ∀ j, lower v = .ok j → j.Finite := by
  induction v using PyVal.nested with
  | none => rintro _ ⟨⟩; trivial
  | bool b => rintro _ ⟨⟩; trivial
  | int n => rintro _ ⟨⟩; trivial
  | float x =>
    intro j h
    rw [lower] at h
    split_ifs at h with hx
    cases h
    exact hx
  | str s => rintro _ ⟨⟩; trivial
  | list xs ih =>
    intro j h
    obtain ⟨js, rfl, hjs⟩ := lower_list_inv h
    exact finite_elems hjs ih
  | tuple xs ih =>
    intro j h
    obtain ⟨js, rfl, hjs⟩ := lower_list_inv h
    exact finite_elems hjs ih
  | dict kvs ih =>
    intro j h
    obtain ⟨sorted, members, hs, rfl, hm⟩ := lower_dict_inv h
    rw [Json.Finite, finiteMembers_iff]
    intro m hmem
    obtain ⟨p, hp, _, hpm, _⟩ := exists_left hm hmem
    exact ih p ((sortItems_perm hs).mem_iff.mp hp) _ hpm
  | other => rintro _ ⟨⟩

theorem mem_names_elems {xs : List (PyVal F)} {js : List (Json F)}
    (h : List.Forall₂ (fun x j => lower x = .ok j) xs js)
    (ih : ∀ x ∈ xs, ∀ j, lower x = .ok j → ∀ n, n ∈ names j ↔ ∃ k ∈ allKeys x, k.jsonText = n)
    (n : PyStr) : n ∈ namesElems js ↔ ∃ k ∈ allKeysElems xs, k.jsonText = n := by
  simp only [mem_namesElems, mem_allKeysElems]
  constructor
  · rintro ⟨y, hy, hn⟩
    obtain ⟨x, hx, hxy⟩ := exists_left h hy
    obtain ⟨k, hk, hkn⟩ := (ih x hx y hxy n).mp hn
    exact ⟨k, ⟨x, hx, hk⟩, hkn⟩
  · rintro ⟨k, ⟨x, hx, hk⟩, hkn⟩
    obtain ⟨y, hy, hxy⟩ := exists_right h hx
    exact ⟨y, hy, (ih x hx y hxy n).mpr ⟨k, hk, hkn⟩⟩

/-- The names that are written are the texts of the keys. -/
theorem mem_names_lower (v : PyVal F) :
    ∀ j, lower v = .ok j → ∀ n, n ∈ names j ↔ ∃ k ∈ allKeys v, k.jsonText = n := by
  induction v using PyVal.nested with
  | none => rintro _ ⟨⟩ n; simp [names, allKeys]
  | bool b => rintro _ ⟨⟩ n; simp [names, allKeys]
  | int m => rintro _ ⟨⟩ n; simp [names, allKeys]
  | float x =>
    intro j h n
    rw [lower] at h
    split_ifs at h
    cases h
    simp [names, allKeys]
  | str s => rintro _ ⟨⟩ n; simp [names, allKeys]
  | list xs ih =>
    intro j h
    obtain ⟨js, rfl, hjs⟩ := lower_list_inv h
    exact mem_names_elems hjs ih
  | tuple xs ih =>
    intro j h
    obtain ⟨js, rfl, hjs⟩ := lower_list_inv h
    exact mem_names_elems hjs ih
  | dict kvs ih =>
    intro j h n
    obtain ⟨sorted, members, hs, rfl, hm⟩ := lower_dict_inv h
    have hmem := fun p => (sortItems_perm hs).mem_iff (a := p)
    simp only [names, allKeys, mem_namesMembers, mem_allKeysItems]
    constructor
    · rintro ⟨m, hmm, hn⟩
      obtain ⟨p, hp, _, hpm, hkey⟩ := exists_left hm hmm
      rcases hn with rfl | hn
      · exact ⟨p.1, ⟨p, (hmem p).mp hp, Or.inl rfl⟩, hkey.symm⟩
      · obtain ⟨k, hk, hkn⟩ := (ih p ((hmem p).mp hp) _ hpm n).mp hn
        exact ⟨k, ⟨p, (hmem p).mp hp, Or.inr hk⟩, hkn⟩
    · rintro ⟨k, ⟨p, hp, hk⟩, hkn⟩
      obtain ⟨m, hmm, _, hpm, hkey⟩ := exists_right hm ((hmem p).mpr hp)
      rcases hk with rfl | hk
      · exact ⟨m, hmm, Or.inl (hkn.symm.trans hkey.symm)⟩
      · exact ⟨m, hmm, Or.inr ((ih p hp _ hpm n).mpr ⟨k, hk, hkn⟩)⟩
  | other => rintro _ ⟨⟩

theorem namesSorted_elems {xs : List (PyVal F)} {js : List (Json F)}
    (h : List.Forall₂ (fun x j => lower x = .ok j) xs js)
    (ih : ∀ x ∈ xs, ∀ j, lower x = .ok j → (NamesSorted j ↔ KeyOrderAgrees x)) :
    ElemsSorted js ↔ ElemsAgree xs := by
  rw [elemsSorted_iff, elemsAgree_iff]
  constructor
  · intro hj x hx
    obtain ⟨y, hy, hxy⟩ := exists_right h hx
    exact (ih x hx y hxy).mp (hj y hy)
  · intro hx y hy
    obtain ⟨x, hxs, hxy⟩ := exists_left h hy
    exact (ih x hxs y hxy).mpr (hx x hxs)

/-- The names come out strictly increasing exactly when the two orders agree. -/
theorem namesSorted_lower_iff (v : PyVal F) :
    ∀ j, lower v = .ok j → (NamesSorted j ↔ KeyOrderAgrees v) := by
  induction v using PyVal.nested with
  | none => rintro _ ⟨⟩; exact Iff.rfl
  | bool b => rintro _ ⟨⟩; exact Iff.rfl
  | int n => rintro _ ⟨⟩; exact Iff.rfl
  | float x =>
    intro j h
    rw [lower] at h
    split_ifs at h
    cases h
    exact Iff.rfl
  | str s => rintro _ ⟨⟩; exact Iff.rfl
  | list xs ih =>
    intro j h
    obtain ⟨js, rfl, hjs⟩ := lower_list_inv h
    exact namesSorted_elems hjs ih
  | tuple xs ih =>
    intro j h
    obtain ⟨js, rfl, hjs⟩ := lower_list_inv h
    exact namesSorted_elems hjs ih
  | dict kvs ih =>
    intro j h
    obtain ⟨sorted, members, hs, rfl, hm⟩ := lower_dict_inv h
    have hmem := fun p => (sortItems_perm hs).mem_iff (a := p)
    have hnames : members.map Prod.fst = sorted.map fun p => p.1.jsonText := by
      clear hs hmem h ih
      induction hm with
      | nil => rfl
      | cons hp _ ih => simp [ih, hp.2.2]
    rw [NamesSorted, KeyOrderAgrees, hnames, List.pairwise_map, sortItems_texts hs,
      membersSorted_iff, itemsAgree_iff]
    refine and_congr_right fun _ => ⟨fun hj p hp => ?_, fun hv m hmm => ?_⟩
    · obtain ⟨m, hmm, _, hpm, _⟩ := exists_right hm ((hmem p).mpr hp)
      exact (ih p hp _ hpm).mp (hj m hmm)
    · obtain ⟨p, hp, _, hpm, _⟩ := exists_left hm hmm
      exact (ih p ((hmem p).mp hp) _ hpm).mpr (hv p ((hmem p).mp hp))
  | other => rintro _ ⟨⟩

/-! ## Sensitive keys -/

/-- Booleans and None are spelled differently as a name than as a `str`; neither spelling
matches the pattern. -/
theorem isSensitiveKey_keyStr (k : PyKey F) :
    isSensitiveKey (keyStr k) = isSensitiveKey k.jsonText := by
  have hTrue : isSensitiveKey (py "True") = isSensitiveKey (py "true") := by decide
  have hFalse : isSensitiveKey (py "False") = isSensitiveKey (py "false") := by decide
  have hNone : isSensitiveKey (py "None") = isSensitiveKey (py "null") := by decide
  cases k with
  | bool b =>
    cases b with
    | false => exact hFalse
    | true => exact hTrue
  | none => exact hNone
  | _ => rfl

/-- A key that must not reach durable storage. -/
def Sensitive (k : PyKey F) : Prop := isSensitiveKey k.jsonText = true

theorem sensitiveElems_iff {xs : List (PyVal F)}
    (ih : ∀ x ∈ xs, ∀ path, (sensitivePaths x path = [] ∧ ∀ k ∈ hiddenKeys x, ¬Sensitive k) ↔
      ∀ k ∈ allKeys x, ¬Sensitive k) (path : PyStr) (i : ℕ) :
    (sensitiveElems xs path i = [] ∧ ∀ k ∈ hiddenKeysElems xs, ¬Sensitive k) ↔
      ∀ k ∈ allKeysElems xs, ¬Sensitive k := by
  induction xs generalizing i with
  | nil => simp [sensitiveElems, hiddenKeysElems, allKeysElems]
  | cons x xs ihxs =>
    have hx := ih x (by simp) (path ++ py "[" ++ decimal i ++ py "]")
    have hxs := ihxs (fun y hy => ih y (List.mem_cons_of_mem _ hy)) (i + 1)
    simp only [sensitiveElems, hiddenKeysElems, allKeysElems, List.append_eq_nil_iff,
      List.mem_append, or_imp, forall_and, ← hx, ← hxs]
    tauto

theorem sensitiveItems_iff {kvs : List (PyKey F × PyVal F)}
    (ih : ∀ p ∈ kvs, ∀ path,
      (sensitivePaths p.2 path = [] ∧ ∀ k ∈ hiddenKeys p.2, ¬Sensitive k) ↔
        ∀ k ∈ allKeys p.2, ¬Sensitive k) (path : PyStr) :
    (sensitiveItems kvs path = [] ∧ ∀ k ∈ hiddenKeysItems kvs, ¬Sensitive k) ↔
      ∀ k ∈ allKeysItems kvs, ¬Sensitive k := by
  induction kvs with
  | nil => simp [sensitiveItems, hiddenKeysItems, allKeysItems]
  | cons p kvs ihkvs =>
    obtain ⟨k, v⟩ := p
    have hv := ih (k, v) (by simp) (path ++ py "." ++ keyStr k)
    have hkvs := ihkvs fun q hq => ih q (List.mem_cons_of_mem _ hq)
    have hk : (if isSensitiveKey (keyStr k) = true then [path ++ py "." ++ keyStr k] else []) = []
        ↔ ¬Sensitive k := by
      simp [Sensitive, isSensitiveKey_keyStr]
    simp only [sensitiveItems, hiddenKeysItems, allKeysItems, List.append_eq_nil_iff, hk,
      List.cons_append, List.mem_cons, List.mem_append, or_imp, forall_and, forall_eq, ← hv,
      ← hkvs]
    tauto

/-- The scan and the keys it does not see together cover every key. -/
theorem sensitivePaths_iff (v : PyVal F) :
    ∀ path, (sensitivePaths v path = [] ∧ ∀ k ∈ hiddenKeys v, ¬Sensitive k) ↔
      ∀ k ∈ allKeys v, ¬Sensitive k := by
  induction v using PyVal.nested with
  | none => simp [sensitivePaths, hiddenKeys, allKeys]
  | bool b => simp [sensitivePaths, hiddenKeys, allKeys]
  | int n => simp [sensitivePaths, hiddenKeys, allKeys]
  | float x => simp [sensitivePaths, hiddenKeys, allKeys]
  | str s => simp [sensitivePaths, hiddenKeys, allKeys]
  | list xs ih => exact fun path => sensitiveElems_iff ih path 0
  | tuple xs _ => simp [sensitivePaths, hiddenKeys, allKeys]
  | dict kvs ih => exact sensitiveItems_iff ih
  | other => simp [sensitivePaths, hiddenKeys, allKeys]

omit [PyFloat F] in
/-- json.loads builds no tuples. -/
theorem hiddenKeys_ofJson (j : Json F) : hiddenKeys (ofJson j) = [] := by
  induction j using Json.nested with
  | null => rfl
  | bool b => rfl
  | int n => rfl
  | float x => rfl
  | str s => rfl
  | arr xs ih =>
    rw [ofJson, hiddenKeys, List.eq_nil_iff_forall_not_mem, ofElems_eq]
    intro k hk
    obtain ⟨x, hx, hk⟩ := mem_hiddenKeysElems.mp hk
    obtain ⟨y, hy, rfl⟩ := List.mem_map.mp hx
    simp [ih y hy] at hk
  | obj kvs ih =>
    rw [ofJson, hiddenKeys, List.eq_nil_iff_forall_not_mem, ofMembers_eq]
    intro k hk
    obtain ⟨p, hp, hk⟩ := mem_hiddenKeysItems.mp hk
    obtain ⟨q, hq, rfl⟩ := List.mem_map.mp hp
    simp [ih q hq] at hk

omit [PyFloat F] in
/-- The keys of a value read from JSON are the names of the JSON. -/
theorem allKeys_ofJson (j : Json F) : allKeys (ofJson j) = (names j).map PyKey.str := by
  induction j using Json.nested with
  | null => rfl
  | bool b => rfl
  | int n => rfl
  | float x => rfl
  | str s => rfl
  | arr xs ih =>
    rw [ofJson, allKeys, names]
    induction xs with
    | nil => rfl
    | cons x xs ihxs =>
      rw [ofElems, allKeysElems, namesElems, List.map_append, ih x (by simp),
        ihxs fun y hy => ih y (List.mem_cons_of_mem _ hy)]
  | obj kvs ih =>
    rw [ofJson, allKeys, names]
    induction kvs with
    | nil => rfl
    | cons p kvs ihkvs =>
      rw [ofMembers, allKeysItems, namesMembers, ih p (by simp),
        ihkvs fun q hq => ih q (List.mem_cons_of_mem _ hq)]
      simp

/-! ## Acceptance -/

theorem validateDurablePayload_eq_ok {v : PyVal F} {field : PyStr} :
    validateDurablePayload v field = .ok () ↔
      (∃ kvs, v = .dict kvs) ∧ sensitivePaths v field = [] ∧ ∃ j, lower v = .ok j := by
  cases v with
  | dict kvs =>
    simp only [validateDurablePayload, canonicalJson, dumps]
    split_ifs with hs
    · simp [hs]
    · cases hl : lower (PyVal.dict kvs) with
      | error e => simp [Except.map]
      | ok j => simp [Except.map, not_not.mp hs]
  | _ => simp [validateDurablePayload]

theorem validateDurablePayload_cases (v : PyVal F) (field : PyStr) :
    validateDurablePayload v field = .ok () ∨
      ∃ issue, validateDurablePayload v field = .error (.validation issue) := by
  cases v with
  | dict kvs =>
    by_cases hs : sensitivePaths (.dict kvs) field = []
    · cases hc : canonicalJson (PyVal.dict kvs) with
      | error e => exact Or.inr ⟨_, by simp [validateDurablePayload, hs, hc]; rfl⟩
      | ok text => exact Or.inl (by simp [validateDurablePayload, hs, hc])
    · exact Or.inr ⟨_, by simp [validateDurablePayload, hs]; rfl⟩
  | _ => exact Or.inr ⟨_, rfl⟩

/-- A payload read from JSON is accepted unless one of its names is sensitive. -/
theorem validateDurablePayload_ofJson {kvs : List (PyStr × Json F)} {field : PyStr}
    (h : (Json.obj kvs).Finite) :
    validateDurablePayload (ofJson (.obj kvs)) field = .ok () ↔
      ∀ n ∈ names (.obj kvs), isSensitiveKey n = false := by
  have hcover := sensitivePaths_iff (ofJson (.obj kvs)) field
  rw [hiddenKeys_ofJson, allKeys_ofJson] at hcover
  rw [validateDurablePayload_eq_ok, lower_ofJson _ h]
  simp only [List.not_mem_nil, false_implies, implies_true, and_true, List.mem_map,
    forall_exists_index, and_imp, forall_apply_eq_imp_iff₂] at hcover
  constructor
  · rintro ⟨_, hs, _⟩ n hn
    simpa [Sensitive, PyKey.jsonText] using hcover.mp hs n hn
  · intro hn
    refine ⟨⟨_, rfl⟩, hcover.mpr fun n hmem => ?_, _, rfl⟩
    simp [Sensitive, PyKey.jsonText, hn n hmem]

end DurablePayload
