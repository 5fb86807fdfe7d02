import VeriMat.JsonlOps
import VeriMat.PyDict

/-! # Merging, deduplicating, filtering

What the commands of `tools/jsonl_ops.py` make of files that were written by `write_jsonl`. -/
namespace JsonlOps

open PyText JsonText PyValue PyDisplay
open RetrievalCache (IsSeparator)

/-! ## Keeping by what came before -/

section Keeping

variable {α : Type}

open Classical in
/-- The elements that pass a test against those before them, in order. -/
noncomputable def keepFrom (p : List α → α → Prop) : List α → List α → List α
  | _, [] => []
  | earlier, a :: rest =>
    if p earlier a then a :: keepFrom p (earlier ++ [a]) rest
    else keepFrom p (earlier ++ [a]) rest

variable {p q : List α → α → Prop}

open Classical in
theorem keepFrom_concat (earlier l : List α) (a : α) :
    keepFrom p earlier (l ++ [a]) =
      keepFrom p earlier l ++ if p (earlier ++ l) a then [a] else [] := by
  induction l generalizing earlier with
  | nil => simp [keepFrom]
  | cons b l ih =>
    rw [List.cons_append, keepFrom, keepFrom, ih, List.append_assoc, List.singleton_append]
    by_cases hb : p earlier b
    · rw [if_pos hb, if_pos hb, List.cons_append]
    · rw [if_neg hb, if_neg hb]

theorem keepFrom_sublist (p : List α → α → Prop) (earlier l : List α) :
    (keepFrom p earlier l).Sublist l := by
  induction l generalizing earlier with
  | nil => exact .slnil
  | cons a l ih =>
    rw [keepFrom]
    split
    · exact (ih _).cons_cons a
    · exact (ih _).cons a

/-- Every element with those before it. -/
def AtEvery (earlier l : List α) (P : List α → α → Prop) : Prop :=
  ∀ l₁ a l₂, l = l₁ ++ a :: l₂ → P (earlier ++ l₁) a

theorem atEvery_cons {earlier l : List α} {a : α} {P : List α → α → Prop} :
    AtEvery earlier (a :: l) P ↔ P earlier a ∧ AtEvery (earlier ++ [a]) l P := by
  constructor
  · intro h
    refine ⟨by simpa using h [] a l rfl, fun l₁ b l₂ hl => ?_⟩
    have hb := h (a :: l₁) b l₂ (congrArg (List.cons a) hl)
    rwa [List.append_assoc, List.singleton_append]
  · rintro ⟨ha, h⟩ l₁ b l₂ hl
    cases l₁ with
    | nil =>
      obtain ⟨rfl, rfl⟩ := List.cons.inj hl
      simpa using ha
    | cons c l₁ =>
      obtain ⟨rfl, hrest⟩ := List.cons.inj hl
      have hb := h l₁ b l₂ hrest
      rwa [List.append_assoc, List.singleton_append] at hb

theorem keepFrom_length_le {earlier l : List α}
    (h : AtEvery earlier l fun before a => p before a → q before a) :
    (keepFrom p earlier l).length ≤ (keepFrom q earlier l).length := by
  induction l generalizing earlier with
  | nil => exact le_rfl
  | cons a l ih =>
    obtain ⟨ha, hrest⟩ := atEvery_cons.mp h
    have hle := ih hrest
    rw [keepFrom, keepFrom]
    by_cases hp : p earlier a
    · rw [if_pos hp, if_pos (ha hp)]
      exact Nat.succ_le_succ hle
    · rw [if_neg hp]
      split
      · exact hle.trans (Nat.le_succ _)
      · exact hle

/-- A weaker test keeps the same only if it is nowhere weaker. -/
theorem keepFrom_eq_iff {earlier l : List α}
    (h : AtEvery earlier l fun before a => p before a → q before a) :
    keepFrom p earlier l = keepFrom q earlier l ↔
      AtEvery earlier l fun before a => q before a → p before a := by
  induction l generalizing earlier with
  | nil =>
    refine iff_of_true rfl ?_
    intro l₁ a l₂ hl
    cases l₁ <;> cases hl
  | cons a l ih =>
    obtain ⟨ha, hrest⟩ := atEvery_cons.mp h
    rw [atEvery_cons, ← ih hrest, keepFrom, keepFrom]
    by_cases hp : p earlier a
    · rw [if_pos hp, if_pos (ha hp), List.cons.injEq]
      simp [hp]
    · rw [if_neg hp]
      by_cases hq : q earlier a
      · rw [if_pos hq]
        refine iff_of_false (fun heq => ?_) fun hboth => hp (hboth.1 hq)
        have hlength := congrArg List.length heq
        have hle := keepFrom_length_le hrest
        rw [List.length_cons] at hlength
        omega
      · rw [if_neg hq]
        simp [hq]

theorem atEvery_pairwise {R : α → α → Prop} {earlier l : List α} :
    AtEvery earlier l (fun before a => ∀ e ∈ before, R e a) ↔
      (∀ e ∈ earlier, ∀ a ∈ l, R e a) ∧ l.Pairwise R := by
  induction l generalizing earlier with
  | nil =>
    refine iff_of_true ?_ ⟨by simp, .nil⟩
    intro l₁ a l₂ hl
    cases l₁ <;> cases hl
  | cons a l ih =>
    rw [atEvery_cons, ih, List.pairwise_cons]
    simp only [List.mem_append, List.mem_singleton, List.forall_mem_cons]
    constructor
    · rintro ⟨hbefore, hall, hpairwise⟩
      exact ⟨fun e he => ⟨hbefore e he, hall e (.inl he)⟩, hall a (.inr rfl), hpairwise⟩
    · rintro ⟨hbefore, hafter, hpairwise⟩
      refine ⟨fun e he => (hbefore e he).1, ?_, hpairwise⟩
      rintro e (he | rfl)
      · exact (hbefore e he).2
      · exact hafter

end Keeping

variable {F : Type} [PyFloat F]

/-! ## Keys -/

/-- The value a path leads to. -/
inductive At : Json F → List PyStr → Json F → Prop
  | here (j : Json F) : At j [] j
  | member {kvs : List (PyStr × Json F)} {part : PyStr} {parts : List PyStr} {v w : Json F} :
    (part, v) ∈ kvs → At v parts w → At (.obj kvs) (part :: parts) w

/-- `==` between two key values. -/
def SameValue (u v : Json F) : Prop := pyEq (ofJson u) (ofJson v) = true

/-- The row has no value under the key, or none before it has the same one. -/
def FirstOfKey (key : PyStr) (earlier : List (Json F)) (row : Json F) : Prop :=
  ∀ v, At row (partsOf key) v → ∀ e ∈ earlier, ∀ u, At e (partsOf key) u → ¬SameValue u v

/-- The rows without the key and the first row of each key value, in order. -/
noncomputable def firstRows (key : PyStr) (rows : List (Json F)) : List (Json F) :=
  keepFrom (FirstOfKey key) [] rows

/-- Every value under the key can be put into a set. -/
def Hashable (key : PyStr) (rows : List (Row F)) : Prop :=
  ∀ row ∈ rows, ∀ v, At row.json (partsOf key) v → canHash (ofJson v) = true

/-- No two rows have a null under the key. -/
def OneNull (key : PyStr) (rows : List (Row F)) : Prop :=
  rows.Pairwise fun row row' =>
    ¬(At row.json (partsOf key) .null ∧ At row'.json (partsOf key) .null)

/-- What holds of a row holds of the values in it. -/
theorem At.sound {row v : Json F} {parts : List PyStr} (h : At row parts v)
    (hfinite : row.Finite) (hnames : row.dedup = row) : v.Finite ∧ v.dedup = v := by
  induction h with
  | here j => exact ⟨hfinite, hnames⟩
  | member hmem _ ih =>
    obtain ⟨-, hvalues⟩ := obj_dedup_eq_self hnames
    rw [Json.Finite, finiteMembers_iff] at hfinite
    exact ih (hfinite _ hmem) (hvalues _ hmem)

omit [PyFloat F] in
theorem At.getParts {row v : Json F} {parts : List PyStr} (h : At row parts v)
    (hnames : row.dedup = row) : getParts row parts = v := by
  induction h with
  | here j => cases j <;> rfl
  | member hmem _ ih =>
    obtain ⟨hnodup, hvalues⟩ := obj_dedup_eq_self hnames
    rw [JsonlOps.getParts, (PyDict.lookup_eq_some hnodup).mpr hmem]
    exact ih (hvalues _ hmem)

omit [PyFloat F] in
/-- What `_get` finds besides `None` is there. -/
theorem at_getParts {row : Json F} {parts : List PyStr} (hnames : row.dedup = row)
    (h : getParts row parts ≠ .null) : At row parts (getParts row parts) := by
  induction parts generalizing row with
  | nil => cases row <;> exact .here _
  | cons part parts ih =>
    cases row with
    | obj kvs =>
      obtain ⟨hnodup, hvalues⟩ := obj_dedup_eq_self hnames
      rw [getParts] at h ⊢
      cases hlookup : kvs.lookup part with
      | none =>
        rw [hlookup] at h
        exact absurd rfl h
      | some v =>
        rw [hlookup] at h
        have hmem := (PyDict.lookup_eq_some hnodup).mp hlookup
        exact .member hmem (ih (hvalues _ hmem) h)
    | _ => exact absurd rfl h

theorem sameValue_self {v : Json F} (hfinite : v.Finite) (hnames : v.dedup = v) :
    SameValue v v := pyEq_ofJson v v hfinite hnames hnames rfl

theorem sameValue_null {u : Json F} : SameValue u .null ↔ u = .null := by
  cases u <;> simp [SameValue, ofJson, pyEq, numberOf, sameNumber_none]

theorem null_sameValue {v : Json F} : SameValue .null v ↔ v = .null := by
  cases v <;> simp [SameValue, ofJson, pyEq, numberOf, sameNumber]

/-! ## Deduplicating -/

section Dedup

variable {key : PyStr}

/-- What the loop keeps: a row whose key it takes for missing, or finds in no row before. -/
def Kept (key : PyStr) (earlier : List (Json F)) (row : Json F) : Prop :=
  get row key = .null ∨ ∀ e ∈ earlier, get e key ≠ .null → ¬SameValue (get e key) (get row key)

/-- A row that was read from a file: finite, and without repeated names. -/
def Sound (j : Json F) : Prop := j.Finite ∧ j.dedup = j

theorem Row.sound (row : Row F) : Sound row.json := ⟨row.finite, row.names⟩

theorem get_of_at {row v : Json F} (hsound : Sound row) (h : At row (partsOf key) v) :
    get row key = v := h.getParts hsound.2

theorem at_get {row : Json F} (hsound : Sound row) (h : get row key ≠ .null) :
    At row (partsOf key) (get row key) := at_getParts hsound.2 h

theorem sound_get {row : Json F} (hsound : Sound row) : Sound (get row key) := by
  by_cases hnull : get row key = .null
  · rw [hnull]
    exact ⟨trivial, rfl⟩
  · exact (at_get hsound hnull).sound hsound.1 hsound.2

/-- Among finite rows the set finds what is equal. -/
theorem sameKeyValue_iff {u k : Json F} (hu : Sound u) :
    sameKeyValue u k = true ↔ SameValue u k := by
  have hnan : isNan u = false := by
    cases u with
    | float x =>
      have hfinite : (PyFloat.value x).isFinite = true := hu.1
      rw [isNan]
      cases hx : PyFloat.value x with
      | finite q => rfl
      | inf => rfl
      | negInf => rfl
      | nan =>
        rw [hx] at hfinite
        cases hfinite
    | _ => rfl
  rw [sameKeyValue, hnan, Bool.false_and, Bool.or_false, SameValue]

/-- What the loop has seen: the keys of the rows before, each of them or one equal to it. -/
structure Seen (key : PyStr) (rows seen : List (Json F)) : Prop where
  of_row : ∀ u ∈ seen, ∃ e ∈ rows, get e key = u ∧ u ≠ .null
  covers : ∀ e ∈ rows, get e key ≠ .null → ∃ u ∈ seen, SameValue u (get e key)

section SeenKeys

variable {rows seen : List (Json F)} {row : Json F}

theorem Seen.concat (h : Seen key rows seen)
    (hrow : get row key ≠ .null → ∃ u ∈ seen, SameValue u (get row key)) :
    Seen key (rows ++ [row]) seen where
  of_row u hu := by
    obtain ⟨e, he, heq⟩ := h.of_row u hu
    exact ⟨e, List.mem_append_left _ he, heq⟩
  covers e he hvalue := by
    rcases List.mem_append.mp he with he | he
    · exact h.covers e he hvalue
    · rw [List.mem_singleton.mp he] at hvalue ⊢
      exact hrow hvalue

theorem Seen.concat_key (h : Seen key rows seen) (hvalue : get row key ≠ .null)
    (hself : SameValue (get row key) (get row key)) :
    Seen key (rows ++ [row]) (seen ++ [get row key]) where
  of_row u hu := by
    rcases List.mem_append.mp hu with hu | hu
    · obtain ⟨e, he, heq⟩ := h.of_row u hu
      exact ⟨e, List.mem_append_left _ he, heq⟩
    · rw [List.mem_singleton.mp hu]
      exact ⟨row, by simp, rfl, hvalue⟩
  covers e he hvalue := by
    rcases List.mem_append.mp he with he | he
    · obtain ⟨u, hu, hsame⟩ := h.covers e he hvalue
      exact ⟨u, List.mem_append_left _ hu, hsame⟩
    · rw [List.mem_singleton.mp he]
      exact ⟨_, by simp, hself⟩

end SeenKeys

theorem dedupStep_null {state : List (Json F) × List (Json F)} {row : Json F}
    (h : get row key = .null) : dedupStep key state row = .ok (state.1, state.2 ++ [row]) := by
  rw [dedupStep, h]

theorem dedupStep_value {state : List (Json F) × List (Json F)} {row : Json F}
    (h : get row key ≠ .null) : dedupStep key state row =
      if canHash (ofJson (get row key)) = false then .error .typeError
      else if state.1.any (sameKeyValue · (get row key)) then .ok state
      else .ok (state.1 ++ [get row key], state.2 ++ [row]) := by
  rw [dedupStep]
  split
  · next hnull => exact absurd hnull h
  · rfl

/-- The loop, on rows whose keys can be hashed. -/
theorem foldlM_dedupStep {rows : List (Json F)} (hsound : ∀ row ∈ rows, Sound row)
    (hhash : ∀ row ∈ rows, canHash (ofJson (get row key)) = true) :
    ∃ seen, rows.foldlM (dedupStep key) ([], []) = .ok (seen, keepFrom (Kept key) [] rows) ∧
      Seen key rows seen := by
  induction rows using List.reverseRecOn with
  | nil => exact ⟨[], rfl, by simp, by simp⟩
  | append_singleton rows row ih =>
    have hrow := hsound row (by simp)
    obtain ⟨seen, hrun, hseen⟩ := ih (fun r hr => hsound r (by simp [hr]))
      fun r hr => hhash r (by simp [hr])
    have hstep : (rows ++ [row]).foldlM (dedupStep key) ([], []) =
        dedupStep key (seen, keepFrom (Kept key) [] rows) row := by
      rw [List.foldlM_append, hrun]
      exact bind_pure (dedupStep key _ row)
    rw [hstep, keepFrom_concat, List.nil_append]
    by_cases hnull : get row key = .null
    · have hkept : Kept key rows row := .inl hnull
      exact ⟨seen, by rw [dedupStep_null hnull, if_pos hkept],
        hseen.concat fun hvalue => absurd hnull hvalue⟩
    · have hhashable := hhash row (by simp)
      have hself : SameValue (get row key) (get row key) :=
        sameValue_self (sound_get hrow).1 (sound_get hrow).2
      have hfound : seen.any (sameKeyValue · (get row key)) = true ↔ ¬Kept key rows row := by
        rw [List.any_eq_true, Kept]
        push Not
        constructor
        · rintro ⟨u, hu, hsame⟩
          obtain ⟨e, he, rfl, hvalue⟩ := hseen.of_row u hu
          have hsound' : Sound (get e key) := sound_get (hsound e (by simp [he]))
          exact ⟨hnull, e, he, hvalue, (sameKeyValue_iff hsound').mp hsame⟩
        · rintro ⟨-, e, he, hvalue, hsame⟩
          obtain ⟨u, hu, heq⟩ := hseen.covers e he hvalue
          obtain ⟨e', he', rfl, -⟩ := hseen.of_row u hu
          have hsound' : Sound (get e' key) := sound_get (hsound e' (by simp [he']))
          -- equal to a key that was dropped is equal to the key that it was dropped for
          have htrans := pyEq_trans _ _ _ (hhash e' (by simp [he'])) heq hsame
          exact ⟨_, hu, (sameKeyValue_iff hsound').mpr htrans⟩
      rw [dedupStep_value hnull, if_neg (by simp [hhashable])]
      by_cases hkept : Kept key rows row
      · rw [if_neg fun hany => hfound.mp hany hkept, if_pos hkept]
        exact ⟨_, rfl, hseen.concat_key hnull hself⟩
      · have hany := hfound.mpr hkept
        rw [if_pos hany, if_neg hkept, List.append_nil]
        refine ⟨seen, rfl, hseen.concat fun _ => ?_⟩
        obtain ⟨u, hu, hsame⟩ := List.any_eq_true.mp hany
        obtain ⟨e, he, rfl, -⟩ := hseen.of_row u hu
        have hsound' : Sound (get e key) := sound_get (hsound e (by simp [he]))
        exact ⟨_, hu, (sameKeyValue_iff hsound').mp hsame⟩

/-- The loop does not finish unless every key can be hashed. -/
theorem hashable_of_foldlM {rows : List (Json F)} {init state : List (Json F) × List (Json F)}
    (h : rows.foldlM (dedupStep key) init = .ok state) :
    ∀ row ∈ rows, canHash (ofJson (get row key)) = true := by
  induction rows generalizing init with
  | nil => simp
  | cons row rows ih =>
    rw [List.foldlM_cons] at h
    cases hstep : dedupStep key init row with
    | error e =>
      rw [hstep] at h
      cases h
    | ok mid =>
      rw [hstep] at h
      refine List.forall_mem_cons.mpr ⟨?_, ih h⟩
      by_cases hnull : get row key = .null
      · rw [hnull]
        rfl
      · rw [dedupStep_value hnull] at hstep
        split_ifs at hstep with hhash
        all_goals simpa using hhash

theorem hashable_iff {rows : List (Row F)} :
    Hashable key rows ↔ ∀ row ∈ rows, canHash (ofJson (get row.json key)) = true := by
  constructor
  · intro h row hrow
    by_cases hnull : get row.json key = .null
    · rw [hnull]
      rfl
    · exact h row hrow _ (at_get row.sound hnull)
  · intro h row hrow v hv
    rw [← get_of_at row.sound hv]
    exact h row hrow

section Comparison

variable {earlier : List (Json F)} {row : Json F} (hearlier : ∀ e ∈ earlier, Sound e)
  (hrow : Sound row)

include hearlier hrow in
theorem kept_of_first (h : FirstOfKey key earlier row) : Kept key earlier row := by
  by_cases hnull : get row key = .null
  · exact .inl hnull
  · right
    intro e he hvalue
    exact h _ (at_get hrow hnull) e he _ (at_get (hearlier e he) hvalue)

include hearlier hrow in
/-- The code and the rule differ on a null that is not the first. -/
theorem first_of_kept_iff : (Kept key earlier row → FirstOfKey key earlier row) ↔
    ∀ e ∈ earlier, ¬(At e (partsOf key) .null ∧ At row (partsOf key) .null) := by
  constructor
  · rintro h e he ⟨henull, hrnull⟩
    exact h (.inl (get_of_at hrow hrnull)) _ hrnull e he _ henull (sameValue_null.mpr rfl)
  · intro h hkept v hv e he u hu hsame
    by_cases hnull : v = .null
    · rw [hnull] at hsame hv
      rw [sameValue_null.mp hsame] at hu
      exact h e he ⟨hu, hv⟩
    · have hunull : u ≠ .null := by
        rintro rfl
        exact hnull (null_sameValue.mp hsame)
      rw [← get_of_at hrow hv] at hnull hsame
      rw [← get_of_at (hearlier e he) hu] at hunull hsame
      exact hkept.elim hnull fun hnew => hnew e he hunull hsame

end Comparison

/-- What the loop keeps is what it should keep when there is at most one null. -/
theorem firstRows_eq_iff (rows : List (Row F)) :
    firstRows key (rows.map Row.json) = keepFrom (Kept key) [] (rows.map Row.json) ↔
      OneNull key rows := by
  have hsound : ∀ j ∈ rows.map Row.json, Sound j := by
    intro j hj
    obtain ⟨row, -, rfl⟩ := List.mem_map.mp hj
    exact row.sound
  have hat : ∀ l₁ a l₂, rows.map Row.json = l₁ ++ a :: l₂ → (∀ e ∈ l₁, Sound e) ∧ Sound a := by
    intro l₁ a l₂ hl
    rw [hl] at hsound
    exact ⟨fun e he => hsound e (by simp [he]), hsound a (by simp)⟩
  have hweaker : AtEvery [] (rows.map Row.json)
      fun before a => FirstOfKey key before a → Kept key before a := by
    intro l₁ a l₂ hl
    exact kept_of_first (hat l₁ a l₂ hl).1 (hat l₁ a l₂ hl).2
  have hnulls : AtEvery [] (rows.map Row.json)
      (fun before a => Kept key before a → FirstOfKey key before a) ↔
      AtEvery [] (rows.map Row.json) fun before a => ∀ e ∈ before,
        ¬(At e (partsOf key) .null ∧ At a (partsOf key) .null) :=
    forall₄_congr fun l₁ a l₂ hl => first_of_kept_iff (hat l₁ a l₂ hl).1 (hat l₁ a l₂ hl).2
  rw [firstRows, keepFrom_eq_iff hweaker, hnulls, atEvery_pairwise, List.pairwise_map]
  exact and_iff_right (by simp)

end Dedup

/-! ## The commands on written files -/

/-- The files of these rows, merged, hold the rows one after the other. -/
def MergeConcatenates (batches : List (List (Row F))) : Prop :=
  ∃ files : List PyBytes,
    List.Forall₂ (fun rows file => writeJsonl (rows.map Row.json) = .ok file) batches files ∧
    ∃ out, cmdMerge (F := F) files = .ok out ∧ readJsonl out = batches.flatten.map Row.json

/-- The file of these rows, deduplicated, holds the rows without the key and the first row of each
key value. -/
def DedupKeeps (key : PyStr) (rows : List (Row F)) : Prop :=
  ∃ file, writeJsonl (rows.map Row.json) = .ok file ∧
    ∃ out, cmdDedup (F := F) key file = .ok out ∧
      readJsonl out = firstRows key (rows.map Row.json)

/-- The file of these rows, filtered, holds those that match. -/
def FilterKeeps (D : Display) (condition : PyStr) (rows : List (Row F)) : Prop :=
  ∃ file, writeJsonl (rows.map Row.json) = .ok file ∧
    ∃ out, cmdFilter (F := F) D condition file = .ok out ∧
      readJsonl out = (rows.map Row.json).filter (matchesWhere D condition)

section Written

variable {rows : List (Row F)} {batches : List (List (Row F))}

/-- The file of plain rows. -/
theorem exists_file (h : ∀ row ∈ rows, Plain row) :
    ∃ file, writeJsonl (rows.map Row.json) = .ok file ∧ readJsonl file = rows.map Row.json :=
  (roundTrips_iff_plain rows).mpr h

theorem mergeConcatenates (h : ∀ rows ∈ batches, ∀ row ∈ rows, Plain row) :
    MergeConcatenates batches := by
  have hfiles : ∃ files : List PyBytes,
      List.Forall₂ (fun rows file => writeJsonl (rows.map Row.json) = .ok file) batches files ∧
      files.flatMap (readJsonl (F := F)) = batches.flatten.map Row.json := by
    induction batches with
    | nil => exact ⟨[], .nil, rfl⟩
    | cons rows batches ih =>
      obtain ⟨hrows, hrest⟩ := List.forall_mem_cons.mp h
      obtain ⟨file, hwrite, hread⟩ := exists_file hrows
      obtain ⟨files, hall, hreads⟩ := ih hrest
      refine ⟨file :: files, .cons hwrite hall, ?_⟩
      rw [List.flatMap_cons, hread, hreads, List.flatten_cons, List.map_append]
  obtain ⟨files, hall, hreads⟩ := hfiles
  have hplain : ∀ row ∈ batches.flatten, Plain row := by
    intro row hrow
    obtain ⟨rows, hrows, hmem⟩ := List.mem_flatten.mp hrow
    exact h rows hrows row hmem
  refine ⟨files, hall, ?_⟩
  rw [cmdMerge, hreads]
  exact exists_file hplain

theorem filterKeeps (D : Display) (condition : PyStr) (h : ∀ row ∈ rows, Plain row) :
    FilterKeeps D condition rows := by
  obtain ⟨file, hwrite, hread⟩ := exists_file h
  refine ⟨file, hwrite, ?_⟩
  rw [cmdFilter, hread, List.filter_map]
  exact exists_file fun row hrow => h row (List.mem_of_mem_filter hrow)

theorem dedupKeeps_iff (key : PyStr) (h : ∀ row ∈ rows, Plain row) :
    DedupKeeps key rows ↔ Hashable key rows ∧ OneNull key rows := by
  obtain ⟨file, hwrite, hread⟩ := exists_file h
  have hsound : ∀ j ∈ rows.map Row.json, Sound j := by
    intro j hj
    obtain ⟨row, -, rfl⟩ := List.mem_map.mp hj
    exact row.sound
  have hloop : Hashable key rows →
      ∃ out, cmdDedup (F := F) key file = .ok out ∧
        readJsonl out = keepFrom (Kept key) [] (rows.map Row.json) := by
    intro hhash
    obtain ⟨seen, hrun, -⟩ := foldlM_dedupStep hsound (by
      simpa using hashable_iff.mp hhash)
    obtain ⟨kept, hsub, hkept⟩ :=
      List.sublist_map_iff.mp (keepFrom_sublist (Kept key) [] (rows.map Row.json))
    rw [cmdDedup, hread, hrun, hkept]
    exact exists_file fun row hrow => h row (hsub.subset hrow)
  constructor
  · rintro ⟨file', hwrite', out, hout, hkept⟩
    obtain rfl : file = file' := Except.ok.inj (hwrite.symm.trans hwrite')
    have hhash : Hashable key rows := by
      rw [cmdDedup, hread] at hout
      cases hrun : (rows.map Row.json).foldlM (dedupStep key) ([], []) with
      | error e =>
        rw [hrun] at hout
        cases hout
      | ok state => exact hashable_iff.mpr (by simpa using hashable_of_foldlM hrun)
    obtain ⟨out', hout', hread'⟩ := hloop hhash
    obtain rfl : out = out' := Except.ok.inj (hout.symm.trans hout')
    exact ⟨hhash, (firstRows_eq_iff rows).mp (hkept.symm.trans hread')⟩
  · rintro ⟨hhash, hnulls⟩
    obtain ⟨out, hout, hread'⟩ := hloop hhash
    exact ⟨file, hwrite, out, hout, hread'.trans ((firstRows_eq_iff rows).mpr hnulls).symm⟩

end Written

/-- The tools lose no row, and keep the rows they should, exactly on plain rows, with keys that can
be hashed and at most one null among them. -/
theorem jsonl_tools_iff (D : Display) (key condition : PyStr) (batches : List (List (Row F))) :
    (∀ rows : List (Row F), RoundTrips rows ↔ ∀ row ∈ rows, Plain row) ∧
      ((∀ rows ∈ batches, RoundTrips rows) ∧ MergeConcatenates batches ∧
          (∀ rows ∈ batches, DedupKeeps key rows ∧ FilterKeeps D condition rows) ↔
        ∀ rows ∈ batches, (∀ row ∈ rows, Plain row) ∧ Hashable key rows ∧ OneNull key rows) := by
  refine ⟨roundTrips_iff_plain, ?_⟩
  constructor
  · rintro ⟨htrip, -, hkeeps⟩ rows hrows
    have hplain := (roundTrips_iff_plain rows).mp (htrip rows hrows)
    exact ⟨hplain, (dedupKeeps_iff key hplain).mp (hkeeps rows hrows).1⟩
  · intro h
    refine ⟨fun rows hrows => (roundTrips_iff_plain rows).mpr (h rows hrows).1,
      mergeConcatenates fun rows hrows => (h rows hrows).1, fun rows hrows => ?_⟩
    obtain ⟨hplain, hkeys⟩ := h rows hrows
    exact ⟨(dedupKeeps_iff key hplain).mpr hkeys, filterKeeps D condition hplain⟩

/-- A row with one text, which a line separator cuts. -/
def cutRow : Row NonFinite where
  members := [([97], .str [120, 0x2028, 121])]
  finite := ⟨trivial, trivial⟩
  names := rfl

theorem not_roundTrips_cutRow : ¬RoundTrips [cutRow] := by
  rintro ⟨file, hwrite, hread⟩
  have hfile : writeJsonl ([cutRow].map Row.json) =
      .ok [123, 34, 97, 34, 58, 32, 34, 120, 226, 128, 168, 121, 34, 125, 10] := rfl
  rw [Except.ok.inj (hwrite.symm.trans hfile)] at hread
  have hlength := congrArg List.length hread
  revert hlength
  decide +kernel

end JsonlOps
