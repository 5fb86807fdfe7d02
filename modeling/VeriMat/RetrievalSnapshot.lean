import VeriMat.RetrievalCache

/-! # The cache file as a snapshot

A payload is written raw, and the file is split at every line end Unicode knows: a payload with
one of the three that JSON does not escape spoils the file, and one that UTF-8 cannot encode never
reaches it. For all other payloads the file gives back the store. -/
namespace RetrievalCache

open PyText JsonText PyValue PyDict Events JsonWritable Transaction

variable {F W : Type}

/-! ## Lines -/

theorem splitlines_line {l : PyStr} (hl : ∀ c ∈ l, isLineEnd c = false) {c : ℕ}
    (hc : isLineEnd c = true) (hreturn : c ≠ 13) (r : PyStr) :
    splitlines (l ++ c :: r) = l :: splitlines r := by
  induction l with
  | nil =>
    rw [List.nil_append, splitlines, if_pos hc]
    rintro cs rfl
    exact absurd rfl hreturn
  | cons d l ih =>
    obtain ⟨hd, hrest⟩ := List.forall_mem_cons.mp hl
    rw [List.cons_append, splitlines, if_neg (by simp [hd]), ih hrest]
    rintro cs rfl
    simp [isLineEnd] at hd

/-- The line ends that JSON writes as they are. -/
def IsSeparator (c : ℕ) : Prop := c = 0x85 ∨ c = 0x2028 ∨ c = 0x2029

instance (c : ℕ) : Decidable (IsSeparator c) := inferInstanceAs (Decidable (_ ∨ _ ∨ _))

theorem IsSeparator.isLineEnd {c : ℕ} (h : IsSeparator c) : isLineEnd c = true := by
  rcases h with rfl | rfl | rfl <;> rfl

theorem isLineEnd_false {c : ℕ} (h : 32 ≤ c) (hs : ¬IsSeparator c) : isLineEnd c = false := by
  unfold IsSeparator at hs
  simp only [RetrievalCache.isLineEnd, Bool.or_eq_false_iff, Bool.and_eq_false_iff,
    decide_eq_false_iff_not, beq_eq_false_iff_ne]
  omega

/-- A text with a separator, cut at the first. -/
theorem cut_separator {s : PyStr} (h : ∃ c ∈ s, IsSeparator c) :
    ∃ l c r, s = l ++ c :: r ∧ IsSeparator c ∧ ∀ d ∈ l, ¬IsSeparator d := by
  induction s with
  | nil => simp at h
  | cons d s ih =>
    by_cases hd : IsSeparator d
    · exact ⟨[], d, s, rfl, hd, by simp⟩
    · obtain ⟨c, hc, hsep⟩ := h
      rcases List.mem_cons.mp hc with rfl | hc
      · exact absurd hsep hd
      · obtain ⟨l, e, r, rfl, he, hl⟩ := ih ⟨c, hc, hsep⟩
        exact ⟨d :: l, e, r, rfl, he, List.forall_mem_cons.mpr ⟨hd, hl⟩⟩

variable [PyFloat F]

/-- No part of a written object up to a cut is JSON. -/
theorem loads_cut {members : List (PyStr × Json F)} (h : (Json.obj members).Finite) {l r : PyStr}
    (hcut : l ++ r = render (.obj members)) (hl : l ≠ []) (hr : r ≠ []) :
    loads (F := F) l = none := by
  cases hparse : parse (F := F) l with
  | none => rw [loads, hparse, Option.map_none]
  | some v =>
    exfalso
    obtain ⟨b, rfl⟩ : ∃ b, l = 123 :: b := by
      cases l with
      | nil => exact absurd rfl hl
      | cons c b =>
        have hhead : (render (Json.obj members)).head? = some 123 := by
          cases members <;> rfl
        rw [← hcut] at hhead
        exact ⟨b, by rw [Option.some.inj hhead]⟩
    unfold parse at hparse
    rw [if_neg (by simp)] at hparse
    split at hparse
    case h_1 v' rest hscan =>
      split_ifs at hparse with hrest
      exact not_objectText_of_cut h hcut hr v' ⟨_, b, rest, rfl, hscan, hrest⟩
    case h_2 => cases hparse

/-! ## Rows -/

/-- A row of the file. -/
def rowJson (key : PyStr) (payload : Json F) : Json F :=
  .obj [(py "key", .str key), (py "payload", payload)]

omit [PyFloat F] in
theorem sortNames_rowJson (key : PyStr) (payload : Json F) :
    sortNames (rowJson key payload) = rowJson key (sortNames payload) := by
  have hsorted : sortMembers [(py "key", Json.str key), (py "payload", payload)] =
      [(py "key", .str key), (py "payload", sortNames payload)] := rfl
  rw [rowJson, sortNames, hsorted, insertionSort_of_names_lt]
  · rfl
  · simp only [List.map_cons, List.map_nil, List.pairwise_cons, List.mem_singleton]
    refine ⟨?_, by simp⟩
    rintro _ rfl
    decide

theorem finite_rowJson (key : PyStr) {payload : Json F} (h : payload.Finite) :
    (rowJson key payload).Finite := by
  rw [rowJson, Json.Finite, finiteMembers_iff]
  simpa [Json.Finite] using h

omit [PyFloat F] in
theorem mem_chars_rowJson {key : PyStr} {payload : Json F} {c : ℕ}
    (h : c ∈ chars (rowJson key payload)) : c ∈ key ∨ 32 ≤ c ∧ c < 128 ∨ c ∈ chars payload := by
  rw [rowJson, chars, mem_charsMembers] at h
  have hnames : ∀ d ∈ py "key" ++ py "payload", 32 ≤ d ∧ d < 128 := by decide
  simp only [List.mem_cons, List.not_mem_nil, or_false, exists_eq_or_imp, exists_eq_left] at h
  rcases h with (hc | hc) | hc | hc
  · exact .inr (.inl (hnames c (List.mem_append_left _ hc)))
  · exact .inl hc
  · exact .inr (.inl (hnames c (List.mem_append_right _ hc)))
  · exact .inr (.inr hc)

/-- The text of a row. -/
def rowText (key : PyStr) (payload : Json F) : PyStr := render (rowJson key (sortNames payload))

/-- Keys are hexadecimal digests. -/
def HexText (key : PyStr) : Prop := ∀ c ∈ key, 32 ≤ c ∧ c < 128

/-- A character of a row is printable, and ASCII unless the payload has it. -/
theorem written_rowText {key : PyStr} (hkey : HexText key) {payload : Json F}
    (h : payload.Finite) {c : ℕ} (hc : c ∈ rowText key payload) :
    32 ≤ c ∧ (c < 128 ∨ c ∈ chars payload) := by
  have hwritten := written_render _ (finite_rowJson key (finite_sortNames payload h)) c hc
  refine ⟨hwritten.1, ?_⟩
  rcases hwritten.2 with hascii | hmem
  · exact .inl hascii
  · rcases mem_chars_rowJson hmem with hk | hn | hp
    · exact .inl (hkey c hk).2
    · exact .inl hn.2
    · exact .inr ((mem_chars_sortNames payload).mp hp)

theorem mem_rowText {key : PyStr} {payload : Json F} {c : ℕ} (hc : 128 ≤ c)
    (hmem : c ∈ chars payload) : c ∈ rowText key payload := by
  apply mem_render hc
  rw [rowJson, chars, mem_charsMembers]
  exact ⟨(py "payload", sortNames payload), by simp, .inr ((mem_chars_sortNames payload).mpr hmem)⟩

theorem isScalar_of_lt {c : ℕ} (h : c < 128) : IsScalar c := encodeChar_ascii h

theorem encode_rowText {key : PyStr} (hkey : HexText key) {payload : Json F}
    (h : payload.Finite) :
    (encode (rowText key payload)).isSome = true ↔ Scalars (chars payload) := by
  rw [encode_isSome_iff]
  constructor
  · intro hall c hc
    by_cases hascii : c < 128
    · exact isScalar_of_lt hascii
    · exact hall c (mem_rowText (by omega) hc)
  · intro hs c hc
    rcases (written_rowText hkey h hc).2 with hascii | hmem
    · exact isScalar_of_lt hascii
    · exact hs c hmem

theorem encode_render_sorted {payload : Json F} (h : payload.Finite) :
    (encode (render (sortNames payload))).isSome = true ↔ Scalars (chars payload) := by
  rw [encode_isSome_iff]
  constructor
  · intro hall c hc
    by_cases hascii : c < 128
    · exact isScalar_of_lt hascii
    · exact hall c (mem_render (by omega) _ ((mem_chars_sortNames payload).mpr hc))
  · intro hs c hc
    rcases (written_render _ (finite_sortNames payload h) c hc).2 with hascii | hmem
    · exact isScalar_of_lt hascii
    · exact hs c ((mem_chars_sortNames payload).mp hmem)

theorem canonicalBytes_ofJson {j : Json F} (h : j.Finite) :
    canonicalBytes (ofJson j) =
      match encode (render (sortNames j)) with
      | none => .error .unicodeEncodeError
      | some bytes => .ok bytes := by
  have htext : canonicalJson (ofJson j) = .ok (render (sortNames j)) := dumps_ofJson h
  cases hbytes : encode (render (sortNames j)) with
  | none => simp only [canonicalBytes, htext, hbytes]
  | some bytes => simp only [canonicalBytes, htext, hbytes]

theorem canonicalBytes_row {payload : Json F} (h : payload.Finite) (key : PyStr) :
    canonicalBytes (rowValue key (ofJson payload)) =
      match encode (rowText key payload) with
      | none => .error .unicodeEncodeError
      | some bytes => .ok bytes := by
  have hrow : rowValue key (ofJson payload) = ofJson (rowJson key payload) := rfl
  rw [hrow, canonicalBytes_ofJson (finite_rowJson key h), sortNames_rowJson]
  rfl

/-- Whether a value can be written at all. -/
def storable (value : PyVal F) : Bool :=
  match canonicalBytes value with
  | .ok _ => true
  | .error _ => false

theorem storable_ofJson {j : Json F} (h : j.Finite) :
    storable (ofJson j) = true ↔ Scalars (chars j) := by
  rw [storable, canonicalBytes_ofJson h, ← encode_render_sorted h]
  cases encode (render (sortNames j)) with
  | none => simp
  | some bytes => simp

/-! ## The file -/

def logText (rows : List (PyStr × Json F)) : PyStr :=
  rows.flatMap fun r => rowText r.1 r.2 ++ [10]

/-- Rows that were written: their keys are digests and their payloads JSON values in UTF-8. -/
structure RowOk (r : PyStr × Json F) : Prop where
  hex : HexText r.1
  finite : r.2.Finite
  distinct : r.2.dedup = r.2
  scalars : Scalars (chars r.2)

/-- A payload without a line end that JSON writes raw. -/
def Unbroken (j : Json F) : Prop := ∀ c ∈ chars j, ¬IsSeparator c

theorem unbroken_rowText {r : PyStr × Json F} (hr : RowOk r) :
    Unbroken r.2 ↔ ∀ c ∈ rowText r.1 r.2, ¬IsSeparator c := by
  constructor
  · intro h c hc hsep
    rcases (written_rowText hr.hex hr.finite hc).2 with hascii | hmem
    · unfold IsSeparator at hsep
      omega
    · exact h c hmem hsep
  · intro h c hc hsep
    refine h c (mem_rowText ?_ hc) hsep
    unfold IsSeparator at hsep
    omega

theorem lineEnd_rowText {r : PyStr × Json F} (hr : RowOk r) {c : ℕ} (hc : c ∈ rowText r.1 r.2)
    (hsep : ¬IsSeparator c) : isLineEnd c = false :=
  isLineEnd_false (written_rowText hr.hex hr.finite hc).1 hsep

theorem rowText_head (r : PyStr × Json F) : ∃ b, rowText r.1 r.2 = 123 :: b := ⟨_, rfl⟩

theorem loadLine_rowText {r : PyStr × Json F} (hr : RowOk r) (store : Dict PyStr (PyVal F)) :
    loadLine store (rowText r.1 r.2) = .ok (store.set r.1 (ofJson (sortNames r.2))) := by
  have hblank : isBlank (rowText r.1 r.2) = false := rfl
  have hsorted : NamesSorted (sortNames (rowJson r.1 r.2)) := by
    have hdedup : (rowJson r.1 r.2).dedup = rowJson r.1 r.2 := by
      have hkeys : py "key" ≠ py "payload" := by decide
      simp [rowJson, Json.dedup, dedupMembers, hr.distinct, ofPairs, setItem, hkeys]
    rw [← hdedup]
    exact namesSorted_sortNames_dedup _
  have hloads : loads (rowText r.1 r.2) = some (rowJson r.1 (sortNames r.2)) := by
    have hread := loads_render (finite_rowJson r.1 (finite_sortNames r.2 hr.finite))
      (t := []) (by simp)
    rw [List.append_nil] at hread
    rw [rowText, hread, ← sortNames_rowJson, dedup_of_sorted _ hsorted]
  rw [loadLine, hblank, hloads]
  rfl

/-- The store the rows of a file give. -/
def restore (rows : List (PyStr × Json F)) (store : Dict PyStr (PyVal F)) :
    Dict PyStr (PyVal F) :=
  rows.foldl (fun d r => d.set r.1 (ofJson (sortNames r.2))) store

theorem load_unbroken {rows : List (PyStr × Json F)} (hrows : ∀ r ∈ rows, RowOk r)
    (h : ∀ r ∈ rows, Unbroken r.2) (store : Dict PyStr (PyVal F)) :
    (splitlines (logText rows)).foldlM loadLine store = .ok (restore rows store) := by
  induction rows generalizing store with
  | nil => rfl
  | cons r rows ih =>
    obtain ⟨hr, hrest⟩ := List.forall_mem_cons.mp hrows
    obtain ⟨hu, hunbroken⟩ := List.forall_mem_cons.mp h
    have hline : ∀ c ∈ rowText r.1 r.2, isLineEnd c = false := fun c hc =>
      lineEnd_rowText hr hc ((unbroken_rowText hr).mp hu c hc)
    have htext : logText (r :: rows) = rowText r.1 r.2 ++ 10 :: logText rows := by
      simp [logText]
    rw [htext, splitlines_line hline rfl (by decide), List.foldlM_cons, loadLine_rowText hr]
    exact ih hrest hunbroken _

/-- One broken row is enough to spoil the file. -/
theorem load_broken {rows : List (PyStr × Json F)} (hrows : ∀ r ∈ rows, RowOk r)
    (h : ¬∀ r ∈ rows, Unbroken r.2) (store : Dict PyStr (PyVal F)) :
    (splitlines (logText rows)).foldlM loadLine store = .error .jsonDecodeError := by
  induction rows generalizing store with
  | nil => simp at h
  | cons r rows ih =>
    obtain ⟨hr, hrest⟩ := List.forall_mem_cons.mp hrows
    have htext : logText (r :: rows) = rowText r.1 r.2 ++ 10 :: logText rows := by
      simp [logText]
    rw [htext]
    by_cases hu : Unbroken r.2
    · have hline : ∀ c ∈ rowText r.1 r.2, isLineEnd c = false := fun c hc =>
        lineEnd_rowText hr hc ((unbroken_rowText hr).mp hu c hc)
      rw [splitlines_line hline rfl (by decide), List.foldlM_cons, loadLine_rowText hr]
      exact ih hrest (fun hall => h (List.forall_mem_cons.mpr ⟨hu, hall⟩)) _
    · rw [unbroken_rowText hr] at hu
      push Not at hu
      obtain ⟨l, c, t, hcut, hsep, hl⟩ := cut_separator hu
      have hline : ∀ d ∈ l, isLineEnd d = false := by
        intro d hd
        have hmem : d ∈ rowText r.1 r.2 := hcut ▸ List.mem_append_left _ hd
        exact lineEnd_rowText hr hmem (hl d hd)
      have hreturn : c ≠ 13 := by
        unfold IsSeparator at hsep
        omega
      obtain ⟨b, hb⟩ := rowText_head r
      have hne : l ≠ [] := by
        rintro rfl
        rw [hb, List.nil_append, List.cons.injEq] at hcut
        rw [← hcut.1] at hsep
        exact absurd hsep (by decide)
      have hblank : isBlank l = false := by
        cases l with
        | nil => exact absurd rfl hne
        | cons d l =>
          rw [hb, List.cons_append, List.cons.injEq] at hcut
          rw [← hcut.1]
          rfl
      have hfinite := finite_rowJson r.1 (finite_sortNames r.2 hr.finite)
      have hloads : loads (F := F) l = none := loads_cut hfinite hcut.symm hne (by simp)
      rw [hcut, List.append_assoc, List.cons_append,
        splitlines_line hline hsep.isLineEnd hreturn, List.foldlM_cons, loadLine, hblank, hloads]
      rfl

omit [PyFloat F] in
theorem get_restore {rows : List (PyStr × Json F)} (h : (rows.map Prod.fst).Nodup)
    (store : Dict PyStr (PyVal F)) (key : PyStr) :
    (restore rows store).get key =
      match rows.lookup key with
      | some payload => some (ofJson (sortNames payload))
      | none => store.get key := by
  induction rows generalizing store with
  | nil => rfl
  | cons r rows ih =>
    obtain ⟨hnot, hrest⟩ := List.nodup_cons.mp h
    rw [restore, List.foldl_cons, ← restore, ih hrest, List.lookup_cons]
    by_cases hk : key = r.1
    · subst hk
      have hnone : rows.lookup r.1 = none := by
        rw [List.lookup_eq_none_iff]
        intro p hp
        have hne : r.1 ≠ p.1 := fun he => hnot (he ▸ List.mem_map_of_mem hp)
        simpa using hne
      rw [hnone, beq_self_eq_true]
      exact Dict.get_set_self _ _ _
    · have hbeq : (key == r.1) = false := by simpa using hk
      rw [hbeq]
      cases rows.lookup key with
      | some payload => rfl
      | none => exact (Dict.get_set _ _ _ _).trans (if_neg hk)

/-! ## The invariant -/

/-- A Python value that is a JSON value. -/
def IsJson (value : PyVal F) : Prop := ∃ j : Json F, j.Finite ∧ j.dedup = j ∧ value = ofJson j

/-- The store holds a payload as it was answered, or as it was read back. -/
def Holds (value : PyVal F) (payload : Json F) : Prop :=
  value = ofJson payload ∨ value = ofJson (sortNames payload)

/-- What the file and the store hold after some payloads were answered: those that can be written,
and for each key no more than the first of them. -/
structure Logged (s : Cache F W) (rows : List (PyStr × Json F)) : Prop where
  ok : ∀ r ∈ rows, RowOk r
  file : encode (logText rows) = some (s.file.getD [])
  stored : s.answered.filter (fun p => storable p.2) = rows.map fun r => (r.1, ofJson r.2)
  once : s.answered.Pairwise fun p q => p.1 = q.1 → storable p.2 = false
  store : ∀ key, Option.Rel Holds (s.store.get key) (rows.lookup key)

theorem Logged.keys_nodup {s : Cache F W} {rows : List (PyStr × Json F)} (h : Logged s rows) :
    (rows.map Prod.fst).Nodup := by
  have hpair := h.once.filter (fun p => storable p.2)
  rw [h.stored, List.pairwise_map] at hpair
  rw [List.nodup_iff_pairwise_ne, List.pairwise_map]
  refine hpair.imp_of_mem fun {a b} ha _ hab heq => ?_
  have hmem : (a.1, ofJson a.2) ∈ s.answered.filter (fun p => storable p.2) :=
    h.stored ▸ List.mem_map_of_mem ha
  have hstorable := (List.mem_filter.mp hmem).2
  rw [hab heq] at hstorable
  cases hstorable

/-- A payload that can be written is in the file. -/
theorem Logged.lookup_ne_none {s : Cache F W} {rows : List (PyStr × Json F)} (h : Logged s rows)
    {key : PyStr} {payload : PyVal F} (hmem : (key, payload) ∈ s.answered)
    (hs : storable payload = true) : rows.lookup key ≠ none := by
  intro hnone
  have hfilter : (key, payload) ∈ s.answered.filter (fun p => storable p.2) :=
    List.mem_filter.mpr ⟨hmem, hs⟩
  rw [h.stored] at hfilter
  obtain ⟨r, hr, heq⟩ := List.mem_map.mp hfilter
  have hall := List.lookup_eq_none_iff.mp hnone r hr
  have hkey : r.1 = key := congrArg Prod.fst heq
  simp [hkey] at hall

theorem openCache_logged {s : Cache F W} {rows : List (PyStr × Json F)} (h : Logged s rows) :
    openCache (F := F) s.file = (splitlines (logText rows)).foldlM loadLine empty := by
  have htext : ∀ c ∈ logText rows, c ≠ 13 := by
    intro c hc
    obtain ⟨r, hr, hmem⟩ := List.mem_flatMap.mp hc
    rcases List.mem_append.mp hmem with hrow | hfeed
    · have := (written_rowText (h.ok r hr).hex (h.ok r hr).finite hrow).1
      omega
    · rw [List.mem_singleton] at hfeed
      omega
  have htranslate : translateNewlines (logText rows) = logText rows :=
    translateNewlines_of_noReturn fun hmem => htext 13 hmem rfl
  have hdecode := decode_encode h.file
  cases hfile : s.file with
  | none =>
    rw [hfile] at hdecode
    have hnil : logText rows = [] := (Option.some.inj hdecode).symm
    rw [hnil]
    rfl
  | some file =>
    rw [hfile, Option.getD_some] at hdecode
    rw [openCache, hdecode]
    dsimp only
    rw [htranslate]

theorem openCache_unbroken {s : Cache F W} {rows : List (PyStr × Json F)} (h : Logged s rows)
    (hu : ∀ r ∈ rows, Unbroken r.2) : openCache s.file = .ok (restore rows empty) := by
  rw [openCache_logged h]
  exact load_unbroken h.ok hu empty

theorem openCache_broken {s : Cache F W} {rows : List (PyStr × Json F)} (h : Logged s rows)
    (hu : ¬∀ r ∈ rows, Unbroken r.2) : openCache (F := F) s.file = .error .jsonDecodeError := by
  rw [openCache_logged h]
  exact load_broken h.ok hu empty

theorem get_restored {s : Cache F W} {rows : List (PyStr × Json F)} (h : Logged s rows)
    (key : PyStr) :
    (restore rows empty).get key = (rows.lookup key).map fun j => ofJson (sortNames j) := by
  rw [get_restore h.keys_nodup, get_empty]
  cases rows.lookup key <;> rfl

/-- A proxy opened again holds what the file holds. -/
theorem Logged.reopened {s : Cache F W} {rows : List (PyStr × Json F)} (h : Logged s rows) :
    Logged (s.reopened (restore rows empty)) rows where
  ok := h.ok
  file := h.file
  stored := h.stored
  once := h.once
  store := by
    intro key
    have hget : (s.reopened (restore rows empty)).store.get key = _ := get_restored h key
    rw [hget]
    cases rows.lookup key with
    | none => exact .none
    | some payload => exact .some (.inr rfl)

/-! ## Steps -/

omit [PyFloat F] in
theorem lookup_none_of_rel {ν μ : Type} {R : ν → μ → Prop} {a : Option ν} {b : Option μ}
    (h : Option.Rel R a b) (ha : a = none) : b = none := by
  cases h with
  | none => rfl
  | some => cases ha

/-- A payload was answered that can be written: it becomes a row. -/
theorem Logged.kept {s : Cache F W} {rows : List (PyStr × Json F)} (h : Logged s rows)
    {key : PyStr} {payload : Json F} {bytes : PyBytes} (hr : RowOk (key, payload))
    (hnew : s.store.get key = none) (hbytes : encode (rowText key payload) = some bytes) :
    Logged { s with
      file := some (s.file.getD [] ++ bytes ++ [10])
      store := s.store.set key (ofJson payload)
      answered := s.answered ++ [(key, ofJson payload)] } (rows ++ [(key, payload)]) := by
  have hlookup : rows.lookup key = none := lookup_none_of_rel (h.store key) hnew
  have hstorable : storable (ofJson payload) = true := (storable_ofJson hr.finite).mpr hr.scalars
  refine ⟨?_, ?_, ?_, ?_, ?_⟩
  · exact List.forall_mem_append.mpr ⟨h.ok, List.forall_mem_singleton.mpr hr⟩
  · have htext : logText (rows ++ [(key, payload)]) =
        logText rows ++ (rowText key payload ++ [10]) := by simp [logText]
    rw [htext, encode_append_eq_some]
    refine ⟨_, _, h.file, encode_append_eq_some.mpr ⟨bytes, [10], hbytes, rfl, rfl⟩, ?_⟩
    rw [Option.getD_some, List.append_assoc]
  · simp [List.filter_append, h.stored, hstorable]
  · refine List.pairwise_append.mpr ⟨h.once, List.pairwise_singleton _ _, ?_⟩
    intro p hp q hq heq
    rw [List.mem_singleton] at hq
    subst hq
    by_contra hs
    obtain ⟨pkey, ppayload⟩ := p
    obtain rfl : pkey = key := heq
    exact h.lookup_ne_none hp (by simpa using hs) hlookup
  · intro key'
    rw [Dict.get_set, List.lookup_append]
    by_cases hk : key' = key
    · subst hk
      rw [if_pos rfl, hlookup]
      simp only [List.lookup_cons, beq_self_eq_true, Option.none_or]
      exact .some (.inl rfl)
    · have hbeq : (key' == key) = false := by simpa using hk
      rw [if_neg hk, List.lookup_cons, hbeq]
      simpa using h.store key'

/-- A payload was answered that cannot be written: the cache stays as it was. -/
theorem Logged.bypassed {s : Cache F W} {rows : List (PyStr × Json F)} (h : Logged s rows)
    {key : PyStr} {payload : PyVal F} (hnew : s.store.get key = none)
    (hs : storable payload = false) :
    Logged { s with
      file := some (s.file.getD [])
      answered := s.answered ++ [(key, payload)] } rows := by
  have hlookup : rows.lookup key = none := lookup_none_of_rel (h.store key) hnew
  refine ⟨h.ok, h.file, ?_, ?_, h.store⟩
  · simp [List.filter_append, h.stored, hs]
  · refine List.pairwise_append.mpr ⟨h.once, List.pairwise_singleton _ _, ?_⟩
    intro p hp q hq heq
    rw [List.mem_singleton] at hq
    subst hq
    by_contra hsp
    obtain ⟨pkey, ppayload⟩ := p
    obtain rfl : pkey = key := heq
    exact h.lookup_ne_none hp (by simpa using hsp) hlookup

theorem hexText_keyOf {C : CachedThrottledSciverse F W} {request : Request F} {key : PyStr}
    (h : keyOf C request = .ok key) : HexText key := by
  unfold keyOf at h
  cases hbody : canonicalBytes request.body with
  | error e => rw [hbody] at h; cases h
  | ok body =>
    rw [hbody] at h
    obtain rfl : (C.sha256 body).map (fun d => hexDigit d.val) = key := Except.ok.inj h
    intro c hc
    obtain ⟨d, _, rfl⟩ := List.mem_map.mp hc
    have hd := d.isLt
    unfold hexDigit
    split_ifs <;> omega

/-- As long as the payloads are JSON values, the cache is what its rows say. -/
def Consistent (s : Cache F W) : Prop :=
  (∀ p ∈ s.answered, IsJson p.2) → ∃ rows, Logged s rows

/-- What `keep` does to the cache. -/
def kept (key : PyStr) (payload : PyVal F) (s : Cache F W) : Cache F W :=
  match canonicalBytes (rowValue key payload) with
  | .error _ => { s with file := some (s.file.getD []) }
  | .ok row =>
    { s with file := some (s.file.getD [] ++ row ++ [10]), store := s.store.set key payload }

theorem keep_run (key : PyStr) (payload : PyVal F) (s : Cache F W) :
    keep key payload s = .ok () (kept key payload s) := by
  unfold keep append kept
  cases hrow : canonicalBytes (rowValue key payload) with
  | error e =>
    have hbypass : e.bypasses = true := by
      unfold canonicalBytes at hrow
      split at hrow
      · cases hrow
        rfl
      · split at hrow <;> cases hrow
        rfl
    change (if e.bypasses then pure () else throw e : CacheRun F W Unit) _ = _
    rw [if_pos hbypass]
    rfl
  | ok row => rfl

theorem consistent_kept {s : Cache F W} (h : Consistent s) {key : PyStr} (hkey : HexText key)
    (hnew : s.store.get key = none) (payload : PyVal F) :
    Consistent (kept key payload { s with answered := s.answered ++ [(key, payload)] }) := by
  intro hjson
  have hanswered : ∀ p ∈ s.answered ++ [(key, payload)], IsJson p.2 := by
    intro p hp
    refine hjson p ?_
    unfold kept
    split <;> exact hp
  obtain ⟨hold, hlast⟩ := List.forall_mem_append.mp hanswered
  obtain ⟨rows, hlogged⟩ := h hold
  obtain ⟨j, hfinite, hdistinct, rfl⟩ := List.forall_mem_singleton.mp hlast
  rw [kept, canonicalBytes_row hfinite]
  cases hbytes : encode (rowText key j) with
  | none =>
    have hnot : storable (ofJson j) = false := by
      rw [Bool.eq_false_iff]
      intro hs
      have hsome := (encode_rowText hkey hfinite).mpr ((storable_ofJson hfinite).mp hs)
      rw [hbytes] at hsome
      cases hsome
    exact ⟨rows, hlogged.bypassed hnew hnot⟩
  | some bytes =>
    have hscalars : Scalars (chars j) := (encode_rowText hkey hfinite).mp (by rw [hbytes]; rfl)
    exact ⟨_, hlogged.kept ⟨hkey, hfinite, hdistinct, hscalars⟩ hnew hbytes⟩

/-- Neither the world nor the counters matter. -/
theorem Consistent.frame {s s' : Cache F W} (h : Consistent s) (hfile : s'.file = s.file)
    (hstore : s'.store = s.store) (hanswered : s'.answered = s.answered) : Consistent s' := by
  intro hjson
  rw [hanswered] at hjson
  obtain ⟨rows, hlogged⟩ := h hjson
  refine ⟨rows, hlogged.ok, ?_, ?_, ?_, ?_⟩
  · rw [hfile]
    exact hlogged.file
  · rw [hanswered]
    exact hlogged.stored
  · rw [hanswered]
    exact hlogged.once
  · rw [hstore]
    exact hlogged.store

/-- Nothing is stored under a key. -/
def Missing (key : PyStr) (s : Cache F W) : Prop := Consistent s ∧ s.store.get key = none

theorem triple_attempts (C : CachedThrottledSciverse F W) (request : Request F) (key : PyStr)
    (n : ℕ) :
    Triple (Missing key) (attempts C request n) (fun _ => Missing key) Consistent := by
  induction n with
  | zero => exact triple_pure fun _ hs => hs
  | succ n ih =>
    refine Triple.get fun s hs => ?_
    refine Triple.bind (Q := fun _ => Missing key) ?_ fun _ => ?_
    · apply triple_set
      rintro _ rfl
      exact ⟨hs.1.frame rfl rfl rfl, hs.2⟩
    · split
      · exact triple_pure fun _ hs => hs
      · split_ifs
        · exact triple_throw fun _ hs => hs.1
        · exact ih

theorem triple_detach (value : PyVal F) :
    Triple Consistent (detach value : CacheRun F W (PyVal F)) (fun _ => Consistent) Consistent := by
  unfold detach
  split
  · exact triple_throw fun _ hs => hs
  · split
    · exact triple_throw fun _ hs => hs
    · exact triple_pure fun _ hs => hs

/-- A payload was answered. -/
theorem answer_run (key : PyStr) (payload : PyVal F) (s : Cache F W) :
    (do
      modify fun s => { s with answered := s.answered ++ [(key, payload)] }
      keep key payload
      pure payload : CacheRun F W (PyVal F)) s =
      .ok payload (kept key payload { s with answered := s.answered ++ [(key, payload)] }) := by
  change EStateM.bind (keep key payload) _ _ = _
  unfold EStateM.bind
  rw [keep_run]
  rfl

theorem triple_call (C : CachedThrottledSciverse F W) (request : Request F) :
    Triple Consistent (call C request) (fun _ => Consistent) Consistent := by
  unfold call
  cases hkey : keyOf C request with
  | error e => exact triple_throw fun _ hs => hs
  | ok key =>
    refine Triple.get fun s hs => ?_
    cases hget : s.store.get key with
    | some value =>
      refine Triple.bind (triple_modify ?_) fun _ => triple_detach value
      rintro _ rfl
      exact hs.frame rfl rfl rfl
    | none =>
      have hmissing : ∀ t : Cache F W, t = s → Missing key t := by
        rintro _ rfl
        exact ⟨hs, hget⟩
      refine ((triple_attempts C request key _).weaken hmissing fun _ _ h => h).bind fun value => ?_
      refine Triple.bind (Q := fun _ => Missing key) (triple_modify ?_) fun _ => ?_
      · exact fun t ht => ⟨ht.1.frame rfl rfl rfl, ht.2⟩
      cases value with
      | none => exact triple_throw fun _ ht => ht.1
      | some payload =>
        refine triple_of_ok fun t ht => ⟨_, _, answer_run key payload t, ?_⟩
        exact consistent_kept ht.1 (hexText_keyOf hkey) ht.2 payload

theorem consistent_reopened {s : Cache F W} (h : Consistent s) {store : Dict PyStr (PyVal F)}
    (hopen : openCache s.file = .ok store) : Consistent (s.reopened store) := by
  intro hjson
  obtain ⟨rows, hlogged⟩ := h hjson
  by_cases hu : ∀ r ∈ rows, Unbroken r.2
  · rw [openCache_unbroken hlogged hu] at hopen
    cases hopen
    exact ⟨rows, hlogged.reopened⟩
  · rw [openCache_broken hlogged hu] at hopen
    cases hopen

theorem consistent_happen {C : CachedThrottledSciverse F W} {s s' : Cache F W}
    {event : CacheEvent F} (h : happen C s event = some s') (hs : Consistent s) :
    Consistent s' := by
  cases event with
  | call request =>
    obtain rfl : (ran (call C request) s).2 = s' := Option.some.inj h
    have hcall := triple_call C request s hs
    cases hres : call C request s with
    | ok value t =>
      rw [ran_ok hres]
      exact hcall.1 value t hres
    | error e t =>
      rw [ran_error hres]
      exact hcall.2 e t hres
  | reopen =>
    unfold happen at h
    cases hopen : openCache (F := F) s.file with
    | error e =>
      rw [hopen] at h
      cases h
    | ok store =>
      rw [hopen] at h
      cases h
      exact consistent_reopened hs hopen

theorem consistent_run {C : CachedThrottledSciverse F W} {events : List (CacheEvent F)}
    {s s' : Cache F W} (h : run C events s = some s') (hs : Consistent s) : Consistent s' := by
  induction events generalizing s with
  | nil => exact Option.some.inj h ▸ hs
  | cons event events ih =>
    rw [run, List.foldlM_cons] at h
    obtain ⟨t, ht, hrest⟩ := Option.bind_eq_some_iff.mp h
    exact ih hrest (consistent_happen ht hs)

theorem consistent_started (world : W) : Consistent (started world : Cache F W) :=
  fun _ => ⟨[], by simp, rfl, rfl, .nil, fun _ => .none⟩

/-! ## The snapshot -/

/-- Two values that are the same JSON value. -/
def SameJson (v w : PyVal F) : Prop := ∃ text, canonicalJson v = .ok text ∧ canonicalJson w = .ok text

/-- A request that was answered before is answered with the first payload, and not asked again. -/
def Repeats (C : CachedThrottledSciverse F W) (s : Cache F W) : Prop :=
  ∀ request key payload, keyOf C request = .ok key → s.answered.lookup key = some payload →
    ∃ value s', ran (call C request) s = (.ok value, s') ∧ SameJson value payload ∧
      s'.asked = s.asked

/-- The file restores the map from keys to first payloads, and answered requests are answered
alike by the proxy and by one opened again. -/
def Snapshot (C : CachedThrottledSciverse F W) (s : Cache F W) : Prop :=
  ∃ store, openCache s.file = .ok store ∧
    (∀ key, Option.Rel SameJson (store.get key) (s.answered.lookup key)) ∧
    Repeats C s ∧ Repeats C (s.reopened store)

/-- A JSON value in UTF-8, with none of the three line ends that JSON writes raw. -/
def Readable (value : PyVal F) : Prop :=
  ∃ j : Json F, value = ofJson j ∧ ∀ c ∈ chars j, IsScalar c ∧ ¬IsSeparator c

/-! ## Lookups -/

theorem lookup_map_snd {ν μ : Type} (f : ν → μ) (rows : List (PyStr × ν)) (key : PyStr) :
    (rows.map fun r => (r.1, f r.2)).lookup key = (rows.lookup key).map f := by
  induction rows with
  | nil => rfl
  | cons r rows ih =>
    rw [List.map_cons, List.lookup_cons, List.lookup_cons, ih]
    cases key == r.1 <;> rfl

/-! ## Readable payloads are repeated -/

theorem call_hit {C : CachedThrottledSciverse F W} {request : Request F} {s : Cache F W}
    {key text : PyStr} {value : PyVal F} {j : Json F} (hkey : keyOf C request = .ok key)
    (hget : s.store.get key = some value) (htext : dumpsDefault value = .ok text)
    (hload : loads text = some j) :
    ran (call C request) s = (.ok (ofJson j), { s with hits := s.hits + 1 }) := by
  rw [ran_eq_ok, call, hkey]
  dsimp only
  have hstored : ∀ t : Cache F W, detach value t = .ok (ofJson j) t := by
    intro t
    rw [detach, htext]
    dsimp only
    rw [hload]
    rfl
  dsimp only [bind, EStateM.bind, get, getThe, MonadStateOf.get, EStateM.get]
  rw [hget]
  exact hstored _

/-- What is held is a payload that can be written, and the same JSON value as the one of the row. -/
theorem RowOk.holds {r : PyStr × Json F} (hr : RowOk r) {value : PyVal F} (hv : Holds value r.2) :
    ∃ k : Json F, value = ofJson k ∧ RowOk (r.1, k) ∧ sortNames k = sortNames r.2 := by
  rcases hv with rfl | rfl
  · exact ⟨r.2, rfl, hr, rfl⟩
  · have hsorted : NamesSorted (sortNames r.2) := by
      rw [← hr.distinct]
      exact namesSorted_sortNames_dedup r.2
    have hscalars : Scalars (chars (sortNames r.2)) := fun c hc =>
      hr.scalars c ((mem_chars_sortNames r.2).mp hc)
    exact ⟨_, rfl, ⟨hr.hex, finite_sortNames r.2 hr.finite, dedup_of_sorted _ hsorted, hscalars⟩,
      sortNames_of_sorted _ hsorted⟩

theorem sameJson_ofJson {j k : Json F} (hj : j.Finite) (hk : k.Finite)
    (h : sortNames j = sortNames k) : SameJson (ofJson j) (ofJson k) :=
  ⟨render (sortNames j), dumps_ofJson hj, h ▸ dumps_ofJson hk⟩

theorem Logged.repeats {s : Cache F W} {rows : List (PyStr × Json F)} (h : Logged s rows)
    (hall : s.answered = rows.map fun r => (r.1, ofJson r.2)) (C : CachedThrottledSciverse F W) :
    Repeats C s := by
  intro request key payload hkey hfirst
  rw [hall, lookup_map_snd] at hfirst
  obtain ⟨j, hlookup, rfl⟩ := Option.map_eq_some_iff.mp hfirst
  have hrow := h.ok (key, j) (mem_of_lookup hlookup)
  have hrel := h.store key
  rw [hlookup] at hrel
  cases hget : s.store.get key with
  | none =>
    rw [hget] at hrel
    cases hrel
  | some value =>
    rw [hget] at hrel
    cases hrel with
    | some hv =>
      obtain ⟨k, rfl, hk, hsame⟩ := hrow.holds hv
      obtain ⟨text, htext, hload⟩ := loads_dumpsDefault hk.finite hk.scalars
      have hdistinct : k.dedup = k := hk.distinct
      rw [hdistinct] at hload
      exact ⟨_, _, call_hit hkey hget htext hload,
        sameJson_ofJson hk.finite hrow.finite hsame, rfl⟩

theorem ofJson_injective {j k : Json F} (h : ofJson j = ofJson k) : j = k := by
  have hj := lowerUnsorted_ofJson j
  rw [h, lowerUnsorted_ofJson] at hj
  exact (Except.ok.inj hj).symm

/-- What the file gives back is the payload that was answered. -/
theorem Logged.restored {s : Cache F W} {rows : List (PyStr × Json F)} (h : Logged s rows)
    (hall : s.answered = rows.map fun r => (r.1, ofJson r.2)) (key : PyStr) :
    Option.Rel SameJson ((restore rows empty).get key) (s.answered.lookup key) := by
  rw [get_restored h, hall, lookup_map_snd]
  cases hlookup : rows.lookup key with
  | none => exact .none
  | some j =>
    have hrow := h.ok (key, j) (mem_of_lookup hlookup)
    obtain ⟨k, hk, hok, hsame⟩ := hrow.holds (.inr rfl)
    rw [Option.map_some, Option.map_some, hk]
    exact .some (sameJson_ofJson hok.finite hrow.finite hsame)

theorem snapshot_of_readable {s : Cache F W} {rows : List (PyStr × Json F)} (h : Logged s rows)
    (hjson : ∀ p ∈ s.answered, IsJson p.2) (hreadable : ∀ p ∈ s.answered, Readable p.2)
    (C : CachedThrottledSciverse F W) : Snapshot C s := by
  have hstorable : ∀ p ∈ s.answered, storable p.2 = true := by
    intro p hp
    obtain ⟨j, hfinite, _, hj⟩ := hjson p hp
    obtain ⟨k, hk, hchars⟩ := hreadable p hp
    obtain rfl : j = k := ofJson_injective (hj.symm.trans hk)
    rw [hj, storable_ofJson hfinite]
    exact fun c hc => (hchars c hc).1
  have hall : s.answered = rows.map fun r => (r.1, ofJson r.2) := by
    rw [← h.stored, List.filter_eq_self.mpr hstorable]
  have hunbroken : ∀ r ∈ rows, Unbroken r.2 := by
    intro r hr
    have hmem : (r.1, ofJson r.2) ∈ s.answered := hall ▸ List.mem_map_of_mem hr
    obtain ⟨k, hk, hchars⟩ := hreadable _ hmem
    obtain rfl : r.2 = k := ofJson_injective hk
    exact fun c hc => (hchars c hc).2
  exact ⟨_, openCache_unbroken h hunbroken, h.restored hall, h.repeats hall C,
    h.reopened.repeats hall C⟩

/-! ## Other payloads are lost -/

/-- The first payload of a key with one that cannot be written cannot be written either. -/
theorem first_unstorable {answered : List (PyStr × PyVal F)}
    (h : answered.Pairwise fun p q => p.1 = q.1 → storable p.2 = false) {key : PyStr}
    {first payload : PyVal F} (hfirst : answered.lookup key = some first)
    (hmem : (key, payload) ∈ answered) (hs : storable payload = false) :
    storable first = false := by
  cases answered with
  | nil => cases hfirst
  | cons p answered =>
    obtain ⟨hp, hrest⟩ := List.pairwise_cons.mp h
    rw [List.lookup_cons] at hfirst
    by_cases hk : key = p.1
    · subst hk
      rw [beq_self_eq_true] at hfirst
      rw [← Option.some.inj hfirst]
      rcases List.mem_cons.mp hmem with heq | hmem
      · rw [← heq]
        exact hs
      · exact hp _ hmem rfl
    · have hbeq : (key == p.1) = false := by simpa using hk
      rw [hbeq] at hfirst
      have hmem : (key, payload) ∈ answered := by
        rcases List.mem_cons.mp hmem with rfl | hmem
        · exact absurd rfl hk
        · exact hmem
      exact first_unstorable hrest hfirst hmem hs

theorem storable_of_sameJson {v w : PyVal F} (h : SameJson v w) : storable v = storable w := by
  obtain ⟨text, hv, hw⟩ := h
  rw [storable, storable, canonicalBytes, canonicalBytes, hv, hw]

theorem readable_of_snapshot {C : CachedThrottledSciverse F W} {s : Cache F W}
    {rows : List (PyStr × Json F)} (h : Logged s rows) (hjson : ∀ p ∈ s.answered, IsJson p.2)
    (hsnapshot : Snapshot C s) : ∀ p ∈ s.answered, Readable p.2 := by
  obtain ⟨store, hopen, hrestored, -, -⟩ := hsnapshot
  have hunbroken : ∀ r ∈ rows, Unbroken r.2 := by
    by_contra hu
    rw [openCache_broken h hu] at hopen
    cases hopen
  rw [openCache_unbroken h hunbroken] at hopen
  obtain rfl : restore rows empty = store := Except.ok.inj hopen
  rintro ⟨key, payload⟩ hp
  obtain ⟨j, hfinite, _, hj⟩ := hjson _ hp
  have hstorable : storable payload = true := by
    by_contra hs
    rw [Bool.not_eq_true] at hs
    -- the file has a value for every key that was answered, and what it has can be written
    have hrel := hrestored key
    rw [get_restored h] at hrel
    cases hfirst : s.answered.lookup key with
    | none =>
      have hnot := List.lookup_eq_none_iff.mp hfirst _ hp
      simp at hnot
    | some first =>
      rw [hfirst] at hrel
      cases hlookup : rows.lookup key with
      | none =>
        rw [hlookup] at hrel
        cases hrel
      | some k =>
        rw [hlookup] at hrel
        cases hrel with
        | some hsame =>
          have hrow := h.ok (key, k) (mem_of_lookup hlookup)
          obtain ⟨k', hk', hok, -⟩ := hrow.holds (.inr rfl)
          have hwritten : storable (ofJson (sortNames k)) = true := by
            rw [hk']
            exact (storable_ofJson hok.finite).mpr hok.scalars
          rw [storable_of_sameJson hsame, first_unstorable h.once hfirst hp hs] at hwritten
          cases hwritten
  have hfilter : (key, payload) ∈ s.answered.filter (fun p => storable p.2) :=
    List.mem_filter.mpr ⟨hp, hstorable⟩
  rw [h.stored] at hfilter
  obtain ⟨r, hr, heq⟩ := List.mem_map.mp hfilter
  have hpayload : ofJson r.2 = payload := congrArg Prod.snd heq
  exact ⟨r.2, hpayload.symm, fun c hc => ⟨(h.ok r hr).scalars c hc, hunbroken r hr c hc⟩⟩

/-! ## Runs -/

/-- A client that answers every call with one text. -/
def echo (text : PyStr) : CachedThrottledSciverse NonFinite Unit where
  sha256 := fun _ => [0, 10]
  inner := fun _ w => (.ok (.str text), w)
  max429 := 12

def search : Request NonFinite := ⟨py "search", [.str (py "alloy")], []⟩

/-- One call, answered and stored. -/
def searched (text : PyStr) : Cache NonFinite Unit := (ran (call (echo text) search) (started ())).2

theorem run_searched (text : PyStr) :
    run (echo text) [.call search] (started ()) = some (searched text) := rfl

/-- The value is this text. -/
def isText (text : PyStr) : PyVal NonFinite → Bool
  | .str t => t == text
  | _ => false

theorem isText_iff {text : PyStr} {v : PyVal NonFinite} : isText text v = true ↔ v = .str text := by
  cases v <;> simp [isText]

theorem json_searched {text : PyStr}
    (h : ((searched text).answered.all fun p => isText text p.2) = true) :
    ∀ p ∈ (searched text).answered, IsJson p.2 := by
  intro p hp
  rw [isText_iff.mp (List.all_eq_true.mp h p hp)]
  exact ⟨.str text, trivial, rfl, rfl⟩

/-- In every run whose payloads are JSON values, the cache is a faithful snapshot exactly while
every payload answered so far can be encoded and has none of the line ends that JSON writes raw. -/
theorem snapshot_iff (C : CachedThrottledSciverse F W) (world : W) (events : List (CacheEvent F))
    (s : Cache F W) (hrun : run C events (started world) = some s)
    (hjson : ∀ p ∈ s.answered, IsJson p.2) :
    Snapshot C s ↔ ∀ p ∈ s.answered, Readable p.2 := by
  obtain ⟨rows, hlogged⟩ := consistent_run hrun (consistent_started world) hjson
  exact ⟨readable_of_snapshot hlogged hjson, fun hr => snapshot_of_readable hlogged hjson hr C⟩

theorem snapshot_iff_plain :
    Snapshot (echo (py "Ti")) (searched (py "Ti")) ↔
      ∀ p ∈ (searched (py "Ti")).answered, Readable p.2 :=
  snapshot_iff (echo (py "Ti")) () [.call search] _ (run_searched _)
    (json_searched (by decide +kernel))

/-- After one answer with a LINE SEPARATOR in it the file cannot be opened again. -/
theorem not_snapshot_separator :
    ∃ s, run (echo [0x2028]) [.call search] (started ()) = some s ∧
      (∀ p ∈ s.answered, IsJson p.2) ∧ ¬Snapshot (echo [0x2028]) s := by
  have hall : ((searched [0x2028]).answered.all fun p => isText [0x2028] p.2) = true := by
    decide +kernel
  have hany : ((searched [0x2028]).answered.any fun p => isText [0x2028] p.2) = true := by
    decide +kernel
  have hjson := json_searched hall
  refine ⟨_, run_searched _, hjson, fun hsnapshot => ?_⟩
  obtain ⟨rows, hlogged⟩ := consistent_run (run_searched [0x2028]) (consistent_started ()) hjson
  obtain ⟨p, hp, htext⟩ := List.any_eq_true.mp hany
  obtain ⟨j, hj, hchars⟩ := readable_of_snapshot hlogged hjson hsnapshot p hp
  rw [isText_iff.mp htext] at hj
  obtain rfl : Json.str [0x2028] = j := ofJson_injective hj
  exact (hchars 0x2028 (List.mem_singleton_self _)).2 (by decide)

end RetrievalCache
