import VeriMat.DurablePayload
import VeriMat.JsonLines

/-! # Values that can be written to a file

A value is written when `json.dumps` takes it and the text has no lone surrogate. For a dict with
string keys that is a matter of its members. -/
namespace JsonWritable

open PyText JsonText PyValue DurablePayload

/-! ## Texts -/

theorem encode_append_isSome {s t : PyStr} :
    (encode (s ++ t)).isSome = true ↔ (encode s).isSome = true ∧ (encode t).isSome = true := by
  simp only [encode_isSome_iff, List.forall_mem_append]

theorem encodeChar_ascii {c : ℕ} (h : c < 128) : (encodeChar c).isSome = true := by
  rw [encodeChar, if_pos h]
  rfl

theorem encode_ascii {s : PyStr} (h : ∀ c ∈ s, c < 128) : (encode s).isSome = true :=
  encode_isSome_iff.mpr fun c hc => encodeChar_ascii (h c hc)

theorem encodes_of_isHash {s : PyStr} (h : Events.isHash s = true) : (encode s).isSome = true := by
  apply encode_ascii
  intro c hc
  simp only [Events.isHash, Bool.and_eq_true, List.all_eq_true] at h
  have hhex := h.2 c hc
  simp only [Bool.or_eq_true, Bool.and_eq_true, decide_eq_true_eq] at hhex
  omega

theorem hexDigit_lt {n : ℕ} (h : n < 16) : hexDigit n < 128 := by
  unfold hexDigit
  split_ifs <;> omega

/-- A text that says something and can be encoded. -/
def Label (s : PyStr) : Prop := isBlank s = false ∧ (encode s).isSome = true

theorem Label.append {s t : PyStr} (hs : Label s) (ht : (encode t).isSome = true) :
    Label (s ++ t) := by
  refine ⟨?_, encode_append_isSome.mpr ⟨hs.2, ht⟩⟩
  rw [isBlank_append, hs.1, Bool.false_and]

/-- Only ASCII characters are escaped, and into ASCII. -/
theorem escapeChar_encodes (c : ℕ) :
    (encode (escapeChar c)).isSome = true ↔ (encodeChar c).isSome = true := by
  by_cases hc : c < 128
  · have hascii : ∀ d ∈ escapeChar c, d < 128 := by
      have h₁ := hexDigit_lt (show c % 16 < 16 by omega)
      unfold escapeChar
      split_ifs with _ _ _ _ _ _ _ hcontrol
      · simp
      · simp
      · simp
      · simp
      · simp
      · simp
      · simp
      · have h₂ := hexDigit_lt (show c / 16 < 16 by omega)
        simp [h₁, h₂]
      · simp [hc]
    simp [encode_ascii hascii, encodeChar_ascii hc]
  · have hsame : escapeChar c = [c] := by
      unfold escapeChar
      split_ifs <;> first | omega | rfl
    rw [hsame, encode_isSome_iff]
    simp

theorem quote_encodes (s : PyStr) :
    (encode (quote s)).isSome = true ↔ (encode s).isSome = true := by
  have hescape : (encode (escape s)).isSome = true ↔ (encode s).isSome = true := by
    induction s with
    | nil => rfl
    | cons c cs ih =>
      rw [escape, List.flatMap_cons, encode_append_isSome, escapeChar_encodes]
      rw [escape] at ih
      rw [ih, encode_isSome_iff, encode_isSome_iff, List.forall_mem_cons]
  have hquote : quote s = [34] ++ escape s ++ [34] := rfl
  rw [hquote, encode_append_isSome, encode_append_isSome, hescape]
  simp [encode_ascii]

variable {F : Type} [PyFloat F]

theorem renderMembers_encodes {members : List (PyStr × Json F)} :
    (encode (renderMembers members)).isSome = true ↔
      ∀ m ∈ members, (encode m.1).isSome = true ∧ (encode (render m.2)).isSome = true := by
  induction members with
  | nil =>
    rw [renderMembers]
    simp [encode_ascii]
  | cons m members ih =>
    obtain ⟨k, v⟩ := m
    have hrender : renderMembers ((k, v) :: members) =
        [44] ++ quote k ++ [58] ++ render v ++ renderMembers members := by
      rw [renderMembers]
      simp
    rw [hrender]
    simp only [encode_append_isSome, quote_encodes, ih, List.forall_mem_cons]
    have hcomma : (encode [44]).isSome = true := rfl
    have hcolon : (encode [58]).isSome = true := rfl
    simp only [hcomma, hcolon, true_and, and_true, and_assoc]

theorem render_obj_encodes {members : List (PyStr × Json F)} :
    (encode (render (.obj members))).isSome = true ↔
      ∀ m ∈ members, (encode m.1).isSome = true ∧ (encode (render m.2)).isSome = true := by
  cases members with
  | nil =>
    rw [render]
    simp [encode_ascii]
  | cons m members =>
    obtain ⟨k, v⟩ := m
    have hrender : render (.obj ((k, v) :: members)) =
        [123] ++ quote k ++ [58] ++ render v ++ renderMembers members := by
      rw [render]
      simp
    rw [hrender]
    simp only [encode_append_isSome, quote_encodes, renderMembers_encodes, List.forall_mem_cons]
    have hbrace : (encode [123]).isSome = true := rfl
    have hcolon : (encode [58]).isSome = true := rfl
    simp only [hbrace, hcolon, true_and, and_true, and_assoc]

/-! ## Values -/

/-- The value has a JSON text, and the text can be encoded. -/
def Writable (v : PyVal F) : Prop :=
  ∃ j, lower v = .ok j ∧ (encode (render j)).isSome = true

theorem writable_str {s : PyStr} : Writable (.str s : PyVal F) ↔ (encode s).isSome = true := by
  constructor
  · rintro ⟨j, hj, hencodes⟩
    obtain rfl := Except.ok.inj hj
    exact (quote_encodes s).mp hencodes
  · intro h
    exact ⟨.str s, rfl, (quote_encodes s).mpr h⟩

theorem intText_ascii (n : ℤ) : ∀ c ∈ intText n, c < 128 := by
  have hdigits : ∀ m, ∀ c ∈ decimal m, c < 128 := by
    intro m c hc
    have hdigit := decimal_digits m c hc
    simp only [isDigit, Bool.and_eq_true, decide_eq_true_eq] at hdigit
    omega
  intro c hc
  rw [intText] at hc
  split_ifs at hc
  · rcases List.mem_cons.mp hc with rfl | hc
    · decide
    · exact hdigits _ c hc
  · exact hdigits _ c hc

theorem writable_int (n : ℤ) : Writable (.int n : PyVal F) :=
  ⟨.int n, rfl, encode_ascii (intText_ascii n)⟩

theorem writable_float {x : F} (h : (PyFloat.value x).isFinite = true) :
    Writable (.float x : PyVal F) := by
  refine ⟨.float x, by rw [lower, if_pos h], encode_ascii ?_⟩
  intro c hc
  have hnumeric := scanNumber_numeric (PyFloat.scan_repr x h) c hc
  simp only [isNumeric, isDigit, Bool.or_eq_true, Bool.and_eq_true, decide_eq_true_eq,
    beq_iff_eq] at hnumeric
  omega

theorem writable_bool (b : Bool) : Writable (.bool b : PyVal F) := by
  cases b with
  | true => exact ⟨.bool true, rfl, rfl⟩
  | false => exact ⟨.bool false, rfl, rfl⟩

theorem writable_none : Writable (.none : PyVal F) := ⟨.null, rfl, rfl⟩

theorem renderElems_encodes {elems : List (Json F)} :
    (encode (renderElems elems)).isSome = true ↔
      ∀ x ∈ elems, (encode (render x)).isSome = true := by
  induction elems with
  | nil =>
    rw [renderElems]
    simp [encode_ascii]
  | cons x elems ih =>
    have hrender : renderElems (x :: elems) = [44] ++ render x ++ renderElems elems := by
      rw [renderElems]
      simp
    have hcomma : (encode [44]).isSome = true := rfl
    rw [hrender]
    simp only [encode_append_isSome, ih, List.forall_mem_cons, hcomma, true_and]

theorem render_arr_encodes {elems : List (Json F)} :
    (encode (render (.arr elems))).isSome = true ↔
      ∀ x ∈ elems, (encode (render x)).isSome = true := by
  cases elems with
  | nil =>
    rw [render]
    simp [encode_ascii]
  | cons x elems =>
    have hrender : render (.arr (x :: elems)) = [91] ++ render x ++ renderElems elems := by
      rw [render]
      simp
    have hbracket : (encode [91]).isSome = true := rfl
    rw [hrender]
    simp only [encode_append_isSome, renderElems_encodes, List.forall_mem_cons, hbracket, true_and]

/-- A list can be written when its elements can. -/
theorem writable_list {l : List (PyVal F)} : Writable (.list l) ↔ ∀ v ∈ l, Writable v := by
  constructor
  · rintro ⟨j, hj, hencodes⟩ v hv
    obtain ⟨elems, rfl, helems⟩ := lower_list_inv hj
    obtain ⟨x, hx, hlower⟩ := exists_right helems hv
    exact ⟨x, hlower, render_arr_encodes.mp hencodes x hx⟩
  · intro h
    have helems : ∃ elems, lowerElems l = .ok elems ∧
        ∀ x ∈ elems, (encode (render x)).isSome = true := by
      induction l with
      | nil => exact ⟨[], rfl, by simp⟩
      | cons v l ih =>
        obtain ⟨⟨j, hj, hencodes⟩, hl⟩ := List.forall_mem_cons.mp h
        obtain ⟨elems, helems, hall⟩ := ih hl
        exact ⟨j :: elems, by simp [lowerElems, hj, helems, Except.map],
          List.forall_mem_cons.mpr ⟨hencodes, hall⟩⟩
    obtain ⟨elems, helems, hall⟩ := helems
    exact ⟨.arr elems, by simp [lower, helems, Except.map], render_arr_encodes.mpr hall⟩

theorem writable_texts {l : List PyStr} :
    Writable (.list (l.map fun s => .str s) : PyVal F) ↔ ∀ s ∈ l, (encode s).isSome = true := by
  rw [writable_list]
  simp only [List.forall_mem_map, writable_str]

/-- The members of a written dict can be written. -/
theorem Writable.of_dict {kvs : List (PyKey F × PyVal F)} (h : Writable (.dict kvs)) :
    ∀ p ∈ kvs, Writable p.2 := by
  obtain ⟨j, hj, hencodes⟩ := h
  obtain ⟨sorted, members, hsorted, rfl, hmembers⟩ := lower_dict_inv hj
  intro p hp
  obtain ⟨m, hm, _, hlower, _⟩ := exists_right hmembers ((sortItems_perm hsorted).mem_iff.mpr hp)
  exact ⟨m.2, hlower, (render_obj_encodes.mp hencodes m hm).2⟩

/-- A dict with string keys can be written when its members can. -/
theorem writable_dict {fields : List (PyStr × PyVal F)}
    (h : ∀ p ∈ fields, (encode p.1).isSome = true ∧ Writable p.2) :
    Writable (.dict (fields.map fun p => (.str p.1, p.2))) := by
  have hsorted : sortItems (fields.map fun p => ((.str p.1 : PyKey F), p.2)) =
      .ok ((fields.map fun p => ((.str p.1 : PyKey F), p.2)).insertionSort strLE) := by
    rw [sortItems, if_pos]
    simp [PyKey.isStr]
  have hmembers : ∀ sorted : List (PyKey F × PyVal F),
      (∀ q ∈ sorted, ∃ p ∈ fields, q = (.str p.1, p.2)) →
      ∃ members : List (PyStr × Json F),
        lowerMembers (sorted.map fun q => (q.1, lower q.2)) = .ok members ∧
          ∀ m ∈ members, (encode m.1).isSome = true ∧ (encode (render m.2)).isSome = true := by
    intro sorted
    induction sorted with
    | nil =>
      intro _
      exact ⟨[], rfl, by simp⟩
    | cons q sorted ih =>
      intro hall
      obtain ⟨p, hp, rfl⟩ := hall q List.mem_cons_self
      obtain ⟨hkey, j, hj, hencodes⟩ := h p hp
      obtain ⟨members, hmembers, hencode⟩ := ih fun q hq => hall q (List.mem_cons_of_mem _ hq)
      refine ⟨(p.1, j) :: members, ?_, ?_⟩
      · simp only [List.map_cons, lowerMembers, PyKey.isFinite, if_true, hj, hmembers]
        rfl
      · intro m hm
        rcases List.mem_cons.mp hm with rfl | hm
        · exact ⟨hkey, hencodes⟩
        · exact hencode m hm
  obtain ⟨members, hlower, hencodes⟩ := hmembers _ (by
    intro q hq
    have hmem := (sortItems_perm hsorted).mem_iff.mp hq
    obtain ⟨p, hp, rfl⟩ := List.mem_map.mp hmem
    exact ⟨p, hp, rfl⟩)
  refine ⟨.obj members, ?_, render_obj_encodes.mpr hencodes⟩
  rw [lower, lowerItems_eq, sortItems_map, hsorted]
  simp only [Except.map]
  rw [hlower]

theorem writable_dict_iff (fields : List (PyStr × PyVal F)) :
    Writable (.dict (fields.map fun p => (.str p.1, p.2))) ↔
      ∀ p ∈ fields, (encode p.1).isSome = true ∧ Writable p.2 := by
  constructor
  · rintro ⟨j, hj, hencodes⟩ p hp
    obtain ⟨sorted, members, hsorted, rfl, hmembers⟩ := lower_dict_inv hj
    have hmem : ((.str p.1, p.2) : PyKey F × PyVal F) ∈ sorted :=
      (sortItems_perm hsorted).mem_iff.mpr (List.mem_map.mpr ⟨p, hp, rfl⟩)
    obtain ⟨m, hm, _, hlower, hkey⟩ := exists_right hmembers hmem
    obtain ⟨hname, hvalue⟩ := render_obj_encodes.mp hencodes m hm
    rw [hkey] at hname
    exact ⟨hname, m.2, hlower, hvalue⟩
  · exact writable_dict

/-- A value whose text is written. -/
theorem writable_iff {v : PyVal F} :
    Writable v ↔ ∃ text, dumps v = .ok text ∧ (encode text).isSome = true := by
  unfold Writable dumps
  cases h : lower v with
  | error e => simp [Except.map]
  | ok j => simp [Except.map]

end JsonWritable
