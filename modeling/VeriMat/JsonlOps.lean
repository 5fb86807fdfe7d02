import VeriMat.JsonQuotes
import VeriMat.ModelTransports
import VeriMat.RetrievalSnapshot

/-! # Rows on lines

`tools/jsonl_ops.py`. Rows are written with their characters raw, one on a line, and read by
`str.splitlines`, pieces that are no JSON being skipped with a note. -/
namespace JsonlOps

open PyText JsonText PyValue PyDisplay
open ModelTransports (strip)
open RetrievalCache (isLineEnd splitlines IsSeparator Unbroken isLineEnd_false)

variable {F : Type} [PyFloat F]

inductive JsonlError where
  | unicodeEncodeError
  | typeError
  deriving DecidableEq

/-! ## Reading and writing -/

/-- The character at the front, with the number of its bytes behind the first. -/
def frontChar (bytes : PyBytes) : Option (ℕ × ℕ) :=
  [0, 1, 2, 3].findSome? fun more =>
    match decode (bytes.take (more + 1)) with
    | some [c] => some (c, more)
    | _ => none

/-- Decoding from behind the bytes to skip; a byte no character begins with is dropped. -/
def decodeFrom : ℕ → PyBytes → PyStr
  | _, [] => []
  | skip + 1, _ :: bytes => decodeFrom skip bytes
  | 0, a :: bytes =>
    match frontChar (a :: bytes) with
    | some (c, more) => c :: decodeFrom more bytes
    | none => decodeFrom 0 bytes

/-- `bytes.decode("utf-8", errors="ignore")`. -/
def decodeIgnoring (bytes : PyBytes) : PyStr := decodeFrom 0 bytes

/-- One turn of the loop of `read_jsonl`. -/
def readRow (line : PyStr) : Option (Json F) :=
  if strip line = [] then none else loads (strip line)

def readJsonl (file : PyBytes) : List (Json F) :=
  (splitlines (translateNewlines (decodeIgnoring file))).filterMap readRow

/-- `"\n".join(...) + "\n"`. -/
def writtenText (rows : List (Json F)) : PyStr :=
  List.intercalate [10] (rows.map renderSpaced) ++ [10]

/-- `write_jsonl` to a path. -/
def writeJsonl (rows : List (Json F)) : Except JsonlError PyBytes :=
  match encode (writtenText rows) with
  | some file => .ok file
  | none => .error .unicodeEncodeError

/-! ## Fields -/

/-- The loop of `_get`; `None` is the answer for what is missing as for what is null. -/
def getParts : Json F → List PyStr → Json F
  | cur, [] => cur
  | .obj kvs, part :: parts =>
    match kvs.lookup part with
    | some v => getParts v parts
    | none => .null
  | _, _ :: _ => .null

/-- `dotted.split(".")`. -/
def partsOf (dotted : PyStr) : List PyStr := dotted.splitOn 46

/-- `_get`. -/
def get (row : Json F) (dotted : PyStr) : Json F := getParts row (partsOf dotted)

/-! ## Commands -/

def cmdMerge (files : List PyBytes) : Except JsonlError PyBytes :=
  writeJsonl (files.flatMap (readJsonl (F := F)))

/-- The reader hands out one object for every NaN it meets, which a set finds again. -/
def isNan : Json F → Bool
  | .float x => match PyFloat.value x with
    | .nan => true
    | _ => false
  | _ => false

/-- `k in seen`, for one element of the set. -/
def sameKeyValue (u k : Json F) : Bool := pyEq (ofJson u) (ofJson k) || isNan u && isNan k

/-- One turn of the loop of `cmd_dedup`: the keys seen and the rows kept. -/
def dedupStep (key : PyStr) (state : List (Json F) × List (Json F)) (row : Json F) :
    Except JsonlError (List (Json F) × List (Json F)) :=
  match get row key with
  | .null => .ok (state.1, state.2 ++ [row])
  | k =>
    if canHash (ofJson k) = false then .error .typeError
    else if state.1.any (sameKeyValue · k) then .ok state
    else .ok (state.1 ++ [k], state.2 ++ [row])

def cmdDedup (key : PyStr) (file : PyBytes) : Except JsonlError PyBytes := do
  let state ← (readJsonl (F := F) file).foldlM (dedupStep key) ([], [])
  writeJsonl state.2

/-- `str(_get(r, field.strip())) == val.strip()`, the condition cut at its first equals sign. -/
def matchesWhere (D : Display) (condition : PyStr) (row : Json F) : Bool :=
  let field := condition.takeWhile (· ≠ 61)
  let val := (condition.dropWhile (· ≠ 61)).drop 1
  strOf D (ofJson (get row (strip field))) == strip val

def cmdFilter (D : Display) (condition : PyStr) (file : PyBytes) : Except JsonlError PyBytes :=
  writeJsonl ((readJsonl (F := F) file).filter (matchesWhere D condition))

/-! ## Rows -/

/-- A JSON object: its numbers are finite and no name occurs twice in it or below. -/
structure Row (F : Type) [PyFloat F] where
  members : List (PyStr × Json F)
  finite : (Json.obj members).Finite
  names : (Json.obj members).dedup = .obj members

def Row.json (row : Row F) : Json F := .obj row.members

/-- No character of a text of the row is one UTF-8 refuses or a line end that JSON leaves raw. -/
def Plain (row : Row F) : Prop := ∀ c ∈ chars row.json, IsScalar c ∧ ¬IsSeparator c

theorem Plain.unbroken {row : Row F} (h : Plain row) : Unbroken row.json := fun c hc => (h c hc).2

/-! ## The file -/

theorem decodeFrom_skip (l bytes : PyBytes) :
    decodeFrom l.length (l ++ bytes) = decodeFrom 0 bytes := by
  induction l with
  | nil => rfl
  | cons a l ih => exact ih

theorem frontChar_encodeChar {c : ℕ} {b : PyBytes} (h : encodeChar c = some b)
    (rest : PyBytes) : frontChar (b ++ rest) = some (c, b.length - 1) := by
  have hwhole : decode b = some [c] := by
    simpa [decode] using decode_encodeChar h []
  have hshort : ∀ n, 0 < n → n < b.length → decode ((b ++ rest).take n) = none := by
    intro n hpos hlt
    rw [List.take_append_of_le_length hlt.le]
    exact decode_truncatedChar h hpos hlt
  have hfull : decode ((b ++ rest).take b.length) = some [c] := by
    rw [List.take_left', hwhole]
    rfl
  have hlength : 0 < b.length ∧ b.length ≤ 4 := by
    refine ⟨encodeChar_length_pos h, ?_⟩
    unfold encodeChar at h
    split_ifs at h <;> cases h <;> simp
  obtain hone | htwo | hthree | hfour :
      b.length = 1 ∨ b.length = 2 ∨ b.length = 3 ∨ b.length = 4 := by omega
  · rw [hone] at hfull ⊢
    simp [frontChar, List.findSome?, hfull]
  · rw [htwo] at hfull ⊢
    simp [frontChar, List.findSome?, hfull, hshort 1 (by omega) (by omega)]
  · rw [hthree] at hfull ⊢
    simp [frontChar, List.findSome?, hfull, hshort 1 (by omega) (by omega),
      hshort 2 (by omega) (by omega)]
  · rw [hfour] at hfull ⊢
    simp [frontChar, List.findSome?, hfull, hshort 1 (by omega) (by omega),
      hshort 2 (by omega) (by omega), hshort 3 (by omega) (by omega)]

/-- What was encoded is decoded, nothing being ignored. -/
theorem decodeIgnoring_encode {s : PyStr} {bytes : PyBytes} (h : encode s = some bytes) :
    decodeIgnoring bytes = s := by
  induction s generalizing bytes with
  | nil =>
    cases h
    rfl
  | cons c s ih =>
    obtain ⟨b, r, hb, hr, rfl⟩ := encode_cons_eq_some.mp h
    have hfront := frontChar_encodeChar hb r
    cases b with
    | nil => exact absurd (encodeChar_length_pos hb) (by simp)
    | cons a b =>
      rw [List.cons_append] at hfront
      rw [decodeIgnoring, List.cons_append, decodeFrom, hfront]
      simp only [List.length_cons, Nat.add_sub_cancel, decodeFrom_skip]
      rw [← ih hr]
      rfl

theorem writtenText_nil : writtenText ([] : List (Json F)) = [10] := rfl

theorem writtenText_single (row : Json F) : writtenText [row] = renderSpaced row ++ [10] := by
  simp [writtenText, List.intercalate]

theorem writtenText_cons (row row' : Json F) (rows : List (Json F)) :
    writtenText (row :: row' :: rows) = renderSpaced row ++ 10 :: writtenText (row' :: rows) := by
  simp [writtenText, List.intercalate]

theorem mem_writtenText {rows : List (Json F)} {c : ℕ} :
    c ∈ writtenText rows ↔ c = 10 ∨ ∃ row ∈ rows, c ∈ renderSpaced row := by
  cases rows with
  | nil => simp [writtenText_nil]
  | cons row rows =>
    induction rows generalizing row with
    | nil => simp [writtenText_single, or_comm]
    | cons row' rows ih =>
      rw [writtenText_cons, List.mem_append, List.mem_cons, ih row']
      simp only [List.mem_cons, exists_eq_or_imp]
      tauto

/-! ## Lines of the file -/

section Lines

variable {row : Row F}

theorem written_json (row : Row F) {c : ℕ} (hc : c ∈ renderSpaced row.json) :
    Written (chars row.json) c :=
  written_renderSpaced row.json row.finite c hc

/-- Only what is no ASCII ends a line within a row. -/
theorem large_of_isLineEnd {c : ℕ} (hc : c ∈ renderSpaced row.json) (hend : isLineEnd c = true) :
    IsSeparator c ∧ 128 ≤ c := by
  have hprintable := (written_json row hc).1
  have hsep : IsSeparator c := by
    by_contra hsep
    rw [isLineEnd_false hprintable hsep] at hend
    cases hend
  refine ⟨hsep, ?_⟩
  rcases hsep with rfl | rfl | rfl <;> decide

theorem mem_of_isSeparator {c : ℕ} (hc : IsSeparator c) :
    c ∈ renderSpaced row.json ↔ c ∈ chars row.json := by
  have hlarge : 128 ≤ c := by
    rcases hc with rfl | rfl | rfl <;> decide
  constructor
  · intro hmem
    exact (written_json row hmem).2.resolve_left (by omega)
  · exact mem_renderSpaced hlarge _

/-- A text without line feeds is cut at its own line ends and at the one behind it. -/
theorem splitlines_pieces {s : PyStr} (hs : ∀ c ∈ s, 32 ≤ c) (r : PyStr) :
    splitlines (s ++ 10 :: r) = s.splitOnP isLineEnd ++ splitlines r := by
  induction s with
  | nil =>
    rw [List.nil_append, splitlines, if_pos (by rfl)]
    · rfl
    · rintro cs ⟨⟩
  | cons c s ih =>
    obtain ⟨hc, hs⟩ := List.forall_mem_cons.mp hs
    have hreturn : ∀ cs, c = 13 → s ++ 10 :: r = 10 :: cs → False := by
      rintro cs rfl
      omega
    rw [List.cons_append, splitlines, ih hs, List.splitOnP_cons_eq_if_modifyHead]
    · by_cases hend : isLineEnd c = true
      · rw [if_pos hend, if_pos hend, List.cons_append]
      · rw [if_neg hend, if_neg hend]
        cases hpieces : s.splitOnP isLineEnd with
        | nil => exact absurd hpieces (List.splitOnP_ne_nil _ s)
        | cons first rest => rfl
    · exact fun cs hthirteen hten => hreturn cs hthirteen hten

/-- What the reader makes of the lines of a row. -/
def readOf (row : Row F) : List (Json F) :=
  ((renderSpaced row.json).splitOnP isLineEnd).filterMap readRow

/-- Every row is read by itself. -/
theorem readJsonl_written {rows : List (Row F)} {file : PyBytes}
    (h : writeJsonl (rows.map Row.json) = .ok file) : readJsonl file = rows.flatMap readOf := by
  have hencode : encode (writtenText (rows.map Row.json)) = some file := by
    rw [writeJsonl] at h
    split at h
    · next hsome =>
      rw [hsome, Except.ok.inj h]
    · cases h
  clear h
  have hprintable : ∀ row : Row F, ∀ c ∈ renderSpaced row.json, 32 ≤ c := fun row c hc =>
    (written_json row hc).1
  have hreturn : 13 ∉ writtenText (rows.map Row.json) := by
    rw [mem_writtenText]
    rintro (hc | ⟨j, hj, hc⟩)
    · cases hc
    · obtain ⟨row, -, rfl⟩ := List.mem_map.mp hj
      exact absurd (hprintable row 13 hc) (by decide)
  rw [readJsonl, decodeIgnoring_encode hencode, translateNewlines_of_noReturn hreturn]
  clear hencode hreturn
  have hblank : readRow (F := F) [] = none := rfl
  cases rows with
  | nil => rfl
  | cons row rows =>
    induction rows generalizing row with
    | nil =>
      rw [List.map_singleton, writtenText_single, splitlines_pieces (hprintable row),
        List.flatMap_cons]
      simp [splitlines, readOf]
    | cons row' rows ih =>
      have hrest := ih row'
      rw [List.map_cons] at hrest
      rw [List.map_cons, List.map_cons, writtenText_cons, splitlines_pieces (hprintable row),
        List.filterMap_append, hrest, List.flatMap_cons]
      rfl

/-- Stripping takes white space off both ends. -/
theorem strip_split (s : PyStr) :
    ∃ a b : PyStr, s = a ++ strip s ++ b ∧ ∀ c ∈ a ++ b, isSpace c = true := by
  have hall : ∀ l : PyStr, ∀ c ∈ l.takeWhile isSpace, isSpace c = true := fun l c hc =>
    List.all_eq_true.mp List.all_takeWhile c hc
  have hright : strip s ++ ((s.dropWhile isSpace).reverse.takeWhile isSpace).reverse =
      s.dropWhile isSpace := by
    rw [strip, ← List.reverse_append, List.takeWhile_append_dropWhile, List.reverse_reverse]
  refine ⟨s.takeWhile isSpace, ((s.dropWhile isSpace).reverse.takeWhile isSpace).reverse, ?_, ?_⟩
  · rw [List.append_assoc, hright, List.takeWhile_append_dropWhile]
  · intro c hc
    rcases List.mem_append.mp hc with hc | hc
    · exact hall _ c hc
    · exact hall _ c (List.mem_reverse.mp hc)

/-- A piece that is read ends outside of its strings, and its texts stand in it or an escape
does. -/
theorem run_of_readRow {piece : PyStr} {v : Json F} (h : readRow piece = some v) :
    Phase.run anyChar .outside piece = some .outside ∧
      (92 ∉ piece → ∀ c ∈ chars v, c ∈ piece) := by
  rw [readRow] at h
  split_ifs at h
  obtain ⟨hrun, hchars⟩ := run_of_loads h
  obtain ⟨a, b, hsplit, hspace⟩ := strip_split piece
  have hunquoted : ∀ t : PyStr, (∀ c ∈ t, c ∈ a ++ b) →
      Phase.run anyChar .outside t = some .outside := by
    intro t ht
    refine Phase.run_unquoted_outside (fun c hc => ?_) fun _ _ => rfl
    have hc := hspace c (ht c hc)
    constructor <;> (rintro rfl; cases hc)
  rw [hsplit]
  constructor
  · rw [List.append_assoc, Phase.run_append_of (hunquoted a fun c hc => List.mem_append_left _ hc),
      Phase.run_append_of hrun, hunquoted b fun c hc => List.mem_append_right _ hc]
  · intro hback c hc
    have hinner : 92 ∉ strip piece := fun hmem =>
      hback (List.mem_append_left _ (List.mem_append_right _ hmem))
    exact List.mem_append_left _ (List.mem_append_right _ (hchars hinner c hc))

/-- What is read of a row with a separator has none: the row is lost. -/
theorem unbroken_of_readOf (hbroken : ¬Unbroken row.json) {v : Json F} (hv : v ∈ readOf row) :
    Unbroken v := by
  obtain ⟨piece, hpiece, hread⟩ := List.mem_filterMap.mp hv
  obtain ⟨hrun, hchars⟩ := run_of_readRow hread
  have hsep : ∃ c ∈ renderSpaced row.json, isLineEnd c = true := by
    unfold RetrievalCache.Unbroken at hbroken
    push Not at hbroken
    obtain ⟨c, hc, hsep⟩ := hbroken
    exact ⟨c, (mem_of_isSeparator hsep).mpr hc, hsep.isLineEnd⟩
  have hback : 92 ∉ piece :=
    backslash_notMem (fun c hc hend => (large_of_isLineEnd hc hend).2) hsep
      (run_renderSpaced row.json row.finite) hpiece hrun
  intro c hc hline
  have hnone := cut_notMem hpiece c (hchars hback c hc)
  rw [hline.isLineEnd] at hnone
  cases hnone

/-- A row without separators is one line, and read back. -/
theorem readOf_unbroken (h : Unbroken row.json) : readOf row = [row.json] := by
  have hline : ∀ c ∈ renderSpaced row.json, isLineEnd c = false := by
    intro c hc
    by_contra hend
    obtain ⟨hsep, -⟩ := large_of_isLineEnd hc (by simpa using hend)
    exact h c ((mem_of_isSeparator hsep).mp hc) hsep
  have hloads : loads (renderSpaced row.json) = some row.json := by
    rw [loads, Row.json, parse_renderSpaced row.finite, Option.map_some, row.names]
  have hstrip : strip (renderSpaced row.json) = renderSpaced row.json := by
    obtain ⟨w, hw⟩ := renderSpaced_braces row.members
    rw [Row.json, hw, strip, List.dropWhile_cons_of_neg (by decide), ← List.cons_append,
      List.reverse_append, List.reverse_singleton, List.singleton_append,
      List.dropWhile_cons_of_neg (by decide), List.reverse_cons, List.reverse_reverse]
  have hread : readRow (renderSpaced row.json) = some row.json := by
    obtain ⟨w, hw⟩ := renderSpaced_braces row.members
    rw [readRow, hstrip, hloads, if_neg]
    rw [Row.json, hw]
    exact List.cons_ne_nil _ _
  rw [readOf, List.splitOnP_eq_singleton hline]
  simp [hread]

/-- The file can be written when UTF-8 takes every text. -/
theorem writeJsonl_isOk {rows : List (Row F)} :
    (∃ file, writeJsonl (rows.map Row.json) = .ok file) ↔
      ∀ row ∈ rows, ∀ c ∈ chars row.json, IsScalar c := by
  have hencode : (∃ file, writeJsonl (rows.map Row.json) = .ok file) ↔
      (encode (writtenText (rows.map Row.json))).isSome = true := by
    unfold writeJsonl
    cases encode (writtenText (rows.map Row.json)) <;> simp
  rw [hencode, encode_isSome_iff]
  constructor
  · intro h row hrow c hc
    by_cases hlarge : 128 ≤ c
    · refine h c (mem_writtenText.mpr (.inr ⟨row.json, List.mem_map_of_mem hrow, ?_⟩))
      exact mem_renderSpaced hlarge _ hc
    · exact JsonWritable.encodeChar_ascii (by omega)
  · intro h c hc
    rcases mem_writtenText.mp hc with rfl | ⟨j, hj, hc⟩
    · rfl
    · obtain ⟨row, hrow, rfl⟩ := List.mem_map.mp hj
      rcases (written_json row hc).2 with hascii | hmem
      · exact JsonWritable.encodeChar_ascii hascii
      · exact h row hrow c hmem

end Lines

/-- The rows are written, and read back. -/
def RoundTrips (rows : List (Row F)) : Prop :=
  ∃ file, writeJsonl (rows.map Row.json) = .ok file ∧ readJsonl file = rows.map Row.json

/-- Plain rows come back, and a row that is not plain does not. -/
theorem roundTrips_iff_plain (rows : List (Row F)) : RoundTrips rows ↔ ∀ row ∈ rows, Plain row := by
  constructor
  · rintro ⟨file, hwrite, hread⟩ row hrow c hc
    refine ⟨writeJsonl_isOk.mp ⟨file, hwrite⟩ row hrow c hc, ?_⟩
    -- the row is among what is read, so it was read from the lines of some row
    have hmem : row.json ∈ rows.flatMap readOf := by
      rw [← readJsonl_written hwrite, hread]
      exact List.mem_map_of_mem hrow
    obtain ⟨source, -, hsource⟩ := List.mem_flatMap.mp hmem
    by_cases hunbroken : Unbroken source.json
    · rw [readOf_unbroken hunbroken, List.mem_singleton] at hsource
      rw [← hsource] at hunbroken
      exact hunbroken c hc
    · exact unbroken_of_readOf hunbroken hsource c hc
  · intro hplain
    obtain ⟨file, hwrite⟩ := writeJsonl_isOk.mpr fun row hrow c hc => (hplain row hrow c hc).1
    refine ⟨file, hwrite, ?_⟩
    rw [readJsonl_written hwrite, List.map_eq_flatMap]
    exact List.flatMap_congr fun row hrow => readOf_unbroken (hplain row hrow).unbroken

end JsonlOps
