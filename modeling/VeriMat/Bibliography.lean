import VeriMat.CitationKeys
import VeriMat.LatexEscape

/-! # The bibliography

`build_bibliography` of `survey/report.py`, and what its own pattern for an entry, `_BIB_ENTRY`,
finds in what it writes: an entry for each document and no other, whatever the texts of the
documents say. -/
namespace Bibliography

open PyText JsonText PyValue PyDict KeyedRecords SurveyRecords Fallible CitationKeys LatexEscape

/-! ## Writing -/

/-- `_bib_field`. -/
def bibField (name value : PyStr) : PyStr :=
  py "  " ++ name ++ py " = \x7b" ++ latexEscape value ++ py "\x7d,\n"

/-- `if value: text += _bib_field(name, value)`. -/
def givenField (name value : PyStr) : PyStr := if value = [] then [] else bibField name value

/-- `if record.year: text += ..`. -/
def yearField (year : Option ℤ) : PyStr :=
  if year.getD 0 = 0 then [] else py "  year = \x7b" ++ intText (year.getD 0) ++ py "\x7d,\n"

/-- One turn of the loop: `text.rstrip(",\n") + "\n}\n\n"`. -/
def bibEntry (key : PyStr) (d : DocumentRecord) : PyStr :=
  let text := py "@article\x7b" ++ key ++ py ",\n  title = \x7b\x7b" ++ latexEscape d.title ++
    py "\x7d\x7d,\n" ++ givenField (py "journal") d.venue ++ yearField d.year ++
    givenField (py "doi") d.doi ++
    bibField (py "note") (d.database ++ py " doc_id " ++ d.docId)
  text.rdropWhile (fun c => c == 44 || c == 10) ++ py "\n\x7d\n\n"

/-- The lines before the entries. -/
def bibHeader : PyStr := py "% Generated by VeriMat.\n% Every body citation has one entry.\n\n"

/-- The entry of one document. -/
def bibChunk (keys : Dict PyStr PyStr) (p : PyStr × DocumentRecord) : Checked PyStr :=
  match keys.get p.1 with
  | some key => .ok (bibEntry key p.2)
  | none => .error .keyError

/-- `build_bibliography`. -/
def buildBibliography (documents : Dict PyStr DocumentRecord) (keys : Dict PyStr PyStr) :
    Checked PyStr := do
  let chunks ← (inOrder documents).items.mapM (bibChunk keys)
  return bibHeader ++ chunks.flatten

/-! ## Reading -/

section Reading
variable (isWord : ℕ → Bool)

/-- `@\w+\{([^,]+),` at the head of a text: the key, and how much it matches. -/
def entryAt : PyStr → Option (PyStr × ℕ)
  | 64 :: text =>
    match text.dropWhile isWord with
    | 123 :: after =>
      match after.dropWhile (· != 44) with
      | 44 :: _ =>
        let word := text.takeWhile isWord
        let key := after.takeWhile (· != 44)
        if word = [] ∨ key = [] then none else some (key, word.length + key.length + 3)
      | _ => none
    | _ => none
  | _ => none

/-- `_BIB_ENTRY.findall` of what follows `skip` characters, the last match's own, where a line
starts or not. -/
def findEntries : ℕ → Bool → PyStr → List PyStr
  | _, _, [] => []
  | skip + 1, _, _ :: text => findEntries skip false text
  | 0, lineStart, c :: text =>
    match if lineStart then entryAt isWord (c :: text) else none with
    | some (key, length) => key :: findEntries (length - 1) false text
    | none => findEntries 0 (c == 10) text

/-- `_BIB_ENTRY.findall`. -/
def bibEntries (text : PyStr) : List PyStr := findEntries isWord 0 true text

/-! ## Texts without entries -/

/-- No `{` follows an `@` with word characters between them at most. -/
def Guarded : Bool → PyStr → Prop
  | _, [] => True
  | after, c :: text => (after = true → c ≠ 123) ∧ Guarded (c == 64 || after && isWord c) text

/-- Guarded wherever the text stands. -/
def Safe (text : PyStr) : Prop := ∀ after, Guarded isWord after text

end Reading

/-- `\w` where it takes ASCII characters. -/
def WordClass (isWord : ℕ → Bool) : Prop := ∀ c < 128, isWord c = (isAlnum c || c == 95)

variable {isWord : ℕ → Bool} {s t r key : PyStr}

theorem guarded_append {after : Bool} (hs : Guarded isWord after s) (ht : Safe isWord t) :
    Guarded isWord after (s ++ t) := by
  induction s generalizing after with
  | nil => exact ht after
  | cons c s ih => exact ⟨hs.1, ih hs.2⟩

theorem Safe.append (hs : Safe isWord s) (ht : Safe isWord t) : Safe isWord (s ++ t) :=
  fun after => guarded_append (hs after) ht

theorem safe_nil : Safe isWord [] := fun _ => trivial

theorem guarded_of_notMem (h : 64 ∉ s) : Guarded isWord false s := by
  induction s with
  | nil => trivial
  | cons c s ih =>
    obtain ⟨hc, hs⟩ := List.ne_and_not_mem_of_not_mem_cons h
    refine ⟨fun hfalse => absurd hfalse Bool.false_ne_true, ?_⟩
    rw [beq_false_of_ne hc.symm]
    exact ih hs

/-- A text without `@` that starts with no word character, and with no `{`. -/
theorem safe_cons {c : ℕ} (hword : isWord c = false) (hc : c ≠ 123) (h : 64 ∉ c :: s) :
    Safe isWord (c :: s) := by
  intro after
  obtain ⟨hat, hs⟩ := List.ne_and_not_mem_of_not_mem_cons h
  refine ⟨fun _ => hc, ?_⟩
  rw [beq_false_of_ne hat.symm, hword, Bool.and_false, Bool.or_false]
  exact guarded_of_notMem hs

/-- A text without `@` and without `{`. -/
theorem safe_of_notMem (hat : 64 ∉ s) (hbrace : 123 ∉ s) : Safe isWord s := by
  induction s with
  | nil => exact safe_nil
  | cons c s ih =>
    obtain ⟨-, hats⟩ := List.ne_and_not_mem_of_not_mem_cons hat
    obtain ⟨hc, hbraces⟩ := List.ne_and_not_mem_of_not_mem_cons hbrace
    exact fun _ => ⟨fun _ => hc.symm, ih hats hbraces _⟩

theorem WordClass.eq_false (hword : WordClass isWord) {c : ℕ} (hc : c < 128)
    (h : (isAlnum c || c == 95) = false) : isWord c = false :=
  (hword c hc).trans h

/-- A text without `@` that starts with ASCII punctuation other than `{`. -/
def Punctuated : PyStr → Bool
  | [] => true
  | c :: text =>
    c < 128 && !(isAlnum c || c == 95) && c != 123 && !(c :: text).contains 64

theorem safe_of_punctuated (hword : WordClass isWord) (h : Punctuated s = true) :
    Safe isWord s := by
  cases s with
  | nil => exact safe_nil
  | cons c s =>
    simp only [Punctuated, Bool.and_eq_true, decide_eq_true_eq, Bool.not_eq_true', bne_iff_ne,
      ne_eq, List.contains_eq_mem, decide_eq_false_iff_not] at h
    obtain ⟨⟨⟨hascii, hplain⟩, hc⟩, hat⟩ := h
    exact safe_cons (hword.eq_false hascii hplain) hc hat

theorem latexEscapes_backslash : ∀ p ∈ latexEscapes, p.2.head? = some 92 ∧ 64 ∉ p.2 := by decide

theorem safe_escapeChar (hword : WordClass isWord) (c : ℕ) :
    Safe isWord (LatexEscape.escapeChar c) := by
  unfold LatexEscape.escapeChar
  cases h : latexEscapes.lookup c with
  | none =>
    refine fun after => ⟨?_, trivial⟩
    rintro - rfl
    cases h
  | some e =>
    obtain ⟨hhead, hat⟩ := latexEscapes_backslash _ (mem_of_lookup h)
    obtain ⟨tail, htail⟩ := List.head?_eq_some_iff.mp hhead
    rw [Option.getD_some]
    change e = 92 :: tail at htail
    change 64 ∉ e at hat
    subst htail
    exact safe_cons (hword.eq_false (by decide) (by decide)) (by decide) hat

theorem safe_flatMap {f : ℕ → PyStr} (h : ∀ c, Safe isWord (f c)) (s : PyStr) :
    Safe isWord (s.flatMap f) := by
  induction s with
  | nil => exact safe_nil
  | cons c s ih =>
    rw [List.flatMap_cons]
    exact (h c).append ih

/-- Whatever a text says, escaped it starts no entry. -/
theorem safe_latexEscape (hword : WordClass isWord) (text : PyStr) :
    Safe isWord (latexEscape text) :=
  safe_flatMap (safe_escapeChar hword) _

/-! ## Finding -/

theorem dropWhile_guarded (hword : WordClass isWord) (h : Guarded isWord true s) (u : PyStr) :
    (s ++ 10 :: r).dropWhile isWord ≠ 123 :: u := by
  induction s with
  | nil =>
    rw [List.nil_append, List.dropWhile_cons_of_neg]
    · intro hfalse
      cases hfalse
    · rw [hword.eq_false (by decide) (by decide)]
      exact Bool.false_ne_true
  | cons c s ih =>
    rw [List.cons_append]
    by_cases hc : isWord c = true
    · rw [List.dropWhile_cons_of_pos hc]
      have htail := h.2
      rw [hc, Bool.and_true, Bool.or_true] at htail
      exact ih htail
    · rw [List.dropWhile_cons_of_neg hc]
      intro heq
      exact h.1 rfl (List.cons.inj heq).1

theorem entryAt_guarded (hword : WordClass isWord) {c : ℕ} {after : Bool}
    (h : Guarded isWord after (c :: s)) : entryAt isWord (c :: (s ++ 10 :: r)) = none := by
  by_cases hc : c = 64
  · subst hc
    have hnone := dropWhile_guarded (r := r) hword h.2
    rw [entryAt]
    split
    · next u heq => exact absurd heq (hnone u)
    · rfl
  · unfold entryAt
    split
    · next heq => exact absurd (List.cons.inj heq).1 hc
    · rfl

/-- A line that starts no entry is passed over. -/
theorem findEntries_guarded (hword : WordClass isWord) {after lineStart : Bool}
    (h : Guarded isWord after s) :
    findEntries isWord 0 lineStart (s ++ 10 :: r) = findEntries isWord 0 true r := by
  induction s generalizing after lineStart with
  | nil => cases lineStart <;> rfl
  | cons c s ih =>
    have hnone : (if lineStart then entryAt isWord (c :: (s ++ 10 :: r)) else none) = none := by
      split_ifs
      · exact entryAt_guarded hword h
      · rfl
    rw [List.cons_append, findEntries, hnone]
    exact ih h.2

theorem findEntries_skip (s : PyStr) :
    findEntries isWord s.length false (s ++ r) = findEntries isWord 0 false r := by
  induction s with
  | nil => rfl
  | cons c s ih => exact ih

theorem entryAt_entry (hword : WordClass isWord) (hkey : key ≠ []) (hplain : 44 ∉ key) :
    entryAt isWord (py "@article\x7b" ++ key ++ 44 :: r) = some (key, key.length + 10) := by
  have harticle : ∀ c ∈ py "article", isWord c = true := by
    have hascii : ∀ c ∈ py "article", c < 128 ∧ (isAlnum c || c == 95) = true := by decide
    intro c hc
    exact (hword c (hascii c hc).1).trans (hascii c hc).2
  have hbrace : ¬isWord 123 = true := by
    rw [hword.eq_false (by decide) (by decide)]
    exact Bool.false_ne_true
  have hcomma : ∀ c ∈ key, (c != 44) = true := fun c hc =>
    bne_iff_ne.mpr (ne_of_mem_of_not_mem hc hplain)
  have htext : py "@article\x7b" ++ key ++ 44 :: r =
      64 :: (py "article" ++ 123 :: (key ++ 44 :: r)) := by
    rw [List.append_assoc]
    rfl
  have hdrop : (py "article" ++ 123 :: (key ++ 44 :: r)).dropWhile isWord =
      123 :: (key ++ 44 :: r) := by
    rw [List.dropWhile_append_of_pos harticle, List.dropWhile_cons_of_neg hbrace]
  have htake : (py "article" ++ 123 :: (key ++ 44 :: r)).takeWhile isWord = py "article" := by
    rw [List.takeWhile_append_of_pos harticle, List.takeWhile_cons_of_neg hbrace,
      List.append_nil]
  have hdropKey : (key ++ 44 :: r).dropWhile (· != 44) = 44 :: r := by
    rw [List.dropWhile_append_of_pos hcomma, List.dropWhile_cons_of_neg (by decide)]
  have htakeKey : (key ++ 44 :: r).takeWhile (· != 44) = key := by
    rw [List.takeWhile_append_of_pos hcomma, List.takeWhile_cons_of_neg (by decide),
      List.append_nil]
  have hlength : (py "article").length + key.length + 3 = key.length + 10 := by
    rw [show (py "article").length = 7 from rfl]
    omega
  rw [htext]
  simp only [entryAt, hdrop, htake, hdropKey, htakeKey]
  rw [if_neg (not_or.mpr ⟨by decide, hkey⟩), hlength]

theorem findEntries_entry (hword : WordClass isWord) (hkey : key ≠ []) (hplain : 44 ∉ key)
    {body : PyStr} (hbody : Safe isWord body) :
    findEntries isWord 0 true (py "@article\x7b" ++ key ++ 44 :: (body ++ 10 :: r)) =
      key :: findEntries isWord 0 true r := by
  have htext : ∀ tail, py "@article\x7b" ++ key ++ 44 :: tail =
      64 :: ((py "article\x7b" ++ key ++ [44]) ++ tail) := by
    intro tail
    simp only [List.append_assoc, List.singleton_append]
    rfl
  have hlength : key.length + 10 - 1 = (py "article\x7b" ++ key ++ [44]).length := by
    rw [List.length_append, List.length_append, show (py "article\x7b").length = 8 from rfl,
      List.length_singleton]
    omega
  have hentry := entryAt_entry (r := body ++ 10 :: r) hword hkey hplain
  rw [htext] at hentry ⊢
  rw [findEntries, if_pos rfl, hentry]
  change key :: findEntries isWord (key.length + 10 - 1) false _ = _
  rw [hlength, findEntries_skip, findEntries_guarded hword (hbody false)]

/-! ## Entries -/

theorem rdropWhile_field (s : PyStr) :
    (s ++ py "\x7d,\n").rdropWhile (fun c => c == 44 || c == 10) = s ++ py "\x7d" := by
  have hsplit : s ++ py "\x7d,\n" = s ++ py "\x7d" ++ [44] ++ [10] := by
    rw [List.append_assoc, List.append_assoc]
    rfl
  rw [hsplit, List.rdropWhile_concat_pos _ _ _ (by decide),
    List.rdropWhile_concat_pos _ _ _ (by decide)]
  exact List.rdropWhile_concat_neg _ _ _ (by decide)

/-- An entry after its key, less its last line feed. -/
def entryBody (d : DocumentRecord) : PyStr :=
  py "\n  title = \x7b\x7b" ++ (latexEscape d.title ++ (py "\x7d\x7d,\n" ++
    (givenField (py "journal") d.venue ++ (yearField d.year ++
      (givenField (py "doi") d.doi ++ (py "  note = \x7b" ++
        (latexEscape (d.database ++ py " doc_id " ++ d.docId) ++ py "\x7d\n\x7d\n")))))))

theorem bibEntry_eq (d : DocumentRecord) :
    bibEntry key d = py "@article\x7b" ++ key ++ 44 :: (entryBody d ++ [10]) := by
  have hnote : ∀ value, bibField (py "note") value =
      (py "  note = \x7b" ++ latexEscape value) ++ py "\x7d,\n" := fun _ => rfl
  have htitle : ∀ tail, py ",\n  title = \x7b\x7b" ++ tail =
      44 :: (py "\n  title = \x7b\x7b" ++ tail) := fun _ => rfl
  have hend : py "\x7d" ++ py "\n\x7d\n\n" = py "\x7d\n\x7d\n" ++ [10] := rfl
  simp only [bibEntry]
  rw [hnote, ← List.append_assoc _ _ (py "\x7d,\n"), rdropWhile_field]
  simp only [entryBody, List.append_assoc, htitle, hend, List.cons_append]

theorem safe_bibField (hword : WordClass isWord) {name : PyStr} (value : PyStr)
    (hname : Punctuated (py "  " ++ name ++ py " = \x7b") = true) :
    Safe isWord (bibField name value) :=
  ((safe_of_punctuated hword hname).append (safe_latexEscape hword value)).append
    (safe_of_punctuated hword (by decide))

theorem safe_givenField (hword : WordClass isWord) {name : PyStr} (value : PyStr)
    (hname : Punctuated (py "  " ++ name ++ py " = \x7b") = true) :
    Safe isWord (givenField name value) := by
  unfold givenField
  split_ifs
  · exact safe_nil
  · exact safe_bibField hword value hname

theorem safe_yearField (hword : WordClass isWord) (year : Option ℤ) :
    Safe isWord (yearField year) := by
  unfold yearField
  split_ifs
  · exact safe_nil
  · have hnumber : Safe isWord (intText (year.getD 0)) :=
      safe_of_notMem (notMem_intText (by decide) (by decide) _)
        (notMem_intText (by decide) (by decide) _)
    exact ((safe_of_punctuated hword (by decide)).append hnumber).append
      (safe_of_punctuated hword (by decide))

theorem safe_entryBody (hword : WordClass isWord) (d : DocumentRecord) :
    Safe isWord (entryBody d) :=
  (safe_of_punctuated hword (by decide)).append <|
    (safe_latexEscape hword d.title).append <|
    (safe_of_punctuated hword (by decide)).append <|
    (safe_givenField hword d.venue (by decide)).append <|
    (safe_yearField hword d.year).append <|
    (safe_givenField hword d.doi (by decide)).append <|
    (safe_of_punctuated hword (by decide)).append <|
    (safe_latexEscape hword _).append (safe_of_punctuated hword (by decide))

/-- What an entry is for `_BIB_ENTRY`: its key. -/
theorem findEntries_bibEntry (hword : WordClass isWord) (hkey : key ≠ []) (hplain : 44 ∉ key)
    (d : DocumentRecord) :
    findEntries isWord 0 true (bibEntry key d ++ r) = key :: findEntries isWord 0 true r := by
  have htext : bibEntry key d ++ r =
      py "@article\x7b" ++ key ++ 44 :: (entryBody d ++ 10 :: r) := by
    simp only [bibEntry_eq, List.append_assoc, List.cons_append, List.nil_append]
  rw [htext, findEntries_entry hword hkey hplain (safe_entryBody hword d)]

theorem findEntries_header (hword : WordClass isWord) :
    findEntries isWord 0 true (bibHeader ++ r) = findEntries isWord 0 true r := by
  have hsafe : Safe isWord bibHeader.dropLast := safe_of_punctuated hword (by decide)
  have hsplit : bibHeader ++ r = bibHeader.dropLast ++ 10 :: r := by
    rw [show bibHeader = bibHeader.dropLast ++ [10] from rfl, List.append_assoc]
    rfl
  rw [hsplit, findEntries_guarded hword (hsafe false)]

/-- A document with a key BibTeX takes, and its entry. -/
def Written (keys : Dict PyStr PyStr) (p : PyStr × DocumentRecord) (chunk : PyStr) : Prop :=
  ∃ key, keys.get p.1 = some key ∧ key ≠ [] ∧ 44 ∉ key ∧ chunk = bibEntry key p.2

theorem findEntries_chunks (hword : WordClass isWord) {keys : Dict PyStr PyStr}
    {documents : List (PyStr × DocumentRecord)} {chunks : List PyStr}
    (h : List.Forall₂ (Written keys) documents chunks) :
    (findEntries isWord 0 true chunks.flatten).map some =
      documents.map fun p => keys.get p.1 := by
  induction h with
  | nil => rfl
  | cons hp _ ih =>
    obtain ⟨key, hget, hkey, hplain, rfl⟩ := hp
    rw [List.flatten_cons, findEntries_bibEntry hword hkey hplain, List.map_cons, List.map_cons,
      ih, hget]

section Built
variable {F : Type} [PyFloat F] {I : Verification.Interpreter} {titled : PyStr → PyStr}
variable {documents : Dict PyStr DocumentRecord} {keys : Dict PyStr PyStr} {bibliography : PyStr}

theorem bibChunk_written (hhex : HexDigests I) (h : citationKeys F I titled documents = .ok keys)
    {p : PyStr × DocumentRecord} (hp : p ∈ (inOrder documents).items) :
    ∃ chunk, bibChunk keys p = .ok chunk ∧ Written keys p chunk := by
  have hrecord : (inOrder documents).get p.1 = some p.2 := Dict.get_eq_some.mpr hp
  rw [get_inOrder] at hrecord
  obtain ⟨key, hkey⟩ := Option.isSome_iff_exists.mp
    ((citationKeys_isSome h).mpr (Option.isSome_of_eq_some hrecord))
  obtain ⟨hne, hplain⟩ := citationKeys_plain hhex h hkey
  refine ⟨bibEntry key p.2, ?_, key, hkey, hne, hplain, rfl⟩
  rw [bibChunk, hkey]

theorem buildBibliography_entries (hword : WordClass isWord) (hhex : HexDigests I)
    (h : citationKeys F I titled documents = .ok keys) :
    ∃ bibliography, buildBibliography documents keys = .ok bibliography ∧
      (bibEntries isWord bibliography).map some =
        (inOrder documents).items.map fun p => keys.get p.1 := by
  obtain ⟨chunks, hchunks, hwritten⟩ := exists_mapM fun p hp => bibChunk_written hhex h hp
  refine ⟨bibHeader ++ chunks.flatten, bind_returns.mpr ⟨chunks, hchunks, rfl⟩, ?_⟩
  rw [bibEntries, findEntries_header hword, findEntries_chunks hword hwritten]

theorem mem_bibEntries (hword : WordClass isWord) (hhex : HexDigests I)
    (h : citationKeys F I titled documents = .ok keys)
    (hbib : buildBibliography documents keys = .ok bibliography) :
    key ∈ bibEntries isWord bibliography ↔ ∃ d, keys.get d = some key := by
  obtain ⟨_, hbuilt, hentries⟩ := buildBibliography_entries hword hhex h
  obtain rfl := Except.ok.inj (hbib.symm.trans hbuilt)
  have hmem : some key ∈ (bibEntries isWord bibliography).map some ↔
      key ∈ bibEntries isWord bibliography := by
    simp
  rw [← hmem, hentries, List.mem_map]
  constructor
  · rintro ⟨p, -, hkey⟩
    exact ⟨p.1, hkey⟩
  · rintro ⟨d, hkey⟩
    obtain ⟨record, hrecord⟩ := Option.isSome_iff_exists.mp
      ((citationKeys_isSome h).mp (Option.isSome_of_eq_some hkey))
    rw [← get_inOrder] at hrecord
    exact ⟨(d, record), Dict.get_eq_some.mp hrecord, hkey⟩

/-- The bibliography of documents with citation keys has one entry for each document, with its
key, and no other. -/
theorem bibEntries_buildBibliography (hword : WordClass isWord) (hhex : HexDigests I)
    (h : citationKeys F I titled documents = .ok keys) :
    ∃ bibliography, buildBibliography documents keys = .ok bibliography ∧
      (bibEntries isWord bibliography).map some =
        (inOrder documents).items.map (fun p => keys.get p.1) ∧
      (documents.items.length ≤ 10 ^ 8 → (bibEntries isWord bibliography).Nodup) := by
  obtain ⟨bibliography, hbuilt, hentries⟩ := buildBibliography_entries hword hhex h
  refine ⟨bibliography, hbuilt, hentries, ?_⟩
  intro hfew
  refine List.Nodup.of_map some (hentries ▸ ?_)
  refine List.Nodup.map_on (fun p hp q hq hsame => ?_) ((inOrder documents).nodup.of_map _)
  obtain ⟨_, _, key, hkey, _⟩ := bibChunk_written hhex h hp
  have hpq := citationKeys_injective hhex hfew h hkey (hsame ▸ hkey)
  exact List.inj_on_of_nodup_map (inOrder documents).nodup hp hq hpq

end Built

/-! A title that reads like an entry. -/

def asciiWord (c : ℕ) : Bool := isAlnum c || c == 95

theorem asciiWord_class : WordClass asciiWord := fun _ _ => rfl

def entryTitle : Dict PyStr DocumentRecord :=
  empty.set (py "u1") ⟨[], py "u1", py "Oxides\n@article\x7bOther,", some 2019, [], [], 0, sciverse⟩

theorem bibEntries_buildBibliography_entryTitle : ∃ keys bibliography,
    citationKeys NonFinite twinsInterpreter id entryTitle = .ok keys ∧
      buildBibliography entryTitle keys = .ok bibliography ∧
      (bibEntries asciiWord bibliography).map some =
        (inOrder entryTitle).items.map (fun p => keys.get p.1) ∧
      (entryTitle.items.length ≤ 10 ^ 8 → (bibEntries asciiWord bibliography).Nodup) := by
  have hreturns : ∃ keys, citationKeys NonFinite twinsInterpreter id entryTitle = .ok keys :=
    ⟨_, rfl⟩
  obtain ⟨keys, h⟩ := hreturns
  obtain ⟨bibliography, hbib⟩ := bibEntries_buildBibliography asciiWord_class
    twins_hex h
  exact ⟨keys, bibliography, h, hbib⟩

end Bibliography
