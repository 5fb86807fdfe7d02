import VeriMat.Bibliography
import VeriMat.CoverageMatrix

/-! # Checking a report

`verify` of `survey/report.py` goes over a report again before it is written: its relations and gaps
against the passages of the corpus, the citations of its text against its bibliography, and the
bibliography against the documents. -/
namespace ReportAudit

open PyText JsonText PyValue PyDict KeyedRecords ModelTransports SurveyRecords RelationExtraction
open GapNarration CitationKeys LatexEscape Bibliography
open Verification (Interpreter)
open GapCandidates (sortedSet mem_sortedSet)

/-! ## Reading the text -/

/-- `\\cite\{([^}]*)\}` at the head of a text: the group, and how much it matches. -/
def citeAt (text : PyStr) : Option (PyStr × ℕ) :=
  if (py "\\cite\x7b").isPrefixOf text then
    match (text.drop 6).dropWhile (· != 125) with
    | 125 :: _ =>
      let group := (text.drop 6).takeWhile (· != 125)
      some (group, group.length + 7)
    | _ => none
  else none

/-- `_CITE.findall` of what follows `skip` characters. -/
def findCites : ℕ → PyStr → List PyStr
  | _, [] => []
  | skip + 1, _ :: text => findCites skip text
  | 0, c :: text =>
    match citeAt (c :: text) with
    | some (group, length) => group :: findCites (length - 1) text
    | none => findCites 0 text

/-- `{x.strip() for group in _CITE.findall(tex) for x in group.split(",") if x.strip()}`. -/
def citedKeys (tex : PyStr) : List PyStr :=
  ((((findCites 0 tex).flatMap (·.splitOn 44)).map strip).filter (· ≠ [])).dedup

/-- `unsupported_characters`, for several texts. -/
def unsupportedCharacters (texts : List PyStr) : List ℕ :=
  ((texts.flatMap (·.flatMap translateChar)).filter (127 < ·)).dedup.insertionSort (· ≤ ·)

/-- `sorted(xs - ys)`. -/
def sortedDifference (xs ys : List PyStr) : List PyStr :=
  sortedSet (xs.filter (· ∉ ys))

/-! ## The checks -/

inductive Check where
  | relationPassagePresent
  | relationQuoteLiteral
  | relationDocumentPresent
  | gapPassagesPresent
  | gapNoveltyQuoteLiteral
  | citationHasEntry
  | entryIsCited
  | entryHasDocument
  | entryIsFindable
  deriving DecidableEq, Repr

structure Failure where
  check : Check
  detail : PyStr
  deriving DecidableEq, Repr

section Checks
variable {F : Type} (I : Interpreter) (corpus : SurveyCorpus F)

/-- `document_for`. -/
def documentFor (passage : SurveyPassage F) : Option DocumentRecord :=
  corpus.documents.get passage.docId

/-- One turn of the loop over relations. -/
def relationFailures (p : PyStr × ExtractedRelation) : List Failure :=
  match corpus.passages.get p.2.passageId with
  | none => [⟨.relationPassagePresent, p.1 ++ py " cites " ++ p.2.passageId⟩]
  | some passage =>
    if passage.supportsQuote I p.2.quote = false then [⟨.relationQuoteLiteral, p.1⟩]
    else if documentFor corpus passage = none then [⟨.relationDocumentPresent, p.1⟩]
    else []

/-- One turn of the loop over gaps. -/
def gapFailures (p : PyStr × ResearchGap) : List Failure :=
  let cited := p.2.supportingPassages.filterMap corpus.passages.get
  (if cited.length ≠ p.2.supportingPassages.length then [⟨.gapPassagesPresent, p.1⟩] else []) ++
    if p.2.novelty = py "known" ∧ cited.any (·.supportsQuote I p.2.noveltyQuote) = false then
      [⟨.gapNoveltyQuoteLiteral, p.1⟩]
    else []

/-- `{value: key for key, value in keys.items()}`. -/
def reversed (keys : Dict PyStr PyStr) : Dict PyStr PyStr :=
  keys.items.foldl (fun reverse p => reverse.set p.2 p.1) empty

/-- One turn of the loop over entries. -/
def entryFailures (keys : Dict PyStr PyStr) (key : PyStr) : List Failure :=
  match corpus.documents.get (((reversed keys).get key).getD []) with
  | none => [⟨.entryHasDocument, key⟩]
  | some record => if record.isCitable = false then [⟨.entryIsFindable, key⟩] else []

/-- What `verify` returns. -/
structure Audit where
  verified : Bool
  nChecksFailed : ℕ
  failures : List Failure
  nRelationsChecked : ℕ
  nGapsChecked : ℕ
  nCitationsInBody : ℕ
  nBibliographyEntries : ℕ
  citationsMatchBibliography : Bool
  charactersPdflatexCannotSet : List ℕ
  noveltyAudit : NoveltyAudit

variable (isWord : ℕ → Bool)

/-- `verify`. -/
def verify (extraction : ExtractionResult) (gaps : GapResult) (tex bib : PyStr)
    (keys : Dict PyStr PyStr) : Audit :=
  let cited := citedKeys tex
  let entries := (bibEntries isWord bib).dedup
  let failures := (inOrder extraction.relations).items.flatMap (relationFailures I corpus) ++
    (inOrder gaps.gaps).items.flatMap (gapFailures I corpus) ++
    (sortedDifference cited entries).map (⟨.citationHasEntry, ·⟩) ++
    (sortedDifference entries cited).map (⟨.entryIsCited, ·⟩) ++
    (sortedSet entries).flatMap (entryFailures corpus keys)
  { verified := failures.isEmpty
    nChecksFailed := failures.length
    failures
    nRelationsChecked := extraction.relations.items.length
    nGapsChecked := gaps.gaps.items.length
    nCitationsInBody := cited.length
    nBibliographyEntries := entries.length
    citationsMatchBibliography :=
      !failures.any fun x => x.check = .citationHasEntry ∨ x.check = .entryIsCited
    charactersPdflatexCannotSet := unsupportedCharacters [tex, bib]
    noveltyAudit := noveltyAudit I gaps corpus }

end Checks

/-! ## What a verified report says -/

section Sound
variable {F : Type} {I : Interpreter} {corpus : SurveyCorpus F} {isWord : ℕ → Bool}
variable {documents : Dict PyStr DocumentRecord} {keys : Dict PyStr PyStr} {tex bib : PyStr}
variable {extraction : ExtractionResult} {gaps : GapResult}

/-- The relation quotes a passage of the corpus whose document is known. -/
def Grounded (I : Interpreter) (corpus : SurveyCorpus F) (r : ExtractedRelation) : Prop :=
  ∃ passage, corpus.passages.get r.passageId = some passage ∧
    passage.supportsQuote I r.quote = true ∧ (corpus.documents.get passage.docId).isSome

/-- The passages of the gap are in the corpus, and one of them says so if it is called known. -/
def Attested (I : Interpreter) (corpus : SurveyCorpus F) (g : ResearchGap) : Prop :=
  (∀ x ∈ g.supportingPassages, (corpus.passages.get x).isSome) ∧
    (g.novelty = py "known" → ∃ x ∈ g.supportingPassages, ∃ passage,
      corpus.passages.get x = some passage ∧ passage.supportsQuote I g.noveltyQuote = true)

theorem relationFailures_eq_nil {p : PyStr × ExtractedRelation} :
    relationFailures I corpus p = [] ↔ Grounded I corpus p.2 := by
  unfold relationFailures Grounded documentFor
  cases hpassage : corpus.passages.get p.2.passageId with
  | none => simp
  | some passage =>
    cases hquote : passage.supportsQuote I p.2.quote with
    | false => simp [hquote]
    | true =>
      cases hdocument : corpus.documents.get passage.docId with
      | none => simp [hquote, hdocument]
      | some record => simp [hquote, hdocument]

theorem gapFailures_eq_nil {p : PyStr × ResearchGap} :
    gapFailures I corpus p = [] ↔ Attested I corpus p.2 := by
  have hany : (p.2.supportingPassages.filterMap corpus.passages.get).any
      (·.supportsQuote I p.2.noveltyQuote) = true ↔ ∃ x ∈ p.2.supportingPassages, ∃ passage,
        corpus.passages.get x = some passage ∧
          passage.supportsQuote I p.2.noveltyQuote = true := by
    simp only [List.any_eq_true, List.mem_filterMap]
    constructor
    · rintro ⟨passage, ⟨x, hx, hget⟩, hquote⟩
      exact ⟨x, hx, passage, hget, hquote⟩
    · rintro ⟨x, hx, passage, hget, hquote⟩
      exact ⟨passage, ⟨x, hx, hget⟩, hquote⟩
  simp only [gapFailures, Attested, List.append_eq_nil_iff, ← hany, ← List.filterMap_length_eq_length]
  refine and_congr ?_ ?_
  · by_cases h : (p.2.supportingPassages.filterMap corpus.passages.get).length =
      p.2.supportingPassages.length
    · simp [h]
    · simp [h]
  · by_cases h : p.2.novelty = py "known"
    · simp [h]
    · simp [h]

theorem sortedDifference_eq_nil {xs ys : List PyStr} :
    sortedDifference xs ys = [] ↔ ∀ x ∈ xs, x ∈ ys := by
  simp only [sortedDifference, List.eq_nil_iff_forall_not_mem, mem_sortedSet, List.mem_filter,
    decide_eq_true_eq, not_and_not_right]

/-- A key leads back to a document it is the key of. -/
theorem get_reversed {key d : PyStr} (h : keys.get d = some key) :
    ∃ d', (reversed keys).get key = some d' ∧ keys.get d' = some key := by
  have hfold : ∀ (items : List (PyStr × PyStr)) (reverse : Dict PyStr PyStr),
      ((d, key) ∈ items ∨ ∃ d', reverse.get key = some d' ∧ keys.get d' = some key) →
      (∀ p ∈ items, keys.get p.1 = some p.2) →
      ∃ d', (items.foldl (fun reverse p => reverse.set p.2 p.1) reverse).get key = some d' ∧
        keys.get d' = some key := by
    intro items
    induction items with
    | nil =>
      rintro reverse (hmem | hfound) -
      · cases hmem
      · exact hfound
    | cons p items ih =>
      intro reverse hstart hitems
      obtain ⟨hp, hitems⟩ := List.forall_mem_cons.mp hitems
      refine ih (reverse.set p.2 p.1) ?_ hitems
      by_cases hsame : key = p.2
      · exact .inr ⟨p.1, by rw [hsame, Dict.get_set_self], by rw [hsame, hp]⟩
      · rcases hstart with hmem | ⟨d', hd', hkey⟩
        · rcases List.mem_cons.mp hmem with rfl | hmem
          · exact absurd rfl hsame
          · exact .inl hmem
        · exact .inr ⟨d', by rw [Dict.get_set, if_neg hsame, hd'], hkey⟩
  exact hfold keys.items empty (.inl (Dict.get_eq_some.mp h)) fun p hp => Dict.get_eq_some.mpr hp

/-- The keys of the entries lead to documents a reader can look up exactly when the documents are
such. -/
theorem entryFailures_eq_nil (hsub : ∀ d record, documents.get d = some record →
      corpus.documents.get d = some record)
    (hkeyed : ∀ d, (keys.get d).isSome ↔ (documents.get d).isSome)
    (hinjective : ∀ d d' key, keys.get d = some key → keys.get d' = some key → d = d') :
    (∀ d key, keys.get d = some key → entryFailures corpus keys key = []) ↔
      ∀ d record, documents.get d = some record → record.isCitable = true := by
  have hone : ∀ d key record, keys.get d = some key → documents.get d = some record →
      (entryFailures corpus keys key = [] ↔ record.isCitable = true) := by
    intro d key record hkey hrecord
    obtain ⟨d', hd', hkey'⟩ := get_reversed hkey
    obtain rfl := hinjective d' d key hkey' hkey
    rw [entryFailures, hd', Option.getD_some, hsub d' record hrecord]
    simp
  constructor
  · intro h d record hrecord
    obtain ⟨key, hkey⟩ := Option.isSome_iff_exists.mp
      ((hkeyed d).mpr (Option.isSome_of_eq_some hrecord))
    exact (hone d key record hkey hrecord).mp (h d key hkey)
  · intro h d key hkey
    obtain ⟨record, hrecord⟩ := Option.isSome_iff_exists.mp
      ((hkeyed d).mp (Option.isSome_of_eq_some hkey))
    exact (hone d key record hkey hrecord).mpr (h d record hrecord)

theorem forall_inOrder {ν : Type} {d : Dict PyStr ν} {P : ν → Prop} :
    (∀ p ∈ (inOrder d).items, P p.2) ↔ ∀ v ∈ d.values, P v := by
  constructor
  · intro h v hv
    obtain ⟨p, hp, rfl⟩ := List.mem_map.mp ((values_inOrder d).mem_iff.mpr hv)
    exact h p hp
  · intro h p hp
    exact h p.2 ((values_inOrder d).mem_iff.mp (List.mem_map_of_mem hp))

theorem verified_iff_checks :
    (verify I corpus isWord extraction gaps tex bib keys).verified = true ↔
      (∀ r ∈ extraction.relations.values, Grounded I corpus r) ∧
        (∀ g ∈ gaps.gaps.values, Attested I corpus g) ∧
        (∀ key, key ∈ citedKeys tex ↔ key ∈ bibEntries isWord bib) ∧
        ∀ key ∈ bibEntries isWord bib, entryFailures corpus keys key = [] := by
  simp only [verify, List.isEmpty_iff, List.append_eq_nil_iff, List.flatMap_eq_nil_iff,
    List.map_eq_nil_iff, sortedDifference_eq_nil, relationFailures_eq_nil, gapFailures_eq_nil,
    mem_sortedSet, List.mem_dedup, forall_inOrder]
  constructor
  · rintro ⟨⟨⟨⟨hrelations, hgaps⟩, hcited⟩, hentries⟩, hfindable⟩
    exact ⟨hrelations, hgaps, fun key => ⟨hcited key, hentries key⟩, hfindable⟩
  · rintro ⟨hrelations, hgaps, hsame, hfindable⟩
    exact ⟨⟨⟨⟨hrelations, hgaps⟩, fun key => (hsame key).mp⟩, fun key => (hsame key).mpr⟩,
      hfindable⟩

/-- A report with the keys and the bibliography of its documents is verified exactly when its
relations and gaps are grounded in the corpus, its text cites its documents and nothing else, and a
reader can look them up. -/
theorem verify_iff [PyFloat F] {titled : PyStr → PyStr} (hword : WordClass isWord)
    (hhex : HexDigests I) (hfew : documents.items.length ≤ 10 ^ 8)
    (hsub : ∀ d record, documents.get d = some record → corpus.documents.get d = some record)
    (hkeys : citationKeys F I titled documents = .ok keys)
    (hbib : buildBibliography documents keys = .ok bib) :
    (verify I corpus isWord extraction gaps tex bib keys).verified = true ↔
      (∀ r ∈ extraction.relations.values, Grounded I corpus r) ∧
        (∀ g ∈ gaps.gaps.values, Attested I corpus g) ∧
        (∀ key, key ∈ citedKeys tex ↔ ∃ d, keys.get d = some key) ∧
        ∀ d record, documents.get d = some record → record.isCitable = true := by
  have hkeyed : ∀ d, (keys.get d).isSome ↔ (documents.get d).isSome :=
    fun d => citationKeys_isSome hkeys
  have hentries : ∀ key, key ∈ bibEntries isWord bib ↔ ∃ d, keys.get d = some key :=
    fun key => mem_bibEntries hword hhex hkeys hbib
  have hfindable : (∀ key ∈ bibEntries isWord bib, entryFailures corpus keys key = []) ↔
      ∀ d key, keys.get d = some key → entryFailures corpus keys key = [] := by
    constructor
    · exact fun h d key hkey => h key ((hentries key).mpr ⟨d, hkey⟩)
    · intro h key hmem
      obtain ⟨d, hkey⟩ := (hentries key).mp hmem
      exact h d key hkey
  rw [verified_iff_checks, hfindable, entryFailures_eq_nil hsub hkeyed fun d d' key =>
    citationKeys_injective hhex hfew hkeys]
  simp only [hentries]

end Sound

/-! A report on one document, cited with a blank. -/

def soleDocuments : Dict PyStr DocumentRecord :=
  empty.set (py "u1")
    ⟨[], py "u1", py "Oxides", some 2019, [], py "10.1000/oxides", 0, sciverse⟩

def soleKeys : Dict PyStr PyStr := empty.set (py "u1") (py "Oxides201900000000")

def soleCorpus : SurveyCorpus NonFinite :=
  { SurveyCorpus.new ⟨py "t", py "Oxides", [py "oxides"], [], none, none, py "en", []⟩ with
    documents := soleDocuments }

def soleTex : PyStr := py "See \\cite\x7b Oxides201900000000\x7d."

theorem soleDocuments_few : soleDocuments.items.length ≤ 10 ^ 8 := by
  have hlength : soleDocuments.items.length = 1 := by decide
  rw [hlength]
  norm_num

theorem soleKeys_cited (key : PyStr) : key ∈ citedKeys soleTex ↔
    ∃ d, soleKeys.get d = some key := by
  rw [show citedKeys soleTex = [py "Oxides201900000000"] by decide, List.mem_singleton]
  constructor
  · rintro rfl
    exact ⟨py "u1", Dict.get_set_self _ _ _⟩
  · rintro ⟨d, hd⟩
    rw [soleKeys, Dict.get_set] at hd
    split_ifs at hd
    · exact (Option.some.inj hd).symm
    · cases hd

theorem soleDocuments_citable (d : PyStr) (record : DocumentRecord)
    (h : soleDocuments.get d = some record) : record.isCitable = true := by
  rw [soleDocuments, Dict.get_set] at h
  split_ifs at h
  · rw [← Option.some.inj h]
    decide
  · cases h

theorem verify_iff_sole : ∃ bib,
    citationKeys NonFinite twinsInterpreter id soleDocuments = .ok soleKeys ∧
      buildBibliography soleDocuments soleKeys = .ok bib ∧
      (verify twinsInterpreter soleCorpus asciiWord .new .new soleTex bib soleKeys).verified =
        true := by
  have hkeys : citationKeys NonFinite twinsInterpreter id soleDocuments = .ok soleKeys := rfl
  obtain ⟨bib, hbib, -⟩ := buildBibliography_entries asciiWord_class twins_hex hkeys
  refine ⟨bib, hkeys, hbib, ?_⟩
  exact (verify_iff asciiWord_class twins_hex soleDocuments_few (fun _ _ h => h) hkeys hbib).mpr
    ⟨List.forall_mem_nil _, List.forall_mem_nil _, soleKeys_cited, soleDocuments_citable⟩

end ReportAudit
