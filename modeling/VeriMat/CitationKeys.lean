import VeriMat.Fallible
import VeriMat.JsonRoundTrip
import VeriMat.KeyedRecords
import VeriMat.SurveyRecords

/-! # Citation keys

`citation_keys` of `survey/report.py`: documents are given the keys of `bib_key`, and a number where
a key has been given before. Different documents have different keys, as long as fewer than a
hundred million share one. -/
namespace CitationKeys

open PyText JsonText PyValue PyDict KeyedRecords SurveyRecords Fallible
open Verification (Interpreter)

/-! ## Keys -/

/-- `[A-Za-z0-9]`. -/
def isAlnum (c : ℕ) : Bool := (48 ≤ c && c ≤ 57) || (65 ≤ c && c ≤ 90) || (97 ≤ c && c ≤ 122)

section Keys
variable (F : Type) [PyFloat F] (I : Interpreter) (titled : PyStr → PyStr)

/-- `re.sub(r"[^A-Za-z0-9]+", "", (self.title or "").title())[:24] or "Ref"`. -/
def stemOf (title : PyStr) : PyStr :=
  let stem := ((titled title).filter isAlnum).take 24
  if stem = [] then py "Ref" else stem

/-- `bib_key`. -/
def bibKey (d : DocumentRecord) : Checked PyStr := do
  let digest ← digestId (F := F) I [] [.str d.docId, .str d.uniqueId]
  return stemOf titled d.title ++ intText (d.year.getD 0) ++ (digest.drop 1).take 8

/-- `base if count == 0 else f"{base}x{count}"`. -/
def keyText (base : PyStr) (count : ℕ) : PyStr :=
  if count = 0 then base else base ++ 120 :: decimal count

/-- The variables of the loop. -/
structure Assigned where
  result : Dict PyStr PyStr
  seen : Dict PyStr ℕ

/-- One turn of the loop. -/
def assign (a : Assigned) (p : PyStr × DocumentRecord) : Checked Assigned := do
  let base ← bibKey F I titled p.2
  let count := (a.seen.get base).getD 0
  return ⟨a.result.set p.1 (keyText base count), a.seen.set base (count + 1)⟩

/-- `citation_keys`. -/
def citationKeys (documents : Dict PyStr DocumentRecord) : Checked (Dict PyStr PyStr) := do
  let a ← (inOrder documents).items.foldlM (assign F I titled) ⟨empty, empty⟩
  return a.result

end Keys

/-! ## What a key says -/

/-- A text without commas, a digit and eight hexadecimal digits. -/
def IsBase (base : PyStr) : Prop :=
  ∃ front digit tail, base = front ++ digit :: tail ∧ 44 ∉ front ∧ isDigit digit = true ∧
    tail.length = 8 ∧ ∀ c ∈ tail, isLowerHex c = true

variable {F : Type} [PyFloat F] {I : Interpreter} {titled : PyStr → PyStr}
variable {base base' : PyStr} {count count' : ℕ}

theorem decimal_length_le (h : count < 10 ^ 8) : (decimal count).length ≤ 8 := by
  unfold decimal
  by_cases hzero : count = 0
  · rw [if_pos hzero]
    decide
  · rw [if_neg hzero, List.length_map, List.length_reverse]
    exact (Nat.digits_length_le_iff (by norm_num) count).mpr h

theorem IsBase.comma_notMem (h : IsBase base) : 44 ∉ base := by
  obtain ⟨front, digit, tail, rfl, hfront, hdigit, -, htail⟩ := h
  refine List.not_mem_append hfront (List.not_mem_cons_of_ne_of_not_mem ?_ ?_)
  · rintro rfl
    cases hdigit
  · intro hmem
    cases htail 44 hmem

theorem IsBase.ne_nil (h : IsBase base) : base ≠ [] := by
  obtain ⟨front, digit, tail, rfl, -⟩ := h
  exact List.append_ne_nil_of_right_ne_nil _ (List.cons_ne_nil _ _)

/-- A key is a text BibTeX takes for a key. -/
theorem keyText_plain (h : IsBase base) : keyText base count ≠ [] ∧ 44 ∉ keyText base count := by
  unfold keyText
  split_ifs
  · exact ⟨h.ne_nil, h.comma_notMem⟩
  · refine ⟨List.append_ne_nil_of_left_ne_nil h.ne_nil _, List.not_mem_append h.comma_notMem ?_⟩
    refine List.not_mem_cons_of_ne_of_not_mem (by decide) fun hmem => ?_
    cases decimal_digits count 44 hmem

theorem x_notMem_decimal : 120 ∉ decimal count := by
  intro hmem
  cases decimal_digits count 120 hmem

theorem decimal_injective (h : decimal count = decimal count') : count = count' := by
  rw [← decimal_value count, h, decimal_value]

/-- The `x` of a number stands where a base has a digit. -/
theorem IsBase.ne_numbered (h : IsBase base) (hcount : count < 10 ^ 8) :
    base ≠ base' ++ 120 :: decimal count := by
  rintro rfl
  obtain ⟨front, digit, tail, hbase, -, hdigit, hlength, htail⟩ := h
  have hsuffix : 120 :: decimal count <:+ digit :: tail := by
    refine List.suffix_of_suffix_length_le (List.suffix_append base' _)
      (hbase ▸ List.suffix_append front _) ?_
    have hshort := decimal_length_le hcount
    rw [List.length_cons, List.length_cons, hlength]
    omega
  rcases List.mem_cons.mp (hsuffix.subset List.mem_cons_self) with rfl | hmem
  · cases hdigit
  · cases htail 120 hmem

theorem numbered_injective (h : base ++ 120 :: decimal count = base' ++ 120 :: decimal count') :
    base = base' ∧ count = count' := by
  have hcases : ∀ {c c' : ℕ} {b b' : PyStr}, b ++ 120 :: decimal c = b' ++ 120 :: decimal c' →
      (decimal c).length ≤ (decimal c').length → 120 :: decimal c = 120 :: decimal c' := by
    intro c c' b b' heq hle
    have hsuffix : 120 :: decimal c <:+ 120 :: decimal c' := by
      refine List.suffix_of_suffix_length_le (List.suffix_append b _)
        (heq ▸ List.suffix_append b' _) ?_
      simpa using hle
    rcases List.suffix_cons_iff.mp hsuffix with hsame | hinner
    · exact hsame
    · exact absurd (hinner.subset List.mem_cons_self) x_notMem_decimal
  have htail : 120 :: decimal count = 120 :: decimal count' := by
    rcases le_total (decimal count).length (decimal count').length with hle | hle
    · exact hcases h hle
    · exact (hcases h.symm hle).symm
  refine ⟨?_, decimal_injective (List.cons.inj htail).2⟩
  rw [htail] at h
  exact List.append_cancel_right h

/-- A key says which base it has, and the how many-th with it it is. -/
theorem keyText_injective (hbase : IsBase base) (hbase' : IsBase base') (hcount : count < 10 ^ 8)
    (hcount' : count' < 10 ^ 8) (h : keyText base count = keyText base' count') :
    base = base' ∧ count = count' := by
  unfold keyText at h
  by_cases hzero : count = 0
  · by_cases hzero' : count' = 0
    · rw [if_pos hzero, if_pos hzero'] at h
      exact ⟨h, hzero.trans hzero'.symm⟩
    · rw [if_pos hzero, if_neg hzero'] at h
      exact absurd h (hbase.ne_numbered hcount')
  · by_cases hzero' : count' = 0
    · rw [if_neg hzero, if_pos hzero'] at h
      exact absurd h.symm (hbase'.ne_numbered hcount)
    · rw [if_neg hzero, if_neg hzero'] at h
      exact numbered_injective h

/-! ## The loop -/

/-- SHA-256 digests are written as 64 hexadecimal digits. -/
def HexDigests (I : Interpreter) : Prop := ∀ bytes, Events.isHash (I.sha256 bytes) = true

theorem notMem_intText {c : ℕ} (hdigit : isDigit c = false) (hminus : c ≠ 45) (n : ℤ) :
    c ∉ intText n := by
  have hdecimal : c ∉ decimal n.natAbs := by
    intro hmem
    rw [decimal_digits _ c hmem] at hdigit
    cases hdigit
  unfold intText
  split_ifs
  · exact List.not_mem_cons_of_ne_of_not_mem hminus hdecimal
  · exact hdecimal

theorem comma_notMem_stemOf (title : PyStr) : 44 ∉ stemOf titled title := by
  intro hmem
  simp only [stemOf] at hmem
  split_ifs at hmem
  · revert hmem
    decide
  · cases (List.mem_filter.mp (List.mem_of_mem_take hmem)).2

theorem intText_split (n : ℤ) : ∃ front digit, intText n = front ++ [digit] ∧
    isDigit digit = true := by
  have hdecimal := List.dropLast_append_getLast (decimal_ne_nil n.natAbs)
  have hdigit := decimal_digits n.natAbs _ (List.getLast_mem (decimal_ne_nil n.natAbs))
  unfold intText
  split_ifs
  · exact ⟨45 :: (decimal n.natAbs).dropLast, _, by rw [List.cons_append, hdecimal], hdigit⟩
  · exact ⟨(decimal n.natAbs).dropLast, _, hdecimal.symm, hdigit⟩

theorem digest_hex (hhex : HexDigests I) {value : PyVal F} {digest : PyStr}
    (h : jsonDigest I value = .ok digest) : Events.isHash digest = true := by
  unfold jsonDigest textDigest at h
  split at h
  · cases h
  · split at h
    · cases h
    · cases h
      exact hhex _

theorem bibKey_isBase (hhex : HexDigests I) {d : DocumentRecord}
    (h : bibKey F I titled d = .ok base) : IsBase base := by
  obtain ⟨identifier, hidentifier, h⟩ := bind_returns.mp h
  cases h
  obtain ⟨front, digit, hyear, hdigit⟩ := intText_split (d.year.getD 0)
  have htail : ((identifier.drop 1).take 8).length = 8 ∧
      ∀ c ∈ (identifier.drop 1).take 8, isLowerHex c = true := by
    unfold digestId at hidentifier
    cases hdigest : jsonDigest I (.list [.str d.docId, .str d.uniqueId] : PyVal F) with
    | error e =>
      rw [hdigest] at hidentifier
      cases hidentifier
    | ok digest =>
      rw [hdigest] at hidentifier
      cases hidentifier
      have hhash := digest_hex hhex hdigest
      simp only [Events.isHash, Bool.and_eq_true, beq_iff_eq, List.all_eq_true] at hhash
      have htake : (([] ++ py "-" ++ digest.take 16).drop 1).take 8 = digest.take 8 := by
        change (digest.take 16).take 8 = digest.take 8
        rw [List.take_take]
        rfl
      rw [htake, List.length_take, hhash.1]
      exact ⟨rfl, fun c hc => hhash.2 c (List.mem_of_mem_take hc)⟩
  have hfront : 44 ∉ front := fun hmem =>
    notMem_intText (by decide) (by decide) (d.year.getD 0) (hyear ▸ List.mem_append_left _ hmem)
  refine ⟨stemOf titled d.title ++ front, digit, (identifier.drop 1).take 8, ?_, ?_, hdigit,
    htail⟩
  · rw [hyear]
    simp
  · exact List.not_mem_append (comma_notMem_stemOf d.title) hfront

/-- The documents that have keys, with their bases and how many had the base before. -/
structure Assigns (entries : List (PyStr × PyStr × ℕ)) (a : Assigned) : Prop where
  keys : ∀ d key, a.result.get d = some key → ∃ e ∈ entries, e.1 = d ∧ key = keyText e.2.1 e.2.2
  bases : ∀ e ∈ entries, IsBase e.2.1
  counted : ∀ e ∈ entries, ∃ n, a.seen.get e.2.1 = some n ∧ e.2.2 < n
  bounded : ∀ base n, a.seen.get base = some n → n ≤ entries.length
  distinct : (entries.map Prod.snd).Nodup

theorem assigns_empty : Assigns [] ⟨empty, empty⟩ where
  keys := by
    intro d key h
    cases h
  bases := List.forall_mem_nil _
  counted := List.forall_mem_nil _
  bounded := by
    intro base n h
    cases h
  distinct := List.nodup_nil

theorem Assigns.assign (hhex : HexDigests I) {entries : List (PyStr × PyStr × ℕ)}
    {a a' : Assigned} (ha : Assigns entries a) {p : PyStr × DocumentRecord}
    (h : assign F I titled a p = .ok a') : ∃ e, Assigns (e :: entries) a' := by
  obtain ⟨base, hbase, h⟩ := bind_returns.mp h
  cases h
  have hnew : ∀ e ∈ entries, e.2.1 = base → e.2.2 < (a.seen.get base).getD 0 := by
    rintro e he rfl
    obtain ⟨n, hn, hless⟩ := ha.counted e he
    rwa [hn, Option.getD_some]
  refine ⟨(p.1, base, (a.seen.get base).getD 0), ?_, ?_, ?_, ?_, ?_⟩
  · intro d key hkey
    rw [Dict.get_set] at hkey
    split_ifs at hkey with hd
    · cases hkey
      exact ⟨_, List.mem_cons_self, hd.symm, rfl⟩
    · obtain ⟨e, he, hsame⟩ := ha.keys d key hkey
      exact ⟨e, List.mem_cons_of_mem _ he, hsame⟩
  · exact List.forall_mem_cons.mpr ⟨bibKey_isBase hhex hbase, ha.bases⟩
  · refine List.forall_mem_cons.mpr ⟨⟨_, Dict.get_set_self _ _ _, Nat.lt_succ_self _⟩, ?_⟩
    intro e he
    by_cases hsame : e.2.1 = base
    · refine ⟨(a.seen.get base).getD 0 + 1, ?_, (hnew e he hsame).trans (Nat.lt_succ_self _)⟩
      rw [hsame, Dict.get_set_self]
    · obtain ⟨n, hn, hless⟩ := ha.counted e he
      exact ⟨n, by rw [Dict.get_set, if_neg hsame, hn], hless⟩
  · intro other n hn
    rw [Dict.get_set] at hn
    rw [List.length_cons]
    split_ifs at hn with hother
    · cases hn
      cases hseen : a.seen.get base with
      | none => simp
      | some m =>
        have hle := ha.bounded base m hseen
        rw [Option.getD_some]
        omega
    · exact (ha.bounded other n hn).trans (Nat.le_succ _)
  · refine List.nodup_cons.mpr ⟨?_, ha.distinct⟩
    intro hmem
    obtain ⟨e, he, hsame⟩ := List.mem_map.mp hmem
    have hless := hnew e he (congrArg Prod.fst hsame)
    rw [show e.2.2 = (a.seen.get base).getD 0 from congrArg Prod.snd hsame] at hless
    exact lt_irrefl _ hless

theorem Assigns.run (hhex : HexDigests I) {documents : List (PyStr × DocumentRecord)}
    {entries : List (PyStr × PyStr × ℕ)} {a a' : Assigned} (ha : Assigns entries a)
    (h : documents.foldlM (CitationKeys.assign F I titled) a = .ok a') :
    ∃ entries', Assigns entries' a' ∧ entries'.length = entries.length + documents.length := by
  induction documents generalizing entries a with
  | nil =>
    cases h
    exact ⟨entries, ha, rfl⟩
  | cons p documents ih =>
    rw [List.foldlM_cons] at h
    obtain ⟨next, hnext, h⟩ := bind_returns.mp h
    obtain ⟨e, he⟩ := ha.assign hhex hnext
    obtain ⟨entries', hentries', hlength⟩ := ih he h
    refine ⟨entries', hentries', ?_⟩
    rw [hlength, List.length_cons, List.length_cons]
    omega

/-- A turn gives a key to one document more. -/
theorem assign_isSome {a a' : Assigned} {p : PyStr × DocumentRecord}
    (h : assign F I titled a p = .ok a') (d : PyStr) :
    (a'.result.get d).isSome ↔ d = p.1 ∨ (a.result.get d).isSome := by
  obtain ⟨base, -, h⟩ := bind_returns.mp h
  cases h
  rw [Dict.get_set]
  by_cases hd : d = p.1
  · simp [hd]
  · simp [hd]

theorem run_isSome {documents : List (PyStr × DocumentRecord)} {a a' : Assigned}
    (h : documents.foldlM (assign F I titled) a = .ok a') (d : PyStr) :
    (a'.result.get d).isSome ↔ d ∈ documents.map Prod.fst ∨ (a.result.get d).isSome := by
  induction documents generalizing a with
  | nil =>
    cases h
    simp
  | cons p documents ih =>
    rw [List.foldlM_cons] at h
    obtain ⟨next, hnext, h⟩ := bind_returns.mp h
    rw [ih h, assign_isSome hnext, List.map_cons, List.mem_cons]
    tauto

section Returned
variable {documents : Dict PyStr DocumentRecord} {keys : Dict PyStr PyStr} {d d' key : PyStr}

theorem citationKeys_isSome (h : citationKeys F I titled documents = .ok keys) :
    (keys.get d).isSome ↔ (documents.get d).isSome := by
  obtain ⟨a, ha, h⟩ := bind_returns.mp h
  cases h
  rw [run_isSome ha, ← get_inOrder documents d]
  simp only [get_empty, Option.isSome_none, Bool.false_eq_true, or_false]
  rw [Option.isSome_iff_exists, List.mem_map]
  constructor
  · rintro ⟨p, hp, rfl⟩
    exact ⟨p.2, Dict.get_eq_some.mpr hp⟩
  · rintro ⟨record, hrecord⟩
    exact ⟨(d, record), Dict.get_eq_some.mp hrecord, rfl⟩

theorem citationKeys_plain (hhex : HexDigests I) (h : citationKeys F I titled documents = .ok keys)
    (hkey : keys.get d = some key) : key ≠ [] ∧ 44 ∉ key := by
  obtain ⟨a, ha, h⟩ := bind_returns.mp h
  cases h
  obtain ⟨entries, hentries, -⟩ := assigns_empty.run hhex ha
  obtain ⟨e, he, -, rfl⟩ := hentries.keys d key hkey
  exact keyText_plain (hentries.bases e he)

theorem citationKeys_injective (hhex : HexDigests I) (hfew : documents.items.length ≤ 10 ^ 8)
    (h : citationKeys F I titled documents = .ok keys) (hkey : keys.get d = some key)
    (hkey' : keys.get d' = some key) : d = d' := by
  obtain ⟨a, ha, h⟩ := bind_returns.mp h
  cases h
  obtain ⟨entries, hentries, hlength⟩ := assigns_empty.run hhex ha
  have hcount : ∀ e ∈ entries, e.2.2 < 10 ^ 8 := by
    intro e he
    obtain ⟨n, hn, hless⟩ := hentries.counted e he
    have hbound := hentries.bounded _ n hn
    rw [hlength, (items_inOrder documents).length_eq, List.length_nil] at hbound
    omega
  obtain ⟨e, he, rfl, rfl⟩ := hentries.keys d key hkey
  obtain ⟨e', he', rfl, hsame⟩ := hentries.keys d' _ hkey'
  obtain ⟨hbase, hnumber⟩ := keyText_injective (hentries.bases e he) (hentries.bases e' he')
    (hcount e he) (hcount e' he') hsame
  rw [List.inj_on_of_nodup_map hentries.distinct he he' (Prod.ext hbase hnumber)]

end Returned

/-- Every document has a key, no two have the same, and the order of the documents makes no
difference. -/
theorem citationKeys_distinct (hhex : HexDigests I) {documents : Dict PyStr DocumentRecord}
    {keys : Dict PyStr PyStr} (hfew : documents.items.length ≤ 10 ^ 8)
    (h : citationKeys F I titled documents = .ok keys) :
    (∀ d, (keys.get d).isSome ↔ (documents.get d).isSome) ∧
      (∀ d d' key, keys.get d = some key → keys.get d' = some key → d = d') ∧
      ∀ documents', documents'.items.Perm documents.items →
        citationKeys F I titled documents' = .ok keys := by
  refine ⟨fun d => citationKeys_isSome h, fun d d' key => citationKeys_injective hhex hfew h, ?_⟩
  intro documents' hperm
  rw [citationKeys, inOrder_perm hperm]
  exact h

/-! Two documents with one base. -/

def twinsInterpreter : Interpreter :=
  ⟨⟨fun _ => true, []⟩, fun c => [c], fun _ => .replicate 64 48⟩

def twins : Dict PyStr DocumentRecord :=
  (empty.set (py "u1") ⟨[], py "u1", py "Oxides", some 2019, [], [], 0, sciverse⟩).set (py "u2")
    ⟨[], py "u2", py "Oxides", some 2019, [], [], 0, sciverse⟩

theorem twins_hex : HexDigests twinsInterpreter := by
  have hzeros : Events.isHash (.replicate 64 48) = true := by decide
  intro bytes
  exact hzeros

theorem twins_few : twins.items.length ≤ 10 ^ 8 := by
  have hlength : twins.items.length = 2 := by decide
  rw [hlength]
  norm_num

theorem citationKeys_distinct_twins : ∃ keys,
    citationKeys NonFinite twinsInterpreter id twins = .ok keys ∧
      keys.get (py "u2") = some (py "Oxides201900000000x1") ∧
      (∀ d, (keys.get d).isSome ↔ (twins.get d).isSome) ∧
      (∀ d d' key, keys.get d = some key → keys.get d' = some key → d = d') ∧
      ∀ documents', documents'.items.Perm twins.items →
        citationKeys NonFinite twinsInterpreter id documents' = .ok keys := by
  have hreturns : ∃ keys, citationKeys NonFinite twinsInterpreter id twins = .ok keys ∧
      keys.get (py "u2") = some (py "Oxides201900000000x1") := by
    exact ⟨_, rfl, by decide⟩
  obtain ⟨keys, h, hkey⟩ := hreturns
  exact ⟨keys, h, hkey, citationKeys_distinct twins_hex twins_few h⟩

end CitationKeys
