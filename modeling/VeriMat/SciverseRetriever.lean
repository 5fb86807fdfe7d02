import VeriMat.CorpusBuild
import VeriMat.PyDate

/-! # The cutoff of benchmark retrieval

`SciverseBenchmarkRetriever.search` (`evaluation/literature_retriever.py`) with the checks of
`RetrievalResult` (`evaluation/baseline_runner.py`), over a transport that may reply anything. A
hit is read again only when a date can be made of it that is not after the cutoff. -/
namespace SciverseRetriever

open PyText JsonText PyValue PyDisplay Events Transaction ModelTransports Verification PyDate
open DecisionGraph (Payload getItem)
open CorpusBuild (NumberError truncate)

variable {F W E : Type}

/-! ## Data -/

/-- What escapes `search`; `E` is what the transport and `reserve_call` raise. -/
inductive RetrieverError (E : Type) where
  | outside (e : E)
  | number (e : NumberError)
  | cutoffDate
  | typeError
  | attributeError
  | unicodeEncodeError
  | emptyIdentityOrText
  | locatorNotExact
  | locatorInvalid
  | contentHashMismatch
  | duplicatePassageId
  | usage

structure Usage where
  calls : ℤ
  tokens : ℤ

structure RetrievedPassage (F : Type) where
  passageId : PyStr
  queryId : PyStr
  docId : PyStr
  text : PyStr
  locator : Payload F
  contentSha256 : PyStr
  publicationDate : PyStr

structure RetrievalResult (F : Type) where
  passages : List (RetrievedPassage F)
  usage : Usage

/-- A request of the transport, by its operation. -/
structure SearchCall (F : Type) where
  operationId : PyStr
  query : PyStr
  topK : ℕ
  filters : PyVal F

structure ContentCall where
  operationId : PyStr
  docId : PyStr
  offset : ℤ
  limit : ℤ

/-- The calls a search makes, in their order. -/
inductive Event where
  | reserved (operation : PyStr)
  | requested (operationId : PyStr)
  deriving DecidableEq, Repr

structure SciverseBenchmarkRetriever (F W E : Type) where
  interpreter : Interpreter
  float : PyStr → Option F
  fromisoformat : PyStr → Option Date
  search : SearchCall F → W → Except E (PyVal F) × W
  content : ContentCall → W → Except E (PyVal F) × W
  topK : ℕ
  contentLimit : ℤ
  topK_valid : 1 ≤ topK ∧ topK ≤ 20
  limit_valid : 256 ≤ contentLimit ∧ contentLimit ≤ 16384

/-- The arguments of `search`. -/
structure Query (W E : Type) where
  queryId : PyStr
  query : PyStr
  cutoffDate : PyStr
  operationId : PyStr
  reserveCall : PyStr → W → Except E Unit × W

structure Retrieval (W : Type) where
  world : W
  trace : List Event

abbrev RetrievalRun (W E α : Type) := EStateM (RetrieverError E) (Retrieval W) α

/-! ## Calls -/

/-- A call of something outside, which leaves its mark whatever it does. -/
def call {α : Type} (event : Event) (f : W → Except E α × W) : RetrievalRun W E α := do
  let s : Retrieval W ← get
  set (⟨(f s.world).2, s.trace ++ [event]⟩ : Retrieval W)
  match (f s.world).1 with
  | .ok a => pure a
  | .error e => throw (.outside e)

/-- `semantic_filters(lang="en", year_to=cutoff.year, domain="Physical Sciences")`. -/
def filters (yearTo : ℕ) : PyVal F :=
  .dict [(.str (py "lang"), .str (py "en")),
    (.str (py "publication_published_year"), .dict [(.str (py "lte"), .int yearTo)]),
    (.str (py "topics"), .dict [(.str (py "logic"), .str (py "and")),
      (.str (py "dimensions"),
        .dict [(.str (py "primary_topic_domain"), .str (py "Physical Sciences"))])])]

section Functions
variable [PyFloat F] (R : SciverseBenchmarkRetriever F W E)

/-! ## Dates -/

/-- The number a candidate is, with texts read as floats; `none` is passed over. -/
def numberOf : Option (PyVal F) → Except NumberError (Option ℤ)
  | some (.int n) => .ok (some n)
  | some (.float x) => (truncate x).map some
  | some (.str text) =>
    match R.float (strip text) with
    | some x => (truncate x).map some
    | none => .ok none
  | _ => .ok none

/-- `_year_of`. -/
def yearOf : List (Option (PyVal F)) → Except NumberError (Option ℕ)
  | [] => .ok none
  | value :: candidates =>
    match numberOf R value with
    | .error e => .error e
    | .ok (some year) =>
      if 1000 ≤ year ∧ year ≤ 9999 then .ok (some year.toNat) else yearOf candidates
    | .ok none => yearOf candidates

/-- The first of the date fields that says something. -/
def statedDate (hit : Payload F) : Option (PyVal F) :=
  ([py "publication_date", py "publication_published_date", py "published_at"].filterMap
    fun key => (getItem hit key).filter truthy).head?

/-- `_publication_date`. -/
def publicationDate (hit : Payload F) : Except NumberError (Option Date) :=
  match statedDate hit with
  | some value => .ok (R.fromisoformat ((strOf R.interpreter.display value).take 10))
  | none =>
    match yearOf R [getItem hit (py "publication_published_year"), getItem hit (py "year")] with
    | .error e => .error e
    | .ok none => .ok none
    | .ok (some year) =>
      .ok (if h : 1 ≤ year ∧ year ≤ 9999 then some (yearEnd year h) else none)

/-! ## Passages -/

/-- `hashlib.sha256(text.encode()).hexdigest()`. -/
def sha256 (text : PyStr) : Except (RetrieverError E) PyStr :=
  match encode text with
  | none => .error .unicodeEncodeError
  | some bytes => .ok (R.interpreter.sha256 bytes)

/-- `RetrievedPassage.validate`. -/
def RetrievedPassage.validate (p : RetrievedPassage F) : Except (RetrieverError E) Unit :=
  if isBlank p.passageId ∨ isBlank p.queryId ∨ isBlank p.docId ∨ isBlank p.text then
    .error .emptyIdentityOrText
  else
    match p.locator with
    | [(key, position)] =>
      if sameKey (.str (py "offset")) key ∨ sameKey (.str (py "page_no")) key then
        match position with
        | .int n =>
          if n < 0 then .error .locatorInvalid
          else
            match sha256 R p.text with
            | .error e => .error e
            | .ok actual =>
              if p.contentSha256 = actual then .ok () else .error .contentHashMismatch
        | _ => .error .locatorInvalid
      else .error .locatorNotExact
    | _ => .error .locatorNotExact

/-- The loop of `RetrievalResult.validate`, with the identifiers seen so far. -/
def validatePassages : List PyStr → List (RetrievedPassage F) → Except (RetrieverError E) Unit
  | _, [] => .ok ()
  | identifiers, p :: passages =>
    match p.validate R with
    | .error e => .error e
    | .ok () =>
      if p.passageId ∈ identifiers then .error .duplicatePassageId
      else validatePassages (p.passageId :: identifiers) passages

/-- `RetrievalResult.validate`. -/
def RetrievalResult.validate (r : RetrievalResult F) : Except (RetrieverError E) Unit :=
  if r.usage.calls < 0 ∨ r.usage.tokens < 0 then .error .usage
  else validatePassages R [] r.passages

/-! ## `search` -/

/-- A result of a pure part. -/
def lift {α : Type} (x : Except (RetrieverError E) α) : RetrievalRun W E α :=
  match x with
  | .ok a => pure a
  | .error e => throw e

/-- The locals of the loop over the hits. -/
structure Progress (F : Type) where
  passages : List (RetrievedPassage F)
  seen : List (PyStr × ℤ)
  calls : ℤ

/-- The document, the offset and the date of a hit that is read again. -/
def admitted (cutoff : Date) (seen : List (PyStr × ℤ)) (hit : Payload F) :
    Except (RetrieverError E) (Option (PyStr × ℤ × Date)) :=
  let docId := strip (strOf R.interpreter.display (orDefault (getItem hit (py "doc_id")) (.str [])))
  match publicationDate R hit with
  | .error e => .error (.number e)
  | .ok published =>
    match getItem hit (py "offset"), published with
    | some (.int offset), some published =>
      if docId = [] ∨ offset < 0 ∨ cutoff < published ∨ (docId, offset) ∈ seen then .ok none
      else .ok (some (docId, offset, published))
    | _, _ => .ok none

/-- The passage made of a content reply, unless it is empty. -/
def passageOf (q : Query W E) (docId : PyStr) (offset : ℤ) (published : Date)
    (content : PyVal F) : Except (RetrieverError E) (Option (RetrievedPassage F)) :=
  match content with
  | .dict kvs =>
    let text := strip (strOf R.interpreter.display (orDefault (getItem kvs (py "text")) (.str [])))
    if text = [] then .ok none
    else
      match sha256 R text with
      | .error e => .error e
      | .ok digest =>
        match sha256 R (q.queryId ++ py "|" ++ docId ++ py "|" ++ intText offset ++ py "|" ++
            digest) with
        | .error e => .error e
        | .ok identity =>
          .ok (some ⟨py "obs-" ++ identity.take 32, q.queryId, docId, text,
            [(.str (py "offset"), .int offset)], digest, isoformat published⟩)
  | _ => .error .attributeError

/-- The name of the operation that reads a hit again. -/
def suboperation (index : ℕ) (digest : PyStr) : PyStr :=
  py "content:" ++ intText index ++ py ":" ++ digest.take 16

/-- A hit is read again. -/
def readAgain (q : Query W E) (index : ℕ) (docId : PyStr) (offset : ℤ) (published : Date)
    (p : Progress F) : RetrievalRun W E (Progress F) := do
  let digest ← lift (sha256 R docId)
  call (.reserved (suboperation index digest)) (q.reserveCall (suboperation index digest))
  let operationId := q.operationId ++ py ":" ++ suboperation index digest
  let content ← call (.requested operationId)
    (R.content ⟨operationId, docId, offset, R.contentLimit⟩)
  let passage ← lift (passageOf R q docId offset published content)
  pure ⟨p.passages ++ passage.toList, (docId, offset) :: p.seen, p.calls + 1⟩

/-- The body of `for index, hit in enumerate(hits)`. -/
def considerHit (q : Query W E) (cutoff : Date) (index : ℕ) (hit : PyVal F) (p : Progress F) :
    RetrievalRun W E (Progress F) :=
  match hit with
  | .dict kvs => do
    match ← lift (admitted R cutoff p.seen kvs) with
    | none => pure p
    | some (docId, offset, published) => readAgain R q index docId offset published p
  | _ => pure p

def considerHits (q : Query W E) (cutoff : Date) :
    ℕ → List (PyVal F) → Progress F → RetrievalRun W E (Progress F)
  | _, [], p => pure p
  | index, hit :: hits, p => do
    let p ← considerHit R q cutoff index hit p
    considerHits q cutoff (index + 1) hits p

/-- `hits[:self.top_k]`: a text has no dicts in it. -/
def firstHits (topK : ℕ) : PyVal F → Except (RetrieverError E) (List (PyVal F))
  | .list hits | .tuple hits => .ok (hits.take topK)
  | .str _ => .ok []
  | _ => .error .typeError

/-- `search`. -/
def search (q : Query W E) : RetrievalRun W E (RetrievalResult F) :=
  match R.fromisoformat q.cutoffDate with
  | none => throw .cutoffDate
  | some cutoff => do
    call (.reserved (py "search")) (q.reserveCall (py "search"))
    let operationId := q.operationId ++ py ":search"
    let reply ← call (.requested operationId)
      (R.search ⟨operationId, q.query, R.topK, filters cutoff.year⟩)
    let hits ← lift (firstHits R.topK reply)
    let p ← considerHits R q cutoff 0 hits ⟨[], [], 1⟩
    let result : RetrievalResult F := ⟨p.passages, ⟨p.calls, 0⟩⟩
    lift (result.validate R)
    pure result

end Functions

/-! ## What a search keeps -/

section Safety
variable {R : SciverseBenchmarkRetriever F W E} {q : Query W E} {cutoff : Date}

theorem call_eq_ok {α : Type} {event : Event} {f : W → Except E α × W} {s s' : Retrieval W}
    {a : α} : (call event f : RetrievalRun W E α) s = .ok a s' ↔
      (f s.world).1 = .ok a ∧ s' = ⟨(f s.world).2, s.trace ++ [event]⟩ := by
  unfold call
  rw [bind_eq_ok]
  simp only [get_apply, EStateM.Result.ok.injEq]
  constructor
  · rintro ⟨_, _, ⟨rfl, rfl⟩, h⟩
    obtain ⟨_, s₁, hset, h⟩ := bind_eq_ok.mp h
    rw [set_eq_ok] at hset
    subst hset
    cases hreply : (f s.world).1 with
    | ok b =>
      rw [hreply] at h
      obtain ⟨rfl, rfl⟩ := pure_eq_ok.mp h
      exact ⟨rfl, rfl⟩
    | error e =>
      rw [hreply] at h
      cases h
  · rintro ⟨hreply, rfl⟩
    refine ⟨s, s, ⟨rfl, rfl⟩, bind_eq_ok.mpr ⟨⟨⟩, _, set_eq_ok.mpr rfl, ?_⟩⟩
    rw [hreply]
    rfl

theorem lift_eq_ok {α : Type} {x : Except (RetrieverError E) α} {s s' : Retrieval W} {a : α} :
    (lift x : RetrievalRun W E α) s = .ok a s' ↔ x = .ok a ∧ s' = s := by
  unfold lift
  cases x with
  | ok b => simp [eq_comm]
  | error e => simp

/-- The marks of operations that are reserved and then requested, one after the other. -/
def marks (q : Query W E) (operations : List PyStr) : List Event :=
  operations.flatMap fun o => [.reserved o, .requested (q.operationId ++ py ":" ++ o)]

/-- The passage says a date, and none after the cutoff. -/
def Dated (cutoff : Date) (p : RetrievedPassage F) : Prop :=
  (∃ d, p.publicationDate = isoformat d) ∧ ∀ d, p.publicationDate = isoformat d → d ≤ cutoff

theorem dated_of_eq {p : RetrievedPassage F} {d : Date} (h : p.publicationDate = isoformat d)
    (hd : d ≤ cutoff) : Dated cutoff p := by
  refine ⟨⟨d, h⟩, fun d' h' => ?_⟩
  rwa [isoformat_injective (h'.symm.trans h)]

/-- The passage has the hash of its text. -/
def Hashed (R : SciverseBenchmarkRetriever F W E) (p : RetrievedPassage F) : Prop :=
  ∃ bytes, encode p.text = some bytes ∧ p.contentSha256 = R.interpreter.sha256 bytes

/-- The passage starts at this offset. -/
def StartsAt (offset : ℤ) (p : RetrievedPassage F) : Prop :=
  0 ≤ offset ∧ p.locator = [(.str (py "offset"), .int offset)]

/-- The loop over the hits, and the marks of its calls. -/
structure Reading (R : SciverseBenchmarkRetriever F W E) (q : Query W E) (cutoff : Date)
    (before : List Event) (p : Progress F) (s : Retrieval W) : Prop where
  dated : ∀ x ∈ p.passages, Dated cutoff x
  hashed : ∀ x ∈ p.passages, Hashed R x
  seen : ∀ x ∈ p.passages, ∃ offset, StartsAt offset x ∧ (x.docId, offset) ∈ p.seen
  distinct : (p.passages.map fun x => (x.docId, x.locator)).Nodup
  reserved : ∃ operations : List PyStr,
    p.calls = operations.length ∧ s.trace = before ++ marks q operations

variable [PyFloat F] {before : List Event} {p : Progress F}

/-- A hit that states a year alone is taken for the last day of it, so that the day it was published
on in that year, whichever it was, is not after the date it gets. -/
theorem publicationDate_conservative {hit : Payload F} {d published : Date}
    (hstated : statedDate hit = none)
    (hyear : yearOf R [getItem hit (py "publication_published_year"), getItem hit (py "year")] =
      .ok (some d.year)) (h : publicationDate R hit = .ok (some published)) : d ≤ published := by
  unfold publicationDate at h
  rw [hstated, hyear] at h
  simp only [d.year_valid, and_self, dif_pos, Except.ok.injEq, Option.some.injEq] at h
  exact h ▸ le_yearEnd d

theorem admitted_eq_some {hit : Payload F} {seen : List (PyStr × ℤ)} {docId : PyStr} {offset : ℤ}
    {published : Date} (h : admitted R cutoff seen hit = .ok (some (docId, offset, published))) :
    0 ≤ offset ∧ published ≤ cutoff ∧ (docId, offset) ∉ seen := by
  unfold admitted at h
  dsimp only at h
  split at h
  · cases h
  · split at h
    · split at h
      · cases h
      · rename_i hadmitted
        cases h
        simp only [not_or, not_lt] at hadmitted
        exact ⟨hadmitted.2.1, hadmitted.2.2.1, hadmitted.2.2.2⟩
    · cases h

theorem passageOf_eq_some {docId : PyStr} {offset : ℤ} {published : Date} {content : PyVal F}
    {x : RetrievedPassage F} (h : passageOf R q docId offset published content = .ok (some x)) :
    x.docId = docId ∧ x.locator = [(.str (py "offset"), .int offset)] ∧
      x.publicationDate = isoformat published ∧ Hashed R x := by
  unfold passageOf at h
  split at h
  · dsimp only at h
    split at h
    · cases h
    · split at h
      · cases h
      · rename_i digest hdigest
        split at h
        · cases h
        · cases h
          refine ⟨rfl, rfl, rfl, ?_⟩
          unfold sha256 at hdigest
          split at hdigest
          · cases hdigest
          · rename_i bytes hbytes
            cases hdigest
            exact ⟨bytes, hbytes, rfl⟩
  · cases h

/-- A hit that is read again adds one passage at most, and its two marks. -/
theorem reading_readAgain {index : ℕ} {docId : PyStr} {offset : ℤ} {published : Date}
    (hoffset : 0 ≤ offset) (hpublished : published ≤ cutoff) (hnew : (docId, offset) ∉ p.seen)
    {s s' : Retrieval W} {p' : Progress F} (hp : Reading R q cutoff before p s)
    (h : readAgain R q index docId offset published p s = .ok p' s') :
    Reading R q cutoff before p' s' := by
  unfold readAgain at h
  obtain ⟨digest, s₁, hdigest, h₁⟩ := bind_eq_ok.mp h
  rw [(lift_eq_ok.mp hdigest).2] at h₁
  obtain ⟨_, s₂, hreserve, h₂⟩ := bind_eq_ok.mp h₁
  rw [(call_eq_ok.mp hreserve).2] at h₂
  obtain ⟨content, s₃, hcontent, h₃⟩ := bind_eq_ok.mp h₂
  rw [(call_eq_ok.mp hcontent).2] at h₃
  obtain ⟨passage, s₄, hlift, h₄⟩ := bind_eq_ok.mp h₃
  obtain ⟨hpassage, hs₄⟩ := lift_eq_ok.mp hlift
  rw [hs₄] at h₄
  obtain ⟨rfl, rfl⟩ := pure_eq_ok.mp h₄
  have hadded : ∀ x ∈ passage.toList, x.docId = docId ∧ StartsAt offset x ∧ Dated cutoff x ∧
      Hashed R x := by
    intro x hx
    rw [Option.mem_toList.mp hx] at hpassage
    obtain ⟨hdoc, hlocator, hdate, hhash⟩ := passageOf_eq_some hpassage
    exact ⟨hdoc, ⟨hoffset, hlocator⟩, dated_of_eq hdate hpublished, hhash⟩
  constructor
  · exact List.forall_mem_append.mpr ⟨hp.dated, fun x hx => (hadded x hx).2.2.1⟩
  · exact List.forall_mem_append.mpr ⟨hp.hashed, fun x hx => (hadded x hx).2.2.2⟩
  · refine List.forall_mem_append.mpr ⟨fun x hx => ?_, fun x hx => ?_⟩
    · obtain ⟨n, hn, hseen⟩ := hp.seen x hx
      exact ⟨n, hn, List.mem_cons_of_mem _ hseen⟩
    · obtain ⟨hdoc, hstarts, -⟩ := hadded x hx
      exact ⟨offset, hstarts, hdoc ▸ List.mem_cons_self⟩
  · rw [List.map_append]
    refine List.Nodup.append hp.distinct ?_ ?_
    · cases passage <;> simp
    · -- A passage of the same place would have been seen.
      intro place hold hadd
      obtain ⟨x, hx, rfl⟩ := List.mem_map.mp hold
      obtain ⟨y, hy, hplace⟩ := List.mem_map.mp hadd
      obtain ⟨hdoc, ⟨-, hlocator⟩, -⟩ := hadded y hy
      obtain ⟨n, ⟨-, hn⟩, hseen⟩ := hp.seen x hx
      rw [hdoc, hlocator, hn] at hplace
      obtain ⟨rfl, hsame⟩ := Prod.mk.inj hplace
      simp only [List.cons.injEq, Prod.mk.injEq, PyVal.int.injEq, and_true, true_and] at hsame
      exact hnew (hsame ▸ hseen)
  · obtain ⟨operations, hcalls, htrace⟩ := hp.reserved
    refine ⟨operations ++ [suboperation index digest], ?_, ?_⟩
    · rw [List.length_append, hcalls]
      rfl
    · simp only [htrace, marks, List.flatMap_append, List.append_assoc]
      rfl

theorem reading_considerHits (index : ℕ) (hits : List (PyVal F)) {s s' : Retrieval W}
    {p p' : Progress F} (hp : Reading R q cutoff before p s)
    (h : considerHits R q cutoff index hits p s = .ok p' s') : Reading R q cutoff before p' s' := by
  induction hits generalizing index p s with
  | nil =>
    obtain ⟨rfl, rfl⟩ := pure_eq_ok.mp h
    exact hp
  | cons hit hits ih =>
    obtain ⟨p₁, s₁, hfirst, hrest⟩ := bind_eq_ok.mp h
    refine ih (index + 1) ?_ hrest
    unfold considerHit at hfirst
    split at hfirst
    · obtain ⟨found, s₂, hlift, hnext⟩ := bind_eq_ok.mp hfirst
      obtain ⟨hadmitted, hs₂⟩ := lift_eq_ok.mp hlift
      rw [hs₂] at hnext
      cases found with
      | none =>
        obtain ⟨rfl, rfl⟩ := pure_eq_ok.mp hnext
        exact hp
      | some place =>
        obtain ⟨docId, offset, published⟩ := place
        obtain ⟨hoffset, hpublished, hnew⟩ := admitted_eq_some hadmitted
        exact reading_readAgain hoffset hpublished hnew hp hnext
    · obtain ⟨rfl, rfl⟩ := pure_eq_ok.mp hfirst
      exact hp

/-- Passages that pass the checks have distinct ids. -/
theorem identified_of_validate {identifiers : List PyStr} {passages : List (RetrievedPassage F)}
    (h : (validatePassages R identifiers passages : Except (RetrieverError E) Unit) = .ok ()) :
    (passages.map (·.passageId)).Nodup ∧ ∀ x ∈ passages, x.passageId ∉ identifiers := by
  induction passages generalizing identifiers with
  | nil => exact ⟨List.nodup_nil, by simp⟩
  | cons x passages ih =>
    unfold validatePassages at h
    split at h
    · cases h
    · split at h
      · cases h
      · rename_i hnew
        obtain ⟨hdistinct, hothers⟩ := ih h
        refine ⟨?_, List.forall_mem_cons.mpr ⟨hnew, fun y hy hseen => ?_⟩⟩
        · rw [List.map_cons, List.nodup_cons]
          refine ⟨fun hmem => ?_, hdistinct⟩
          obtain ⟨y, hy, hid⟩ := List.mem_map.mp hmem
          exact hothers y hy (hid ▸ List.mem_cons_self)
        · exact hothers y hy (List.mem_cons_of_mem _ hseen)

/-- What a search may return, with the marks of its calls. -/
structure Safe (R : SciverseBenchmarkRetriever F W E) (q : Query W E) (cutoff : Date)
    (r : RetrievalResult F) (trace : List Event) : Prop where
  dated : ∀ x ∈ r.passages, Dated cutoff x
  located : ∀ x ∈ r.passages, ∃ offset, StartsAt offset x
  distinct : (r.passages.map fun x => (x.docId, x.locator)).Nodup
  identified : (r.passages.map (·.passageId)).Nodup
  hashed : ∀ x ∈ r.passages, Hashed R x
  reserved : ∃ operations : List PyStr,
    r.usage.calls = operations.length ∧ trace = marks q operations

/-- Whatever the server replies and `reserve_call` does, a search that returns returns passages of
dates up to the cutoff, at distinct places and under distinct ids, each with the hash of its text;
and its usage counts the calls reserved, each of which came right before its request. -/
theorem search_safe (R : SciverseBenchmarkRetriever F W E) (q : Query W E) (w : W) :
    Triple (· = ⟨w, []⟩) (search R q)
      (fun r s => ∃ cutoff, R.fromisoformat q.cutoffDate = some cutoff ∧ Safe R q cutoff r s.trace)
      fun _ => True := by
  rintro _ rfl
  refine ⟨?_, fun _ _ _ => trivial⟩
  intro r s' h
  unfold search at h
  cases hcutoff : R.fromisoformat q.cutoffDate with
  | none =>
    rw [hcutoff] at h
    cases h
  | some cutoff =>
    rw [hcutoff] at h
    obtain ⟨_, s₁, hreserve, h₁⟩ := bind_eq_ok.mp h
    rw [(call_eq_ok.mp hreserve).2] at h₁
    obtain ⟨reply, s₂, hrequest, h₂⟩ := bind_eq_ok.mp h₁
    rw [(call_eq_ok.mp hrequest).2] at h₂
    obtain ⟨hits, s₃, hhits, h₃⟩ := bind_eq_ok.mp h₂
    rw [(lift_eq_ok.mp hhits).2] at h₃
    obtain ⟨p, s₄, hloop, h₄⟩ := bind_eq_ok.mp h₃
    obtain ⟨_, s₅, hvalid, h₅⟩ := bind_eq_ok.mp h₄
    obtain ⟨hvalidate, hs₅⟩ := lift_eq_ok.mp hvalid
    rw [hs₅] at h₅
    obtain ⟨rfl, rfl⟩ := pure_eq_ok.mp h₅
    have hreading : Reading R q cutoff [] p s' := by
      refine reading_considerHits 0 hits ?_ hloop
      refine ⟨by simp, by simp, by simp, by simp, [py "search"], rfl, ?_⟩
      have hname : py ":search" = py ":" ++ py "search" := by decide
      simp only [marks, List.flatMap_cons, List.flatMap_nil, List.append_assoc]
      rw [hname]
      rfl
    unfold RetrievalResult.validate at hvalidate
    split at hvalidate
    · cases hvalidate
    · exact ⟨cutoff, rfl,
        { dated := hreading.dated
          located := fun x hx => by
            obtain ⟨offset, hstarts, -⟩ := hreading.seen x hx
            exact ⟨offset, hstarts⟩
          distinct := hreading.distinct
          identified := (identified_of_validate hvalidate).1
          hashed := hreading.hashed
          reserved := hreading.reserved }⟩

end Safety

/-! ## A hit of the cutoff's year -/

def sampleHit (year : ℤ) : PyVal NonFinite :=
  .dict [(.str (py "doc_id"), .str (py "d1")), (.str (py "offset"), .int 0),
    (.str (py "year"), .int year)]

def sampleRetriever (year : ℤ) : SciverseBenchmarkRetriever NonFinite Unit Unit where
  interpreter := ⟨⟨fun _ => true, []⟩, fun c => [c], fun _ => py "00"⟩
  float _ := none
  fromisoformat text :=
    if text = py "2019-06-30" then some ⟨2019, 6, 30, by decide, by decide, by decide⟩ else none
  search _ w := (.ok (.list [sampleHit year]), w)
  content _ w := (.ok (.dict [(.str (py "text"), .str (py "Oxides harden."))]), w)
  topK := 3
  contentLimit := 4000
  topK_valid := by decide
  limit_valid := by decide

def sampleQuery : Query Unit Unit :=
  ⟨py "q1", py "oxides", py "2019-06-30", py "op", fun _ w => (.ok (), w)⟩

/-- Of the year before, it is read again; of the same year, it might be too late. -/
example :
    ((ran (search (sampleRetriever 2018) sampleQuery) ⟨(), []⟩).1.toOption.map fun r =>
        r.passages.map (·.publicationDate)) = some [py "2018-12-31"] ∧
      ((ran (search (sampleRetriever 2019) sampleQuery) ⟨(), []⟩).1.toOption.map fun r =>
        r.passages.length) = some 0 := by
  decide +kernel

end SciverseRetriever
