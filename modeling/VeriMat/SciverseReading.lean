import VeriMat.SciverseClient
import VeriMat.TurnLoop

/-! # Assembling a document

`read_document` of `tools/sciverse.py` follows `more` and `next_offset` from slice to slice.
Offsets count bytes while the text is gathered as characters, and the loop is left when no more
is reported, when `next_offset` does not advance, or when the bytes asked for are there; only
the last of them marks the document as truncated. -/
namespace SciverseReading

open PyText JsonText TurnLoop SciverseClient

variable {F W E : Type} [PyFloat F]

structure ReadArgs where
  docId : PyStr
  offset : ℤ
  maxBytes : Option ℤ
  chunkLimit : ℤ

structure Document where
  docId : PyStr
  text : PyStr
  pages : ℕ
  startOffset : ℤ
  endOffset : ℤ
  bytes : ℕ
  truncated : Bool
  contentSha256 : PyStr

/-- The variables of the loop. -/
structure Reading (W : Type) where
  chunks : List PyStr
  collected : ℕ
  cursor : ℤ
  reached : ℤ
  pages : ℕ
  world : W

/-- `cursor = following`. -/
def Reading.goOn (s : Reading W) (cursor : ℤ) : Reading W := { s with cursor := cursor }

/-! ## The loop -/

/-- `max(0, int(offset))`. -/
def ReadArgs.start (a : ReadArgs) : ℤ := max 0 a.offset

def start (a : ReadArgs) (w : W) : Reading W := ⟨[], 0, a.start, a.start, 0, w⟩

/-- The bytes the next slice is asked for. -/
def window (a : ReadArgs) (collected : ℕ) : ℤ :=
  match a.maxBytes with
  | none => min a.chunkLimit maxContentLimit
  | some maxBytes => min (min a.chunkLimit maxContentLimit) (max 1 (maxBytes - collected))

/-- `max_bytes is not None and collected >= max_bytes`. -/
def spent (a : ReadArgs) (collected : ℕ) : Bool :=
  match a.maxBytes with
  | none => false
  | some maxBytes => maxBytes ≤ collected

def more (slice : Members F) : Bool := holds (member slice (py "more"))

/-- `next_offset`, if it is an integer. -/
def following (slice : Members F) : Option ℤ := asInt (member slice (py "next_offset"))

/-- The offset to go on at, unless no more is reported or it does not advance. -/
def advance (cursor : ℤ) (slice : Members F) : Option ℤ :=
  (following slice).filter fun n => more slice && cursor < n

section Loop
variable (C : Client F W E) (a : ReadArgs)

/-- The slice asked for in a state. -/
def slice (s : Reading W) : Except (SciverseError E) (Members F) × W :=
  content C a.docId s.cursor (window a s.collected) s.world

/-- The slice is put to what was read. -/
def gather (s : Reading W) (slice : Members F) (bytes : PyBytes) (w : W) : Reading W where
  chunks := s.chunks ++ [textOf C slice]
  collected := s.collected + bytes.length
  cursor := s.cursor
  reached := max s.reached ((following slice).getD s.reached)
  pages := s.pages + 1
  world := w

/-- What is returned when the loop is left. -/
def finish (s : Reading W) (truncated : Bool) : Except (SciverseError E) Document × W :=
  match encode s.chunks.flatten with
  | none => (.error .unicodeEncodeError, s.world)
  | some bytes =>
    (.ok ⟨a.docId, s.chunks.flatten, s.pages, a.start, s.reached, bytes.length, truncated,
      C.sha256 bytes⟩, s.world)

/-- One turn of the loop. -/
def turn (s : Reading W) : Reading W ⊕ (Except (SciverseError E) Document × W) :=
  match slice C a s with
  | (.error e, w) => .inr (.error e, w)
  | (.ok slice, w) =>
    match encode (textOf C slice) with
    | none => .inr (.error .unicodeEncodeError, w)
    | some bytes =>
      let s' := gather C s slice bytes w
      match advance s.cursor slice with
      | none => .inr (finish C a s' false)
      | some cursor =>
        if spent a s'.collected then .inr (finish C a (s'.goOn cursor) true)
        else .inl (s'.goOn cursor)

/-- `read_document`, with so many slices read at most. -/
def readDocument (turns : ℕ) (w : W) : Option (Except (SciverseError E) Document × W) :=
  run (turn C a) turns (start a w)

end Loop

variable {C : Client F W E} {a : ReadArgs} {s s' : Reading W} {w w' : W}

/-! ## Turns -/

theorem spent_eq_false {collected : ℕ} :
    spent a collected = false ↔ ∀ m, a.maxBytes = some m → (collected : ℤ) < m := by
  unfold spent
  cases a.maxBytes with
  | none => simp
  | some m => simp

/-- A turn, once its slice is there. -/
theorem turn_of_slice {members : Members F} (h : slice C a s = (.ok members, w)) :
    ∃ bytes, encode (textOf C members) = some bytes ∧
      turn C a s =
        match advance s.cursor members with
        | none => .inr (finish C a (gather C s members bytes w) false)
        | some cursor =>
          if spent a (gather C s members bytes w).collected then
            .inr (finish C a ((gather C s members bytes w).goOn cursor) true)
          else .inl ((gather C s members bytes w).goOn cursor) := by
  obtain ⟨bytes, hbytes⟩ := Option.isSome_iff_exists.mp (content_ok h).2
  refine ⟨bytes, hbytes, ?_⟩
  unfold turn
  simp only [h, hbytes]

/-- A turn goes on only from a slice that reports more and an offset further on. -/
theorem turn_inl (h : turn C a s = .inl s') :
    ∃ members bytes w cursor, slice C a s = (.ok members, w) ∧
      encode (textOf C members) = some bytes ∧ advance s.cursor members = some cursor ∧
      spent a (gather C s members bytes w).collected = false ∧
      s' = (gather C s members bytes w).goOn cursor := by
  rcases hslice : slice C a s with ⟨e | members, w⟩
  · simp only [turn, hslice, reduceCtorEq] at h
  · obtain ⟨bytes, hbytes, hturn⟩ := turn_of_slice hslice
    rw [hturn] at h
    cases hadvance : advance s.cursor members with
    | none => rw [hadvance] at h; cases h
    | some cursor =>
      simp only [hadvance] at h
      split_ifs at h with hspent
      cases h
      exact ⟨members, bytes, w, cursor, rfl, hbytes, hadvance, by simpa using hspent, rfl⟩

theorem advance_eq_some {cursor n : ℤ} {members : Members F} :
    advance cursor members = some n ↔
      following members = some n ∧ more members = true ∧ cursor < n := by
  simp [advance, Option.filter_eq_some_iff]

theorem advance_eq_none {cursor : ℤ} {members : Members F} :
    advance cursor members = none ↔
      more members = false ∨ ∀ n, following members = some n → n ≤ cursor := by
  simp only [advance, Option.filter_eq_none_iff, Bool.and_eq_true, decide_eq_true_eq, not_and,
    not_lt]
  cases more members <;> simp

/-- What is gathered can be encoded if its parts can. -/
theorem gather_encodes {members : Members F} {bytes : PyBytes}
    (hs : (encode s.chunks.flatten).isSome = true) (h : encode (textOf C members) = some bytes) :
    (encode (s.chunks ++ [textOf C members]).flatten).isSome = true := by
  simp only [List.flatten_append, List.flatten_cons, List.flatten_nil, List.append_nil]
  rw [JsonWritable.encode_append_isSome]
  exact ⟨hs, by rw [h]; rfl⟩

theorem encodes_reached (h : Reached (turn C a) (start a w) s) :
    (encode s.chunks.flatten).isSome = true := by
  induction h with
  | start => rfl
  | turn _ hturn ih =>
    obtain ⟨members, bytes, _, _, _, hbytes, _, _, rfl⟩ := turn_inl hturn
    exact gather_encodes ih hbytes

/-! ## Truncation -/

/-- The slice reports more, and its `next_offset` is none to go on at. -/
def Stalls (C : Client F W E) (a : ReadArgs) (s : Reading W) : Prop :=
  ∃ members w, slice C a s = (.ok members, w) ∧ more members = true ∧
    ∀ n, following members = some n → n ≤ s.cursor

/-- A document that is not marked as truncated ended with a slice that reported no more. -/
def MarksTruncation (C : Client F W E) (a : ReadArgs) (w : W) : Prop :=
  ∀ s d w', Reached (turn C a) (start a w) s → turn C a s = .inr (.ok d, w') →
    d.truncated = false → ∀ members w'', slice C a s = (.ok members, w'') → more members = false

omit [PyFloat F] in
theorem exists_finish {truncated : Bool} (h : (encode s.chunks.flatten).isSome = true) :
    ∃ d, finish C a s truncated = (.ok d, s.world) ∧ d.truncated = truncated := by
  obtain ⟨joined, hjoined⟩ := Option.isSome_iff_exists.mp h
  unfold finish
  rw [hjoined]
  exact ⟨_, rfl, rfl⟩

omit [PyFloat F] in
theorem finish_truncated {d : Document} {truncated : Bool}
    (h : finish C a s truncated = (.ok d, w)) : d.truncated = truncated := by
  unfold finish at h
  split at h
  · cases h
  · cases h
    rfl

/-- A slice that stalls ends the loop with a document that is not marked. -/
theorem exists_unmarked (hreached : Reached (turn C a) (start a w) s) (hstalls : Stalls C a s) :
    ∃ d w', turn C a s = .inr (.ok d, w') ∧ d.truncated = false := by
  obtain ⟨members, w', hslice, _, hoffset⟩ := hstalls
  obtain ⟨bytes, hbytes, hturn⟩ := turn_of_slice hslice
  rw [hturn, advance_eq_none.mpr (.inr hoffset)]
  have hencodes := gather_encodes (encodes_reached hreached) hbytes
  obtain ⟨d, hfinish, htruncated⟩ : ∃ d, finish C a (gather C s members bytes w') false =
      (.ok d, w') ∧ d.truncated = false := exists_finish hencodes
  exact ⟨d, w', congrArg Sum.inr hfinish, htruncated⟩

/-- No truncation is silent exactly when no slice of the run stalls. -/
theorem marksTruncation_iff (C : Client F W E) (a : ReadArgs) (w : W) :
    MarksTruncation C a w ↔ ∀ s, Reached (turn C a) (start a w) s → ¬Stalls C a s := by
  constructor
  · intro hmarks s hreached hstalls
    obtain ⟨d, w', hturn, htruncated⟩ := exists_unmarked hreached hstalls
    obtain ⟨members, w'', hslice, hmore, _⟩ := hstalls
    rw [hmarks s d w' hreached hturn htruncated members w'' hslice] at hmore
    cases hmore
  · intro hstalls s d w' hreached hturn htruncated members w'' hslice
    obtain ⟨bytes, _, hturn'⟩ := turn_of_slice hslice
    rw [hturn'] at hturn
    cases hadvance : advance s.cursor members with
    | none =>
      rcases advance_eq_none.mp hadvance with hmore | hoffset
      · exact hmore
      · by_contra hmore
        exact hstalls s hreached ⟨members, w'', hslice, by simpa using hmore, hoffset⟩
    | some cursor =>
      simp only [hadvance] at hturn
      split_ifs at hturn with hspent
      rw [finish_truncated (Sum.inr.inj hturn)] at htruncated
      cases htruncated

/-- A server that reports more and gives no `next_offset`. -/
def silentServer : Client NonFinite Unit Unit where
  display := ⟨fun _ => true, []⟩
  sha256 := id
  request _ _ := (.ok (.obj [(py "text", .str (py "a")), (py "more", .bool true)]), ())
  audit _ _ _ _ := (.ok (), ())

theorem not_marksTruncation_always :
    ¬∀ (C : Client NonFinite Unit Unit) (a : ReadArgs) (w : Unit), MarksTruncation C a w := by
  intro h
  refine absurd (h silentServer ⟨py "d", 0, none, 16384⟩ ()) fun hmarks => ?_
  have hmore := hmarks (start _ ()) ⟨py "d", py "a", 1, 0, 0, 1, false, py "a"⟩ () .start
    (by rfl) rfl _ () rfl
  exact absurd hmore (by decide)

/-! ## Exact assembly -/

/-- `document[i:j]`. -/
def bytesBetween (document : PyBytes) (i j : ℤ) : PyBytes :=
  (document.drop i.toNat).take (j.toNat - i.toNat)

theorem bytesBetween_self (document : PyBytes) (i : ℤ) : bytesBetween document i i = [] := by
  simp [bytesBetween]

theorem bytesBetween_append {document : PyBytes} {i j k : ℤ} (hij : i ≤ j) (hjk : j ≤ k) :
    bytesBetween document i j ++ bytesBetween document j k = bytesBetween document i k := by
  have hi : i.toNat + (j.toNat - i.toNat) = j.toNat := by omega
  have hk : k.toNat - i.toNat = (j.toNat - i.toNat) + (k.toNat - j.toNat) := by omega
  unfold bytesBetween
  rw [hk, List.take_add, List.drop_drop, hi]

theorem length_bytesBetween {document : PyBytes} {i j : ℤ} (hi : 0 ≤ i) (hij : i ≤ j)
    (hj : j ≤ document.length) : ((bytesBetween document i j).length : ℤ) = j - i := by
  unfold bytesBetween
  rw [List.length_take, List.length_drop]
  omega

/-- The slice is one a request for so many bytes at this offset inside the document is met by. -/
structure Conforms (document : PyBytes) (offset limit next : ℤ) (members : Members F) : Prop where
  advances : offset < next
  within : next ≤ document.length
  limited : next - offset ≤ limit
  text : ∃ t, member members (py "text") = .str t ∧
    encode t = some (bytesBetween document offset next)
  continues : member members (py "next_offset") = .int next
  more : more members = true ↔ next < document.length

/-- The endpoint conforms in every request inside the document that a run makes, and the calls
can be recorded. -/
def ConformingEndpoint (C : Client F W E) (a : ReadArgs) (w : W) (document : PyBytes) : Prop :=
  ∀ s, Reached (turn C a) (start a w) s → s.cursor < document.length →
    let limit := clampLimit (window a s.collected)
    let request := .content a.docId s.cursor limit
    ∃ members next w' w'', C.request request s.world = (.ok (.obj members), w') ∧
      C.audit request [] members w' = (.ok (), w'') ∧
      Conforms document s.cursor limit next members

theorem Conforms.following {document : PyBytes} {offset limit next : ℤ} {members : Members F}
    (h : Conforms document offset limit next members) : following members = some next := by
  unfold SciverseReading.following
  rw [h.continues]
  rfl

theorem Conforms.textOf {document : PyBytes} {offset limit next : ℤ} {members : Members F}
    (h : Conforms document offset limit next members) :
    encode (textOf C members) = some (bytesBetween document offset next) := by
  obtain ⟨t, ht, hencode⟩ := h.text
  have hsame : SciverseClient.textOf C members = t := by
    unfold SciverseClient.textOf
    rw [ht]
    cases t <;> rfl
  rw [hsame, hencode]

/-- What is read so far, between two turns. -/
structure Assembled (a : ReadArgs) (document : PyBytes) (s : Reading W) : Prop where
  started : a.start ≤ s.cursor
  inside : s.cursor < document.length
  reached : s.reached = s.cursor
  encoded : encode s.chunks.flatten = some (bytesBetween document a.start s.cursor)
  collected : (s.collected : ℤ) = s.cursor - a.start
  budget : ∀ m, a.maxBytes = some m → (s.collected : ℤ) < m

theorem start_nonneg (a : ReadArgs) : 0 ≤ a.start := le_max_left _ _

/-- A slice of a conforming endpoint keeps to the bytes still asked for. -/
theorem limit_budget {m : ℤ} {collected : ℕ} (hm : a.maxBytes = some m)
    (h : (collected : ℤ) < m) : clampLimit (window a collected) ≤ m - collected := by
  unfold clampLimit window
  rw [hm]
  simp only
  omega

/-- What a turn gathers from a slice that conforms. -/
theorem gather_assembled {document : PyBytes} {limit next : ℤ} {members : Members F}
    (hs : Assembled a document s) (h : Conforms document s.cursor limit next members) :
    let s' := gather C s members (bytesBetween document s.cursor next) w
    s'.reached = next ∧
      encode s'.chunks.flatten = some (bytesBetween document a.start next) ∧
      (s'.collected : ℤ) = next - a.start := by
  have hcursor : 0 ≤ s.cursor := (start_nonneg a).trans hs.started
  refine ⟨?_, ?_, ?_⟩
  · change max s.reached ((SciverseReading.following members).getD s.reached) = next
    rw [h.following, Option.getD_some, hs.reached]
    exact max_eq_right h.advances.le
  · change encode (s.chunks ++ [SciverseClient.textOf C members]).flatten = _
    simp only [List.flatten_append, List.flatten_cons, List.flatten_nil, List.append_nil]
    rw [encode_append_eq_some]
    refine ⟨_, _, hs.encoded, h.textOf, ?_⟩
    exact (bytesBetween_append hs.started h.advances.le).symm
  · change ((s.collected + (bytesBetween document s.cursor next).length : ℕ) : ℤ) = _
    rw [Nat.cast_add, length_bytesBetween hcursor h.advances.le h.within, hs.collected]
    omega

/-- The document is the bytes from the start to its end offset, as many as were asked for at
most, and marked as truncated exactly when some are left. -/
structure Exact (a : ReadArgs) (document : PyBytes) (d : Document) : Prop where
  start : d.startOffset = a.offset
  ends : a.offset ≤ d.endOffset ∧ d.endOffset ≤ document.length
  text : encode d.text = some (bytesBetween document a.offset d.endOffset)
  bytes : (d.bytes : ℤ) = d.endOffset - a.offset
  budget : ∀ m, a.maxBytes = some m → (d.bytes : ℤ) ≤ m
  truncated : d.truncated = true ↔ d.endOffset < document.length

theorem start_assembled {document : PyBytes} (h : a.start < document.length)
    (hbudget : ∀ m, a.maxBytes = some m → 1 ≤ m) : Assembled a document (start a w) where
  started := le_rfl
  inside := h
  reached := rfl
  encoded := by
    rw [show (start a w).cursor = a.start from rfl, bytesBetween_self]
    rfl
  collected := by
    change ((0 : ℕ) : ℤ) = a.start - a.start
    omega
  budget := fun m hm => by
    have hm' := hbudget m hm
    change ((0 : ℕ) : ℤ) < m
    omega

section Runs
variable {document : PyBytes}

/-- A conforming endpoint is met by a slice in every state assembled so far. -/
theorem slice_conforms (hserver : ConformingEndpoint C a w document)
    (hreached : Reached (turn C a) (start a w) s) (hs : Assembled a document s) :
    ∃ members next w', slice C a s = (.ok members, w') ∧
      Conforms document s.cursor (clampLimit (window a s.collected)) next members := by
  obtain ⟨members, next, w', w'', hrequest, haudit, hconforms⟩ := hserver s hreached hs.inside
  have hencodes : (encode (textOf C members)).isSome = true := by
    rw [hconforms.textOf]
    rfl
  have hcursor : 0 ≤ s.cursor := (start_nonneg a).trans hs.started
  exact ⟨members, next, w'', content_eq hcursor hrequest hencodes haudit, hconforms⟩

/-- A turn from such a state, by whether bytes remain and are still asked for. -/
theorem turn_conforms (hserver : ConformingEndpoint C a w document)
    (hreached : Reached (turn C a) (start a w) s) (hs : Assembled a document s) :
    ∃ members next w', Conforms document s.cursor (clampLimit (window a s.collected)) next members ∧
      let s' := gather C s members (bytesBetween document s.cursor next) w'
      turn C a s =
        if next < document.length then
          if spent a s'.collected then .inr (finish C a (s'.goOn next) true)
          else .inl (s'.goOn next)
        else .inr (finish C a s' false) := by
  obtain ⟨members, next, w', hslice, hconforms⟩ := slice_conforms hserver hreached hs
  refine ⟨members, next, w', hconforms, ?_⟩
  obtain ⟨bytes, hbytes, hturn⟩ := turn_of_slice hslice
  rw [hconforms.textOf, Option.some.injEq] at hbytes
  subst hbytes
  intro s'
  rw [hturn]
  by_cases hmore : next < document.length
  · rw [if_pos hmore, advance_eq_some.mpr
      ⟨hconforms.following, hconforms.more.mpr hmore, hconforms.advances⟩]
  · have hlast : more members = false := by
      rw [← Bool.not_eq_true, hconforms.more]
      exact hmore
    rw [if_neg hmore, advance_eq_none.mpr (.inl hlast)]

/-- A slice keeps the bytes within those asked for. -/
theorem gather_budget {next limit : ℤ} {members : Members F} (hs : Assembled a document s)
    (h : Conforms document s.cursor limit next members)
    (hlimit : limit = clampLimit (window a s.collected)) {m : ℤ} (hm : a.maxBytes = some m) :
    next - a.start ≤ m := by
  have hbudget := limit_budget hm (hs.budget m hm)
  have hlimited := h.limited
  have hcollected := hs.collected
  omega

/-- What a turn preserves. -/
theorem turn_assembled (hserver : ConformingEndpoint C a w document)
    (hreached : Reached (turn C a) (start a w) s) (hs : Assembled a document s)
    (hturn : turn C a s = .inl s') : Assembled a document s' ∧ s.cursor < s'.cursor := by
  obtain ⟨members, next, w', hconforms, hturn'⟩ := turn_conforms hserver hreached hs
  obtain ⟨hend, hencoded, hcollected⟩ := gather_assembled (C := C) (w := w') hs hconforms
  rw [hturn'] at hturn
  split_ifs at hturn with hmore hspent
  cases hturn
  refine ⟨⟨?_, hmore, hend, hencoded, hcollected, ?_⟩, hconforms.advances⟩
  · exact hs.started.trans hconforms.advances.le
  · exact spent_eq_false.mp (eq_false_of_ne_true hspent)

theorem reached_assembled (hserver : ConformingEndpoint C a w document)
    (hstart : a.start < document.length) (hbudget : ∀ m, a.maxBytes = some m → 1 ≤ m)
    (hreached : Reached (turn C a) (start a w) s) : Assembled a document s := by
  induction hreached with
  | start => exact start_assembled hstart hbudget
  | turn hreached hturn ih => exact (turn_assembled hserver hreached ih hturn).1

omit [PyFloat F] in
/-- What the loop is left with. -/
theorem finish_exact {next : ℤ} {truncated : Bool} {d : Document} (hoffset : 0 ≤ a.offset)
    (hreached : s.reached = next) (hfrom : a.start ≤ next) (hwithin : next ≤ document.length)
    (hencoded : encode s.chunks.flatten = some (bytesBetween document a.start next))
    (hbudget : ∀ m, a.maxBytes = some m → next - a.start ≤ m)
    (htruncated : truncated = true ↔ next < document.length)
    (h : finish C a s truncated = (.ok d, w)) : Exact a document d := by
  have hstart : a.start = a.offset := max_eq_right hoffset
  have hlength : ((bytesBetween document a.start next).length : ℤ) = next - a.start :=
    length_bytesBetween (start_nonneg a) hfrom hwithin
  unfold finish at h
  rw [hencoded] at h
  rw [hstart] at hfrom hlength hencoded hbudget h
  cases h
  subst hreached
  exact ⟨rfl, ⟨hfrom, hwithin⟩, hencoded, hlength, fun m hm => hlength ▸ hbudget m hm, htruncated⟩

/-- The turn that leaves the loop returns the document that is asked for. -/
theorem turn_exact (hserver : ConformingEndpoint C a w document) (hoffset : 0 ≤ a.offset)
    (hreached : Reached (turn C a) (start a w) s) (hs : Assembled a document s)
    {result : Except (SciverseError E) Document × W} (hturn : turn C a s = .inr result) :
    ∃ d w', result = (.ok d, w') ∧ Exact a document d := by
  obtain ⟨members, next, w', hconforms, hturn'⟩ := turn_conforms hserver hreached hs
  obtain ⟨hend, hencoded, _⟩ := gather_assembled (C := C) (w := w') hs hconforms
  have hfrom : a.start ≤ next := hs.started.trans hconforms.advances.le
  have hbudget : ∀ m, a.maxBytes = some m → next - a.start ≤ m :=
    fun m hm => gather_budget hs hconforms rfl hm
  have hencodes : (encode (gather C s members (bytesBetween document s.cursor next)
      w').chunks.flatten).isSome = true := by
    rw [hencoded]
    rfl
  rw [hturn'] at hturn
  split_ifs at hturn with hmore hspent
  · obtain ⟨d, hfinish, _⟩ : ∃ d, finish C a ((gather C s members
        (bytesBetween document s.cursor next) w').goOn next) true = (.ok d, w') ∧ _ :=
      exists_finish hencodes
    refine ⟨d, w', (Sum.inr.inj hturn).symm.trans hfinish, ?_⟩
    exact finish_exact hoffset hend hfrom hconforms.within hencoded hbudget (by simpa) hfinish
  · obtain ⟨d, hfinish, _⟩ : ∃ d, finish C a (gather C s members
        (bytesBetween document s.cursor next) w') false = (.ok d, w') ∧ _ :=
      exists_finish hencodes
    refine ⟨d, w', (Sum.inr.inj hturn).symm.trans hfinish, ?_⟩
    exact finish_exact hoffset hend hfrom hconforms.within hencoded hbudget (by simpa using hmore)
      hfinish

/-- A document of a conforming endpoint is assembled exactly. -/
theorem readDocument_exact (C : Client F W E) (a : ReadArgs) (w : W) (document : PyBytes)
    (hoffset : 0 ≤ a.offset) (hinside : a.offset < document.length)
    (hbudget : ∀ m, a.maxBytes = some m → 1 ≤ m)
    (hserver : ConformingEndpoint C a w document) :
    ∃ turns d w', readDocument C a turns w = some (.ok d, w') ∧ Exact a document d := by
  have hstart : a.start < document.length := by
    rw [ReadArgs.start, max_eq_right hoffset]
    exact hinside
  have hassembled : ∀ {s}, Reached (turn C a) (start a w) s → Assembled a document s :=
    fun h => reached_assembled hserver hstart hbudget h
  obtain ⟨result, hreturns⟩ : ∃ result, Returns (turn C a) (start a w) result := by
    refine exists_returns (fun s => (document.length - s.cursor).toNat) fun s s' hs hturn => ?_
    have hadvances := (turn_assembled hserver hs (hassembled hs) hturn).2
    have hinside := (hassembled hs).inside
    omega
  obtain ⟨s, hreached, hturn⟩ := returns_iff.mp hreturns
  obtain ⟨d, w', rfl, hexact⟩ := turn_exact hserver hoffset hreached (hassembled hreached) hturn
  obtain ⟨turns, hrun⟩ := hreturns
  exact ⟨turns, d, w', hrun, hexact⟩

end Runs

/-- A slice of the document that has a character of one byte and one of two. -/
def accentSlice (offset : ℤ) : Members NonFinite :=
  if offset = 0 then
    [(py "text", .str [97]), (py "more", .bool true), (py "next_offset", .int 1)]
  else [(py "text", .str [233]), (py "more", .bool false), (py "next_offset", .int 3)]

def accentServer : Client NonFinite Unit Unit where
  display := ⟨fun _ => true, []⟩
  sha256 := id
  request
    | .content _ offset _, _ => (.ok (.obj (accentSlice offset)), ())
    | .metaSearch _ _ _, _ => (.error .emptyResult, ())
  audit _ _ _ _ := (.ok (), ())

def accentArgs : ReadArgs := ⟨py "d", 0, some 3, 2⟩

/-- The state behind the first slice. -/
def accentState : Reading Unit := ⟨[[97]], 1, 1, 1, 1, ()⟩

theorem accent_reached {s : Reading Unit}
    (h : Reached (turn accentServer accentArgs) (start accentArgs ()) s) :
    s = start accentArgs () ∨ s = accentState := by
  induction h with
  | start => exact .inl rfl
  | turn _ hturn ih =>
    rcases ih with rfl | rfl
    · exact .inr (Sum.inl.inj (hturn.symm.trans (show _ = Sum.inl accentState by rfl)))
    · cases hturn

theorem accentServer_conforms :
    ConformingEndpoint accentServer accentArgs () [97, 195, 169] := by
  intro s hreached _
  rcases accent_reached hreached with rfl | rfl
  · exact ⟨accentSlice 0, 1, (), (), rfl, rfl, by decide, by decide, by decide,
      ⟨[97], rfl, rfl⟩, rfl, by decide⟩
  · exact ⟨accentSlice 1, 3, (), (), rfl, rfl, by decide, by decide, by decide,
      ⟨[233], rfl, rfl⟩, rfl, by decide⟩

theorem readDocument_exact_accent :
    ∃ turns d w', readDocument accentServer accentArgs turns () = some (.ok d, w') ∧
      Exact accentArgs [97, 195, 169] d :=
  readDocument_exact accentServer accentArgs () [97, 195, 169] (by decide) (by decide)
    (by rintro m ⟨⟩; decide) accentServer_conforms

/-! ## Termination -/

/-- The loop ends when the offsets it is given to go on at are bounded. -/
theorem exists_returns_of_bounded (C : Client F W E) (a : ReadArgs) (w : W) (bound : ℤ)
    (h : ∀ s, Reached (turn C a) (start a w) s → ∀ members w', slice C a s = (.ok members, w') →
      ∀ n, following members = some n → n ≤ bound) :
    ∃ turns result, readDocument C a turns w = some result := by
  obtain ⟨result, turns, hrun⟩ : ∃ result, Returns (turn C a) (start a w) result := by
    refine exists_returns (fun s => (bound - s.cursor).toNat) fun s s' hs hturn => ?_
    obtain ⟨members, bytes, w', cursor, hslice, _, hadvance, _, rfl⟩ := turn_inl hturn
    obtain ⟨hfollowing, _, hlt⟩ := advance_eq_some.mp hadvance
    have hle := h s hs members w' hslice cursor hfollowing
    change (bound - cursor).toNat < (bound - s.cursor).toNat
    omega
  exact ⟨turns, result, hrun⟩

end SciverseReading
