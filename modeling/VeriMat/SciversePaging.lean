import VeriMat.JsonlOps
import VeriMat.SciverseReading

/-! # Paging through a search

`iter_meta_search` of `tools/sciverse.py` asks for page after page as long as the next one lies
within the result window, and follows `next_cursor` from there on. -/
namespace SciversePaging

open PyText JsonText PyValue PyDisplay TurnLoop SciverseClient
open JsonlOps (sameKeyValue)

variable {F W E : Type} [PyFloat F]

/-- The arguments of `iter_meta_search` its loop reads. -/
structure SearchArgs where
  pageSize : ℤ
  limit : Option ℤ

/-- The variables of the loop, with the rows yielded so far. -/
structure Paging (F W : Type) where
  yielded : List (Members F)
  page : ℤ
  cursor : Option (Json F)
  seenCursors : List (Json F)
  world : W

/-- What the generator has yielded when it ends, and how it ends. -/
structure Outcome (F W E : Type) where
  yielded : List (Members F)
  ended : Except (SciverseError E) Unit
  world : W

/-! ## The loop -/

/-- `min(int(page_size), _MAX_PAGE_SIZE)`. -/
def SearchArgs.size (a : SearchArgs) : ℤ := min a.pageSize maxPageSize

def start (F : Type) {W : Type} (w : W) : Paging F W := ⟨[], 1, none, [], w⟩

/-- `limit is not None and produced >= limit`. -/
def limitReached (limit : Option ℤ) (produced : ℕ) : Bool :=
  match limit with
  | none => false
  | some limit => limit ≤ produced

/-- The rows of a page that are yielded behind so many others, and whether the last of them
reaches the limit. -/
def yieldRows {α : Type} (limit : Option ℤ) : ℕ → List α → List α × Bool
  | _, [] => ([], false)
  | produced, row :: rows =>
    if limitReached limit (produced + 1) then ([row], true)
    else
      let rest := yieldRows limit (produced + 1) rows
      (row :: rest.1, rest.2)

section Loop
variable (C : Client F W E) (a : SearchArgs)

/-- The page asked for in a state. -/
def pageOf (s : Paging F W) : Except (SciverseError E) (Envelope F) × W :=
  metaSearch C s.page a.size s.cursor s.world

/-- `page += 1`, with the cursor that is followed from here on, if there is one. -/
def Paging.next (s : Paging F W) (rows : List (Members F)) (cursor : Option (Json F)) (w : W) :
    Paging F W where
  yielded := s.yielded ++ rows
  page := s.page + 1
  cursor := cursor.or s.cursor
  seenCursors := s.seenCursors ++ cursor.toList
  world := w

/-- One turn of the loop. -/
def turn (s : Paging F W) : Paging F W ⊕ Outcome F W E :=
  match pageOf C a s with
  | (.error e, w) => .inr ⟨s.yielded, .error e, w⟩
  | (.ok envelope, w) =>
    let rows := yieldRows a.limit s.yielded.length envelope.results
    let yielded := s.yielded ++ rows.1
    if rows.2 || (envelope.results.length : ℤ) < a.size then .inr ⟨yielded, .ok (), w⟩
    else if (s.page + 1) * a.size ≤ resultWindow then .inl (s.next rows.1 none w)
    else if holds envelope.nextCursor = false then .inr ⟨yielded, .ok (), w⟩
    else if canHash (ofJson envelope.nextCursor) = false then .inr ⟨yielded, .error .typeError, w⟩
    else if s.seenCursors.any (sameKeyValue · envelope.nextCursor) then .inr ⟨yielded, .ok (), w⟩
    else .inl (s.next rows.1 (some envelope.nextCursor) w)

/-- `iter_meta_search`, with so many pages asked for at most. -/
def iterMetaSearch (turns : ℕ) (w : W) : Option (Outcome F W E) :=
  run (turn C a) turns (start F w)

end Loop

/-! ## Yielding -/

section Yielding
variable {α : Type} {limit : Option ℤ} {produced : ℕ} {rows : List α}

/-- The rows of the list that are within the limit. -/
def firstRows (limit : Option ℤ) (rows : List α) : List α :=
  match limit with
  | none => rows
  | some limit => rows.take limit.toNat

theorem limitReached_eq_false :
    limitReached limit produced = false ↔ ∀ l, limit = some l → (produced : ℤ) < l := by
  unfold limitReached
  cases limit with
  | none => simp
  | some l => simp

/-- Without the limit being reached all rows are yielded. -/
theorem yieldRows_all (h : limitReached limit (produced + rows.length) = false) :
    yieldRows limit produced rows = (rows, false) := by
  induction rows generalizing produced with
  | nil => rfl
  | cons row rows ih =>
    rw [limitReached_eq_false] at h
    have hrest : limitReached limit (produced + 1 + rows.length) = false := by
      rw [limitReached_eq_false]
      intro l hl
      have hlt := h l hl
      rw [List.length_cons] at hlt
      omega
    have hrow : limitReached limit (produced + 1) = false := by
      rw [limitReached_eq_false] at hrest ⊢
      intro l hl
      have hlt := hrest l hl
      omega
    simp only [yieldRows, hrow, ih hrest, Bool.false_eq_true, if_false]

/-- Otherwise the rows up to the limit are. -/
theorem yieldRows_limited {l : ℕ} (hl : produced < l) (h : l ≤ produced + rows.length) :
    yieldRows (some (l : ℤ)) produced rows = (rows.take (l - produced), true) := by
  induction rows generalizing produced with
  | nil =>
    rw [List.length_nil] at h
    omega
  | cons row rows ih =>
    rw [List.length_cons] at h
    by_cases hlast : l = produced + 1
    · have hreached : limitReached (some (l : ℤ)) (produced + 1) = true := by
        simp [limitReached, hlast]
      have hone : l - produced = 1 := by omega
      simp only [yieldRows, hreached, if_true, hone, List.take_succ_cons, List.take_zero]
    · have hreached : limitReached (some (l : ℤ)) (produced + 1) = false := by
        rw [limitReached_eq_false]
        rintro _ ⟨⟩
        omega
      have hrest : yieldRows (some (l : ℤ)) (produced + 1) rows =
          (rows.take (l - (produced + 1)), true) := ih (by omega) (by omega)
      have htake : l - produced = (l - (produced + 1)) + 1 := by omega
      simp only [yieldRows, hreached, hrest, Bool.false_eq_true, if_false, htake,
        List.take_succ_cons]

theorem firstRows_all (h : limitReached limit rows.length = false) : firstRows limit rows = rows := by
  cases limit with
  | none => rfl
  | some l =>
    have hlt := limitReached_eq_false.mp h l rfl
    exact List.take_of_length_le (by omega)

end Yielding

/-! ## A conforming server -/

/-- The reply to a request for the rows from this offset on: those rows, none of them missing,
and a cursor whenever rows remain. A cursor continues behind the page that issued it. -/
inductive ServesPage (position : Json F → Option ℕ) (total : List (Members F))
    (offset size : ℕ) : Except (RequestError E) (Json F) → Prop where
  | empty (h : total.length ≤ offset) : ServesPage position total offset size (.error .emptyResult)
  | page (members : Members F)
    (results : member members (py "results") = .arr (((total.drop offset).take size).map Json.obj))
    (issued : offset + size < total.length → holds (member members (py "next_cursor")) = true)
    (continues : holds (member members (py "next_cursor")) = true →
      canHash (ofJson (member members (py "next_cursor"))) = true ∧
        position (member members (py "next_cursor")) = some (offset + size)) :
    ServesPage position total offset size (.ok (.obj members))

/-- The row the request of a state begins at: by its page, or by the position of its cursor. -/
def BeginsAt (position : Json F → Option ℕ) (a : SearchArgs) (s : Paging F W) (offset : ℕ) :
    Prop :=
  match s.cursor with
  | none => s.page * a.size ≤ resultWindow ∧ (offset : ℤ) = (s.page - 1) * a.size
  | some cursor => holds cursor = true ∧ position cursor = some offset

/-- The server conforms in every request a run makes, and the calls can be recorded. -/
def ConformingSearch (C : Client F W E) (a : SearchArgs) (w : W) (total : List (Members F))
    (position : Json F → Option ℕ) : Prop :=
  ∀ s, Reached (turn C a) (start F w) s → ∀ offset, BeginsAt position a s offset →
    let request := .metaSearch s.page a.size s.cursor
    let reply := C.request request s.world
    ServesPage position total offset a.size.toNat reply.1 ∧
      ∀ rows members, ∃ w', C.audit request rows members reply.2 = (.ok (), w')

/-- A cursor is issued for one position. -/
def NeverRepeats (position : Json F → Option ℕ) : Prop :=
  ∀ c c' k k', position c = some k → position c' = some k' → sameKeyValue c c' = true → k = k'

/-! ## What the loop keeps -/

/-- Between two turns: the rows of the pages before have been yielded, and the limit is not
reached. -/
structure Continues (position : Json F → Option ℕ) (a : SearchArgs) (total : List (Members F))
    (s : Paging F W) (offset : ℕ) : Prop where
  begins : BeginsAt position a s offset
  within : offset ≤ total.length
  yielded : s.yielded = total.take offset
  page : 1 ≤ s.page
  beyond : s.cursor.isSome = true → resultWindow < s.page * a.size
  seen : ∀ c ∈ s.seenCursors, ∃ k ≤ offset, position c = some k
  limit : limitReached a.limit offset = false

section Runs
variable {C : Client F W E} {a : SearchArgs} {w : W} {total : List (Members F)}
variable {position : Json F → Option ℕ} {s s' : Paging F W} {offset : ℕ}

theorem size_pos (h : 1 ≤ a.pageSize) : 1 ≤ a.size := le_min h (by decide)

theorem size_le (a : SearchArgs) : a.size ≤ maxPageSize := min_le_right _ _

theorem rowsOf_objects {members : Members F} {rows : List (Members F)}
    (h : member members (py "results") = .arr (rows.map Json.obj)) :
    rowsOf (E := E) members = .ok rows := by
  have hobjects : (rows.map (Json.obj (F := F))).filterMap asObject = rows := by
    rw [List.filterMap_map]
    exact List.filterMap_some
  unfold rowsOf
  rw [h]
  dsimp only
  split_ifs with hholds
  · rw [hobjects]
  · cases rows with
    | nil => rfl
    | cons row rows => exact absurd rfl hholds

/-- What a conforming server has replied to. -/
theorem responseOf_serves (page size : ℤ) {reply : Except (RequestError E) (Json F)}
    (h : ServesPage position total offset a.size.toNat reply) :
    ∃ members, responseOf page size reply = .ok members ∧
      rowsOf (E := E) members = .ok ((total.drop offset).take a.size.toNat) ∧
      (offset + a.size.toNat < total.length →
        holds (member members (py "next_cursor")) = true) ∧
      (holds (member members (py "next_cursor")) = true →
        canHash (ofJson (member members (py "next_cursor"))) = true ∧
          position (member members (py "next_cursor")) = some (offset + a.size.toNat)) := by
  cases h with
  | empty h =>
    refine ⟨_, rfl, ?_, fun hlt => by omega, fun hholds => ?_⟩
    · rw [List.drop_eq_nil_of_le h, List.take_nil]
      rfl
    · cases hholds
  | page members results issued continues =>
    exact ⟨members, rfl, rowsOf_objects results, issued, continues⟩

/-- The page a conforming server is asked for. -/
theorem pageOf_serves (hsize : 1 ≤ a.pageSize)
    (hencodes : ∀ row ∈ total, (encode (render (.obj row))).isSome = true)
    (hserver : ConformingSearch C a w total position)
    (hreached : Reached (turn C a) (start F w) s)
    (hs : Continues position a total s offset) :
    ∃ next w', pageOf C a s = (.ok ⟨(total.drop offset).take a.size.toNat, next⟩, w') ∧
      (offset + a.size.toNat < total.length → holds next = true) ∧
      (holds next = true →
        canHash (ofJson next) = true ∧ position next = some (offset + a.size.toNat)) := by
  have hmin : min a.size maxPageSize = a.size := min_eq_left (size_le a)
  have hbody : bodyCursor s.cursor = s.cursor := by
    have hbegins := hs.begins
    unfold BeginsAt at hbegins
    cases hcursor : s.cursor with
    | none => rfl
    | some cursor =>
      rw [hcursor] at hbegins
      simp [bodyCursor, Option.filter, hbegins.1]
  obtain ⟨hreply, haudit⟩ := hserver s hreached offset hs.begins
  obtain ⟨members, hresponse, hrows, hissued, hcontinues⟩ :=
    responseOf_serves s.page a.size hreply
  obtain ⟨w', hw'⟩ := haudit ((total.drop offset).take a.size.toNat) members
  refine ⟨member members (py "next_cursor"), w', ?_, hissued, hcontinues⟩
  have hwindow : s.cursor = none → s.page * min a.size maxPageSize ≤ resultWindow := by
    intro hnone
    have hbegins := hs.begins
    unfold BeginsAt at hbegins
    rw [hnone] at hbegins
    rw [hmin]
    exact hbegins.1
  refine metaSearch_eq hs.page (size_pos hsize) hwindow ?_ hrows ?_ ?_
  · rw [hmin, hbody]
    exact hresponse
  · rw [digestible_iff]
    exact fun row hrow => hencodes row (List.mem_of_mem_drop (List.mem_of_mem_take hrow))
  · rw [hmin, hbody]
    exact hw'

/-- A page that reaches the limit ends the loop with the rows up to it. -/
theorem turn_limited {next : Json F} {w' : W} {l : ℤ} (hs : Continues position a total s offset)
    (hpage : pageOf C a s = (.ok ⟨(total.drop offset).take a.size.toNat, next⟩, w'))
    (hl : a.limit = some l)
    (hreached : l ≤ (offset + ((total.drop offset).take a.size.toNat).length : ℕ)) :
    turn C a s = .inr ⟨firstRows a.limit total, .ok (), w'⟩ := by
  have hlt : (offset : ℤ) < l := limitReached_eq_false.mp hs.limit l hl
  have hnat : ((l.toNat : ℕ) : ℤ) = l := Int.toNat_of_nonneg (by omega)
  have hoffset : offset + (l.toNat - offset) = l.toNat := by omega
  have hlength : s.yielded.length = offset := by
    rw [hs.yielded, List.length_take, min_eq_left hs.within]
  have hyield := yieldRows_limited (show offset < l.toNat by omega)
    (show l.toNat ≤ offset + ((total.drop offset).take a.size.toNat).length by omega)
  rw [hnat] at hyield
  rw [List.length_take, List.length_drop] at hreached
  have hrows : s.yielded ++ ((total.drop offset).take a.size.toNat).take (l.toNat - offset) =
      total.take l.toNat := by
    have hsmall : l.toNat - offset ≤ a.size.toNat := by omega
    rw [hs.yielded, List.take_take, min_eq_left hsmall, ← List.take_add, hoffset]
  unfold turn
  rw [hpage]
  simp only [hlength, hl, hyield, Bool.true_or, if_true, hrows, firstRows]

/-- A page behind which the limit is not reached is yielded as a whole. -/
theorem yieldRows_page {rows : List (Members F)} (hs : Continues position a total s offset)
    (h : limitReached a.limit (offset + rows.length) = false) :
    yieldRows a.limit s.yielded.length rows = (rows, false) := by
  have hlength : s.yielded.length = offset := by
    rw [hs.yielded, List.length_take, min_eq_left hs.within]
  rw [hlength]
  exact yieldRows_all h

theorem yielded_page (hs : Continues position a total s offset) (size : ℕ) :
    s.yielded ++ (total.drop offset).take size = total.take (offset + size) := by
  rw [hs.yielded, List.take_add]

/-- A whole page has been yielded, and the limit is not reached. -/
structure NextRows (a : SearchArgs) (total : List (Members F)) (s : Paging F W)
    (rows : List (Members F)) (offset : ℕ) : Prop where
  within : offset ≤ total.length
  yielded : s.yielded ++ rows = total.take offset
  limit : limitReached a.limit offset = false

theorem seen_continues {c : Json F} {k : ℕ} (hs : Continues position a total s offset)
    (hle : offset ≤ k) (hc : c ∈ s.seenCursors) : ∃ k' ≤ k, position c = some k' := by
  obtain ⟨k', hk', hposition⟩ := hs.seen c hc
  exact ⟨k', hk'.trans hle, hposition⟩

/-- The next page, as long as it lies within the window. -/
theorem continues_page {rows : List (Members F)} {w' : W}
    (hs : Continues position a total s offset) (hpos : 1 ≤ a.size)
    (hwindow : (s.page + 1) * a.size ≤ resultWindow)
    (h : NextRows a total s rows (offset + a.size.toNat)) :
    Continues position a total (s.next rows none w') (offset + a.size.toNat) := by
  rw [add_mul, one_mul] at hwindow
  have hnone : s.cursor = none := by
    by_contra hsome
    have hbeyond := hs.beyond (Option.isSome_iff_ne_none.mpr hsome)
    omega
  have hbegins := hs.begins
  simp only [BeginsAt, hnone] at hbegins
  have hnext : (s.next rows none w').cursor = none := hnone
  refine ⟨?_, h.within, h.yielded, ?_, ?_, ?_, h.limit⟩
  · simp only [BeginsAt, hnext]
    change (s.page + 1) * a.size ≤ resultWindow ∧
      ((offset + a.size.toNat : ℕ) : ℤ) = (s.page + 1 - 1) * a.size
    have hoffset := hbegins.2
    rw [sub_mul, one_mul] at hoffset
    rw [add_sub_cancel_right, add_mul, one_mul]
    omega
  · have hpage := hs.page
    change 1 ≤ s.page + 1
    omega
  · rw [hnext]
    rintro ⟨⟩
  · intro c hc
    rw [show (s.next rows none w').seenCursors = s.seenCursors from List.append_nil _] at hc
    exact seen_continues hs (Nat.le_add_right _ _) hc

/-- The page its cursor continues with. -/
theorem continues_cursor {rows : List (Members F)} {w' : W} {next : Json F}
    (hs : Continues position a total s offset)
    (hwindow : resultWindow < (s.page + 1) * a.size) (hholds : holds next = true)
    (hposition : position next = some (offset + a.size.toNat))
    (h : NextRows a total s rows (offset + a.size.toNat)) :
    Continues position a total (s.next rows (some next) w') (offset + a.size.toNat) := by
  refine ⟨⟨hholds, hposition⟩, h.within, h.yielded, ?_, fun _ => hwindow, ?_, h.limit⟩
  · have hpage := hs.page
    change 1 ≤ s.page + 1
    omega
  · intro c hc
    rcases List.mem_append.mp hc with hc | hc
    · exact seen_continues hs (Nat.le_add_right _ _) hc
    · rw [List.mem_singleton.mp hc]
      exact ⟨_, le_rfl, hposition⟩

/-- A turn of a conforming server goes on behind its page, or ends with the rows asked for. -/
theorem turn_serves (hsize : 1 ≤ a.pageSize)
    (hencodes : ∀ row ∈ total, (encode (render (.obj row))).isSome = true)
    (hunique : NeverRepeats position) (hserver : ConformingSearch C a w total position)
    (hreached : Reached (turn C a) (start F w) s)
    (hs : Continues position a total s offset) :
    (∃ w', turn C a s = .inr ⟨firstRows a.limit total, .ok (), w'⟩) ∨
      ∃ s', turn C a s = .inl s' ∧ Continues position a total s' (offset + a.size.toNat) := by
  obtain ⟨next, w', hpage, hissued, hcontinues⟩ := pageOf_serves hsize hencodes hserver hreached hs
  have hpos : 1 ≤ a.size := size_pos hsize
  set rows := (total.drop offset).take a.size.toNat with hrows
  have hlength : rows.length = min a.size.toNat (total.length - offset) := by
    rw [hrows, List.length_take, List.length_drop]
  by_cases hlimit : limitReached a.limit (offset + rows.length) = false
  case neg =>
    rw [limitReached_eq_false] at hlimit
    push Not at hlimit
    obtain ⟨l, hl, hle⟩ := hlimit
    exact .inl ⟨w', turn_limited hs hpage hl hle⟩
  case pos =>
    have hyield := yieldRows_page hs hlimit
    have hyielded := yielded_page hs a.size.toNat
    rw [← hrows] at hyielded
    -- the rows are all there once a page ends at the last of them or behind it
    have hall (hend : total.length ≤ offset + a.size.toNat) :
        s.yielded ++ rows = firstRows a.limit total := by
      have hwithin := hs.within
      have htotal : offset + rows.length = total.length := by omega
      rw [hyielded, List.take_of_length_le hend, firstRows_all (htotal ▸ hlimit)]
    unfold turn
    rw [hpage]
    simp only [hyield, Bool.false_or, decide_eq_true_eq]
    have hwithin := hs.within
    by_cases hshort : (rows.length : ℤ) < a.size
    · rw [if_pos hshort]
      exact .inl ⟨w', by rw [hall (by omega)]⟩
    · rw [if_neg hshort]
      have hsame : rows.length = a.size.toNat := by omega
      have hkept : NextRows a total s rows (offset + a.size.toNat) :=
        ⟨by omega, hyielded, hsame ▸ hlimit⟩
      by_cases hwindow : (s.page + 1) * a.size ≤ resultWindow
      · rw [if_pos hwindow]
        exact .inr ⟨_, rfl, continues_page hs hpos hwindow hkept⟩
      · rw [if_neg hwindow]
        cases hholds : holds next with
        | false =>
          have hend : total.length ≤ offset + a.size.toNat := by
            by_contra hlt
            rw [hissued (not_le.mp hlt)] at hholds
            cases hholds
          exact .inl ⟨w', by rw [if_pos rfl, hall hend]⟩
        | true =>
          obtain ⟨hhash, hposition⟩ := hcontinues hholds
          have hseen : s.seenCursors.any (sameKeyValue · next) = false := by
            rw [List.any_eq_false]
            intro c hc hsame
            obtain ⟨k, hk, hck⟩ := hs.seen c hc
            have hequal := hunique c next k _ hck hposition hsame
            omega
          rw [if_neg Bool.true_eq_false.mp, hhash, if_neg Bool.true_eq_false.mp, hseen,
            if_neg Bool.false_ne_true]
          exact .inr ⟨_, rfl, continues_cursor hs (not_le.mp hwindow) hholds hposition hkept⟩

theorem start_continues (hlimit : ∀ l, a.limit = some l → 1 ≤ l) :
    Continues position a total (start F w) 0 where
  begins := by
    have hle := size_le a
    have hmax : maxPageSize ≤ resultWindow := by decide
    change 1 * a.size ≤ resultWindow ∧ ((0 : ℕ) : ℤ) = (1 - 1) * a.size
    omega
  within := Nat.zero_le _
  yielded := rfl
  page := le_rfl
  beyond := by rintro ⟨⟩
  seen := by rintro c ⟨⟩
  limit := limitReached_eq_false.mpr fun l hl => by
    have hl' := hlimit l hl
    omega

theorem reached_continues (hsize : 1 ≤ a.pageSize) (hlimit : ∀ l, a.limit = some l → 1 ≤ l)
    (hencodes : ∀ row ∈ total, (encode (render (.obj row))).isSome = true)
    (hunique : NeverRepeats position) (hserver : ConformingSearch C a w total position)
    (hreached : Reached (turn C a) (start F w) s) :
    ∃ offset, Continues position a total s offset := by
  induction hreached with
  | start => exact ⟨0, start_continues hlimit⟩
  | turn hreached hturn ih =>
    obtain ⟨offset, hs⟩ := ih
    rcases turn_serves hsize hencodes hunique hserver hreached hs with ⟨w', hends⟩ | ⟨s', hgoes, hs'⟩
    · rw [hends] at hturn
      cases hturn
    · rw [hgoes] at hturn
      cases hturn
      exact ⟨_, hs'⟩

/-- Paging through a conforming server yields the first rows of its list, and asks for no page
beyond the window. -/
theorem iterMetaSearch_exact (C : Client F W E) (a : SearchArgs) (w : W)
    (total : List (Members F)) (position : Json F → Option ℕ)
    (hsize : 1 ≤ a.pageSize) (hlimit : ∀ l, a.limit = some l → 1 ≤ l)
    (hencodes : ∀ row ∈ total, (encode (render (.obj row))).isSome = true)
    (hunique : NeverRepeats position) (hserver : ConformingSearch C a w total position) :
    (∃ turns w', iterMetaSearch C a turns w = some ⟨firstRows a.limit total, .ok (), w'⟩) ∧
      ∀ s, Reached (turn C a) (start F w) s → s.cursor = none →
        s.page * a.size ≤ resultWindow := by
  have hcontinues : ∀ {s}, Reached (turn C a) (start F w) s →
      ∃ offset, Continues position a total s offset :=
    fun h => reached_continues hsize hlimit hencodes hunique hserver h
  constructor
  · obtain ⟨outcome, hreturns⟩ : ∃ outcome, Returns (turn C a) (start F w) outcome := by
      refine exists_returns (fun s => total.length - s.yielded.length) fun s s' hreached hturn => ?_
      obtain ⟨offset, hs⟩ := hcontinues hreached
      rcases turn_serves hsize hencodes hunique hserver hreached hs with
        ⟨w', hends⟩ | ⟨s'', hgoes, hs'⟩
      · rw [hends] at hturn
        cases hturn
      · rw [hgoes] at hturn
        cases hturn
        have hpos : 1 ≤ a.size := size_pos hsize
        have hwithin := hs'.within
        rw [hs.yielded, hs'.yielded, List.length_take, List.length_take]
        omega
    obtain ⟨s, hreached, hturn⟩ := returns_iff.mp hreturns
    obtain ⟨offset, hs⟩ := hcontinues hreached
    rcases turn_serves hsize hencodes hunique hserver hreached hs with ⟨w', hends⟩ | ⟨s', hgoes, _⟩
    · rw [hends] at hturn
      cases hturn
      obtain ⟨turns, hrun⟩ := hreturns
      exact ⟨turns, w', hrun⟩
    · rw [hgoes] at hturn
      cases hturn
  · intro s hreached hnone
    obtain ⟨offset, hs⟩ := hcontinues hreached
    have hbegins := hs.begins
    simp only [BeginsAt, hnone] at hbegins
    exact hbegins.1

end Runs

/-! ## A server over a list -/

/-- The row a request begins at; a cursor is the number of its first row. -/
def listOffset (page size : ℤ) : Option (Json F) → ℕ
  | some (.int n) => n.toNat
  | _ => ((page - 1) * size).toNat

def listServer (total : List (Members F)) : Client F Unit Unit where
  display := ⟨fun _ => true, []⟩
  sha256 := id
  request
    | .metaSearch page size cursor, _ =>
      let offset := listOffset page size cursor
      (.ok (.obj [(py "results", .arr (((total.drop offset).take size.toNat).map Json.obj)),
        (py "next_cursor", .int (offset + size.toNat : ℕ))]), ())
    | .content _ _ _, _ => (.error .emptyResult, ())
  audit _ _ _ _ := (.ok (), ())

/-- Where a cursor of the server continues. -/
def listPosition : Json F → Option ℕ
  | .int n => some n.toNat
  | _ => none

theorem listServer_conforms (total : List (Members F)) (a : SearchArgs) (hsize : 1 ≤ a.pageSize) :
    ConformingSearch (listServer total) a () total listPosition := by
  intro s _ offset hbegins
  have hpos : 1 ≤ a.size := size_pos hsize
  have hoffset : listOffset s.page a.size s.cursor = offset := by
    unfold BeginsAt at hbegins
    split at hbegins
    · rename_i hnone
      rw [hnone]
      change ((s.page - 1) * a.size).toNat = offset
      rw [← hbegins.2, Int.toNat_natCast]
    · rename_i cursor hcursor
      rw [hcursor]
      cases cursor <;> simp_all [listOffset, listPosition]
  refine ⟨?_, fun _ _ => ⟨(), rfl⟩⟩
  change ServesPage listPosition total offset a.size.toNat (.ok (.obj _))
  rw [hoffset]
  refine .page _ rfl (fun _ => ?_) fun _ => ⟨rfl, ?_⟩
  · change (((offset + a.size.toNat : ℕ) : ℤ) != 0) = true
    rw [bne_iff_ne]
    omega
  · change some ((offset + a.size.toNat : ℕ) : ℤ).toNat = some (offset + a.size.toNat)
    rw [Int.toNat_natCast]

theorem neverRepeats_listPosition : NeverRepeats (listPosition (F := F)) := by
  intro c c' k k' hc hc' hsame
  cases c with
  | int n =>
    cases c' with
    | int n' =>
      have hequal : n = n' := by
        simpa [sameKeyValue, ofJson, pyEq, numberOf, sameNumber, JsonlOps.isNan] using hsame
      rw [← Option.some_inj, ← hc, ← hc', hequal]
    | _ => cases hc'
  | _ => cases hc

def threeRows : List (Members NonFinite) :=
  [[(py "a", .null)], [(py "b", .null)], [(py "c", .null)]]

theorem iterMetaSearch_exact_three :
    (∃ turns w', iterMetaSearch (listServer threeRows) ⟨2, none⟩ turns () =
        some ⟨firstRows none threeRows, .ok (), w'⟩) ∧
      ∀ s, Reached (turn (listServer threeRows) ⟨2, none⟩) (start NonFinite ()) s →
        s.cursor = none → s.page * (SearchArgs.mk 2 none).size ≤ resultWindow :=
  iterMetaSearch_exact (listServer threeRows) ⟨2, none⟩ () threeRows listPosition (by decide)
    (by rintro l ⟨⟩) (by decide) neverRepeats_listPosition
    (listServer_conforms threeRows ⟨2, none⟩ (by decide))

/-! ## Termination -/

section Termination
variable {C : Client F W E} {a : SearchArgs} {w : W} {s s' : Paging F W}

/-- The values of `next_cursor` a run is given. -/
def cursors (C : Client F W E) (a : SearchArgs) (w : W) : Set (Json F) :=
  {c | ∃ s envelope w', Reached (turn C a) (start F w) s ∧
    pageOf C a s = (.ok envelope, w') ∧ envelope.nextCursor = c}

/-- A cursor that can be hashed is found again in the set it was added to. -/
theorem sameKeyValue_self {c : Json F} (h : canHash (ofJson c) = true) :
    sameKeyValue c c = true := by
  cases c with
  | arr xs | obj kvs => cases h
  | float x =>
    cases hx : PyFloat.value x <;>
      simp [sameKeyValue, ofJson, pyEq, numberOf, sameNumber, JsonlOps.isNan, hx]
  | bool b => cases b <;> simp [sameKeyValue, ofJson, pyEq, numberOf, sameNumber]
  | null | int n | str t => simp [sameKeyValue, ofJson, pyEq, numberOf, sameNumber]

/-- How a turn goes on: by a page within the window, or by a cursor not seen before. -/
theorem turn_inl (h : turn C a s = .inl s') :
    ∃ envelope w', pageOf C a s = (.ok envelope, w') ∧ s'.page = s.page + 1 ∧
      ((s.page + 1) * a.size ≤ resultWindow ∧ s'.seenCursors = s.seenCursors ∨
        s'.seenCursors = s.seenCursors ++ [envelope.nextCursor] ∧
          envelope.nextCursor ∉ s.seenCursors) := by
  rcases hpage : pageOf C a s with ⟨e | envelope, w'⟩
  · simp only [turn, hpage, reduceCtorEq] at h
  · refine ⟨envelope, w', rfl, ?_⟩
    unfold turn at h
    rw [hpage] at h
    dsimp only at h
    split_ifs at h with hends hwindow hholds hhash hseen
    · cases h
      exact ⟨rfl, .inl ⟨hwindow, List.append_nil _⟩⟩
    · cases h
      refine ⟨rfl, .inr ⟨rfl, fun hmem => hseen ?_⟩⟩
      exact List.any_eq_true.mpr ⟨_, hmem, sameKeyValue_self (eq_true_of_ne_false hhash)⟩

theorem pageOf_size {envelope : Envelope F} {w' : W} (h : pageOf C a s = (.ok envelope, w')) :
    1 ≤ a.size := (metaSearch_ok h).1

/-- The cursors seen are distinct, and all of them were given. -/
theorem reached_seen (h : Reached (turn C a) (start F w) s) :
    s.seenCursors.Nodup ∧ ∀ c ∈ s.seenCursors, c ∈ cursors C a w := by
  induction h with
  | start => exact ⟨List.nodup_nil, by rintro c ⟨⟩⟩
  | turn hreached hturn ih =>
    obtain ⟨envelope, w', hpage, _, ⟨_, hseen⟩ | ⟨hseen, hnew⟩⟩ := turn_inl hturn
    · rw [hseen]
      exact ih
    · rw [hseen]
      refine ⟨List.nodup_append.mpr ⟨ih.1, List.nodup_singleton _, ?_⟩, fun c hc => ?_⟩
      · rintro c hc _ hc' rfl
        rw [List.mem_singleton.mp hc'] at hc
        exact hnew hc
      · rcases List.mem_append.mp hc with hc | hc
        · exact ih.2 c hc
        · rw [List.mem_singleton.mp hc]
          exact ⟨_, envelope, w', hreached, hpage, rfl⟩

/-- As many cursors are seen as are given, at most. -/
theorem length_seen_le (hfinite : (cursors C a w).Finite)
    (h : Reached (turn C a) (start F w) s) :
    s.seenCursors.length ≤ hfinite.toFinset.card := by
  classical
  obtain ⟨hnodup, hgiven⟩ := reached_seen h
  rw [← List.toFinset_card_of_nodup hnodup]
  refine Finset.card_le_card fun c hc => ?_
  exact hfinite.mem_toFinset.mpr (hgiven c (List.mem_toFinset.mp hc))

/-- The loop ends when it is given finitely many cursors. -/
theorem exists_outcome_of_finite (hfinite : (cursors C a w).Finite) :
    ∃ turns outcome, iterMetaSearch C a turns w = some outcome := by
  obtain ⟨outcome, turns, hrun⟩ : ∃ outcome, Returns (turn C a) (start F w) outcome := by
    refine exists_returns (fun s => (resultWindow - s.page * a.size).toNat +
      (hfinite.toFinset.card - s.seenCursors.length)) fun s s' hreached hturn => ?_
    obtain ⟨envelope, w', hpage, hnext, hgoes⟩ := turn_inl hturn
    have hsize := pageOf_size hpage
    have hproduct : s'.page * a.size = s.page * a.size + a.size := by
      rw [hnext, add_mul, one_mul]
    have hseen' := length_seen_le hfinite (hreached.turn hturn)
    rcases hgoes with ⟨hwindow, hseen⟩ | ⟨hseen, _⟩
    · rw [add_mul, one_mul] at hwindow
      rw [hseen]
      omega
    · rw [hseen, List.length_append, List.length_singleton] at hseen' ⊢
      omega
  exact ⟨turns, outcome, hrun⟩

end Termination

/-- Both loops end on any server: the one when it is given finitely many cursors, the other when
it is given bounded offsets. -/
theorem loops_end (C : Client F W E) (a : SearchArgs) (b : SciverseReading.ReadArgs) (w : W)
    (bound : ℤ) (hcursors : (cursors C a w).Finite)
    (hoffsets : ∀ s, Reached (SciverseReading.turn C b) (SciverseReading.start b w) s →
      ∀ members w', SciverseReading.slice C b s = (.ok members, w') →
        ∀ n, SciverseReading.following members = some n → n ≤ bound) :
    (∃ turns outcome, iterMetaSearch C a turns w = some outcome) ∧
      ∃ turns result, SciverseReading.readDocument C b turns w = some result :=
  ⟨exists_outcome_of_finite hcursors,
    SciverseReading.exists_returns_of_bounded C b w bound hoffsets⟩

/-- A server of full pages with one cursor, and of slices that lead to one offset. -/
def hostileServer : Client NonFinite Unit Unit where
  display := ⟨fun _ => true, []⟩
  sha256 := id
  request
    | .metaSearch _ _ _, _ =>
      (.ok (.obj [(py "results", .arr [.obj []]), (py "next_cursor", .str (py "c"))]), ())
    | .content _ _ _, _ =>
      (.ok (.obj [(py "text", .str (py "a")), (py "more", .bool true),
        (py "next_offset", .int 7)]), ())
  audit _ _ _ _ := (.ok (), ())

theorem hostileServer_cursors (a : SearchArgs) :
    cursors hostileServer a () ⊆ {.str (py "c")} := by
  rintro c ⟨s, envelope, w', _, hpage, rfl⟩
  obtain ⟨_, response, hresponse, hcursor⟩ := metaSearch_ok hpage
  cases hresponse
  exact hcursor

theorem loops_end_hostile :
    (∃ turns outcome, iterMetaSearch hostileServer ⟨1, none⟩ turns () = some outcome) ∧
      ∃ turns result,
        SciverseReading.readDocument hostileServer ⟨py "d", 0, none, 16384⟩ turns () =
          some result :=
  loops_end hostileServer ⟨1, none⟩ ⟨py "d", 0, none, 16384⟩ () 7
    ((Set.finite_singleton _).subset (hostileServer_cursors _)) (by
      intro s _ members w' hslice n hn
      obtain ⟨hrequest, _⟩ := content_ok hslice
      cases hrequest
      cases hn
      exact le_rfl)

end SciversePaging
