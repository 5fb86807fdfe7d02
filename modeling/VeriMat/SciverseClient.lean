import VeriMat.JsonWritable
import VeriMat.PyDisplay

/-! # The Sciverse client

`content` and `meta_search` of `tools/sciverse.py`. What `_request` makes of a request and what
`_audit` does with the record of a call are left to the world outside: any reply may come, and
any exception. -/
namespace SciverseClient

open PyText JsonText PyValue PyDisplay JsonWritable
open Events (truthy)

variable {F W E : Type}

/-- The members of a JSON object. -/
abbrev Members (F : Type) := List (PyStr × Json F)

/-- `MAX_CONTENT_LIMIT`. -/
def maxContentLimit : ℤ := 16384

/-- `_MAX_PAGE_SIZE`. -/
def maxPageSize : ℤ := 50

/-- `_RESULT_WINDOW`. -/
def resultWindow : ℤ := 10000

/-- What `_request` raises: `SciverseEmptyResult` or something else. -/
inductive RequestError (E : Type) where
  | emptyResult
  | outside (e : E)
  deriving DecidableEq

inductive SciverseError (E : Type) where
  | request (e : RequestError E)
  | audit (e : E)
  | negativeOffset
  | startsAtOne
  | beyondWindow
  | attributeError
  | typeError
  | unicodeEncodeError
  deriving DecidableEq

/-- The requests, less the keys of a search that are the same on every page of it. -/
inductive Request (F : Type) where
  | content (docId : PyStr) (offset limit : ℤ)
  | metaSearch (page pageSize : ℤ) (cursor : Option (Json F))

/-- `audit` is handed the rows a call records and the members of the reply. -/
structure Client (F W E : Type) where
  display : Display
  sha256 : PyBytes → PyStr
  request : Request F → W → Except (RequestError E) (Json F) × W
  audit : Request F → List (Members F) → Members F → W → Except E Unit × W

variable [PyFloat F]

/-- `envelope.get(key)`. -/
def member (envelope : Members F) (key : PyStr) : Json F := (envelope.lookup key).getD .null

/-- `bool(value)`, `bool(None)` included. -/
def holds (v : Json F) : Bool := truthy (ofJson v)

/-- The integer a value is; a bool is one. -/
def asInt : Json F → Option ℤ
  | .int n => some n
  | .bool b => some (if b then 1 else 0)
  | _ => none

/-! ## Slices of a document -/

section Content
variable (C : Client F W E)

/-- `str(response.get("text") or "")`. -/
def textOf (slice : Members F) : PyStr :=
  let text := member slice (py "text")
  if holds text then strOf C.display (ofJson text) else []

/-- `max(1, min(int(limit), MAX_CONTENT_LIMIT))`. -/
def clampLimit (limit : ℤ) : ℤ := max 1 (min limit maxContentLimit)

/-- `content`: the slice that was read. The audit takes the hash of its text. -/
def content (docId : PyStr) (offset limit : ℤ) (w : W) :
    Except (SciverseError E) (Members F) × W :=
  if offset < 0 then (.error .negativeOffset, w)
  else
    let request := .content docId offset (clampLimit limit)
    match C.request request w with
    | (.error e, w) => (.error (.request e), w)
    | (.ok (.obj slice), w) =>
      if (encode (textOf C slice)).isSome then
        match C.audit request [] slice w with
        | (.error e, w) => (.error (.audit e), w)
        | (.ok _, w) => (.ok slice, w)
      else (.error .unicodeEncodeError, w)
    | (.ok _, w) => (.error .attributeError, w)

end Content

/-! ## Pages of a search -/

section MetaSearch
variable (C : Client F W E)

/-- The members of `envelope` the pages of a search are followed by. -/
structure Envelope (F : Type) where
  results : List (Members F)
  nextCursor : Json F

/-- An object of a list of results; what is none is dropped. -/
def asObject : Json F → Option (Members F)
  | .obj row => some row
  | _ => none

/-- `[row for row in (response.get("results") or []) if isinstance(row, dict)]`. A text and an
object can be gone through, but hold no dict. -/
def rowsOf (response : Members F) : Except (SciverseError E) (List (Members F)) :=
  let results := member response (py "results")
  if holds results then
    match results with
    | .arr rows => .ok (rows.filterMap asObject)
    | .str _ | .obj _ => .ok []
    | _ => .error .typeError
  else .ok []

/-- Whether `_digest` can encode the rows; the order of their keys makes no difference. -/
def digestible (rows : List (Members F)) : Bool :=
  (encode (render (.arr (rows.map Json.obj)))).isSome

/-- The reply of `_request` as an object, an empty result put in for `SciverseEmptyResult`. -/
def responseOf (page size : ℤ) (reply : Except (RequestError E) (Json F)) :
    Except (SciverseError E) (Members F) :=
  match reply with
  | .ok (.obj response) => .ok response
  | .ok _ => .error .attributeError
  | .error .emptyResult =>
    .ok [(py "results", .arr []), (py "total_count", .int 0), (py "page", .int page),
      (py "page_size", .int size)]
  | .error e => .error (.request e)

/-- The cursor of a request: `if cursor: body["cursor"] = cursor`. -/
def bodyCursor (cursor : Option (Json F)) : Option (Json F) := cursor.filter holds

/-- `meta_search`. -/
def metaSearch (page pageSize : ℤ) (cursor : Option (Json F)) (w : W) :
    Except (SciverseError E) (Envelope F) × W :=
  if page < 1 ∨ pageSize < 1 then (.error .startsAtOne, w)
  else
    let size := min pageSize maxPageSize
    if cursor.isNone ∧ resultWindow < page * size then (.error .beyondWindow, w)
    else
      let request := .metaSearch page size (bodyCursor cursor)
      let reply := C.request request w
      match responseOf page size reply.1 with
      | .error e => (.error e, reply.2)
      | .ok response =>
        match rowsOf response with
        | .error e => (.error e, reply.2)
        | .ok rows =>
          if digestible rows then
            match C.audit request rows response reply.2 with
            | (.error e, w) => (.error (.audit e), w)
            | (.ok _, w) => (.ok ⟨rows, member response (py "next_cursor")⟩, w)
          else (.error .unicodeEncodeError, reply.2)

end MetaSearch

/-! ## What a call returns -/

section Returns
variable {C : Client F W E}

/-- A slice that is returned was the reply, and its text can be encoded. -/
theorem content_ok {docId : PyStr} {offset limit : ℤ} {w w' : W} {slice : Members F}
    (h : content C docId offset limit w = (.ok slice, w')) :
    (C.request (.content docId offset (clampLimit limit)) w).1 = .ok (.obj slice) ∧
      (encode (textOf C slice)).isSome = true := by
  unfold content at h
  split_ifs at h with hoffset
  · cases h
  · dsimp only at h
    split at h
    · cases h
    · rename_i hrequest
      split_ifs at h with hencodes
      · split at h
        · cases h
        · cases h
          exact ⟨congrArg Prod.fst hrequest, hencodes⟩
      · cases h
    · cases h

/-- A slice that can be encoded and recorded is returned as it was sent. -/
theorem content_eq {docId : PyStr} {offset limit : ℤ} {w w' w'' : W} {slice : Members F}
    (hoffset : 0 ≤ offset)
    (hrequest : C.request (.content docId offset (clampLimit limit)) w = (.ok (.obj slice), w'))
    (hencodes : (encode (textOf C slice)).isSome = true)
    (haudit : C.audit (.content docId offset (clampLimit limit)) [] slice w' = (.ok (), w'')) :
    content C docId offset limit w = (.ok slice, w'') := by
  unfold content
  rw [if_neg (not_lt.mpr hoffset)]
  simp only [hrequest, hencodes, if_true, haudit]

/-- So is an envelope whose rows can. -/
theorem metaSearch_eq {page pageSize : ℤ} {cursor : Option (Json F)} {w w' : W}
    {response : Members F} {rows : List (Members F)}
    (hpage : 1 ≤ page) (hsize : 1 ≤ pageSize)
    (hwindow : cursor = none → page * min pageSize maxPageSize ≤ resultWindow)
    (hresponse : responseOf page (min pageSize maxPageSize)
      (C.request (.metaSearch page (min pageSize maxPageSize) (bodyCursor cursor)) w).1 =
        .ok response)
    (hrows : rowsOf (E := E) response = .ok rows) (hdigest : digestible rows = true)
    (haudit : C.audit (.metaSearch page (min pageSize maxPageSize) (bodyCursor cursor)) rows
      response (C.request (.metaSearch page (min pageSize maxPageSize) (bodyCursor cursor)) w).2 =
        (.ok (), w')) :
    metaSearch C page pageSize cursor w =
      (.ok ⟨rows, member response (py "next_cursor")⟩, w') := by
  have hwithin : ¬(cursor.isNone = true ∧ resultWindow < page * min pageSize maxPageSize) := by
    rintro ⟨hnone, hlt⟩
    exact absurd (hwindow (Option.isNone_iff_eq_none.mp hnone)) (not_le.mpr hlt)
  unfold metaSearch
  rw [if_neg (by omega)]
  simp only [if_neg hwithin, hresponse, hrows, hdigest, if_true, haudit]

/-- The cursor of an envelope that is returned is the one of the reply, and the page held a row
at least. -/
theorem metaSearch_ok {page pageSize : ℤ} {cursor : Option (Json F)} {w w' : W}
    {envelope : Envelope F} (h : metaSearch C page pageSize cursor w = (.ok envelope, w')) :
    1 ≤ pageSize ∧ ∃ response,
      responseOf page (min pageSize maxPageSize)
        (C.request (.metaSearch page (min pageSize maxPageSize) (bodyCursor cursor)) w).1 =
          .ok response ∧
      envelope.nextCursor = member response (py "next_cursor") := by
  unfold metaSearch at h
  split_ifs at h with hone
  · cases h
  · refine ⟨by omega, ?_⟩
    dsimp only at h
    split_ifs at h with hwindow
    · cases h
    · split at h
      · cases h
      · rename_i response hresponse
        refine ⟨response, hresponse, ?_⟩
        split at h
        · cases h
        · split_ifs at h
          · split at h
            · cases h
            · cases h
              rfl
          · cases h

theorem digestible_iff {rows : List (Members F)} :
    digestible rows = true ↔ ∀ row ∈ rows, (encode (render (.obj row))).isSome = true := by
  unfold digestible
  rw [render_arr_encodes, List.forall_mem_map]

end Returns

end SciverseClient
