import VeriMat.JsonLines
import VeriMat.LedgerChain

/-! # The two ways of splitting a ledger into lines

`append` splits at line feeds, `events` and `verify` at every kind of line end. Inside an
event a line end can only be white space between tokens, so when both readings succeed they
return the same events. -/
namespace LedgerLines

open PyText JsonText PyValue Events Ledger LedgerChain

variable {F : Type} [PyFloat F] {H : Host}

/-- The envelope an object spells out. -/
def envelopeOf (v : Json F) : Option (EventEnvelope F) :=
  match v.dedup with
  | .obj kvs => ofMapping kvs
  | _ => none

theorem readEnvelope_objectText {line : PyStr} {e : EventEnvelope F}
    (h : readEnvelope line = some e) : ∃ v, ObjectText line v ∧ envelopeOf v = some e := by
  unfold readEnvelope loads at h
  split at h
  · rename_i kvs hl
    obtain ⟨v, hv, hd⟩ := Option.map_eq_some_iff.mp hl
    cases v with
    | obj raw =>
      refine ⟨_, objectText_of_parse hv, ?_⟩
      rw [envelopeOf, hd]
      exact h
    | _ => simp [Json.dedup] at hd
  · cases h

theorem fromJson_objectText {line : PyStr} {e : EventEnvelope F}
    (h : EventEnvelope.fromJson H line = .ok e) :
    ∃ v, ObjectText line v ∧ envelopeOf v = some e :=
  readEnvelope_objectText (EnvelopeRoundTrip.fromJson_eq_ok.mp h).1

theorem fromJson_feed (s : PyStr) :
    EventEnvelope.fromJson (F := F) H (s.map feed) = EventEnvelope.fromJson H s := by
  simp only [EventEnvelope.fromJson, readEnvelope, loads, parse_feed]

theorem isBlank_feed (s : PyStr) : isBlank (s.map feed) = isBlank s := by
  simp only [isBlank, List.all_map, Function.comp_def, isSpace_feed]

theorem feed_noFeed {s : PyStr} (h₁ : 10 ∉ s) (h₂ : 13 ∉ s) : 10 ∉ s.map feed := by
  rwa [map_feed_of_notMem h₂]

/-! ## Line ends of either kind -/

theorem reads_cons_congr {l : PyStr} {ls ls' : List PyStr} {es₂ : List (EventEnvelope F)}
    (h : ∀ es, Reads H es ls es₂ ↔ Reads H es ls' es₂) (es : List (EventEnvelope F)) :
    Reads H es (l :: ls) es₂ ↔ Reads H es (l :: ls') es₂ := by
  constructor
  · intro hr
    cases hr with
    | blank hb hr => exact .blank hb ((h _).mp hr)
    | event hb hf ha hr => exact .event hb hf ha ((h _).mp hr)
  · intro hr
    cases hr with
    | blank hb hr => exact .blank hb ((h _).mpr hr)
    | event hb hf ha hr => exact .event hb hf ha ((h _).mpr hr)

theorem reads_blank_cons {l : PyStr} {ls : List PyStr} {es es₂ : List (EventEnvelope F)}
    (hl : isBlank l = true) : Reads H es (l :: ls) es₂ ↔ Reads H es ls es₂ := by
  constructor
  · intro hr
    cases hr with
    | blank _ hr => exact hr
    | event hb _ _ _ => simp [hl] at hb
  · exact .blank hl

/-- Universal newlines differ from carriage returns taken for line feeds by blank lines. -/
theorem reads_universalLines {s : PyStr} {es es₂ : List (EventEnvelope F)} :
    Reads H es (universalLines s) es₂ ↔ Reads H es (lines (s.map feed)) es₂ := by
  have : ∀ q, 10 ∉ q → ∀ es : List (EventEnvelope F),
      Reads H es (lines (q ++ translateNewlines s)) es₂ ↔
        Reads H es (lines (q ++ s.map feed)) es₂ := by
    induction s using translateNewlines.induct with
    | case1 => exact fun q _ es => Iff.rfl
    | case2 cs ih =>
      intro q hq es
      have h₁ : translateNewlines (13 :: 10 :: cs) = 10 :: translateNewlines cs := rfl
      have h₂ : (13 :: 10 :: cs).map feed = 10 :: 10 :: cs.map feed := rfl
      have h₃ := lines_terminated (l := []) (by simp) (cs.map feed)
      rw [List.nil_append, List.nil_append] at h₃
      rw [h₁, h₂, lines_terminated hq, lines_terminated hq, h₃]
      refine reads_cons_congr (fun es => ?_) es
      rw [reads_blank_cons rfl]
      exact ih [] (by simp) es
    | case3 c cs hne ih =>
      intro q hq es
      have h₁ : translateNewlines (c :: cs) = feed c :: translateNewlines cs := by
        rw [translateNewlines]
        · rfl
        · exact hne
      rw [h₁, List.map_cons]
      by_cases hc : feed c = 10
      · rw [hc, lines_terminated hq, lines_terminated hq]
        exact reads_cons_congr (fun es => ih [] (by simp) es) es
      · have := ih (q ++ [feed c]) (by simpa [hq] using Ne.symm hc) es
        simpa using this
  exact this [] (by simp) es

/-! ## One event over several lines -/

/-- An event whose text goes over several lines can only be read from one of them, between
blank ones. -/
theorem reads_pieces {s : PyStr} {v : Json F} {e : EventEnvelope F}
    (hv : ObjectText s v) (he : envelopeOf v = some e) :
    ∀ {es es₂ : List (EventEnvelope F)}, Reads H es (lines s) es₂ → es₂ = es ++ [e] := by
  induction s using lines_induction with
  | rest q hq =>
    intro es es₂ hr
    have hne : q ≠ [] := by
      rintro rfl
      obtain ⟨n, b, r, hs, _⟩ := hv
      cases hs
    rw [lines_unterminated hq hne] at hr
    cases hr with
    | blank hb _ =>
      have := (ObjectText.of_append (s := []) (List.all_eq_true.mp hb)
        ((List.append_nil q).symm ▸ hv)).2
      obtain ⟨n, b, r, hs, _⟩ := this
      cases hs
    | event _ hf _ hr =>
      obtain ⟨w, hw, hwe⟩ := fromJson_objectText hf
      rw [hv.det hw, hwe] at he
      cases he
      cases hr
      rfl
  | line q s hq ih =>
    intro es es₂ hr
    rw [lines_terminated hq] at hr
    rw [← List.singleton_append, ← List.append_assoc] at hv
    cases hr with
    | blank hb hr => exact ih (hv.of_append (List.all_eq_true.mp hb)).2 hr
    | event _ hf _ hr =>
      obtain ⟨w, hw, hwe⟩ := fromJson_objectText hf
      obtain ⟨rfl, hws⟩ := hw.append hv
      rw [hwe] at he
      cases he
      refine (reads_blank fun l hl => ?_).mp hr
      refine List.all_eq_true.mpr fun c hc => ?_
      have := skipWs_eq_nil.mp hws c (mem_of_mem_lines hl hc)
      exact isSpace_of_isWs this

theorem reads_blank_text {s : PyStr} (hs : isBlank s = true) {es es₂ : List (EventEnvelope F)} :
    Reads H es (lines s) es₂ ↔ es₂ = es :=
  reads_blank fun _ hl => List.all_eq_true.mpr fun _ hc =>
    List.all_eq_true.mp hs _ (mem_of_mem_lines hl hc)

theorem reads_line {l : PyStr} {es es₁ es₂ : List (EventEnvelope F)}
    (h₁ : Reads H es [l] es₁) (h₂ : Reads H es (lines (l.map feed)) es₂) : es₁ = es₂ := by
  cases h₁ with
  | blank hb h =>
    cases h
    exact ((reads_blank_text ((isBlank_feed l).trans hb)).mp h₂).symm
  | event _ hf _ h =>
    cases h
    rw [← fromJson_feed] at hf
    obtain ⟨v, hv, he⟩ := fromJson_objectText hf
    exact (reads_pieces hv he h₂).symm

/-- Both ways of splitting a ledger into lines read the same events. -/
theorem reads_agree {s : PyStr} {es es₁ es₂ : List (EventEnvelope F)}
    (h₁ : Reads H es (lines s) es₁) (h₂ : Reads H es (universalLines s) es₂) : es₁ = es₂ := by
  rw [reads_universalLines] at h₂
  induction s using lines_induction generalizing es with
  | rest q hq =>
    by_cases hne : q = []
    · subst hne
      cases h₁
      cases h₂
      rfl
    · rw [lines_unterminated hq hne] at h₁
      exact reads_line h₁ h₂
  | line q s hq ih =>
    rw [lines_terminated hq, ← List.singleton_append] at h₁
    have hmap : (q ++ 10 :: s).map feed = (q ++ [10]).map feed ++ s.map feed := by simp [feed]
    have hend : EndsLine ((q ++ [10]).map feed) := Or.inr ⟨q.map feed, by simp [feed]⟩
    rw [hmap, lines_append hend] at h₂
    obtain ⟨es₃, ha, hb⟩ := h₁.append_inv
    obtain ⟨es₄, ha', hb'⟩ := h₂.append_inv
    obtain rfl := reads_line ha ha'
    exact ih hb hb'

end LedgerLines
