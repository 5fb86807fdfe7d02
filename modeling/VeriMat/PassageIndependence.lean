import VeriMat.QuoteGate
import VeriMat.OperationReplay

/-! # Passages are judged one by one

A transport that stores its operations answers a new one by its request and rejects another request
under a known identifier. The identifier of the question about a passage is made of the first 16
characters of its reference, and two passages may share these. -/
namespace PassageIndependence

open PyText JsonText PyValue PyDisplay Events Transaction Verification Methods
open OperationReplay
open DecisionGraph (Payload getItem)

variable {F : Type} [PyFloat F]

/-! ## The transport -/

/-- The text of the exception for an identifier that comes back with another request. -/
def reused : PyStr := py "model operation id was reused with different request semantics"

/-- The context with a transport that answers new operations by their requests. -/
def withStore (ctx : MethodContext F (Store PyStr ModelRequest))
    (answer : ModelRequest → Except PyStr PyStr) : MethodContext F (Store PyStr ModelRequest) :=
  { ctx with
    services :=
      { ctx.services with
        complete := fun request store =>
          submit answer (.error reused) request.operationId request store } }

variable (ctx : MethodContext F (Store PyStr ModelRequest)) (c : Claim)
  (passages : List (Passage F))

/-- The verdicts and the refusals among the outcomes of the passages. -/
def parts (outcomes : List (Verdict F ⊕ Refusal)) : List (Verdict F) × List Refusal :=
  (outcomes.filterMap Sum.getLeft?, outcomes.filterMap Sum.getRight?)

/-- Whatever the transport answers and has stored before, each passage has one record that a list
of these passages gives it, in any order and whatever else is in the list. -/
def Independent : Prop :=
  ∀ (answer : ModelRequest → Except PyStr PyStr) (store : Store PyStr ModelRequest),
    ∃ record : Passage F → Except MethodError (Verdict F ⊕ Refusal),
      ∀ list : List (Passage F), (∀ p ∈ list, p ∈ passages) →
        (ran (judgePassages (withStore ctx answer) c list) ⟨store, []⟩).1 =
          (list.mapM record).map parts

/-- Passages with the same beginning of the reference show the model the same text. -/
def SameShown : Prop :=
  ∀ p ∈ passages, ∀ q ∈ passages, p.ref.take 16 = q.ref.take 16 → shown p.text = shown q.text

variable {ctx c passages} {answer : ModelRequest → Except PyStr PyStr}

/-! ## Requests -/

/-- The claim, as the user text of a request has it. -/
def claimText (c : Claim) : Json F :=
  .obj [(py "claim_id", .str c.claimId), (py "relation_id", .str c.relationId),
    (py "material", .str c.material), (py "structural_feature", .str c.structuralFeature),
    (py "property_name", .str c.propertyName), (py "direction", .str c.direction),
    (py "quote", .str c.quote), (py "passage_id", .str c.passageId),
    (py "composition", .str c.composition), (py "value", .str c.value), (py "unit", .str c.unit)]

/-- The request about a passage. -/
def requestOf (c : Claim) (p : Passage F) : ModelRequest where
  operationId := py "verify-" ++ c.claimId ++ py "-" ++ p.ref.take 16
  prompt := .verify
  user := render (.obj [(py "claim", sortNames (claimText c)), (py "passage", .str (shown p.text))]
    : Json F)

theorem verifyRequest_eq (c : Claim) (p : Passage F) : verifyRequest c p = .ok (requestOf c p) := by
  have hfinite : (.obj [(py "claim", claimText c), (py "passage", .str (shown p.text))] :
      Json F).Finite := by
    simp [claimText, Json.Finite, FiniteMembers]
  have hdumps := dumps_ofJson hfinite
  have hsorted :
      sortNames (.obj [(py "claim", claimText c), (py "passage", .str (shown p.text))] : Json F) =
        .obj [(py "claim", sortNames (claimText c)), (py "passage", .str (shown p.text))] := rfl
  rw [hsorted] at hdumps
  exact congrArg (Except.map _) hdumps

theorem operationId_eq_iff {p q : Passage F} :
    (requestOf c p).operationId = (requestOf c q).operationId ↔ p.ref.take 16 = q.ref.take 16 :=
  List.append_right_inj _

/-- One request is asked about two passages exactly when these two agree. -/
theorem requestOf_eq_iff {p q : Passage F} : requestOf c p = requestOf c q ↔
    p.ref.take 16 = q.ref.take 16 ∧ shown p.text = shown q.text := by
  constructor
  · intro h
    refine ⟨operationId_eq_iff.mp (congrArg ModelRequest.operationId h), ?_⟩
    have hfinite : ∀ p : Passage F, (.obj [(py "claim", sortNames (claimText c)),
        (py "passage", .str (shown p.text))] : Json F).Finite := by
      intro p
      have hclaim : (claimText c : Json F).Finite := by
        simp [claimText, Json.Finite, FiniteMembers]
      simp only [Json.Finite, FiniteMembers, finite_sortNames _ hclaim, and_self]
    have huser := render_injective (hfinite p) (hfinite q) (congrArg ModelRequest.user h)
    simpa using huser
  · rintro ⟨href, hshown⟩
    rw [requestOf, requestOf, href, hshown]

/-! ## Judging with a store -/

/-- One passage: what the transport answers, and what it knows then. -/
theorem ran_judgePassage (p : Passage F) (s : Lab F (Store PyStr ModelRequest)) :
    ran (judgePassage (withStore ctx answer) c p) s =
      (judgeReply ctx.interpreter p (submit answer (.error reused) (requestOf c p).operationId
          (requestOf c p) s.world).1,
        ⟨(submit answer (.error reused) (requestOf c p).operationId (requestOf c p) s.world).2,
          s.heard ++ [⟨p, (submit answer (.error reused) (requestOf c p).operationId (requestOf c p)
            s.world).1⟩]⟩) := by
  rw [judgePassage, verifyRequest_eq]
  dsimp only
  rw [ran_bind_ok (ran_call _ s), ran_bind_ok (ran_hear _ _ _)]
  dsimp only
  have hcomplete : (withStore ctx answer).services.complete (requestOf c p) s.world =
      submit answer (.error reused) (requestOf c p).operationId (requestOf c p) s.world := rfl
  have hinterpreter : (withStore ctx answer).interpreter = ctx.interpreter := rfl
  rw [hcomplete, hinterpreter]
  cases judgeReply ctx.interpreter p (submit answer (.error reused) (requestOf c p).operationId
      (requestOf c p) s.world).1 with
  | error e => rfl
  | ok outcome => rfl

variable (c passages) in
/-- The operations that the passages lead to. -/
def Operation (id : PyStr) (request : ModelRequest) : Prop :=
  ∃ p ∈ passages, request = requestOf c p ∧ id = (requestOf c p).operationId

theorem compatible_of_sameShown (h : SameShown passages) (store : Store PyStr ModelRequest) :
    Compatible (Operation c passages) store := by
  rintro id _ _ - ⟨p, hp, rfl, hid⟩ ⟨q, hq, rfl, hid'⟩
  have href := operationId_eq_iff.mp (hid.symm.trans hid')
  exact requestOf_eq_iff.mpr ⟨href, h p hp q hq href⟩

/-- The list is judged passage by passage, each as the store would have it judged first. -/
theorem ran_mapM (h : SameShown passages) (store : Store PyStr ModelRequest)
    {list : List (Passage F)} (hlist : ∀ p ∈ list, p ∈ passages)
    (s : Lab F (Store PyStr ModelRequest)) (hs : Extends (Operation c passages) store s.world) :
    (ran (list.mapM (judgePassage (withStore ctx answer) c)) s).1 = list.mapM fun p =>
      judgeReply ctx.interpreter p
        (submit answer (.error reused) (requestOf c p).operationId (requestOf c p) store).1 := by
  induction list generalizing s with
  | nil => rfl
  | cons p list ih =>
    have hop : Operation c passages (requestOf c p).operationId (requestOf c p) :=
      ⟨p, hlist p List.mem_cons_self, rfl, rfl⟩
    rw [List.mapM_cons, List.mapM_cons, ran_bind_fst, ran_judgePassage,
      hs.answers (compatible_of_sameShown h store) hop]
    dsimp only
    cases judgeReply ctx.interpreter p (submit answer (.error reused) (requestOf c p).operationId
        (requestOf c p) store).1 with
    | error e => rfl
    | ok outcome =>
      have hnext : Extends (Operation c passages) store (submit answer (.error reused)
          (requestOf c p).operationId (requestOf c p) s.world).2 := hs.step hop
      have hrest := fun heard =>
        ih (fun q hq => hlist q (List.mem_cons_of_mem _ hq)) ⟨_, heard⟩ hnext
      simp only [Except.bind, ran_bind_fst, hrest]
      rfl

theorem ran_judgePassages (h : SameShown passages) (store : Store PyStr ModelRequest)
    {list : List (Passage F)} (hlist : ∀ p ∈ list, p ∈ passages) :
    (ran (judgePassages (withStore ctx answer) c list) ⟨store, []⟩).1 =
      (list.mapM fun p => judgeReply ctx.interpreter p
        (submit answer (.error reused) (requestOf c p).operationId (requestOf c p) store).1).map
          parts := by
  rw [judgePassages, ran_bind_fst, ran_mapM h store hlist _ (Extends.refl _ _)]
  cases list.mapM fun p => judgeReply ctx.interpreter p
      (submit answer (.error reused) (requestOf c p).operationId (requestOf c p) store).1 with
  | error e => rfl
  | ok outcomes => rfl

/-! ## A list of two -/

/-- An answer that every gate takes for a verdict. -/
def emptyAnswer : PyStr := py "\x7b\x7d"

/-- It is a verdict for every passage, whatever was asked. -/
theorem judgeReply_emptyAnswer (I : Interpreter) (p : Passage F) : ∃ v,
    judgeReply I p (.ok emptyAnswer) = .ok (.inl v) := by
  have hloads : (loads emptyAnswer : Option (Json F)) = some (.obj []) := rfl
  have hquoted : I.quoted (textOf I ([] : Payload F) (py "quote")) p.text = true :=
    decide_eq_true (List.nil_infix)
  rw [judgeReply, hloads]
  exact ⟨_, if_pos hquoted⟩

/-- A transport that gives this answer to everything and has nothing stored. -/
def fromScratch (ctx : MethodContext F (Store PyStr ModelRequest)) (c : Claim)
    (list : List (Passage F)) : Except MethodError (List (Verdict F) × List Refusal) :=
  (ran (judgePassages (withStore ctx fun _ => .ok emptyAnswer) c list) ⟨fun _ => none, []⟩).1

theorem fromScratch_alone (ctx : MethodContext F (Store PyStr ModelRequest)) (c : Claim)
    (p : Passage F) : ∃ v, fromScratch ctx c [p] = .ok ([v], []) := by
  obtain ⟨v, hv⟩ := judgeReply_emptyAnswer ctx.interpreter p
  refine ⟨v, ?_⟩
  have hone : SameShown [p] := by
    intro q hq r hr _
    rw [List.mem_singleton.mp hq, List.mem_singleton.mp hr]
  rw [fromScratch, ran_judgePassages hone _ fun _ hq => hq, List.mapM_cons, submit_new rfl, hv]
  rfl

/-- The second of two passages under one identifier is refused when its text is another. -/
theorem fromScratch_both {p q : Passage F} (href : p.ref.take 16 = q.ref.take 16)
    (hshown : shown p.text ≠ shown q.text) : ∃ v refusal,
    fromScratch ctx c [p, q] = .ok ([v], [refusal]) := by
  obtain ⟨v, hv⟩ := judgeReply_emptyAnswer ctx.interpreter p
  have hid : (requestOf c p).operationId = (requestOf c q).operationId :=
    operationId_eq_iff.mpr href
  have hrequest : requestOf c p ≠ requestOf c q := fun h => hshown (requestOf_eq_iff.mp h).2
  have hknown : Function.update (fun _ => none) (requestOf c p).operationId
      (some (requestOf c p)) (requestOf c q).operationId = some (requestOf c p) := by
    rw [← hid, Function.update_self]
  refine ⟨v, ⟨q.ref, .raised (reused.take 120)⟩, ?_⟩
  rw [fromScratch, judgePassages, ran_bind_fst, List.mapM_cons, ran_bind_fst, ran_judgePassage]
  simp only [submit_new, hv, Except.bind, List.mapM_cons, ran_bind_fst, ran_judgePassage,
    submit_known hknown, if_neg hrequest]
  rfl

/-- Two passages under one identifier are judged independently only where they show one text. -/
theorem sameShown_of_independent (h : Independent ctx c passages) : SameShown passages := by
  intro p hp q hq href
  by_contra hshown
  obtain ⟨record, hrecord⟩ := h (fun _ => .ok emptyAnswer) fun _ => none
  have hverdict : ∀ p ∈ passages, ∃ v, record p = .ok (.inl v) := by
    intro p hp
    obtain ⟨v, hv⟩ := fromScratch_alone ctx c p
    have halone : fromScratch ctx c [p] = ([p].mapM record).map parts :=
      hrecord [p] (by simpa using hp)
    rw [halone, List.mapM_cons] at hv
    cases hone : record p with
    | error e =>
      rw [hone] at hv
      cases hv
    | ok outcome =>
      rw [hone] at hv
      cases outcome with
      | inl v => exact ⟨v, rfl⟩
      | inr refusal => cases hv
  obtain ⟨v, hv⟩ := hverdict p hp
  obtain ⟨w, hw⟩ := hverdict q hq
  obtain ⟨v', refusal, hboth⟩ : ∃ v refusal, fromScratch ctx c [p, q] = .ok ([v], [refusal]) :=
    fromScratch_both href hshown
  have hpointwise : fromScratch ctx c [p, q] = ([p, q].mapM record).map parts :=
    hrecord [p, q] (by simp [hp, hq])
  rw [hpointwise, List.mapM_cons, List.mapM_cons, hv, hw] at hboth
  cases hboth

/-- Passages are judged independently exactly when those with the same beginning of the reference
show the model the same text. -/
theorem independent_iff (ctx : MethodContext F (Store PyStr ModelRequest)) (c : Claim)
    (passages : List (Passage F)) : Independent ctx c passages ↔ SameShown passages := by
  constructor
  · exact sameShown_of_independent
  · intro h answer store
    exact ⟨_, fun list hlist => ran_judgePassages h store hlist⟩

/-! ## Two documents of one journal -/

def storedContext : MethodContext NonFinite (Store PyStr ModelRequest) where
  interpreter := QuoteGate.sampleInterpreter
  services :=
    { agenticSearch := fun _ store => (.ok [], store)
      complete := fun _ store => (.error [], store)
      observations := none }
  sqrt n := n
  discoveryYearTo := 2021
  mctsIterations := 8

def hardPassage : Passage NonFinite := ⟨py "10.1000/alloys.2019.1", py "Oxides harden.", []⟩

def softPassage : Passage NonFinite := ⟨py "10.1000/alloys.2019.2", py "Oxides soften.", []⟩

/-- The references differ behind their first 16 characters. -/
theorem journal_not_independent :
    ([hardPassage, softPassage].map fun p => (p.ref, p.text)).Nodup ∧
      ¬Independent storedContext QuoteGate.sampleClaim [hardPassage, softPassage] := by
  refine ⟨by decide +kernel, fun h => ?_⟩
  have href : hardPassage.ref.take 16 = softPassage.ref.take 16 := by decide +kernel
  have hsame : shown hardPassage.text = shown softPassage.text :=
    sameShown_of_independent h hardPassage (by simp) softPassage (by simp) href
  exact absurd hsame (by decide +kernel)

end PassageIndependence
