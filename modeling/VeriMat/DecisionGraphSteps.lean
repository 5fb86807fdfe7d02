import VeriMat.DecisionGraph

/-! # What an event does to the graph

One lemma a handler: what it checked and what it changed when it returned. `Change` is their
union; every invariant of the graph is read off it. -/
namespace DecisionGraphSteps

open PyText JsonText PyValue PyDict PyDisplay Events Transaction DecisionGraph

variable {F : Type} [PyFloat F] {D : Display}

/-! ## What an event asks for -/

/-- The edge an `evidence.linked` event asks for. -/
def linkOf (D : Display) (event : EventEnvelope F) : Option EvidenceEdge :=
  match event.eventType, event.payload with
  | .str t, .dict payload =>
    if t = py "evidence.linked" then do
      let claimId ← getItem payload (py "claim_id")
      let passageId ← getItem payload (py "passage_id")
      let value ← getItem payload (py "relation")
      let relation ← EvidenceRelation.ofValue (strOf D value)
      some ⟨strOf D claimId, strOf D passageId, relation⟩
    else none
  | _, _ => none

/-- The claim and the state a `claim.transitioned` event asks for. -/
def transitionOf (D : Display) (event : EventEnvelope F) : Option (PyStr × ClaimState) :=
  match event.eventType, event.payload with
  | .str t, .dict payload =>
    if t = py "claim.transitioned" then do
      let claimId ← getItem payload (py "claim_id")
      let value ← getItem payload (py "to_state")
      let target ← ClaimState.ofValue (strOf D value)
      some (strOf D claimId, target)
    else none
  | _, _ => none

/-- The relations of counterevidence. -/
def counterRelations : List EvidenceRelation := [.contradicts, .bounds, .precedentFor]

/-- The states that need a boundary. -/
def boundedStates : List ClaimState := [.survived, .narrowed]

/-- What a transition to this state needs the graph to hold. -/
def Justifies (g : Graph F) (claimId : PyStr) : ClaimState → Prop
  | .supported => g.hasRelation claimId .supports
  | .challenged => g.hasCounterQuery claimId
  | .survived => g.hasRelation claimId .supports ∧ g.hasCounterQuery claimId
  | .narrowed => g.hasRelation claimId .bounds
  | .refuted => g.hasRelation claimId .contradicts ∨ g.hasRelation claimId .precedentFor
  | .proposed | .unresolved => True

/-- The effects of the handlers. -/
inductive Change (D : Display) (g : Graph F) (event : EventEnvelope F) : Graph F → Prop where
  | ignored (hlink : linkOf D event = none) (htransition : transitionOf D event = none) :
      Change D g event g
  | proposed (claim : Claim) (hlink : linkOf D event = none)
      (htransition : transitionOf D event = none) (hnew : g.claims.get claim.claimId = none)
      (hstate : claim.state = .proposed) (hversion : claim.version = 1) :
      Change D g event { g with claims := g.claims.set claim.claimId claim }
  | queried (query : Query F) (claim : Claim) (hlink : linkOf D event = none)
      (htransition : transitionOf D event = none)
      (hclaim : g.claims.get query.claimId = some claim)
      (hnew : g.queries.get query.queryId = none)
      (hintent : query.intent = py "support" ∨ query.intent = py "counterevidence") :
      Change D g event { g with queries := g.queries.set query.queryId query }
  | observed (passage : Passage F) (query : Query F) (hlink : linkOf D event = none)
      (htransition : transitionOf D event = none)
      (hquery : g.queries.get passage.queryId = some query)
      (hnew : g.passages.get passage.passageId = none) :
      Change D g event { g with passages := g.passages.set passage.passageId passage }
  | linked (edge : EvidenceEdge) (claim : Claim) (passage : Passage F) (query : Query F)
      (hlink : linkOf D event = some edge) (htransition : transitionOf D event = none)
      (hclaim : g.claims.get edge.claimId = some claim)
      (hpassage : g.passages.get edge.passageId = some passage)
      (hquery : g.queries.get passage.queryId = some query)
      (howner : query.claimId = edge.claimId)
      (hsupport : edge.relation = .supports → query.intent = py "support")
      (hcounter : edge.relation ∈ counterRelations → query.intent = py "counterevidence")
      (hnew : edge ∉ g.edges) : Change D g event { g with edges := g.edges ++ [edge] }
  | transitioned (claimId : PyStr) (claim : Claim) (target : ClaimState) (f : Claim → Claim)
      (hlink : linkOf D event = none) (htransition : transitionOf D event = some (claimId, target))
      (hclaim : g.claims.get claimId = some claim)
      (hallowed : target ∈ allowedTransitions claim.state)
      (hjustified : Justifies g claimId target) (hid : ∀ c, (f c).claimId = c.claimId)
      (hstate : ∀ c, (f c).state = target) (hversion : ∀ c, (f c).version = c.version + 1) :
      Change D g event { g with claims := g.claims.modify claimId f }

/-! ## Payload fields -/

section Peeling
variable {payload : Payload F} {g g' : Graph F} {α : Type} {a : α}

theorem required_bind_ok {keys : List PyStr} {f : Unit → Projection F α} :
    (required payload keys >>= f) g = .ok a g' ↔
      (∀ key ∈ keys, isUnset (getItem payload key) = false) ∧ f () g = .ok a g' := by
  rw [required, raiseIf_bind_ok]
  simp [List.filter_eq_nil_iff]

theorem item_bind_ok {key : PyStr} {f : PyVal F → Projection F α} :
    (item payload key >>= f) g = .ok a g' ↔
      ∃ v, getItem payload key = some v ∧ f v g = .ok a g' :=
  orRaise_bind_ok

theorem strItem_bind_ok {key : PyStr} {f : PyStr → Projection F α} :
    ((strOf D <$> item payload key) >>= f) g = .ok a g' ↔
      ∃ v, getItem payload key = some v ∧ f (strOf D v) g = .ok a g' := by
  rw [bind_map_left, item_bind_ok]

end Peeling

/-! ## The handlers -/

section Handlers
variable {payload : Payload F} {g g' : Graph F} {u : Unit}

theorem claimProposed_eq_ok (h : claimProposed D payload g = .ok u g') :
    ∃ claim : Claim, g.claims.get claim.claimId = none ∧ claim.state = .proposed ∧
      claim.version = 1 ∧ g' = { g with claims := g.claims.set claim.claimId claim } := by
  simp only [claimProposed, required_bind_ok, strItem_bind_ok, get_bind_ok, raiseIf_bind_ok,
    modify_eq_ok] at h
  obtain ⟨-, claimId, -, hnew, text, -, scope, -, rfl⟩ := h
  exact ⟨⟨strOf D claimId, strOf D text, strOf D scope, .proposed, [], [], 1⟩,
    by simpa using hnew, rfl, rfl, rfl⟩

theorem queryExecuted_eq_ok (h : queryExecuted D payload g = .ok u g') :
    ∃ (query : Query F) (claim : Claim), g.claims.get query.claimId = some claim ∧
      g.queries.get query.queryId = none ∧
      (query.intent = py "support" ∨ query.intent = py "counterevidence") ∧
      g' = { g with queries := g.queries.set query.queryId query } := by
  simp only [queryExecuted, required_bind_ok, strItem_bind_ok, get_bind_ok, raiseIf_bind_ok,
    modify_eq_ok] at h
  obtain ⟨-, queryId, -, claimId, -, hclaim, hnew, intent, -, hintent, -, text, -, rfl⟩ := h
  obtain ⟨claim, hclaim⟩ := Option.ne_none_iff_exists'.mp (by simpa using hclaim)
  refine ⟨⟨strOf D queryId, strOf D claimId, strOf D text, strOf D intent, _⟩, claim, hclaim, by simpa using hnew, ?_, rfl⟩
  simpa [imp_iff_not_or] using hintent

theorem passageObserved_eq_ok (h : passageObserved D payload g = .ok u g') :
    ∃ (passage : Passage F) (query : Query F), g.queries.get passage.queryId = some query ∧
      g.passages.get passage.passageId = none ∧
      g' = { g with passages := g.passages.set passage.passageId passage } := by
  simp only [passageObserved, required_bind_ok, strItem_bind_ok, get_bind_ok, raiseIf_bind_ok,
    modify_eq_ok] at h
  obtain ⟨-, passageId, -, queryId, -, hquery, hnew, -, -, -, contentHash, -, -, docId, -, rfl⟩ := h
  obtain ⟨query, hquery⟩ := Option.ne_none_iff_exists'.mp (by simpa using hquery)
  exact ⟨⟨strOf D passageId, strOf D docId, strOf D queryId, strOf D contentHash, _, _⟩, query, hquery, by simpa using hnew, rfl⟩

theorem evidenceLinked_eq_ok (h : evidenceLinked D payload g = .ok u g') :
    ∃ (claimValue passageValue value : PyVal F) (edge : EvidenceEdge) (claim : Claim)
      (passage : Passage F) (query : Query F),
      (getItem payload (py "claim_id") = some claimValue ∧ edge.claimId = strOf D claimValue) ∧
      (getItem payload (py "passage_id") = some passageValue ∧
        edge.passageId = strOf D passageValue) ∧
      (getItem payload (py "relation") = some value ∧
        EvidenceRelation.ofValue (strOf D value) = some edge.relation) ∧
      g.claims.get edge.claimId = some claim ∧ g.passages.get edge.passageId = some passage ∧
      g.queries.get passage.queryId = some query ∧ query.claimId = edge.claimId ∧
      (edge.relation = .supports → query.intent = py "support") ∧
      (edge.relation ∈ counterRelations → query.intent = py "counterevidence") ∧
      edge ∉ g.edges ∧ g' = { g with edges := g.edges ++ [edge] } := by
  simp only [evidenceLinked, required_bind_ok, strItem_bind_ok, item_bind_ok, get_bind_ok,
    raiseIf_bind_ok, orRaise_bind_ok, modify_eq_ok] at h
  obtain ⟨-, claimValue, hclaimValue, passageValue, hpassageValue, hclaim, passage, hpassage, query,
    hquery, howner, value, hvalue, relation, hrelation, hsupport, hcounter, hnew, rfl⟩ := h
  obtain ⟨claim, hclaim⟩ := Option.ne_none_iff_exists'.mp (by simpa using hclaim)
  refine ⟨claimValue, passageValue, value, ⟨strOf D claimValue, strOf D passageValue, relation⟩,
    claim, passage, query, ⟨hclaimValue, rfl⟩, ⟨hpassageValue, rfl⟩, ⟨hvalue, hrelation⟩, hclaim,
    hpassage, hquery, by simpa using howner, ?_, ?_, hnew, rfl⟩
  · simpa using hsupport
  · intro hmem
    by_contra hne
    exact hcounter ⟨hmem, hne⟩

theorem claimTransitioned_eq_ok (h : claimTransitioned D payload g = .ok u g') :
    ∃ (claimValue value : PyVal F) (claim : Claim) (target : ClaimState) (f : Claim → Claim),
      getItem payload (py "claim_id") = some claimValue ∧
      (getItem payload (py "to_state") = some value ∧
        ClaimState.ofValue (strOf D value) = some target) ∧
      g.claims.get (strOf D claimValue) = some claim ∧ target ∈ allowedTransitions claim.state ∧
      Justifies g (strOf D claimValue) target ∧ (∀ c, (f c).claimId = c.claimId) ∧
      (∀ c, (f c).state = target) ∧ (∀ c, (f c).version = c.version + 1) ∧
      (target ∈ boundedStates →
        isBlank (((getItem payload (py "boundary")).map (strOf D)).getD []) = false) ∧
      (∀ c, (f c).boundary =
        ((getItem payload (py "boundary")).map (strOf D)).getD c.boundary) ∧
      g' = { g with claims := g.claims.modify (strOf D claimValue) f } := by
  simp only [claimTransitioned, modifyClaim, required_bind_ok, strItem_bind_ok, item_bind_ok,
    get_bind_ok, raiseIf_bind_ok, orRaise_bind_ok, modify_bind_ok, modify_eq_ok] at h
  obtain ⟨-, claimValue, hclaimValue, claim, hclaim, value, hvalue, target, htarget, hallowed,
    hsupported, hchallenged, hsurvived, hsurvivedBoundary, hnarrowed, hnarrowedBoundary, hrefuted,
    reasonValue, -, rfl⟩ := h
  refine ⟨claimValue, value, claim, target, fun c =>
    { c with
      state := target
      reason := strOf D reasonValue
      boundary := ((getItem payload (py "boundary")).map (strOf D)).getD c.boundary
      version := c.version + 1 },
    hclaimValue, ⟨hvalue, htarget⟩, hclaim, by simpa using hallowed, ?_, fun _ => rfl, fun _ => rfl,
    fun _ => rfl, ?_, fun _ => rfl, ?_⟩
  · cases target with
    | supported => simpa [Justifies] using hsupported
    | challenged => simpa [Justifies] using hchallenged
    | survived => simpa [Justifies, not_or] using hsurvived
    | narrowed => simpa [Justifies] using hnarrowed
    | refuted => exact not_not.mp fun hn => hrefuted ⟨rfl, hn⟩
    | _ => trivial
  · intro hbounded
    cases target with
    | survived => simpa using hsurvivedBoundary
    | narrowed => simpa using hnarrowedBoundary
    | _ => simp [boundedStates] at hbounded
  · simp only [Dict.modify_modify]

end Handlers

/-! ## One event -/

/-- The handlers of the table are the five of the class. -/
theorem handler_eq_some {eventType : PyVal F} {run : Payload F → Projection F Unit}
    (h : handler D eventType = some run) :
    (eventType = .str (py "claim.proposed") ∧ run = claimProposed D) ∨
      (eventType = .str (py "query.executed") ∧ run = queryExecuted D) ∨
      (eventType = .str (py "passage.observed") ∧ run = passageObserved D) ∨
      (eventType = .str (py "evidence.linked") ∧ run = evidenceLinked D) ∨
      (eventType = .str (py "claim.transitioned") ∧ run = claimTransitioned D) := by
  unfold handler at h
  split at h
  · rename_i t
    split_ifs at h with h₁ h₂ h₃ h₄ h₅ <;> simp_all
  · cases h

theorem linkOf_eq_none {event : EventEnvelope F} {t : PyStr} (ht : event.eventType = .str t)
    (hne : t ≠ py "evidence.linked") : linkOf D event = none := by
  unfold linkOf
  rw [ht]
  split
  · rename_i heq _
    cases heq
    rw [if_neg hne]
  · rfl

theorem transitionOf_eq_none {event : EventEnvelope F} {t : PyStr} (ht : event.eventType = .str t)
    (hne : t ≠ py "claim.transitioned") : transitionOf D event = none := by
  unfold transitionOf
  rw [ht]
  split
  · rename_i heq _
    cases heq
    rw [if_neg hne]
  · rfl

/-- An event no handler is there for asks for nothing. -/
theorem unhandled {event : EventEnvelope F} (h : handler D event.eventType = none) :
    linkOf D event = none ∧ transitionOf D event = none := by
  unfold linkOf transitionOf
  cases ht : event.eventType with
  | str t =>
    have hlinked : t ≠ py "evidence.linked" := by
      rintro rfl
      rw [ht] at h
      cases h
    have htransitioned : t ≠ py "claim.transitioned" := by
      rintro rfl
      rw [ht] at h
      cases h
    cases event.payload <;> simp [hlinked, htransitioned]
  | _ => exact ⟨rfl, rfl⟩

theorem change_of_handle {event : EventEnvelope F} {g g' : Graph F} {u : Unit}
    (h : handle D event g = .ok u g') : Change D g event g' := by
  unfold handle at h
  cases hh : handler D event.eventType with
  | none =>
    rw [hh] at h
    obtain ⟨_, rfl⟩ := pure_eq_ok.mp h
    exact .ignored (unhandled hh).1 (unhandled hh).2
  | some run =>
    simp only [hh] at h
    cases hpayload : event.payload with
    | dict payload =>
      rw [hpayload] at h
      rcases handler_eq_some hh with ⟨ht, rfl⟩ | ⟨ht, rfl⟩ | ⟨ht, rfl⟩ | ⟨ht, rfl⟩ | ⟨ht, rfl⟩
      · obtain ⟨claim, hnew, hstate, hversion, rfl⟩ := claimProposed_eq_ok h
        exact .proposed claim (linkOf_eq_none ht (by decide)) (transitionOf_eq_none ht (by decide))
          hnew hstate hversion
      · obtain ⟨query, claim, hclaim, hnew, hintent, rfl⟩ := queryExecuted_eq_ok h
        exact .queried query claim (linkOf_eq_none ht (by decide))
          (transitionOf_eq_none ht (by decide)) hclaim hnew hintent
      · obtain ⟨passage, query, hquery, hnew, rfl⟩ := passageObserved_eq_ok h
        exact .observed passage query (linkOf_eq_none ht (by decide))
          (transitionOf_eq_none ht (by decide)) hquery hnew
      · obtain ⟨claimValue, passageValue, value, edge, claim, passage, query, ⟨hc, hc'⟩, ⟨hp, hp'⟩,
          ⟨hv, hv'⟩, hclaim, hpassage, hquery, howner, hsupport, hcounter, hnew, rfl⟩ :=
          evidenceLinked_eq_ok h
        have hlink : linkOf D event = some edge := by
          simp only [linkOf, ht, hpayload, if_true, hc, hp, hv, Option.bind_eq_bind, Option.bind_some,
            hv', ← hc', ← hp']
        exact .linked edge claim passage query hlink (transitionOf_eq_none ht (by decide)) hclaim
          hpassage hquery howner hsupport hcounter hnew
      · obtain ⟨claimValue, value, claim, target, f, hc, ⟨hv, hv'⟩, hclaim, hallowed, hjustified,
          hid, hstate, hversion, _, _, rfl⟩ := claimTransitioned_eq_ok h
        have htransition : transitionOf D event = some (strOf D claimValue, target) := by
          simp only [transitionOf, ht, hpayload, if_true, hc, hv, Option.bind_eq_bind,
            Option.bind_some, hv']
        exact .transitioned _ claim target f (linkOf_eq_none ht (by decide)) htransition hclaim
          hallowed hjustified hid hstate hversion
    | _ =>
      rw [hpayload] at h
      cases h

/-- What an event that was taken in did: nothing, or what its handler did, and its id was put
down. -/
theorem apply_eq_ok {event : EventEnvelope F} {g g' : Graph F} {u : Unit} :
    apply D event g = .ok u g' ↔
      ∃ eventId, asHashable event.eventId = some eventId ∧
        (g.applied event.eventId = true ∧ g' = g ∨
          g.applied event.eventId = false ∧ canHash event.eventType = true ∧
            ∃ g₁, handle D event g = .ok () g₁ ∧ g' = g₁.mark eventId) := by
  unfold apply
  simp only [bind_eq_ok, orRaise_eq_ok, get_apply, EStateM.Result.ok.injEq]
  constructor
  · rintro ⟨eventId, g₀, ⟨hhash, rfl⟩, _, _, ⟨rfl, rfl⟩, h⟩
    refine ⟨eventId, hhash, ?_⟩
    by_cases happ : g₀.applied event.eventId = true
    · rw [if_pos happ] at h
      exact Or.inl ⟨happ, (pure_eq_ok.mp h).2⟩
    · rw [if_neg happ] at h
      simp only [bind_eq_ok, raiseIf_eq_ok, modify_eq_ok, Bool.not_eq_false] at h
      obtain ⟨_, _, ⟨htype, rfl⟩, _, g₁, hg₁, rfl⟩ := h
      exact Or.inr ⟨by simpa using happ, htype, g₁, hg₁, rfl⟩
  · rintro ⟨eventId, hhash, ⟨happ, rfl⟩ | ⟨happ, htype, g₁, hg₁, rfl⟩⟩
    · exact ⟨eventId, _, ⟨hhash, rfl⟩, _, _, ⟨rfl, rfl⟩, by rw [if_pos happ]; rfl⟩
    · refine ⟨eventId, _, ⟨hhash, rfl⟩, _, _, ⟨rfl, rfl⟩, ?_⟩
      rw [if_neg (by simp [happ])]
      simp only [bind_eq_ok, raiseIf_eq_ok, modify_eq_ok, Bool.not_eq_false]
      exact ⟨(), _, ⟨htype, rfl⟩, (), g₁, hg₁, rfl⟩

end DecisionGraphSteps
