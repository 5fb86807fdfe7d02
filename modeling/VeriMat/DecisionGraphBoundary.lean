import VeriMat.DecisionGraphInvariants

/-! # The boundary of a claim that stands

The gate for SURVIVED and NARROWED tests the text `str` makes of the payload's boundary, so
`null` passes as "None" and an empty list as "[]". A boundary is a string of the payload
exactly in the runs whose accepted transitions bring one. -/
namespace DecisionGraphBoundary

open PyText JsonText PyValue PyDict PyDisplay Events Transaction DecisionGraph
open DecisionGraphSteps DecisionGraphReplay DecisionGraphInvariants

variable {F : Type} [PyFloat F] {D : Display}

/-! ## Transitions of a run -/

/-- The boundary in an event's payload; `none` where there is none. -/
def boundaryOf (event : EventEnvelope F) : Option (PyVal F) :=
  match event.payload with
  | .dict payload => getItem payload (py "boundary")
  | _ => none

/-- The events that moved a claim, repeated events left out. -/
def moves (D : Display) (claimId : PyStr) :
    Graph F → List (EventEnvelope F) → List (EventEnvelope F)
  | _, [] => []
  | g, event :: events =>
    match apply D event g with
    | .ok _ g' =>
      (if g.applied event.eventId ∨ targets D claimId event = [] then [] else [event]) ++
        moves D claimId g' events
    | .error _ _ => []

/-- The boundary of a claim is a text that is not blank, and the event that moved the claim last
gave it as a string. -/
def RealBoundary (moved : List (EventEnvelope F)) (c : Claim) : Prop :=
  isBlank c.boundary = false ∧
    ∃ event, moved.getLast? = some event ∧ boundaryOf event = some (.str c.boundary)

/-- Every claim of the graph that survived or was narrowed has a boundary of that kind. -/
def BoundariesReal (D : Display) (events : List (EventEnvelope F)) (g : Graph F) : Prop :=
  ∀ claimId c, g.claims.get claimId = some c → c.state ∈ boundedStates →
    RealBoundary (moves D claimId emptyGraph events) c

/-- The event moves the claim to a state that needs a boundary. -/
def Bounds (D : Display) (claimId : PyStr) (event : EventEnvelope F) : Prop :=
  ∃ target ∈ boundedStates, transitionOf D event = some (claimId, target)

/-- Every accepted transition to SURVIVED or NARROWED brings its boundary as a string. -/
def StringBoundaries (D : Display) (events : List (EventEnvelope F)) : Prop :=
  ∀ claimId, ∀ event ∈ moves D claimId emptyGraph events, Bounds D claimId event →
    ∃ text, boundaryOf event = some (.str text)

/-! ## One event -/

/-- What a transition to SURVIVED or NARROWED leaves as the boundary. -/
theorem boundary_of_handle {event : EventEnvelope F} {g g' : Graph F} {u : Unit}
    {claimId : PyStr} {target : ClaimState} (h : handle D event g = .ok u g')
    (htransition : transitionOf D event = some (claimId, target)) (ht : target ∈ boundedStates) :
    ∃ value, boundaryOf event = some value ∧ isBlank (strOf D value) = false ∧
      ∀ c, g'.claims.get claimId = some c → c.boundary = strOf D value := by
  have hmoved : ∀ t, event.eventType = .str t → t = py "claim.transitioned" := by
    intro t htype
    by_contra hne
    rw [transitionOf_eq_none htype hne] at htransition
    cases htransition
  unfold handle at h
  cases hh : handler D event.eventType with
  | none =>
    rw [(unhandled hh).2] at htransition
    cases htransition
  | some run =>
    simp only [hh] at h
    cases hpayload : event.payload with
    | dict payload =>
      rw [hpayload] at h
      have hrun : event.eventType = .str (py "claim.transitioned") ∧ run = claimTransitioned D := by
        rcases handler_eq_some hh with ⟨htype, _⟩ | ⟨htype, _⟩ | ⟨htype, _⟩ | ⟨htype, _⟩ | htype
        · exact absurd (hmoved _ htype) (by decide)
        · exact absurd (hmoved _ htype) (by decide)
        · exact absurd (hmoved _ htype) (by decide)
        · exact absurd (hmoved _ htype) (by decide)
        · exact htype
      obtain ⟨htype, rfl⟩ := hrun
      obtain ⟨claimValue, value, claim, target', f, hc, ⟨hv, hv'⟩, hclaim, _, _, _, _, _, hblank,
        hboundary, rfl⟩ := claimTransitioned_eq_ok h
      have hasked : transitionOf D event = some (strOf D claimValue, target') := by
        simp only [transitionOf, htype, hpayload, if_true, hc, hv, Option.bind_eq_bind,
          Option.bind_some, hv']
      rw [htransition, Option.some.injEq, Prod.mk.injEq] at hasked
      obtain ⟨rfl, rfl⟩ := hasked
      have hgiven := hblank ht
      cases hb : getItem payload (py "boundary") with
      | none =>
        rw [hb] at hgiven
        cases hgiven
      | some value =>
        rw [hb] at hgiven hboundary
        refine ⟨value, by rw [boundaryOf, hpayload]; exact hb, hgiven, fun c hget => ?_⟩
        rw [Dict.get_modify, if_pos rfl, hclaim, Option.map_some, Option.some.injEq] at hget
        rw [← hget, hboundary]
        rfl
    | _ =>
      rw [hpayload] at h
      cases h

/-! ## Runs -/

/-- No event of these moved the claim to SURVIVED or NARROWED. -/
def Unbounded (D : Display) (claimId : PyStr) (moved : List (EventEnvelope F)) : Prop :=
  ∀ event ∈ moved, ¬Bounds D claimId event

/-- What a graph tells of the events that moved a claim. Nothing leads out of SURVIVED or
NARROWED, so only the last of them can have led there. -/
structure Moved (D : Display) (g : Graph F) (claimId : PyStr) (moved : List (EventEnvelope F)) :
    Prop where
  bounded : ∀ c, g.claims.get claimId = some c → c.state ∈ boundedStates →
    ∃ before event value, moved = before ++ [event] ∧ Unbounded D claimId before ∧
      Bounds D claimId event ∧ boundaryOf event = some value ∧ c.boundary = strOf D value ∧
      isBlank (strOf D value) = false
  unbounded : ∀ c, g.claims.get claimId = some c → c.state ∉ boundedStates →
    Unbounded D claimId moved
  absent : g.claims.get claimId = none → moved = []

omit [PyFloat F] in
theorem boundedStates_terminal {state target : ClaimState} (h : state ∈ boundedStates) :
    target ∉ allowedTransitions state := by
  simp only [boundedStates, List.mem_cons, List.not_mem_nil, or_false] at h
  rcases h with rfl | rfl <;> simp [allowedTransitions]

/-- Where the claim stays as it is, so does what is known of it. -/
theorem Moved.same {g g' : Graph F} {claimId : PyStr} {moved : List (EventEnvelope F)}
    (h : Moved D g claimId moved) (hsame : g'.claims.get claimId = g.claims.get claimId) :
    Moved D g' claimId moved :=
  ⟨hsame ▸ h.bounded, hsame ▸ h.unbounded, hsame ▸ h.absent⟩

theorem Moved.handle {event : EventEnvelope F} {g g' : Graph F} {u : Unit} {claimId : PyStr}
    {moved : List (EventEnvelope F)} (hm : Moved D g claimId moved)
    (h : handle D event g = .ok u g') :
    Moved D g' claimId (moved ++ if targets D claimId event = [] then [] else [event]) := by
  have hkeep : transitionOf D event = none → g'.claims.get claimId = g.claims.get claimId →
      Moved D g' claimId (moved ++ if targets D claimId event = [] then [] else [event]) := by
    intro htransition hsame
    rw [targets_of_none htransition, if_pos rfl, List.append_nil]
    exact hm.same hsame
  cases change_of_handle h with
  | ignored _ htransition => exact hkeep htransition rfl
  | queried _ _ _ htransition => exact hkeep htransition rfl
  | observed _ _ _ htransition => exact hkeep htransition rfl
  | linked _ _ _ _ _ htransition => exact hkeep htransition rfl
  | proposed claim _ htransition hnew hstate =>
    by_cases hid : claimId = claim.claimId
    · have hempty : moved = [] := hm.absent (hid ▸ hnew)
      rw [targets_of_none htransition, if_pos rfl, List.append_nil, hempty]
      have hget : (g.claims.set claim.claimId claim).get claimId = some claim := by
        rw [Dict.get_set, if_pos hid]
      refine ⟨fun c hc hbounded => ?_, fun _ _ _ event he => ?_, fun _ => rfl⟩
      · rw [hget, Option.some.injEq] at hc
        rw [← hc, hstate] at hbounded
        simp [boundedStates] at hbounded
      · cases he
    · refine hkeep htransition ?_
      rw [Dict.get_set, if_neg hid]
  | transitioned id claim target f _ htransition hclaim hallowed _ _ hstate =>
    by_cases hid : id = claimId
    · subst hid
      have htargets : targets D id event ≠ [] := by simp [targets_of_some htransition]
      rw [if_neg htargets]
      have hopen : claim.state ∉ boundedStates := fun hb => boundedStates_terminal hb hallowed
      have hbefore : Unbounded D id moved := hm.unbounded claim hclaim hopen
      have hget : (g.claims.modify id f).get id = some (f claim) := by
        rw [Dict.get_modify, if_pos rfl, hclaim, Option.map_some]
      refine ⟨fun c hc hbounded => ?_, fun c hc hunbounded => ?_, fun hnone => ?_⟩
      · rw [hget, Option.some.injEq] at hc
        rw [← hc, hstate] at hbounded
        obtain ⟨value, hvalue, hblank, hboundary⟩ := boundary_of_handle h htransition hbounded
        exact ⟨moved, event, value, rfl, hbefore, ⟨target, hbounded, htransition⟩, hvalue,
          hboundary c (hc ▸ hget), hblank⟩
      · rw [hget, Option.some.injEq] at hc
        rw [← hc, hstate] at hunbounded
        intro e he
        rcases List.mem_append.mp he with he | he
        · exact hbefore e he
        · rw [List.mem_singleton.mp he]
          rintro ⟨target', ht', hasked⟩
          rw [htransition, Option.some.injEq, Prod.mk.injEq] at hasked
          exact hunbounded (hasked.2 ▸ ht')
      · rw [hget] at hnone
        cases hnone
    · rw [targets_of_some htransition, if_neg hid, if_pos rfl, List.append_nil]
      refine hm.same ?_
      rw [Dict.get_modify, if_neg (Ne.symm hid)]

theorem Moved.apply {event : EventEnvelope F} {g g' : Graph F} {u : Unit} {claimId : PyStr}
    {moved : List (EventEnvelope F)} (hm : Moved D g claimId moved)
    (h : apply D event g = .ok u g') :
    Moved D g' claimId (moved ++
      if g.applied event.eventId ∨ targets D claimId event = [] then [] else [event]) := by
  obtain ⟨_, _, ⟨happ, rfl⟩ | ⟨happ, _, g₁, hg₁, rfl⟩⟩ := apply_eq_ok.mp h
  · rw [if_pos (Or.inl happ), List.append_nil]
    exact hm
  · simp only [happ, Bool.false_eq_true, false_or]
    exact (hm.handle hg₁).same rfl

theorem moved_applyAll {claimId : PyStr} {events : List (EventEnvelope F)} :
    ∀ {g g' : Graph F} {u : Unit} {moved : List (EventEnvelope F)},
      applyAll D events g = .ok u g' → Moved D g claimId moved →
        Moved D g' claimId (moved ++ moves D claimId g events) := by
  induction events with
  | nil =>
    intro g g' u moved h hm
    obtain ⟨_, rfl⟩ := pure_eq_ok.mp h
    rw [moves, List.append_nil]
    exact hm
  | cons event events ih =>
    intro g g' u moved h hm
    rw [applyAll_cons] at h
    obtain ⟨_, g₁, h₁, h₂⟩ := bind_eq_ok.mp h
    have hlast := ih h₂ (hm.apply h₁)
    simp only [moves, h₁]
    rwa [← List.append_assoc]

theorem moved_project {events : List (EventEnvelope F)} {g : Graph F}
    (h : project D events = .ok g) (claimId : PyStr) :
    Moved D g claimId (moves D claimId emptyGraph events) := by
  have hempty : Moved D (emptyGraph : Graph F) claimId [] := by
    refine ⟨fun c hc => ?_, fun c hc => ?_, fun _ => rfl⟩
    · cases hc
    · cases hc
  exact moved_applyAll (projectFrom_eq_ok.mp h) hempty

/-- The boundaries of a projected graph are strings that were given as such exactly when every
accepted transition to SURVIVED or NARROWED brought a string. -/
theorem boundaries_real_iff {events : List (EventEnvelope F)} {g : Graph F}
    (h : project D events = .ok g) : BoundariesReal D events g ↔ StringBoundaries D events := by
  constructor
  · intro hreal claimId event hmem hbounds
    have hm := moved_project h claimId
    cases hc : g.claims.get claimId with
    | none =>
      rw [hm.absent hc] at hmem
      cases hmem
    | some c =>
      by_cases hstate : c.state ∈ boundedStates
      · obtain ⟨before, last, _, hmoved, hbefore, _⟩ := hm.bounded c hc hstate
        obtain ⟨_, last', hlast', hboundary⟩ := hreal claimId c hc hstate
        rw [hmoved, List.getLast?_append, List.getLast?_singleton, Option.some_or,
          Option.some.injEq] at hlast'
        rw [hmoved] at hmem
        rcases List.mem_append.mp hmem with he | he
        · exact absurd hbounds (hbefore event he)
        · rw [List.mem_singleton.mp he, hlast']
          exact ⟨c.boundary, hboundary⟩
      · exact absurd hbounds (hm.unbounded c hc hstate event hmem)
  · intro hstrings claimId c hc hstate
    obtain ⟨before, last, value, hmoved, _, hbounds, hvalue, hboundary, hblank⟩ :=
      (moved_project h claimId).bounded c hc hstate
    obtain ⟨text, htext⟩ := hstrings claimId last (by simp [hmoved]) hbounds
    rw [hvalue, Option.some.injEq] at htext
    rw [htext, strOf_str] at hboundary hblank
    refine ⟨hboundary ▸ hblank, last, by simp [hmoved], ?_⟩
    rw [hvalue, htext, hboundary]

/-- A claim that survives with this boundary. -/
def survivalWith (boundary : PyVal NonFinite) : List (EventEnvelope NonFinite) :=
  [sampleEvent (py "1") (py "claim.proposed")
      [(py "claim_id", py "c"), (py "text", py "t"), (py "scope", py "s")],
    sampleEvent (py "2") (py "query.executed")
      [(py "query_id", py "q1"), (py "claim_id", py "c"), (py "text", py "t"),
        (py "intent", py "support")],
    sampleEvent (py "3") (py "query.executed")
      [(py "query_id", py "q2"), (py "claim_id", py "c"), (py "text", py "t"),
        (py "intent", py "counterevidence")],
    sampleEvent (py "4") (py "passage.observed")
      [(py "passage_id", py "p1"), (py "doc_id", py "d"), (py "query_id", py "q1"),
        (py "content_sha256", List.replicate 64 48)],
    sampleEvent (py "5") (py "evidence.linked")
      [(py "claim_id", py "c"), (py "passage_id", py "p1"), (py "relation", py "SUPPORTS")],
    sampleEvent (py "6") (py "claim.transitioned")
      [(py "claim_id", py "c"), (py "to_state", py "CHALLENGED"), (py "reason", py "r")],
    { sampleEvent (py "7") (py "claim.transitioned") [] with
      payload := .dict [(.str (py "claim_id"), .str (py "c")),
        (.str (py "to_state"), .str (py "SURVIVED")), (.str (py "reason"), .str (py "r")),
        (.str (py "boundary"), boundary)] }]

theorem boundaries_real_iff_survival :
    ∃ g, project sampleDisplay (survivalWith (.str (py "b"))) = .ok g ∧
      (BoundariesReal sampleDisplay (survivalWith (.str (py "b"))) g ↔
        StringBoundaries sampleDisplay (survivalWith (.str (py "b")))) := by
  have h : projectsTo sampleDisplay (survivalWith (.str (py "b"))) (fun _ => true) = true := by
    decide +kernel
  obtain ⟨g, hg, _⟩ := projectsTo_iff.mp h
  exact ⟨g, hg, boundaries_real_iff hg⟩

/-- The events that moved a claim are events of the run. -/
theorem moves_subset {claimId : PyStr} {events : List (EventEnvelope F)} :
    ∀ {g : Graph F}, ∀ event ∈ moves D claimId g events, event ∈ events := by
  induction events with
  | nil =>
    intro g event he
    cases he
  | cons first events ih =>
    intro g event he
    unfold moves at he
    split at he
    · rcases List.mem_append.mp he with he | he
      · split_ifs at he with hskip
        · cases he
        · rw [List.mem_singleton.mp he]
          exact List.mem_cons_self
      · exact List.mem_cons_of_mem _ (ih event he)
    · cases he

def textBoundary (event : EventEnvelope F) : Bool :=
  match boundaryOf event with
  | some (.str _) => true
  | _ => false

/-- A boundary `null` becomes the text "None", and nothing stands against its publication. -/
theorem not_boundaries_real :
    ¬∀ (D : Display) (events : List (EventEnvelope NonFinite)) (g : Graph NonFinite),
      project D events = .ok g → g.validateForPublication = [] → BoundariesReal D events g := by
  intro hall
  have h : projectsTo sampleDisplay (survivalWith .none) (fun g =>
      g.validateForPublication == [] &&
        (g.claims.get (py "c")).any fun c => c.state == .survived && c.boundary == py "None")
      = true := by
    decide +kernel
  obtain ⟨g, hg, hp⟩ := projectsTo_iff.mp h
  simp only [Bool.and_eq_true, beq_iff_eq, Option.any_eq_true] at hp
  obtain ⟨hpublished, c, hc, hstate, _⟩ := hp
  obtain ⟨_, event, hlast, hboundary⟩ :=
    hall sampleDisplay (survivalWith .none) g hg hpublished (py "c") c hc
      (by simp [hstate, boundedStates])
  have hgiven : ((survivalWith .none).all fun e => !textBoundary e) = true := by
    decide +kernel
  have hmem := moves_subset event (List.mem_of_getLast? hlast)
  have hnone := List.all_eq_true.mp hgiven event hmem
  rw [textBoundary, hboundary] at hnone
  cases hnone

end DecisionGraphBoundary
