import VeriMat.DecisionGraphInvariants

/-! # Surviving claims and their counterevidence

Neither the transition to SURVIVED nor a later link asks for counterevidence against the claim.
A graph has no contradicted survivor exactly when no event took one of these two ways. -/
namespace DecisionGraphSurvival

open PyText JsonText PyValue PyDict PyDisplay Events Transaction DecisionGraph
open DecisionGraphSteps DecisionGraphReplay DecisionGraphInvariants

variable {F : Type} {D : Display}

/-- The relations that refute a claim. -/
def refutingRelations : List EvidenceRelation := [.contradicts, .precedentFor]

/-- The claim has recorded evidence that refutes it. -/
def Countered (g : Graph F) (claimId : PyStr) : Prop :=
  ∃ edge ∈ g.edges, edge.claimId = claimId ∧ edge.relation ∈ refutingRelations

def Survived (g : Graph F) (claimId : PyStr) : Prop :=
  ∃ c, g.claims.get claimId = some c ∧ c.state = .survived

/-- No claim survived against its own recorded counterevidence. -/
def Uncontradicted (g : Graph F) : Prop := ∀ claimId, Survived g claimId → ¬Countered g claimId

variable [PyFloat F]

/-- The event, if it is new, links no refuting evidence to a claim that survived and lets no
claim survive that has some. -/
structure Guarded (D : Display) (g : Graph F) (event : EventEnvelope F) : Prop where
  link : g.applied event.eventId = false → ∀ edge, linkOf D event = some edge →
    edge.relation ∈ refutingRelations → ¬Survived g edge.claimId
  transition : g.applied event.eventId = false → ∀ claimId,
    transitionOf D event = some (claimId, .survived) → ¬Countered g claimId

/-- Every event is guarded in the graph it finds. -/
def GuardedRun (D : Display) : Graph F → List (EventEnvelope F) → Prop
  | _, [] => True
  | g, event :: events =>
    Guarded D g event ∧ ∀ g', apply D event g = .ok () g' → GuardedRun D g' events

omit [PyFloat F] in
/-- A new link makes a survivor contradicted, and nothing else about it. -/
theorem uncontradicted_link {g : Graph F} {edge : EvidenceEdge} :
    Uncontradicted { g with edges := g.edges ++ [edge] } ↔
      Uncontradicted g ∧ (edge.relation ∈ refutingRelations → ¬Survived g edge.claimId) := by
  constructor
  · intro h
    constructor
    · rintro claimId hsurvived ⟨e, he, hid, hrel⟩
      exact h claimId hsurvived ⟨e, List.mem_append_left _ he, hid, hrel⟩
    · intro hrel hsurvived
      exact h edge.claimId hsurvived ⟨edge, by simp, rfl, hrel⟩
  · rintro ⟨hg, hedge⟩ claimId hsurvived ⟨e, he, hid, hrel⟩
    rcases List.mem_append.mp he with he | he
    · exact hg claimId hsurvived ⟨e, he, hid, hrel⟩
    · rw [List.mem_singleton.mp he] at hid hrel
      exact hedge hrel (hid ▸ hsurvived)

omit [PyFloat F] in
/-- A transition changes whether one claim survived; from SURVIVED there is none. -/
theorem uncontradicted_transition {g : Graph F} {id : PyStr} {claim : Claim} {target : ClaimState}
    {f : Claim → Claim} (hclaim : g.claims.get id = some claim)
    (hallowed : target ∈ allowedTransitions claim.state) (hstate : ∀ c, (f c).state = target) :
    Uncontradicted { g with claims := g.claims.modify id f } ↔
      Uncontradicted g ∧ (target = .survived → ¬Countered g id) := by
  have hnot : ¬Survived g id := by
    rintro ⟨c, hc, hs⟩
    rw [hclaim, Option.some.injEq] at hc
    rw [hc, hs] at hallowed
    cases hallowed
  have hself : Survived { g with claims := g.claims.modify id f } id ↔ target = .survived := by
    unfold Survived
    simp only [Dict.get_modify, if_true, hclaim, Option.map_some, Option.some.injEq,
      exists_eq_left', hstate]
  have hother : ∀ claimId, claimId ≠ id →
      (Survived { g with claims := g.claims.modify id f } claimId ↔ Survived g claimId) := by
    intro claimId hne
    unfold Survived
    simp only [Dict.get_modify, if_neg hne]
  constructor
  · intro h
    constructor
    · intro claimId hsurvived
      by_cases hid : claimId = id
      · exact absurd (hid ▸ hsurvived) hnot
      · exact h claimId ((hother claimId hid).mpr hsurvived)
    · exact fun ht => h id (hself.mpr ht)
  · rintro ⟨hg, htarget⟩ claimId hsurvived
    by_cases hid : claimId = id
    · subst hid
      exact htarget (hself.mp hsurvived)
    · exact hg claimId ((hother claimId hid).mp hsurvived)

omit [PyFloat F] in
theorem uncontradicted_proposal {g : Graph F} {claim : Claim}
    (hnew : g.claims.get claim.claimId = none) (hstate : claim.state = .proposed) :
    Uncontradicted { g with claims := g.claims.set claim.claimId claim } ↔ Uncontradicted g := by
  have hsame : ∀ claimId, Survived { g with claims := g.claims.set claim.claimId claim } claimId ↔
      Survived g claimId := by
    intro claimId
    unfold Survived
    simp only [Dict.get_set]
    by_cases hid : claimId = claim.claimId
    · simp [hid, hnew, hstate]
    · simp [hid]
  constructor
  · exact fun h claimId hs => h claimId ((hsame claimId).mpr hs)
  · exact fun h claimId hs => h claimId ((hsame claimId).mp hs)

/-- A new event keeps survivors uncontradicted exactly when it is guarded. -/
theorem uncontradicted_change {event : EventEnvelope F} {g g' : Graph F}
    (happ : g.applied event.eventId = false) (h : Change D g event g') :
    Uncontradicted g' ↔ Uncontradicted g ∧ Guarded D g event := by
  have hguard : Guarded D g event ↔
      (∀ edge, linkOf D event = some edge → edge.relation ∈ refutingRelations →
        ¬Survived g edge.claimId) ∧
      ∀ claimId, transitionOf D event = some (claimId, .survived) → ¬Countered g claimId :=
    ⟨fun h => ⟨h.link happ, h.transition happ⟩, fun h => ⟨fun _ => h.1, fun _ => h.2⟩⟩
  rw [hguard]
  cases h with
  | ignored hlink htransition => simp [hlink, htransition]
  | proposed claim hlink htransition hnew hstate =>
    simp [hlink, htransition, uncontradicted_proposal hnew hstate]
  | queried query claim hlink htransition =>
    simp only [hlink, htransition, reduceCtorEq, false_implies, implies_true, and_true]
    exact Iff.rfl
  | observed passage query hlink htransition =>
    simp only [hlink, htransition, reduceCtorEq, false_implies, implies_true, and_true]
    exact Iff.rfl
  | linked edge claim passage query hlink htransition =>
    simp [hlink, htransition, uncontradicted_link]
  | transitioned id claim target f hlink htransition hclaim hallowed _ _ hstate =>
    rw [uncontradicted_transition hclaim hallowed hstate]
    simp only [hlink, htransition, reduceCtorEq, false_implies, implies_true, true_and,
      Option.some.injEq, Prod.mk.injEq]
    constructor
    · rintro ⟨hg, htarget⟩
      refine ⟨hg, ?_⟩
      rintro claimId ⟨rfl, ht⟩
      exact htarget ht
    · rintro ⟨hg, htarget⟩
      exact ⟨hg, fun ht => htarget id ⟨rfl, ht⟩⟩

theorem uncontradicted_apply {event : EventEnvelope F} {g g' : Graph F} {u : Unit}
    (h : apply D event g = .ok u g') :
    Uncontradicted g' ↔ Uncontradicted g ∧ Guarded D g event := by
  obtain ⟨_, _, ⟨happ, rfl⟩ | ⟨happ, _, g₁, hg₁, rfl⟩⟩ := apply_eq_ok.mp h
  · have hguard : Guarded D g' event :=
      ⟨fun hn => by simp [happ] at hn, fun hn => by simp [happ] at hn⟩
    exact ⟨fun hg => ⟨hg, hguard⟩, And.left⟩
  · have hmark : ∀ id, Uncontradicted (g₁.mark id) ↔ Uncontradicted g₁ := fun _ => Iff.rfl
    rw [hmark]
    exact uncontradicted_change happ (change_of_handle hg₁)

theorem uncontradicted_applyAll {events : List (EventEnvelope F)} :
    ∀ {g g' : Graph F} {u : Unit}, applyAll D events g = .ok u g' →
      (Uncontradicted g' ↔ Uncontradicted g ∧ GuardedRun D g events) := by
  induction events with
  | nil =>
    intro g g' u h
    obtain ⟨_, rfl⟩ := pure_eq_ok.mp h
    simp [GuardedRun]
  | cons event events ih =>
    intro g g' u h
    rw [applyAll_cons] at h
    obtain ⟨_, g₁, h₁, h₂⟩ := bind_eq_ok.mp h
    rw [ih h₂, uncontradicted_apply h₁, and_assoc, GuardedRun]
    simp [h₁]

/-- The claims that survived in a projected graph are uncontradicted exactly when every event
was guarded in the graph it found. -/
theorem survivors_uncontradicted_iff {events : List (EventEnvelope F)} {g : Graph F}
    (h : project D events = .ok g) :
    Uncontradicted g ↔ GuardedRun D emptyGraph events := by
  have hempty : Uncontradicted (emptyGraph : Graph F) := by
    rintro claimId ⟨c, hc, _⟩
    cases hc
  rw [uncontradicted_applyAll (projectFrom_eq_ok.mp h)]
  simp [hempty]

theorem survivors_uncontradicted_iff_refutation :
    ∃ g, project sampleDisplay refutation = .ok g ∧
      (Uncontradicted g ↔ GuardedRun sampleDisplay emptyGraph refutation) := by
  have h : projectsTo sampleDisplay refutation (fun _ => true) = true := by
    decide +kernel
  obtain ⟨g, hg, _⟩ := projectsTo_iff.mp h
  exact ⟨g, hg, survivors_uncontradicted_iff hg⟩

/-- A claim with one passage for it and one against it that is let survive. -/
def contradictedSurvival : List (EventEnvelope NonFinite) :=
  [sampleEvent (py "1") (py "claim.proposed")
      [(py "claim_id", py "c"), (py "text", py "t"), (py "scope", py "s")],
    sampleEvent (py "2") (py "query.executed")
      [(py "query_id", py "q1"), (py "claim_id", py "c"), (py "text", py "t"),
        (py "intent", py "support")],
    sampleEvent (py "3") (py "query.executed")
      [(py "query_id", py "q2"), (py "claim_id", py "c"), (py "text", py "t"),
        (py "intent", py "counterevidence")],
    sampleEvent (py "4") (py "passage.observed")
      [(py "passage_id", py "p1"), (py "doc_id", py "d"), (py "query_id", py "q1"),
        (py "content_sha256", List.replicate 64 48)],
    sampleEvent (py "5") (py "passage.observed")
      [(py "passage_id", py "p2"), (py "doc_id", py "d"), (py "query_id", py "q2"),
        (py "content_sha256", List.replicate 64 48)],
    sampleEvent (py "6") (py "evidence.linked")
      [(py "claim_id", py "c"), (py "passage_id", py "p1"), (py "relation", py "SUPPORTS")],
    sampleEvent (py "7") (py "evidence.linked")
      [(py "claim_id", py "c"), (py "passage_id", py "p2"), (py "relation", py "CONTRADICTS")],
    sampleEvent (py "8") (py "claim.transitioned")
      [(py "claim_id", py "c"), (py "to_state", py "CHALLENGED"), (py "reason", py "r")],
    sampleEvent (py "9") (py "claim.transitioned")
      [(py "claim_id", py "c"), (py "to_state", py "SURVIVED"), (py "reason", py "r"),
        (py "boundary", py "b")]]

/-- The graph accepts it, and finds nothing that stands against its publication. -/
theorem not_survivors_uncontradicted :
    ¬∀ (D : Display) (events : List (EventEnvelope NonFinite)) (g : Graph NonFinite),
      project D events = .ok g → g.validateForPublication = [] → Uncontradicted g := by
  intro hall
  have h : projectsTo sampleDisplay contradictedSurvival (fun g =>
      g.validateForPublication == [] &&
        ((g.claims.get (py "c")).any fun c => c.state == .survived) &&
        g.edges.any fun e => e.claimId == py "c" && e.relation == .contradicts) = true := by
    decide +kernel
  obtain ⟨g, hg, hp⟩ := projectsTo_iff.mp h
  simp only [Bool.and_eq_true, beq_iff_eq, Option.any_eq_true, List.any_eq_true] at hp
  obtain ⟨⟨hpublished, c, hc, hstate⟩, e, he, hid, hrel⟩ := hp
  refine hall sampleDisplay contradictedSurvival g hg hpublished (py "c") ⟨c, hc, hstate⟩ ?_
  exact ⟨e, he, hid, by simp [hrel, refutingRelations]⟩

end DecisionGraphSurvival
