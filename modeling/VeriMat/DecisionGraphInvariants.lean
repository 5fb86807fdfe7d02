import VeriMat.DecisionGraphReplay

/-! # What every projected graph satisfies

References resolve, evidence comes from queries of the right intent, and the state of a claim
is the end of a path of allowed transitions each of which the graph still justifies. The path
is read off the events. -/
namespace DecisionGraphInvariants

open PyText JsonText PyValue PyDict PyDisplay Events Transaction DecisionGraph
open DecisionGraphSteps DecisionGraphReplay

variable {F : Type} [PyFloat F] {D : Display}

/-! ## Growth -/

/-- Nothing is taken out of a graph, and only claims are changed in place. -/
structure Extends (g g' : Graph F) : Prop where
  claims : ∀ id c, g.claims.get id = some c → ∃ c', g'.claims.get id = some c'
  queries : ∀ id q, g.queries.get id = some q → g'.queries.get id = some q
  passages : ∀ id p, g.passages.get id = some p → g'.passages.get id = some p
  edges : ∀ e ∈ g.edges, e ∈ g'.edges

omit [PyFloat F] in
theorem Extends.refl (g : Graph F) : Extends g g :=
  ⟨fun _ c h => ⟨c, h⟩, fun _ _ h => h, fun _ _ h => h, fun _ h => h⟩

theorem change_extends {event : EventEnvelope F} {g g' : Graph F} (h : Change D g event g') :
    Extends g g' := by
  cases h with
  | ignored => exact Extends.refl g
  | proposed claim _ _ hnew =>
    refine ⟨fun id c hc => ⟨c, Dict.get_set_of_get hnew hc⟩, fun _ _ h => h, fun _ _ h => h,
      fun _ h => h⟩
  | queried query claim _ _ _ hnew =>
    exact ⟨fun _ c h => ⟨c, h⟩, fun id q hq => Dict.get_set_of_get hnew hq, fun _ _ h => h,
      fun _ h => h⟩
  | observed passage query _ _ _ hnew =>
    exact ⟨fun _ c h => ⟨c, h⟩, fun _ _ h => h, fun id p hp => Dict.get_set_of_get hnew hp,
      fun _ h => h⟩
  | linked edge =>
    exact ⟨fun _ c h => ⟨c, h⟩, fun _ _ h => h, fun _ _ h => h,
      fun e he => List.mem_append_left _ he⟩
  | transitioned claimId claim target f =>
    refine ⟨fun id c hc => ?_, fun _ _ h => h, fun _ _ h => h, fun _ h => h⟩
    simp only [Dict.get_modify]
    by_cases hid : id = claimId
    · rw [if_pos hid, ← hid, hc]
      exact ⟨f c, rfl⟩
    · rw [if_neg hid]
      exact ⟨c, hc⟩

omit [PyFloat F] in
theorem Extends.hasRelation {g g' : Graph F} (h : Extends g g') {claimId : PyStr}
    {relation : EvidenceRelation} (hr : g.hasRelation claimId relation) :
    g'.hasRelation claimId relation := by
  obtain ⟨e, he, hid, hrel⟩ := hr
  exact ⟨e, h.edges e he, hid, hrel⟩

omit [PyFloat F] in
theorem Extends.hasCounterQuery {g g' : Graph F} (h : Extends g g') {claimId : PyStr}
    (hq : g.hasCounterQuery claimId) : g'.hasCounterQuery claimId := by
  obtain ⟨q, hmem, hid, hintent⟩ := hq
  obtain ⟨key, hkey⟩ := Dict.mem_values.mp hmem
  exact ⟨q, Dict.mem_values.mpr ⟨key, h.queries key q hkey⟩, hid, hintent⟩

omit [PyFloat F] in
theorem Extends.justifies {g g' : Graph F} (h : Extends g g') {claimId : PyStr}
    {state : ClaimState} (hj : Justifies g claimId state) : Justifies g' claimId state := by
  cases state with
  | supported => exact h.hasRelation hj
  | challenged => exact h.hasCounterQuery hj
  | survived => exact ⟨h.hasRelation hj.1, h.hasCounterQuery hj.2⟩
  | narrowed => exact h.hasRelation hj
  | refuted => exact hj.imp h.hasRelation h.hasRelation
  | proposed => trivial
  | unresolved => trivial

/-! ## References -/

/-- The claim of a query is there, and its intent is one of the two. -/
def QuerySound (g : Graph F) (q : Query F) : Prop :=
  (∃ c, g.claims.get q.claimId = some c) ∧
    (q.intent = py "support" ∨ q.intent = py "counterevidence")

/-- The query of a passage is there. -/
def PassageSound (g : Graph F) (p : Passage F) : Prop := ∃ q, g.queries.get p.queryId = some q

/-- The claim and the passage of an edge are there, and the passage was found by a query of
that claim with the intent the relation needs. -/
def EdgeSound (g : Graph F) (e : EvidenceEdge) : Prop :=
  (∃ c, g.claims.get e.claimId = some c) ∧
    ∃ p q, g.passages.get e.passageId = some p ∧ g.queries.get p.queryId = some q ∧
      q.claimId = e.claimId ∧ (e.relation = .supports → q.intent = py "support") ∧
      (e.relation ∈ counterRelations → q.intent = py "counterevidence")

structure Linked (g : Graph F) : Prop where
  claims : ∀ id c, g.claims.get id = some c → c.claimId = id
  queries : ∀ id q, g.queries.get id = some q → q.queryId = id ∧ QuerySound g q
  passages : ∀ id p, g.passages.get id = some p → p.passageId = id ∧ PassageSound g p
  edges : ∀ e ∈ g.edges, EdgeSound g e
  distinct : g.edges.Nodup

omit [PyFloat F] in
theorem Extends.querySound {g g' : Graph F} (h : Extends g g') {q : Query F}
    (hq : QuerySound g q) : QuerySound g' q := by
  obtain ⟨⟨c, hc⟩, hintent⟩ := hq
  exact ⟨h.claims _ c hc, hintent⟩

omit [PyFloat F] in
theorem Extends.passageSound {g g' : Graph F} (h : Extends g g') {p : Passage F}
    (hp : PassageSound g p) : PassageSound g' p := by
  obtain ⟨q, hq⟩ := hp
  exact ⟨q, h.queries _ q hq⟩

omit [PyFloat F] in
theorem Extends.edgeSound {g g' : Graph F} (h : Extends g g') {e : EvidenceEdge}
    (he : EdgeSound g e) : EdgeSound g' e := by
  obtain ⟨⟨c, hc⟩, p, q, hp, hq, hrest⟩ := he
  exact ⟨h.claims _ c hc, p, q, h.passages _ p hp, h.queries _ q hq, hrest⟩

omit [PyFloat F] in
theorem linked_empty : Linked (emptyGraph : Graph F) := by
  constructor
  · intro id c h
    cases h
  · intro id q h
    cases h
  · intro id p h
    cases h
  · intro e he
    cases he
  · exact List.nodup_nil

/-- What changes in one of the four collections keeps the others, and what it adds is sound. -/
theorem Linked.change {event : EventEnvelope F} {g g' : Graph F} (hg : Linked g)
    (h : Change D g event g') : Linked g' := by
  have hext := change_extends h
  cases h with
  | ignored => exact hg
  | proposed claim _ _ hnew =>
    refine ⟨fun id c hc => ?_, fun id q hq => ?_, fun id p hp => ?_,
      fun e he => hext.edgeSound (hg.edges e he), hg.distinct⟩
    · rw [Dict.get_set] at hc
      by_cases hid : id = claim.claimId
      · rw [if_pos hid, Option.some.injEq] at hc
        rw [← hc, hid]
      · rw [if_neg hid] at hc
        exact hg.claims id c hc
    · exact (hg.queries id q hq).imp_right hext.querySound
    · exact hg.passages id p hp
  | queried query claim _ _ hclaim hnew hintent =>
    refine ⟨hg.claims, fun id q hq => ?_, fun id p hp => ?_,
      fun e he => hext.edgeSound (hg.edges e he), hg.distinct⟩
    · rw [Dict.get_set] at hq
      by_cases hid : id = query.queryId
      · rw [if_pos hid, Option.some.injEq] at hq
        rw [← hq]
        exact ⟨hid.symm, ⟨claim, hclaim⟩, hintent⟩
      · rw [if_neg hid] at hq
        exact hg.queries id q hq
    · exact (hg.passages id p hp).imp_right hext.passageSound
  | observed passage query _ _ hquery hnew =>
    refine ⟨hg.claims, hg.queries, fun id p hp => ?_,
      fun e he => hext.edgeSound (hg.edges e he), hg.distinct⟩
    rw [Dict.get_set] at hp
    by_cases hid : id = passage.passageId
    · rw [if_pos hid, Option.some.injEq] at hp
      rw [← hp]
      exact ⟨hid.symm, query, hquery⟩
    · rw [if_neg hid] at hp
      exact hg.passages id p hp
  | linked edge claim passage query _ _ hclaim hpassage hquery howner hsupport hcounter hnew =>
    refine ⟨hg.claims, hg.queries, hg.passages, fun e he => ?_, ?_⟩
    · rcases List.mem_append.mp he with he | he
      · exact hext.edgeSound (hg.edges e he)
      · rw [List.mem_singleton.mp he]
        exact ⟨⟨claim, hclaim⟩, passage, query, hpassage, hquery, howner, hsupport, hcounter⟩
    · refine List.nodup_append.mpr ⟨hg.distinct, List.nodup_singleton edge, fun a ha b hb => ?_⟩
      rw [List.mem_singleton.mp hb]
      rintro rfl
      exact hnew ha
  | transitioned claimId claim target f _ _ hclaim _ _ hid' =>
    refine ⟨fun id c hc => ?_, fun id q hq => ?_, hg.passages,
      fun e he => hext.edgeSound (hg.edges e he), hg.distinct⟩
    · rw [Dict.get_modify] at hc
      by_cases hid : id = claimId
      · rw [if_pos hid, hclaim, Option.map_some, Option.some.injEq] at hc
        rw [← hc, hid', hid]
        exact hg.claims claimId claim hclaim
      · rw [if_neg hid] at hc
        exact hg.claims id c hc
    · exact (hg.queries id q hq).imp_right hext.querySound

/-! ## Histories -/

/-- The states an event moves this claim to. -/
def targets (D : Display) (claimId : PyStr) (event : EventEnvelope F) : List ClaimState :=
  match transitionOf D event with
  | some (id, target) => if id = claimId then [target] else []
  | none => []

/-- The transitions of a claim in the events a graph took in, repeated events left out. -/
def transitions (D : Display) (claimId : PyStr) :
    Graph F → List (EventEnvelope F) → List ClaimState
  | _, [] => []
  | g, event :: events =>
    match apply D event g with
    | .ok _ g' =>
      (if g.applied event.eventId then [] else targets D claimId event) ++
        transitions D claimId g' events
    | .error _ _ => []

/-- These transitions, all of them allowed, lead from PROPOSED to the state. -/
inductive Path : List ClaimState → ClaimState → Prop where
  | start : Path [] .proposed
  | step {history : List ClaimState} {state target : ClaimState} : Path history state →
      target ∈ allowedTransitions state → Path (history ++ [target]) target

/-- A claim is where its transitions led it, and the graph justifies every one of them. -/
structure History (g : Graph F) (history : List ClaimState) (c : Claim) : Prop where
  path : Path history c.state
  version : c.version = 1 + history.length
  justified : ∀ state ∈ history, Justifies g c.claimId state

/-- The histories of a graph: a claim that is not there yet has none. -/
structure Tracked (g : Graph F) (claimId : PyStr) (history : List ClaimState) : Prop where
  present : ∀ c, g.claims.get claimId = some c → History g history c
  absent : g.claims.get claimId = none → history = []

theorem targets_of_none {event : EventEnvelope F} (h : transitionOf D event = none)
    (claimId : PyStr) : targets D claimId event = [] := by
  rw [targets, h]

theorem targets_of_some {event : EventEnvelope F} {id claimId : PyStr} {target : ClaimState}
    (h : transitionOf D event = some (id, target)) :
    targets D claimId event = if id = claimId then [target] else [] := by
  rw [targets, h]

omit [PyFloat F] in
theorem History.extends {g g' : Graph F} {history : List ClaimState} {c : Claim}
    (h : History g history c) (hext : Extends g g') : History g' history c :=
  ⟨h.path, h.version, fun state hs => hext.justifies (h.justified state hs)⟩

omit [PyFloat F] in
/-- Where the claims stay as they are, so do their histories. -/
theorem Tracked.extends {g g' : Graph F} {claimId : PyStr} {history : List ClaimState}
    (h : Tracked g claimId history) (hext : Extends g g')
    (hclaims : g'.claims.get claimId = g.claims.get claimId) : Tracked g' claimId history :=
  ⟨fun c hc => (h.present c (hclaims ▸ hc)).extends hext, fun hn => h.absent (hclaims ▸ hn)⟩

theorem Tracked.change {event : EventEnvelope F} {g g' : Graph F} {claimId : PyStr}
    {history : List ClaimState} (hg : Linked g) (ht : Tracked g claimId history)
    (h : Change D g event g') : Tracked g' claimId (history ++ targets D claimId event) := by
  have hext := change_extends h
  cases h with
  | ignored _ htransition =>
    rw [targets_of_none htransition, List.append_nil]
    exact ht
  | queried _ _ _ htransition =>
    rw [targets_of_none htransition, List.append_nil]
    exact ht.extends hext rfl
  | observed _ _ _ htransition =>
    rw [targets_of_none htransition, List.append_nil]
    exact ht.extends hext rfl
  | linked _ _ _ _ _ htransition =>
    rw [targets_of_none htransition, List.append_nil]
    exact ht.extends hext rfl
  | proposed claim _ htransition hnew hstate hversion =>
    rw [targets_of_none htransition, List.append_nil]
    by_cases hid : claimId = claim.claimId
    · have hempty : history = [] := ht.absent (hid ▸ hnew)
      subst hempty
      constructor
      · intro c hc
        rw [Dict.get_set, if_pos hid, Option.some.injEq] at hc
        rw [← hc]
        exact ⟨hstate ▸ .start, hversion, by simp⟩
      · exact fun _ => rfl
    · refine ht.extends hext ?_
      rw [Dict.get_set, if_neg hid]
  | transitioned id claim target f _ htransition hclaim hallowed hjustified hid' hstate hversion =>
    rw [targets_of_some htransition]
    by_cases hid : id = claimId
    · subst hid
      rw [if_pos rfl]
      have hhistory := ht.present claim hclaim
      have hclaimId : claim.claimId = id := hg.claims id claim hclaim
      constructor
      · intro c hc
        rw [Dict.get_modify, if_pos rfl, hclaim, Option.map_some, Option.some.injEq] at hc
        rw [← hc]
        refine ⟨?_, ?_, fun state hs => ?_⟩
        · rw [hstate]
          exact hhistory.path.step hallowed
        · rw [hversion, hhistory.version, List.length_append, List.length_singleton, Nat.add_assoc]
        · rw [hid']
          rcases List.mem_append.mp hs with hs | hs
          · exact hext.justifies (hhistory.justified state hs)
          · rw [List.mem_singleton.mp hs, hclaimId]
            exact hext.justifies hjustified
      · intro hnone
        rw [Dict.get_modify, if_pos rfl, hclaim] at hnone
        cases hnone
    · rw [if_neg hid, List.append_nil]
      refine ht.extends hext ?_
      rw [Dict.get_modify, if_neg (Ne.symm hid)]

/-! ## Runs -/

/-- One event, as a step that both invariants survive. -/
theorem apply_keeps {event : EventEnvelope F} {g g' : Graph F} {u : Unit}
    (h : apply D event g = .ok u g') (hg : Linked g) :
    Linked g' ∧ ∀ claimId history, Tracked g claimId history →
      Tracked g' claimId
        (history ++ if g.applied event.eventId then [] else targets D claimId event) := by
  obtain ⟨_, _, ⟨happ, rfl⟩ | ⟨happ, _, g₁, hg₁, rfl⟩⟩ := apply_eq_ok.mp h
  · refine ⟨hg, fun claimId history ht => ?_⟩
    rw [if_pos happ, List.append_nil]
    exact ht
  · have hchange := change_of_handle hg₁
    have hlinked := hg.change hchange
    refine ⟨⟨hlinked.claims, hlinked.queries, hlinked.passages, hlinked.edges, hlinked.distinct⟩,
      fun claimId history ht => ?_⟩
    rw [if_neg (by simp [happ])]
    have htracked := ht.change hg hchange
    exact ⟨fun c hc => ⟨(htracked.present c hc).path, (htracked.present c hc).version,
      (htracked.present c hc).justified⟩, htracked.absent⟩

theorem applyAll_keeps_invariant {events : List (EventEnvelope F)} :
    ∀ {g g' : Graph F} {u : Unit}, applyAll D events g = .ok u g' → Linked g →
      Linked g' ∧ ∀ claimId history, Tracked g claimId history →
        Tracked g' claimId (history ++ transitions D claimId g events) := by
  induction events with
  | nil =>
    intro g g' u h hg
    obtain ⟨_, rfl⟩ := pure_eq_ok.mp h
    refine ⟨hg, fun claimId history ht => ?_⟩
    rw [transitions, List.append_nil]
    exact ht
  | cons event events ih =>
    intro g g' u h hg
    rw [applyAll_cons] at h
    obtain ⟨_, g₁, h₁, h₂⟩ := bind_eq_ok.mp h
    obtain ⟨hlinked, htracked⟩ := apply_keeps h₁ hg
    obtain ⟨hlinked', htracked'⟩ := ih h₂ hlinked
    refine ⟨hlinked', fun claimId history ht => ?_⟩
    have hlast := htracked' claimId _ (htracked claimId history ht)
    simp only [transitions, h₁]
    rwa [← List.append_assoc]

/-! ## Terminal states -/

theorem Path.mem {history : List ClaimState} {state : ClaimState} (h : Path history state) :
    state = .proposed ∨ state ∈ history := by
  cases h with
  | start => exact Or.inl rfl
  | step _ _ => exact Or.inr (by simp)

/-- Only a challenged claim survives, is narrowed or is refuted. -/
theorem Path.challenged {history : List ClaimState} {state : ClaimState} (h : Path history state)
    {target : ClaimState} (ht : target ∈ history)
    (hterminal : target ∈ [ClaimState.survived, .narrowed, .refuted]) :
    ClaimState.challenged ∈ history := by
  induction h with
  | start => cases ht
  | @step history state last hpath hallowed ih =>
    rcases List.mem_append.mp ht with ht | ht
    · exact List.mem_append_left _ (ih ht)
    · rw [List.mem_singleton.mp ht] at hterminal
      have hstate : state = .challenged := by
        simp only [List.mem_cons, List.not_mem_nil, or_false] at hterminal
        rcases hterminal with rfl | rfl | rfl <;> cases state <;>
          first | rfl | simp [allowedTransitions] at hallowed
      rcases hpath.mem with hproposed | hmem
      · rw [hstate] at hproposed
        cases hproposed
      · exact List.mem_append_left _ (hstate ▸ hmem)

/-- What the history of a claim says about the graph. -/
structure Evidenced (g : Graph F) (history : List ClaimState) (c : Claim) : Prop where
  path : Path history c.state
  version : c.version = 1 + history.length
  supported : .supported ∈ history → g.hasRelation c.claimId .supports
  challenged : ∀ state ∈ history, state ∈ [ClaimState.challenged, .survived, .narrowed, .refuted] →
    g.hasCounterQuery c.claimId
  survived : .survived ∈ history → g.hasRelation c.claimId .supports
  narrowed : .narrowed ∈ history → g.hasRelation c.claimId .bounds
  refuted : .refuted ∈ history →
    g.hasRelation c.claimId .contradicts ∨ g.hasRelation c.claimId .precedentFor

omit [PyFloat F] in
theorem History.evidenced {g : Graph F} {history : List ClaimState} {c : Claim}
    (h : History g history c) : Evidenced g history c := by
  refine ⟨h.path, h.version, h.justified .supported, fun state hs hlate => ?_,
    fun hs => (h.justified .survived hs).1, h.justified .narrowed, h.justified .refuted⟩
  rcases List.mem_cons.mp hlate with rfl | hterminal
  · exact h.justified .challenged hs
  · exact h.justified .challenged (h.path.challenged hs hterminal)

/-- Every graph that is projected from a sequence of accepted events: its references resolve,
and the state of every claim is where its transitions led it, with the evidence they need. -/
theorem projected_graph {events : List (EventEnvelope F)} {g : Graph F}
    (h : project D events = .ok g) :
    Linked g ∧ ∀ claimId c, g.claims.get claimId = some c →
      c.claimId = claimId ∧ Evidenced g (transitions D claimId emptyGraph events) c := by
  have hrun : applyAll D events emptyGraph = .ok () g := projectFrom_eq_ok.mp h
  obtain ⟨hlinked, htracked⟩ := applyAll_keeps_invariant hrun linked_empty
  refine ⟨hlinked, fun claimId c hc => ⟨hlinked.claims claimId c hc, ?_⟩⟩
  have hempty : Tracked (emptyGraph : Graph F) claimId [] := by
    constructor
    · intro c hc
      cases hc
    · exact fun _ => rfl
  exact ((htracked claimId [] hempty).present c hc).evidenced

/-! ## A projected graph -/

/-- The projection succeeds with a graph that has this property. -/
def projectsTo (D : Display) (events : List (EventEnvelope F)) (p : Graph F → Bool) : Bool :=
  match project D events with
  | .ok g => p g
  | .error _ => false

theorem projectsTo_iff {events : List (EventEnvelope F)} {p : Graph F → Bool} :
    projectsTo D events p = true ↔ ∃ g, project D events = .ok g ∧ p g = true := by
  unfold projectsTo
  cases project D events with
  | error e => simp
  | ok g => simp

/-- An interpreter that prints every character. -/
def sampleDisplay : Display := ⟨fun _ => true, []⟩

/-- An event under this id, with a payload of texts and a locator. -/
def sampleEvent (eventId eventType : PyStr) (payload : List (PyStr × PyStr)) :
    EventEnvelope NonFinite where
  schemaVersion := .int 1
  sequence := .int 1
  eventId := .str eventId
  occurredAt := .str []
  tenantId := .str []
  jobId := .str []
  aggregateType := .str []
  aggregateId := .str []
  eventType := .str eventType
  payload := .dict ((.str (py "offset"), .int 0) :: payload.map fun p => (.str p.1, .str p.2))
  idempotencyKey := .str []
  previousHash := .str []
  eventHash := .str []

/-- A claim that a counterevidence query refutes. -/
def refutation : List (EventEnvelope NonFinite) :=
  [sampleEvent (py "1") (py "claim.proposed")
      [(py "claim_id", py "c"), (py "text", py "t"), (py "scope", py "s")],
    sampleEvent (py "2") (py "query.executed")
      [(py "query_id", py "q"), (py "claim_id", py "c"), (py "text", py "t"),
        (py "intent", py "counterevidence")],
    sampleEvent (py "3") (py "passage.observed")
      [(py "passage_id", py "p"), (py "doc_id", py "d"), (py "query_id", py "q"),
        (py "content_sha256", List.replicate 64 48)],
    sampleEvent (py "4") (py "evidence.linked")
      [(py "claim_id", py "c"), (py "passage_id", py "p"), (py "relation", py "CONTRADICTS")],
    sampleEvent (py "5") (py "claim.transitioned")
      [(py "claim_id", py "c"), (py "to_state", py "CHALLENGED"), (py "reason", py "r")],
    sampleEvent (py "6") (py "claim.transitioned")
      [(py "claim_id", py "c"), (py "to_state", py "REFUTED"), (py "reason", py "r")]]

theorem projected_graph_refutation :
    ∃ g, project sampleDisplay refutation = .ok g ∧ Linked g ∧
      ∀ claimId c, g.claims.get claimId = some c → c.claimId = claimId ∧
        Evidenced g (transitions sampleDisplay claimId emptyGraph refutation) c := by
  have h : projectsTo sampleDisplay refutation
      (fun g => (g.claims.get (py "c")).any fun c => c.state == .refuted) = true := by
    decide +kernel
  obtain ⟨g, hg, _⟩ := projectsTo_iff.mp h
  exact ⟨g, hg, projected_graph hg⟩

end DecisionGraphInvariants
