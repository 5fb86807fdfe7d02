import VeriMat.QuoteGate

/-! # The time split

The methods are not to see literature later than the discovery window, nor the oracle any outside
its own. Both leave the years to the filters of the search: the client keeps its own state here,
and a transport and a database of any kind may come with it. -/
namespace TimeSplit

open PyText JsonText PyValue PyDisplay PyDict Events Transaction ModelTransports Verification
open DecisionGraph (Payload getItem)

variable {F C M : Type} [PyFloat F]

/-! ## The methods -/

section Methods
open Methods

/-- What a run over a client alone is given: the other services are never asked. -/
structure Discovery (F C : Type) where
  interpreter : Interpreter
  client : SearchRequest → C → Except Unit (List (PyVal F)) × C
  sqrt : ℕ → ℚ
  discoveryYearTo : ℤ
  mctsIterations : ℤ

/-- A transport and a database. -/
structure Companions (M : Type) where
  complete : ModelRequest → M → Except PyStr PyStr × M
  observations : Option (DatabaseRequest → M → Except PyStr ℕ × M)

/-- The client next to a transport and a database that keep another state. -/
def Discovery.with (D : Discovery F C) (P : Companions M) : MethodContext F (C × M) where
  interpreter := D.interpreter
  services :=
    { agenticSearch := fun request w =>
        ((D.client request w.1).1, ((D.client request w.1).2, w.2))
      complete := fun request w => ((P.complete request w.2).1, (w.1, (P.complete request w.2).2))
      observations := P.observations.map fun ask request w =>
        ((ask request w.2).1, (w.1, (ask request w.2).2)) }
  sqrt := D.sqrt
  discoveryYearTo := D.discoveryYearTo
  mctsIterations := D.mctsIterations

/-- Companions that are never asked. -/
def silent : Companions Unit := ⟨fun _ w => (.error [], w), none⟩

/-- The passages that `_gather_counter_evidence` reads for the claims one after the other. -/
def passagesRead (D : Discovery F C) : List Claim → C → List (Passage F)
  | [], _ => []
  | c :: claims, s =>
    let gathered := ran (gatherCounterEvidence (D.with silent) c) ⟨(s, ()), []⟩
    (match gathered.1 with
      | .ok read => read.1
      | .error _ => []) ++ passagesRead D claims gathered.2.world.1

variable (D : Discovery F C) (P : Companions M)

omit [PyFloat F] in
theorem ran_searchDiscovery (query : PyStr) (w : C) (m : M) (heard : List (Heard F)) :
    ran (searchDiscovery (D.with P) query) ⟨(w, m), heard⟩ =
      (.ok (match (D.client ⟨query, 1900, D.discoveryYearTo, 3⟩ w).1 with
        | .ok hits => dicts hits
        | .error _ => []),
      ⟨((D.client ⟨query, 1900, D.discoveryYearTo, 3⟩ w).2, m), heard⟩) := by
  rw [searchDiscovery, ran_bind_ok (ran_call _ _)]
  dsimp only [Discovery.with]
  cases (D.client ⟨query, 1900, D.discoveryYearTo, 3⟩ w).1 with
  | ok hits => rfl
  | error e => rfl

/-- What is gathered does not depend on the companions, and leaves them alone. -/
theorem ran_gatherFrom (n : ℕ) (passages : List (Passage F)) (queries : ℕ) (templates : List PyStr)
    (w : C) : ∃ read w', ∀ {M : Type} (P : Companions M) (m : M) (heard : List (Heard F)),
      ran (gatherFrom (D.with P) n passages queries templates) ⟨(w, m), heard⟩ =
        (.ok read, ⟨(w', m), heard⟩) := by
  induction templates generalizing passages queries w with
  | nil => exact ⟨_, w, fun _ _ _ => rfl⟩
  | cons query rest ih =>
    have hsearch := fun {M : Type} (P : Companions M) (m : M) (heard : List (Heard F)) =>
      ran_searchDiscovery D P query w m heard
    set reply := D.client ⟨query, 1900, D.discoveryYearTo, 3⟩ w
    set hits := match reply.1 with
      | .ok hits => dicts hits
      | .error _ => []
    cases hread : readHits D.interpreter n passages hits with
    | mk passages' full =>
      have hcontext : ∀ {M : Type} (P : Companions M),
          readHits (D.with P).interpreter n passages hits = (passages', full) := fun P => hread
      cases full with
      | true =>
        refine ⟨(passages', queries + 1), reply.2, fun P m heard => ?_⟩
        rw [gatherFrom, ran_bind_ok (hsearch P m heard), hcontext]
        rfl
      | false =>
        obtain ⟨read, w', hrest⟩ := ih passages' (queries + 1) reply.2
        refine ⟨read, w', fun P m heard => ?_⟩
        rw [gatherFrom, ran_bind_ok (hsearch P m heard), hcontext]
        exact hrest P m heard

theorem ran_gather (c : Claim) (w : C) : ∃ read w', ∀ {M : Type} (P : Companions M) (m : M)
    (heard : List (Heard F)),
    ran (gatherCounterEvidence (D.with P) c) ⟨(w, m), heard⟩ = (.ok read, ⟨(w', m), heard⟩) :=
  ran_gatherFrom D 3 [] 0 (counterQueries c) w

/-! ### What is heard comes from what was read -/

/-- The client is left alone, and what is heard is about these passages. -/
def HearsOf (passages : List (Passage F)) (s s' : Lab F (C × M)) : Prop :=
  s'.world.1 = s.world.1 ∧ ∃ answers, s'.heard = s.heard ++ answers ∧
    ∀ h ∈ answers, h.passage ∈ passages

variable {D P}

omit [PyFloat F] in
theorem HearsOf.refl (passages : List (Passage F)) (s : Lab F (C × M)) : HearsOf passages s s :=
  ⟨rfl, [], (List.append_nil _).symm, by simp⟩

omit [PyFloat F] in
theorem HearsOf.trans {passages : List (Passage F)} (s s' s'' : Lab F (C × M))
    (h : HearsOf passages s s') (h' : HearsOf passages s' s'') : HearsOf passages s s'' := by
  obtain ⟨hclient, answers, hheard, hall⟩ := h
  obtain ⟨hclient', answers', hheard', hall'⟩ := h'
  refine ⟨hclient'.trans hclient, answers ++ answers', ?_, ?_⟩
  · rw [hheard', hheard, List.append_assoc]
  · exact List.forall_mem_append.mpr ⟨hall, hall'⟩

variable (D P)

omit [PyFloat F] in
theorem hears_pure {α : Type} (passages : List (Passage F)) (a : α) :
    Leaves (HearsOf passages) (pure a : MethodRun F (C × M) α) := fun s => HearsOf.refl _ s

omit [PyFloat F] in
theorem hears_complete (passages : List (Passage F)) (request : ModelRequest) :
    Leaves (HearsOf passages) (call ((D.with P).services.complete request)) :=
  fun s => ⟨rfl, [], (List.append_nil _).symm, by simp⟩

omit [PyFloat F] in
theorem hears_throw {α : Type} (passages : List (Passage F)) (e : MethodError) :
    Leaves (HearsOf passages) (throw e : MethodRun F (C × M) α) := fun s => HearsOf.refl _ s

theorem leaves_mapM {ε σ α β : Type} {R : σ → σ → Prop} {f : α → EStateM ε σ β} {l : List α}
    (hf : ∀ a ∈ l, Leaves R (f a)) (hrefl : ∀ s, R s s)
    (htrans : ∀ s s' s'', R s s' → R s' s'' → R s s'') : Leaves R (l.mapM f) := by
  induction l with
  | nil => exact fun s => hrefl s
  | cons a l ih =>
    rw [List.mapM_cons]
    refine (hf a List.mem_cons_self).bind (fun b => ?_) htrans
    refine (ih fun a' ha' => hf a' (List.mem_cons_of_mem a ha')).bind (fun bs => ?_) htrans
    exact fun s => hrefl s

theorem hears_judgePassage (c : Claim) {passage : Passage F} {passages : List (Passage F)}
    (hmem : passage ∈ passages) :
    Leaves (HearsOf passages) (judgePassage (D.with P) c passage) := by
  rw [judgePassage]
  cases verifyRequest c passage with
  | error e => exact hears_pure _ _
  | ok request =>
    refine (hears_complete D P passages request).bind (fun reply => ?_) HearsOf.trans
    refine Leaves.bind (fun s => ?_) (fun _ => ?_) HearsOf.trans
    · exact ⟨rfl, [⟨passage, reply⟩], rfl, List.forall_mem_singleton.mpr hmem⟩
    · cases judgeReply (D.with P).interpreter passage reply with
      | error e => exact hears_throw _ _
      | ok outcome => exact hears_pure _ _

theorem hears_judgePassages (c : Claim) (passages : List (Passage F)) :
    Leaves (HearsOf passages) (judgePassages (D.with P) c passages) :=
  (leaves_mapM (fun _ hmem => hears_judgePassage D P c hmem) (HearsOf.refl _) HearsOf.trans).bind
    (fun _ => hears_pure _ _) HearsOf.trans

theorem hears_refine (c : Claim) (verdicts : List (Verdict F)) (passages : List (Passage F)) :
    Leaves (HearsOf passages) (refine (D.with P) c verdicts) := by
  rw [refine]
  cases refineRequest c verdicts with
  | error e => exact hears_pure _ _
  | ok request =>
    exact (hears_complete D P passages request).bind (fun _ => hears_pure _ _) HearsOf.trans

theorem hears_mctsRefine (c : Claim) (verdicts : List (Verdict F)) (dbState : Option DbState)
    (passages : List (Passage F)) :
    Leaves (HearsOf passages) (mctsRefine (D.with P) c verdicts dbState) := by
  refine (hears_refine D P c verdicts passages).bind (fun refinements => ?_) HearsOf.trans
  dsimp only
  split
  · exact hears_pure _ _
  · split
    · exact hears_throw _ _
    · exact hears_pure _ _

theorem hears_resolve (method : Method) (c : Claim) (verdicts : List (Verdict F))
    (dbState : Option DbState) (passages : List (Passage F)) :
    Leaves (HearsOf passages) (resolve (D.with P) method c verdicts dbState) := by
  rw [resolve]
  split
  · refine (hears_refine D P c verdicts passages).bind (fun refinements => ?_) HearsOf.trans
    split
    · exact hears_pure _ _
    · exact hears_mctsRefine D P c verdicts dbState passages
  · exact hears_pure _ _

omit [PyFloat F] in
theorem hears_dbCheck (c : Claim) (passages : List (Passage F)) :
    Leaves (HearsOf passages) (dbCheck (D.with P) c) := by
  rw [dbCheck]
  cases hask : (D.with P).services.observations with
  | none => exact hears_pure _ _
  | some observations =>
    obtain ⟨ask, -, rfl⟩ := Option.map_eq_some_iff.mp hask
    dsimp only
    split
    · exact hears_pure _ _
    · refine Leaves.bind (fun s => ?_) (fun reply => ?_) HearsOf.trans
      · exact ⟨rfl, [], (List.append_nil _).symm, by simp⟩
      · split
        · exact hears_pure _ _
        · exact hears_pure _ _
        · exact hears_pure _ _

theorem hears_settle (method : Method) (c : Claim) (queries read : ℕ)
    (verdicts : List (Verdict F)) (refused : List Refusal) (passages : List (Passage F)) :
    Leaves (HearsOf passages) (settle (D.with P) method c queries read verdicts refused) := by
  have hdatabase : Leaves (HearsOf passages) (database (D.with P) method c) := by
    rw [database]
    split
    · exact (hears_dbCheck D P c passages).bind (fun _ => hears_pure _ _) HearsOf.trans
    · exact hears_pure _ _
  refine hdatabase.bind (fun db => ?_) HearsOf.trans
  exact (hears_resolve D P method c verdicts db.2 passages).bind (fun _ => hears_pure _ _)
    HearsOf.trans

variable {D}

/-- What is read for the first claim, and for the others. -/
theorem passagesRead_cons {c : Claim} {w w' : C} {read : List (Passage F) × ℕ}
    (hgather : ran (gatherCounterEvidence (D.with silent) c) ⟨(w, ()), []⟩ =
      (.ok read, ⟨(w', ()), []⟩)) (claims : List Claim) :
    passagesRead D (c :: claims) w = read.1 ++ passagesRead D claims w' := by
  rw [passagesRead, hgather]

variable (D)

/-- One claim: the client goes on as it does alone, and what is heard is about what was read. -/
theorem hears_verifyClaim {method : Method} (hmethod : method ≠ .vanillaRag) {c : Claim} {w w' : C}
    {m : M} {heard : List (Heard F)} {read : List (Passage F) × ℕ}
    (hgather : ran (gatherCounterEvidence (D.with P) c) ⟨(w, m), heard⟩ =
      (.ok read, ⟨(w', m), heard⟩)) :
    HearsOf read.1 ⟨(w', m), heard⟩ (ran (verifyClaim (D.with P) method c) ⟨(w, m), heard⟩).2 := by
  rw [verifyClaim, if_neg hmethod, ran_bind_ok hgather]
  refine Leaves.bind (hears_judgePassages D P c read.1) (fun judged => ?_) HearsOf.trans _
  split
  · exact hears_pure _ _
  · exact hears_settle D P method c _ _ _ _ read.1

theorem hears_runMethod (method : Method) (claims : List Claim) (w : C) (m : M)
    (heard : List (Heard F)) : ∃ answers,
    (ran (runMethod (D.with P) method claims) ⟨(w, m), heard⟩).2.heard = heard ++ answers ∧
      ∀ h ∈ answers, method ≠ .vanillaRag ∧ h.passage ∈ passagesRead D claims w := by
  by_cases hmethod : method = .vanillaRag
  · refine ⟨[], ?_, by simp⟩
    subst hmethod
    have hpure : ∀ c, Leaves (HearsOf ([] : List (Passage F)))
        (verifyClaim (D.with P) .vanillaRag c) := fun c => hears_pure _ _
    obtain ⟨-, answers, hheard, hall⟩ := leaves_mapM (fun c _ => hpure c) (HearsOf.refl _)
      HearsOf.trans ⟨(w, m), heard⟩ (l := claims)
    obtain rfl : answers = [] := List.eq_nil_iff_forall_not_mem.mpr fun h hh =>
      absurd (hall h hh) List.not_mem_nil
    exact hheard
  · induction claims generalizing w m heard with
    | nil => exact ⟨[], (List.append_nil _).symm, by simp⟩
    | cons c claims ih =>
      obtain ⟨read, w', hgather⟩ := ran_gather D c w
      obtain ⟨hclient, answers, hheard, hall⟩ := hears_verifyClaim D P hmethod (hgather P m heard)
      rw [passagesRead_cons (hgather silent () []), runMethod, List.mapM_cons]
      have hfirst : ∀ h ∈ answers, method ≠ .vanillaRag ∧
          h.passage ∈ read.1 ++ passagesRead D claims w' :=
        fun h hh => ⟨hmethod, List.mem_append_left _ (hall h hh)⟩
      rcases hran : ran (verifyClaim (D.with P) method c) ⟨(w, m), heard⟩ with ⟨result, ⟨v, m'⟩, heard'⟩
      rw [hran] at hclient hheard
      obtain rfl : v = w' := hclient
      obtain rfl : heard' = heard ++ answers := hheard
      cases result with
      | error e =>
        rw [ran_bind_error hran]
        exact ⟨answers, rfl, hfirst⟩
      | ok verified =>
        rw [ran_bind_ok hran, ran_bind_pure_snd]
        obtain ⟨answers', hheard', hall'⟩ := ih v m' (heard ++ answers)
        refine ⟨answers ++ answers', ?_, List.forall_mem_append.mpr ⟨hfirst, fun h hh => ?_⟩⟩
        · rw [← List.append_assoc]
          exact hheard'
        · exact ⟨hmethod, List.mem_append_right _ (hall' h hh).2⟩

/-! ### A transport that always has a verdict -/

variable (F) in
/-- `{"verdict":"unrelated"}`. -/
def unrelated : Json F := .obj [(py "verdict", .str (py "unrelated"))]

variable (F) in
def answering : Companions Unit := ⟨fun _ w => (.ok (render (unrelated F)), w), none⟩

theorem loads_unrelated : loads (render (unrelated F)) = some (unrelated F) := by
  rw [← List.append_nil (render (unrelated F))]
  exact loads_render (by simp [unrelated, Json.Finite, FiniteMembers]) (by simp)

theorem quoted_nil (I : Interpreter) (text : PyStr) : I.quoted [] text = true :=
  decide_eq_true List.nil_infix

/-- The answer about a passage, and the verdict it makes. -/
def answerAbout (passage : Passage F) : Heard F := ⟨passage, .ok (render (unrelated F))⟩

def unrelatedVerdict (passage : Passage F) : Verdict F := ⟨py "unrelated", false, [], passage⟩

theorem judgeReply_answerAbout (I : Interpreter) (passage : Passage F) :
    judgeReply I (answerAbout passage).passage (answerAbout passage).reply =
      .ok (.inl (unrelatedVerdict passage)) := by
  dsimp only [answerAbout]
  rw [judgeReply, loads_unrelated]
  exact if_pos (quoted_nil I passage.text)

theorem ran_judge_answering (c : Claim) (passages : List (Passage F)) (w : C)
    (heard : List (Heard F)) :
    ran (passages.mapM (judgePassage (D.with (answering F)) c)) ⟨(w, ()), heard⟩ =
      (.ok (passages.map fun p => .inl (unrelatedVerdict p)),
        ⟨(w, ()), heard ++ passages.map answerAbout⟩) := by
  induction passages generalizing heard with
  | nil =>
    rw [List.map_nil, List.map_nil, List.append_nil]
    rfl
  | cons passage passages ih =>
    obtain ⟨request, hrequest⟩ := QuoteGate.verifyRequest_isOk c passage
    have hfirst : ran (judgePassage (D.with (answering F)) c passage) ⟨(w, ()), heard⟩ =
        (.ok (.inl (unrelatedVerdict passage)), ⟨(w, ()), heard ++ [answerAbout passage]⟩) := by
      rw [judgePassage, hrequest]
      dsimp only
      rw [ran_bind_ok (ran_call _ _), ran_bind_ok (ran_hear _ _ _)]
      have hreply := judgeReply_answerAbout D.interpreter passage
      dsimp only [answerAbout] at hreply
      dsimp only [Discovery.with, answering]
      rw [hreply]
      rfl
    rw [List.mapM_cons, ran_bind_ok hfirst, ran_bind_ok (ih _), List.append_assoc]
    rfl

/-- The model offers no refinement. -/
theorem ran_refine_answering (c : Claim) (verdicts : List (Verdict F)) (s : Lab F (C × Unit)) :
    ran (refine (D.with (answering F)) c verdicts) s = (.ok [], s) := by
  have hnone : refinementsOf (.ok (render (unrelated F))) = ([] : List (Payload F)) := by
    rw [refinementsOf, loads_unrelated]
    rfl
  rw [refine]
  cases refineRequest c verdicts with
  | error e => rfl
  | ok request =>
    dsimp only
    rw [ran_bind_ok (ran_call _ _)]
    dsimp only [Discovery.with, answering]
    rw [hnone]
    rfl

theorem ran_settle_answering (method : Method) (c : Claim) (queries read : ℕ)
    (verdicts : List (Verdict F)) (refused : List Refusal) (s : Lab F (C × Unit)) : ∃ v,
    ran (settle (D.with (answering F)) method c queries read verdicts refused) s = (.ok v, s) := by
  by_cases hfull : method = .full
  · subst hfull
    have hdatabase : ran (database (D.with (answering F)) .full c) s =
        (.ok (false, some .uncovered), s) := rfl
    have hresolve : ran (resolve (D.with (answering F)) .full c verdicts (some .uncovered)) s =
        (.ok (cedgLabel verdicts), s) := by
      rw [resolve, if_pos rfl, ran_bind_ok (ran_refine_answering D c verdicts s)]
      rfl
    refine ⟨settled .full c queries read verdicts refused (false, some .uncovered)
      (cedgLabel verdicts), ?_⟩
    rw [settle, ran_bind_ok hdatabase, ran_bind_ok hresolve]
    rfl
  · refine ⟨settled method c queries read verdicts refused (false, none) (cedgLabel verdicts), ?_⟩
    have hdatabase : ran (database (D.with (answering F)) method c) s = (.ok (false, none), s) := by
      rw [database, if_neg hfull]
      rfl
    have hresolve : ran (resolve (D.with (answering F)) method c verdicts none) s =
        (.ok (cedgLabel verdicts), s) := by
      rw [resolve, if_neg hfull]
      rfl
    rw [settle, ran_bind_ok hdatabase, ran_bind_ok hresolve]
    rfl

theorem ran_verifyClaim_answering {method : Method} (hmethod : method ≠ .vanillaRag) {c : Claim}
    {w w' : C} {heard : List (Heard F)} {read : List (Passage F) × ℕ}
    (hgather : ran (gatherCounterEvidence (D.with (answering F)) c) ⟨(w, ()), heard⟩ =
      (.ok read, ⟨(w', ()), heard⟩)) : ∃ v,
    ran (verifyClaim (D.with (answering F)) method c) ⟨(w, ()), heard⟩ =
      (.ok v, ⟨(w', ()), heard ++ read.1.map answerAbout⟩) := by
  have hjudge : ∃ judged, ran (judgePassages (D.with (answering F)) c read.1) ⟨(w', ()), heard⟩ =
      (.ok judged, ⟨(w', ()), heard ++ read.1.map answerAbout⟩) := by
    rw [judgePassages, ran_bind_ok (ran_judge_answering D c read.1 w' heard)]
    exact ⟨_, rfl⟩
  obtain ⟨judged, hjudged⟩ := hjudge
  rw [verifyClaim, if_neg hmethod, ran_bind_ok hgather, ran_bind_ok hjudged]
  split
  · exact ⟨_, rfl⟩
  · exact ran_settle_answering D method c _ _ _ _ _

/-- With that transport every passage that is read gets a verdict. -/
theorem heard_answering {method : Method} (hmethod : method ≠ .vanillaRag) (claims : List Claim)
    (w : C) (heard : List (Heard F)) :
    (ran (runMethod (D.with (answering F)) method claims) ⟨(w, ()), heard⟩).2.heard =
      heard ++ (passagesRead D claims w).map answerAbout := by
  induction claims generalizing w heard with
  | nil => exact (List.append_nil _).symm
  | cons c claims ih =>
    obtain ⟨read, w', hgather⟩ := ran_gather D c w
    obtain ⟨v, hfirst⟩ := ran_verifyClaim_answering D hmethod (hgather (answering F) () heard)
    rw [runMethod, List.mapM_cons, ran_bind_ok hfirst, ran_bind_pure_snd,
      passagesRead_cons (hgather silent () []), List.map_append, ← List.append_assoc]
    exact ih w' _

/-- A hit that states a later year than this. -/
def Later (year : Payload F → Option ℤ) (last : ℤ) (hit : Payload F) : Prop :=
  ∃ y, year hit = some y ∧ last < y

/-- Whatever transport and database come with the client, no verdict of the method is about a
passage of a later year than the discovery window. -/
def KeepsWindow (year : Payload F → Option ℤ) (D : Discovery F C) (method : Method)
    (claims : List Claim) (w : C) : Prop :=
  ∀ (M : Type) (P : Companions M) (m : M),
    ∀ h ∈ (ran (runMethod (D.with P) method claims) ⟨(w, m), []⟩).2.heard,
      ∀ v, judgeReply D.interpreter h.passage h.reply = .ok (.inl v) →
        ¬Later year D.discoveryYearTo v.passage.hit

theorem judgeReply_passage {I : Interpreter} {passage : Passage F} {reply : Except PyStr PyStr}
    {v : Verdict F} (h : judgeReply I passage reply = .ok (.inl v)) : v.passage = passage := by
  cases reply with
  | error text => cases h
  | ok text =>
    rw [judgeReply] at h
    cases hvalue : (loads text : Option (Json F)).map ofJson with
    | none =>
      rw [hvalue] at h
      cases h
    | some value =>
      rw [hvalue] at h
      cases value with
      | dict parsed =>
        dsimp only at h
        split at h
        · cases h
          rfl
        · cases h
      | _ => cases h

theorem keepsWindow_iff (year : Payload F → Option ℤ) (method : Method) (claims : List Claim)
    (w : C) :
    KeepsWindow year D method claims w ↔
      method = .vanillaRag ∨
        ∀ p ∈ passagesRead D claims w, ¬Later year D.discoveryYearTo p.hit := by
  constructor
  · intro h
    refine or_iff_not_imp_left.mpr fun hmethod p hp => ?_
    refine h Unit (answering F) () (answerAbout p) ?_ _ (judgeReply_answerAbout D.interpreter p)
    rw [heard_answering D hmethod, List.nil_append]
    exact List.mem_map_of_mem hp
  · rintro h M P m a ha v hv
    obtain ⟨answers, hheard, hall⟩ := hears_runMethod D P method claims w m []
    rw [hheard, List.nil_append] at ha
    obtain ⟨hmethod, hread⟩ := hall a ha
    rw [judgeReply_passage hv]
    exact h.resolve_left hmethod a.passage hread

end Methods

/-! ## The oracle -/

section Oracle
open Oracle

/-- What an oracle over a client alone is given. -/
structure Validation (F C : Type) where
  interpreter : Interpreter
  client : SearchRequest → C → Except Unit (List (PyVal F)) × C
  yearFrom : ℤ
  yearTo : ℤ
  topK : ℤ

/-- The client next to a transport that keeps another state. -/
def Validation.with (V : Validation F C) (P : Companions M) : TimeSplitOracle F (C × M) where
  interpreter := V.interpreter
  agenticSearch request w := ((V.client request w.1).1, ((V.client request w.1).2, w.2))
  complete request w := ((P.complete request w.2).1, (w.1, (P.complete request w.2).2))
  yearFrom := V.yearFrom
  yearTo := V.yearTo
  topK := V.topK

/-- The lab of an oracle over the client, with the state of a transport. -/
def withState (s : OracleLab F C) (m : M) : OracleLab F (C × M) :=
  ⟨(s.world, m), s.claims, s.gaps, s.file, s.seenDocs, s.result⟩

variable (V : Validation F C) (c : Claim)

/-- The reference and the key of a hit, and its passage. -/
def keysOf (hit : Payload F) : Except OracleError (PyStr × PyStr) :=
  passageKeys (V.with silent) c (docIdOf V.interpreter hit) (passageText V.interpreter hit)

def passageOf (hit : Payload F) (keys : PyStr × PyStr) : Passage F :=
  ⟨keys.1, passageText V.interpreter hit, hit⟩

/-- The passages of hits that are judged, up to one whose keys cannot be computed, and the
documents seen by then. -/
def examineHits : List PyStr → List (Payload F) →
    List (Passage F) × Except OracleError (List PyStr)
  | seen, [] => ([], .ok seen)
  | seen, hit :: hits =>
    if PassedOver V.interpreter seen hit then examineHits seen hits
    else
      match keysOf V c hit with
      | .error e => ([], .error e)
      | .ok keys =>
        let rest := examineHits (withDocument (docIdOf V.interpreter hit) seen) hits
        (passageOf V hit keys :: rest.1, rest.2)

/-- The hits of a query, and the client after it. -/
def hitsOf (template : Template) (w : C) : List (Payload F) × C :=
  let reply := V.client ⟨template.query c, V.yearFrom, V.yearTo, V.topK⟩ w
  (match reply.1 with
    | .ok hits => dicts hits
    | .error _ => [], reply.2)

/-- The passages that are judged for the queries. -/
def examineTemplates : List Template → List PyStr → C → List (Passage F)
  | [], _, _ => []
  | template :: templates, seen, w =>
    let found := hitsOf V c template w
    let examined := examineHits V c seen found.1
    examined.1 ++
      match examined.2 with
      | .ok seen => examineTemplates templates seen found.2
      | .error _ => []

/-- The passages of the cached verdicts, or else those that are judged. -/
def passagesKeyed (s : OracleLab F C) (cacheKey : PyStr) : List (Passage F) :=
  match s.claims.get cacheKey with
  | some cached => cached.verdicts.map (·.passage)
  | none => examineTemplates V c oracleQueryTemplates [] s.world

/-- The passages of the verdicts that `judge_claim` can apply. -/
def passagesJudged (s : OracleLab F C) : List (Passage F) :=
  match key (V.with silent) [py "claim", oracleVersion, c.claimId] with
  | .error _ => []
  | .ok cacheKey => passagesKeyed V c s cacheKey

/-! ### Verdicts come from what is judged -/

/-- The client and the documents seen are left alone, and verdicts are added about these
passages. -/
def JudgesOf (passages : List (Passage F)) (s s' : OracleLab F (C × M)) : Prop :=
  s'.world.1 = s.world.1 ∧ s'.seenDocs = s.seenDocs ∧ ∃ verdicts,
    s'.result.verdicts = s.result.verdicts ++ verdicts ∧ ∀ v ∈ verdicts, v.passage ∈ passages

omit [PyFloat F] in
theorem JudgesOf.refl (passages : List (Passage F)) (s : OracleLab F (C × M)) :
    JudgesOf passages s s :=
  ⟨rfl, rfl, [], (List.append_nil _).symm, by simp⟩

omit [PyFloat F] in
theorem JudgesOf.trans {passages : List (Passage F)} (s s' s'' : OracleLab F (C × M))
    (h : JudgesOf passages s s') (h' : JudgesOf passages s' s'') : JudgesOf passages s s'' := by
  obtain ⟨hclient, hseen, verdicts, hverdicts, hall⟩ := h
  obtain ⟨hclient', hseen', verdicts', hverdicts', hall'⟩ := h'
  refine ⟨hclient'.trans hclient, hseen'.trans hseen, verdicts ++ verdicts', ?_, ?_⟩
  · rw [hverdicts', hverdicts, List.append_assoc]
  · exact List.forall_mem_append.mpr ⟨hall, hall'⟩

theorem oracleReply_passage {O : TimeSplitOracle F (C × M)} {template : PyStr}
    {passage : Passage F} {reply : Except PyStr PyStr} {v : OracleVerdict F}
    (h : Oracle.judgeReply O template passage reply = .ok (.inl v)) : v.passage = passage := by
  cases reply with
  | error text => cases h
  | ok text =>
    rw [Oracle.judgeReply] at h
    cases hvalue : (loads text : Option (Json F)).map ofJson with
    | none =>
      rw [hvalue] at h
      cases h
    | some value =>
      rw [hvalue] at h
      cases value with
      | dict parsed =>
        dsimp only at h
        split at h
        · split at h
          · cases h
            rfl
          · cases h
        · cases h
      | _ => cases h

theorem judges_judgePassage (P : Companions M) (template : PyStr) (passage : Passage F)
    (operation : PyStr) :
    Leaves (JudgesOf [passage]) (Oracle.judgePassage (V.with P) c template passage operation) := by
  obtain ⟨request, hrequest⟩ := QuoteGate.judgeRequest_isOk (V.with P) c passage operation
  rw [Oracle.judgePassage, hrequest]
  refine Leaves.bind (fun s => ⟨rfl, rfl, [], (List.append_nil _).symm, by simp⟩) (fun reply => ?_)
    JudgesOf.trans
  split
  · exact fun s => JudgesOf.refl _ s
  · next v hreply =>
    refine fun s => ⟨rfl, rfl, [v], rfl, List.forall_mem_singleton.mpr ?_⟩
    exact List.mem_singleton.mpr (oracleReply_passage hreply)
  · exact fun s => ⟨rfl, rfl, [], (List.append_nil _).symm, by simp⟩

/-- A document noted as seen and considered. -/
def mark (docId : PyStr) (s : OracleLab F (C × M)) : OracleLab F (C × M) :=
  { s with
    seenDocs := withDocument docId s.seenDocs
    result := { s.result with documentsConsidered := s.result.documentsConsidered + 1 } }

variable {V c} {template : PyStr} {hit : Payload F} {s : OracleLab F (C × M)}

theorem ran_considerHit_passed (P : Companions M) (h : PassedOver V.interpreter s.seenDocs hit) :
    ran (considerHit (V.with P) c template hit) s = (.ok (), s) := by
  have hget : ran (get : OracleRun F (C × M) _) s = (.ok s, s) := rfl
  rw [considerHit, ran_bind_ok hget, if_pos (show PassedOver (V.with P).interpreter _ _ from h)]
  rfl

theorem ran_considerHit (c : Claim) (template : PyStr) (P : Companions M)
    (h : ¬PassedOver V.interpreter s.seenDocs hit) :
    ran (considerHit (V.with P) c template hit) s =
      match keysOf V c hit with
      | .error e => (.error e, mark (docIdOf V.interpreter hit) s)
      | .ok keys => ran (Oracle.judgePassage (V.with P) c template (passageOf V hit keys) keys.2)
          (mark (docIdOf V.interpreter hit) s) := by
  have hget : ran (get : OracleRun F (C × M) _) s = (.ok s, s) := rfl
  have hmark : ran (modify (mark (docIdOf V.interpreter hit)) : OracleRun F (C × M) _) s =
      (.ok ⟨⟩, mark (docIdOf V.interpreter hit) s) := rfl
  have hkeys : passageKeys (V.with P) c (docIdOf (V.with P).interpreter hit)
      (passageText (V.with P).interpreter hit) = keysOf V c hit := rfl
  rw [considerHit, ran_bind_ok hget, if_neg (show ¬PassedOver (V.with P).interpreter _ _ from h)]
  refine (ran_bind_ok hmark).trans ?_
  rw [hkeys]
  cases keysOf V c hit with
  | error e => rfl
  | ok keys => rfl

/-- A run over hits that stays within what is examined of them. -/
structure Follows (examined : List (Passage F) × Except OracleError (List PyStr))
    (s : OracleLab F (C × M)) (r : Except OracleError PUnit × OracleLab F (C × M)) : Prop where
  client : r.2.world.1 = s.world.1
  verdicts : ∃ verdicts, r.2.result.verdicts = s.result.verdicts ++ verdicts ∧
    ∀ v ∈ verdicts, v.passage ∈ examined.1
  seen : ∀ u, r.1 = .ok u → examined.2 = .ok r.2.seenDocs

theorem examineHits_passed {seen : List PyStr} {hits : List (Payload F)}
    (h : PassedOver V.interpreter seen hit) :
    examineHits V c seen (hit :: hits) = examineHits V c seen hits := by
  rw [examineHits, if_pos h]

theorem examineHits_error {seen : List PyStr} {hits : List (Payload F)} {e : OracleError}
    (h : ¬PassedOver V.interpreter seen hit) (hkeys : keysOf V c hit = .error e) :
    examineHits V c seen (hit :: hits) = ([], .error e) := by
  rw [examineHits, if_neg h, hkeys]

theorem examineHits_ok {seen : List PyStr} {hits : List (Payload F)} {keys : PyStr × PyStr}
    (h : ¬PassedOver V.interpreter seen hit) (hkeys : keysOf V c hit = .ok keys) :
    examineHits V c seen (hit :: hits) =
      (passageOf V hit keys ::
          (examineHits V c (withDocument (docIdOf V.interpreter hit) seen) hits).1,
        (examineHits V c (withDocument (docIdOf V.interpreter hit) seen) hits).2) := by
  rw [examineHits, if_neg h, hkeys]

theorem follows_hits (P : Companions M) (template : PyStr) (hits : List (Payload F))
    (s : OracleLab F (C × M)) :
    Follows (examineHits V c s.seenDocs hits) s
      (ran (hits.forM (considerHit (V.with P) c template)) s) := by
  induction hits generalizing s with
  | nil => exact ⟨rfl, ⟨[], (List.append_nil _).symm, by simp⟩, fun _ _ => rfl⟩
  | cons hit hits ih =>
    have hloop : (hit :: hits).forM (considerHit (V.with P) c template) =
      considerHit (V.with P) c template hit >>= fun _ =>
        hits.forM (considerHit (V.with P) c template) := rfl
    rw [hloop]
    by_cases hpassed : PassedOver V.interpreter s.seenDocs hit
    · rw [ran_bind_ok (ran_considerHit_passed P hpassed), examineHits_passed hpassed]
      exact ih s
    · have hfirst := ran_considerHit c template P hpassed
      cases hkeys : keysOf V c hit with
      | error e =>
        rw [hkeys] at hfirst
        rw [ran_bind_error hfirst, examineHits_error hpassed hkeys]
        exact ⟨rfl, ⟨[], (List.append_nil _).symm, by simp⟩, fun _ h => by cases h⟩
      | ok keys =>
        rw [hkeys] at hfirst
        dsimp only at hfirst
        obtain ⟨hclient, hseen, vs, hverdicts, hall⟩ := judges_judgePassage V c P template
          (passageOf V hit keys) keys.2 (mark (docIdOf V.interpreter hit) s)
        rw [examineHits_ok hpassed hkeys]
        have hhead : ∀ v ∈ vs, v.passage = passageOf V hit keys :=
          fun v hv => List.mem_singleton.mp (hall v hv)
        rcases hran : ran (Oracle.judgePassage (V.with P) c template (passageOf V hit keys) keys.2)
            (mark (docIdOf V.interpreter hit) s) with ⟨result, s'⟩
        rw [hran] at hfirst hclient hseen hverdicts
        cases result with
        | error e =>
          rw [ran_bind_error hfirst]
          refine ⟨hclient, ⟨vs, hverdicts, fun v hv => ?_⟩, fun _ h => by cases h⟩
          exact List.mem_cons.mpr (.inl (hhead v hv))
        | ok u =>
          rw [ran_bind_ok hfirst]
          obtain ⟨hclient', ⟨vs', hverdicts', hall'⟩, hseen'⟩ := ih s'
          have hstart : s'.seenDocs = withDocument (docIdOf V.interpreter hit) s.seenDocs := hseen
          rw [hstart] at hall' hseen'
          refine ⟨hclient'.trans hclient, ⟨vs ++ vs', ?_, ?_⟩, hseen'⟩
          · rw [hverdicts', hverdicts, List.append_assoc]
            rfl
          · refine List.forall_mem_append.mpr ⟨fun v hv => ?_, fun v hv => ?_⟩
            · exact List.mem_cons.mpr (.inl (hhead v hv))
            · exact List.mem_cons_of_mem _ (hall' v hv)

omit [PyFloat F] in
/-- The search of a query. -/
theorem ran_search (P : Companions M) (template : Template) (s : OracleLab F (C × M)) :
    ran (Oracle.search (V.with P) (template.query c)) s =
      (.ok (hitsOf V c template s.world.1).1,
        { s with world := ((hitsOf V c template s.world.1).2, s.world.2) }) := by
  have hget : ran (get : OracleRun F (C × M) _) s = (.ok s, s) := rfl
  rw [Oracle.search, ran_bind_ok hget]
  dsimp only [hitsOf, Validation.with]
  cases (V.client ⟨template.query c, V.yearFrom, V.yearTo, V.topK⟩ s.world.1).1 with
  | ok hits => rfl
  | error e => rfl

/-- One query: its hits from a state that differs in the count of searches. -/
theorem ran_considerTemplate (P : Companions M) (template : Template) (s : OracleLab F (C × M)) :
    ∃ s', s'.world = ((hitsOf V c template s.world.1).2, s.world.2) ∧ s'.seenDocs = s.seenDocs ∧
      s'.result.verdicts = s.result.verdicts ∧
      ran (considerTemplate (V.with P) c template) s =
        ran ((hitsOf V c template s.world.1).1.forM (considerHit (V.with P) c template.text)) s' := by
  have hnote : ran (note fun r => { r with searches := r.searches + 1 } : OracleRun F (C × M) _) s =
      (.ok ⟨⟩, { s with result := { s.result with searches := s.result.searches + 1 } }) := rfl
  refine ⟨_, ?_, ?_, ?_, (ran_bind_ok hnote).trans (ran_bind_ok (ran_search P template _))⟩
  · rfl
  · rfl
  · rfl

/-- What is left of a run when its verdicts stay within these passages. -/
def Within (passages : List (Passage F)) (s : OracleLab F (C × M))
    (r : Except OracleError PUnit × OracleLab F (C × M)) : Prop :=
  ∃ verdicts, r.2.result.verdicts = s.result.verdicts ++ verdicts ∧
    ∀ v ∈ verdicts, v.passage ∈ passages

theorem within_templates (P : Companions M) (templates : List Template) (s : OracleLab F (C × M)) :
    Within (examineTemplates V c templates s.seenDocs s.world.1) s
      (ran (templates.forM (considerTemplate (V.with P) c)) s) := by
  induction templates generalizing s with
  | nil => exact ⟨[], (List.append_nil _).symm, by simp⟩
  | cons template templates ih =>
    have hloop : (template :: templates).forM (considerTemplate (V.with P) c) =
      considerTemplate (V.with P) c template >>= fun _ =>
        templates.forM (considerTemplate (V.with P) c) := rfl
    obtain ⟨s₁, hworld, hseen, hverdicts, hfirst⟩ := ran_considerTemplate (c := c) P template s
    obtain ⟨hclient, ⟨vs, hvs, hall⟩, hdone⟩ := follows_hits (c := c) P template.text
      (hitsOf V c template s.world.1).1 s₁
    rw [hloop, examineTemplates]
    rw [← hfirst] at hclient hvs hdone
    rw [hseen] at hall hdone
    rcases hran : ran (considerTemplate (V.with P) c template) s with ⟨result, s₂⟩
    rw [hran] at hclient hvs hdone
    cases result with
    | error e =>
      rw [ran_bind_error hran]
      refine ⟨vs, hvs.trans (by rw [hverdicts]), fun v hv => ?_⟩
      exact List.mem_append_left _ (hall v hv)
    | ok u =>
      rw [ran_bind_ok hran]
      obtain ⟨vs', hvs', hall'⟩ := ih s₂
      have hsecond : s₂.world.1 = (hitsOf V c template s.world.1).2 := by
        rw [hclient, hworld]
      refine ⟨vs ++ vs', ?_, List.forall_mem_append.mpr ⟨fun v hv => ?_, fun v hv => ?_⟩⟩
      · rw [hvs', hvs, hverdicts, List.append_assoc]
      · exact List.mem_append_left _ (hall v hv)
      · refine List.mem_append_right _ ?_
        rw [hdone u rfl, ← hsecond]
        exact hall' v hv

/-! ### With the transport that always has a verdict -/

theorem ran_judgePassage_answering (template : PyStr) (passage : Passage F) (operation : PyStr)
    (s : OracleLab F (C × Unit)) : ∃ s',
    ran (Oracle.judgePassage (V.with (answering F)) c template passage operation) s = (.ok ⟨⟩, s') ∧
      s'.world.1 = s.world.1 ∧ s'.seenDocs = s.seenDocs ∧
      s'.result.verdicts.map (·.passage) = s.result.verdicts.map (·.passage) ++ [passage] := by
  obtain ⟨request, hrequest⟩ := QuoteGate.judgeRequest_isOk (V.with (answering F)) c passage operation
  have hreply : Oracle.judgeReply (V.with (answering F)) template passage (.ok (render (unrelated F))) =
      .ok (.inl ⟨passage, py "unrelated", false, [], template⟩) := by
    have hlabel : py "unrelated" ∈ admissibleLabels := by decide
    rw [Oracle.judgeReply, loads_unrelated]
    exact (if_pos (quoted_nil V.interpreter passage.text)).trans (if_pos hlabel)
  have hcomplete : ran (Oracle.complete (V.with (answering F)) passage request) s =
      (.ok (.ok (render (unrelated F))), { s with
        result := { s.result with
          answers := s.result.answers ++ [⟨passage, .ok (render (unrelated F))⟩] } }) := rfl
  have happly : ran (Oracle.judgePassage (V.with (answering F)) c template passage operation) s =
      (.ok ⟨⟩, { s with
        result := { s.result with
          answers := s.result.answers ++ [⟨passage, .ok (render (unrelated F))⟩]
          verdicts := s.result.verdicts ++ [⟨passage, py "unrelated", false, [], template⟩] } }) := by
    rw [Oracle.judgePassage, hrequest]
    dsimp only
    rw [ran_bind_ok hcomplete, hreply]
    rfl
  refine ⟨_, happly, rfl, rfl, ?_⟩
  exact List.map_append

/-- A run over hits that judges all that is examined of them. -/
structure Covers (examined : List (Passage F) × Except OracleError (List PyStr))
    (s : OracleLab F (C × M)) (r : Except OracleError PUnit × OracleLab F (C × M)) : Prop where
  client : r.2.world.1 = s.world.1
  verdicts : r.2.result.verdicts.map (·.passage) =
    s.result.verdicts.map (·.passage) ++ examined.1
  ends : match examined.2 with
    | .ok seen => r.1 = .ok ⟨⟩ ∧ r.2.seenDocs = seen
    | .error e => r.1 = .error e

theorem covers_hits (template : PyStr) (hits : List (Payload F)) (s : OracleLab F (C × Unit)) :
    Covers (examineHits V c s.seenDocs hits) s
      (ran (hits.forM (considerHit (V.with (answering F)) c template)) s) := by
  induction hits generalizing s with
  | nil => exact ⟨rfl, (List.append_nil _).symm, rfl, rfl⟩
  | cons hit hits ih =>
    have hloop : (hit :: hits).forM (considerHit (V.with (answering F)) c template) =
      considerHit (V.with (answering F)) c template hit >>= fun _ =>
        hits.forM (considerHit (V.with (answering F)) c template) := rfl
    rw [hloop]
    by_cases hpassed : PassedOver V.interpreter s.seenDocs hit
    · rw [ran_bind_ok (ran_considerHit_passed _ hpassed), examineHits_passed hpassed]
      exact ih s
    · have hfirst := ran_considerHit c template (answering F) hpassed
      cases hkeys : keysOf V c hit with
      | error e =>
        rw [hkeys] at hfirst
        rw [ran_bind_error hfirst, examineHits_error hpassed hkeys]
        exact ⟨rfl, (List.append_nil _).symm, rfl⟩
      | ok keys =>
        rw [hkeys] at hfirst
        dsimp only at hfirst
        obtain ⟨s', hran, hclient, hseen, hverdicts⟩ := ran_judgePassage_answering (c := c) template
          (passageOf V hit keys) keys.2 (mark (docIdOf V.interpreter hit) s)
        rw [hran] at hfirst
        rw [ran_bind_ok hfirst, examineHits_ok hpassed hkeys]
        obtain ⟨hclient', hverdicts', hends⟩ := ih s'
        have hstart : s'.seenDocs = withDocument (docIdOf V.interpreter hit) s.seenDocs := hseen
        rw [hstart] at hverdicts' hends
        refine ⟨hclient'.trans hclient, ?_, hends⟩
        rw [hverdicts', hverdicts, List.append_assoc]
        rfl

theorem covers_templates (templates : List Template) (s : OracleLab F (C × Unit)) :
    (ran (templates.forM (considerTemplate (V.with (answering F)) c)) s).2.result.verdicts.map
        (·.passage) =
      s.result.verdicts.map (·.passage) ++ examineTemplates V c templates s.seenDocs s.world.1 := by
  induction templates generalizing s with
  | nil => exact (List.append_nil _).symm
  | cons template templates ih =>
    have hloop : (template :: templates).forM (considerTemplate (V.with (answering F)) c) =
      considerTemplate (V.with (answering F)) c template >>= fun _ =>
        templates.forM (considerTemplate (V.with (answering F)) c) := rfl
    obtain ⟨s₁, hworld, hseen, hverdicts, hfirst⟩ :=
      ran_considerTemplate (c := c) (answering F) template s
    obtain ⟨hclient, hvs, hends⟩ := covers_hits (c := c) template.text
      (hitsOf V c template s.world.1).1 s₁
    rw [hloop, examineTemplates]
    rw [← hfirst] at hclient hvs hends
    rw [hseen] at hvs hends
    rcases hran : ran (considerTemplate (V.with (answering F)) c template) s with ⟨result, s₂⟩
    rw [hran] at hclient hvs hends
    cases hexamined : (examineHits V c s.seenDocs (hitsOf V c template s.world.1).1).2 with
    | error e =>
      rw [hexamined] at hends
      obtain rfl : result = .error e := hends
      rw [ran_bind_error hran, hvs, hverdicts, List.append_nil]
    | ok seen =>
      rw [hexamined] at hends
      obtain ⟨rfl, hlast⟩ : result = .ok ⟨⟩ ∧ s₂.seenDocs = seen := hends
      have hsecond : s₂.world.1 = (hitsOf V c template s.world.1).2 := by
        rw [hclient, hworld]
      rw [ran_bind_ok hran, ih s₂, hvs, hverdicts, hlast, hsecond, List.append_assoc]

/-! ### Whole calls -/

/-- The verdicts of the call under way are left as they are. -/
def SameVerdicts (s s' : OracleLab F (C × M)) : Prop := s'.result.verdicts = s.result.verdicts

theorem sameVerdicts_flush : Leaves SameVerdicts (flush : OracleRun F (C × M) Unit) := by
  intro s
  have hget : ran (get : OracleRun F (C × M) _) s = (.ok s, s) := rfl
  rw [flush, ran_bind_ok hget]
  cases canonicalJson (cacheValue s) with
  | error cause => rfl
  | ok text =>
    dsimp only
    cases encode (text ++ py "\n") with
    | none => rfl
    | some bytes => rfl

/-- A fresh judgement applies the verdicts of its queries. -/
theorem verdicts_judgeFresh (O : TimeSplitOracle F (C × M)) (c : Claim) (cacheKey : PyStr)
    (s : OracleLab F (C × M)) :
    (ran (judgeFresh O c cacheKey) s).2.result.verdicts =
      (ran (oracleQueryTemplates.forM (considerTemplate O c)) s).2.result.verdicts := by
  have htrans : ∀ s s' s'' : OracleLab F (C × M), SameVerdicts s s' → SameVerdicts s' s'' →
      SameVerdicts s s'' := fun _ _ _ h h' => h'.trans h
  rcases hran : ran (oracleQueryTemplates.forM (considerTemplate O c)) s with ⟨result, s'⟩
  cases result with
  | error e => rw [judgeFresh, ran_bind_error hran]
  | ok u =>
    rw [judgeFresh, ran_bind_ok hran]
    have hmodify : ∀ f : OracleLab F (C × M) → OracleLab F (C × M), (∀ s, SameVerdicts s (f s)) →
        Leaves SameVerdicts (modify f : OracleRun F (C × M) _) := fun f hf s => hf s
    refine Leaves.bind (hmodify _ ?_) (fun _ => ?_) htrans s'
    · exact fun s => rfl
    refine Leaves.bind (hmodify _ ?_) (fun _ => ?_) htrans
    · exact fun s => rfl
    refine sameVerdicts_flush.bind (fun _ => ?_) htrans
    exact fun s => rfl

/-- What `judge_claim` applies when its result is not cached, and when it is. -/
theorem verdicts_judgeClaim (P : Companions M) (s : OracleLab F C) (m : M) :
    (ran (judgeClaim (V.with P) c) (withState s m)).2.result.verdicts =
      match key (V.with silent) [py "claim", oracleVersion, c.claimId] with
      | .error _ => []
      | .ok cacheKey =>
        match s.claims.get cacheKey with
        | some cached => cached.verdicts
        | none => (ran (oracleQueryTemplates.forM (considerTemplate (V.with P) c))
            (started c (withState s m))).2.result.verdicts := by
  have hstart : ran (modify (started c) : OracleRun F (C × M) _) (withState s m) =
      (.ok ⟨⟩, started c (withState s m)) := rfl
  have hget : ran (get : OracleRun F (C × M) _) (started c (withState s m)) =
      (.ok (started c (withState s m)), started c (withState s m)) := rfl
  have hkey : key (V.with P) [py "claim", oracleVersion, c.claimId] =
      key (V.with silent) [py "claim", oracleVersion, c.claimId] := rfl
  have hclaims : (started c (withState s m)).claims = s.claims := rfl
  rw [judgeClaim, ran_bind_ok hstart, hkey]
  cases key (V.with silent) [py "claim", oracleVersion, c.claimId] with
  | error e => rfl
  | ok cacheKey =>
    dsimp only
    rw [judgeKeyed, ran_bind_ok hget, hclaims]
    cases s.claims.get cacheKey with
    | some cached => rfl
    | none => exact verdicts_judgeFresh (V.with P) c cacheKey _

/-- A hit that states a year outside these. -/
def Outside (year : Payload F → Option ℤ) (first last : ℤ) (hit : Payload F) : Prop :=
  ∃ y, year hit = some y ∧ (y < first ∨ last < y)

/-- Whatever transport comes with the client, no verdict that `judge_claim` applies is about a
passage of a year outside the validation window. -/
def OracleKeepsWindow (year : Payload F → Option ℤ) (V : Validation F C) (c : Claim)
    (s : OracleLab F C) : Prop :=
  ∀ (M : Type) (P : Companions M) (m : M),
    ∀ v ∈ (ran (judgeClaim (V.with P) c) (withState s m)).2.result.verdicts,
      ¬Outside year V.yearFrom V.yearTo v.passage.hit

theorem passages_verdicts_subset (P : Companions M) (s : OracleLab F C) (m : M) :
    ∀ v ∈ (ran (judgeClaim (V.with P) c) (withState s m)).2.result.verdicts,
      v.passage ∈ passagesJudged V c s := by
  unfold passagesJudged
  rw [verdicts_judgeClaim]
  cases key (V.with silent) [py "claim", oracleVersion, c.claimId] with
  | error e =>
    intro v hv
    exact absurd hv List.not_mem_nil
  | ok cacheKey =>
    dsimp only
    rw [passagesKeyed]
    cases s.claims.get cacheKey with
    | some cached =>
      intro v hv
      exact List.mem_map_of_mem hv
    | none =>
      obtain ⟨vs, hvs, hall⟩ := within_templates (V := V) (c := c) P oracleQueryTemplates
        (started c (withState s m))
      dsimp only
      rw [hvs]
      exact hall

theorem passages_verdicts_answering (s : OracleLab F C) :
    (ran (judgeClaim (V.with (answering F)) c) (withState s ())).2.result.verdicts.map (·.passage) =
      passagesJudged V c s := by
  unfold passagesJudged
  rw [verdicts_judgeClaim]
  cases key (V.with silent) [py "claim", oracleVersion, c.claimId] with
  | error e => rfl
  | ok cacheKey =>
    dsimp only
    rw [passagesKeyed]
    cases s.claims.get cacheKey with
    | some cached => rfl
    | none => exact covers_templates oracleQueryTemplates (started c (withState s ()))

theorem oracleKeepsWindow_iff (year : Payload F → Option ℤ) (V : Validation F C) (c : Claim)
    (s : OracleLab F C) :
    OracleKeepsWindow year V c s ↔
      ∀ p ∈ passagesJudged V c s, ¬Outside year V.yearFrom V.yearTo p.hit := by
  constructor
  · intro h p hp
    rw [← passages_verdicts_answering] at hp
    obtain ⟨v, hv, rfl⟩ := List.mem_map.mp hp
    exact h Unit (answering F) () v hv
  · intro h M P m v hv
    exact h v.passage (passages_verdicts_subset P s m v hv)

end Oracle

/-- The windows hold against the client exactly when no hit that is read (by the methods) or judged
(by the oracle) states a year outside them, whatever a stated year is taken to be. -/
theorem windows_iff (year : Payload F → Option ℤ) :
    (∀ (D : Discovery F C) (method : Methods.Method) (claims : List Claim) (w : C),
      KeepsWindow year D method claims w ↔
        method = .vanillaRag ∨
          ∀ p ∈ passagesRead D claims w, ¬Later year D.discoveryYearTo p.hit) ∧
    ∀ (V : Validation F C) (c : Claim) (s : Oracle.OracleLab F C),
      OracleKeepsWindow year V c s ↔
        ∀ p ∈ passagesJudged V c s, ¬Outside year V.yearFrom V.yearTo p.hit :=
  ⟨fun D => keepsWindow_iff D year, oracleKeepsWindow_iff year⟩

/-! ## A client that does not filter -/

/-- An abstract of 2026. -/
def lateHit : Payload NonFinite :=
  [(.str (py "doc_id"), .str (py "d1")), (.str (py "abstract"), .str (py "Oxides harden.")),
    (.str (py "publication_published_year"), .int 2026)]

def lateDiscovery : Discovery NonFinite Unit where
  interpreter := QuoteGate.sampleInterpreter
  client _ w := (.ok [.dict lateHit], w)
  sqrt n := n
  discoveryYearTo := 2021
  mctsIterations := 8

def lateValidation : Validation NonFinite Unit where
  interpreter := QuoteGate.sampleInterpreter
  client _ w := (.ok [.dict lateHit], w)
  yearFrom := 2022
  yearTo := 2025
  topK := 4

/-- Methods up to 2021 and an oracle from 2022 to 2025 both judge it. -/
theorem not_windows :
    ¬KeepsWindow statedYear lateDiscovery .dualCedg [QuoteGate.sampleClaim] () ∧
      ¬OracleKeepsWindow statedYear lateValidation QuoteGate.sampleClaim (QuoteGate.fresh ()) := by
  have hread : (passagesRead lateDiscovery [QuoteGate.sampleClaim] ()).map (statedYear ·.hit) =
      [some 2026, some 2026, some 2026] := by
    decide +kernel
  have hjudged : (passagesJudged lateValidation QuoteGate.sampleClaim (QuoteGate.fresh ())).map
      (statedYear ·.hit) = [some 2026] := by
    decide +kernel
  rw [keepsWindow_iff, oracleKeepsWindow_iff]
  constructor
  · intro h
    obtain ⟨p, hp, hyear⟩ := List.mem_map.mp (hread ▸ List.mem_cons_self :
      some 2026 ∈ (passagesRead lateDiscovery [QuoteGate.sampleClaim] ()).map (statedYear ·.hit))
    exact h.resolve_left (by decide) p hp ⟨2026, hyear, by decide⟩
  · intro h
    obtain ⟨p, hp, hyear⟩ := List.mem_map.mp (hjudged ▸ List.mem_cons_self :
      some 2026 ∈ (passagesJudged lateValidation QuoteGate.sampleClaim (QuoteGate.fresh ())).map
        (statedYear ·.hit))
    exact h p hp ⟨2026, hyear, .inr (by decide)⟩

end TimeSplit
