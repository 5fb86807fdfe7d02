import VeriMat.Methods
import VeriMat.Oracle

/-! # The quote gate

A verdict is to rest on a quote that is not empty and that occurs in what the model was shown.
Both gates look for the quote in the whole passage, where the empty text occurs too, and each has
answers that end neither in a verdict nor in a refusal: a method fails on JSON that is no object,
the oracle on a label that it does not know. -/
namespace QuoteGate

open PyText JsonText PyValue PyDisplay PyDict Events Transaction ModelTransports Verification
open DecisionGraph (Payload getItem)

variable {F W : Type} [PyFloat F]

/-- A quote that says something, and says it in what the model was shown of the passage. -/
def Grounded (I : Interpreter) (quote : PyStr) (passage : Passage F) : Prop :=
  I.normaliseQuote quote ≠ [] ∧ I.quoted quote (shown passage.text) = true

/-- The value of an answer; `none` is an exception or a text that is no JSON. -/
def answerOf (reply : Except PyStr PyStr) : Option (PyVal F) :=
  match reply with
  | .error _ => none
  | .ok text => (loads text).map ofJson

/-! ## The methods -/

section Methods
open Methods

/-- An answer that a method's gate treats as it should: one that is JSON is an object, and a quote
that passes the gate is grounded. -/
def MethodAnswer (I : Interpreter) (h : Heard F) : Prop :=
  match (answerOf h.reply : Option (PyVal F)) with
  | none => True
  | some (.dict parsed) =>
    I.quoted (textOf I parsed (py "quote")) h.passage.text = true →
      Grounded I (textOf I parsed (py "quote")) h.passage
  | some _ => False

/-- A verdict, if it is one, that is grounded. -/
def GroundedOutcome (I : Interpreter) (o : Verdict F ⊕ Refusal) : Prop :=
  ∀ v, o = .inl v → Grounded I v.quote v.passage

omit [PyFloat F] in
theorem groundedOutcome_refusal (I : Interpreter) (r : Refusal) :
    GroundedOutcome I (.inr r : Verdict F ⊕ Refusal) := by
  rintro v ⟨⟩

theorem methodAnswer_iff {I : Interpreter} {passage : Passage F} {reply : Except PyStr PyStr} :
    MethodAnswer I ⟨passage, reply⟩ ↔
      ∃ o, judgeReply I passage reply = .ok o ∧ GroundedOutcome I o := by
  cases reply with
  | error text => exact iff_of_true trivial ⟨_, rfl, groundedOutcome_refusal I _⟩
  | ok text =>
    simp only [MethodAnswer, answerOf, judgeReply]
    cases (loads text : Option (Json F)).map ofJson with
    | none => exact iff_of_true trivial ⟨_, rfl, groundedOutcome_refusal I _⟩
    | some value =>
      cases value with
      | dict parsed =>
        dsimp only
        by_cases hquoted : I.quoted (textOf I parsed (py "quote")) passage.text = true
        · rw [if_pos hquoted]
          constructor
          · intro h
            refine ⟨_, rfl, ?_⟩
            rintro v ⟨⟩
            exact h hquoted
          · rintro ⟨o, ho, hgrounded⟩ -
            obtain rfl := Except.ok.inj ho
            exact hgrounded _ rfl
        · rw [if_neg hquoted]
          exact iff_of_true (fun h => absurd h hquoted) ⟨_, rfl, groundedOutcome_refusal I _⟩
      | _ =>
        refine iff_of_false id ?_
        rintro ⟨o, ⟨⟩, -⟩

/-- The request about a passage can always be written. -/
theorem verifyRequest_isOk (c : Claim) (passage : Passage F) :
    ∃ request, verifyRequest c passage = .ok request := by
  let claimJson : Json F := .obj [(py "claim_id", .str c.claimId),
    (py "relation_id", .str c.relationId), (py "material", .str c.material),
    (py "structural_feature", .str c.structuralFeature), (py "property_name", .str c.propertyName),
    (py "direction", .str c.direction), (py "quote", .str c.quote),
    (py "passage_id", .str c.passageId), (py "composition", .str c.composition),
    (py "value", .str c.value), (py "unit", .str c.unit)]
  let user : Json F := .obj [(py "claim", claimJson), (py "passage", .str (shown passage.text))]
  have hfinite : user.Finite := by
    simp [user, claimJson, Json.Finite, FiniteMembers]
  have hdumps : dumps (ofJson user) = .ok (render (sortNames user)) := dumps_ofJson hfinite
  exact ⟨_, congrArg (Except.map _) hdumps⟩

variable (ctx : MethodContext F W) (c : Claim)

/-- One passage is asked about once. -/
theorem ran_judgePassage (passage : Passage F) (s : Lab F W) : ∃ reply w,
    ran (judgePassage ctx c passage) s =
      (judgeReply ctx.interpreter passage reply, ⟨w, s.heard ++ [⟨passage, reply⟩]⟩) := by
  obtain ⟨request, hrequest⟩ := verifyRequest_isOk c passage
  refine ⟨(ctx.services.complete request s.world).1, (ctx.services.complete request s.world).2, ?_⟩
  rw [judgePassage, hrequest]
  dsimp only
  rw [ran_bind_ok (ran_call _ s), ran_bind_ok (ran_hear _ _ _)]
  cases judgeReply ctx.interpreter passage (ctx.services.complete request s.world).1 with
  | error e => rfl
  | ok outcome => rfl

/-- The answers heard about passages, and what they led to. -/
theorem ran_judge (passages : List (Passage F)) (s : Lab F W) : ∃ answers,
    (ran (passages.mapM (judgePassage ctx c)) s).2.heard = s.heard ++ answers ∧
      ((∀ h ∈ answers, MethodAnswer ctx.interpreter h) ↔
        ∃ outcomes, (ran (passages.mapM (judgePassage ctx c)) s).1 = .ok outcomes ∧
          outcomes.length = passages.length ∧ ∀ o ∈ outcomes, GroundedOutcome ctx.interpreter o) := by
  induction passages generalizing s with
  | nil =>
    refine ⟨[], (List.append_nil _).symm, ?_⟩
    exact iff_of_true (by simp) ⟨[], rfl, rfl, by simp⟩
  | cons passage passages ih =>
    obtain ⟨reply, w, hfirst⟩ := ran_judgePassage ctx c passage s
    have hanswer : MethodAnswer ctx.interpreter ⟨passage, reply⟩ ↔ _ := methodAnswer_iff
    rw [List.mapM_cons]
    cases hjudge : judgeReply ctx.interpreter passage reply with
    | error e =>
      rw [hjudge] at hfirst hanswer
      rw [ran_bind_error hfirst]
      refine ⟨[⟨passage, reply⟩], rfl, iff_of_false ?_ ?_⟩
      · intro h
        obtain ⟨o, ⟨⟩, -⟩ := hanswer.mp (h _ (List.mem_singleton_self _))
      · rintro ⟨outcomes, ⟨⟩, -⟩
    | ok o =>
      rw [hjudge] at hfirst hanswer
      have hgrounded : MethodAnswer ctx.interpreter ⟨passage, reply⟩ ↔
          GroundedOutcome ctx.interpreter o :=
        ⟨fun h => by obtain ⟨_, ⟨⟩, ho⟩ := hanswer.mp h; exact ho, fun h => hanswer.mpr ⟨o, rfl, h⟩⟩
      obtain ⟨answers, hheard, hiff⟩ := ih ⟨w, s.heard ++ [⟨passage, reply⟩]⟩
      rw [ran_bind_ok hfirst]
      refine ⟨⟨passage, reply⟩ :: answers, ?_, ?_⟩
      · rw [ran_bind_pure_snd, hheard, List.append_assoc]
        rfl
      · rw [List.forall_mem_cons, hgrounded, hiff]
        constructor
        · rintro ⟨ho, outcomes, hran, hlength, hall⟩
          refine ⟨o :: outcomes, ran_bind_pure_ok.mpr ⟨outcomes, hran, rfl⟩, ?_, ?_⟩
          · rw [List.length_cons, List.length_cons, hlength]
          · exact List.forall_mem_cons.mpr ⟨ho, hall⟩
        · rintro ⟨outcomes, hran, hlength, hall⟩
          obtain ⟨rest, hrest, rfl⟩ := ran_bind_pure_ok.mp hran
          obtain ⟨ho, hrestall⟩ := List.forall_mem_cons.mp hall
          exact ⟨ho, rest, hrest, Nat.succ.inj hlength, hrestall⟩

omit [PyFloat F] in
/-- Every outcome is a verdict or a refusal. -/
theorem length_outcomes (outcomes : List (Verdict F ⊕ Refusal)) :
    (outcomes.filterMap Sum.getLeft?).length + (outcomes.filterMap Sum.getRight?).length =
      outcomes.length := by
  induction outcomes with
  | nil => rfl
  | cons o outcomes ih =>
    cases o with
    | inl v => simp only [List.filterMap_cons, Sum.getLeft?, Sum.getRight?, List.length_cons]; omega
    | inr r => simp only [List.filterMap_cons, Sum.getLeft?, Sum.getRight?, List.length_cons]; omega

/-- The passages have been judged, every verdict is grounded and every other passage refused. -/
def MethodGated (ctx : MethodContext F W) (c : Claim) (passages : List (Passage F)) (w : W) : Prop :=
  ∃ verdicts refused s, judgePassages ctx c passages ⟨w, []⟩ = .ok (verdicts, refused) s ∧
    verdicts.length + refused.length = passages.length ∧
    ∀ v ∈ verdicts, Grounded ctx.interpreter v.quote v.passage

theorem methodGated_iff (passages : List (Passage F)) (w : W) :
    MethodGated ctx c passages w ↔
      ∀ h ∈ (ran (judgePassages ctx c passages) ⟨w, []⟩).2.heard, MethodAnswer ctx.interpreter h := by
  obtain ⟨answers, hheard, hiff⟩ := ran_judge ctx c passages ⟨w, []⟩
  rw [judgePassages, ran_bind_pure_snd, hheard, List.nil_append, hiff]
  constructor
  · rintro ⟨verdicts, refused, s, hran, hlength, hall⟩
    obtain ⟨outcomes, houtcomes, hpair⟩ := ran_bind_pure_ok.mp (ran_ok_fst.mpr ⟨s, hran⟩)
    obtain ⟨rfl, rfl⟩ := Prod.mk.inj hpair
    refine ⟨outcomes, houtcomes, ?_, ?_⟩
    · rw [← hlength, length_outcomes]
    · rintro o ho v rfl
      exact hall v (List.mem_filterMap.mpr ⟨_, ho, rfl⟩)
  · rintro ⟨outcomes, houtcomes, hlength, hall⟩
    obtain ⟨s, hs⟩ := ran_ok_fst.mp (ran_bind_pure_ok.mpr ⟨outcomes, houtcomes, rfl⟩)
    refine ⟨_, _, s, hs, (length_outcomes outcomes).trans hlength, ?_⟩
    intro v hv
    obtain ⟨o, ho, hov⟩ := List.mem_filterMap.mp hv
    exact hall o ho v (Sum.getLeft?_eq_some_iff.mp hov)

end Methods

/-! ## The oracle -/

section Oracle
open Oracle

/-- An answer that the oracle's gate treats as it should: a quote that passes the gate is grounded
and comes with a label that the oracle knows. -/
def OracleAnswer (I : Interpreter) (h : Heard F) : Prop :=
  match (answerOf h.reply : Option (PyVal F)) with
  | some (.dict value) =>
    I.quoted (textOf I value (py "quote")) h.passage.text = true →
      Grounded I (textOf I value (py "quote")) h.passage ∧
        textOf I value (py "verdict") ∈ admissibleLabels
  | _ => True

/-- Every verdict is grounded, and every other answer refused. -/
def Gated (I : Interpreter) (r : ClaimOracleResult F) : Prop :=
  (∀ v ∈ r.verdicts, Grounded I v.quote v.passage) ∧
    r.verdicts.length + r.refused.length = r.answers.length

/-- Every answer is a verdict or refused, and grounded verdicts are those of sound answers. -/
structure Balanced (I : Interpreter) (r : ClaimOracleResult F) : Prop where
  length_eq : r.verdicts.length + r.refused.length = r.answers.length
  grounded_iff : (∀ v ∈ r.verdicts, Grounded I v.quote v.passage) ↔
    ∀ h ∈ r.answers, OracleAnswer I h

/-- The quote gate holds of a result if and only if its answers allow it. -/
def Coherent (I : Interpreter) (r : ClaimOracleResult F) : Prop :=
  Gated I r ↔ ∀ h ∈ r.answers, OracleAnswer I h

variable {I : Interpreter} {r : ClaimOracleResult F}

theorem Balanced.coherent (h : Balanced I r) : Coherent I r := by
  rw [Coherent, Gated, ← h.grounded_iff]
  exact and_iff_left h.length_eq

/-- An answer that was neither applied nor refused. -/
theorem Balanced.coherent_dropped (h : Balanced I r) {answer : Heard F}
    (hanswer : ¬OracleAnswer I answer) :
    Coherent I { r with answers := r.answers ++ [answer] } := by
  refine iff_of_false ?_ ?_
  · rintro ⟨-, hlength⟩
    have hall := h.length_eq
    simp only [List.length_append, List.length_singleton] at hlength
    omega
  · intro hall
    exact hanswer (hall answer (List.mem_append_right _ (List.mem_singleton_self _)))

theorem Balanced.refuse (h : Balanced I r) {answer : Heard F} (hanswer : OracleAnswer I answer)
    (refusal : OracleRefusal) :
    Balanced I { r with answers := r.answers ++ [answer], refused := r.refused ++ [refusal] } where
  length_eq := by
    have hall := h.length_eq
    simp only [List.length_append, List.length_singleton]
    omega
  grounded_iff := by
    rw [h.grounded_iff]
    simp only [List.forall_mem_append, List.forall_mem_singleton, hanswer, and_true]

theorem Balanced.apply (h : Balanced I r) {answer : Heard F} {v : OracleVerdict F}
    (hanswer : OracleAnswer I answer ↔ Grounded I v.quote v.passage) :
    Balanced I { r with answers := r.answers ++ [answer], verdicts := r.verdicts ++ [v] } where
  length_eq := by
    have hall := h.length_eq
    simp only [List.length_append, List.length_singleton]
    omega
  grounded_iff := by
    simp only [List.forall_mem_append, List.forall_mem_singleton, h.grounded_iff, hanswer]

theorem balanced_blank (claimId : PyStr) :
    Balanced I (⟨claimId, .unresolved, [], [], 0, 0, []⟩ : ClaimOracleResult F) :=
  ⟨rfl, by simp⟩

/-- What becomes of an answer. -/
theorem judgeReply_cases (O : TimeSplitOracle F W) (template : PyStr) (passage : Passage F)
    (reply : Except PyStr PyStr) :
    (∃ e, judgeReply O template passage reply = .error e ∧
        ¬OracleAnswer O.interpreter ⟨passage, reply⟩) ∨
      (∃ v, judgeReply O template passage reply = .ok (.inl v) ∧
        (OracleAnswer O.interpreter ⟨passage, reply⟩ ↔
          Grounded O.interpreter v.quote v.passage)) ∨
      ∃ refusal, judgeReply O template passage reply = .ok (.inr refusal) ∧
        OracleAnswer O.interpreter ⟨passage, reply⟩ := by
  cases reply with
  | error text => exact .inr (.inr ⟨_, rfl, trivial⟩)
  | ok text =>
    simp only [OracleAnswer, answerOf, judgeReply]
    cases (loads text : Option (Json F)).map ofJson with
    | none => exact .inr (.inr ⟨_, rfl, trivial⟩)
    | some value =>
      cases value with
      | dict value =>
        dsimp only
        by_cases hquoted :
            O.interpreter.quoted (textOf O.interpreter value (py "quote")) passage.text = true
        · rw [if_pos hquoted]
          by_cases hlabel : textOf O.interpreter value (py "verdict") ∈ admissibleLabels
          · rw [if_pos hlabel]
            exact .inr (.inl ⟨_, rfl, fun h => (h hquoted).1, fun h _ => ⟨h, hlabel⟩⟩)
          · rw [if_neg hlabel]
            exact .inl ⟨_, rfl, fun h => hlabel (h hquoted).2⟩
        · rw [if_neg hquoted]
          exact .inr (.inr ⟨_, rfl, fun h => absurd h hquoted⟩)
      | _ => exact .inr (.inr ⟨_, rfl, trivial⟩)

/-- What is cached is coherent, and its state is that of its verdicts. -/
def CacheOk (I : Interpreter) (s : OracleLab F W) : Prop :=
  ∀ k r, s.claims.get k = some r → Coherent I r ∧ r.state = oracleState r.verdicts

/-- A claim is being judged. -/
def UnderWay (I : Interpreter) (s : OracleLab F W) : Prop := CacheOk I s ∧ Balanced I s.result

/-- A call has ended. -/
def Ended (I : Interpreter) (s : OracleLab F W) : Prop := CacheOk I s ∧ Coherent I s.result

theorem UnderWay.ended {s : OracleLab F W} (h : UnderWay I s) : Ended I s := ⟨h.1, h.2.coherent⟩

/-- An answer has been heard and nothing made of it yet. -/
def Hearing (I : Interpreter) (answer : Heard F) (s : OracleLab F W) : Prop :=
  CacheOk I s ∧ ∃ r, Balanced I r ∧ s.result = { r with answers := r.answers ++ [answer] }

variable (O : TimeSplitOracle F W)

theorem judgeRequest_isOk (c : Claim) (passage : Passage F) (operation : PyStr) :
    ∃ request, judgeRequest O c passage operation = .ok request := by
  let claimJson : Json F := .obj [(py "material", .str c.material),
    (py "structural_feature", .str c.structuralFeature), (py "property_name", .str c.propertyName),
    (py "direction", .str c.direction),
    (py "discovery_window", .str (py "2000-" ++ intText (O.yearFrom - 1)))]
  let user : Json F :=
    .obj [(py "claim", claimJson), (py "later_passage", .str (shown passage.text))]
  have hfinite : user.Finite := by
    simp [user, claimJson, Json.Finite, FiniteMembers]
  have hdumps : dumps (ofJson user) = .ok (render (sortNames user)) := dumps_ofJson hfinite
  exact ⟨_, congrArg (Except.map _) hdumps⟩

theorem triple_complete (passage : Passage F) (request : ModelRequest) :
    Triple (UnderWay O.interpreter) (Oracle.complete O passage request)
      (fun reply => Hearing O.interpreter ⟨passage, reply⟩) (Ended O.interpreter) := by
  intro s hs
  constructor
  · rintro _ _ ⟨⟩
    exact ⟨hs.1, s.result, hs.2, rfl⟩
  · rintro _ _ ⟨⟩

theorem triple_judgePassage (c : Claim) (template : PyStr) (passage : Passage F)
    (operation : PyStr) :
    Triple (UnderWay O.interpreter) (judgePassage O c template passage operation)
      (fun _ => UnderWay O.interpreter) (Ended O.interpreter) := by
  obtain ⟨request, hrequest⟩ := judgeRequest_isOk O c passage operation
  rw [judgePassage, hrequest]
  refine (triple_complete O passage request).bind fun reply => ?_
  rcases judgeReply_cases O template passage reply with
    ⟨e, hreply, hanswer⟩ | ⟨v, hreply, hanswer⟩ | ⟨refusal, hreply, hanswer⟩
  · rw [hreply]
    refine triple_throw ?_
    rintro s ⟨hcache, r, hr, hresult⟩
    refine ⟨hcache, ?_⟩
    rw [hresult]
    exact hr.coherent_dropped hanswer
  · rw [hreply]
    refine triple_modify ?_
    rintro s ⟨hcache, r, hr, hresult⟩
    refine ⟨hcache, ?_⟩
    simp only [hresult]
    exact hr.apply hanswer
  · rw [hreply]
    refine triple_modify ?_
    rintro s ⟨hcache, r, hr, hresult⟩
    refine ⟨hcache, ?_⟩
    simp only [hresult]
    exact hr.refuse hanswer refusal

theorem triple_considerPassage (c : Claim) (template docId text : PyStr) (hit : Payload F) :
    Triple (UnderWay O.interpreter) (considerPassage O c template docId text hit)
      (fun _ => UnderWay O.interpreter) (Ended O.interpreter) := by
  refine (triple_modify (Q := fun _ => UnderWay O.interpreter) fun s hs => ⟨hs.1, ?_⟩).bind fun _ => ?_
  · exact ⟨hs.2.length_eq, hs.2.grounded_iff⟩
  cases passageKeys O c docId text with
  | error e => exact triple_throw fun s hs => hs.ended
  | ok keys => exact triple_judgePassage O c template _ keys.2

theorem triple_considerHit (c : Claim) (template : PyStr) (hit : Payload F) :
    Triple (UnderWay O.interpreter) (considerHit O c template hit)
      (fun _ => UnderWay O.interpreter) (Ended O.interpreter) := by
  refine Triple.get fun s hs => ?_
  split
  · exact triple_pure fun s' hs' => hs' ▸ hs
  · exact (triple_considerPassage O c template _ _ hit).weaken (fun s' hs' => hs' ▸ hs) fun _ _ h => h

theorem triple_search (query : PyStr) :
    Triple (UnderWay O.interpreter) (Oracle.search O query) (fun _ => UnderWay O.interpreter)
      (Ended O.interpreter) := by
  refine Triple.get fun s hs => ?_
  dsimp only
  refine (triple_set (Q := fun _ => UnderWay O.interpreter) ?_).bind fun _ => ?_
  · exact fun _ _ => hs
  split
  · exact triple_pure fun s' hs' => hs'
  · exact triple_pure fun s' hs' => hs'

theorem triple_considerTemplate (c : Claim) (template : Template) :
    Triple (UnderWay O.interpreter) (considerTemplate O c template)
      (fun _ => UnderWay O.interpreter) (Ended O.interpreter) := by
  refine (triple_modify (Q := fun _ => UnderWay O.interpreter) fun s hs => ⟨hs.1, ?_⟩).bind fun _ => ?_
  · exact ⟨hs.2.length_eq, hs.2.grounded_iff⟩
  · exact (triple_search O _).bind fun hits => triple_forM (triple_considerHit O c template.text) hits

/-- The result of the call in the state of its verdicts. -/
def Complete (I : Interpreter) (s : OracleLab F W) : Prop :=
  Ended I s ∧ s.result.state = oracleState s.result.verdicts

theorem triple_flush : Triple (Complete O.interpreter) (flush : OracleRun F W Unit)
    (fun _ => Complete O.interpreter) (Ended O.interpreter) := by
  refine Triple.get fun s hs => ?_
  cases canonicalJson (cacheValue s) with
  | error cause => exact triple_throw fun s' hs' => hs' ▸ hs.1
  | ok text =>
    dsimp only
    cases encode (text ++ py "\n") with
    | none =>
      dsimp only
      refine (triple_set (Q := fun _ => Ended O.interpreter) ?_).bind fun _ => ?_
      · exact fun _ _ => hs.1
      · exact triple_throw fun s' hs' => hs'
    | some bytes => exact triple_set fun _ _ => hs

/-- What a call returns is the result it has left. -/
theorem triple_result : Triple (Complete O.interpreter)
    (do return (← get).result : OracleRun F W (ClaimOracleResult F))
    (fun r s => Complete O.interpreter s ∧ r = s.result) (Ended O.interpreter) := by
  refine Triple.get fun s hs => ?_
  refine triple_pure ?_
  rintro _ rfl
  exact ⟨hs, rfl⟩

theorem triple_judgeFresh (c : Claim) (cacheKey : PyStr) :
    Triple (UnderWay O.interpreter) (judgeFresh O c cacheKey)
      (fun r s => Complete O.interpreter s ∧ r = s.result) (Ended O.interpreter) := by
  refine (triple_forM (triple_considerTemplate O c) oracleQueryTemplates).bind fun _ => ?_
  refine (triple_modify (Q := fun _ => Complete O.interpreter) ?_).bind fun _ => ?_
  · rintro s ⟨hcache, hbalanced⟩
    have hresult : Balanced O.interpreter
        { s.result with state := oracleState s.result.verdicts } :=
      ⟨hbalanced.length_eq, hbalanced.grounded_iff⟩
    exact ⟨⟨hcache, hresult.coherent⟩, rfl⟩
  refine (triple_modify (Q := fun _ => Complete O.interpreter) ?_).bind fun _ => ?_
  · rintro s ⟨⟨hcache, hcoherent⟩, hstate⟩
    refine ⟨⟨?_, hcoherent⟩, hstate⟩
    intro k r hk
    rw [Dict.get_set] at hk
    split at hk
    · obtain rfl := Option.some.inj hk
      exact ⟨hcoherent, hstate⟩
    · exact hcache k r hk
  exact (triple_flush O).bind fun _ => triple_result O

theorem triple_judgeKeyed (c : Claim) (cacheKey : PyStr) :
    Triple (UnderWay O.interpreter) (judgeKeyed O c cacheKey)
      (fun r s => Complete O.interpreter s ∧ r = s.result) (Ended O.interpreter) := by
  refine Triple.get fun s hs => ?_
  cases hget : s.claims.get cacheKey with
  | none => exact (triple_judgeFresh O c cacheKey).weaken (fun s' hs' => hs' ▸ hs) fun _ _ h => h
  | some cached =>
    obtain ⟨hcoherent, hstate⟩ := hs.1 cacheKey cached hget
    refine (triple_modify (Q := fun _ => Complete O.interpreter) ?_).bind fun _ => triple_result O
    rintro _ rfl
    exact ⟨⟨hs.1, hcoherent⟩, hstate⟩

theorem triple_judgeClaim (c : Claim) :
    Triple (CacheOk O.interpreter) (judgeClaim O c)
      (fun r s => Complete O.interpreter s ∧ r = s.result) (Ended O.interpreter) := by
  refine (triple_modify (Q := fun _ => UnderWay O.interpreter) ?_).bind fun _ => ?_
  · exact fun s hs => ⟨hs, balanced_blank c.claimId⟩
  · cases key O [py "claim", oracleVersion, c.claimId] with
    | error e => exact triple_throw fun s hs => hs.ended
    | ok cacheKey => exact triple_judgeKeyed O c cacheKey

/-! ## Every call -/

/-- The oracle after these calls, whether they returned or raised. -/
def after (O : TimeSplitOracle F W) (calls : List Claim) (s : OracleLab F W) : OracleLab F W :=
  calls.foldl (fun s c => (ran (judgeClaim O c) s).2) s

/-- An oracle without a cache file. -/
def fresh (w : W) : OracleLab F W :=
  ⟨w, empty, [], none, [], ⟨[], .unresolved, [], [], 0, 0, []⟩⟩

theorem ended_judgeClaim (c : Claim) {s : OracleLab F W} (hs : CacheOk O.interpreter s) :
    Ended O.interpreter (ran (judgeClaim O c) s).2 := by
  obtain ⟨hok, herror⟩ := triple_judgeClaim O c s hs
  unfold ran
  cases h : judgeClaim O c s with
  | ok r s' => exact (hok r s' h).1.1
  | error e s' => exact herror e s' h

theorem cacheOk_after (calls : List Claim) (w : W) :
    CacheOk O.interpreter (after O calls (fresh w)) := by
  have hrun : ∀ (calls : List Claim) (s : OracleLab F W), CacheOk O.interpreter s →
      CacheOk O.interpreter (after O calls s) := by
    intro calls
    induction calls with
    | nil => exact fun s hs => hs
    | cons c calls ih => exact fun s hs => ih _ (ended_judgeClaim O c hs).1
  refine hrun calls _ ?_
  intro k r hk
  cases hk

/-- A call of `judge_claim` has applied grounded verdicts and refused every other answer, and what
it returns has the state of these verdicts. -/
def OracleGated (O : TimeSplitOracle F W) (c : Claim) (s : OracleLab F W) : Prop :=
  Gated O.interpreter (ran (judgeClaim O c) s).2.result ∧
    ∀ r, (ran (judgeClaim O c) s).1 = .ok r →
      r = (ran (judgeClaim O c) s).2.result ∧ r.state = oracleState r.verdicts

theorem oracleGated_iff (c : Claim) {s : OracleLab F W} (hs : CacheOk O.interpreter s) :
    OracleGated O c s ↔
      ∀ h ∈ (ran (judgeClaim O c) s).2.result.answers, OracleAnswer O.interpreter h := by
  have hcoherent : Gated O.interpreter (ran (judgeClaim O c) s).2.result ↔ _ :=
    (ended_judgeClaim O c hs).2
  have hreturns : ∀ r, (ran (judgeClaim O c) s).1 = .ok r →
      r = (ran (judgeClaim O c) s).2.result ∧ r.state = oracleState r.verdicts := by
    intro r hr
    obtain ⟨s', hs'⟩ := ran_ok_fst.mp hr
    obtain ⟨hcomplete, rfl⟩ := (triple_judgeClaim O c s hs).1 r s' hs'
    rw [ran_ok hs']
    exact ⟨rfl, hcomplete.2⟩
  rw [OracleGated, hcoherent]
  exact and_iff_left hreturns

end Oracle

/-- In both gates, over all answers that a transport may give: the verdicts rest on grounded quotes
and every other answer is refused exactly when each answer is one that the gate treats so. -/
theorem gated_iff :
    (∀ (ctx : Methods.MethodContext F W) (c : Claim) (passages : List (Passage F)) (w : W),
      MethodGated ctx c passages w ↔
        ∀ h ∈ (ran (Methods.judgePassages ctx c passages) ⟨w, []⟩).2.heard,
          MethodAnswer ctx.interpreter h) ∧
    ∀ (O : Oracle.TimeSplitOracle F W) (calls : List Claim) (c : Claim) (w : W),
      OracleGated O c (after O calls (fresh w)) ↔
        ∀ h ∈ (ran (Oracle.judgeClaim O c) (after O calls (fresh w))).2.result.answers,
          OracleAnswer O.interpreter h :=
  ⟨methodGated_iff, fun O calls c w => oracleGated_iff O c (cacheOk_after O calls w)⟩

/-! ## An answer without a quote -/

def sampleInterpreter : Interpreter := ⟨⟨fun _ => true, []⟩, fun c => [c], id⟩

def sampleHit : Payload NonFinite :=
  [(.str (py "doc_id"), .str (py "d1")), (.str (py "abstract"), .str (py "Oxides harden."))]

/-- `{"verdict":"supported"}`. -/
def unquoted : PyStr := py "\x7b\"verdict\":\"supported\"\x7d"

def sampleClaim : Claim :=
  ⟨py "c1", py "r1", py "oxide", py "grain", py "hardness", py "increase", py "harden", py "p1", [], [],
    []⟩

def sampleMethods : Methods.MethodContext NonFinite Unit where
  interpreter := sampleInterpreter
  services :=
    { agenticSearch := fun _ w => (.ok [.dict sampleHit], w)
      complete := fun _ w => (.ok unquoted, w)
      observations := none }
  sqrt n := n
  discoveryYearTo := 2021
  mctsIterations := 8

def sampleOracle : Oracle.TimeSplitOracle NonFinite Unit where
  interpreter := sampleInterpreter
  agenticSearch _ w := (.ok [.dict sampleHit], w)
  complete _ w := (.ok unquoted, w)
  yearFrom := 2022
  yearTo := 2025
  topK := 4

theorem not_grounded_nil (passage : Passage NonFinite) :
    ¬Grounded sampleInterpreter [] passage := fun h => h.1 rfl

/-- Both gates let a verdict without a quote pass. -/
theorem not_gated :
    ¬MethodGated sampleMethods sampleClaim [⟨py "d1", py "Oxides harden.", sampleHit⟩] () ∧
      ¬OracleGated sampleOracle sampleClaim (fresh ()) := by
  constructor
  · rintro ⟨verdicts, refused, s, hran, -, hall⟩
    have hquotes : ((ran (Methods.judgePassages sampleMethods sampleClaim
        [⟨py "d1", py "Oxides harden.", sampleHit⟩]) ⟨(), []⟩).1.toOption.map fun judged =>
          judged.1.map (·.quote)) = some [[]] := by
      decide +kernel
    rw [ran_ok hran] at hquotes
    obtain ⟨v, rfl, hv⟩ := List.map_eq_singleton_iff.mp (Option.some.inj hquotes)
    have hgrounded := hall v (List.mem_singleton_self _)
    rw [hv] at hgrounded
    exact not_grounded_nil _ hgrounded
  · rintro ⟨⟨hall, -⟩, -⟩
    have hquotes : (ran (Oracle.judgeClaim sampleOracle sampleClaim) (fresh ())).2.result.verdicts.map
        (·.quote) = [[]] := by
      decide +kernel
    obtain ⟨v, hverdicts, hv⟩ := List.map_eq_singleton_iff.mp hquotes
    have hgrounded := hall v (by rw [hverdicts]; exact List.mem_singleton_self _)
    rw [hv] at hgrounded
    exact not_grounded_nil _ hgrounded

end QuoteGate
