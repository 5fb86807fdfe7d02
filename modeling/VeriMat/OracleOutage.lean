import VeriMat.JsonWritable
import VeriMat.QuoteGate

/-! # Outages of the oracle's services

`judge_claim` takes a search that fails for one without hits and a failed judgement for a refusal,
and then caches its result like any other. It raises in a few places: at a label it does not know,
and where a text that it has to hash or write cannot be encoded. -/
namespace OracleOutage

open PyText JsonText PyValue PyDisplay PyDict Events Transaction ModelTransports Verification
open JsonWritable Oracle QuoteGate
open DecisionGraph (Payload getItem)

variable {F W : Type} [PyFloat F]

/-! ## Failed calls -/

/-- The object of an answer; without one `_judge` raises. -/
def objectOf (reply : Except PyStr PyStr) : Option (Payload F) :=
  match (answerOf reply : Option (PyVal F)) with
  | some (.dict value) => some value
  | _ => none

/-- The services, with a flag next to their state: a search has raised, or a judgement has. -/
def watched (O : TimeSplitOracle F W) : TimeSplitOracle F (W × Bool) where
  interpreter := O.interpreter
  agenticSearch request w :=
    ((O.agenticSearch request w.1).1, (O.agenticSearch request w.1).2,
      w.2 || !(O.agenticSearch request w.1).1.isOk)
  complete request w :=
    ((O.complete request w.1).1, (O.complete request w.1).2,
      w.2 || (objectOf (O.complete request w.1).1 : Option (Payload F)).isNone)
  yearFrom := O.yearFrom
  yearTo := O.yearTo
  topK := O.topK

/-- The lab with the flag down. -/
def watch (s : OracleLab F W) : OracleLab F (W × Bool) :=
  ⟨(s.world, false), s.claims, s.gaps, s.file, s.seenDocs, s.result⟩

def unwatch (s : OracleLab F (W × Bool)) : OracleLab F W :=
  ⟨s.world.1, s.claims, s.gaps, s.file, s.seenDocs, s.result⟩

/-- A search or a judgement of the call raises. -/
def Failed (O : TimeSplitOracle F W) (c : Claim) (s : OracleLab F W) : Prop :=
  (ran (judgeClaim (watched O) c) (watch s)).2.world.2 = true

/-! ## What is asked of a call -/

/-- Every passage considered has been judged or refused, and the labels are admissible. -/
structure Sorted (r : ClaimOracleResult F) : Prop where
  labels : ∀ v ∈ r.verdicts, v.verdict ∈ admissibleLabels
  counted : r.verdicts.length + r.refused.length = r.documentsConsidered
  heard : ∀ h ∈ r.answers,
    (∃ v ∈ r.verdicts, v.passage = h.passage) ∨ ∃ x ∈ r.refused, x.passageRef = h.passage.ref

/-- The cache has a result of the claim. -/
def Serves (O : TimeSplitOracle F W) (c : Claim) (s : OracleLab F W) : Prop :=
  ∃ cacheKey cached, key O [py "claim", oracleVersion, c.claimId] = .ok cacheKey ∧
    s.claims.get cacheKey = some cached

/-- A call returns, its passages sorted, and where one of its calls has failed a later call does
not get its result from the cache. -/
structure Reliable (O : TimeSplitOracle F W) (c : Claim) (s : OracleLab F W) : Prop where
  returns : ∃ r, (ran (judgeClaim O c) s).1 = .ok r ∧ Sorted r
  retried : Failed O c s → ¬Serves O c (ran (judgeClaim O c) s).2

/-! ## The condition -/

section Condition
variable (O : TimeSplitOracle F W) (c : Claim)

/-- An answer the oracle can use: an object and, where its quote passes the gate, a label it knows
and a quote that can be encoded. -/
def Usable (I : Interpreter) (passage : Passage F) (reply : Except PyStr PyStr) : Prop :=
  ∃ value : Payload F, objectOf reply = some value ∧
    (I.quoted (textOf I value (py "quote")) passage.text = true →
      textOf I value (py "verdict") ∈ admissibleLabels ∧
        (encode (textOf I value (py "quote"))).isSome = true)

/-- The passage of a hit has its keys, and the judge has a usable answer about it. -/
def PassageAnswered (hit : Payload F) (w w' : W) : Prop :=
  ∃ ref operation request,
    passageKeys O c (docIdOf O.interpreter hit) (passageText O.interpreter hit) =
      .ok (ref, operation) ∧
    judgeRequest O c ⟨ref, passageText O.interpreter hit, hit⟩ operation = .ok request ∧
    Usable O.interpreter ⟨ref, passageText O.interpreter hit, hit⟩ (O.complete request w).1 ∧
    w' = (O.complete request w).2

/-- So it is for the hits of a search one after the other, and then `next` of the documents seen
and the services. -/
def HitsAnswered (next : List PyStr → W → Prop) : List (Payload F) → List PyStr → W → Prop
  | [], seen, w => next seen w
  | hit :: hits, seen, w =>
    if PassedOver O.interpreter seen hit then HitsAnswered next hits seen w
    else ∃ w', PassageAnswered O c hit w w' ∧
      HitsAnswered next hits (withDocument (docIdOf O.interpreter hit) seen) w'

/-- The searches return, and their hits are answered. -/
def TemplatesAnswered : List Template → List PyStr → W → Prop
  | [], _, _ => True
  | template :: templates, seen, w =>
    let reply := O.agenticSearch ⟨template.query c, O.yearFrom, O.yearTo, O.topK⟩ w
    ∃ hits, reply.1 = .ok hits ∧
      HitsAnswered O c (fun seen w => TemplatesAnswered templates seen w) (dicts hits) seen reply.2

/-- The claim has a key, and its result is cached in order, or the cache can be written, the new key
with it, and all the services are asked is answered. -/
def Dependable (s : OracleLab F W) : Prop :=
  ∃ cacheKey, key O [py "claim", oracleVersion, c.claimId] = .ok cacheKey ∧
    match s.claims.get cacheKey with
    | some cached => Sorted cached
    | none => ((encode cacheKey).isSome = true ∧ Writable (cacheValue s)) ∧
      TemplatesAnswered O c oracleQueryTemplates [] s.world

end Condition

/-! ## The flag only looks on -/

section Watching
variable (O : TimeSplitOracle F W) (c : Claim)

theorem mirrors_search (query : PyStr) :
    Mirrors unwatch (search (watched O) query) (search O query) := by
  refine mirrors_get fun s => ?_
  dsimp only [watched, unwatch]
  cases (O.agenticSearch ⟨query, O.yearFrom, O.yearTo, O.topK⟩ s.world.1).1 with
  | ok hits => rfl
  | error e => rfl

theorem mirrors_judgePassage (template : PyStr) (passage : Passage F) (operation : PyStr) :
    Mirrors unwatch (judgePassage (watched O) c template passage operation)
      (judgePassage O c template passage operation) := by
  obtain ⟨request, hrequest⟩ := judgeRequest_isOk O c passage operation
  have hwatched : judgeRequest (watched O) c passage operation = .ok request := hrequest
  rw [judgePassage, judgePassage, hrequest, hwatched]
  refine Mirrors.bind (fun s => rfl) fun reply => ?_
  have hreply : judgeReply (watched O) template passage reply =
      judgeReply O template passage reply := rfl
  rw [hreply]
  cases judgeReply O template passage reply with
  | error e => exact mirrors_throw e
  | ok outcome =>
    cases outcome with
    | inl v => exact fun s => rfl
    | inr x => exact fun s => rfl

theorem mirrors_considerPassage (template docId text : PyStr) (hit : Payload F) :
    Mirrors unwatch (considerPassage (watched O) c template docId text hit)
      (considerPassage O c template docId text hit) := by
  refine Mirrors.bind (x := modify _) (y := modify _) (fun s => rfl) fun _ => ?_
  have hkeys : passageKeys (watched O) c docId text = passageKeys O c docId text := rfl
  rw [hkeys]
  cases passageKeys O c docId text with
  | error e => exact mirrors_throw e
  | ok keys => exact mirrors_judgePassage O c template _ keys.2

theorem mirrors_considerHit (template : PyStr) (hit : Payload F) :
    Mirrors unwatch (considerHit (watched O) c template hit) (considerHit O c template hit) := by
  refine mirrors_get fun s => ?_
  by_cases hpassed : PassedOver O.interpreter s.seenDocs hit
  · rw [if_pos (show PassedOver O.interpreter (unwatch s).seenDocs hit from hpassed),
      if_pos (show PassedOver (watched O).interpreter s.seenDocs hit from hpassed)]
    rfl
  · rw [if_neg (show ¬PassedOver O.interpreter (unwatch s).seenDocs hit from hpassed),
      if_neg (show ¬PassedOver (watched O).interpreter s.seenDocs hit from hpassed)]
    exact mirrors_considerPassage O c template _ _ hit s

theorem mirrors_flush : Mirrors unwatch (flush : OracleRun F (W × Bool) Unit) flush := by
  refine mirrors_get fun s => ?_
  have hvalue : cacheValue (unwatch s) = cacheValue s := rfl
  rw [hvalue]
  cases canonicalJson (cacheValue s) with
  | error cause => rfl
  | ok text =>
    dsimp only
    cases encode (text ++ py "\n") with
    | none => rfl
    | some bytes => rfl

theorem mirrors_judgeFresh (cacheKey : PyStr) :
    Mirrors unwatch (judgeFresh (watched O) c cacheKey) (judgeFresh O c cacheKey) := by
  refine (mirrors_forM (fun template => ?_) oracleQueryTemplates).bind fun _ => ?_
  · refine Mirrors.bind (fun s => rfl) fun _ => (mirrors_search O _).bind fun hits => ?_
    exact mirrors_forM (mirrors_considerHit O c template.text) hits
  · refine Mirrors.bind (x := modify _) (y := modify _) (fun s => rfl) fun _ => ?_
    refine Mirrors.bind (x := modify _) (y := modify _) (fun s => rfl) fun _ => ?_
    exact mirrors_flush.bind fun _ => mirrors_get fun s => rfl

theorem mirrors_judgeClaim : Mirrors unwatch (judgeClaim (watched O) c) (judgeClaim O c) := by
  refine Mirrors.bind (x := modify _) (y := modify _) (fun s => rfl) fun _ => ?_
  have hkey : key (watched O) [py "claim", oracleVersion, c.claimId] =
      key O [py "claim", oracleVersion, c.claimId] := rfl
  rw [hkey]
  cases key O [py "claim", oracleVersion, c.claimId] with
  | error e => exact mirrors_throw e
  | ok cacheKey =>
    refine mirrors_get fun s => ?_
    have hclaims : (unwatch s).claims = s.claims := rfl
    rw [hclaims]
    cases s.claims.get cacheKey with
    | some cached => rfl
    | none => exact mirrors_judgeFresh O c cacheKey s

/-- The call with the flag is the call. -/
theorem ran_watched (s : OracleLab F W) :
    ran (judgeClaim O c) s = ((ran (judgeClaim (watched O) c) (watch s)).1,
      unwatch (ran (judgeClaim (watched O) c) (watch s)).2) :=
  mirrors_judgeClaim O c (watch s)

end Watching

/-! ## Runs of the services that answer -/

section Answered
variable (O : TimeSplitOracle F W) (c : Claim)

/-- A service has failed, or a quote has been applied that cannot be written. -/
def Spoilt (s : OracleLab F (W × Bool)) : Prop :=
  s.world.2 = true ∨ ∃ v ∈ s.result.verdicts, encode v.quote = none

variable {O c} {s s' : OracleLab F (W × Bool)}

omit [PyFloat F] in
theorem Spoilt.grows (h : Spoilt s) (hflag : s.world.2 = true → s'.world.2 = true)
    (hverdicts : ∀ v ∈ s.result.verdicts, v ∈ s'.result.verdicts) : Spoilt s' := by
  rcases h with h | ⟨v, hv, hquote⟩
  · exact .inl (hflag h)
  · exact .inr ⟨v, hverdicts v hv, hquote⟩

omit [PyFloat F] in
theorem lasts_modify {f : OracleLab F (W × Bool) → OracleLab F (W × Bool)}
    (h : ∀ s, (s.world.2 = true → (f s).world.2 = true) ∧
      ∀ v ∈ s.result.verdicts, v ∈ (f s).result.verdicts) :
    Lasts Spoilt (modify f : OracleRun F (W × Bool) PUnit) :=
  triple_modify fun s hs => hs.grows (h s).1 (h s).2

/-- What is made of an answer depends on its object. -/
theorem judgeReply_eq (O : TimeSplitOracle F W) (template : PyStr) (passage : Passage F)
    (reply : Except PyStr PyStr) :
    judgeReply O template passage reply =
      match (objectOf reply : Option (Payload F)) with
      | none => .ok (.inr ⟨passage.ref, .judgeError⟩)
      | some value =>
        if O.interpreter.quoted (textOf O.interpreter value (py "quote")) passage.text then
          if textOf O.interpreter value (py "verdict") ∈ admissibleLabels then
            .ok (.inl ⟨passage, textOf O.interpreter value (py "verdict"),
              flagOf value (py "scope_limitation"), textOf O.interpreter value (py "quote"),
              template⟩)
          else .error .surveyContractError
        else .ok (.inr ⟨passage.ref, .quoteNotInPassage⟩) := by
  cases reply with
  | error e => rfl
  | ok text =>
    simp only [judgeReply, objectOf, answerOf]
    cases (loads text : Option (Json F)).map ofJson with
    | none => rfl
    | some value => cases value <;> rfl

/-- The lab when the judge has answered. -/
def heardLab (O : TimeSplitOracle F W) (passage : Passage F) (request : ModelRequest)
    (s : OracleLab F (W × Bool)) : OracleLab F (W × Bool) :=
  { s with
    world := (watched O).complete request s.world
      |>.2
    result := { s.result with
      answers := s.result.answers ++ [⟨passage, (O.complete request s.world.1).1⟩] } }

theorem ran_judgePassage {passage : Passage F} {operation : PyStr} {request : ModelRequest}
    (hrequest : judgeRequest O c passage operation = .ok request) (template : PyStr)
    (s : OracleLab F (W × Bool)) :
    ran (judgePassage (watched O) c template passage operation) s =
      match judgeReply O template passage (O.complete request s.world.1).1 with
      | .error e => (.error e, heardLab O passage request s)
      | .ok (.inl verdict) => ran (apply verdict) (heardLab O passage request s)
      | .ok (.inr refusal) => ran (refuse refusal) (heardLab O passage request s) := by
  have hwatched : judgeRequest (watched O) c passage operation = .ok request := hrequest
  have hcomplete : ran (complete (watched O) passage request) s =
      (.ok (O.complete request s.world.1).1, heardLab O passage request s) := rfl
  have hreply : ∀ reply, judgeReply (watched O) template passage reply =
      judgeReply O template passage reply := fun _ => rfl
  rw [judgePassage, hwatched]
  refine (ran_bind_ok hcomplete).trans ?_
  rw [hreply]
  cases judgeReply O template passage (O.complete request s.world.1).1 with
  | error e => rfl
  | ok outcome => cases outcome <;> rfl

/-- What holds of the documents seen and the services. -/
def At (next : List PyStr → W → Prop) (_ : PUnit) (s : OracleLab F (W × Bool)) : Prop :=
  next s.seenDocs s.world.1

theorem endsWell_judgePassage {passage : Passage F} {operation : PyStr} {request : ModelRequest}
    (hrequest : judgeRequest O c passage operation = .ok request) (template : PyStr)
    (next : List PyStr → W → Prop) (hs : ¬Spoilt s) :
    EndsWell Spoilt (judgePassage (watched O) c template passage operation) (At next) s ↔
      Usable O.interpreter passage (O.complete request s.world.1).1 ∧
        next s.seenDocs (O.complete request s.world.1).2 := by
  have hran := ran_judgePassage hrequest template s
  rw [judgeReply_eq] at hran
  obtain ⟨hflag, hquotes⟩ := not_or.mp hs
  cases hobject : (objectOf (O.complete request s.world.1).1 : Option (Payload F)) with
  | none =>
    rw [hobject] at hran
    rw [endsWell_of_ok hran]
    refine iff_of_false ?_ ?_
    · rintro ⟨hspoilt, -⟩
      refine hspoilt (.inl ?_)
      change (s.world.2 || (objectOf (O.complete request s.world.1).1 : Option (Payload F)).isNone) =
        true
      rw [hobject, Option.isNone_none, Bool.or_true]
    · rintro ⟨⟨value, hvalue, -⟩, -⟩
      rw [hobject] at hvalue
      cases hvalue
  | some value =>
    rw [hobject] at hran
    have hworld : (heardLab O passage request s).world =
        ((O.complete request s.world.1).2, false) := by
      change ((O.complete request s.world.1).2,
        s.world.2 || (objectOf (O.complete request s.world.1).1 : Option (Payload F)).isNone) = _
      rw [hobject, Option.isNone_some, Bool.or_false, Bool.eq_false_iff.mpr hflag]
    have hnext : ∀ f, At next ⟨⟩ { heardLab O passage request s with result := f } ↔
        next s.seenDocs (O.complete request s.world.1).2 := by
      intro f
      rw [At, hworld]
      rfl
    have husable : Usable O.interpreter passage (O.complete request s.world.1).1 ↔
        (O.interpreter.quoted (textOf O.interpreter value (py "quote")) passage.text = true →
          textOf O.interpreter value (py "verdict") ∈ admissibleLabels ∧
            (encode (textOf O.interpreter value (py "quote"))).isSome = true) := by
      rw [Usable, hobject]
      simp
    rw [husable]
    dsimp only at hran
    by_cases hquoted :
        O.interpreter.quoted (textOf O.interpreter value (py "quote")) passage.text = true
    · rw [if_pos hquoted] at hran
      by_cases hlabel : textOf O.interpreter value (py "verdict") ∈ admissibleLabels
      · rw [if_pos hlabel] at hran
        rw [endsWell_of_ok hran]
        refine and_congr ?_ (hnext _)
        have hspoilt : Spoilt { heardLab O passage request s with
            result := { (heardLab O passage request s).result with
              verdicts := s.result.verdicts ++ [⟨passage,
                textOf O.interpreter value (py "verdict"), flagOf value (py "scope_limitation"),
                textOf O.interpreter value (py "quote"), template⟩] } } ↔
            encode (textOf O.interpreter value (py "quote")) = none := by
          rw [Spoilt, hworld]
          constructor
          · rintro (⟨⟨⟩⟩ | ⟨v, hv, hquote⟩)
            rcases List.mem_append.mp hv with hv | hv
            · exact absurd ⟨v, hv, hquote⟩ hquotes
            · rw [List.mem_singleton.mp hv] at hquote
              exact hquote
          · intro hquote
            exact .inr ⟨_, List.mem_append_right _ (List.mem_singleton_self _), hquote⟩
        refine (not_congr hspoilt).trans ?_
        rw [Option.isSome_iff_ne_none]
        exact ⟨fun h _ => ⟨hlabel, h⟩, fun h => (h hquoted).2⟩
      · rw [if_neg hlabel] at hran
        refine iff_of_false (not_endsWell_of_error hran) ?_
        rintro ⟨husable, -⟩
        exact hlabel (husable hquoted).1
    · rw [if_neg hquoted] at hran
      rw [endsWell_of_ok hran]
      refine and_congr (iff_of_true ?_ fun h => absurd h hquoted) (hnext _)
      change ¬((heardLab O passage request s).world.2 = true ∨ _)
      rw [hworld]
      rintro (⟨⟨⟩⟩ | hquote)
      exact hquotes hquote

theorem lasts_judgePassage (c : Claim) (template : PyStr) (passage : Passage F)
    (operation : PyStr) :
    Lasts Spoilt (judgePassage (watched O) c template passage operation) := by
  rw [judgePassage]
  cases judgeRequest (watched O) c passage operation with
  | error e => exact lasts_modify fun s => ⟨id, fun v hv => hv⟩
  | ok request =>
    refine Lasts.bind ?_ fun reply => ?_
    · intro s hs
      constructor
      · rintro _ _ ⟨⟩
        exact hs.grows (fun h => by simp [watched, h]) fun v hv => hv
      · rintro _ _ ⟨⟩
    · cases judgeReply (watched O) template passage reply with
      | error e => exact triple_throw fun _ _ => trivial
      | ok outcome =>
        cases outcome with
        | inl verdict => exact lasts_modify fun s => ⟨id, fun v hv => List.mem_append_left _ hv⟩
        | inr refusal => exact lasts_modify fun s => ⟨id, fun v hv => hv⟩

theorem lasts_considerPassage (c : Claim) (template docId text : PyStr) (hit : Payload F) :
    Lasts Spoilt (considerPassage (watched O) c template docId text hit) := by
  refine Lasts.bind (x := modify _) (lasts_modify fun s => ⟨id, fun v hv => hv⟩) fun _ => ?_
  cases passageKeys (watched O) c docId text with
  | error e => exact triple_throw fun _ _ => trivial
  | ok keys => exact lasts_judgePassage c template _ keys.2

theorem lasts_considerHit (c : Claim) (template : PyStr) (hit : Payload F) :
    Lasts Spoilt (considerHit (watched O) c template hit) := by
  refine Triple.get fun s hs => ?_
  split
  · exact triple_pure fun s' hs' => hs' ▸ hs
  · exact (lasts_considerPassage c template _ _ hit).weaken (fun s' hs' => hs' ▸ hs) fun _ _ h => h

theorem endsWell_considerHit (template : PyStr) (hit : Payload F) (next : List PyStr → W → Prop)
    (hs : ¬Spoilt s) :
    EndsWell Spoilt (considerHit (watched O) c template hit) (At next) s ↔
      if PassedOver O.interpreter s.seenDocs hit then next s.seenDocs s.world.1
      else ∃ w', PassageAnswered O c hit s.world.1 w' ∧
        next (withDocument (docIdOf O.interpreter hit) s.seenDocs) w' := by
  refine endsWell_get.trans ?_
  by_cases hpassed : PassedOver O.interpreter s.seenDocs hit
  · rw [if_pos hpassed, if_pos (show PassedOver (watched O).interpreter s.seenDocs hit from hpassed)]
    exact endsWell_pure hs
  · rw [if_neg hpassed, if_neg (show ¬PassedOver (watched O).interpreter s.seenDocs hit from hpassed)]
    have hkeys : passageKeys (watched O) c (docIdOf (watched O).interpreter hit)
        (passageText (watched O).interpreter hit) =
          passageKeys O c (docIdOf O.interpreter hit) (passageText O.interpreter hit) := rfl
    rw [considerPassage, hkeys]
    cases hran : passageKeys O c (docIdOf O.interpreter hit) (passageText O.interpreter hit) with
    | error e =>
      refine iff_of_false ?_ ?_
      · rw [endsWell_bind fun _ => triple_throw fun _ _ => trivial]
        rintro ⟨_, _, -, -, h⟩
        exact not_endsWell_throw h
      · rintro ⟨_, ⟨ref, operation, request, hok, -⟩, -⟩
        rw [hran] at hok
        cases hok
    | ok keys =>
      obtain ⟨request, hrequest⟩ := judgeRequest_isOk O c
        ⟨keys.1, passageText O.interpreter hit, hit⟩ keys.2
      rw [endsWell_bind fun _ => lasts_judgePassage c template _ keys.2, endsWell_modify]
      have hmarked : ¬Spoilt { s with
          seenDocs := withDocument (docIdOf O.interpreter hit) s.seenDocs
          result := { s.result with documentsConsidered := s.result.documentsConsidered + 1 } } := hs
      refine (and_iff_right hmarked).trans ?_
      refine (endsWell_judgePassage hrequest template next hmarked).trans ?_
      constructor
      · rintro ⟨husable, hnext⟩
        exact ⟨_, ⟨keys.1, keys.2, request, hran, hrequest, husable, rfl⟩, hnext⟩
      · rintro ⟨_, ⟨ref, operation, request', hok, hrequest', husable, rfl⟩, hnext⟩
        obtain rfl := Except.ok.inj (hran.symm.trans hok)
        obtain rfl := Except.ok.inj (hrequest.symm.trans hrequest')
        exact ⟨husable, hnext⟩

theorem endsWell_hits (template : PyStr) (hits : List (Payload F)) (next : List PyStr → W → Prop)
    (hs : ¬Spoilt s) :
    EndsWell Spoilt (hits.forM (considerHit (watched O) c template)) (At next) s ↔
      HitsAnswered O c next hits s.seenDocs s.world.1 := by
  induction hits generalizing s with
  | nil => exact endsWell_pure hs
  | cons hit hits ih =>
    have hloop : (hit :: hits).forM (considerHit (watched O) c template) =
      considerHit (watched O) c template hit >>= fun _ =>
        hits.forM (considerHit (watched O) c template) := rfl
    rw [hloop, endsWell_bind fun _ => lasts_forM (lasts_considerHit c template) hits]
    rw [EndsWell.congr (At fun seen w => HitsAnswered O c next hits seen w) fun _ s' hs' => ih hs']
    exact endsWell_considerHit template hit _ hs

theorem lasts_search (query : PyStr) :
    Lasts Spoilt (search (watched O) query) := by
  refine Triple.get fun s hs => ?_
  dsimp only
  refine (triple_set (Q := fun _ => Spoilt) ?_).bind fun _ => ?_
  · exact fun _ _ => hs.grows (fun h => by simp [watched, h]) fun v hv => hv
  · split
    · exact triple_pure fun s' hs' => hs'
    · exact triple_pure fun s' hs' => hs'

theorem lasts_considerTemplate (c : Claim) (template : Template) :
    Lasts Spoilt (considerTemplate (watched O) c template) := by
  refine Lasts.bind (x := note _) (lasts_modify fun s => ⟨id, fun v hv => hv⟩) fun _ => ?_
  exact (lasts_search _).bind fun hits => lasts_forM (lasts_considerHit c template.text) hits

/-- A search that raises spoils the run. -/
theorem endsWell_search (query : PyStr) (post : List (Payload F) → OracleLab F (W × Bool) → Prop)
    (hs : ¬Spoilt s) :
    EndsWell Spoilt (search (watched O) query) post s ↔
      ∃ hits, (O.agenticSearch ⟨query, O.yearFrom, O.yearTo, O.topK⟩ s.world.1).1 = .ok hits ∧
        post (dicts hits) { s with
          world := ((O.agenticSearch ⟨query, O.yearFrom, O.yearTo, O.topK⟩ s.world.1).2, false) } := by
  obtain ⟨hflag, hquotes⟩ := not_or.mp hs
  have hdown : s.world.2 = false := Bool.eq_false_iff.mpr hflag
  have hget : ran (get : OracleRun F (W × Bool) _) s = (.ok s, s) := rfl
  cases hreply : (O.agenticSearch ⟨query, O.yearFrom, O.yearTo, O.topK⟩ s.world.1).1 with
  | error e =>
    have hran : ran (search (watched O) query) s = (.ok [], { s with
        world := ((O.agenticSearch ⟨query, O.yearFrom, O.yearTo, O.topK⟩ s.world.1).2, true) }) := by
      rw [search, ran_bind_ok hget]
      dsimp only [watched]
      rw [hreply, hdown]
      rfl
    rw [endsWell_of_ok hran]
    refine iff_of_false ?_ ?_
    · rintro ⟨hspoilt, -⟩
      exact hspoilt (.inl rfl)
    · rintro ⟨hits, ⟨⟩, -⟩
  | ok hits =>
    have hran : ran (search (watched O) query) s = (.ok (dicts hits), { s with
        world := ((O.agenticSearch ⟨query, O.yearFrom, O.yearTo, O.topK⟩ s.world.1).2, false) }) := by
      rw [search, ran_bind_ok hget]
      dsimp only [watched]
      rw [hreply, hdown]
      rfl
    rw [endsWell_of_ok hran]
    constructor
    · rintro ⟨-, hpost⟩
      exact ⟨hits, rfl, hpost⟩
    · rintro ⟨_, ⟨⟩, hpost⟩
      refine ⟨?_, hpost⟩
      rintro (⟨⟨⟩⟩ | hquote)
      exact hquotes hquote

theorem endsWell_considerTemplate (template : Template) (next : List PyStr → W → Prop)
    (hs : ¬Spoilt s) :
    EndsWell Spoilt (considerTemplate (watched O) c template) (At next) s ↔
      ∃ hits, (O.agenticSearch ⟨template.query c, O.yearFrom, O.yearTo, O.topK⟩ s.world.1).1 =
          .ok hits ∧
        HitsAnswered O c next (dicts hits) s.seenDocs
          (O.agenticSearch ⟨template.query c, O.yearFrom, O.yearTo, O.topK⟩ s.world.1).2 := by
  have hhits : ∀ hits : List (Payload F),
      Lasts Spoilt (hits.forM (considerHit (watched O) c template.text)) :=
    fun hits => lasts_forM (lasts_considerHit c template.text) hits
  have hcounted : ¬Spoilt { s with
      result := { s.result with searches := s.result.searches + 1 } } := hs
  rw [considerTemplate, note, endsWell_bind fun _ => (lasts_search _).bind hhits, endsWell_modify]
  refine (and_iff_right hcounted).trans ((endsWell_bind hhits).trans ?_)
  rw [EndsWell.congr (fun hits s' => HitsAnswered O c next hits s'.seenDocs s'.world.1)
    fun hits s' hs' => endsWell_hits template.text hits next hs']
  exact endsWell_search _ _ hcounted

theorem endsWell_templates (templates : List Template) (hs : ¬Spoilt s) :
    EndsWell Spoilt (templates.forM (considerTemplate (watched O) c)) (fun _ _ => True) s ↔
      TemplatesAnswered O c templates s.seenDocs s.world.1 := by
  induction templates generalizing s with
  | nil => exact endsWell_pure hs
  | cons template templates ih =>
    have hloop : (template :: templates).forM (considerTemplate (watched O) c) =
      considerTemplate (watched O) c template >>= fun _ =>
        templates.forM (considerTemplate (watched O) c) := rfl
    rw [hloop, endsWell_bind fun _ => lasts_forM (lasts_considerTemplate c) templates]
    rw [EndsWell.congr (At fun seen w => TemplatesAnswered O c templates seen w)
      fun _ s' hs' => ih hs']
    exact endsWell_considerTemplate template _ hs

end Answered

/-! ## The result -/

section Result
variable {O : TimeSplitOracle F W} {c : Claim}

/-- A result of the claim so far: what it has sorted can be written, but for the quotes. -/
structure Filed (c : Claim) (r : ClaimOracleResult F) : Prop where
  named : r.claimId = c.claimId
  sorted : Sorted r
  verdicts : ∀ v ∈ r.verdicts, (encode v.passage.ref).isSome = true ∧
    (encode v.template).isSome = true
  refused : ∀ x ∈ r.refused, (encode x.passageRef).isSome = true

omit [PyFloat F] in
theorem filed_blank (c : Claim) :
    Filed c (⟨c.claimId, .unresolved, [], [], 0, 0, []⟩ : ClaimOracleResult F) :=
  ⟨rfl, ⟨by simp, rfl, by simp⟩, by simp, by simp⟩

omit [PyFloat F] in
/-- One more passage, with a verdict. -/
theorem Filed.judged {r : ClaimOracleResult F} (h : Filed c r) {v : OracleVerdict F}
    (hlabel : v.verdict ∈ admissibleLabels) (href : (encode v.passage.ref).isSome = true)
    (htemplate : (encode v.template).isSome = true) (reply : Except PyStr PyStr) :
    Filed c { r with
      documentsConsidered := r.documentsConsidered + 1
      answers := r.answers ++ [⟨v.passage, reply⟩]
      verdicts := r.verdicts ++ [v] } where
  named := h.named
  sorted :=
    { labels := List.forall_mem_append.mpr ⟨h.sorted.labels, List.forall_mem_singleton.mpr hlabel⟩
      counted := by
        have hcounted := h.sorted.counted
        simp only [List.length_append, List.length_singleton]
        omega
      heard := by
        refine List.forall_mem_append.mpr ⟨fun a ha => ?_, List.forall_mem_singleton.mpr ?_⟩
        · rcases h.sorted.heard a ha with ⟨w, hw, hpassage⟩ | hrefused
          · exact .inl ⟨w, List.mem_append_left _ hw, hpassage⟩
          · exact .inr hrefused
        · exact .inl ⟨v, List.mem_append_right _ (List.mem_singleton_self v), rfl⟩ }
  verdicts := List.forall_mem_append.mpr
    ⟨h.verdicts, List.forall_mem_singleton.mpr ⟨href, htemplate⟩⟩
  refused := h.refused

omit [PyFloat F] in
/-- One more passage, refused. -/
theorem Filed.refuse {r : ClaimOracleResult F} (h : Filed c r) {x : OracleRefusal}
    {passage : Passage F} (hpassage : x.passageRef = passage.ref)
    (href : (encode passage.ref).isSome = true) (reply : Except PyStr PyStr) :
    Filed c { r with
      documentsConsidered := r.documentsConsidered + 1
      answers := r.answers ++ [⟨passage, reply⟩]
      refused := r.refused ++ [x] } where
  named := h.named
  sorted :=
    { labels := h.sorted.labels
      counted := by
        have hcounted := h.sorted.counted
        simp only [List.length_append, List.length_singleton]
        omega
      heard := by
        refine List.forall_mem_append.mpr ⟨fun a ha => ?_, List.forall_mem_singleton.mpr ?_⟩
        · rcases h.sorted.heard a ha with hjudged | ⟨y, hy, hrefused⟩
          · exact .inl hjudged
          · exact .inr ⟨y, List.mem_append_left _ hy, hrefused⟩
        · exact .inr ⟨x, List.mem_append_right _ (List.mem_singleton_self x), hpassage⟩ }
  verdicts := h.verdicts
  refused := List.forall_mem_append.mpr
    ⟨h.refused, List.forall_mem_singleton.mpr (by rw [hpassage]; exact href)⟩

/-- The call is under way: the cache is as it was found. -/
def Filing (c : Claim) (s₀ : OracleLab F W) (s : OracleLab F (W × Bool)) : Prop :=
  s.claims = s₀.claims ∧ s.gaps = s₀.gaps ∧ Filed c s.result

theorem key_encodes {parts : List PyStr} {digest : PyStr} (h : key O parts = .ok digest) :
    ∀ part ∈ parts, (encode part).isSome = true := by
  refine (writable_texts (F := F)).mp (writable_iff.mpr ?_)
  rw [key, canonicalJson] at h
  split at h
  · cases h
  · rename_i text htext
    refine ⟨text, htext, ?_⟩
    split at h
    · cases h
    · rename_i bytes hbytes
      rw [hbytes]
      rfl

/-- A reference is hashed with the request, so that it can be encoded. -/
theorem ref_encodes {docId text ref operation : PyStr}
    (h : passageKeys O c docId text = .ok (ref, operation)) : (encode ref).isSome = true := by
  rw [passageKeys] at h
  split at h
  · cases h
  · split at h
    · cases h
    · rename_i hkey
      cases h
      exact key_encodes hkey _ (by simp)

variable {s₀ : OracleLab F W}

theorem filing_judgePassage {template : PyStr} (htemplate : (encode template).isSome = true)
    {passage : Passage F} (href : (encode passage.ref).isSome = true) (operation : PyStr)
    {s : OracleLab F (W × Bool)} (hs : Filing c s₀ s) :
    ∀ s', judgePassage (watched O) c template passage operation
        { s with result := { s.result with
          documentsConsidered := s.result.documentsConsidered + 1 } } = .ok ⟨⟩ s' →
      Filing c s₀ s' := by
  obtain ⟨request, hrequest⟩ := judgeRequest_isOk O c passage operation
  intro s' hrun
  obtain ⟨hclaims, hgaps, hfiled⟩ := hs
  rw [← ran_eq_ok, ran_judgePassage hrequest, judgeReply_eq] at hrun
  dsimp only at hrun
  split at hrun
  · cases hrun
  · rename_i verdict hverdict
    cases hrun
    split at hverdict
    · cases hverdict
    · split at hverdict
      · split at hverdict
        · rename_i hlabel
          cases hverdict
          exact ⟨hclaims, hgaps, hfiled.judged hlabel href htemplate _⟩
        · cases hverdict
      · cases hverdict
  · rename_i refusal hrefusal
    cases hrun
    split at hrefusal
    · cases hrefusal
      exact ⟨hclaims, hgaps, hfiled.refuse rfl href _⟩
    · split at hrefusal
      · split at hrefusal
        · cases hrefusal
        · cases hrefusal
      · cases hrefusal
        exact ⟨hclaims, hgaps, hfiled.refuse rfl href _⟩

theorem triple_considerHit {template : PyStr} (htemplate : (encode template).isSome = true)
    (hit : Payload F) :
    Triple (Filing c s₀) (considerHit (watched O) c template hit) (fun _ => Filing c s₀)
      fun _ => True := by
  refine Triple.get fun s hs => ?_
  split
  · exact triple_pure fun s' hs' => hs' ▸ hs
  · rintro t rfl
    refine ⟨?_, fun _ _ _ => trivial⟩
    intro u s' hrun
    obtain ⟨_, s₁, hmark, hrest⟩ := bind_eq_ok.mp hrun
    cases hmark
    dsimp only at hrest
    cases hkeys : passageKeys (watched O) c (docIdOf (watched O).interpreter hit)
        (passageText (watched O).interpreter hit) with
    | error e =>
      rw [hkeys] at hrest
      cases hrest
    | ok keys =>
      rw [hkeys] at hrest
      exact filing_judgePassage htemplate (ref_encodes hkeys) keys.2
        (s := { t with seenDocs := withDocument (docIdOf (watched O).interpreter hit) t.seenDocs })
        hs s' hrest

theorem triple_templates {templates : List Template}
    (htemplates : ∀ t ∈ templates, (encode t.text).isSome = true) :
    Triple (Filing c s₀) (templates.forM (considerTemplate (watched O) c)) (fun _ => Filing c s₀)
      fun _ => True := by
  induction templates with
  | nil => exact triple_pure fun s hs => hs
  | cons template templates ih =>
    obtain ⟨htemplate, hrest⟩ := List.forall_mem_cons.mp htemplates
    refine Triple.bind ?_ fun _ => ih hrest
    refine (triple_modify (Q := fun _ => Filing c s₀) fun s hs => ?_).bind fun _ => ?_
    · obtain ⟨hclaims, hgaps, hfiled⟩ := hs
      exact ⟨hclaims, hgaps, hfiled.named, ⟨hfiled.sorted.labels, hfiled.sorted.counted,
        hfiled.sorted.heard⟩, hfiled.verdicts, hfiled.refused⟩
    · refine Triple.bind (Q := fun _ => Filing c s₀) ?_ fun hits =>
        triple_forM (triple_considerHit htemplate) hits
      refine Triple.get fun s hs => ?_
      dsimp only
      refine (triple_set (Q := fun _ => Filing c s₀) ?_).bind fun _ => ?_
      · exact fun _ _ => hs
      · split
        · exact triple_pure fun s' hs' => hs'
        · exact triple_pure fun s' hs' => hs'

/-! ### Writing the cache -/

/-- The names of the cache file. -/
theorem names_encode : ∀ name ∈ [py "passage_ref", py "verdict", py "scope_limitation", py "quote",
    py "template", py "reason", py "claim_id", py "state", py "n_verdicts", py "n_refused",
    py "searches", py "documents_considered", py "verdicts", py "refused", py "oracle_version",
    py "claims", py "gaps"], (encode name).isSome = true := by
  simp only [List.forall_mem_cons, encode_py, List.not_mem_nil, IsEmpty.forall_iff, implies_true,
    and_true]

theorem texts_encode : ∀ t ∈ oracleQueryTemplates, (encode t.text).isSome = true := by
  simp only [oracleQueryTemplates, List.forall_mem_cons, encode_py, List.not_mem_nil,
    IsEmpty.forall_iff, implies_true, and_true]

/-- A dict with some of these names. -/
theorem writable_record (fields : List (PyStr × PyVal F))
    (hnames : ∀ p ∈ fields, (encode p.1).isSome = true) :
    Writable (.dict (fields.map fun p => (.str p.1, p.2))) ↔ ∀ p ∈ fields, Writable p.2 :=
  (writable_dict_iff fields).trans (forall₂_congr fun p hp => and_iff_right (hnames p hp))

def verdictFields (v : OracleVerdict F) : List (PyStr × PyVal F) :=
  [(py "passage_ref", .str v.passage.ref), (py "verdict", .str v.verdict),
    (py "scope_limitation", .bool v.scopeLimitation), (py "quote", .str v.quote),
    (py "template", .str v.template)]

def refusalFields (x : OracleRefusal) : List (PyStr × PyVal F) :=
  [(py "passage_ref", .str x.passageRef), (py "reason", .str x.reason.text)]

def resultFields (r : ClaimOracleResult F) : List (PyStr × PyVal F) :=
  [(py "claim_id", .str r.claimId), (py "state", .str r.state.text),
    (py "n_verdicts", .int r.verdicts.length), (py "n_refused", .int r.refused.length),
    (py "searches", .int r.searches), (py "documents_considered", .int r.documentsConsidered),
    (py "verdicts", .list (r.verdicts.map fun v =>
      .dict ((verdictFields v).map fun p => (.str p.1, p.2)))),
    (py "refused", .list (r.refused.map fun x =>
      .dict ((refusalFields x).map fun p => (.str p.1, p.2))))]

omit [PyFloat F] in
theorem asDict_eq (r : ClaimOracleResult F) :
    asDict r = .dict ((resultFields r).map fun p => (.str p.1, p.2)) := rfl

theorem writable_verdict (v : OracleVerdict F) :
    Writable (.dict ((verdictFields v).map fun p => (.str p.1, p.2)) : PyVal F) ↔
      (encode v.passage.ref).isSome = true ∧ (encode v.verdict).isSome = true ∧
        (encode v.quote).isSome = true ∧ (encode v.template).isSome = true := by
  have hnames := names_encode
  simp only [List.forall_mem_cons] at hnames
  rw [writable_record]
  · simp [verdictFields, writable_str, writable_bool]
  · simp only [verdictFields, List.forall_mem_cons, hnames]
    simp

theorem writable_refusal (x : OracleRefusal) :
    Writable (.dict ((refusalFields x).map fun p => (.str p.1, p.2)) : PyVal F) ↔
      (encode x.passageRef).isSome = true := by
  have hnames := names_encode
  simp only [List.forall_mem_cons] at hnames
  have hreason : (encode x.reason.text).isSome = true := by
    cases x.reason <;> rfl
  rw [writable_record]
  · simp [refusalFields, writable_str, hreason]
  · simp only [refusalFields, List.forall_mem_cons, hnames]
    simp

theorem writable_asDict (r : ClaimOracleResult F) :
    Writable (asDict r) ↔ (encode r.claimId).isSome = true ∧
      (∀ v ∈ r.verdicts, (encode v.passage.ref).isSome = true ∧ (encode v.verdict).isSome = true ∧
        (encode v.quote).isSome = true ∧ (encode v.template).isSome = true) ∧
      ∀ x ∈ r.refused, (encode x.passageRef).isSome = true := by
  have hnames := names_encode
  simp only [List.forall_mem_cons] at hnames
  have hstate : (encode r.state.text).isSome = true := by
    cases r.state <;> rfl
  rw [asDict_eq, writable_record]
  · simp only [resultFields, List.forall_mem_cons, writable_str, writable_int, writable_list,
      List.forall_mem_map, writable_verdict, writable_refusal, hstate, true_and]
    simp
  · simp only [resultFields, List.forall_mem_cons, hnames]
    simp

theorem writable_cacheValue (s : OracleLab F W) :
    Writable (cacheValue s) ↔
      (∀ p ∈ s.claims.items, (encode p.1).isSome = true ∧ Writable (asDict p.2)) ∧
        Writable (.dict s.gaps) := by
  have hnames := names_encode
  simp only [List.forall_mem_cons] at hnames
  have hclaims : Writable (.dict (s.claims.items.map fun p => (.str p.1, asDict p.2))) ↔
      ∀ p ∈ s.claims.items, (encode p.1).isSome = true ∧ Writable (asDict p.2) := by
    have hmap := writable_dict_iff (s.claims.items.map fun p => (p.1, asDict p.2))
    rw [List.map_map] at hmap
    refine hmap.trans ?_
    simp only [List.forall_mem_map]
  have hversion : (encode oracleVersion).isSome = true := encode_py _
  have hvalue : cacheValue s = .dict (([(py "oracle_version", .str oracleVersion),
      (py "claims", .dict (s.claims.items.map fun p => (.str p.1, asDict p.2))),
      (py "gaps", .dict s.gaps)] : List (PyStr × PyVal F)).map fun p => (.str p.1, p.2)) := rfl
  rw [hvalue, writable_record]
  · simp only [List.forall_mem_cons, writable_str, hclaims, hversion, true_and]
    simp
  · simp only [List.forall_mem_cons, hnames]
    simp

/-- The lab when the result of the call has been given its state and cached. -/
def cachedLab (cacheKey : PyStr) (s : OracleLab F (W × Bool)) : OracleLab F (W × Bool) :=
  { s with
    result := { s.result with state := oracleState s.result.verdicts }
    claims := s.claims.set cacheKey { s.result with state := oracleState s.result.verdicts } }

variable {cacheKey : PyStr} {s : OracleLab F (W × Bool)}

/-- What the new entry adds to what has to be written. -/
theorem writable_cachedLab (hs : Filing c s₀ s) (hfresh : s₀.claims.get cacheKey = none)
    (hid : (encode c.claimId).isSome = true) :
    Writable (cacheValue (cachedLab cacheKey s)) ↔
      ((encode cacheKey).isSome = true ∧ Writable (cacheValue s₀)) ∧
        ∀ v ∈ s.result.verdicts, (encode v.quote).isSome = true := by
  obtain ⟨hclaims, hgaps, hfiled⟩ := hs
  have hlabels : ∀ label ∈ admissibleLabels, (encode label).isSome = true := by
    simp only [admissibleLabels, List.forall_mem_cons, encode_py, List.not_mem_nil,
      IsEmpty.forall_iff, implies_true, and_true]
  have hnew : cacheKey ∉ s₀.claims.items.map Prod.fst := by
    intro hmem
    obtain ⟨p, hp, hkey⟩ := List.mem_map.mp hmem
    have hget := Dict.get_eq_some.mpr (hkey ▸ hp : (cacheKey, p.2) ∈ s₀.claims.items)
    rw [hfresh] at hget
    cases hget
  have hitems : (cachedLab cacheKey s).claims.items = s₀.claims.items ++
      [(cacheKey, { s.result with state := oracleState s.result.verdicts })] := by
    rw [cachedLab, hclaims]
    exact setItem_of_notMem hnew
  have hresult : Writable (asDict { s.result with state := oracleState s.result.verdicts }) ↔
      ∀ v ∈ s.result.verdicts, (encode v.quote).isSome = true := by
    rw [writable_asDict, hfiled.named, and_iff_right hid, and_iff_left hfiled.refused]
    refine forall₂_congr fun v hv => ?_
    obtain ⟨href, htemplate⟩ := hfiled.verdicts v hv
    rw [and_iff_right href, and_iff_right (hlabels _ (hfiled.sorted.labels v hv)),
      and_iff_left htemplate]
  rw [writable_cacheValue, writable_cacheValue, hitems, show (cachedLab cacheKey s).gaps = s₀.gaps
    from hgaps, List.forall_mem_append, List.forall_mem_singleton, hresult]
  tauto

theorem ran_flush (s : OracleLab F (W × Bool)) :
    (Writable (cacheValue s) ∧ ∃ bytes, ran flush s = (.ok (), { s with file := some bytes })) ∨
      ¬Writable (cacheValue s) ∧ ∃ e s', ran flush s = (.error e, s') := by
  have hget : ran (get : OracleRun F (W × Bool) _) s = (.ok s, s) := rfl
  have hnewline : (encode (py "\n")).isSome = true := encode_py _
  rw [writable_iff, flush, ran_bind_ok hget]
  cases hdumps : dumps (cacheValue s) with
  | error cause =>
    refine .inr ⟨?_, .json cause, s, ?_⟩
    · rintro ⟨text, ⟨⟩, -⟩
    · rw [canonicalJson, hdumps]
      rfl
  | ok text =>
    rw [canonicalJson, hdumps]
    cases hencode : encode (text ++ py "\n") with
    | none =>
      refine .inr ⟨?_, .unicodeEncodeError, { s with file := some [] }, ?_⟩
      · rintro ⟨_, ⟨⟩, htext⟩
        have happend := encode_append_isSome.mpr ⟨htext, hnewline⟩
        rw [hencode] at happend
        cases happend
      · dsimp only
        rw [hencode]
        rfl
    | some bytes =>
      refine .inl ⟨⟨text, rfl, ?_⟩, bytes, ?_⟩
      · exact (encode_append_isSome.mp (by rw [hencode]; rfl)).1
      · dsimp only
        rw [hencode]
        rfl

theorem ran_judgeFresh {s₁ : OracleLab F (W × Bool)}
    (h : ran (oracleQueryTemplates.forM (considerTemplate (watched O) c)) s = (.ok ⟨⟩, s₁)) :
    (Writable (cacheValue (cachedLab cacheKey s₁)) ∧ ∃ bytes,
        ran (judgeFresh (watched O) c cacheKey) s =
          (.ok (cachedLab cacheKey s₁).result, { cachedLab cacheKey s₁ with file := some bytes })) ∨
      ¬Writable (cacheValue (cachedLab cacheKey s₁)) ∧ ∃ e s',
        ran (judgeFresh (watched O) c cacheKey) s = (.error e, s') := by
  have hstate : ran (modify fun s : OracleLab F (W × Bool) => { s with
      result := { s.result with state := oracleState s.result.verdicts } } :
        OracleRun F (W × Bool) PUnit) s₁ =
      (.ok ⟨⟩, { s₁ with result := { s₁.result with state := oracleState s₁.result.verdicts } }) :=
    rfl
  have hcache : ran (modify fun s : OracleLab F (W × Bool) => { s with
      claims := s.claims.set cacheKey s.result } : OracleRun F (W × Bool) PUnit)
        { s₁ with result := { s₁.result with state := oracleState s₁.result.verdicts } } =
      (.ok ⟨⟩, cachedLab cacheKey s₁) := rfl
  rw [judgeFresh, ran_bind_ok h, ran_bind_ok hstate, ran_bind_ok hcache]
  rcases ran_flush (cachedLab cacheKey s₁) with ⟨hwritable, bytes, hflush⟩ | ⟨hnot, e, s', hflush⟩
  · refine .inl ⟨hwritable, bytes, ?_⟩
    rw [ran_bind_ok hflush]
    rfl
  · exact .inr ⟨hnot, e, s', ran_bind_error hflush⟩

/-- A judgement from nothing returns with the flag down when the condition is met, and only then. -/
theorem judgeFresh_iff {s : OracleLab F W} (hfresh : s.claims.get cacheKey = none)
    (hid : (encode c.claimId).isSome = true) :
    (∃ r s', ran (judgeFresh (watched O) c cacheKey) (started c (watch s)) = (.ok r, s') ∧
        s'.world.2 = false) ↔
      ((encode cacheKey).isSome = true ∧ Writable (cacheValue s)) ∧
        TemplatesAnswered O c oracleQueryTemplates [] s.world := by
  have hclean : ¬Spoilt (started c (watch s)) := by
    rintro (⟨⟨⟩⟩ | ⟨v, hv, -⟩)
    cases hv
  have hfiling : Filing c s (started c (watch s)) := ⟨rfl, rfl, filed_blank c⟩
  have htexts := texts_encode
  have hruns := endsWell_templates (O := O) (c := c) oracleQueryTemplates hclean
  constructor
  · rintro ⟨r, s', hran, hflag⟩
    rcases hbody : ran (oracleQueryTemplates.forM (considerTemplate (watched O) c))
      (started c (watch s)) with ⟨result, s₁⟩
    cases result with
    | error e =>
      rw [judgeFresh, ran_bind_error hbody] at hran
      cases hran
    | ok u =>
      have hfiled := (triple_templates htexts _ hfiling).1 _ _ (ran_eq_ok.mp hbody)
      rcases ran_judgeFresh hbody with ⟨hwritable, bytes, hok⟩ | ⟨-, e, s₂, herror⟩
      · obtain ⟨hcache, hquotes⟩ := (writable_cachedLab hfiled hfresh hid).mp hwritable
        rw [hok] at hran
        cases hran
        refine ⟨hcache, hruns.mp ((endsWell_of_ok hbody).mpr ⟨?_, trivial⟩)⟩
        rintro (hspoilt | ⟨v, hv, hquote⟩)
        · rw [show s₁.world.2 = false from hflag] at hspoilt
          cases hspoilt
        · have hencodes := hquotes v hv
          rw [hquote] at hencodes
          cases hencodes
      · rw [herror] at hran
        cases hran
  · rintro ⟨hcache, hanswered⟩
    obtain ⟨u, s₁, hbody, hspoilt, -⟩ := hruns.mpr hanswered
    obtain ⟨hflag, hquotes⟩ := not_or.mp hspoilt
    have hfiled := (triple_templates htexts _ hfiling).1 _ _ hbody
    have hwritable : Writable (cacheValue (cachedLab cacheKey s₁)) := by
      refine (writable_cachedLab hfiled hfresh hid).mpr ⟨hcache, fun v hv => ?_⟩
      exact Option.isSome_iff_ne_none.mpr fun hquote => hquotes ⟨v, hv, hquote⟩
    rcases ran_judgeFresh (ran_eq_ok.mpr hbody) with ⟨-, bytes, hok⟩ | ⟨hnot, -⟩
    · exact ⟨_, _, hok, Bool.eq_false_iff.mpr hflag⟩
    · exact absurd hwritable hnot

/-- What such a judgement returns is in order, and cached. -/
theorem judgeFresh_ok {s : OracleLab F W} {r : ClaimOracleResult F} {s' : OracleLab F (W × Bool)}
    (h : ran (judgeFresh (watched O) c cacheKey) (started c (watch s)) = (.ok r, s')) :
    Sorted r ∧ s'.claims.get cacheKey = some r := by
  have hfiling : Filing c s (started c (watch s)) := ⟨rfl, rfl, filed_blank c⟩
  have htexts := texts_encode
  rcases hbody : ran (oracleQueryTemplates.forM (considerTemplate (watched O) c))
    (started c (watch s)) with ⟨result, s₁⟩
  cases result with
  | error e =>
    rw [judgeFresh, ran_bind_error hbody] at h
    cases h
  | ok u =>
    obtain ⟨-, -, hfiled⟩ := (triple_templates htexts _ hfiling).1 _ _ (ran_eq_ok.mp hbody)
    rcases ran_judgeFresh hbody with ⟨-, bytes, hok⟩ | ⟨-, e, s₂, herror⟩
    · rw [hok] at h
      cases h
      refine ⟨⟨hfiled.sorted.labels, hfiled.sorted.counted, hfiled.sorted.heard⟩, ?_⟩
      exact Dict.get_set_self _ _ _
    · rw [herror] at h
      cases h

theorem ran_judgeKeyed_cached {cached : ClaimOracleResult F} (hget : s.claims.get cacheKey = some cached) :
    ran (judgeKeyed (watched O) c cacheKey) s =
      (.ok { cached with claimId := c.claimId },
        { s with result := { cached with claimId := c.claimId } }) := by
  have hread : ran (get : OracleRun F (W × Bool) _) s = (.ok s, s) := rfl
  rw [judgeKeyed, ran_bind_ok hread, hget]
  rfl

theorem ran_judgeKeyed_fresh (hget : s.claims.get cacheKey = none) :
    ran (judgeKeyed (watched O) c cacheKey) s = ran (judgeFresh (watched O) c cacheKey) s := by
  have hread : ran (get : OracleRun F (W × Bool) _) s = (.ok s, s) := rfl
  rw [judgeKeyed, ran_bind_ok hread, hget]

end Result

/-! ## Every call -/

theorem ran_judgeClaim_watched (O : TimeSplitOracle F W) (c : Claim) (s : OracleLab F W) :
    ran (judgeClaim (watched O) c) (watch s) =
      ran (match key O [py "claim", oracleVersion, c.claimId] with
        | .error e => throw e
        | .ok cacheKey => judgeKeyed (watched O) c cacheKey) (started c (watch s)) := by
  have hstart : ran (modify (started c) : OracleRun F (W × Bool) _) (watch s) =
      (.ok ⟨⟩, started c (watch s)) := rfl
  exact ran_bind_ok hstart

theorem dependable_iff {O : TimeSplitOracle F W} {c : Claim} {s : OracleLab F W}
    {cacheKey : PyStr} (hkey : key O [py "claim", oracleVersion, c.claimId] = .ok cacheKey) :
    Dependable O c s ↔ match s.claims.get cacheKey with
      | some cached => Sorted cached
      | none => ((encode cacheKey).isSome = true ∧ Writable (cacheValue s)) ∧
        TemplatesAnswered O c oracleQueryTemplates [] s.world := by
  constructor
  · rintro ⟨k, hk, h⟩
    cases hkey.symm.trans hk
    exact h
  · exact fun h => ⟨cacheKey, hkey, h⟩

theorem reliable_iff (O : TimeSplitOracle F W) (c : Claim) (s : OracleLab F W) :
    Reliable O c s ↔ Dependable O c s := by
  have hwatched := ran_judgeClaim_watched O c s
  have hran := ran_watched O c s
  cases hkey : key O [py "claim", oracleVersion, c.claimId] with
  | error e =>
    rw [hkey] at hwatched
    refine iff_of_false ?_ ?_
    · rintro ⟨⟨r, hr, -⟩, -⟩
      rw [hran, hwatched] at hr
      cases hr
    · rintro ⟨cacheKey, hok, -⟩
      rw [hkey] at hok
      cases hok
  | ok cacheKey =>
    have hid : (encode c.claimId).isSome = true := key_encodes hkey _ (by simp)
    rw [dependable_iff hkey]
    rw [hkey] at hwatched
    cases hget : s.claims.get cacheKey with
    | some cached =>
      have hcall := hwatched.trans (ran_judgeKeyed_cached (s := started c (watch s)) hget)
      constructor
      · rintro ⟨⟨r, hr, hsorted⟩, -⟩
        rw [hran, hcall] at hr
        cases hr
        exact ⟨hsorted.labels, hsorted.counted, hsorted.heard⟩
      · intro hsorted
        refine ⟨⟨{ cached with claimId := c.claimId }, ?_, ?_⟩, ?_⟩
        · rw [hran, hcall]
        · exact ⟨hsorted.labels, hsorted.counted, hsorted.heard⟩
        · intro hfailed
          rw [Failed, hcall] at hfailed
          cases hfailed
    | none =>
      have hcall := hwatched.trans (ran_judgeKeyed_fresh (s := started c (watch s)) hget)
      dsimp only
      rw [← judgeFresh_iff hget hid]
      constructor
      · rintro ⟨⟨r, hr, -⟩, hretried⟩
        rw [hran, hcall] at hr
        rcases hfresh : ran (judgeFresh (watched O) c cacheKey) (started c (watch s)) with ⟨_, s'⟩
        rw [hfresh] at hr hcall
        obtain rfl : _ = Except.ok r := hr
        refine ⟨r, s', rfl, Bool.eq_false_iff.mpr fun hflag => ?_⟩
        refine hretried ?_ ⟨cacheKey, r, hkey, ?_⟩
        · rw [Failed, hcall]
          exact hflag
        · rw [hran, hcall]
          exact (judgeFresh_ok hfresh).2
      · rintro ⟨r, s', hfresh, hflag⟩
        refine ⟨⟨r, ?_, (judgeFresh_ok hfresh).1⟩, ?_⟩
        · rw [hran, hcall, hfresh]
        · intro hfailed
          rw [Failed, hcall, hfresh, hflag] at hfailed
          cases hfailed

/-- A call of `judge_claim` is the call with the flag, and it returns with its passages sorted and
caches nothing that a failed call has gone into exactly when its result was cached in order before,
or every service it comes to ask has an answer it can use and what it writes can be encoded. -/
theorem judgeClaim_reliable (O : TimeSplitOracle F W) (c : Claim) (s : OracleLab F W) :
    ran (judgeClaim O c) s = ((ran (judgeClaim (watched O) c) (watch s)).1,
        unwatch (ran (judgeClaim (watched O) c) (watch s)).2) ∧
      (Reliable O c s ↔ Dependable O c s) :=
  ⟨ran_watched O c s, reliable_iff O c s⟩

/-- No search returns. -/
def searchDown : TimeSplitOracle NonFinite Unit :=
  { sampleOracle with agenticSearch := fun _ w => (.error (), w) }

/-- `{"quote":"harden","verdict":"refuted"}`. -/
def mislabelled : PyStr := py "\x7b\"quote\":\"harden\",\"verdict\":\"refuted\"\x7d"

def mislabelling : TimeSplitOracle NonFinite Unit :=
  { sampleOracle with complete := fun _ w => (.ok mislabelled, w) }

/-- The state of a claim that nothing could be found about is cached, and a label that the oracle
does not know is raised. -/
theorem not_reliable :
    ¬Reliable searchDown sampleClaim (fresh ()) ∧ ¬Reliable mislabelling sampleClaim (fresh ()) := by
  constructor
  · rw [reliable_iff]
    rintro ⟨cacheKey, -, -, hits, ⟨⟩, -⟩
  · rintro ⟨⟨r, hr, -⟩, -⟩
    have hraised : (ran (judgeClaim mislabelling sampleClaim) (fresh ())).1.toOption.isNone = true := by
      decide +kernel
    rw [hr] at hraised
    cases hraised

end OracleOutage
