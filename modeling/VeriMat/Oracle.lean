import VeriMat.Verification
import VeriMat.Transaction

/-! # The time-split oracle

`judge_claim` of `experiments/oracle.py` over a client and a transport that may answer anything.
The state holds the cache and the result of the call under way; the answers heard about passages,
which the code does not keep, are kept with the result they led to. -/
namespace Oracle

open PyText JsonText PyValue PyDisplay PyDict Events Transaction ModelTransports Verification
open DecisionGraph (Payload getItem)

variable {F W : Type}

/-! ## Data -/

/-- `ORACLE_VERSION`. -/
def oracleVersion : PyStr := py "sse-oracle-v1"

/-- `ORACLE_STATES`. -/
inductive OracleState where
  | supported
  | contradicted
  | narrowed
  | unresolved
  deriving DecidableEq, Repr

def OracleState.text : OracleState → PyStr
  | .supported => py "supported"
  | .contradicted => py "contradicted"
  | .narrowed => py "narrowed"
  | .unresolved => py "unresolved"

/-- `ORACLE_QUERY_TEMPLATES`: the declared text, and the query filled from a claim. -/
structure Template where
  text : PyStr
  query : Claim → PyStr

def oracleQueryTemplates : List Template :=
  [⟨py "\x7bmaterial\x7d \x7bproperty\x7d contrary decrease unexpected contradict",
      fun c => c.material ++ py " " ++ c.propertyName ++ py " contrary decrease unexpected contradict"⟩,
    ⟨py "\x7bmaterial\x7d \x7bproperty\x7d failure degradation limit drawback instability",
      fun c => c.material ++ py " " ++ c.propertyName ++
        py " failure degradation limit drawback instability"⟩,
    ⟨py "\x7bmaterial\x7d \x7bfeature\x7d \x7bproperty\x7d measured report confirm",
      fun c => c.material ++ py " " ++ c.structuralFeature ++ py " " ++ c.propertyName ++
        py " measured report confirm"⟩,
    ⟨py "\x7bmaterial\x7d \x7bproperty\x7d scope limited conditions only valid",
      fun c => c.material ++ py " " ++ c.propertyName ++ py " scope limited conditions only valid"⟩]

/-- An `OracleVerdict`, with the passage it is about. -/
structure OracleVerdict (F : Type) where
  passage : Passage F
  verdict : PyStr
  scopeLimitation : Bool
  quote : PyStr
  template : PyStr

/-- The labels that `validate` admits. -/
def admissibleLabels : List PyStr := [py "contradicted", py "supported", py "unrelated"]

inductive OracleReason where
  | judgeError
  | quoteNotInPassage
  deriving DecidableEq, Repr

def OracleReason.text : OracleReason → PyStr
  | .judgeError => py "judge_error"
  | .quoteNotInPassage => py "quote_not_in_passage"

structure OracleRefusal where
  passageRef : PyStr
  reason : OracleReason
  deriving DecidableEq, Repr

/-- A `ClaimOracleResult`, with the answers it rests on; the cache holds it as a dict of the other
members. -/
structure ClaimOracleResult (F : Type) where
  claimId : PyStr
  state : OracleState
  verdicts : List (OracleVerdict F)
  refused : List OracleRefusal
  searches : ℕ
  documentsConsidered : ℕ
  answers : List (Heard F)

/-- What escapes `judge_claim`. -/
inductive OracleError where
  | json (cause : JsonError)
  | unicodeEncodeError
  | surveyContractError
  deriving DecidableEq

/-- A `TimeSplitOracle`, with the interpreter it runs in. -/
structure TimeSplitOracle (F W : Type) where
  interpreter : Interpreter
  agenticSearch : SearchRequest → W → Except Unit (List (PyVal F)) × W
  complete : ModelRequest → W → Except PyStr PyStr × W
  yearFrom : ℤ
  yearTo : ℤ
  topK : ℤ

/-- The world, the cache and its file, and the call under way: the documents it has seen and its
result so far. -/
structure OracleLab (F W : Type) where
  world : W
  claims : Dict PyStr (ClaimOracleResult F)
  gaps : Payload F
  file : Option PyBytes
  seenDocs : List PyStr
  result : ClaimOracleResult F

abbrev OracleRun (F W α : Type) := EStateM OracleError (OracleLab F W) α

/-- `contradicted > narrowed > supported > unresolved`. -/
def oracleState (verdicts : List (OracleVerdict F)) : OracleState :=
  if verdicts.any fun v => v.verdict == py "contradicted" then .contradicted
  else if verdicts.any fun v => v.scopeLimitation && v.verdict == py "supported" then .narrowed
  else if verdicts.any fun v => v.verdict == py "supported" then .supported
  else .unresolved

/-! ## Effects -/

/-- The result of the call under way changes. -/
def note (f : ClaimOracleResult F → ClaimOracleResult F) : OracleRun F W Unit :=
  modify fun s => { s with result := f s.result }

def refuse (refusal : OracleRefusal) : OracleRun F W Unit :=
  note fun r => { r with refused := r.refused ++ [refusal] }

def apply (verdict : OracleVerdict F) : OracleRun F W Unit :=
  note fun r => { r with verdicts := r.verdicts ++ [verdict] }

/-- `self.client.agentic_search(..)`; an exception is no hits. -/
def search (O : TimeSplitOracle F W) (query : PyStr) : OracleRun F W (List (Payload F)) := do
  let s : OracleLab F W ← get
  let request : SearchRequest := ⟨query, O.yearFrom, O.yearTo, O.topK⟩
  let reply := O.agenticSearch request s.world
  set { s with world := reply.2 }
  match reply.1 with
  | .ok hits => pure (dicts hits)
  | .error _ => pure []

/-- `self.transport.complete(..)`. -/
def complete (O : TimeSplitOracle F W) (passage : Passage F) (request : ModelRequest) :
    OracleRun F W (Except PyStr PyStr) := do
  let s : OracleLab F W ← get
  let reply := O.complete request s.world
  set { s with world := reply.2 }
  note fun r => { r with answers := r.answers ++ [⟨passage, reply.1⟩] }
  pure reply.1

section Functions
variable [PyFloat F] (O : TimeSplitOracle F W)

/-- `_key`. -/
def key (parts : List PyStr) : Except OracleError PyStr :=
  match canonicalJson (.list (parts.map .str) : PyVal F) with
  | .error cause => .error (.json cause)
  | .ok text =>
    match encode text with
    | none => .error .unicodeEncodeError
    | some bytes => .ok (O.interpreter.sha256 bytes)

/-- `as_dict`. -/
def asDict (r : ClaimOracleResult F) : PyVal F :=
  .dict [(.str (py "claim_id"), .str r.claimId), (.str (py "state"), .str r.state.text),
    (.str (py "n_verdicts"), .int r.verdicts.length), (.str (py "n_refused"), .int r.refused.length),
    (.str (py "searches"), .int r.searches),
    (.str (py "documents_considered"), .int r.documentsConsidered),
    (.str (py "verdicts"), .list (r.verdicts.map fun v =>
      .dict [(.str (py "passage_ref"), .str v.passage.ref), (.str (py "verdict"), .str v.verdict),
        (.str (py "scope_limitation"), .bool v.scopeLimitation), (.str (py "quote"), .str v.quote),
        (.str (py "template"), .str v.template)])),
    (.str (py "refused"), .list (r.refused.map fun x =>
      .dict [(.str (py "passage_ref"), .str x.passageRef), (.str (py "reason"), .str x.reason.text)]))]

/-- The cache as a value. -/
def cacheValue (s : OracleLab F W) : PyVal F :=
  .dict [(.str (py "oracle_version"), .str oracleVersion),
    (.str (py "claims"), .dict (s.claims.items.map fun p => (.str p.1, asDict p.2))),
    (.str (py "gaps"), .dict s.gaps)]

/-- `_flush`: a text that cannot be encoded leaves the file empty. -/
def flush : OracleRun F W Unit := do
  let s ← get
  match canonicalJson (cacheValue s) with
  | .error cause => throw (.json cause)
  | .ok text =>
    match encode (text ++ py "\n") with
    | none => do
      set { s with file := some [] }
      throw .unicodeEncodeError
    | some bytes => set { s with file := some bytes }

/-! ## Hits -/

def docIdOf (I : Interpreter) (hit : Payload F) : PyStr := textOf I hit (py "doc_id")

/-- `_passage_text`. -/
def passageText (I : Interpreter) (hit : Payload F) : PyStr := strip (textOf I hit (py "abstract"))

/-- The hit is blank, or its document has been seen. -/
def PassedOver (I : Interpreter) (seen : List PyStr) (hit : Payload F) : Prop :=
  passageText I hit = [] ∨ docIdOf I hit ≠ [] ∧ docIdOf I hit ∈ seen

instance (I : Interpreter) (seen : List PyStr) (hit : Payload F) :
    Decidable (PassedOver I seen hit) :=
  inferInstanceAs (Decidable (_ ∨ _ ∧ _))

/-- `seen_docs.add(doc_id)`, unless it is empty. -/
def withDocument (docId : PyStr) (seen : List PyStr) : List PyStr :=
  if docId = [] then seen else docId :: seen

/-! ## One passage -/

/-- What is made of an answer about a passage: an exception, a verdict or a refusal. -/
def judgeReply (template : PyStr) (passage : Passage F) (reply : Except PyStr PyStr) :
    Except OracleError (OracleVerdict F ⊕ OracleRefusal) :=
  match reply with
  | .error _ => .ok (.inr ⟨passage.ref, .judgeError⟩)
  | .ok text =>
    match (loads text : Option (Json F)).map ofJson with
    | some (.dict value) =>
      let quote := textOf O.interpreter value (py "quote")
      let verdict := textOf O.interpreter value (py "verdict")
      if O.interpreter.quoted quote passage.text then
        if verdict ∈ admissibleLabels then
          .ok (.inl ⟨passage, verdict, flagOf value (py "scope_limitation"), quote, template⟩)
        else .error .surveyContractError
      else .ok (.inr ⟨passage.ref, .quoteNotInPassage⟩)
    | _ => .ok (.inr ⟨passage.ref, .judgeError⟩)

/-- The request about a passage. -/
def judgeRequest (c : Claim) (passage : Passage F) (operation : PyStr) :
    Except JsonError ModelRequest :=
  (canonicalJson (.dict [(.str (py "claim"),
      .dict [(.str (py "material"), .str c.material),
        (.str (py "structural_feature"), .str c.structuralFeature),
        (.str (py "property_name"), .str c.propertyName), (.str (py "direction"), .str c.direction),
        (.str (py "discovery_window"), .str (py "2000-" ++ intText (O.yearFrom - 1)))]),
    (.str (py "later_passage"), .str (shown passage.text))] : PyVal F)).map fun user =>
    ⟨py "oracle-" ++ operation.take 40, .oracle, user⟩

/-- A passage is judged. -/
def judgePassage (c : Claim) (template : PyStr) (passage : Passage F) (operation : PyStr) :
    OracleRun F W Unit :=
  match judgeRequest O c passage operation with
  | .error _ => refuse ⟨passage.ref, .judgeError⟩
  | .ok request => do
    let reply ← complete O passage request
    match judgeReply O template passage reply with
    | .error e => throw e
    | .ok (.inl verdict) => apply verdict
    | .ok (.inr refusal) => refuse refusal

/-! ## `judge_claim` -/

/-- `doc_id or self._key("hit", text)[:32]`. -/
def passageRef (docId text : PyStr) : Except OracleError PyStr :=
  if docId = [] then (key O [py "hit", text]).map (·.take 32) else .ok docId

/-- The reference of a passage, and the key of the request about it. -/
def passageKeys (c : Claim) (docId text : PyStr) : Except OracleError (PyStr × PyStr) :=
  match passageRef O docId text with
  | .error e => .error e
  | .ok ref =>
    match key O [py "judge", oracleVersion, c.claimId, ref, text.take 512] with
    | .error e => .error e
    | .ok operation => .ok (ref, operation)

/-- A hit that is not blank nor seen before. -/
def considerPassage (c : Claim) (template docId text : PyStr) (hit : Payload F) :
    OracleRun F W Unit := do
  modify fun s => { s with
    seenDocs := withDocument docId s.seenDocs
    result := { s.result with documentsConsidered := s.result.documentsConsidered + 1 } }
  match passageKeys O c docId text with
  | .error e => throw e
  | .ok (ref, operation) => judgePassage O c template ⟨ref, text, hit⟩ operation

/-- The body of `for hit in hits`. -/
def considerHit (c : Claim) (template : PyStr) (hit : Payload F) : OracleRun F W Unit := do
  let s ← get
  if PassedOver O.interpreter s.seenDocs hit then pure ()
  else considerPassage O c template (docIdOf O.interpreter hit) (passageText O.interpreter hit) hit

/-- The body of `for template in ORACLE_QUERY_TEMPLATES`. -/
def considerTemplate (c : Claim) (template : Template) : OracleRun F W Unit := do
  note fun r => { r with searches := r.searches + 1 }
  let hits ← search O (template.query c)
  hits.forM (considerHit O c template.text)

/-- The claim is judged afresh and cached. -/
def judgeFresh (c : Claim) (cacheKey : PyStr) : OracleRun F W (ClaimOracleResult F) := do
  oracleQueryTemplates.forM (considerTemplate O c)
  modify fun s => { s with result := { s.result with state := oracleState s.result.verdicts } }
  modify fun s => { s with claims := s.claims.set cacheKey s.result }
  flush
  return (← get).result

/-- The cached result, or a fresh one. -/
def judgeKeyed (c : Claim) (cacheKey : PyStr) : OracleRun F W (ClaimOracleResult F) := do
  let s ← get
  match s.claims.get cacheKey with
  | some cached => do
    note fun _ => { cached with claimId := c.claimId }
    return (← get).result
  | none => judgeFresh O c cacheKey

/-- The lab as `judge_claim` starts to work on it. -/
def started (c : Claim) (s : OracleLab F W) : OracleLab F W :=
  { s with seenDocs := [], result := ⟨c.claimId, .unresolved, [], [], 0, 0, []⟩ }

/-- `judge_claim`. -/
def judgeClaim (c : Claim) : OracleRun F W (ClaimOracleResult F) := do
  modify (started c)
  match key O [py "claim", oracleVersion, c.claimId] with
  | .error e => throw e
  | .ok cacheKey => judgeKeyed O c cacheKey

end Functions

end Oracle
