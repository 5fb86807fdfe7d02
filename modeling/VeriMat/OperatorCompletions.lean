import VeriMat.CompletedOperations
import VeriMat.Interleaving
import VeriMat.TokenBudget

/-! # Operators' completions

`evaluation/operation_recovery.py`: what an operator may complete a pending operation with, and
what the transports make of it. The writer checks less than the readers need: a blank response
text is accepted, which `ModelResponse.usage` refuses, and so is an object for a search or a list
for a content read. -/
namespace OperatorCompletions

open PyText JsonText PyValue PyDict Transaction Events CircuitBreaker OperationStore AtomicProgram
  Transports ModelTransports OperationSystem OperationProtocol OperationRuns CompletedOperations
  Interleaving
open DecisionGraph (getItem)

variable {F T R A C : Type}

/-! ## One reconciliation -/

/-- An `OperationRecoveryError`, no exception of another kind. -/
def isRecovery : RecoveryError → Bool
  | .attributeError | .notStorable => false
  | _ => true

/-- `_validate_attestation` raises nothing. -/
structure Attested (args : ReconcileArgs F) : Prop where
  actor : ¬(isBlank args.actor ∨ 200 < args.actor.length)
  reason : ¬(isBlank args.reason ∨ 2000 < args.reason.length)
  receipt : isHash args.evidenceReceiptSha256 = true

/-- A pending operation is to be completed, under its own request hash. -/
structure Completes (db : OperationDb R T) (args : ReconcileArgs F) (row : OperationRow R T) :
    Prop where
  action : args.action = py "complete"
  admitted : ValidId args.operationId
  encodes : (encode args.operationId).isSome = true
  digest : isHash args.requestSha256 = true
  found : db.row args.operationId = some row
  pending : Matches row args.requestSha256 .pending

/-- sqlite3 takes the response and the attestation. -/
structure Storable (table : ResponseTable F R A) (args : ReconcileArgs F) (response : R) :
    Prop where
  response : table.storable response = true
  actor : (encode args.actor).isSome = true
  reason : (encode args.reason).isSome = true

section Reconciling
variable {table : ResponseTable F R A} {db db' : OperationDb R T} {args : ReconcileArgs F}
  {row : OperationRow R T} {now : T} {e : RecoveryError} {u : Unit} {response : R}

theorem validateAttestation_ok :
    (validateAttestation args : RecoveryTx R T Unit) db = .ok u db' ↔ Attested args ∧ db' = db := by
  simp only [validateAttestation, bind_eq_ok, raiseIf_eq_ok]
  constructor
  · rintro ⟨_, _, ⟨hactor, rfl⟩, _, _, ⟨hreason, rfl⟩, hreceipt, rfl⟩
    exact ⟨⟨hactor, hreason, by simpa using hreceipt⟩, rfl⟩
  · rintro ⟨⟨hactor, hreason, hreceipt⟩, rfl⟩
    exact ⟨(), _, ⟨hactor, rfl⟩, (), _, ⟨hreason, rfl⟩, by simpa using hreceipt, rfl⟩

theorem validateAttestation_error
    (h : (validateAttestation args : RecoveryTx R T Unit) db = .error e db') :
    ¬Attested args ∧ isRecovery e = true := by
  constructor
  · intro hattested
    rw [(validateAttestation_ok (u := ())).mpr ⟨hattested, rfl⟩] at h
    cases h
  · rw [validateAttestation, bind_eq_error] at h
    rcases h with h | ⟨_, _, _, h⟩
    · rw [(raiseIf_raised h).1]
      rfl
    · rw [bind_eq_error] at h
      rcases h with h | ⟨_, _, _, h⟩
      · rw [(raiseIf_raised h).1]
        rfl
      · rw [(raiseIf_raised h).1]
        rfl

/-- The transaction that completes a pending row. -/
theorem transaction_ok (h : Completes db args row)
    (hok : reconcileTransaction table args .complete (some response) now db = .ok u db') :
    Storable table args response ∧ db'.row args.operationId = some (row.complete response now) := by
  simp only [reconcileTransaction, immediate_eq_ok, bind_eq_ok, raiseIf_eq_ok, get_apply,
    EStateM.Result.ok.injEq, orRaise_eq_ok, modify_eq_ok] at hok
  obtain ⟨_, _, ⟨_, rfl⟩, _, _, ⟨rfl, rfl⟩, row', _, ⟨hrow, rfl⟩, _, _, ⟨_, rfl⟩, _, _, ⟨_, rfl⟩, _,
    _, ⟨hstorable, rfl⟩, n, _, hupdate, _, _, ⟨hn, rfl⟩, _, _, ⟨htexts, rfl⟩, rfl⟩ := hok
  rcases updateOperation_eq_ok.mp hupdate with ⟨_, _, _, _, rfl⟩ | ⟨_, rfl, _⟩
  · obtain ⟨hactor, hreason⟩ := not_or.mp htexts
    refine ⟨⟨by simpa using hstorable, ?_, ?_⟩, ?_⟩
    · simpa [Option.isSome_iff_ne_none] using hactor
    · simpa [Option.isSome_iff_ne_none] using hreason
    · refine (row_modify _ _ _).trans ?_
      rw [if_pos rfl, h.found]
      rfl
  · exact absurd (by decide : (0 : ℕ) ≠ 1) hn

theorem transaction_error (h : Completes db args row)
    (herror : reconcileTransaction table args .complete (some response) now db = .error e db') :
    e = .notStorable ∧ ¬Storable table args response := by
  obtain ⟨_, s₁, hraised⟩ := immediate_eq_error.mp herror
  have hencodes : ∀ {s : PyStr}, (encode s).isNone = true → ¬(encode s).isSome = true := by
    intro s hs
    rw [← Option.not_isSome, Bool.not_eq_true'] at hs
    rw [hs]
    exact Bool.false_ne_true
  rw [bind_eq_error] at hraised
  rcases hraised with hraised | ⟨_, _, h₁, hraised⟩
  · rw [raiseIf, if_neg fun hs => hencodes hs h.encodes] at hraised
    cases hraised
  rw [(raiseIf_eq_ok.mp h₁).2, bind_eq_error] at hraised
  rcases hraised with hraised | ⟨_, _, h₂, hraised⟩
  · cases hraised
  obtain ⟨rfl, rfl⟩ := EStateM.Result.ok.inj h₂
  rw [bind_eq_error] at hraised
  rcases hraised with hraised | ⟨row', _, h₃, hraised⟩
  · rw [h.found] at hraised
    cases hraised
  obtain ⟨hrow, rfl⟩ := orRaise_eq_ok.mp h₃
  obtain rfl : row = row' := Option.some.inj (h.found.symm.trans hrow)
  rw [bind_eq_error] at hraised
  rcases hraised with hraised | ⟨_, _, h₄, hraised⟩
  · rw [raiseIf, if_neg (not_not.mpr h.pending.1)] at hraised
    cases hraised
  rw [(raiseIf_eq_ok.mp h₄).2, bind_eq_error] at hraised
  rcases hraised with hraised | ⟨_, _, h₅, hraised⟩
  · rw [raiseIf, if_neg (not_not.mpr h.pending.2)] at hraised
    cases hraised
  rw [(raiseIf_eq_ok.mp h₅).2, bind_eq_error] at hraised
  rcases hraised with hraised | ⟨_, _, h₆, hraised⟩
  · refine ⟨(raiseIf_raised hraised).1, fun hstorable => ?_⟩
    rw [raiseIf, if_neg (by simp [hstorable.response])] at hraised
    cases hraised
  rw [(raiseIf_eq_ok.mp h₆).2, bind_eq_error] at hraised
  rcases hraised with hraised | ⟨n, _, h₇, hraised⟩
  · exact absurd hraised (infallible_updateOperation _ _ _ _ _ _ _)
  rcases updateOperation_eq_ok.mp h₇ with ⟨_, _, _, rfl, rfl⟩ | ⟨hnone, _⟩
  · rw [bind_eq_error] at hraised
    rcases hraised with hraised | ⟨_, _, h₈, hraised⟩
    · cases hraised
    · rw [(raiseIf_eq_ok.mp h₈).2, bind_eq_error] at hraised
      rcases hraised with hraised | ⟨_, _, _, hraised⟩
      · refine ⟨(raiseIf_raised hraised).1, fun hstorable => ?_⟩
        rw [raiseIf, if_neg] at hraised
        · cases hraised
        · rintro (hactor | hreason)
          · exact hencodes hactor hstorable.actor
          · exact hencodes hreason hstorable.reason
      · cases hraised
  · exact absurd h.pending (hnone row h.found)

theorem reconcile_ok (h : Completes db args row)
    (hok : reconcileOperation table args now db = .ok u db') :
    Attested args ∧ ∃ response, table.validated args.response = .ok response ∧
      Storable table args response ∧ db'.row args.operationId = some (row.complete response now) := by
  simp only [reconcileOperation, bind_eq_ok, orRaise_eq_ok, raiseIf_eq_ok,
    validateAttestation_ok] at hok
  obtain ⟨action, _, ⟨haction, rfl⟩, _, _, ⟨_, rfl⟩, _, _, ⟨_, rfl⟩, _, _, ⟨hattested, rfl⟩,
    completion, _, hcompletion, hok⟩ := hok
  rw [h.action] at haction
  obtain rfl : action = .complete := (Option.some.inj haction).symm
  rw [completionOf, if_pos rfl] at hcompletion
  cases hvalid : table.validated args.response with
  | error e =>
    rw [hvalid] at hcompletion
    cases hcompletion
  | ok response =>
    rw [hvalid] at hcompletion
    obtain ⟨rfl, rfl⟩ := pure_eq_ok.mp hcompletion
    exact ⟨hattested, response, rfl, transaction_ok h hok⟩

/-- Why a completion of a pending operation is refused. -/
inductive Refused (table : ResponseTable F R A) (args : ReconcileArgs F) : RecoveryError → Prop where
  | unattested (e : RecoveryError) (attestation : ¬Attested args) (recovery : isRecovery e = true) :
      Refused table args e
  | invalid (e : RecoveryError) (attestation : Attested args) (validated : table.validated args.response = .error e) :
      Refused table args e
  | unstorable (response : R) (attestation : Attested args)
      (validated : table.validated args.response = .ok response)
      (storable : ¬Storable table args response) : Refused table args .notStorable

theorem reconcile_error (h : Completes db args row)
    (herror : reconcileOperation table args now db = .error e db') : Refused table args e := by
  rw [reconcileOperation, bind_eq_error] at herror
  rcases herror with herror | ⟨action, _, h₁, herror⟩
  · rw [h.action] at herror
    cases herror
  obtain ⟨haction, rfl⟩ := orRaise_eq_ok.mp h₁
  rw [h.action] at haction
  obtain rfl : action = .complete := (Option.some.inj haction).symm
  rw [bind_eq_error] at herror
  rcases herror with herror | ⟨_, _, h₂, herror⟩
  · rw [raiseIf, if_neg h.admitted] at herror
    cases herror
  rw [(raiseIf_eq_ok.mp h₂).2, bind_eq_error] at herror
  rcases herror with herror | ⟨_, _, h₃, herror⟩
  · rw [raiseIf, if_neg (by simp [h.digest])] at herror
    cases herror
  rw [(raiseIf_eq_ok.mp h₃).2, bind_eq_error] at herror
  rcases herror with herror | ⟨_, _, h₄, herror⟩
  · obtain ⟨hattested, hrecovery⟩ := validateAttestation_error herror
    exact .unattested e hattested hrecovery
  obtain ⟨hattested, hdb⟩ := validateAttestation_ok.mp h₄
  rw [hdb, bind_eq_error] at herror
  cases hvalid : table.validated args.response with
  | error e' =>
    rcases herror with herror | ⟨_, _, h₅, _⟩
    · rw [completionOf, if_pos rfl, hvalid] at herror
      obtain ⟨rfl, _⟩ := EStateM.Result.error.inj herror
      exact .invalid e' hattested hvalid
    · rw [completionOf, if_pos rfl, hvalid] at h₅
      cases h₅
  | ok response =>
    rcases herror with herror | ⟨completion, _, h₅, herror⟩
    · rw [completionOf, if_pos rfl, hvalid] at herror
      cases herror
    · rw [completionOf, if_pos rfl, hvalid] at h₅
      obtain ⟨rfl, rfl⟩ := pure_eq_ok.mp h₅
      obtain ⟨rfl, hstorable⟩ := transaction_error h herror
      exact .unstorable response hattested hvalid hstorable

end Reconciling

/-! ## Completions and later calls -/

section Calls
variable [PyFloat F] [LinearOrder T] [Zero T] [Sub T]

/-- The kind of calls over one operation table: what they ask for, and what they can use. -/
structure Reader (F T R A C : Type) [PyFloat F] [LinearOrder T] [Zero T] where
  table : ResponseTable F R A
  machine : Machine (OperationDb R T) C (Op F T R) Reply (Except OperationError A)
  operationId : C → PyStr
  request : C → PyVal F
  usable : C → A → Prop

abbrev Reader.System (_ : Reader F T R A C) :=
  AtomicProgram.System (OperationDb R T) C (Op F T R) Reply (Except OperationError A)

/-- The operation of a call is pending, reserved for the call's request, and to be completed. -/
structure Awaiting (H : Hasher) (reader : Reader F T R A C) (sys : reader.System) (call : C)
    (args : ReconcileArgs F) : Prop where
  reached : ∃ circuits, Reaches reader.machine Unguarded (System.idle (freshDb circuits)) sys
  pending : ∃ row, sys.state.row (reader.operationId call) = some row ∧ row.status = .pending ∧
    row.requestSha256 = args.requestSha256
  request : fingerprint H (reader.request call) = .ok args.requestSha256
  operation : args.operationId = reader.operationId call
  action : args.action = py "complete"

/-- What is accepted is what every later call of the request returns, as a response it can use;
what is not accepted is an `OperationRecoveryError`, and nothing has changed. -/
structure Replayable (reader : Reader F T R A C) (sys : reader.System) (call : C)
    (args : ReconcileArgs F) (now : T) : Prop where
  accepted : ∀ u db', reconcileOperation reader.table args now sys.state = .ok u db' →
    ∀ sys', Reaches reader.machine Unguarded { sys with state := db' } sys' →
    ∀ (i : ℕ) p, sys.processes.length ≤ i → sys'.processes[i]? = some p →
    reader.operationId p.call = reader.operationId call →
    reader.request p.call = reader.request call → ∀ result, p.program = .done result →
    ∃ response, reader.table.validated args.response = .ok response ∧
      result = .ok (reader.table.read response) ∧ reader.usable p.call (reader.table.read response)
  rejected : ∀ e db', reconcileOperation reader.table args now sys.state = .error e db' →
    isRecovery e = true ∧ db' = sys.state

/-- The response is refused by an `OperationRecoveryError`, or can be stored and used. -/
structure Acceptable (reader : Reader F T R A C) (call : C) (args : ReconcileArgs F) : Prop where
  refused : ∀ e, reader.table.validated args.response = .error e → isRecovery e = true
  usable : ∀ response, reader.table.validated args.response = .ok response →
    Storable reader.table args response ∧ reader.usable call (reader.table.read response)

variable {H : Hasher} {reader : Reader F T R A C} {sys : reader.System} {call : C}
  {args : ReconcileArgs F} {now : T} {valid : C → Validity F R}

theorem completes_of_awaiting (hM : Conforms reader.table ValidId valid reader.machine)
    (h : Awaiting H reader sys call args) : ∃ row, Completes sys.state args row ∧
      row.requestSha256 = args.requestSha256 ∧ sys.state.row (reader.operationId call) = some row := by
  obtain ⟨circuits, hreached⟩ := h.reached
  obtain ⟨row, hrow, hstatus, hhash⟩ := h.pending
  obtain ⟨hadmits, hencodes, _⟩ := rowsSound_reaches hM hreached _ row hrow
  have hdigest : isHash args.requestSha256 = true := by
    have hrequest := h.request
    rw [fingerprint] at hrequest
    cases hbytes : requestBytes (reader.request call) with
    | error e =>
      rw [hbytes] at hrequest
      cases hrequest
    | ok bytes =>
      rw [hbytes] at hrequest
      rw [← Except.ok.inj hrequest]
      exact H.hexdigest_isHash bytes
  rw [← h.operation] at hrow hadmits hencodes
  exact ⟨row, ⟨h.action, hadmits, hencodes, hdigest, hrow, hhash, hstatus⟩, hhash, h.operation ▸ hrow⟩

/-- A completion is replayable exactly when its attestation is refused or its response is
acceptable. -/
theorem replayable_iff (hM : Conforms reader.table ValidId valid reader.machine)
    (hgood : CompletedForGood H reader.table reader.operationId reader.request reader.machine)
    (hreplies : ∀ db o, ∃ r db', reader.machine.perform db o r db')
    (hexternal : ∀ db db', External reader.table db db' → reader.machine.external db db')
    (husable : ∀ c c' a, reader.request c = reader.request c' → reader.usable c a →
      reader.usable c' a)
    (h : Awaiting H reader sys call args) :
    Replayable reader sys call args now ↔ (Attested args → Acceptable reader call args) := by
  obtain ⟨row, hcompletes, hhash, hrow⟩ := completes_of_awaiting hM h
  obtain ⟨circuits, hreached⟩ := h.reached
  have hlater : ∀ u db', reconcileOperation reader.table args now sys.state = .ok u db' →
      ∀ sys', Reaches reader.machine Unguarded { sys with state := db' } sys' → ∀ (i : ℕ) p,
      sys.processes.length ≤ i → sys'.processes[i]? = some p →
      reader.operationId p.call = reader.operationId call →
      reader.request p.call = reader.request call → ∀ result, p.program = .done result →
      ∃ response, reader.table.validated args.response = .ok response ∧
        result = .ok (reader.table.read response) := by
    intro u db' hok sys' hreaches i p hi hp hid hrequest result hdone
    obtain ⟨_, response, hvalid, _, hcompleted⟩ := reconcile_ok hcompletes hok
    have hexternal' : reader.machine.external sys.state db' :=
      hexternal _ _ (.reconcile args now (.ok u) db' (outcome_ok.mpr hok))
    have hreplays := (hgood.replayed circuits _ sys' (hreached.tail (.external db' hexternal'))
      hreaches args.operationId _ hcompleted rfl i p hi hp (hid.trans h.operation.symm)).2 result hdone
    obtain ⟨response', hresponse', hresult⟩ := hreplays.same (by
      rw [hrequest, h.request]
      exact congrArg Except.ok hhash.symm)
    cases hresponse'
    exact ⟨response, hvalid, hresult⟩
  constructor
  · intro hreplayable hattested
    constructor
    · intro e hvalid
      cases hran : reconcileOperation reader.table args now sys.state with
      | ok u db' =>
        obtain ⟨_, response, hresponse, _⟩ := reconcile_ok hcompletes hran
        rw [hvalid] at hresponse
        cases hresponse
      | error e' db' =>
        obtain ⟨hrecovery, _⟩ := hreplayable.rejected e' db' hran
        cases reconcile_error hcompletes hran with
        | unattested _ attestation _ => exact absurd hattested attestation
        | invalid _ _ validated =>
          rw [hvalid] at validated
          cases validated
          exact hrecovery
        | unstorable => cases hrecovery
    · intro response hvalid
      cases hran : reconcileOperation reader.table args now sys.state with
      | ok u db' =>
        obtain ⟨_, response', hvalid', hstorable, _⟩ := reconcile_ok hcompletes hran
        obtain rfl : response = response' := Except.ok.inj (hvalid.symm.trans hvalid')
        refine ⟨hstorable, ?_⟩
        obtain ⟨sys', log, result, hreaches, hp⟩ :=
          exists_called hreplies call { sys with state := db' }
        obtain ⟨response', hvalid', _, hused⟩ :=
          hreplayable.accepted u db' hran sys' hreaches _ _ le_rfl hp rfl rfl result rfl
        obtain rfl : response = response' := Except.ok.inj (hvalid.symm.trans hvalid')
        exact hused
      | error e db' =>
        obtain ⟨hrecovery, _⟩ := hreplayable.rejected e db' hran
        cases reconcile_error hcompletes hran with
        | unattested _ attestation _ => exact absurd hattested attestation
        | invalid _ _ validated =>
          rw [hvalid] at validated
          cases validated
        | unstorable => cases hrecovery
  · intro hacceptable
    constructor
    · intro u db' hok sys' hreaches i p hi hp hid hrequest result hdone
      obtain ⟨hattested, _⟩ := reconcile_ok hcompletes hok
      obtain ⟨response, hvalid, hresult⟩ :=
        hlater u db' hok sys' hreaches i p hi hp hid hrequest result hdone
      refine ⟨response, hvalid, hresult, ?_⟩
      exact husable _ _ _ hrequest.symm ((hacceptable hattested).usable response hvalid).2
    · intro e db' herror
      refine ⟨?_, reconcileOperation_error herror⟩
      cases reconcile_error hcompletes herror with
      | unattested _ _ recovery => exact recovery
      | invalid _ attestation validated => exact (hacceptable attestation).refused e validated
      | unstorable response attestation validated storable =>
        exact absurd ((hacceptable attestation).usable response validated).1 storable

/-! ## Model operations -/

def modelReader (H : Hasher) (B : Builtins F) :
    Reader F T ModelResponse ModelResponse (ModelCall F T) where
  table := modelTable
  machine := modelMachine H B
  operationId c := c.request.operationId
  request c := c.request.hashed
  usable _ response := hasUsage response = true

/-- What a completion with the four fields and a text must also have: a request id that is a text,
and if that is not blank and the token counts are counts, a response text that is not blank, texts
that can be encoded, and counts of 64 bits. -/
def ModelCompletion (args : ReconcileArgs F) : Prop :=
  ∀ kvs text, args.response = some (.dict kvs) → hasModelFields kvs = true →
    getItem kvs (py "response_text") = some (.str text) →
    ∃ requestId, getItem kvs (py "request_id") = some (.str requestId) ∧
      (isBlank requestId = false → ∀ input output,
        tokenCount (getItem kvs (py "input_tokens")) = some input →
        tokenCount (getItem kvs (py "output_tokens")) = some output →
        isBlank text = false ∧ ((encode text).isSome = true ∧ (encode requestId).isSome = true) ∧
          (isInt64 input = true ∧ isInt64 output = true) ∧
          (encode args.actor).isSome = true ∧ (encode args.reason).isSome = true)

omit [LinearOrder T] [Zero T] [Sub T] in
theorem validatedModelResponse_fields {kvs : List (PyKey F × PyVal F)} {text : PyStr}
    (hfields : hasModelFields kvs = true)
    (htext : getItem kvs (py "response_text") = some (.str text)) :
    validatedModelResponse (some (.dict kvs)) =
      match getItem kvs (py "request_id") with
      | some (.str requestId) =>
        if isBlank requestId then .error .modelText
        else
          match tokenCount (getItem kvs (py "input_tokens")),
            tokenCount (getItem kvs (py "output_tokens")) with
          | some input, some output => .ok ⟨text, input, output, requestId⟩
          | none, _ => .error (.tokensInvalid (py "input_tokens"))
          | _, none => .error (.tokensInvalid (py "output_tokens"))
      | _ => .error .attributeError := by
  simp only [validatedModelResponse, hfields, htext]
  cases hid : getItem kvs (py "request_id") with
  | none => rfl
  | some v =>
    cases v with
    | str requestId =>
      simp only
      by_cases hblank : isBlank requestId = true
      · rw [if_pos hblank, if_pos hblank]
        rfl
      · rw [if_neg hblank, if_neg hblank]
        cases tokenCount (getItem kvs (py "input_tokens")) with
        | none => rfl
        | some input =>
          cases tokenCount (getItem kvs (py "output_tokens")) with
          | none => rfl
          | some output => rfl
    | _ => rfl

omit [LinearOrder T] [Zero T] [Sub T] in
/-- Without the four fields or a response text, the completion is refused as it should be. -/
theorem validatedModelResponse_shape (response : Option (PyVal F)) :
    (∃ kvs text, response = some (.dict kvs) ∧ hasModelFields kvs = true ∧
      getItem kvs (py "response_text") = some (.str text)) ∨
    ∃ e, validatedModelResponse response = .error e ∧ isRecovery e = true := by
  rcases response with _ | v
  · exact .inr ⟨_, rfl, rfl⟩
  cases v with
  | dict kvs =>
    by_cases hfields : hasModelFields kvs = true
    · cases htext : getItem kvs (py "response_text") with
      | none =>
        refine .inr ⟨.modelText, ?_, rfl⟩
        simp only [validatedModelResponse, hfields, htext]
        rfl
      | some v =>
        cases v with
        | str text => exact .inl ⟨kvs, text, rfl, hfields, htext⟩
        | _ =>
          refine .inr ⟨.modelText, ?_, rfl⟩
          simp only [validatedModelResponse, hfields, htext]
          rfl
    · refine .inr ⟨.modelFields, ?_, rfl⟩
      simp only [validatedModelResponse, hfields]
      rfl
  | _ => exact .inr ⟨_, rfl, rfl⟩

theorem acceptable_model_iff {H : Hasher} {B : Builtins F} {call : ModelCall F T}
    {args : ReconcileArgs F} : Acceptable (modelReader H B) call args ↔ ModelCompletion args := by
  constructor
  · intro h kvs text hresponse hfields htext
    have hvalidated := validatedModelResponse_fields hfields htext
    have hrefused : ∀ e, validatedModelResponse args.response = .error e → isRecovery e = true :=
      h.refused
    have husable : ∀ response, validatedModelResponse args.response = .ok response →
        Storable modelTable args response ∧ hasUsage response = true := h.usable
    rw [hresponse, hvalidated] at hrefused husable
    cases hid : getItem kvs (py "request_id") with
    | none =>
      simp only [hid] at hrefused
      exact absurd (hrefused _ rfl) Bool.false_ne_true
    | some v =>
      cases v with
      | str requestId =>
        refine ⟨requestId, rfl, ?_⟩
        intro hblank input output hinput houtput
        simp only [hid, hblank, hinput, houtput] at husable
        obtain ⟨hstorable, husage⟩ := husable _ rfl
        have hfits : ModelResponse.storable ⟨text, input, output, requestId⟩ = true :=
          hstorable.response
        simp only [ModelResponse.storable, Bool.and_eq_true] at hfits
        simp only [hasUsage, Bool.and_eq_true, Bool.not_eq_true'] at husage
        exact ⟨husage.1.1.1, ⟨hfits.1.1.1, hfits.2⟩, ⟨hfits.1.1.2, hfits.1.2⟩, hstorable.actor,
          hstorable.reason⟩
      | _ =>
        simp only [hid] at hrefused
        exact absurd (hrefused _ rfl) Bool.false_ne_true
  · intro h
    rcases validatedModelResponse_shape args.response with
      ⟨kvs, text, hresponse, hfields, htext⟩ | ⟨e, hvalidated, hrecovery⟩
    · obtain ⟨requestId, hid, hrest⟩ := h kvs text hresponse hfields htext
      have hvalidated := validatedModelResponse_fields hfields htext
      rw [← hresponse] at hvalidated
      simp only [hid] at hvalidated
      cases hblank : isBlank requestId with
      | true =>
        rw [hblank, if_pos rfl] at hvalidated
        exact ⟨fun e he => by cases hvalidated.symm.trans he; rfl,
          fun response he => by cases hvalidated.symm.trans he⟩
      | false =>
        rw [hblank, if_neg Bool.false_ne_true] at hvalidated
        cases hinput : tokenCount (getItem kvs (py "input_tokens")) with
        | none =>
          rw [hinput] at hvalidated
          exact ⟨fun e he => by cases hvalidated.symm.trans he; rfl,
            fun response he => by cases hvalidated.symm.trans he⟩
        | some input =>
          cases houtput : tokenCount (getItem kvs (py "output_tokens")) with
          | none =>
            rw [hinput, houtput] at hvalidated
            exact ⟨fun e he => by cases hvalidated.symm.trans he; rfl,
              fun response he => by cases hvalidated.symm.trans he⟩
          | some output =>
            obtain ⟨htext', ⟨hencodes, hidEncodes⟩, ⟨hinput64, houtput64⟩, hactor, hreason⟩ :=
              hrest hblank input output hinput houtput
            rw [hinput, houtput] at hvalidated
            refine ⟨fun e he => (by cases hvalidated.symm.trans he), fun response he => ?_⟩
            cases hvalidated.symm.trans he
            refine ⟨⟨?_, hactor, hreason⟩, ?_⟩
            · change ModelResponse.storable _ = true
              simp only [ModelResponse.storable, Bool.and_eq_true]
              exact ⟨⟨⟨hencodes, hinput64⟩, houtput64⟩, hidEncodes⟩
            · change hasUsage (⟨text, input, output, requestId⟩ : ModelResponse) = true
              simp [hasUsage, htext', hblank, TokenBudget.tokenCount_nonneg hinput,
                TokenBudget.tokenCount_nonneg houtput]
    · exact ⟨fun e' he => by cases hvalidated.symm.trans he; exact hrecovery,
        fun response he => by cases hvalidated.symm.trans he⟩

/-! ## Retrieval operations -/

/-- A list for a search, an object for a content read. -/
def accepts : RetrievalCall F T → PyVal F → Bool
  | .search _ _ _ _ _ => searchEndpoint.accepts
  | .content _ _ _ _ _ => contentEndpoint.accepts

def retrievalReader (H : Hasher) :
    Reader F T (RenderedJson F) (PyVal F) (RetrievalCall F T) where
  table := retrievalTable
  machine := retrievalMachine H
  operationId := RetrievalCall.operationId
  request := RetrievalCall.hashed
  usable call value := accepts call value = true

/-- What a completion that is an object or a list and renders as JSON must also be: of the shape
that the call reads, and a text that can be encoded. -/
def RetrievalCompletion (call : RetrievalCall F T) (args : ReconcileArgs F) : Prop :=
  ∀ v json, args.response = some v → (isDict v || isList v) = true → lower v = .ok json →
    accepts call v = true ∧ (encode (render json)).isSome = true ∧
      (encode args.actor).isSome = true ∧ (encode args.reason).isSome = true

omit [LinearOrder T] [Zero T] [Sub T] in
theorem renderJson_lower {v : PyVal F} :
    (∀ e, lower v = .error e → renderJson v = .error e) ∧
      ∀ json, lower v = .ok json → ∃ rendered, renderJson v = .ok rendered ∧
        rendered.text = render json ∧ rendered.value = ofJson json.dedup := by
  constructor
  · intro e he
    have hcanonical : canonicalJson v = .error e := by rw [canonicalJson, dumps, he]; rfl
    unfold renderJson
    split
    · rename_i e' he'
      rw [hcanonical] at he'
      cases he'
      rfl
    · rename_i text htext
      rw [hcanonical] at htext
      cases htext
  · intro json hjson
    have hcanonical : canonicalJson v = .ok (render json) := by
      rw [canonicalJson, dumps, hjson]
      rfl
    unfold renderJson
    split
    · rename_i e' he'
      rw [hcanonical] at he'
      cases he'
    · rename_i text htext
      rw [hcanonical] at htext
      cases htext
      refine ⟨_, rfl, rfl, ?_⟩
      have hloads := loads_render (DurablePayload.lower_finite v json hjson) (t := [])
        (by intro c hc; cases hc)
      rw [List.append_nil] at hloads
      simp only [RenderedJson.value, hloads, Option.get_some]

omit [LinearOrder T] [Zero T] [Sub T] in
/-- A list is read back as a list, an object as an object. -/
theorem shape_lower {v : PyVal F} {json : Json F} (hshape : (isDict v || isList v) = true)
    (h : lower v = .ok json) :
    isDict (ofJson json.dedup) = isDict v ∧ isList (ofJson json.dedup) = isList v := by
  cases v with
  | list xs =>
    rw [lower] at h
    cases hxs : lowerElems xs with
    | error e =>
      rw [hxs] at h
      cases h
    | ok js =>
      rw [hxs] at h
      cases h
      exact ⟨rfl, rfl⟩
  | dict kvs =>
    rw [lower] at h
    cases hitems : sortItems (lowerItems kvs) with
    | error e =>
      rw [hitems] at h
      cases h
    | ok items =>
      simp only [hitems] at h
      cases hmembers : lowerMembers items with
      | error e =>
        rw [hmembers] at h
        cases h
      | ok members =>
        rw [hmembers] at h
        cases h
        exact ⟨rfl, rfl⟩
  | _ => cases hshape

theorem acceptable_retrieval_iff {H : Hasher} {call : RetrievalCall F T}
    {args : ReconcileArgs F} :
    Acceptable (retrievalReader H) call args ↔ RetrievalCompletion call args := by
  have haccepts : ∀ {v : PyVal F} {json}, (isDict v || isList v) = true → lower v = .ok json →
      accepts call (ofJson json.dedup) = accepts call v := by
    intro v json hshape hjson
    obtain ⟨hdict, hlist⟩ := shape_lower hshape hjson
    cases call with
    | search circuit operationId query topK filters => exact hlist
    | content circuit operationId docId offset limit => exact hdict
  constructor
  · intro h v json hresponse hshape hjson
    obtain ⟨rendered, hrendered, htext, hvalue⟩ := renderJson_lower.2 json hjson
    have hvalidated : validatedRetrievalResponse args.response = .ok rendered := by
      rw [hresponse]
      simp only [validatedRetrievalResponse, hshape, if_true, hrendered]
    obtain ⟨hstorable, husable⟩ := h.usable rendered hvalidated
    have hread : accepts call rendered.value = true := husable
    rw [hvalue, haccepts hshape hjson] at hread
    have hencodes : (encode rendered.text).isSome = true := hstorable.response
    rw [htext] at hencodes
    exact ⟨hread, hencodes, hstorable.actor, hstorable.reason⟩
  · intro h
    constructor
    · intro e hvalidated
      change validatedRetrievalResponse args.response = .error e at hvalidated
      unfold validatedRetrievalResponse at hvalidated
      split at hvalidated
      · split_ifs at hvalidated
        · split at hvalidated
          · cases hvalidated
          · cases hvalidated
            rfl
        · cases hvalidated
          rfl
      · cases hvalidated
        rfl
    · intro rendered hvalidated
      change validatedRetrievalResponse args.response = .ok rendered at hvalidated
      unfold validatedRetrievalResponse at hvalidated
      split at hvalidated
      · rename_i v hresponse
        split_ifs at hvalidated with hshape
        cases hlower : lower v with
        | error e =>
          rw [renderJson_lower.1 e hlower] at hvalidated
          cases hvalidated
        | ok json =>
          obtain ⟨rendered', hrendered, htext, hvalue⟩ := renderJson_lower.2 json hlower
          rw [hrendered] at hvalidated
          cases hvalidated
          obtain ⟨hread, hencodes, hactor, hreason⟩ := h v json hresponse hshape hlower
          refine ⟨⟨?_, hactor, hreason⟩, ?_⟩
          · change (encode rendered.text).isSome = true
            rw [htext]
            exact hencodes
          · change accepts call rendered.value = true
            rw [hvalue, haccepts hshape hlower]
            exact hread
      · cases hvalidated

/-- Calls of one request read the same shape. -/
theorem accepts_of_request {H : Hasher} (c c' : RetrievalCall F T) (v : PyVal F)
    (h : (retrievalReader H).request c = (retrievalReader H).request c')
    (haccepts : (retrievalReader H).usable c v) : (retrievalReader H).usable c' v := by
  cases c with
  | search circuit operationId query topK filters =>
    cases c' with
    | search => exact haccepts
    | content => cases h
  | content circuit operationId docId offset limit =>
    cases c' with
    | search => cases h
    | content => exact haccepts

/-- Every operation of a transport has a reply. -/
theorem every_reply (table : ResponseTable F R A) (db : OperationDb R T) (o : Op F T R) :
    ∃ r db', perform table db o r db' :=
  ⟨_, _, respond_performs table ⟨0, ⟨[], by intro c hc; cases hc⟩, .error (otherError []),
    fun _ => .error (otherError [])⟩ db o⟩

end Calls

/-! ## The two kinds of operation -/

section Kinds
variable [PyFloat F] [LinearOrder T] [Zero T] [Sub T]

/-- Completions of attested operators are replayable exactly under this condition. -/
def ReplayableWhen (H : Hasher) (reader : Reader F T R A C) (condition : C → ReconcileArgs F → Prop) :
    Prop :=
  ∀ sys call args now, Awaiting H reader sys call args →
    (Replayable reader sys call args now ↔ (Attested args → condition call args))

theorem model_replayable_iff (H : Hasher) (B : Builtins F) :
    ReplayableWhen H (modelReader H B : Reader F T _ _ _) fun _ => ModelCompletion := by
  intro sys call args now h
  have hgood : CompletedForGood H modelTable (fun c => c.request.operationId)
      (fun c => c.request.hashed) (modelMachine H B : Machine _ (ModelCall F T) _ _ _) := by
    apply completedForGood_of_answers (modelMachine_conforms H B)
    intro X row response hid hencodes hhash hstatus hresponse hstorable
    exact model_answers B hid hencodes hhash hstatus hresponse hstorable
  rw [replayable_iff (modelMachine_conforms H B) hgood (every_reply modelTable)
    (fun _ _ hexternal => hexternal) (fun _ _ _ _ husage => husage) h]
  exact imp_congr_right fun _ => acceptable_model_iff

theorem retrieval_replayable_iff (H : Hasher) :
    ReplayableWhen H (retrievalReader H : Reader F T _ _ _) RetrievalCompletion := by
  intro sys call args now h
  have hgood : CompletedForGood H retrievalTable RetrievalCall.operationId RetrievalCall.hashed
      (retrievalMachine H : Machine _ (RetrievalCall F T) _ _ _) := by
    apply completedForGood_of_answers (retrievalMachine_conforms H)
    intro X row response _ _ _ hstatus hresponse _
    exact retrieval_answers hstatus hresponse
  rw [replayable_iff (retrievalMachine_conforms H) hgood (every_reply retrievalTable)
    (fun _ _ hexternal => hexternal) accepts_of_request h]
  exact imp_congr_right fun _ => acceptable_retrieval_iff

end Kinds

/-! ## A blank response -/

/-- The completion of the operation `a` with a response text that is blank. -/
def blankCompletion : ReconcileArgs NonFinite where
  operationId := py "a"
  requestSha256 := List.replicate 64 48
  action := py "complete"
  actor := py "operator"
  reason := py "provider log"
  evidenceReceiptSha256 := List.replicate 64 48
  response := some (.dict [(.str (py "response_text"), .str (py " ")),
    (.str (py "input_tokens"), .int 400), (.str (py "output_tokens"), .int 300),
    (.str (py "request_id"), .str (py "r"))])

/-- A call whose process crashed when it had reserved its operation. -/
def crashedSystem : System (OperationDb ModelResponse ℤ) (ModelCall NonFinite ℤ)
    (Op NonFinite ℤ ModelResponse) Reply (Except OperationError ModelResponse) :=
  (System.idle (freshDb PaidResponses.sampleCircuits)).play
    (modelMachine PaidResponses.zeroHasher TokenBudget.sampleBuiltins).program (respond modelTable)
    (.start (TokenBudget.sampleCall (py "a")) :: List.replicate 4 (.act 0 TokenBudget.answering))

theorem awaiting_crashed : Awaiting PaidResponses.zeroHasher
    (modelReader PaidResponses.zeroHasher TokenBudget.sampleBuiltins) crashedSystem
    (TokenBudget.sampleCall (py "a")) blankCompletion where
  reached := ⟨PaidResponses.sampleCircuits, reaches_play (respond_performs modelTable) _⟩
  pending := by
    have hpending : (crashedSystem.state.row (py "a")).any (fun row => row.status == .pending &&
        row.requestSha256 == blankCompletion.requestSha256) = true := by decide +kernel
    obtain ⟨row, hrow, hfits⟩ := (Option.any_eq_true _ _).mp hpending
    simp only [Bool.and_eq_true, beq_iff_eq] at hfits
    exact ⟨row, hrow, hfits⟩
  request := by decide +kernel
  operation := rfl
  action := rfl

/-- The blank text is accepted, and what every later call returns has no usage. -/
theorem blank_not_replayable : ∃ sys call args now,
    Awaiting PaidResponses.zeroHasher
        (modelReader PaidResponses.zeroHasher TokenBudget.sampleBuiltins) sys call args ∧
      ¬Replayable (T := ℤ) (modelReader PaidResponses.zeroHasher TokenBudget.sampleBuiltins) sys call
        args now := by
  refine ⟨_, _, _, 0, awaiting_crashed, ?_⟩
  rw [model_replayable_iff PaidResponses.zeroHasher TokenBudget.sampleBuiltins _ _ _ _
    awaiting_crashed]
  intro h
  obtain ⟨requestId, hid, hrest⟩ := h ⟨by decide, by decide, by decide⟩ _ (py " ") rfl
    (by decide) rfl
  obtain rfl : py "r" = requestId := PyVal.str.inj (Option.some.inj hid)
  have hblank := (hrest (by decide) 400 300 (by decide) (by decide)).1
  exact absurd hblank (by decide)

/-- Whatever runs, crashes and reconciliations came before, and for every response of an
operator. -/
theorem completions_replayable_iff [PyFloat F] [LinearOrder T] [Zero T] [Sub T] (H : Hasher)
    (B : Builtins F) :
    ReplayableWhen H (modelReader H B : Reader F T _ _ _) (fun _ => ModelCompletion) ∧
      ReplayableWhen H (retrievalReader H : Reader F T _ _ _) RetrievalCompletion :=
  ⟨model_replayable_iff H B, retrieval_replayable_iff H⟩

end OperatorCompletions
