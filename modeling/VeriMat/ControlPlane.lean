import VeriMat.DecisionGraph
import VeriMat.JobStoreCalls

/-! # The control plane

`service/api.py`: how a submission is checked, how it reaches the job store, and which exceptions
of the store become a response. The API checks the length of an idempotency key, the store wants
one that is not blank, and what the store raises then is translated by nobody. -/
namespace ControlPlane

open PyText JsonText PyValue KeyedTable Transaction JobStore JobStoreCalls
open DecisionGraph (Payload getItem)

variable {F T : Type}

/-! ## Submissions -/

/-- `MAX_TASK_CHARS`. -/
def maxTaskChars : ℕ := 20000

/-- `MAX_IDEMPOTENCY_CHARS`. -/
def maxIdempotencyChars : ℕ := 200

/-- The fields of a submission. -/
def submissionFields : List PyStr :=
  [py "idempotency_key", py "task", py "max_calls", py "max_tokens", py "max_cost_microunits"]

/-- `MAX_CALL_BUDGET`. -/
def maxCallBudget : ℤ := 10000

/-- `MAX_TOKEN_BUDGET`. -/
def maxTokenBudget : ℤ := 100000000

/-- `MAX_COST_BUDGET`. -/
def maxCostBudget : ℤ := 10 ^ 15

/-- What the text of the ValueError says. -/
inductive SubmissionIssue where
  | notObject
  | unknownFields (fields : List PyStr)
  | keyLength
  | taskLength
  | limit (field : PyStr) (maximum : ℤ)
  deriving DecidableEq, Repr

/-- A normalized submission. -/
structure Submission where
  idempotencyKey : PyStr
  task : PyStr
  maxCalls : ℤ
  maxTokens : ℤ
  maxCostMicrounits : ℤ
  deriving DecidableEq, Repr

section Validation
variable [PyFloat F]

/-- `idempotency_key`. -/
def checkKey (value : Option (PyVal F)) : Except SubmissionIssue PyStr :=
  match value with
  | some (.str key) =>
    if 1 ≤ key.length ∧ key.length ≤ maxIdempotencyChars then .ok key else .error .keyLength
  | _ => .error .keyLength

/-- `task`. -/
def checkTask (value : Option (PyVal F)) : Except SubmissionIssue PyStr :=
  match value with
  | some (.str task) =>
    if isBlank task = true ∨ maxTaskChars < task.length then .error .taskLength else .ok task
  | _ => .error .taskLength

/-- One budget; a boolean is not taken. -/
def checkLimit (kvs : Payload F) (field : PyStr) (maximum : ℤ) : Except SubmissionIssue ℤ :=
  match getItem kvs field with
  | some (.int amount) =>
    if 0 ≤ amount ∧ amount ≤ maximum then .ok amount else .error (.limit field maximum)
  | _ => .error (.limit field maximum)

/-- `_validate_submission`. -/
def validateSubmission : PyVal F → Except SubmissionIssue Submission
  | .dict kvs =>
    let unknown := ((kvs.map fun p => p.1.strValue).filter (· ∉ submissionFields)).insertionSort
      (· ≤ ·)
    if unknown ≠ [] then .error (.unknownFields unknown)
    else do
      let idempotencyKey ← checkKey (getItem kvs (py "idempotency_key"))
      let task ← checkTask (getItem kvs (py "task"))
      let maxCalls ← checkLimit kvs (py "max_calls") maxCallBudget
      let maxTokens ← checkLimit kvs (py "max_tokens") maxTokenBudget
      let maxCostMicrounits ← checkLimit kvs (py "max_cost_microunits") maxCostBudget
      .ok ⟨idempotencyKey, task, maxCalls, maxTokens, maxCostMicrounits⟩
  | _ => .error .notObject

end Validation

/-! ## Responses -/

/-- A response without its request id: the job, or a status and the code of its error. -/
inductive Response (T : Type) where
  | job (j : Job T)
  | error (status : ℕ) (code : PyStr)

/-- The arguments of `create_job`. -/
def Submission.newJob (sub : Submission) (tenantId : PyStr) : NewJob :=
  ⟨tenantId, sub.idempotencyKey, sub.task, sub.maxCalls, sub.maxTokens, sub.maxCostMicrounits,
    none⟩

/-- The `except` clauses of `do_POST`: OverflowError, then ValueError and IdempotencyConflict; any
other exception leaves the handler. -/
def onStoreError (e : StoreError T) : Except (StoreError T) (Response T) :=
  match e.errorClass with
  | .overflowError => .ok (.error 413 (py "BODY_TOO_LARGE"))
  | .valueError | .unicodeEncodeError | .idempotencyConflict =>
    .ok (.error 400 (py "INVALID_REQUEST"))
  | .jobStoreError | .illegalTransition | .leaseConflict | .budgetExceeded | .integrityError =>
    .error e

/-- What `do_POST` makes of an accepted submission: its response, or what leaves the handler. -/
def postSubmission (sub : Submission) (tenantId uuid : PyStr) (now : T) (s : Store T) :
    Except (StoreError T) (Response T) × Store T :=
  match createJob (sub.newJob tenantId) uuid now s with
  | .ok job s' => (.ok (.job job), s')
  | .error e s' => (onStoreError e, s')

/-! ## What the API has checked -/

section Checked
variable [PyFloat F] {value : PyVal F} {sub : Submission}

omit [PyFloat F] in
theorem checkTask_eq_ok {value : Option (PyVal F)} {task : PyStr} (h : checkTask value = .ok task) :
    isBlank task = false := by
  unfold checkTask at h
  split at h
  · split_ifs at h with hbad
    obtain rfl := Except.ok.inj h
    simpa using (not_or.mp hbad).1
  · cases h

theorem checkLimit_eq_ok {kvs : Payload F} {field : PyStr} {maximum amount : ℤ}
    (h : checkLimit kvs field maximum = .ok amount) : 0 ≤ amount ∧ amount ≤ maximum := by
  unfold checkLimit at h
  split at h
  · split_ifs at h with hfits
    obtain rfl := Except.ok.inj h
    exact hfits
  · cases h

omit [PyFloat F] in
theorem fits_of_limit {amount maximum : ℤ} (h : 0 ≤ amount ∧ amount ≤ maximum)
    (hmaximum : maximum ≤ 9223372036854775807) : 0 ≤ amount ∧ FitsInteger amount := by
  refine ⟨h.1, ?_, ?_⟩
  · omega
  · omega

/-- What the store is promised of an accepted submission. -/
structure Submission.Checked (sub : Submission) : Prop where
  task : isBlank sub.task = false
  calls : 0 ≤ sub.maxCalls ∧ FitsInteger sub.maxCalls
  tokens : 0 ≤ sub.maxTokens ∧ FitsInteger sub.maxTokens
  cost : 0 ≤ sub.maxCostMicrounits ∧ FitsInteger sub.maxCostMicrounits

theorem checked_of_validate (h : validateSubmission value = .ok sub) : sub.Checked := by
  have hbind : ∀ {α β : Type} {x : Except SubmissionIssue α} {f : α → Except SubmissionIssue β}
      {b : β}, (x >>= f) = .ok b → ∃ a, x = .ok a ∧ f a = .ok b := by
    intro α β x f b hx
    cases x with
    | error e => cases hx
    | ok a => exact ⟨a, rfl, hx⟩
  cases value with
  | dict kvs =>
    simp only [validateSubmission] at h
    split_ifs at h
    obtain ⟨key, _, h⟩ := hbind h
    obtain ⟨task, htask, h⟩ := hbind h
    obtain ⟨calls, hcalls, h⟩ := hbind h
    obtain ⟨tokens, htokens, h⟩ := hbind h
    obtain ⟨cost, hcost, h⟩ := hbind h
    obtain rfl := Except.ok.inj h
    exact ⟨checkTask_eq_ok htask, fits_of_limit (checkLimit_eq_ok hcalls) (by decide),
      fits_of_limit (checkLimit_eq_ok htokens) (by decide),
      fits_of_limit (checkLimit_eq_ok hcost) (by decide)⟩
  | _ => cases h

end Checked

/-! ## What the store makes of it -/

section Submitted
variable {sub : Submission} {tenantId uuid identifier : PyStr} {now : T} {s s' : Store T}
  {a : NewJob} {e : StoreError T}

/-- The job is new, and all its texts can be bound. -/
structure Inserts (s : Store T) (a : NewJob) (identifier : PyStr) : Prop where
  tenantId : (encode a.tenantId).isSome = true
  idempotencyKey : (encode a.idempotencyKey).isSome = true
  identifier : (encode identifier).isSome = true
  task : (encode a.task).isSome = true
  newKey : s.jobs.find (Job.hasKey a.tenantId a.idempotencyKey) = none

/-- Why a job is not created: a text cannot be bound, the key is taken by another job, or the
identifier is taken. -/
inductive Refuses (s : Store T) (a : NewJob) (identifier : PyStr) : StoreError T → Prop where
  | text (missing : ¬Inserts s a identifier) : Refuses s a identifier .unicodeEncodeError
  | conflict (missing : ¬Inserts s a identifier) : Refuses s a identifier .budgetsDiffer
  | taken (inserts : Inserts s a identifier) (row : Job T) (found : s.job identifier = some row) :
      Refuses s a identifier .integrityError

theorem bindText_raised {x : PyStr} (h : (bindText x : Db T Unit) s = .error e s') :
    e = .unicodeEncodeError ∧ ¬(encode x).isSome = true := by
  refine ⟨(raiseIf_raised h).1, ?_⟩
  intro hx
  rw [bindText, raiseIf, if_neg] at h
  · cases h
  · rw [← Option.not_isSome, hx]
    exact Bool.false_ne_true

theorem bindInt_raises {n : ℤ} (hn : FitsInteger n) :
    ¬(bindInt n : Db T Unit) s = .error e s' := by
  intro h
  rw [bindInt, raiseIf, if_neg (not_not.mpr hn)] at h
  cases h

/-- A row that cannot be inserted has the identifier of another. -/
theorem insertJob_raised (hinserts : Inserts s a identifier)
    (h : insertJob (a.row identifier now) s = .error e s') : Refuses s a identifier e := by
  rw [insertJob, bind_eq_error] at h
  rcases h with h | ⟨_, _, hget, h⟩
  · cases h
  · cases hget
    rcases bind_eq_error.mp h with h | ⟨_, _, _, h⟩
    · cases hinsert : s.jobs.insert (a.row identifier now) with
      | some t =>
        rw [hinsert] at h
        cases h
      | none =>
        rw [hinsert] at h
        cases h
        have hclash : ¬∀ r ∈ s.jobs.rows, ¬jobClash r.key (a.row identifier now).key := by
          intro hfree
          obtain ⟨t, ht⟩ := Table.insert_isSome.mpr hfree
          rw [hinsert] at ht
          cases ht
        push Not at hclash
        obtain ⟨r, hr, hid | hkey⟩ := hclash
        · cases hfind : s.job identifier with
          | some row => exact .taken hinserts row hfind
          | none =>
            have hnone := Table.find_eq_none.mp hfind r hr
            have hid : r.jobId = identifier := hid
            rw [Job.hasId, hid] at hnone
            simp at hnone
        · have hnone := Table.find_eq_none.mp hinserts.newKey r hr
          obtain ⟨htenant, hidempotency⟩ := Prod.mk.inj hkey
          rw [Job.hasKey, htenant, hidempotency] at hnone
          simp [NewJob.row] at hnone
    · cases h

theorem createJobTransaction_raised (hfits : FitsInteger a.maxCalls ∧ FitsInteger a.maxTokens ∧
    FitsInteger a.maxCostMicrounits)
    (h : createJobTransaction a identifier now s = .error e s') : Refuses s a identifier e := by
  rw [createJobTransaction, immediate_eq_error] at h
  obtain ⟨_, _, h⟩ := h
  rw [bind_eq_error] at h
  rcases h with h | ⟨_, _, h₁, h⟩
  · obtain ⟨rfl, hnot⟩ := bindText_raised h
    exact .text fun hinserts => hnot hinserts.tenantId
  obtain ⟨htenant, hs₁⟩ := bindText_eq_ok.mp h₁
  rw [hs₁, bind_eq_error] at h
  rcases h with h | ⟨_, _, h₂, h⟩
  · obtain ⟨rfl, hnot⟩ := bindText_raised h
    exact .text fun hinserts => hnot hinserts.idempotencyKey
  obtain ⟨hkey, hs₂⟩ := bindText_eq_ok.mp h₂
  rw [hs₂, bind_eq_error] at h
  rcases h with h | ⟨_, _, hget, h⟩
  · cases h
  cases hget
  cases hfind : s.jobs.find (Job.hasKey a.tenantId a.idempotencyKey) with
  | some existing =>
    rw [hfind, bind_eq_error] at h
    rcases h with h | ⟨_, _, _, h⟩
    · rw [(raiseIf_raised h).1]
      refine .conflict fun hinserts => ?_
      rw [hinserts.newKey] at hfind
      cases hfind
    · cases h
  | none =>
    rw [hfind, bind_eq_error] at h
    rcases h with h | ⟨_, _, h₃, h⟩
    · obtain ⟨rfl, hnot⟩ := bindText_raised h
      exact .text fun hinserts => hnot hinserts.identifier
    obtain ⟨hidentifier, hs₃⟩ := bindText_eq_ok.mp h₃
    rw [hs₃, bind_eq_error] at h
    rcases h with h | ⟨_, _, h₄, h⟩
    · obtain ⟨rfl, hnot⟩ := bindText_raised h
      exact .text fun hinserts => hnot hinserts.task
    obtain ⟨htask, hs₄⟩ := bindText_eq_ok.mp h₄
    rw [hs₄, bind_eq_error] at h
    rcases h with h | ⟨_, _, h₅, h⟩
    · exact absurd h (bindInt_raises hfits.1)
    rw [(bindInt_eq_ok.mp h₅).2, bind_eq_error] at h
    rcases h with h | ⟨_, _, h₆, h⟩
    · exact absurd h (bindInt_raises hfits.2.1)
    rw [(bindInt_eq_ok.mp h₆).2, bind_eq_error] at h
    rcases h with h | ⟨_, _, h₇, h⟩
    · exact absurd h (bindInt_raises hfits.2.2)
    rw [(bindInt_eq_ok.mp h₇).2, bind_eq_error] at h
    rcases h with h | ⟨_, _, _, h⟩
    · exact insertJob_raised ⟨htenant, hkey, hidentifier, htask, hfind⟩ h
    · cases h

/-- The store takes the submission: its tenant and its key are not blank, and if it is inserted,
its identifier is new. -/
structure Taken (s : Store T) (sub : Submission) (tenantId uuid : PyStr) : Prop where
  tenant_named : isBlank tenantId = false
  key_named : isBlank sub.idempotencyKey = false
  id_new : Inserts s (sub.newJob tenantId) uuid → s.job uuid = none

theorem createJob_raised (hchecked : sub.Checked) (htenant : isBlank tenantId = false)
    (hkey : isBlank sub.idempotencyKey = false)
    (h : createJob (sub.newJob tenantId) uuid now s = .error e s') :
    Refuses s (sub.newJob tenantId) uuid e := by
  rw [createJob, bind_eq_error] at h
  rcases h with h | ⟨_, _, h₁, h⟩
  · rw [raiseIf, if_neg] at h
    · cases h
    · simp [Submission.newJob, htenant, hkey, hchecked.task]
  rw [(raiseIf_eq_ok.mp h₁).2, bind_eq_error] at h
  rcases h with h | ⟨_, _, h₂, h⟩
  · rw [raiseIf, if_neg] at h
    · cases h
    · simp [Submission.newJob, hchecked.calls.1, hchecked.tokens.1, hchecked.cost.1]
  rw [(raiseIf_eq_ok.mp h₂).2, bind_eq_error] at h
  rcases h with h | ⟨created, _, h₃, h⟩
  · exact createJobTransaction_raised ⟨hchecked.calls.2, hchecked.tokens.2, hchecked.cost.2⟩ h
  · rcases createJobTransaction_eq_ok.mp h₃ with ⟨existing, _, rfl, _⟩ | ⟨hnew, rfl⟩
    · cases h
    · change getJob _ _ _ = _ at h
      rw [hnew.get] at h
      cases h

/-- An exception of `create_job` becomes a response exactly when it is not about the identifier. -/
theorem Refuses.answered (h : Refuses s a identifier e) (hnew : ¬e = .integrityError) :
    onStoreError e = .ok (.error 400 (py "INVALID_REQUEST")) := by
  cases h with
  | text | conflict => rfl
  | taken => exact absurd rfl hnew

/-- The job, or a response that says the request is invalid. -/
def Answered (answer : Except (StoreError T) (Response T)) : Prop :=
  (∃ job, answer = .ok (.job job)) ∨ answer = .ok (.error 400 (py "INVALID_REQUEST"))

theorem not_answered (h : e.errorClass = .jobStoreError ∨ e.errorClass = .integrityError) :
    ¬Answered (onStoreError e) := by
  have hescapes : onStoreError e = .error e := by
    unfold onStoreError
    rcases h with h | h
    · simp only [h]
    · simp only [h]
  rw [hescapes]
  rintro (⟨job, hjob⟩ | hrequest)
  · cases hjob
  · cases hrequest

/-- An accepted submission is answered exactly when its key and its tenant are not blank and the
identifier of a new job is new. -/
theorem submission_answered_iff [PyFloat F] (value : PyVal F) (sub : Submission)
    (h : validateSubmission value = .ok sub) (s : Store T) (tenantId uuid : PyStr) (now : T) :
    Answered (postSubmission sub tenantId uuid now s).1 ↔ Taken s sub tenantId uuid := by
  have hchecked := checked_of_validate h
  constructor
  · intro hanswered
    by_contra hnot
    rw [postSubmission] at hanswered
    cases hran : createJob (sub.newJob tenantId) uuid now s with
    | ok job s' =>
      obtain ⟨⟨htenant, hkey, _⟩, _, hdone⟩ := createJob_eq_ok.mp hran
      refine hnot ⟨htenant, hkey, ?_⟩
      intro hinserts
      rcases hdone with ⟨hreplayed, _⟩ | ⟨hcreated, _⟩
      · have hfound := hreplayed.found
        rw [hinserts.newKey] at hfound
        cases hfound
      · exact hcreated.absent
    | error e s' =>
      simp only [hran] at hanswered
      by_cases hblank : isBlank tenantId = true ∨ isBlank sub.idempotencyKey = true
      · refine not_answered (.inl ?_) hanswered
        rw [createJob, bind_eq_error] at hran
        rcases hran with hran | ⟨_, _, hran, _⟩
        · rw [(raiseIf_raised hran).1]
          rfl
        · refine absurd ?_ (raiseIf_eq_ok.mp hran).1
          exact hblank.imp_right .inl
      · obtain ⟨htenant, hkey⟩ := not_or.mp hblank
        rw [Bool.not_eq_true] at htenant hkey
        have hrefused := createJob_raised hchecked htenant hkey hran
        cases hrefused with
        | text missing | conflict missing =>
          exact hnot ⟨htenant, hkey, fun hinserts => absurd hinserts missing⟩
        | taken => exact not_answered (.inr rfl) hanswered
  · intro htaken
    rw [postSubmission]
    cases hran : createJob (sub.newJob tenantId) uuid now s with
    | ok job s' => exact .inl ⟨job, rfl⟩
    | error e s' =>
      have hrefused := createJob_raised hchecked htaken.tenant_named htaken.key_named hran
      refine .inr (hrefused.answered ?_)
      rintro rfl
      cases hrefused with
      | taken inserts row found =>
        rw [htaken.id_new inserts] at found
        cases found

end Submitted

/-- A request body under this idempotency key. -/
def sampleBody (idempotencyKey : PyStr) : PyVal NonFinite :=
  .dict [(.str (py "idempotency_key"), .str idempotencyKey), (.str (py "task"), .str (py "survey")),
    (.str (py "max_calls"), .int 5), (.str (py "max_tokens"), .int 1000),
    (.str (py "max_cost_microunits"), .int 0)]

def sampleSubmission (idempotencyKey : PyStr) : Submission :=
  ⟨idempotencyKey, py "survey", 5, 1000, 0⟩

theorem submission_answered_iff_named :
    Answered (postSubmission (sampleSubmission (py "run-1")) (py "acme") (py "job") 0
      (Store.empty : Store ℕ)).1 ↔
        Taken (Store.empty : Store ℕ) (sampleSubmission (py "run-1")) (py "acme") (py "job") :=
  submission_answered_iff (sampleBody (py "run-1")) _ (by decide) _ _ _ _

/-- A key of one blank is accepted by the API, and what the store raises leaves the handler. -/
theorem blank_key_escapes : ∃ (value : PyVal NonFinite) (sub : Submission),
    validateSubmission value = .ok sub ∧
      ¬Answered (postSubmission sub (py "acme") (py "job") 0 (Store.empty : Store ℕ)).1 := by
  refine ⟨sampleBody (py " "), sampleSubmission (py " "), by decide, ?_⟩
  have hescapes : (postSubmission (sampleSubmission (py " ")) (py "acme") (py "job") 0
      (Store.empty : Store ℕ)).1 = .error .fieldsRequired := rfl
  rw [hescapes]
  exact not_answered (e := .fieldsRequired) (.inl rfl)

end ControlPlane
