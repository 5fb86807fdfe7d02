import VeriMat.CircuitBreaker

/-! # Safety of the circuit breaker

What one call does to the row of its circuit (`RowStep`), and from it what holds over every
order of calls by any number of processes, however late a straggler reports. No monotonicity of
the clock is needed. -/
namespace CircuitBreakerSafety

open PyText PyDict Transaction CircuitBreaker

variable {T : Type} [LinearOrder T] [Zero T] [Sub T] {b : Breaker T}

/-! ## Calls -/

/-- A call on one circuit, with its clock reading; `connect` is the constructor. -/
inductive CircuitCall (T : Type) where
  | connect (now : T)
  | beforeCall (operationId : PyStr) (now : T)
  | recordSuccess (operationId : PyStr) (now : T)
  | recordFailure (operationId reasonCode : PyStr) (now : T)

def CircuitCall.run (b : Breaker T) : CircuitCall T → CircuitDb T Unit
  | .connect now => modify fun s => s.register b.circuitId now
  | .beforeCall operationId now => CircuitBreaker.beforeCall b operationId now
  | .recordSuccess operationId now => CircuitBreaker.recordSuccess b operationId now
  | .recordFailure operationId reasonCode now =>
    CircuitBreaker.recordFailure b operationId reasonCode now

/-- Whether the call returned, and the tables it leaves. -/
def outcome (b : Breaker T) (s : Circuits T) (c : CircuitCall T) : Bool × Circuits T :=
  match c.run b s with
  | .ok _ s' => (true, s')
  | .error _ s' => (false, s')

/-- The tables a run of calls leaves. -/
def runs (b : Breaker T) (s : Circuits T) (calls : List (CircuitCall T)) : Circuits T :=
  calls.foldl (fun s c => (outcome b s c).2) s

/-- The effects of a call on the row of its circuit. -/
inductive RowStep (b : Breaker T) (r : CircuitRow T) :
    CircuitCall T → Bool → CircuitRow T → Prop where
  | connected (now) : RowStep b r (.connect now) true r
  | passed (operationId now) (h : r.state = .closed) :
      RowStep b r (.beforeCall operationId now) true r
  | probed (operationId now) (h : r.state = .open)
      (hcooled : ¬now - r.openedAt.getD 0 < b.recoveryTimeoutSeconds) :
      RowStep b r (.beforeCall operationId now) true (r.probe operationId now)
  | expired (operationId now) (h : r.state = .halfOpen)
      (hlate : b.probeTimeoutSeconds ≤ now - r.probeStartedAt.getD 0) :
      RowStep b r (.beforeCall operationId now) false (r.expire now)
  | succeeded (operationId now) (hopen : r.state ≠ .open)
      (hprobe : r.state = .halfOpen → r.probeOperationId = some operationId) :
      RowStep b r (.recordSuccess operationId now) true (r.close now)
  | failed (operationId reasonCode now) (hopen : r.state ≠ .open)
      (hprobe : r.state = .halfOpen → r.probeOperationId = some operationId) :
      RowStep b r (.recordFailure operationId reasonCode now) true (r.fail (b.nextState r) now)
  | ignored (operationId reasonCode now) (h : r.state = .open) :
      RowStep b r (.recordFailure operationId reasonCode now) true r
  | raised (c) : RowStep b r c false r

/-! ## One call -/

section OneCall
variable {s s' : Circuits T} {r : CircuitRow T} {operationId reasonCode circuitId : PyStr}
  {now : T} {e : CircuitError}

omit [LinearOrder T] [Zero T] [Sub T] in
theorem selectRow_eq_ok {row : CircuitRow T} :
    selectRow circuitId s = .ok row s' ↔ s.rows.get circuitId = some row ∧ s' = s := by
  simp only [selectRow, bind_eq_ok, get_apply, EStateM.Result.ok.injEq, orRaise_eq_ok]
  constructor
  · rintro ⟨_, _, ⟨rfl, rfl⟩, h⟩
    exact h
  · exact fun h => ⟨s, s, ⟨rfl, rfl⟩, h⟩

omit [LinearOrder T] [Zero T] [Sub T] in
/-- A row the condition holds of is updated. -/
theorem updateRow_eq_ok {p : CircuitRow T → Bool} {f : CircuitRow T → CircuitRow T} {n : ℕ}
    (hr : s.rows.get circuitId = some r) (hp : p r = true) :
    updateRow circuitId p f s = .ok n s' ↔
      n = 1 ∧ s' = { s with rows := s.rows.modify circuitId f } := by
  simp only [updateRow, bind_eq_ok, get_apply, EStateM.Result.ok.injEq]
  constructor
  · rintro ⟨_, _, ⟨rfl, rfl⟩, h⟩
    rw [if_pos (by simp [hr, hp])] at h
    obtain ⟨_, _, hset, hpure⟩ := bind_eq_ok.mp h
    obtain ⟨rfl, rfl⟩ := pure_eq_ok.mp hpure
    exact ⟨rfl, set_eq_ok.mp hset⟩
  · rintro ⟨rfl, rfl⟩
    refine ⟨_, _, ⟨rfl, rfl⟩, ?_⟩
    rw [if_pos (by simp [hr, hp])]
    rfl

omit [LinearOrder T] [Zero T] [Sub T] in
theorem recordEvent_eq_ok {event : CircuitEvent T} {u : Unit} (h : recordEvent event s = .ok u s') :
    s'.rows = s.rows := by
  simp only [recordEvent, bind_eq_ok, bindText, raiseIf_eq_ok, modify_eq_ok] at h
  obtain ⟨_, _, ⟨_, rfl⟩, _, _, ⟨_, rfl⟩, rfl⟩ := h
  rfl

omit [LinearOrder T] [Zero T] [Sub T] in
theorem get_updated (f : CircuitRow T → CircuitRow T) (hr : s.rows.get circuitId = some r) :
    (s.rows.modify circuitId f).get circuitId = some (f r) := by
  rw [Dict.get_modify, if_pos rfl, hr]
  rfl

theorem beforeCall_eq_ok (hr : s.rows.get b.circuitId = some r) {u : Unit}
    (h : beforeCall b operationId now s = .ok u s') :
    ∃ r', s'.rows.get b.circuitId = some r' ∧
      RowStep b r (.beforeCall operationId now) true r' := by
  simp only [beforeCall, beforeCallTransaction, checkOperation, bind_eq_ok, raiseIf_eq_ok,
    immediate_eq_ok, selectRow_eq_ok] at h
  obtain ⟨_, _, ⟨_, rfl⟩, refused, s₁, ⟨row, _, ⟨hrow, rfl⟩, hbody⟩, hlast⟩ := h
  rw [hr, Option.some.injEq] at hrow
  subst hrow
  cases refused with
  | some error => cases hlast
  | none =>
    obtain ⟨_, rfl⟩ := pure_eq_ok.mp hlast
    cases hstate : r.state with
    | closed =>
      simp only [hstate] at hbody
      obtain ⟨_, rfl⟩ := pure_eq_ok.mp hbody
      exact ⟨r, hr, .passed operationId now hstate⟩
    | halfOpen =>
      simp only [hstate] at hbody
      split_ifs at hbody with hlate
      · obtain ⟨_, _, _, hbody⟩ := bind_eq_ok.mp hbody
        obtain ⟨_, _, _, hpure⟩ := bind_eq_ok.mp hbody
        cases (pure_eq_ok.mp hpure).1
      · cases (pure_eq_ok.mp hbody).1
    | «open» =>
      simp only [hstate] at hbody
      split_ifs at hbody with hcooling
      · cases (pure_eq_ok.mp hbody).1
      · simp only [bind_eq_ok, bindText, raiseIf_eq_ok, pure_eq_ok] at hbody
        obtain ⟨_, _, ⟨_, rfl⟩, _, _, hupdate, _, _, ⟨_, rfl⟩, _, _, hevent, _, rfl⟩ := hbody
        obtain ⟨_, rfl⟩ := (updateRow_eq_ok hr (by simp [hstate])).mp hupdate
        refine ⟨r.probe operationId now, ?_, .probed operationId now hstate hcooling⟩
        rw [recordEvent_eq_ok hevent]
        exact get_updated _ hr

/-- A caller is turned away with the row as it was, or after an expired probe was put on record. -/
theorem beforeCall_error (hr : s.rows.get b.circuitId = some r)
    (h : beforeCall b operationId now s = .error e s') :
    ∃ r', s'.rows.get b.circuitId = some r' ∧
      RowStep b r (.beforeCall operationId now) false r' := by
  have hkept : ∃ r', s.rows.get b.circuitId = some r' ∧
      RowStep b r (.beforeCall operationId now) false r' := ⟨r, hr, .raised _⟩
  rw [beforeCall, bind_eq_error] at h
  rcases h with hcheck | ⟨_, _, hcheck, h⟩
  · rw [checkOperation] at hcheck
    rw [raiseIf_error hcheck]
    exact hkept
  · rw [checkOperation, raiseIf_eq_ok] at hcheck
    rw [hcheck.2] at h
    rcases bind_eq_error.mp h with hraised | ⟨refused, s₁, hok, hrefused⟩
    · rw [immediate_rollback hraised]
      exact hkept
    · -- The transaction has committed.
      have hs₁ : s' = s₁ := by
        cases refused with
        | none => cases hrefused
        | some error => exact (EStateM.Result.error.inj hrefused).2.symm
      rw [hs₁]
      simp only [beforeCallTransaction, immediate_eq_ok, bind_eq_ok, selectRow_eq_ok] at hok
      obtain ⟨row, _, ⟨hrow, rfl⟩, hbody⟩ := hok
      rw [hr, Option.some.injEq] at hrow
      subst hrow
      cases hstate : r.state with
      | closed =>
        simp only [hstate] at hbody
        rw [(pure_eq_ok.mp hbody).2]
        exact hkept
      | halfOpen =>
        simp only [hstate] at hbody
        by_cases hlate : b.probeTimeoutSeconds ≤ now - r.probeStartedAt.getD 0
        · rw [if_pos hlate] at hbody
          obtain ⟨_, _, hupdate, hbody⟩ := bind_eq_ok.mp hbody
          obtain ⟨_, _, hevent, hpure⟩ := bind_eq_ok.mp hbody
          obtain ⟨_, rfl⟩ := (updateRow_eq_ok hr (by simp [hstate])).mp hupdate
          refine ⟨r.expire now, ?_, .expired operationId now hstate hlate⟩
          rw [(pure_eq_ok.mp hpure).2, recordEvent_eq_ok hevent]
          exact get_updated _ hr
        · rw [if_neg hlate] at hbody
          rw [(pure_eq_ok.mp hbody).2]
          exact hkept
      | «open» =>
        simp only [hstate] at hbody
        by_cases hcooling : now - r.openedAt.getD 0 < b.recoveryTimeoutSeconds
        · rw [if_pos hcooling] at hbody
          rw [(pure_eq_ok.mp hbody).2]
          exact hkept
        · -- Past the cooldown the transaction ends in an admission.
          rw [if_neg hcooling] at hbody
          simp only [bind_eq_ok, pure_eq_ok] at hbody
          obtain ⟨_, _, _, _, _, _, _, _, _, _, _, _, rfl, _⟩ := hbody
          cases hrefused

omit [Sub T] in
theorem recordSuccess_eq_ok (hr : s.rows.get b.circuitId = some r) {u : Unit}
    (h : recordSuccess b operationId now s = .ok u s') :
    r.state ≠ .open ∧ (r.state = .halfOpen → r.probeOperationId = some operationId) ∧
      s'.rows.get b.circuitId = some (r.close now) := by
  simp only [recordSuccess, checkOperation, bind_eq_ok, raiseIf_eq_ok, immediate_eq_ok,
    selectRow_eq_ok] at h
  obtain ⟨_, _, ⟨_, rfl⟩, row, _, ⟨hrow, rfl⟩, _, _, ⟨hprobe, rfl⟩, _, _, ⟨hopen, rfl⟩, _, s₁,
    hupdate, hevent⟩ := h
  rw [hr, Option.some.injEq] at hrow
  subst hrow
  obtain ⟨_, rfl⟩ := (updateRow_eq_ok hr rfl).mp hupdate
  refine ⟨hopen, ?_, ?_⟩
  · intro hhalf
    by_contra hother
    exact hprobe ⟨hhalf, hother⟩
  · split_ifs at hevent
    · rw [recordEvent_eq_ok hevent]
      exact get_updated _ hr
    · rw [(pure_eq_ok.mp hevent).2]
      exact get_updated _ hr

omit [Sub T] in
/-- The success of a valid operation is recorded, unless the circuit is open or half open for
another. -/
theorem recordSuccess_accepted (hr : s.rows.get b.circuitId = some r)
    (hvalid : ¬ (isBlank operationId ∨ 500 < operationId.length))
    (hencodes : (encode operationId).isSome = true) (hopen : r.state ≠ .open)
    (hprobe : r.state = .halfOpen → r.probeOperationId = some operationId) (now : T) :
    ∃ s', recordSuccess b operationId now s = .ok () s' := by
  have hother : ¬ (r.state = .halfOpen ∧ r.probeOperationId ≠ some operationId) := by
    rintro ⟨hhalf, hne⟩
    exact hne (hprobe hhalf)
  have hfine : ¬ (encode operationId).isNone = true := by
    rw [← Option.not_isSome, hencodes]
    exact Bool.false_ne_true
  have hupdate : updateRow b.circuitId (fun _ => true) (·.close now) s =
      .ok 1 { s with rows := s.rows.modify b.circuitId (·.close now) } :=
    (updateRow_eq_ok hr rfl).mpr ⟨rfl, rfl⟩
  have hevent : ∀ (event : CircuitEvent T) s₁, event.operationId = operationId →
      event.reasonCode = py "provider_success" →
      recordEvent event s₁ = .ok () { s₁ with events := s₁.events ++ [event] } := by
    intro event s₁ hid hreason
    simp only [recordEvent, bind_eq_ok, bindText, raiseIf_eq_ok, modify_eq_ok]
    exact ⟨(), s₁, ⟨by rw [hid]; exact hfine, rfl⟩, (), s₁, ⟨by rw [hreason]; decide, rfl⟩, rfl⟩
  have hlast : ∀ (event : CircuitEvent T) s₁, event.operationId = operationId →
      event.reasonCode = py "provider_success" → ∃ s',
      (if r.state ≠ .closed ∨ r.consecutiveFailures ≠ 0 then recordEvent event else pure ()) s₁ =
        .ok () s' := by
    intro event s₁ hid hreason
    by_cases hchanged : r.state ≠ .closed ∨ r.consecutiveFailures ≠ 0
    · rw [if_pos hchanged]
      exact ⟨_, hevent event s₁ hid hreason⟩
    · rw [if_neg hchanged]
      exact ⟨s₁, rfl⟩
  simp only [recordSuccess, checkOperation, bind_eq_ok, raiseIf_eq_ok, immediate_eq_ok,
    selectRow_eq_ok]
  obtain ⟨s', hs'⟩ := hlast ⟨b.circuitId, operationId, .callSucceeded, r.state, .closed,
    py "provider_success", now⟩ { s with rows := s.rows.modify b.circuitId (·.close now) } rfl rfl
  exact ⟨s', (), s, ⟨hvalid, rfl⟩, r, s, ⟨hr, rfl⟩, (), s, ⟨hother, rfl⟩, (), s, ⟨hopen, rfl⟩,
    1, _, hupdate, hs'⟩

omit [Sub T] in
theorem recordSuccess_error (h : recordSuccess b operationId now s = .error e s') : s' = s := by
  refine bind_rollback (fun _ _ hcheck => raiseIf_error hcheck) ?_ h
  intro _ s₁ hcheck _ s₂ hraised
  rw [immediate_rollback hraised, (raiseIf_eq_ok.mp hcheck).2]

omit [Sub T] in
theorem recordFailure_eq_ok (hr : s.rows.get b.circuitId = some r) {u : Unit}
    (h : recordFailure b operationId reasonCode now s = .ok u s') :
    (r.state = .open ∧ s' = s) ∨
      r.state ≠ .open ∧ (r.state = .halfOpen → r.probeOperationId = some operationId) ∧
        s'.rows.get b.circuitId = some (r.fail (b.nextState r) now) := by
  simp only [recordFailure, checkOperation, bind_eq_ok, raiseIf_eq_ok, immediate_eq_ok,
    selectRow_eq_ok] at h
  obtain ⟨_, _, ⟨_, rfl⟩, _, _, ⟨_, rfl⟩, row, _, ⟨hrow, rfl⟩, hbody⟩ := h
  rw [hr, Option.some.injEq] at hrow
  subst hrow
  by_cases hopen : r.state = .open
  · rw [if_pos hopen] at hbody
    exact .inl ⟨hopen, (pure_eq_ok.mp hbody).2⟩
  · rw [if_neg hopen] at hbody
    simp only [bind_eq_ok, raiseIf_eq_ok] at hbody
    obtain ⟨_, _, ⟨hprobe, rfl⟩, _, s₁, hupdate, hevent⟩ := hbody
    obtain ⟨_, rfl⟩ := (updateRow_eq_ok hr rfl).mp hupdate
    refine .inr ⟨hopen, ?_, ?_⟩
    · intro hhalf
      by_contra hother
      exact hprobe ⟨hhalf, hother⟩
    · rw [recordEvent_eq_ok hevent]
      exact get_updated _ hr

omit [Sub T] in
theorem recordFailure_error (h : recordFailure b operationId reasonCode now s = .error e s') :
    s' = s := by
  refine bind_rollback (fun _ _ hcheck => raiseIf_error hcheck) ?_ h
  intro _ s₁ hcheck _ s₂ hraised
  obtain ⟨_, rfl⟩ := raiseIf_eq_ok.mp hcheck
  refine bind_rollback (fun _ _ hcode => raiseIf_error hcode) ?_ hraised
  intro _ s₃ hcode _ s₄ hlast
  obtain ⟨_, rfl⟩ := raiseIf_eq_ok.mp hcode
  exact immediate_rollback hlast

end OneCall

/-- Every call takes one of the steps on the row of its circuit. -/
theorem rowStep_of_outcome {s : Circuits T} {r : CircuitRow T}
    (hr : s.rows.get b.circuitId = some r) (c : CircuitCall T) :
    ∃ r', (outcome b s c).2.rows.get b.circuitId = some r' ∧
      RowStep b r c (outcome b s c).1 r' := by
  unfold outcome
  cases c with
  | connect now =>
    refine ⟨r, ?_, .connected now⟩
    change (s.register b.circuitId now).rows.get b.circuitId = some r
    rw [Circuits.register, hr]
    exact hr
  | beforeCall operationId now =>
    simp only [CircuitCall.run]
    cases h : beforeCall b operationId now s with
    | ok u s' => exact beforeCall_eq_ok hr h
    | error e s' => exact beforeCall_error hr h
  | recordSuccess operationId now =>
    simp only [CircuitCall.run]
    cases h : recordSuccess b operationId now s with
    | ok u s' =>
      obtain ⟨hopen, hprobe, hget⟩ := recordSuccess_eq_ok hr h
      exact ⟨_, hget, .succeeded operationId now hopen hprobe⟩
    | error e s' =>
      rw [recordSuccess_error h]
      exact ⟨r, hr, .raised _⟩
  | recordFailure operationId reasonCode now =>
    simp only [CircuitCall.run]
    cases h : recordFailure b operationId reasonCode now s with
    | ok u s' =>
      rcases recordFailure_eq_ok hr h with ⟨hopen, rfl⟩ | ⟨hopen, hprobe, hget⟩
      · exact ⟨r, hr, .ignored operationId reasonCode now hopen⟩
      · exact ⟨_, hget, .failed operationId reasonCode now hopen hprobe⟩
    | error e s' =>
      rw [recordFailure_error h]
      exact ⟨r, hr, .raised _⟩

/-! ## Rows -/

/-- What holds of every row a run reaches. -/
structure RowSound (b : Breaker T) (r : CircuitRow T) : Prop where
  probe : r.probeOperationId.isSome = true ↔ r.state = .halfOpen
  probeStart : r.probeStartedAt.isSome = true ↔ r.state = .halfOpen
  opened : r.openedAt = none ↔ r.state = .closed
  failures : r.state = .closed → r.consecutiveFailures < b.failureThreshold

omit [Sub T] in
theorem closedRow_sound (now : T) : RowSound b (closedRow now) := by
  constructor
  · simp [closedRow]
  · simp [closedRow]
  · simp [closedRow]
  · intro _
    exact b.threshold_pos

omit [Sub T] in
theorem close_sound (r : CircuitRow T) (now : T) : RowSound b (r.close now) := by
  constructor
  · simp [CircuitRow.close]
  · simp [CircuitRow.close]
  · simp [CircuitRow.close]
  · intro _
    exact b.threshold_pos

omit [Sub T] in
/-- A failure leaves the circuit closed only below the threshold. -/
theorem fail_sound (r : CircuitRow T) (now : T) : RowSound b (r.fail (b.nextState r) now) := by
  have hnext : b.nextState r = .open ∨
      b.nextState r = .closed ∧ r.consecutiveFailures + 1 < b.failureThreshold := by
    unfold Breaker.nextState
    by_cases h : r.state = .halfOpen ∨ b.failureThreshold ≤ r.consecutiveFailures + 1
    · exact .inl (if_pos h)
    · rw [if_neg h]
      rw [not_or, not_le] at h
      exact .inr ⟨rfl, h.2⟩
  rcases hnext with hopen | ⟨hclosed, hbelow⟩
  · rw [hopen]
    constructor <;> simp [CircuitRow.fail]
  · rw [hclosed]
    constructor
    · simp [CircuitRow.fail]
    · simp [CircuitRow.fail]
    · simp [CircuitRow.fail]
    · intro _
      exact hbelow

theorem RowStep.sound {r r' : CircuitRow T} {c : CircuitCall T} {returned : Bool}
    (h : RowStep b r c returned r') (hr : RowSound b r) : RowSound b r' := by
  cases h with
  | connected now => exact hr
  | passed operationId now hclosed => exact hr
  | probed operationId now hopen hcooled =>
    constructor
    · simp [CircuitRow.probe]
    · simp [CircuitRow.probe]
    · simp [CircuitRow.probe, hr.opened, hopen]
    · simp [CircuitRow.probe]
  | expired operationId now hhalf hlate => constructor <;> simp [CircuitRow.expire]
  | succeeded operationId now hopen hprobe => exact close_sound r now
  | failed operationId reasonCode now hopen hprobe => exact fail_sound r now
  | ignored operationId reasonCode now hopen => exact hr
  | raised => exact hr

theorem runs_sound {s : Circuits T} {r : CircuitRow T} (hr : s.rows.get b.circuitId = some r)
    (hsound : RowSound b r) (calls : List (CircuitCall T)) :
    ∃ r', (runs b s calls).rows.get b.circuitId = some r' ∧ RowSound b r' := by
  induction calls generalizing s r with
  | nil => exact ⟨r, hr, hsound⟩
  | cons c calls ih =>
    obtain ⟨r₁, hget, hstep⟩ := rowStep_of_outcome hr c
    exact ih hget (hstep.sound hsound)

omit [Sub T] in
theorem get_register {s : Circuits T} (hnew : s.rows.get b.circuitId = none)
    (now : T) : (s.register b.circuitId now).rows.get b.circuitId = some (closedRow now) := by
  rw [Circuits.register, hnew]
  exact Dict.get_set_self _ _ _

/-! ## Admissions -/

/-- The state of the circuit. -/
def stateOf (b : Breaker T) (s : Circuits T) : Option CircuitState :=
  (s.rows.get b.circuitId).map (·.state)

def CircuitCall.isBeforeCall : CircuitCall T → Bool
  | .beforeCall _ _ => true
  | _ => false

/-- A call is admitted when its `before_call` returns. -/
def admitted (b : Breaker T) (s : Circuits T) (c : CircuitCall T) : Bool :=
  c.isBeforeCall && (outcome b s c).1

/-- The call begins a visit to HALF_OPEN. -/
def entersHalfOpen (b : Breaker T) (s : Circuits T) (c : CircuitCall T) : Bool :=
  stateOf b s != some .halfOpen && stateOf b (outcome b s c).2 == some .halfOpen

/-- How many calls of a run have a property where they are made. -/
def countCalls (b : Breaker T) (p : Circuits T → CircuitCall T → Bool) :
    Circuits T → List (CircuitCall T) → ℕ
  | _, [] => 0
  | s, c :: calls => (p s c).toNat + countCalls b p (outcome b s c).2 calls

/-- No call of the run finds the circuit closed. -/
def NotClosedDuring (b : Breaker T) : Circuits T → List (CircuitCall T) → Prop
  | _, [] => True
  | s, c :: calls =>
    stateOf b s ≠ some .closed ∧ NotClosedDuring b (outcome b s c).2 calls

theorem admitted_eq_entersHalfOpen {s : Circuits T} {r : CircuitRow T}
    (hr : s.rows.get b.circuitId = some r) (hclosed : r.state ≠ .closed) (c : CircuitCall T) :
    admitted b s c = entersHalfOpen b s c := by
  obtain ⟨r', hget, hstep⟩ := rowStep_of_outcome hr c
  simp only [admitted, entersHalfOpen, stateOf, hr, hget, Option.map_some]
  generalize (outcome b s c).1 = returned at hstep
  cases hstep with
  | connected now => simp [CircuitCall.isBeforeCall]
  | passed operationId now h => exact absurd h hclosed
  | probed operationId now h hcooled => simp [CircuitCall.isBeforeCall, CircuitRow.probe, h]
  | expired operationId now h hlate => simp [CircuitRow.expire]
  | succeeded operationId now hopen hprobe => simp [CircuitCall.isBeforeCall, CircuitRow.close]
  | failed operationId reasonCode now hopen hprobe =>
    have hnext : b.nextState r ≠ .halfOpen := by
      unfold Breaker.nextState
      split_ifs <;> simp
    simp [CircuitCall.isBeforeCall, CircuitRow.fail, hnext]
  | ignored operationId reasonCode now h => simp [CircuitCall.isBeforeCall]
  | raised => simp

/-- While the circuit is not closed the calls admitted are the ones that begin a visit. -/
theorem admissions_eq_visits {s : Circuits T} {r : CircuitRow T}
    (hr : s.rows.get b.circuitId = some r) (calls : List (CircuitCall T))
    (h : NotClosedDuring b s calls) :
    countCalls b (admitted b) s calls = countCalls b (entersHalfOpen b) s calls := by
  induction calls generalizing s r with
  | nil => rfl
  | cons c calls ih =>
    obtain ⟨hclosed, hrest⟩ := h
    obtain ⟨r', hget, _⟩ := rowStep_of_outcome hr c
    have hstate : r.state ≠ .closed := by
      intro heq
      apply hclosed
      rw [stateOf, hr, Option.map_some, heq]
    rw [countCalls, countCalls, admitted_eq_entersHalfOpen hr hstate c, ih hget hrest]

/-! ## Safety -/

/-- How HALF_OPEN is left: by the outcome of the probe's own operation, or by a caller that
finds the probe's lease expired and is turned away. -/
inductive LeavesHalfOpen (b : Breaker T) (r : CircuitRow T) :
    CircuitCall T → Bool → CircuitRow T → Prop where
  | probeSucceeded (operationId now r') (hprobe : r.probeOperationId = some operationId)
      (hstate : r'.state = .closed) : LeavesHalfOpen b r (.recordSuccess operationId now) true r'
  | probeFailed (operationId reasonCode now r') (hprobe : r.probeOperationId = some operationId)
      (hstate : r'.state = .open) (hopened : r'.openedAt = some now) :
      LeavesHalfOpen b r (.recordFailure operationId reasonCode now) true r'
  | probeExpired (operationId now started r') (hstarted : r.probeStartedAt = some started)
      (hlate : b.probeTimeoutSeconds ≤ now - started) (hstate : r'.state = .open)
      (hopened : r'.openedAt = some now) :
      LeavesHalfOpen b r (.beforeCall operationId now) false r'

theorem RowStep.leavesHalfOpen {r r' : CircuitRow T} {c : CircuitCall T} {returned : Bool}
    (h : RowStep b r c returned r') (hr : RowSound b r) (hhalf : r.state = .halfOpen)
    (hleft : r'.state ≠ .halfOpen) : LeavesHalfOpen b r c returned r' := by
  cases h with
  | connected now => exact absurd hhalf hleft
  | passed operationId now h => exact absurd hhalf hleft
  | probed operationId now h hcooled =>
    rw [hhalf] at h
    cases h
  | expired operationId now h hlate =>
    obtain ⟨started, hstarted⟩ := Option.isSome_iff_exists.mp (hr.probeStart.mpr hhalf)
    rw [hstarted] at hlate
    exact .probeExpired operationId now started _ hstarted hlate rfl rfl
  | succeeded operationId now hopen hprobe =>
    exact .probeSucceeded operationId now _ (hprobe hhalf) rfl
  | failed operationId reasonCode now hopen hprobe =>
    have hnext : b.nextState r = .open := if_pos (.inl hhalf)
    refine .probeFailed operationId reasonCode now _ (hprobe hhalf) hnext ?_
    simp [CircuitRow.fail, hnext]
  | ignored operationId reasonCode now h => exact absurd hhalf hleft
  | raised => exact absurd hhalf hleft

/-- No caller is admitted before the cooldown is over. -/
theorem RowStep.cooled {r r' : CircuitRow T} {operationId : PyStr} {now opened : T}
    (h : RowStep b r (.beforeCall operationId now) true r') (hopen : r.state = .open)
    (hopened : r.openedAt = some opened) : ¬now - opened < b.recoveryTimeoutSeconds := by
  cases h with
  | passed operationId now h =>
    rw [hopen] at h
    cases h
  | probed operationId now h hcooled =>
    rw [hopened] at hcooled
    exact hcooled

/-- The three promises of the breaker, at a state of its tables. -/
structure CircuitSafe (b : Breaker T) (s : Circuits T) (r : CircuitRow T) : Prop where
  row : s.rows.get b.circuitId = some r
  sound : RowSound b r
  onePerVisit : ∀ calls, NotClosedDuring b s calls →
    countCalls b (admitted b) s calls = countCalls b (entersHalfOpen b) s calls
  cooldown : ∀ operationId now opened, r.state = .open → r.openedAt = some opened →
    now - opened < b.recoveryTimeoutSeconds →
    admitted b s (.beforeCall operationId now) = false
  leaving : ∀ c r', (outcome b s c).2.rows.get b.circuitId = some r' →
    r.state = .halfOpen → r'.state ≠ .halfOpen → LeavesHalfOpen b r c (outcome b s c).1 r'

/-- Whatever calls any number of processes make in whatever order, and whenever stragglers
report, the circuit is safe. -/
theorem circuit_safe (b : Breaker T) (s : Circuits T) (hnew : s.rows.get b.circuitId = none)
    (now : T) (calls : List (CircuitCall T)) :
    ∃ r, CircuitSafe b (runs b (s.register b.circuitId now) calls) r := by
  obtain ⟨r, hr, hsound⟩ := runs_sound (get_register hnew now) (closedRow_sound now) calls
  refine ⟨r, hr, hsound, fun more => admissions_eq_visits hr more, ?_, ?_⟩
  · intro operationId now' opened hopen hopened hearly
    obtain ⟨r', _, hstep⟩ := rowStep_of_outcome hr (.beforeCall operationId now')
    rw [admitted, CircuitCall.isBeforeCall, Bool.true_and]
    by_contra hreturned
    rw [Bool.not_eq_false] at hreturned
    rw [hreturned] at hstep
    exact hstep.cooled hopen hopened hearly
  · intro c r' hget hhalf hleft
    obtain ⟨r₁, hget₁, hstep⟩ := rowStep_of_outcome hr c
    rw [hget₁, Option.some.injEq] at hget
    rw [← hget] at hleft ⊢
    exact hstep.leavesHalfOpen hsound hhalf hleft

/-- Two failures open the circuit, ten seconds close it to callers, a probe has five. -/
def sampleBreaker : Breaker ℤ where
  circuitId := py "sciverse"
  failureThreshold := 2
  recoveryTimeoutSeconds := 10
  probeTimeoutSeconds := 5
  threshold_pos := by decide
  recovery_pos := by decide
  probe_pos := by decide

/-- A probe that never reports is found expired, and its late report refused. -/
theorem circuit_safe_sample :
    ∃ r, CircuitSafe sampleBreaker (runs sampleBreaker
      ((⟨empty, []⟩ : Circuits ℤ).register sampleBreaker.circuitId 0)
      [.recordFailure (py "op-1") (py "timeout") 1, .recordFailure (py "op-2") (py "timeout") 2,
        .beforeCall (py "op-3") 12, .beforeCall (py "op-4") 17, .recordSuccess (py "op-3") 18]) r :=
  circuit_safe sampleBreaker ⟨empty, []⟩ rfl 0 _

end CircuitBreakerSafety
