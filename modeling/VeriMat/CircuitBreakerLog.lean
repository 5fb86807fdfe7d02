import VeriMat.CircuitBreakerSafety

/-! # The event log of a circuit

A change of state is put on the log with the state it left and the state it led to, and a failure
that counts is put on it too. Replaying the events of a circuit therefore gives its row back, for
every order of calls on any circuits of the database, each under thresholds of its own. -/
namespace CircuitBreakerLog

open PyText PyDict Transaction CircuitBreaker CircuitBreakerSafety

variable {T : Type}

/-! ## Replaying a log -/

/-- Each event goes on from the state the one before it led to. -/
def Chained : CircuitState → List (CircuitEvent T) → CircuitState → Prop
  | start, [], last => start = last
  | start, event :: events, last =>
    event.priorState = start ∧ Chained event.nextState events last

/-- The `call_failed` events since the last `call_succeeded` event. -/
def failuresSince (events : List (CircuitEvent T)) : ℕ :=
  (events.reverse.takeWhile fun event => event.eventType != .callSucceeded).countP
    fun event => event.eventType == .callFailed

/-- The counter behind an event of this type. -/
def counted (failures : ℕ) : CircuitEventType → ℕ
  | .callFailed => failures + 1
  | .callSucceeded => 0
  | .probeExpired | .probeAdmitted => failures

theorem chained_append {start last : CircuitState} {events : List (CircuitEvent T)}
    {event : CircuitEvent T} (h : Chained start events last) (hprior : event.priorState = last) :
    Chained start (events ++ [event]) event.nextState := by
  induction events generalizing start with
  | nil => exact ⟨hprior.trans h.symm, rfl⟩
  | cons first events ih => exact ⟨h.1, ih h.2⟩

theorem failuresSince_append (events : List (CircuitEvent T)) (event : CircuitEvent T) :
    failuresSince (events ++ [event]) = counted (failuresSince events) event.eventType := by
  unfold failuresSince
  rw [List.reverse_append, List.reverse_singleton, List.singleton_append, List.takeWhile_cons]
  cases htype : event.eventType with
  | callSucceeded => rfl
  | callFailed | probeExpired | probeAdmitted => simp [counted, htype]

/-! ## What a call does to its circuit -/

/-- The events of a circuit, in the order of their numbers. -/
def eventsOf (s : Circuits T) (circuitId : PyStr) : List (CircuitEvent T) :=
  s.events.filter fun event => event.circuitId == circuitId

section Steps
variable [LinearOrder T] [Zero T]

/-- The effects of a call on the tables. -/
inductive Effect (b : Breaker T) (s : Circuits T) : Circuits T → Prop where
  | nothing : Effect b s s
  | registered (now : T) (missing : s.rows.get b.circuitId = none) :
      Effect b s { s with rows := s.rows.set b.circuitId (closedRow now) }
  /-- A success that changes neither the state nor the counter is not put on the log. -/
  | silent (f : CircuitRow T → CircuitRow T) (row : CircuitRow T)
      (found : s.rows.get b.circuitId = some row) (state : (f row).state = row.state)
      (failures : (f row).consecutiveFailures = row.consecutiveFailures) :
      Effect b s { s with rows := s.rows.modify b.circuitId f }
  | logged (f : CircuitRow T → CircuitRow T) (row : CircuitRow T) (event : CircuitEvent T)
      (found : s.rows.get b.circuitId = some row) (circuit : event.circuitId = b.circuitId)
      (prior : event.priorState = row.state) (next : event.nextState = (f row).state)
      (failures : (f row).consecutiveFailures = counted row.consecutiveFailures event.eventType) :
      Effect b s ⟨s.rows.modify b.circuitId f, s.events ++ [event]⟩

variable {b : Breaker T} {s s' : Circuits T} {row : CircuitRow T} {now : T}
  {operationId reasonCode circuitId : PyStr}

omit [LinearOrder T] [Zero T] in
theorem recordEvent_appends {event : CircuitEvent T} {u : Unit}
    (h : recordEvent event s = .ok u s') : s' = { s with events := s.events ++ [event] } := by
  simp only [recordEvent, bind_eq_ok, bindText, raiseIf_eq_ok, modify_eq_ok] at h
  obtain ⟨_, _, ⟨_, rfl⟩, _, _, ⟨_, rfl⟩, rfl⟩ := h
  rfl

/-- A row updated with an event on the log. -/
theorem effect_of_update {p : CircuitRow T → Bool} {f : CircuitRow T → CircuitRow T}
    {event : CircuitEvent T} {n : ℕ} {u : Unit} {s₁ : Circuits T}
    (found : s.rows.get b.circuitId = some row) (hp : p row = true)
    (hupdate : updateRow b.circuitId p f s = .ok n s₁) (hevent : recordEvent event s₁ = .ok u s')
    (circuit : event.circuitId = b.circuitId) (prior : event.priorState = row.state)
    (next : event.nextState = (f row).state)
    (failures : (f row).consecutiveFailures = counted row.consecutiveFailures event.eventType) :
    Effect b s s' := by
  obtain ⟨_, rfl⟩ := (updateRow_eq_ok found hp).mp hupdate
  rw [recordEvent_appends hevent]
  exact .logged f row event found circuit prior next failures

/-- What `before_call` commits, whether or not it then turns the caller away. -/
theorem effect_beforeCallTransaction [Sub T] {refused : Option CircuitError}
    (h : beforeCallTransaction b operationId now s = .ok refused s') : Effect b s s' := by
  simp only [beforeCallTransaction, immediate_eq_ok, bind_eq_ok, selectRow_eq_ok] at h
  obtain ⟨row, _, ⟨hrow, rfl⟩, hbody⟩ := h
  cases hstate : row.state with
  | closed =>
    simp only [hstate] at hbody
    rw [(pure_eq_ok.mp hbody).2]
    exact .nothing
  | halfOpen =>
    simp only [hstate] at hbody
    by_cases hlate : b.probeTimeoutSeconds ≤ now - row.probeStartedAt.getD 0
    · rw [if_pos hlate] at hbody
      obtain ⟨_, _, hupdate, hbody⟩ := bind_eq_ok.mp hbody
      obtain ⟨_, _, hevent, hpure⟩ := bind_eq_ok.mp hbody
      rw [(pure_eq_ok.mp hpure).2]
      exact effect_of_update hrow (by simp [hstate]) hupdate hevent rfl hstate.symm rfl rfl
    · rw [if_neg hlate] at hbody
      rw [(pure_eq_ok.mp hbody).2]
      exact .nothing
  | «open» =>
    simp only [hstate] at hbody
    by_cases hcooling : now - row.openedAt.getD 0 < b.recoveryTimeoutSeconds
    · rw [if_pos hcooling] at hbody
      rw [(pure_eq_ok.mp hbody).2]
      exact .nothing
    · rw [if_neg hcooling] at hbody
      simp only [bind_eq_ok, bindText, raiseIf_eq_ok] at hbody
      obtain ⟨_, _, ⟨_, rfl⟩, _, _, hupdate, _, _, ⟨_, rfl⟩, _, _, hevent, hpure⟩ := hbody
      rw [(pure_eq_ok.mp hpure).2]
      exact effect_of_update hrow (by simp [hstate]) hupdate hevent rfl hstate.symm rfl rfl

theorem effect_beforeCall [Sub T] {u : Unit} (h : beforeCall b operationId now s = .ok u s') :
    Effect b s s' := by
  simp only [beforeCall, checkOperation, bind_eq_ok, raiseIf_eq_ok] at h
  obtain ⟨_, _, ⟨_, rfl⟩, refused, _, htransaction, hlast⟩ := h
  cases refused with
  | none =>
    rw [(pure_eq_ok.mp hlast).2]
    exact effect_beforeCallTransaction htransaction
  | some error => cases hlast

theorem effect_beforeCall_error [Sub T] {e : CircuitError}
    (h : beforeCall b operationId now s = .error e s') : Effect b s s' := by
  rw [beforeCall, bind_eq_error] at h
  rcases h with hcheck | ⟨_, _, hcheck, h⟩
  · rw [raiseIf_error hcheck]
    exact .nothing
  · rw [checkOperation, raiseIf_eq_ok] at hcheck
    rw [hcheck.2] at h
    rcases bind_eq_error.mp h with hraised | ⟨refused, s₁, hok, hrefused⟩
    · rw [immediate_rollback hraised]
      exact .nothing
    · -- the transaction has committed
      have hs₁ : s' = s₁ := by
        cases refused with
        | none => cases hrefused
        | some error => exact (EStateM.Result.error.inj hrefused).2.symm
      rw [hs₁]
      exact effect_beforeCallTransaction hok

theorem effect_recordSuccess {u : Unit} (h : recordSuccess b operationId now s = .ok u s') :
    Effect b s s' := by
  simp only [recordSuccess, checkOperation, bind_eq_ok, raiseIf_eq_ok, immediate_eq_ok,
    selectRow_eq_ok] at h
  obtain ⟨_, _, ⟨_, rfl⟩, row, _, ⟨hrow, rfl⟩, _, _, ⟨_, rfl⟩, _, _, ⟨_, rfl⟩, _, s₁, hupdate,
    hevent⟩ := h
  by_cases hchanged : row.state ≠ .closed ∨ row.consecutiveFailures ≠ 0
  · rw [if_pos hchanged] at hevent
    exact effect_of_update hrow rfl hupdate hevent rfl rfl rfl rfl
  · rw [if_neg hchanged] at hevent
    obtain ⟨hclosed, hnone⟩ := not_or.mp hchanged
    obtain ⟨_, rfl⟩ := (updateRow_eq_ok hrow rfl).mp hupdate
    rw [(pure_eq_ok.mp hevent).2]
    exact .silent _ row hrow (not_not.mp hclosed).symm (not_not.mp hnone).symm

theorem effect_recordFailure {u : Unit}
    (h : recordFailure b operationId reasonCode now s = .ok u s') : Effect b s s' := by
  simp only [recordFailure, checkOperation, bind_eq_ok, raiseIf_eq_ok, immediate_eq_ok,
    selectRow_eq_ok] at h
  obtain ⟨_, _, ⟨_, rfl⟩, _, _, ⟨_, rfl⟩, row, _, ⟨hrow, rfl⟩, hbody⟩ := h
  by_cases hopen : row.state = .open
  · rw [if_pos hopen] at hbody
    rw [(pure_eq_ok.mp hbody).2]
    exact .nothing
  · rw [if_neg hopen] at hbody
    simp only [bind_eq_ok, raiseIf_eq_ok] at hbody
    obtain ⟨_, _, ⟨_, rfl⟩, _, _, hupdate, hevent⟩ := hbody
    exact effect_of_update hrow rfl hupdate hevent rfl rfl rfl rfl

/-- The effect of a call, returned or not. -/
theorem effect_of_outcome [Sub T] (b : Breaker T) (s : Circuits T) (c : CircuitCall T) :
    Effect b s (outcome b s c).2 := by
  unfold outcome
  cases c with
  | connect now =>
    change Effect b s (s.register b.circuitId now)
    rw [Circuits.register]
    cases hrow : s.rows.get b.circuitId with
    | none => exact .registered now hrow
    | some row => exact .nothing
  | beforeCall operationId now =>
    simp only [CircuitCall.run]
    cases h : beforeCall b operationId now s with
    | ok u s' => exact effect_beforeCall h
    | error e s' => exact effect_beforeCall_error h
  | recordSuccess operationId now =>
    simp only [CircuitCall.run]
    cases h : recordSuccess b operationId now s with
    | ok u s' => exact effect_recordSuccess h
    | error e s' =>
      rw [recordSuccess_error h]
      exact .nothing
  | recordFailure operationId reasonCode now =>
    simp only [CircuitCall.run]
    cases h : recordFailure b operationId reasonCode now s with
    | ok u s' => exact effect_recordFailure h
    | error e s' =>
      rw [recordFailure_error h]
      exact .nothing

/-! ## Every run of a database -/

/-- The log of a circuit gives its row back. -/
structure ReplaysTo (events : List (CircuitEvent T)) (row : CircuitRow T) : Prop where
  chained : Chained .closed events row.state
  failures : row.consecutiveFailures = failuresSince events

/-- A circuit without a row has no events either. -/
def LoggedAt (s : Circuits T) (circuitId : PyStr) : Prop :=
  match s.rows.get circuitId with
  | none => eventsOf s circuitId = []
  | some row => ReplaysTo (eventsOf s circuitId) row

omit [LinearOrder T] [Zero T] in
theorem eventsOf_append (s : Circuits T) (rows : Dict PyStr (CircuitRow T)) (circuitId : PyStr)
    (event : CircuitEvent T) : eventsOf ⟨rows, s.events ++ [event]⟩ circuitId =
      if event.circuitId = circuitId then eventsOf s circuitId ++ [event]
      else eventsOf s circuitId := by
  simp only [eventsOf, List.filter_append, List.filter_cons, List.filter_nil, beq_iff_eq]
  by_cases hid : event.circuitId = circuitId
  · rw [if_pos hid, if_pos hid]
  · rw [if_neg hid, if_neg hid, List.append_nil]

omit [LinearOrder T] [Zero T] in
theorem loggedAt_some (h : s.rows.get circuitId = some row) :
    LoggedAt s circuitId ↔ ReplaysTo (eventsOf s circuitId) row := by
  rw [LoggedAt, h]

omit [LinearOrder T] [Zero T] in
/-- What another circuit's row and events say does not matter. -/
theorem LoggedAt.of_same (h : LoggedAt s circuitId)
    (hrow : s'.rows.get circuitId = s.rows.get circuitId)
    (hevents : eventsOf s' circuitId = eventsOf s circuitId) : LoggedAt s' circuitId := by
  rw [LoggedAt, hrow, hevents]
  exact h

/-- One call on a circuit keeps the log of every circuit. -/
theorem loggedAt_effect (h : LoggedAt s circuitId) (heffect : Effect b s s') :
    LoggedAt s' circuitId := by
  cases heffect with
  | nothing => exact h
  | registered now missing =>
    by_cases hid : circuitId = b.circuitId
    · subst hid
      rw [loggedAt_some (Dict.get_set_self _ _ _)]
      rw [LoggedAt, missing] at h
      have hevents : eventsOf { s with rows := s.rows.set b.circuitId (closedRow now) }
          b.circuitId = [] := h
      rw [hevents]
      exact ⟨rfl, rfl⟩
    · refine h.of_same ?_ rfl
      exact (Dict.get_set _ _ _ _).trans (if_neg hid)
  | silent f row found state failures =>
    by_cases hid : circuitId = b.circuitId
    · subst hid
      rw [loggedAt_some (get_updated f found)]
      obtain ⟨hchained, hfailures⟩ := (loggedAt_some found).mp h
      exact ⟨state ▸ hchained, failures.trans hfailures⟩
    · refine h.of_same ?_ rfl
      exact (Dict.get_modify _ _ _ _).trans (if_neg hid)
  | logged f row event found circuit prior next failures =>
    by_cases hid : circuitId = b.circuitId
    · subst hid
      rw [loggedAt_some (get_updated f found), eventsOf_append, if_pos circuit]
      obtain ⟨hchained, hfailures⟩ := (loggedAt_some found).mp h
      constructor
      · rw [← next]
        exact chained_append hchained prior
      · rw [failures, hfailures, failuresSince_append]
    · apply h.of_same
      · rw [Dict.get_modify, if_neg hid]
      · rw [eventsOf_append, if_neg]
        rw [circuit]
        exact Ne.symm hid

variable [Sub T]

/-- The tables that calls leave, each made through the breaker of its caller. -/
def databaseRuns (s : Circuits T) (calls : List (Breaker T × CircuitCall T)) : Circuits T :=
  calls.foldl (fun s c => (outcome c.1 s c.2).2) s

theorem loggedAt_runs (h : LoggedAt s circuitId)
    (calls : List (Breaker T × CircuitCall T)) : LoggedAt (databaseRuns s calls) circuitId := by
  induction calls generalizing s with
  | nil => exact h
  | cons c calls ih => exact ih (loggedAt_effect h (effect_of_outcome c.1 s c.2))

/-- In every database that calls on any circuits have filled, the events of a circuit lead from
CLOSED to the state of its row, and its counter is the number of failures since a success. -/
theorem log_replays (calls : List (Breaker T × CircuitCall T)) (circuitId : PyStr)
    (row : CircuitRow T) (h : (databaseRuns ⟨empty, []⟩ calls).rows.get circuitId = some row) :
    ReplaysTo (eventsOf (databaseRuns ⟨empty, []⟩ calls) circuitId) row := by
  have hempty : LoggedAt (⟨empty, []⟩ : Circuits T) circuitId := rfl
  exact (loggedAt_some h).mp (loggedAt_runs hempty calls)

/-- Two failures open the circuit, a probe fails, and another one succeeds. -/
theorem log_replays_probes : ∃ row, ReplaysTo (eventsOf (databaseRuns (⟨empty, []⟩ : Circuits ℤ)
    ((sampleBreaker, .connect 0) :: [.recordFailure (py "op-1") (py "timeout") 1,
      .recordFailure (py "op-2") (py "timeout") 2, .beforeCall (py "op-3") 12,
      .recordFailure (py "op-3") (py "timeout") 13, .beforeCall (py "op-4") 23,
      .recordSuccess (py "op-4") 24].map (sampleBreaker, ·))) (py "sciverse")) row :=
  ⟨closedRow 24, log_replays _ _ _ (by decide +kernel)⟩

end Steps
end CircuitBreakerLog
