import VeriMat.PyDict
import VeriMat.Transaction

/-! # The circuit breaker

`evaluation/circuit_breaker.py` over the two circuit tables of one database. Each method is one
transaction; `before_call` commits before it refuses a caller, so that an expired probe is on
record although its caller was turned away. Times are any linear order with a subtraction,
which may round. -/
namespace CircuitBreaker

open PyText PyDict Transaction

inductive CircuitState where
  | closed
  | open
  | halfOpen
  deriving DecidableEq, Repr

/-- A row of `circuit_breakers`, without its key. -/
structure CircuitRow (T : Type) where
  state : CircuitState
  consecutiveFailures : ℕ
  openedAt : Option T
  probeOperationId : Option PyStr
  probeStartedAt : Option T
  updatedAt : T
  deriving DecidableEq

inductive CircuitEventType where
  | probeExpired
  | probeAdmitted
  | callSucceeded
  | callFailed
  deriving DecidableEq, Repr

/-- A row of `circuit_events`, without its number. -/
structure CircuitEvent (T : Type) where
  circuitId : PyStr
  operationId : PyStr
  eventType : CircuitEventType
  priorState : CircuitState
  nextState : CircuitState
  reasonCode : PyStr
  occurredAt : T
  deriving DecidableEq

/-- The circuit tables of a database. -/
structure Circuits (T : Type) where
  rows : Dict PyStr (CircuitRow T)
  events : List (CircuitEvent T)

/-- The exceptions of this module, by their texts. -/
inductive CircuitError where
  | operationIdInvalid
  | reasonCodeInvalid
  | stateDisappeared
  | probeLeaseExpired
  | anotherProbe
  | cooldown
  | probeAcquired
  | successNotOfProbe
  | successWhileOpen
  | failureNotOfProbe
  | unicodeEncodeError
  deriving DecidableEq, Repr

/-- `CircuitOpenError`; the others are `BaselineContractError`s, or escape from sqlite3. -/
def CircuitError.isOpenError : CircuitError → Bool
  | .probeLeaseExpired | .anotherProbe | .cooldown | .probeAcquired => true
  | _ => false

abbrev CircuitDb (T α : Type) := EStateM CircuitError (Circuits T) α

variable {T : Type}

/-- A `PersistentCircuitBreaker`: its constructor refuses other bounds. -/
structure Breaker (T : Type) [LT T] [Zero T] where
  circuitId : PyStr
  failureThreshold : ℕ
  recoveryTimeoutSeconds : T
  probeTimeoutSeconds : T
  threshold_pos : 1 ≤ failureThreshold
  recovery_pos : 0 < recoveryTimeoutSeconds
  probe_pos : 0 < probeTimeoutSeconds

/-- The row the constructor inserts unless the circuit has one. -/
def closedRow (now : T) : CircuitRow T := ⟨.closed, 0, none, none, none, now⟩

/-- The statement of the constructor. -/
def Circuits.register (s : Circuits T) (circuitId : PyStr) (now : T) : Circuits T :=
  match s.rows.get circuitId with
  | some _ => s
  | none => { s with rows := s.rows.set circuitId (closedRow now) }

/-- sqlite3 refuses a text it cannot encode. -/
def bindText (s : PyStr) : CircuitDb T Unit := raiseIf ((encode s).isNone = true) .unicodeEncodeError

/-- `_row`. -/
def selectRow (circuitId : PyStr) : CircuitDb T (CircuitRow T) := do
  let s ← get
  orRaise (s.rows.get circuitId) .stateDisappeared

/-- `UPDATE circuit_breakers SET .. WHERE circuit_id=? AND ..`, and its row count. -/
def updateRow (circuitId : PyStr) (p : CircuitRow T → Bool) (f : CircuitRow T → CircuitRow T) :
    CircuitDb T ℕ := do
  let s ← get
  if (s.rows.get circuitId).any p then
    set { s with rows := s.rows.modify circuitId f }
    pure 1
  else pure 0

/-- `_event`. -/
def recordEvent (event : CircuitEvent T) : CircuitDb T Unit := do
  bindText event.operationId
  bindText event.reasonCode
  modify fun s => { s with events := s.events ++ [event] }

/-- `_operation`. -/
def checkOperation (operationId : PyStr) : CircuitDb T Unit :=
  raiseIf (isBlank operationId ∨ 500 < operationId.length) .operationIdInvalid

/-! ## The rows the methods write -/

def CircuitRow.expire (row : CircuitRow T) (now : T) : CircuitRow T :=
  { row with
    state := .open, openedAt := some now, probeOperationId := none, probeStartedAt := none
    updatedAt := now }

def CircuitRow.probe (row : CircuitRow T) (operationId : PyStr) (now : T) : CircuitRow T :=
  { row with
    state := .halfOpen, probeOperationId := some operationId, probeStartedAt := some now
    updatedAt := now }

def CircuitRow.close (row : CircuitRow T) (now : T) : CircuitRow T :=
  { row with
    state := .closed, consecutiveFailures := 0, openedAt := none, probeOperationId := none
    probeStartedAt := none, updatedAt := now }

def CircuitRow.fail (row : CircuitRow T) (nextState : CircuitState) (now : T) : CircuitRow T :=
  { row with
    state := nextState, consecutiveFailures := row.consecutiveFailures + 1
    openedAt := if nextState = .open then some now else none, probeOperationId := none
    probeStartedAt := none, updatedAt := now }

/-! ## Methods -/

section Methods
variable [LinearOrder T] [Zero T]

section BeforeCall
variable [Sub T]

/-- The transaction of `before_call`: what is raised once it has committed. -/
def beforeCallTransaction (b : Breaker T) (operationId : PyStr) (now : T) :
    CircuitDb T (Option CircuitError) :=
  immediate do
    let row ← selectRow b.circuitId
    match row.state with
    | .closed => pure none
    | .halfOpen =>
      if b.probeTimeoutSeconds ≤ now - row.probeStartedAt.getD 0 then
        let _ ← updateRow b.circuitId (·.state == .halfOpen) (·.expire now)
        recordEvent ⟨b.circuitId, operationId, .probeExpired, .halfOpen, .open,
          py "probe_lease_expired", now⟩
        pure (some .probeLeaseExpired)
      else pure (some .anotherProbe)
    | .open =>
      if now - row.openedAt.getD 0 < b.recoveryTimeoutSeconds then pure (some .cooldown)
      else
        bindText operationId
        let rowcount ← updateRow b.circuitId (·.state == .open) (·.probe operationId now)
        raiseIf (rowcount ≠ 1) .probeAcquired
        recordEvent ⟨b.circuitId, operationId, .probeAdmitted, .open, .halfOpen,
          py "recovery_timeout_elapsed", now⟩
        pure none

/-- `before_call`. -/
def beforeCall (b : Breaker T) (operationId : PyStr) (now : T) : CircuitDb T Unit := do
  checkOperation operationId
  let refused ← beforeCallTransaction b operationId now
  match refused with
  | none => pure ()
  | some error => throw error

end BeforeCall

/-- `record_success`. -/
def recordSuccess (b : Breaker T) (operationId : PyStr) (now : T) : CircuitDb T Unit := do
  checkOperation operationId
  immediate do
    let row ← selectRow b.circuitId
    raiseIf (row.state = .halfOpen ∧ row.probeOperationId ≠ some operationId) .successNotOfProbe
    raiseIf (row.state = .open) .successWhileOpen
    let _ ← updateRow b.circuitId (fun _ => true) (·.close now)
    if row.state ≠ .closed ∨ row.consecutiveFailures ≠ 0 then
      recordEvent ⟨b.circuitId, operationId, .callSucceeded, row.state, .closed,
        py "provider_success", now⟩

/-- The state a failure leads to. -/
def Breaker.nextState (b : Breaker T) (row : CircuitRow T) : CircuitState :=
  if row.state = .halfOpen ∨ b.failureThreshold ≤ row.consecutiveFailures + 1 then .open
  else .closed

/-- `record_failure`. -/
def recordFailure (b : Breaker T) (operationId reasonCode : PyStr) (now : T) :
    CircuitDb T Unit := do
  checkOperation operationId
  raiseIf (isBlank reasonCode ∨ 120 < reasonCode.length) .reasonCodeInvalid
  immediate do
    let row ← selectRow b.circuitId
    if row.state = .open then pure ()
    else
      raiseIf (row.state = .halfOpen ∧ row.probeOperationId ≠ some operationId) .failureNotOfProbe
      let _ ← updateRow b.circuitId (fun _ => true) (·.fail (b.nextState row) now)
      recordEvent ⟨b.circuitId, operationId, .callFailed, row.state, b.nextState row, reasonCode,
        now⟩

end Methods

end CircuitBreaker
