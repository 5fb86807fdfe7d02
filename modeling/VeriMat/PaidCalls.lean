import VeriMat.OperationRuns

/-! # Paid calls at most once

However transport calls, operators and crashes interleave, an operation is transmitted at most
once more often than an operator authorised its retry. Reservations are counted against the row
of the operation, transmissions against the reservations of the process that makes them. -/
namespace PaidCalls

open PyText JsonText PyValue PyDict Transaction CircuitBreaker OperationStore AtomicProgram Transports
  OperationSystem OperationProtocol OperationRuns

variable {F T R A C : Type} [LinearOrder T] [Zero T]

/-! ## Counts -/

/-- A call that goes out to the provider. -/
def transmitsOf (X : PyStr) : Entry (Op F T R) Reply → ℕ
  | ⟨.transmit Y, _⟩ => if Y = X then 1 else 0
  | _ => 0

def isReserved : Except OperationError Bool → Bool
  | .ok reserved => reserved
  | .error _ => false

/-- A reservation that was committed for the process. -/
def reservesOf (X : PyStr) : Entry (Op F T R) Reply → ℕ
  | ⟨.reserve Y _, r⟩ => if Y = X ∧ isReserved r = true then 1 else 0
  | _ => 0

theorem isReserved_iff {r : Except OperationError Bool} : isReserved r = true ↔ r = .ok true := by
  cases r with
  | error e => simp [isReserved]
  | ok reserved => simp [isReserved]

theorem reservesOf_refused (X Y requestHash : PyStr) {r : Except OperationError Bool}
    (hr : r ≠ .ok true) :
    reservesOf X (⟨.reserve Y requestHash, r⟩ : Entry (Op F T R) Reply) = 0 := by
  apply if_neg
  intro h
  exact hr (isReserved_iff.mp h.2)

/-- Passive operations do not count. -/
theorem counts_passive (X : PyStr) {o : Op F T R} (ho : Op.passive o = true) (r : Reply o) :
    transmitsOf X (⟨o, r⟩ : Entry (Op F T R) Reply) = 0 ∧
      reservesOf X (⟨o, r⟩ : Entry (Op F T R) Reply) = 0 := by
  cases o <;> first | exact ⟨rfl, rfl⟩ | cases ho

/-- The external calls issued for an operation. -/
def transmissions (sys : System (OperationDb R T) C (Op F T R) Reply (Except OperationError A))
    (X : PyStr) : ℕ :=
  sys.total (transmitsOf X)

/-- The committed reconciliations that authorised a retry. -/
def authorizedRetries (db : OperationDb R T) (X : PyStr) : ℕ :=
  db.reconciliations.countP fun r => r.operationId == X && r.action == .authorizeRetry

/-! ## Reservations -/

/-- How many reservations the row of an operation admits. -/
def reservable (db : OperationDb R T) (X : PyStr) : ℕ :=
  match db.row X with
  | none => 1
  | some row => if row.status = .retryAuthorized then 1 else 0

section Steps
variable {table : ResponseTable F R A} {db db' : OperationDb R T}

omit [LinearOrder T] [Zero T] in
theorem reservable_of_row {X : PyStr} {row : OperationRow R T} (h : db.row X = some row) :
    reservable db X = if row.status = .retryAuthorized then 1 else 0 := by
  rw [reservable, h]

omit [LinearOrder T] [Zero T] in
/-- Updates keep the count where they neither take nor give a retry authorisation. -/
theorem reservable_modify (X : PyStr) {Y requestHash : PyStr} {status : OperationStatus}
    {row : OperationRow R T} (f : OperationRow R T → OperationRow R T)
    (hrow : db.row Y = some row) (hmatches : Matches row requestHash status) :
    reservable { db with operations := db.operations.modify Y f } X +
        (if Y = X ∧ status = .retryAuthorized then 1 else 0) =
      reservable db X + (if Y = X ∧ (f row).status = .retryAuthorized then 1 else 0) := by
  by_cases hX : X = Y
  · subst hX
    have hnew : ({ db with operations := db.operations.modify X f } : OperationDb R T).row X =
        some (f row) := by
      rw [row_modify, if_pos rfl, hrow]
      rfl
    rw [reservable_of_row hnew, reservable_of_row hrow, hmatches.2]
    simp only [true_and]
    omega
  · have hnew : ({ db with operations := db.operations.modify Y f } : OperationDb R T).row X =
        db.row X := by
      rw [row_modify, if_neg hX]
    have hY : ¬ Y = X := fun h => hX h.symm
    simp only [reservable, hnew, hY, false_and, if_false]

omit [LinearOrder T] [Zero T] in
/-- A reservation takes what the row admits. -/
theorem reserves_balance (X : PyStr) {Y requestHash : PyStr} {now : T}
    (h : Reserves db Y requestHash now db') :
    reservable db' X + (if Y = X then 1 else 0) = reservable db X ∧
      db'.reconciliations = db.reconciliations := by
  cases h with
  | inserted hnew =>
    refine ⟨?_, rfl⟩
    by_cases hX : X = Y
    · subst hX
      rw [reservable, row_set, if_pos rfl, reservable, hnew]
      simp
    · have hY : ¬ Y = X := fun h => hX h.symm
      rw [reservable, row_set, if_neg hX, if_neg hY, reservable]
      rfl
  | consumed row hrow hmatches =>
    refine ⟨?_, rfl⟩
    have h := reservable_modify X (·.reopen now) hrow hmatches
    simpa [OperationRow.reopen] using h

omit [LinearOrder T] [Zero T] in
theorem commits_balance (X : PyStr) {Y requestHash : PyStr} {response : R} {now : T}
    (h : Commits db Y requestHash response now db') :
    reservable db' X = reservable db X ∧
      db'.reconciliations = db.reconciliations := by
  obtain ⟨row, hrow, hmatches, rfl⟩ := h
  refine ⟨?_, rfl⟩
  have h := reservable_modify X (·.complete response now) hrow hmatches
  simpa [OperationRow.complete] using h

omit [LinearOrder T] [Zero T] in
/-- An operator's authorisation gives the row one more reservation. -/
theorem reconciles_balance (X : PyStr) {args : ReconcileArgs F} {action : ReconcileAction}
    {completion : Option R} {now : T} (h : Reconciles table db args action completion now db') :
    reservable db' X + authorizedRetries db X =
      reservable db X + authorizedRetries db' X := by
  obtain ⟨row, hrow, hmatches, hcomplete, _, rfl⟩ := h
  have h := reservable_modify X (reconciled action completion now) hrow hmatches
  have hstatus : (reconciled action completion now row).status = .retryAuthorized ↔
      action = .authorizeRetry := by
    cases action with
    | complete =>
      cases completion with
      | none => simp at hcomplete
      | some response => simp [reconciled, OperationRow.complete]
    | authorizeRetry => simp [reconciled]
    | abandon => simp [reconciled]
  simp only [hstatus, reduceCtorEq, and_false, if_false, add_zero] at h
  have hretries : ∀ operations : Dict PyStr (OperationRow R T), authorizedRetries
      ({ db with
        operations := operations
        reconciliations := db.reconciliations ++ [⟨table.kind, args.operationId,
          args.requestSha256, .pending, action, args.actor, args.reason,
          args.evidenceReceiptSha256, now⟩] } : OperationDb R T) X =
      authorizedRetries db X +
        if args.operationId = X ∧ action = .authorizeRetry then 1 else 0 := by
    intro operations
    simp [authorizedRetries, List.countP_append, List.countP_singleton]
  rw [hretries]
  have hoperations : ∀ reconciliations, reservable
      ({ db with
        operations := db.operations.modify args.operationId (reconciled action completion now)
        reconciliations := reconciliations } : OperationDb R T) X =
      reservable ({ db with
        operations := db.operations.modify args.operationId (reconciled action completion now) } :
          OperationDb R T) X := by
    intro reconciliations
    rfl
  rw [hoperations]
  omega

omit [LinearOrder T] [Zero T] in
theorem authorizedRetries_le (X : PyStr) (h : Change table db db') :
    authorizedRetries db X ≤ authorizedRetries db' X := by
  cases h with
  | kept db' _ hreconciliations => rw [authorizedRetries, authorizedRetries, hreconciliations]
  | reserved Y requestHash now db' h =>
    rw [authorizedRetries, authorizedRetries, (reserves_balance X h).2]
  | committed Y requestHash response now db' _ h =>
    rw [authorizedRetries, authorizedRetries, (commits_balance X h).2]
  | reconciled args action completion now db' h =>
    obtain ⟨row, _, _, _, _, rfl⟩ := h
    rw [authorizedRetries, authorizedRetries, List.countP_append]
    exact Nat.le_add_right _ _

omit [LinearOrder T] [Zero T] in
theorem kept_balance (X : PyStr) (hoperations : db'.operations = db.operations)
    (hreconciliations : db'.reconciliations = db.reconciliations) :
    reservable db' X + authorizedRetries db X =
      reservable db X + authorizedRetries db' X := by
  rw [reservable, row_of_operations hoperations, authorizedRetries, authorizedRetries,
    hreconciliations]
  rfl

variable [PyFloat F] [Sub T]

/-- Every step keeps reservations and authorisations in balance. -/
theorem perform_balance (X : PyStr) {o : Op F T R} {r : Reply o}
    (h : perform table db o r db') :
    reservable db' X + reservesOf X ⟨o, r⟩ + authorizedRetries db X =
      reservable db X + authorizedRetries db' X := by
  by_cases ho : Op.passive o = true
  · obtain ⟨hoperations, hreconciliations⟩ := perform_passive ho h
    rw [(counts_passive X ho r).2, add_zero]
    exact kept_balance X hoperations hreconciliations
  · cases o with
    | reserve Y requestHash =>
      rcases perform_reserve h with ⟨rfl, _, _, now, hreserves⟩ | ⟨hr, rfl⟩
      · obtain ⟨hcount, hreconciliations⟩ := reserves_balance X hreserves
        rw [authorizedRetries, authorizedRetries, hreconciliations, ← hcount]
        simp [reservesOf, isReserved]
      · rw [reservesOf_refused X Y requestHash hr, add_zero]
    | commit Y requestHash response =>
      rcases perform_commit h with ⟨_, _, now, hcommits⟩ | ⟨_, rfl⟩
      · obtain ⟨hcount, hreconciliations⟩ := commits_balance X hcommits
        rw [hcount, authorizedRetries, authorizedRetries, hreconciliations]
        rfl
      · rfl
    | transmit Y =>
      rw [show db' = db from h]
      rfl
    | receive wire Y =>
      rw [show db' = db from h]
      rfl
    | _ => exact absurd rfl ho

omit [LinearOrder T] [Zero T] [PyFloat F] [Sub T] in
theorem external_balance (X : PyStr) (h : External table db db') :
    reservable db' X + authorizedRetries db X =
      reservable db X + authorizedRetries db' X := by
  cases h with
  | reconcile args now r db' h =>
    cases r with
    | error e => rw [reconcileOperation_error (outcome_error.mp h)]
    | ok u =>
      obtain ⟨action, completion, hchange⟩ := reconcileOperation_eq_ok (outcome_ok.mp h)
      exact reconciles_balance X hchange
  | register circuitId now => exact kept_balance X rfl rfl

end Steps

section Runs
variable [PyFloat F] [Sub T] {table : ResponseTable F R A} {admits : PyStr → Prop}
  {valid : C → Validity F R}
  {M : Machine (OperationDb R T) C (Op F T R) Reply (Except OperationError A)}
  {G : OperationDb R T → Process C (Op F T R) Reply (Except OperationError A) → Prop}
  {sys sys' : System (OperationDb R T) C (Op F T R) Reply (Except OperationError A)}

/-- Over a whole run, the reservations made are those that the row admitted or an operator
authorised. -/
theorem reservations_balance (hM : Conforms table admits valid M) (h : Reaches M G sys sys')
    (X : PyStr) :
    reservable sys'.state X + sys'.total (reservesOf X) + authorizedRetries sys.state X =
      reservable sys.state X + sys.total (reservesOf X) +
        authorizedRetries sys'.state X := by
  induction h with
  | refl => rfl
  | tail _ hstep ih =>
    cases hstep with
    | start c =>
      rw [total_start]
      exact ih
    | external s hs =>
      have hbalance := external_balance X (hM.external _ _ hs)
      simp only [System.total] at ih ⊢
      omega
    | operation i c log o next r s hi hguard hs =>
      rw [total_act _ hi]
      have hbalance := perform_balance X (hM.perform _ _ _ _ hs)
      simp only [System.act] at ih ⊢
      omega

/-! ## Transmissions -/

/-- A process that may transmit next. -/
def Progress.transmitting (X : PyStr) : Progress R → ℕ
  | .reserved Y _ => if Y = X then 1 else 0
  | _ => 0

/-- What a process knows: its row, and that it transmits what it reserved. -/
structure Known (db : OperationDb R T) (log : List (Entry (Op F T R) Reply)) (g : Progress R) :
    Prop where
  row : KnowsRow db g
  counted : ∀ X, countEntries (transmitsOf X) log + Progress.transmitting X g ≤
    countEntries (reservesOf X) log

omit [PyFloat F] [Sub T] in
theorem Known.start (db : OperationDb R T) : Known db ([] : List (Entry (Op F T R) Reply)) .idle :=
  ⟨trivial, fun _ => le_rfl⟩

omit [PyFloat F] [Sub T] in
theorem Known.change {db db' : OperationDb R T} {log : List (Entry (Op F T R) Reply)}
    {g : Progress R} (h : Known db log g) (hchange : Change table db db') : Known db' log g :=
  ⟨h.row.change hchange, h.counted⟩

/-! A process that has sent its call transmits no more. -/

section AfterSending
variable (X Y requestHash : PyStr) (response : R)

omit [LinearOrder T] [Zero T] [PyFloat F] [Sub T] in
theorem transmitting_afterReceive (v : Validity F R) {wire : Wire}
    (r : Except OperationError (Received F wire)) :
    Progress.transmitting X (afterReceive v Y requestHash wire r) = 0 := by
  cases r with
  | error e => rfl
  | ok received =>
    rw [afterReceive]
    cases v wire received with
    | none => rfl
    | some response => rfl

omit [LinearOrder T] [Zero T] [PyFloat F] [Sub T] in
theorem transmitting_afterSuccess (r : Except OperationError Unit) :
    Progress.transmitting X (afterSuccess Y requestHash response r) = 0 := by
  cases r with
  | error e => rfl
  | ok u => rfl

omit [LinearOrder T] [Zero T] [PyFloat F] [Sub T] in
theorem transmitting_afterCommit (r : Except OperationError ℕ) :
    Progress.transmitting X (afterCommit Y requestHash response r) = 0 := by
  cases r with
  | error e => rfl
  | ok n =>
    rw [afterCommit]
    by_cases hn : n = 1
    · rw [if_pos hn]
      rfl
    · rw [if_neg hn]
      rfl

omit [LinearOrder T] [Zero T] [PyFloat F] [Sub T] in
theorem transmitting_afterAppend (r : Except OperationError Unit) :
    Progress.transmitting X (afterAppend Y requestHash response r) = 0 := by
  cases r with
  | error e => rfl
  | ok u => rfl

end AfterSending

/-- A move keeps the counts of its process. -/
theorem Known.move {v : Validity F R} {db db' : OperationDb R T}
    {log : List (Entry (Op F T R) Reply)} {g g' : Progress R} (h : Known db log g)
    {o : Op F T R} {r : Reply o} (hmove : Move v g o r g') (hperform : perform table db o r db') :
    Known db' (log ++ [⟨o, r⟩]) g' := by
  refine ⟨h.row.move hmove hperform, ?_⟩
  intro X
  have hcounted := h.counted X
  rw [countEntries_append, countEntries_append]
  have hquiet : ∀ g' : Progress R, Progress.transmitting X g' = 0 → transmitsOf X ⟨o, r⟩ = 0 →
      countEntries (transmitsOf X) log + transmitsOf X ⟨o, r⟩ + Progress.transmitting X g' ≤
        countEntries (reservesOf X) log + reservesOf X ⟨o, r⟩ := by
    intro g' hg' ho
    omega
  cases hmove with
  | passive _ _ _ hg ho =>
    apply hquiet
    · cases g <;> first | rfl | cases hg
    · exact (counts_passive X ho r).1
  | reserve Y requestHash =>
    have hidle : Progress.transmitting X (Progress.idle : Progress R) = 0 := rfl
    rcases perform_reserve hperform with ⟨rfl, _⟩ | ⟨hr, _⟩
    · simp only [transmitsOf, reservesOf, isReserved, afterReserve, Progress.transmitting,
        and_true] at hcounted ⊢
      omega
    · rw [afterReserve_of_ne hr]
      exact hquiet _ rfl rfl
  | transmit Y requestHash =>
    simp only [transmitsOf, reservesOf, Progress.transmitting] at hcounted ⊢
    omega
  | receive Y requestHash wire =>
    exact hquiet _ (transmitting_afterReceive X Y requestHash v _) rfl
  | recordSuccess circuit Y requestHash response =>
    exact hquiet _ (transmitting_afterSuccess X Y requestHash response _) rfl
  | commit Y requestHash response =>
    exact hquiet _ (transmitting_afterCommit X Y requestHash response _) rfl
  | select Y requestHash response => exact hquiet _ rfl rfl
  | utcnow Y requestHash response => exact hquiet _ rfl rfl
  | append Y requestHash response record =>
    exact hquiet _ (transmitting_afterAppend X Y requestHash response _) rfl

theorem tracking (hM : Conforms table admits valid M) :
    Tracking M G (fun _ => True) (fun c => protocol admits (valid c))
      (fun db _ log g => Known db log g) (fun _ => Delivers table) where
  start db c _ := ⟨.idle, Known.start db, hM.follows c⟩
  act db c log g o next r db' _ hknown hallows _ hperform := by
    have hstep := hM.perform db o r db' hperform
    refine ⟨g.next (valid c) o r, ⟨hknown.row.possible hallows hstep, rfl⟩, ?_⟩
    exact hknown.move (move_of_allows hallows r) hstep
  stable db c log g db' _ hknown hstep := hknown.change (hM.change hstep)

/-- Nobody transmits what he has not reserved. -/
theorem transmits_le_reserves (hM : Conforms table admits valid M) {db : OperationDb R T}
    (h : Reaches M G (System.idle db) sys) (X : PyStr) {p} (hp : p ∈ sys.processes) :
    countEntries (transmitsOf X) p.log ≤ countEntries (reservesOf X) p.log := by
  obtain ⟨i, hi, rfl⟩ := List.getElem_of_mem hp
  obtain ⟨g, hknown, _⟩ := (tracking hM).reaches h (fun _ _ => trivial) i _ (Nat.zero_le i)
    (List.getElem?_eq_getElem hi)
  exact le_trans (Nat.le_add_right _ _) (hknown.counted X)

/-! ## At most once -/

/-- An operation admits no reservation, or an authorisation has been given since. -/
def Closed (X : PyStr) (n : ℕ) (db : OperationDb R T) : Prop :=
  reservable db X = 0 ∧ authorizedRetries db X = n ∨ n < authorizedRetries db X

theorem closed_step (hM : Conforms table admits valid M) {X : PyStr} {n : ℕ} {db db' : OperationDb R T}
    (h : Closed X n db) (hstep : (∃ o r, M.perform db o r db') ∨ M.external db db') :
    Closed X n db' := by
  have hle := authorizedRetries_le X (hM.change hstep)
  have hbalance : reservable db' X + authorizedRetries db X ≤
      reservable db X + authorizedRetries db' X := by
    rcases hstep with ⟨o, r, hperform⟩ | hexternal
    · have h := perform_balance X (hM.perform db o r db' hperform)
      omega
    · exact le_of_eq (external_balance X (hM.external db db' hexternal))
  unfold Closed at h ⊢
  omega

/-- While no retry is authorised, no process started later reserves a closed operation. -/
theorem closed_reserves (hM : Conforms table admits valid M) {X : PyStr} {n : ℕ}
    (hclosed : Closed X n sys.state) (h : Reaches M G sys sys') {i : ℕ}
    {p : Process C (Op F T R) Reply (Except OperationError A)} (hi : sys.processes.length ≤ i)
    (hp : sys'.processes[i]? = some p) :
    n < authorizedRetries sys'.state X ∨ countEntries (reservesOf X) p.log = 0 := by
  have htracking : Tracking M G (Closed X n) (fun c => protocol admits (valid c))
      (fun db _ log g => KnowsRow db g ∧
        (n < authorizedRetries db X ∨ countEntries (reservesOf X) log = 0))
      (fun _ => Delivers table) := by
    constructor
    · intro db c _
      exact ⟨.idle, ⟨trivial, .inr rfl⟩, hM.follows c⟩
    · intro db c log g o next r db' hclosed ⟨hrow, hcount⟩ hallows _ hperform
      have hstep := hM.perform db o r db' hperform
      refine ⟨g.next (valid c) o r, ⟨hrow.possible hallows hstep, rfl⟩,
        hrow.move (move_of_allows hallows r) hstep, ?_⟩
      have hle := authorizedRetries_le X (perform_change hstep)
      have hbalance := perform_balance X hstep
      rw [countEntries_append]
      unfold Closed at hclosed
      omega
    · intro db c log g db' _ ⟨hrow, hcount⟩ hstep
      have hle := authorizedRetries_le X (hM.change hstep)
      refine ⟨hrow.change (hM.change hstep), ?_⟩
      omega
  have hI : ∀ sys₁, Reaches M G sys sys₁ → Closed X n sys₁.state := by
    intro sys₁ h₁
    exact h₁.invariant hclosed (fun db o r db' hdb hs => closed_step hM hdb (.inl ⟨o, r, hs⟩))
      (fun db db' hdb hs => closed_step hM hdb (.inr hs))
  obtain ⟨g, ⟨_, hcount⟩, _⟩ := htracking.reaches h hI i p hi hp
  exact hcount

end Runs

/-- At most one external call and one more for each authorised retry; a process that starts when
the operation is pending or abandoned makes none, unless a retry is authorised. -/
structure PaidAtMostOnce [PyFloat F]
    (M : Machine (OperationDb R T) C (Op F T R) Reply (Except OperationError A)) : Prop where
  bound : ∀ circuits sys, Reaches M Unguarded (System.idle (freshDb circuits)) sys → ∀ X,
    transmissions sys X ≤ 1 + authorizedRetries sys.state X
  notAgain : ∀ circuits sys sys', Reaches M Unguarded (System.idle (freshDb circuits)) sys →
    Reaches M Unguarded sys sys' → ∀ X row, sys.state.row X = some row →
    row.status = .pending ∨ row.status = .abandoned →
    authorizedRetries sys'.state X = authorizedRetries sys.state X →
    ∀ (i : ℕ) p, sys.processes.length ≤ i → sys'.processes[i]? = some p →
      countEntries (transmitsOf X) p.log = 0

theorem conforms_paidAtMostOnce [PyFloat F] [Sub T] {table : ResponseTable F R A}
    {admits : PyStr → Prop} {valid : C → Validity F R}
    {M : Machine (OperationDb R T) C (Op F T R) Reply (Except OperationError A)}
    (hM : Conforms table admits valid M) : PaidAtMostOnce M where
  bound circuits sys h X := by
    have hbalance := reservations_balance hM h X
    have hfresh : reservable (freshDb circuits : OperationDb R T) X = 1 := rfl
    have hnone : authorizedRetries (freshDb circuits : OperationDb R T) X = 0 := rfl
    have hle : transmissions sys X ≤ sys.total (reservesOf X) :=
      total_le_total fun p hp => transmits_le_reserves hM h X hp
    rw [total_idle] at hbalance
    simp only [System.idle, hfresh, hnone] at hbalance
    omega
  notAgain circuits sys sys' h h' X row hrow hstatus hsame i p hi hp := by
    have hclosed : Closed X (authorizedRetries sys.state X) sys.state := by
      refine .inl ⟨?_, rfl⟩
      rw [reservable_of_row hrow]
      rcases hstatus with hstatus | hstatus
      · rw [hstatus]
        rfl
      · rw [hstatus]
        rfl
    have hle := transmits_le_reserves hM (h.trans h') X (List.mem_of_getElem? hp)
    rcases closed_reserves hM hclosed h' hi hp with hmore | hzero
    · omega
    · omega

/-- On a retrieval database and on a model database, for every run of the transports' calls. -/
theorem paid_at_most_once [PyFloat F] [Sub T] (H : Hasher)
    (B : ModelTransports.Builtins F) :
    PaidAtMostOnce (retrievalMachine H : Machine _ (RetrievalCall F T) _ _ _) ∧
      PaidAtMostOnce (modelMachine H B : Machine _ (ModelCall F T) _ _ _) :=
  ⟨conforms_paidAtMostOnce (retrievalMachine_conforms H),
    conforms_paidAtMostOnce (modelMachine_conforms H B)⟩

end PaidCalls
