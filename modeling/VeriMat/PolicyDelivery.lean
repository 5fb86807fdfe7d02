import VeriMat.PolicyAudit

/-! # Delivery of the policy outbox

What a later flush makes of the outbox. The ledger holds at most one event for each row,
whichever flush sent it, but the event carries the audit job id of that flush: a flush under
another id is then refused the row, and with it everything behind it. -/
namespace PolicyDelivery

open PyText JsonText PyValue AtomicProgram RelyGuarantee Transaction JsonWritable KeyedTable
open PolicyStore PolicyRefresh PolicyOutbox PolicyAudit LedgerGrowth LedgerAppend
open LedgerConcurrent LedgerChain EnvelopeRoundTrip DurablePayload
open PolicyCredit (Operation readOnly_bindText)
open Ledger (LedgerError LedgerIssue AppendArgs VerificationReport isStr)
open Events (EventEnvelope isHash replaceZ)

variable {F T : Type} [PyFloat F]

/-! ## What a flush is for -/

/-- The row waits for its dispatch. -/
def Waits (tenantId : PyStr) (s : Audit F T) (o : OutboxRow T) : Prop :=
  o ∈ s.db.policyOutbox.rows ∧ o.isPending tenantId = true

/-- How many rows wait. -/
def waiting (tenantId : PyStr) (s : Audit F T) : ℕ :=
  s.db.policyOutbox.rows.countP (OutboxRow.isPending tenantId)

/-- The recorded event says what the row says. -/
structure IsEventOf (o : OutboxRow T) (e : EventEnvelope F) : Prop where
  tenantId : e.tenantId = .str o.tenantId
  aggregateType : e.aggregateType = .str o.aggregateType
  aggregateId : e.aggregateId = .str o.aggregateId
  eventType : e.eventType = .str o.eventType
  payload : ∃ j, loads o.payload = some j ∧ e.payload = ofJson j
  idempotencyKey : e.idempotencyKey = .str o.idempotencyKey

/-- No row waits, and the ledger verifies and holds one event for every row of the tenant. -/
structure Delivered (H : AuditHost F T) (tenantId : PyStr) (s : Audit F T) : Prop where
  nothing_waits : ∀ o, ¬Waits tenantId s o
  recorded : ∃ es : List (EventEnvelope F), Ledger.events H.ledger s.file = .ok es ∧
    (∀ o ∈ s.db.policyOutbox.rows, o.tenantId = tenantId →
      ∃! i : ℕ, ∃ e, es[i]? = some e ∧ IsEventOf o e) ∧
    ∀ e ∈ es, ∃ o ∈ s.db.policyOutbox.rows, o.tenantId = tenantId ∧ IsEventOf o e

/-- A flush that nothing interrupts comes to its end, and however it ends, it returns a report
and everything is delivered. -/
def Delivers [LinearOrder T] (H : AuditHost F T) (tenantId : PyStr) (c : FlushCall)
    (s : Audit F T) : Prop :=
  ∀ rounds, waiting tenantId s < rounds →
    (∃ r s', Finishes (Performs H) (flush tenantId { c with rounds }).run s r s') ∧
    ∀ r s', Finishes (Performs H) (flush tenantId { c with rounds }).run s r s' →
      (∃ report, r = .ok (some report)) ∧ Delivered H tenantId s'

/-! ## When it does its work -/

/-- The arguments a flush accepts. -/
structure Accepted (tenantId : PyStr) (c : FlushCall) : Prop where
  auditJobId : isBlank c.auditJobId = false
  tenantId : Label tenantId
  batch_pos : 1 ≤ c.batchSize
  batch_le : c.batchSize ≤ 9223372036854775807

/-- The row has been sent under this flush's audit job id, or it has not been sent, has a named
aggregate, and can be written behind the last line of the ledger. -/
def Deliverable (c : FlushCall) (s : Audit F T) (es : List (EventEnvelope F)) (o : OutboxRow T) :
    Prop :=
  (∃ e ∈ es, e.idempotencyKey = .str o.idempotencyKey ∧ e.jobId = .str c.auditJobId) ∨
    (∀ e ∈ es, e.idempotencyKey ≠ .str o.idempotencyKey) ∧ isBlank o.aggregateId = false ∧
      (encode c.auditJobId).isSome = true ∧ Whole s.file

structure Ready (H : AuditHost F T) (tenantId : PyStr) (c : FlushCall) (s : Audit F T) : Prop where
  accepted : Accepted tenantId c
  deliverable : ∃ es : List (EventEnvelope F), Readable H.ledger s.file es ∧
    ∀ o, Waits tenantId s o → Deliverable c s es o

/-! ## Rows -/

/-- The row as it was committed. -/
def committed (o : OutboxRow T) : OutboxRow T := { o with dispatchedAt := none }

theorem committed_event {o o' : OutboxRow T} (h : committed o' = committed o) :
    (o'.event : Option (PolicyEvent F T)) = o.event := by
  have hevent : ∀ o : OutboxRow T, (committed o).event = (o.event : Option (PolicyEvent F T)) :=
    fun _ => rfl
  rw [← hevent o', h, hevent o]

theorem committed_isEventOf {o o' : OutboxRow T} {e : EventEnvelope F}
    (h : committed o' = committed o) (he : IsEventOf o e) : IsEventOf o' e := by
  obtain ⟨htenant, htype, haggregate, hevent, hpayload, hkey⟩ := he
  have h₁ : o'.tenantId = o.tenantId := congrArg (·.tenantId) h
  have h₂ : o'.aggregateType = o.aggregateType := congrArg (·.aggregateType) h
  have h₃ : o'.aggregateId = o.aggregateId := congrArg (·.aggregateId) h
  have h₄ : o'.eventType = o.eventType := congrArg (·.eventType) h
  have h₅ : o'.payload = o.payload := congrArg (·.payload) h
  have h₆ : o'.idempotencyKey = o.idempotencyKey := congrArg (·.idempotencyKey) h
  exact ⟨by rw [htenant, h₁], by rw [htype, h₂], by rw [haggregate, h₃], by rw [hevent, h₄],
    by rwa [h₅], by rw [hkey, h₆]⟩

omit [PyFloat F] in
/-- Two rows of one tenant with one idempotency key are one row. -/
theorem row_of_key {db : PolicyDatabase F T} {o o' : OutboxRow T} (ho : o ∈ db.policyOutbox.rows)
    (ho' : o' ∈ db.policyOutbox.rows) (htenant : o.tenantId = o'.tenantId)
    (hkey : o.idempotencyKey = o'.idempotencyKey) : o = o' :=
  db.policyOutbox.eq_of_clash twoKeysClash_symm ho ho' (.inr (Prod.ext htenant hkey))

omit [PyFloat F] in
/-- Two rows with one event id are one row. -/
theorem row_of_eventId {db : PolicyDatabase F T} {o o' : OutboxRow T}
    (ho : o ∈ db.policyOutbox.rows) (ho' : o' ∈ db.policyOutbox.rows)
    (hid : o.eventId = o'.eventId) : o = o' :=
  db.policyOutbox.eq_of_clash twoKeysClash_symm ho ho' (.inl hid)

/-- The payload of a row that can be sent, read back. -/
theorem sendable_loads {o : OutboxRow T} (h : Sendable F o) :
    ∃ members : List (PyStr × Json F), DurableText F o.payload members ∧
      JsonText.loads o.payload = some (.obj members) := by
  obtain ⟨members, hdurable⟩ := h.payload
  refine ⟨members, hdurable, ?_⟩
  rw [JsonText.loads, hdurable.render, parse_render_self hdurable.finite, Option.map_some,
    dedup_of_sorted _ hdurable.sorted]

/-- The event of a row that can be sent. -/
theorem sendable_event {o : OutboxRow T} (h : Sendable F o) :
    ∃ members : List (PyStr × Json F), DurableText F o.payload members ∧
      JsonText.loads o.payload = some (.obj members) ∧
      o.event = some ⟨o.eventId, o.tenantId, o.eventType, o.aggregateType, o.aggregateId,
        ofJson (.obj members), o.idempotencyKey, o.createdAt⟩ := by
  obtain ⟨members, hdurable, hloads⟩ := sendable_loads h
  exact ⟨members, hdurable, hloads, by rw [OutboxRow.event, hloads]; rfl⟩

/-! ## The invariant of every run -/

/-- The ledger records rows of the tenant and nothing else, and every row that is marked. -/
structure Linked (H : AuditHost F T) (tenantId : PyStr) (s : Audit F T) : Prop where
  sound : Sound s.db
  noReturn : NoReturn s.file
  ofRow : ∀ es : List (EventEnvelope F), Readable H.ledger s.file es → ∀ e ∈ es,
    ∃ o ∈ s.db.policyOutbox.rows, o.tenantId = tenantId ∧ IsEventOf o e
  marked : ∀ es : List (EventEnvelope F), Readable H.ledger s.file es →
    ∀ o ∈ s.db.policyOutbox.rows, o.tenantId = tenantId → o.dispatchedAt.isSome = true →
      ∃ e ∈ es, IsEventOf o e

theorem linked_initial (H : AuditHost F T) (tenantId : PyStr) : Linked H tenantId Audit.initial := by
  refine ⟨sound_empty, ?_, ?_, ?_⟩
  · intro text htext
    have hnil : decode [] = some [] := by simp [decode]
    rw [Audit.initial, hnil, Option.some.injEq] at htext
    rw [← htext]
    simp
  · intro es hes e he
    have hnil : Readable (F := F) H.ledger [] [] := rfl
    rw [hes.det hnil] at he
    cases he
  · intro es _ o ho
    cases ho

/-- A row of the outbox, and what `pending_events` makes of it. -/
def HasRow (tenantId : PyStr) (event : PolicyEvent F T) (s : Audit F T) : Prop :=
  ∃ o ∈ s.db.policyOutbox.rows, o.tenantId = tenantId ∧ o.event = some event

/-- The ledger, while it can be read, has an event under the key. -/
def HasEvent (H : AuditHost F T) (event : PolicyEvent F T) (s : Audit F T) : Prop :=
  ∀ es : List (EventEnvelope F), Readable H.ledger s.file es →
    ∃ e ∈ es, e.idempotencyKey = .str event.idempotencyKey

/-- What any step does: rows stay as they were committed, and an append may grow the ledger. -/
structure Evolves (H : AuditHost F T) (s s' : Audit F T) : Prop where
  rows : s.db.policyOutbox.rows.map committed <+: s'.db.policyOutbox.rows.map committed
  file : s'.file = s.file ∨ ∃ a, Grown (F := F) H.ledger s.file a s'.file

theorem Evolves.row {H : AuditHost F T} {s s' : Audit F T} (h : Evolves H s s') {o : OutboxRow T}
    (ho : o ∈ s.db.policyOutbox.rows) :
    ∃ o' ∈ s'.db.policyOutbox.rows, committed o' = committed o :=
  List.mem_map.mp (h.rows.subset (List.mem_map_of_mem ho))

theorem Evolves.hasRow {H : AuditHost F T} {s s' : Audit F T} (h : Evolves H s s')
    {tenantId : PyStr} {event : PolicyEvent F T} (hs : HasRow tenantId event s) :
    HasRow tenantId event s' := by
  obtain ⟨o, ho, htenant, hevent⟩ := hs
  obtain ⟨o', ho', hsame⟩ := h.row ho
  refine ⟨o', ho', ?_, (committed_event hsame).trans hevent⟩
  exact (congrArg (·.tenantId) hsame : o'.tenantId = o.tenantId).trans htenant

/-- What was readable before, when the ledger is readable after a step. -/
theorem Evolves.reads {H : AuditHost F T} {s s' : Audit F T} (h : Evolves H s s')
    {es' : List (EventEnvelope F)} (hes' : Readable H.ledger s'.file es') :
    ∃ es : List (EventEnvelope F), Readable H.ledger s.file es ∧ es <+: es' := by
  rcases h.file with hfile | ⟨a, hgrown⟩
  · exact ⟨es', hfile ▸ hes', List.prefix_rfl⟩
  · obtain ⟨es, hes⟩ := hgrown.readable
    rcases hgrown.reads hes hes' with rfl | ⟨hash, payload, _, _, rfl⟩
    · exact ⟨es', hes, List.prefix_rfl⟩
    · exact ⟨es, hes, List.prefix_append _ _⟩

theorem Evolves.hasEvent {H : AuditHost F T} {s s' : Audit F T} (h : Evolves H s s')
    {event : PolicyEvent F T} (hs : HasEvent H event s) : HasEvent H event s' := by
  intro es' hes'
  obtain ⟨es, hes, hprefix⟩ := h.reads hes'
  obtain ⟨e, he, hkey⟩ := hs es hes
  exact ⟨e, hprefix.subset he, hkey⟩

theorem evolves_of_file {H : AuditHost F T} {s : Audit F T} {file : PyBytes}
    (h : file = s.file ∨ ∃ a, Grown (F := F) H.ledger s.file a file) :
    Evolves H s { s with file } :=
  ⟨List.prefix_rfl, h⟩

theorem evolves_of_rows {H : AuditHost F T} {s : Audit F T} {db : PolicyDatabase F T}
    (h : s.db.policyOutbox.rows.map committed <+: db.policyOutbox.rows.map committed) :
    Evolves H s { s with db } :=
  ⟨h, .inl rfl⟩

/-! ## Steps -/

section Steps
variable [LinearOrder T] {H : AuditHost F T} {tenantId : PyStr} {s s' : Audit F T}

omit [LinearOrder T] in
/-- The event an append for this row leaves says what the row says. -/
theorem isEventOf_reread {o : OutboxRow T} (ho : Sendable F o) (htenant : o.tenantId = tenantId)
    {event : PolicyEvent F T} (hevent : o.event = some event) {auditJobId uuid now : PyStr}
    {es : List (EventEnvelope F)} {hash : PyStr} {payload : Json F}
    (hlower : lower ((eventCall auditJobId tenantId event).args uuid now).payload = .ok payload) :
    IsEventOf o (reread (((eventCall auditJobId tenantId event).args uuid now).buildArgs es) hash
      payload) := by
  obtain ⟨members, hdurable, hloads, hrow⟩ := sendable_event ho
  rw [hrow, Option.some.injEq] at hevent
  subst hevent
  have hlower' : lower (ofJson (.obj members)) = .ok payload := hlower
  rw [lower_ofJson _ hdurable.finite, Except.ok.injEq, sortNames_of_sorted _ hdurable.sorted]
    at hlower'
  subst hlower'
  refine ⟨congrArg _ htenant.symm, rfl, rfl, rfl, ⟨_, hloads, ?_⟩, rfl⟩
  rw [reread, dedup_of_sorted _ hdurable.sorted]

omit [LinearOrder T] in
/-- An append for a row of the tenant keeps the invariant, finished or not. -/
theorem Linked.grown (hs : Linked H tenantId s) {event : PolicyEvent F T}
    (hrow : HasRow tenantId event s) {auditJobId uuid now : PyStr} {file : PyBytes}
    (h : Grown H.ledger s.file ((eventCall auditJobId tenantId event).args uuid now) file) :
    Linked H tenantId { s with file } := by
  refine ⟨hs.sound, h.noReturn hs.noReturn, ?_, ?_⟩
  · intro es₂ hes₂ e he
    obtain ⟨es, hes⟩ := h.readable
    rcases h.reads hes hes₂ with rfl | ⟨hash, payload, _, hlower, rfl⟩
    · exact hs.ofRow es₂ hes e he
    · rcases List.mem_append.mp he with he | he
      · exact hs.ofRow es hes e he
      · rw [List.mem_singleton.mp he]
        obtain ⟨o, ho, htenant, hevent⟩ := hrow
        exact ⟨o, ho, htenant, isEventOf_reread (hs.sound.outbox o ho) htenant hevent hlower⟩
  · intro es₂ hes₂ o ho htenant hmarked
    obtain ⟨es, hes, hprefix⟩ := (evolves_of_file (.inr ⟨_, h⟩)).reads hes₂
    obtain ⟨e, he, heo⟩ := hs.marked es hes o ho htenant hmarked
    exact ⟨e, hprefix.subset he, heo⟩

omit [LinearOrder T] in
/-- Under the key of a row the ledger has the event of that row. -/
theorem Linked.isEventOf (hs : Linked H tenantId s) {es : List (EventEnvelope F)}
    (hes : Readable H.ledger s.file es) {e : EventEnvelope F} (he : e ∈ es) {o : OutboxRow T}
    (ho : o ∈ s.db.policyOutbox.rows) (htenant : o.tenantId = tenantId)
    (hkey : e.idempotencyKey = .str o.idempotencyKey) : IsEventOf o e := by
  obtain ⟨o', ho', htenant', heo⟩ := hs.ofRow es hes e he
  have hsame : o' = o := by
    apply row_of_key ho' ho (htenant'.trans htenant.symm)
    have hkeys := heo.idempotencyKey.symm.trans hkey
    injection hkeys
  exact hsame ▸ heo

/-- The store after a mark. -/
def afterMark (db : PolicyDatabase F T) (tenantId eventId : PyStr) (now : T) : PolicyDatabase F T :=
  { db with
    policyOutbox := db.policyOutbox.update (OutboxRow.hasId tenantId eventId) (·.dispatched now)
      (OutboxRow.dispatched_key now) }

omit [LinearOrder T] [PyFloat F] in
theorem ran_markDispatched (db : PolicyDatabase F T) (tenantId eventId : PyStr) (now : T) :
    (ran (markDispatched tenantId eventId now) db).2 = db ∨
      (ran (markDispatched tenantId eventId now) db).2 = afterMark db tenantId eventId now := by
  cases hran : markDispatched tenantId eventId now db with
  | ok u db' =>
    right
    rw [ran_ok hran]
    simp only [markDispatched, bind_eq_ok, bindText_eq_ok, get_apply, EStateM.Result.ok.injEq,
      set_eq_ok, raiseIf_eq_ok] at hran
    obtain ⟨_, _, ⟨_, rfl⟩, _, _, ⟨_, rfl⟩, _, _, ⟨rfl, rfl⟩, _, _, rfl, _, rfl⟩ := hran
    rfl
  | error e db' =>
    rw [ran_error hran]
    rcases bind_eq_error.mp hran with hraised | ⟨_, _, hbound, hrest⟩
    · exact .inl (raiseIf_error hraised)
    obtain ⟨_, rfl⟩ := bindText_eq_ok.mp hbound
    rcases bind_eq_error.mp hrest with hraised | ⟨_, _, hbound', hupdate⟩
    · exact .inl (raiseIf_error hraised)
    obtain ⟨_, rfl⟩ := bindText_eq_ok.mp hbound'
    exact .inr (raiseIf_error hupdate)

omit [LinearOrder T] in
theorem committed_dispatched (now : T) (o : OutboxRow T) :
    committed (o.dispatched now) = committed o := rfl

omit [LinearOrder T] [PyFloat F] in
/-- A mark leaves every row as it was committed. -/
theorem afterMark_committed (db : PolicyDatabase F T) (tenantId eventId : PyStr) (now : T) :
    (afterMark db tenantId eventId now).policyOutbox.rows.map committed =
      db.policyOutbox.rows.map committed := by
  rw [afterMark, Table.update, List.map_map]
  apply List.map_congr_left
  intro o _
  by_cases hid : o.hasId tenantId eventId = true
  · rw [Function.comp, if_pos hid]
    rfl
  · rw [Function.comp, if_neg hid]

omit [LinearOrder T] in
theorem Sendable.committed {o o' : OutboxRow T} (h : Sendable F o)
    (hsame : committed o' = committed o) : Sendable F o' := by
  obtain ⟨hid, hevent, htype, haggregate, hkey, hpayload⟩ := h
  have h₁ : o'.eventId = o.eventId := congrArg (·.eventId) hsame
  have h₂ : o'.eventType = o.eventType := congrArg (·.eventType) hsame
  have h₃ : o'.aggregateType = o.aggregateType := congrArg (·.aggregateType) hsame
  have h₄ : o'.aggregateId = o.aggregateId := congrArg (·.aggregateId) hsame
  have h₅ : o'.idempotencyKey = o.idempotencyKey := congrArg (·.idempotencyKey) hsame
  have h₆ : o'.payload = o.payload := congrArg (·.payload) hsame
  exact ⟨by rwa [h₁], by rwa [h₂], by rwa [h₃], by rwa [h₄], by rwa [h₅], by rwa [h₆]⟩

omit [LinearOrder T] in
/-- The mark of a row that the ledger has an event for keeps the invariant. -/
theorem Linked.mark (hs : Linked H tenantId s) {event : PolicyEvent F T}
    (hrow : HasRow tenantId event s) (hevent : HasEvent H event s) (now : T) :
    Linked H tenantId { s with db := afterMark s.db tenantId event.eventId now } := by
  have hrows : ∀ o' ∈ (afterMark s.db tenantId event.eventId now).policyOutbox.rows,
      ∃ o ∈ s.db.policyOutbox.rows, committed o' = committed o := by
    intro o' ho'
    have hmem := List.mem_map_of_mem (f := committed) ho'
    rw [afterMark_committed] at hmem
    obtain ⟨o, ho, hsame⟩ := List.mem_map.mp hmem
    exact ⟨o, ho, hsame.symm⟩
  refine ⟨⟨hs.sound.strategies, hs.sound.applications, ?_⟩, hs.noReturn, ?_, ?_⟩
  · intro o' ho'
    obtain ⟨o, ho, hsame⟩ := hrows o' ho'
    exact Sendable.committed (hs.sound.outbox o ho) hsame
  · intro es hes e he
    obtain ⟨o, ho, htenant, heo⟩ := hs.ofRow es hes e he
    have hmem := List.mem_map_of_mem (f := committed) ho
    rw [← afterMark_committed s.db tenantId event.eventId now] at hmem
    obtain ⟨o', ho', hsame⟩ := List.mem_map.mp hmem
    refine ⟨o', ho', ?_, committed_isEventOf hsame heo⟩
    exact (congrArg (·.tenantId) hsame : o'.tenantId = o.tenantId).trans htenant
  · intro es hes o' ho' htenant hmarked
    rw [afterMark, Table.mem_update] at ho'
    obtain ⟨o, ho, rfl⟩ := ho'
    by_cases hid : o.hasId tenantId event.eventId = true
    · rw [if_pos hid] at htenant ⊢
      obtain ⟨e, he, hkey⟩ := hevent es hes
      obtain ⟨o₁, ho₁, htenant₁, hevent₁⟩ := hrow
      obtain ⟨members, _, _, hfields⟩ := sendable_event (hs.sound.outbox o₁ ho₁)
      rw [hfields, Option.some.injEq] at hevent₁
      subst hevent₁
      have hsame : o = o₁ := by
        simp only [OutboxRow.hasId, Bool.and_eq_true, beq_iff_eq] at hid
        exact row_of_eventId ho ho₁ hid.2
      subst hsame
      exact ⟨e, he, committed_isEventOf (committed_dispatched now o)
        (hs.isEventOf hes he ho htenant hkey)⟩
    · rw [if_neg hid] at htenant hmarked ⊢
      exact hs.marked es hes o ho htenant hmarked

omit [LinearOrder T] in
/-- A mutation keeps the invariant. -/
theorem Linked.mutation (hs : Linked H tenantId s) {db : PolicyDatabase F T} (hdb : Sound db)
    (hgrows : Grows s.db db) : Linked H tenantId { s with db } := by
  obtain ⟨new, hrows, hnew⟩ := hgrows
  refine ⟨hdb, hs.noReturn, ?_, ?_⟩
  · intro es hes e he
    obtain ⟨o, ho, hrest⟩ := hs.ofRow es hes e he
    refine ⟨o, ?_, hrest⟩
    rw [hrows]
    exact List.mem_append_left _ ho
  · intro es hes o ho htenant hmarked
    rw [hrows] at ho
    rcases List.mem_append.mp ho with ho | ho
    · exact hs.marked es hes o ho htenant hmarked
    · rw [hnew o ho] at hmarked
      cases hmarked

/-! ### Pending events -/

omit [LinearOrder T] [PyFloat F] in
theorem forall₂_of_mapM_orRaise {α β : Type} {f : α → Option β} {e : PolicyError} {l : List α}
    {l' : List β} {db db' : PolicyDatabase F T}
    (h : (l.mapM fun a => orRaise (f a) e : PolicyDb F T (List β)) db = .ok l' db') :
    List.Forall₂ (fun a b => f a = some b) l l' := by
  induction l generalizing l' db db' with
  | nil =>
    rw [List.mapM_nil, pure_eq_ok] at h
    rw [h.1]
    exact .nil
  | cons a l ih =>
    rw [List.mapM_cons] at h
    obtain ⟨b, _, hb, h⟩ := bind_eq_ok.mp h
    obtain ⟨bs, _, hbs, h⟩ := bind_eq_ok.mp h
    rw [(pure_eq_ok.mp h).1]
    exact .cons (orRaise_eq_ok.mp hb).1 (ih hbs)

omit [PyFloat F] in
theorem mem_pending {db : PolicyDatabase F T} {o : OutboxRow T} :
    o ∈ db.pending tenantId ↔ o ∈ db.policyOutbox.rows ∧ o.isPending tenantId = true := by
  rw [PolicyDatabase.pending, List.mem_insertionSort, List.mem_filter]

theorem readOnly_pendingEvents (tenantId : PyStr) (limit : ℤ) :
    ReadOnly (pendingEvents tenantId limit : PolicyDb F T (List (PolicyEvent F T))) := by
  rw [pendingEvents]
  by_cases hlimit : limit < 1
  · rw [if_pos hlimit]
    exact readOnly_pure _
  · rw [if_neg hlimit]
    exact (readOnly_bindText _).bind fun _ => (readOnly_raiseIf _ _).bind fun _ =>
      readOnly_get.bind fun _ => readOnly_mapM (fun _ => readOnly_orRaise _ _) _

/-- The batch is the first of the waiting rows, one event each. -/
theorem rows_of_pendingEvents {limit : ℤ} {db db' : PolicyDatabase F T}
    {l : List (PolicyEvent F T)} (h : pendingEvents tenantId limit db = .ok l db') :
    List.Forall₂ (fun o event => OutboxRow.event o = some event)
      ((db.pending tenantId).take limit.toNat) l := by
  rw [pendingEvents] at h
  by_cases hlimit : limit < 1
  · rw [if_pos hlimit, pure_eq_ok] at h
    rw [h.1, Int.toNat_eq_zero.mpr (by omega), List.take_zero]
    exact .nil
  · rw [if_neg hlimit] at h
    simp only [queryPending, bindInt, bind_eq_ok, bindText_eq_ok, raiseIf_eq_ok, get_apply,
      EStateM.Result.ok.injEq] at h
    obtain ⟨_, _, ⟨_, rfl⟩, _, _, ⟨_, rfl⟩, _, _, ⟨rfl, rfl⟩, h⟩ := h
    exact forall₂_of_mapM_orRaise h

/-- What is handed out are rows that wait. -/
theorem pendingEvents_eq_ok {limit : ℤ} {db db' : PolicyDatabase F T}
    {pending : List (PolicyEvent F T)}
    (h : pendingEvents tenantId limit db = .ok pending db') :
    ∀ event ∈ pending, ∃ o ∈ db.policyOutbox.rows, o.isPending tenantId = true ∧
      o.event = some event := by
  intro event hevent
  obtain ⟨o, ho, hfields⟩ := exists_left (rows_of_pendingEvents h) hevent
  obtain ⟨hrow, hpending⟩ := mem_pending.mp (List.mem_of_mem_take ho)
  exact ⟨o, hrow, hpending, hfields⟩

/-! ### Any operation -/

/-- The rows stay and the ledger only grows, whatever is performed. -/
theorem evolves_of_performs {o : FlushOp F} {r : FlushReply F T o}
    (h : Performs H s o r s' ∨ Killed H s o r s') : Evolves H s s' := by
  cases o with
  | pendingEvents tenantId limit =>
    rcases h with ⟨_, rfl⟩ | hkilled
    · refine evolves_of_rows ?_
      have hsame := (readOnly_pendingEvents (F := F) (T := T) tenantId limit).leaves
        (R := fun db db' => db' = db) (fun _ => rfl) s.db
      rw [hsame]
    · exact hkilled.elim
  | append c =>
    rcases h with ⟨uuid, t, _, _, rfl⟩ | ⟨_, uuid, t, file, _, hgrown, rfl⟩
    · refine evolves_of_file ?_
      cases happ : Ledger.append H.ledger s.file (c.args uuid (H.utcNow t)) with
      | ok q =>
        obtain ⟨env, file'⟩ := q
        have hfile : fileAfter H.ledger s.file (c.args uuid (H.utcNow t)) = file' := by
          rw [fileAfter, happ]
        rw [hfile]
        exact .inr ⟨_, grown_of_append happ⟩
      | error x => exact .inl (fileAfter_error happ)
    · exact evolves_of_file (.inr ⟨_, hgrown⟩)
  | markDispatched tenantId eventId =>
    rcases h with ⟨now, _, rfl⟩ | hkilled
    · refine evolves_of_rows ?_
      rcases ran_markDispatched s.db tenantId eventId now with hsame | hsame
      · rw [hsame]
      · rw [hsame, afterMark_committed]
    · exact hkilled.elim
  | verify =>
    rcases h with ⟨_, rfl⟩ | hkilled
    · exact ⟨List.prefix_rfl, .inl rfl⟩
    · exact hkilled.elim

omit [LinearOrder T] in
theorem evolves_of_mutation {db : PolicyDatabase F T} (h : Grows s.db db) :
    Evolves H s { s with db } := by
  obtain ⟨new, hrows, _⟩ := h
  refine evolves_of_rows ?_
  rw [hrows, List.map_append]
  exact List.prefix_append _ _

end Steps

/-! ## What carries a flush -/

/-- What a flush keeps while it runs: the events it has still to send, that the first of them is
done with, and what it may say at the end. -/
structure BatchRules (perform : Audit F T → (o : FlushOp F) → FlushReply F T o → Audit F T → Prop)
    (R : Audit F T → Audit F T → Prop) (tenantId : PyStr) (c : FlushCall) (I : Audit F T → Prop)
    (Batch : List (PolicyEvent F T) → Audit F T → Prop)
    (Sent : PolicyEvent F T → List (PolicyEvent F T) → Audit F T → Prop)
    (Final : Audit F T → Prop) : Prop where
  batch_stable : ∀ l, Stable R I (Batch l)
  sent_stable : ∀ event l, Stable R I (Sent event l)
  final_stable : Stable R I Final
  pending : ∀ s r s', I s → perform s (.pendingEvents tenantId c.batchSize) r s' →
    I s' ∧ ∀ l : List (PolicyEvent F T), r = .ok l → Batch l s'
  append : ∀ event l s r s', I s → Batch (event :: l) s →
    perform s (.append (eventCall c.auditJobId tenantId event)) r s' →
      I s' ∧ ∀ e : EventEnvelope F, r = .ok e → Sent event l s'
  mark : ∀ event l s r s', I s → Sent event l s →
    perform s (.markDispatched tenantId event.eventId) r s' →
      I s' ∧ ∀ u : Unit, r = .ok u → Batch l s'
  verify : ∀ s r s', I s → perform s .verify r s' →
    I s' ∧ ∀ receipt : VerificationReport F, r = .ok receipt → receipt.ok = true → Final s'

/-- The same for a flush that keeps one assertion for each event, whatever the others. -/
structure FlushRules (perform : Audit F T → (o : FlushOp F) → FlushReply F T o → Audit F T → Prop)
    (R : Audit F T → Audit F T → Prop) (tenantId : PyStr) (c : FlushCall) (I : Audit F T → Prop)
    (Held Done : PolicyEvent F T → Audit F T → Prop) (Final : Audit F T → Prop) : Prop where
  held_stable : ∀ event, Stable R I (Held event)
  done_stable : ∀ event, Stable R I (Done event)
  final_stable : Stable R I Final
  held_kept : ∀ event s o r s', I s → Held event s → perform s o r s' → Held event s'
  pending : ∀ s r s', I s → perform s (.pendingEvents tenantId c.batchSize) r s' →
    I s' ∧ ∀ pending : List (PolicyEvent F T), r = .ok pending → ∀ event ∈ pending, Held event s'
  append : ∀ event s r s', I s → Held event s →
    perform s (.append (eventCall c.auditJobId tenantId event)) r s' →
      I s' ∧ ∀ e : EventEnvelope F, r = .ok e → Done event s'
  mark : ∀ event s r s', I s → Held event s → Done event s →
    perform s (.markDispatched tenantId event.eventId) r s' → I s'
  verify : ∀ s r s', I s → perform s .verify r s' →
    I s' ∧ ∀ receipt : VerificationReport F, r = .ok receipt → receipt.ok = true → Final s'

section Flush
variable {perform : Audit F T → (o : FlushOp F) → FlushReply F T o → Audit F T → Prop}
  {R : Audit F T → Audit F T → Prop} {tenantId : PyStr} {c : FlushCall} {I : Audit F T → Prop}
  {Batch : List (PolicyEvent F T) → Audit F T → Prop}
  {Sent : PolicyEvent F T → List (PolicyEvent F T) → Audit F T → Prop}
  {Held Done : PolicyEvent F T → Audit F T → Prop} {Final : Audit F T → Prop}

omit [PyFloat F] in
theorem BatchRules.dispatchAll (K : BatchRules perform R tenantId c I Batch Sent Final)
    (pending : List (PolicyEvent F T)) (n : ℕ) :
    Runs perform R I (Batch pending) (dispatchAll c.auditJobId tenantId pending n)
      (fun _ _ => True) fun _ _ => True := by
  induction pending generalizing n with
  | nil => exact runs_pure fun _ _ _ => trivial
  | cons event pending ih =>
    have happend : Runs perform R I (Batch (event :: pending))
        (act (.append (eventCall c.auditJobId tenantId event))) (fun _ s => Sent event pending s)
        fun _ _ => True := by
      refine runs_ask ⟨?_, ?_, ?_⟩
      · exact fun s r s' hI hbatch h => (K.append event pending s r s' hI hbatch h).1
      · exact stable_ends (fun _ => K.sent_stable event pending) fun _ => stable_const
      · intro s r s' hI hbatch h
        cases r with
        | error e => trivial
        | ok e => exact (K.append event pending s _ s' hI hbatch h).2 e rfl
    have hmark : Runs perform R I (Sent event pending)
        (act (.markDispatched tenantId event.eventId)) (fun _ s => Batch pending s)
        fun _ _ => True := by
      refine runs_ask ⟨?_, ?_, ?_⟩
      · exact fun s r s' hI hsent h => (K.mark event pending s r s' hI hsent h).1
      · exact stable_ends (fun _ => K.batch_stable pending) fun _ => stable_const
      · intro s r s' hI hsent h
        cases r with
        | error e => trivial
        | ok u => exact (K.mark event pending s _ s' hI hsent h).2 u rfl
    exact happend.bind fun _ => hmark.bind fun _ => ih (n + 1)

omit [PyFloat F] in
theorem BatchRules.flushRounds (K : BatchRules perform R tenantId c I Batch Sent Final)
    (rounds n : ℕ) :
    Runs perform R I (fun _ => True) (flushRounds c.auditJobId tenantId c.batchSize rounds n)
      (fun _ _ => True) fun _ _ => True := by
  induction rounds generalizing n with
  | zero => exact runs_pure fun _ _ _ => trivial
  | succ rounds ih =>
    have hpending : Runs perform R I (fun _ => True)
        (act (.pendingEvents tenantId c.batchSize))
        (fun (pending : List (PolicyEvent F T)) s => Batch pending s) fun _ _ => True := by
      refine runs_ask ⟨?_, ?_, ?_⟩
      · intro s r s' hI _ h
        exact (K.pending s r s' hI h).1
      · exact stable_ends (fun _ => K.batch_stable _) fun _ => stable_const
      · intro s r s' hI _ h
        cases r with
        | error e => trivial
        | ok pending => exact (K.pending s _ s' hI h).2 pending rfl
    refine hpending.bind fun pending => ?_
    cases pending.isEmpty with
    | true => exact runs_pure fun _ _ _ => trivial
    | false =>
      refine (K.dispatchAll pending n).bind fun dispatched => ?_
      by_cases hlast : (pending.length : ℤ) < c.batchSize
      · rw [if_pos hlast]
        exact runs_pure fun _ _ _ => trivial
      · rw [if_neg hlast]
        exact ih dispatched

omit [PyFloat F] in
/-- A flush keeps the invariant, and a report is the last word of the ledger. -/
theorem BatchRules.flush (K : BatchRules perform R tenantId c I Batch Sent Final) :
    Runs perform R I (fun _ => True) (flush tenantId c) (fun report s => report.isSome → Final s)
      fun _ _ => True := by
  rw [PolicyAudit.flush]
  by_cases hid : isBlank c.auditJobId = true
  · rw [if_pos hid]
    exact runs_throw fun _ _ _ => trivial
  rw [if_neg hid]
  by_cases hargs : isBlank tenantId = true ∨ c.batchSize < 1
  · rw [if_pos hargs]
    exact runs_throw fun _ _ _ => trivial
  rw [if_neg hargs]
  refine (K.flushRounds c.rounds 0).bind fun dispatched => ?_
  cases dispatched with
  | none => exact runs_pure fun _ _ _ => by simp
  | some dispatched =>
    have hverify : Runs perform R I (fun _ => True) (act .verify)
        (fun (receipt : VerificationReport F) s => receipt.ok = true → Final s)
        fun _ _ => True := by
      refine runs_ask ⟨?_, ?_, ?_⟩
      · intro s r s' hI _ h
        exact (K.verify s r s' hI h).1
      · exact stable_ends (fun _ => stable_imp fun _ => K.final_stable) fun _ => stable_const
      · intro s r s' hI _ h
        cases r with
        | error e => trivial
        | ok receipt => exact (K.verify s _ s' hI h).2 receipt rfl
    refine hverify.bind fun receipt => ?_
    cases hok : receipt.ok with
    | true => exact runs_pure fun _ _ hs _ => hs rfl
    | false => exact runs_throw fun _ _ _ => trivial

omit [PyFloat F] in
theorem stable_all {l : List (PolicyEvent F T)} {A : PolicyEvent F T → Audit F T → Prop}
    (h : ∀ event, Stable R I (A event)) : Stable R I fun s => ∀ event ∈ l, A event s :=
  fun s s' hI hs hA event hevent => h event s s' hI hs (hA event hevent)

omit [PyFloat F] in
theorem FlushRules.batch (K : FlushRules perform R tenantId c I Held Done Final) :
    BatchRules perform R tenantId c I (fun l s => ∀ event ∈ l, Held event s)
      (fun event l s => (Held event s ∧ Done event s) ∧ ∀ x ∈ l, Held x s) Final where
  batch_stable _ := stable_all K.held_stable
  sent_stable event _ :=
    ((K.held_stable event).and (K.done_stable event)).and (stable_all K.held_stable)
  final_stable := K.final_stable
  pending := K.pending
  append := by
    intro event l s r s' hI hheld h
    have hevent := hheld event List.mem_cons_self
    refine ⟨(K.append event s r s' hI hevent h).1, ?_⟩
    rintro e rfl
    refine ⟨⟨K.held_kept event s _ _ s' hI hevent h, (K.append event s _ s' hI hevent h).2 e rfl⟩, ?_⟩
    exact fun x hx => K.held_kept x s _ _ s' hI (hheld x (List.mem_cons_of_mem _ hx)) h
  mark := by
    intro event l s r s' hI hsent h
    refine ⟨K.mark event s r s' hI hsent.1.1 hsent.1.2 h, ?_⟩
    exact fun _ _ x hx => K.held_kept x s _ _ s' hI (hsent.2 x hx) h
  verify := K.verify

omit [PyFloat F] in
theorem FlushRules.flush (K : FlushRules perform R tenantId c I Held Done Final) :
    Runs perform R I (fun _ => True) (flush tenantId c) (fun report s => report.isSome → Final s)
      fun _ _ => True :=
  K.batch.flush

end Flush

/-! ## Every run -/

section Runs
variable [LinearOrder T] {H : AuditHost F T} {tenantId : PyStr} {s s' : Audit F T}

theorem performs_pendingEvents {limit : ℤ} {r : FlushReply F T (.pendingEvents tenantId limit)}
    (h : Performs H s (.pendingEvents tenantId limit) r s') :
    s' = s ∧ ∀ pending : List (PolicyEvent F T), r = .ok pending →
      pendingEvents tenantId limit s.db = .ok pending s.db := by
  obtain ⟨rfl, rfl⟩ := h
  have hsame := (readOnly_pendingEvents (F := F) (T := T) tenantId limit).leaves
    (R := fun db db' => db' = db) (fun _ => rfl) s.db
  rw [hsame]
  refine ⟨rfl, ?_⟩
  intro pending hpending
  cases hran : pendingEvents (F := F) tenantId limit s.db with
  | ok l db' =>
    rw [ran_ok hran] at hsame hpending
    cases hpending
    rw [show db' = s.db from hsame]
  | error e db' =>
    rw [ran_error hran] at hpending
    cases hpending

omit [LinearOrder T] in
/-- The payload of a row is a JSON object. -/
theorem jsonObject_of_row (hs : Linked H tenantId s) {event : PolicyEvent F T}
    (hrow : HasRow tenantId event s) : JsonObject event.payload := by
  obtain ⟨o, ho, _, hevent⟩ := hrow
  obtain ⟨members, hdurable, _, hfields⟩ := sendable_event (hs.sound.outbox o ho)
  rw [hfields, Option.some.injEq] at hevent
  subst hevent
  exact ⟨members, rfl, hdurable.finite, dedup_of_sorted _ hdurable.sorted⟩

/-- What an append that is carried out does for a row of the tenant. -/
inductive Handed (H : AuditHost F T) (s : Audit F T) (c : EventCall F) :
    FlushReply F T (.append c) → Audit F T → Prop where
  | refused (uuid t x) (fresh : FreshId H s.file uuid)
      (run : Ledger.append H.ledger s.file (c.args uuid (H.utcNow t)) = .error x) :
      Handed H s c (.error (.ledger x)) s
  | returned (uuid t es env file') (fresh : FreshId H s.file uuid)
      (readable : Readable H.ledger s.file es)
      (run : Ledger.append H.ledger s.file (c.args uuid (H.utcNow t)) = .ok (env, file'))
      (appends : Appends H.ledger s.file es (c.args uuid (H.utcNow t)) file') :
      Handed H s c (.ok env) { s with file := file' }

theorem performs_append (hs : Linked H tenantId s) {event : PolicyEvent F T}
    (hrow : HasRow tenantId event s) {auditJobId : PyStr}
    {r : FlushReply F T (.append (eventCall auditJobId tenantId event))}
    (h : Performs H s (.append (eventCall auditJobId tenantId event)) r s') :
    Handed H s (eventCall auditJobId tenantId event) r s' := by
  obtain ⟨uuid, t, hfresh, rfl, rfl⟩ := h
  cases happ : Ledger.append H.ledger s.file
      ((eventCall auditJobId tenantId event).args uuid (H.utcNow t)) with
  | error x =>
    rw [fileAfter_error happ]
    exact .refused uuid t x hfresh happ
  | ok q =>
    obtain ⟨env, file'⟩ := q
    have hfile : fileAfter H.ledger s.file
        ((eventCall auditJobId tenantId event).args uuid (H.utcNow t)) = file' := by
      rw [fileAfter, happ]
    rw [hfile]
    obtain ⟨es, hes⟩ := (grown_of_append happ).readable
    refine .returned uuid t es env file' hfresh hes happ ?_
    refine append_appends hes (jsonObject_of_row hs hrow) ?_ happ
    intro e he
    exact hfresh.2 es ((hs.noReturn.events).trans hes) e he

omit [LinearOrder T] in
theorem Linked.append (hs : Linked H tenantId s) {event : PolicyEvent F T}
    (hrow : HasRow tenantId event s) {auditJobId : PyStr}
    {r : FlushReply F T (.append (eventCall auditJobId tenantId event))}
    (h : Handed H s (eventCall auditJobId tenantId event) r s') : Linked H tenantId s' := by
  cases h with
  | refused uuid t x fresh run => exact hs
  | returned uuid t es env file' fresh readable run appends =>
    exact hs.grown hrow (grown_of_append run)

omit [LinearOrder T] in
/-- An append that returned has the event on record. -/
theorem hasEvent_of_appends {c : EventCall F} {uuid now : PyStr} {es : List (EventEnvelope F)}
    {file : PyBytes} (hes : Readable H.ledger s.file es)
    (h : Appends H.ledger s.file es (c.args uuid now) file) {es' : List (EventEnvelope F)}
    (hes' : Readable H.ledger file es') :
    ∃ e ∈ es', e.idempotencyKey = .str c.idempotencyKey := by
  cases h with
  | replayed recorded =>
    obtain ⟨e, he, hkey⟩ := recorded
    rw [hes'.det hes]
    exact ⟨e, he, isStr_eq_true.mp hkey⟩
  | written _ hash payload newKey whole texts lowered ended =>
    rw [hes'.det (ended_iff.mp ended).1]
    exact ⟨_, List.mem_append_right _ (List.mem_singleton_self _), rfl⟩
  | spoilt _ newKey notWhole unreadable => exact absurd hes' (unreadable es')

theorem Linked.step {o : FlushOp F} {r : FlushReply F T o} {c : FlushCall}
    (hs : Linked H tenantId s) (h : Performs H s o r s' ∨ Killed H s o r s')
    (happend : ∀ call, o = .append call →
      ∃ event, HasRow tenantId event s ∧ call = eventCall c.auditJobId tenantId event)
    (hmark : ∀ t eventId, o = .markDispatched t eventId →
      ∃ event : PolicyEvent F T, HasRow tenantId event s ∧ HasEvent H event s ∧ t = tenantId ∧
        eventId = event.eventId) : Linked H tenantId s' := by
  cases o with
  | pendingEvents t limit =>
    rcases h with hperforms | hkilled
    · rw [(performs_pendingEvents hperforms).1]
      exact hs
    · exact hkilled.elim
  | append call =>
    obtain ⟨event, hrow, rfl⟩ := happend call rfl
    rcases h with hperforms | ⟨_, uuid, t, file, _, hgrown, rfl⟩
    · exact hs.append hrow (performs_append hs hrow hperforms)
    · exact hs.grown hrow hgrown
  | markDispatched t eventId =>
    obtain ⟨event, hrow, hevent, rfl, rfl⟩ := hmark t eventId rfl
    rcases h with ⟨now, _, rfl⟩ | hkilled
    · rcases ran_markDispatched s.db t event.eventId now with hsame | hsame
      · rw [hsame]
        exact hs
      · rw [hsame]
        exact hs.mark hrow hevent now
    · exact hkilled.elim
  | verify =>
    rcases h with ⟨_, rfl⟩ | hkilled
    · exact hs
    · exact hkilled.elim

variable (H tenantId) in
/-- Any flush, among whatever the others do. -/
theorem runRules (c : FlushCall) :
    FlushRules (auditMachine H tenantId).perform (Interferes (auditMachine H tenantId)) tenantId c
      (Linked H tenantId) (HasRow tenantId) (HasEvent H) fun _ => True := by
  have hevolves : ∀ s s', Linked H tenantId s → Interferes (auditMachine H tenantId) s s' →
      Evolves H s s' := by
    rintro s s' hs (⟨o, r, h⟩ | ⟨o, ho, rfl⟩)
    · exact evolves_of_performs h
    · exact evolves_of_mutation (mutation_adds H.policy_digest ho hs.sound).2
  constructor
  · exact fun event s s' hs h hheld => (hevolves s s' hs h).hasRow hheld
  · exact fun event s s' hs h hdone => (hevolves s s' hs h).hasEvent hdone
  · exact stable_const
  · exact fun event s o r s' hs hheld h => (evolves_of_performs h).hasRow hheld
  · intro s r s' hs h
    refine ⟨hs.step (c := c) h (by simp) (by simp), ?_⟩
    intro pending hpending event hevent
    rcases h with hperforms | hkilled
    · obtain ⟨rfl, hok⟩ := performs_pendingEvents hperforms
      obtain ⟨o, ho, hwaits, hfields⟩ := pendingEvents_eq_ok (hok pending hpending) event hevent
      simp only [OutboxRow.isPending, Bool.and_eq_true, beq_iff_eq] at hwaits
      exact ⟨o, ho, hwaits.1, hfields⟩
    · exact hkilled.elim
  · intro event s r s' hs hheld h
    refine ⟨hs.step h (fun call hcall => ⟨event, hheld, by injection hcall with hcall; exact hcall.symm⟩)
      (by simp), ?_⟩
    intro e hr
    rcases h with hperforms | ⟨hkilled, _⟩
    · cases performs_append hs hheld hperforms with
      | refused uuid t x fresh run => cases hr
      | returned uuid t es env file' fresh readable run appends =>
        exact fun es' hes' => hasEvent_of_appends readable appends hes'
    · rw [hkilled] at hr
      cases hr
  · intro event s r s' hs hheld hdone h
    refine hs.step (c := c) h (by simp) ?_
    intro t eventId heq
    injection heq with htenant hid
    exact ⟨event, hheld, hdone, htenant.symm, hid.symm⟩
  · intro s r s' hs h
    exact ⟨hs.step (c := c) h (by simp) (by simp), fun _ _ _ => trivial⟩

/-- The invariant holds after every run. -/
theorem linked {sys : System (Audit F T) FlushCall (FlushOp F) (FlushReply F T)
      (Except (FlushError F) (Option PolicyFlushReport))}
    (h : Reaches (auditMachine H tenantId) Unguarded (System.idle Audit.initial) sys) :
    Linked H tenantId sys.state := by
  have hcalls : ∀ c, Program.Meets (auditMachine H tenantId).perform
      (Interferes (auditMachine H tenantId)) (Linked H tenantId)
      (ends (fun (report : Option PolicyFlushReport) _ => report.isSome → True)
        fun _ _ => True) ((auditMachine H tenantId).program c) fun _ => True :=
    fun c => (runRules H tenantId c).flush
  refine (sound hcalls stable_const ?_ (linked_initial H tenantId) trivial h).1.1
  rintro s s' hs ⟨o, ho, rfl⟩
  obtain ⟨hsound, hgrows⟩ := mutation_adds H.policy_digest ho hs.sound
  exact hs.mutation hsound hgrows

end Runs

end PolicyDelivery
