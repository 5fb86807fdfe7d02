import VeriMat.PolicyDelivery

/-! # A flush that nothing interrupts

From the state some run of the tenant's processes has left, a flush delivers every row exactly
when each waiting row can be delivered by it. -/
namespace PolicyFlush

open PyText JsonText PyValue AtomicProgram RelyGuarantee Transaction JsonWritable KeyedTable
open PolicyStore PolicyRefresh PolicyOutbox PolicyAudit PolicyDelivery LedgerGrowth LedgerAppend
open LedgerConcurrent LedgerChain EnvelopeRoundTrip DurablePayload
open PolicyCredit (Operation)
open Ledger (LedgerError LedgerIssue AppendArgs VerificationReport isStr)
open Events (EventEnvelope isHash replaceZ)

variable {F T : Type} [PyFloat F] [LinearOrder T] {H : AuditHost F T} {tenantId : PyStr}
  {c : FlushCall} {s s' : Audit F T}

/-! ## Rows and their events -/

omit [LinearOrder T] in
/-- The event of a row has the texts of the row. -/
theorem event_fields (hs : Linked H tenantId s) {o : OutboxRow T}
    (ho : o ∈ s.db.policyOutbox.rows) {event : PolicyEvent F T} (hevent : o.event = some event) :
    ∃ members : List (PyStr × Json F), DurableText F o.payload members ∧
      JsonText.loads o.payload = some (.obj members) ∧
      event = ⟨o.eventId, o.tenantId, o.eventType, o.aggregateType, o.aggregateId,
        ofJson (.obj members), o.idempotencyKey, o.createdAt⟩ := by
  obtain ⟨members, hdurable, hloads, hfields⟩ := sendable_event (hs.sound.outbox o ho)
  rw [hfields, Option.some.injEq] at hevent
  exact ⟨members, hdurable, hloads, hevent.symm⟩

omit [PyFloat F] [LinearOrder T] in
theorem tenantId_of_waits {o : OutboxRow T} (h : Waits tenantId s o) : o.tenantId = tenantId := by
  have hpending := h.2
  simp only [OutboxRow.isPending, Bool.and_eq_true, beq_iff_eq] at hpending
  exact hpending.1

omit [LinearOrder T] in
/-- A recorded event of a row under the flush's job id has the semantics of its append. -/
theorem sameSemantics_of_row (hs : Linked H tenantId s) {es : List (EventEnvelope F)}
    (hes : Readable H.ledger s.file es) {e : EventEnvelope F} (he : e ∈ es) {o : OutboxRow T}
    (ho : o ∈ s.db.policyOutbox.rows) (htenant : o.tenantId = tenantId)
    {event : PolicyEvent F T} (hevent : o.event = some event)
    (hkey : e.idempotencyKey = .str event.idempotencyKey) (auditJobId uuid now : PyStr) :
    SameSemantics e ((eventCall auditJobId tenantId event).args uuid now) ↔
      e.jobId = .str auditJobId := by
  obtain ⟨members, _, hloads, rfl⟩ := event_fields hs ho hevent
  have heo := hs.isEventOf hes he ho htenant hkey
  constructor
  · exact fun h => h.jobId
  · intro hjob
    obtain ⟨j, hj, hpayload⟩ := heo.payload
    rw [hloads, Option.some.injEq] at hj
    subst hj
    refine ⟨?_, hjob, heo.aggregateType, heo.aggregateId, heo.eventType, ?_⟩
    · rw [heo.tenantId, htenant]
      rfl
    · exact ⟨_, _, hpayload, rfl, rfl⟩

/-! ## Flushes that are stuck -/

/-- The ledger cannot be read, or some waiting row cannot be delivered. -/
def Stuck (H : AuditHost F T) (tenantId : PyStr) (c : FlushCall) (s : Audit F T) : Prop :=
  (∀ es : List (EventEnvelope F), ¬Readable H.ledger s.file es) ∨
    ∃ b, Waits tenantId s b ∧ ∀ es : List (EventEnvelope F), Readable H.ledger s.file es →
      ¬Deliverable c s es b

/-- The same, and the row is another one than the event's. -/
def StuckBehind (H : AuditHost F T) (tenantId : PyStr) (c : FlushCall) (event : PolicyEvent F T)
    (s : Audit F T) : Prop :=
  (∀ es : List (EventEnvelope F), ¬Readable H.ledger s.file es) ∨
    ∃ b, Waits tenantId s b ∧ b.eventId ≠ event.eventId ∧
      ∀ es : List (EventEnvelope F), Readable H.ledger s.file es → ¬Deliverable c s es b

omit [LinearOrder T] in
theorem StuckBehind.stuck {event : PolicyEvent F T} (h : StuckBehind H tenantId c event s) :
    Stuck H tenantId c s := by
  rcases h with hunreadable | ⟨b, hb, _, hnot⟩
  · exact .inl hunreadable
  · exact .inr ⟨b, hb, hnot⟩

omit [LinearOrder T] in
/-- An append that returns has not been for the row that cannot be delivered, and it still
cannot. -/
theorem stuckBehind_of_handed (hs : Linked H tenantId s) (hstuck : Stuck H tenantId c s)
    {event : PolicyEvent F T} (hrow : HasRow tenantId event s) {e : EventEnvelope F}
    (h : Handed H s (eventCall c.auditJobId tenantId event) (.ok e) s') :
    StuckBehind H tenantId c event s' := by
  cases h with
  | returned uuid t es env file' fresh readable run appends =>
    obtain ⟨b, hb, hnot⟩ := hstuck.resolve_left fun hunreadable => hunreadable es readable
    obtain ⟨o, ho, htenant, hevent⟩ := hrow
    obtain ⟨members, _, _, hfields⟩ := event_fields hs ho hevent
    have hrow_b : event.eventId = b.eventId → o = b := by
      intro hid
      rw [hfields] at hid
      exact row_of_eventId ho hb.1 hid
    cases appends with
    | replayed recorded =>
      refine .inr ⟨b, hb, ?_, hnot⟩
      intro hid
      have hsame := hrow_b hid.symm
      subst hsame
      obtain ⟨e', he', hkey⟩ := recorded
      have hkey' : e'.idempotencyKey = .str event.idempotencyKey := isStr_eq_true.mp hkey
      have hsemantics : SameSemantics e'
          ((eventCall c.auditJobId tenantId event).args uuid (H.utcNow t)) := by
        by_contra hne
        have hconflict := (append_answers readable (jsonObject_of_row hs
          ⟨o, ho, htenant, hevent⟩)).conflict e' he' hkey hne
        rw [hconflict.1] at run
        cases run
      refine hnot es readable (.inl ⟨e', he', ?_, hsemantics.jobId⟩)
      rw [hkey', hfields]
    | written _ hash payload newKey whole texts lowered ended =>
      have hne : b.eventId ≠ event.eventId := by
        intro hid
        have hsame := hrow_b hid.symm
        subst hsame
        refine hnot es readable (.inr ⟨?_, ?_, texts.2, whole⟩)
        · intro e' he' hkey
          refine newKey ⟨e', he', isStr_eq_true.mpr ?_⟩
          rw [hkey, hfields]
          rfl
        · have haggregate := texts.1
          rw [hfields] at haggregate
          exact haggregate
      refine .inr ⟨b, hb, hne, ?_⟩
      intro es' hes' hdeliverable
      obtain rfl := hes'.det (ended_iff.mp ended).1
      refine hnot es readable ?_
      rcases hdeliverable with ⟨e', he', hkey, hjob⟩ | ⟨hnone, haggregate, hencodes, _⟩
      · rcases List.mem_append.mp he' with he' | he'
        · exact .inl ⟨e', he', hkey, hjob⟩
        · -- the new event is of another row
          rw [List.mem_singleton.mp he'] at hkey
          have hkeys : event.idempotencyKey = b.idempotencyKey := by
            injection hkey
          rw [hfields] at hkeys
          have hsame := row_of_key ho hb.1 (htenant.trans (tenantId_of_waits hb).symm) hkeys
          refine absurd ?_ hne
          rw [hfields, ← hsame]
      · exact .inr ⟨fun e' he' => hnone e' (List.mem_append_left _ he'), haggregate, hencodes,
          whole⟩
    | spoilt _ newKey notWhole unreadable => exact .inl unreadable

omit [LinearOrder T] in
/-- The mark of another row leaves the one that cannot be delivered waiting. -/
theorem stuck_afterMark {event : PolicyEvent F T} (h : StuckBehind H tenantId c event s) (now : T) :
    Stuck H tenantId c { s with db := afterMark s.db tenantId event.eventId now } := by
  rcases h with hunreadable | ⟨b, hb, hne, hnot⟩
  · exact .inl hunreadable
  · refine .inr ⟨b, ⟨?_, hb.2⟩, hnot⟩
    rw [afterMark, Table.mem_update]
    refine ⟨b, hb.1, ?_⟩
    have hother : b.hasId tenantId event.eventId = false := by
      simp [OutboxRow.hasId, hne]
    rw [hother]
    rfl

theorem performs_mark {eventId : PyStr} {r : FlushReply F T (.markDispatched tenantId eventId)}
    (h : Performs H s (.markDispatched tenantId eventId) r s') :
    s' = s ∨ ∃ now, s' = { s with db := afterMark s.db tenantId eventId now } := by
  obtain ⟨now, _, rfl⟩ := h
  rcases ran_markDispatched s.db tenantId eventId now with hsame | hsame
  · left
    rw [hsame]
  · right
    rw [hsame]
    exact ⟨now, rfl⟩

theorem performs_verify {r : FlushReply F T .verify} (hs : Linked H tenantId s)
    (h : Performs H s .verify r s') : s' = s ∧ ∀ receipt : VerificationReport F, r = .ok receipt →
      receipt.ok = true → ∃ es : List (EventEnvelope F), Readable H.ledger s.file es := by
  obtain ⟨rfl, rfl⟩ := h
  refine ⟨rfl, ?_⟩
  intro receipt hr hok
  have hverify : Ledger.verify H.ledger s'.file = .ok receipt := by
    cases hv : Ledger.verify (F := F) H.ledger s'.file with
    | ok x =>
      rw [hv] at hr
      cases hr
      rfl
    | error x =>
      rw [hv] at hr
      cases hr
  obtain ⟨es, hes, _⟩ := verify_ok_iff.mp ⟨hverify, hok⟩
  exact ⟨es, (hs.noReturn.events).symm.trans hes⟩

variable (H tenantId c) in
/-- A flush that is stuck stays stuck. -/
theorem stuckRules :
    FlushRules (Performs H) Nobody tenantId c
      (fun s => Linked H tenantId s ∧ Stuck H tenantId c s) (HasRow tenantId)
      (fun event s => HasEvent H event s ∧ StuckBehind H tenantId c event s)
      fun s => ∃ es : List (EventEnvelope F), Readable H.ledger s.file es := by
  constructor
  · exact fun _ => stable_nobody
  · exact fun _ => stable_nobody
  · exact stable_nobody
  · exact fun event s o r s' _ hheld h => (evolves_of_performs (.inl h)).hasRow hheld
  · intro s r s' hs h
    obtain ⟨rfl, hok⟩ := performs_pendingEvents h
    exact ⟨hs, ((runRules H tenantId c).pending s' r s' hs.1 (.inl h)).2⟩
  · intro event s r s' hs hheld h
    have hhanded := performs_append hs.1 hheld h
    have hrules := (runRules H tenantId c).append event s r s' hs.1 hheld (.inl h)
    cases r with
    | error x =>
      cases hhanded with
      | refused uuid t x fresh run => exact ⟨hs, by simp⟩
    | ok e =>
      have hbehind := stuckBehind_of_handed hs.1 hs.2 hheld hhanded
      refine ⟨⟨hrules.1, hbehind.stuck⟩, ?_⟩
      intro e' _
      exact ⟨hrules.2 e rfl, hbehind⟩
  · intro event s r s' hs hheld hdone h
    refine ⟨(runRules H tenantId c).mark event s r s' hs.1 hheld hdone.1 (.inl h), ?_⟩
    rcases performs_mark h with rfl | ⟨now, rfl⟩
    · exact hs.2
    · exact stuck_afterMark hdone.2 now
  · intro s r s' hs h
    obtain ⟨rfl, hreport⟩ := performs_verify hs.1 h
    exact ⟨hs, hreport⟩

/-! ## Flushes that flow -/

/-- The ledger can be read and every waiting row can be delivered. -/
def Flowing (H : AuditHost F T) (tenantId : PyStr) (c : FlushCall) (s : Audit F T) : Prop :=
  Linked H tenantId s ∧ ∃ es : List (EventEnvelope F), Readable H.ledger s.file es ∧
    ∀ o, Waits tenantId s o → Deliverable c s es o

omit [LinearOrder T] in
/-- The append of a waiting row is let through. -/
theorem append_of_deliverable (hs : Linked H tenantId s) (hc : Accepted tenantId c)
    {es : List (EventEnvelope F)} (hes : Readable H.ledger s.file es) {o : OutboxRow T}
    (ho : Waits tenantId s o) (hdeliverable : Deliverable c s es o) {event : PolicyEvent F T}
    (hevent : o.event = some event) {uuid : PyStr} (hfresh : FreshId H s.file uuid) (t : T) :
    ∃ env file', Ledger.append H.ledger s.file
      ((eventCall c.auditJobId tenantId event).args uuid (H.utcNow t)) = .ok (env, file') := by
  have htenant := tenantId_of_waits ho
  have hobj := jsonObject_of_row hs ⟨o, ho.1, htenant, hevent⟩
  obtain ⟨members, hdurable, _, hfields⟩ := event_fields hs ho.1 hevent
  rcases hdeliverable with ⟨e, he, hkey, hjob⟩ | ⟨hnone, haggregate, hencodes, _⟩
  · have hkey' : e.idempotencyKey = .str event.idempotencyKey := by
      rw [hkey, hfields]
    have hsame := (sameSemantics_of_row hs hes he ho.1 htenant hevent hkey' c.auditJobId uuid
      (H.utcNow t)).mpr hjob
    exact ⟨e, s.file, (append_answers hes hobj).replay e he (isStr_eq_true.mpr hkey') hsame⟩
  · have hsendable := hs.sound.outbox o ho.1
    have hnewKey : ¬KeyRecorded es
        ((eventCall c.auditJobId tenantId event).args uuid (H.utcNow t)) := by
      rintro ⟨e, he, hkey⟩
      refine hnone e he ?_
      rw [isStr_eq_true.mp hkey, hfields]
      rfl
    have hadmissible : Admissible H.ledger
        ((eventCall c.auditJobId tenantId event).args uuid (H.utcNow t)) := by
      refine ⟨?_, ?_, ?_, ?_⟩
      · rw [hfields]
        simp only [AppendArgs.texts, List.forall_mem_cons, List.not_mem_nil, false_implies,
          implies_true, and_true]
        exact ⟨hfresh.1, H.utcNow_label t, hc.tenantId, ⟨hc.auditJobId, hencodes⟩,
          hsendable.aggregateType, ⟨haggregate, hsendable.aggregateId⟩, hsendable.eventType,
          hsendable.idempotencyKey⟩
      · have hdate := H.utcNow_date t
        simp only [EventCall.args, Events.orElse, Events.checkOccurredAt, hdate]
      · rw [hfields]
        exact (validateDurablePayload_ofJson hdurable.finite).mpr hdurable.names
      · rw [hfields]
        refine ⟨.obj members, ?_, hdurable.render ▸ hdurable.encodes⟩
        have hlower := lower_ofJson _ hdurable.finite
        rw [sortNames_of_sorted _ hdurable.sorted] at hlower
        exact hlower
    exact hadmissible.accepts H.ledger_digest hes hnewKey rfl

omit [LinearOrder T] in
/-- Behind such an append the other rows can still be delivered. -/
theorem flowing_of_appends (hflows : Flowing H tenantId c s) {o : OutboxRow T}
    (ho : Waits tenantId s o) {event : PolicyEvent F T} (hevent : o.event = some event)
    {uuid now : PyStr} {es : List (EventEnvelope F)} {file' : PyBytes}
    (hlinked : Linked H tenantId { s with file := file' })
    (hes : Readable H.ledger s.file es)
    (h : Appends H.ledger s.file es ((eventCall c.auditJobId tenantId event).args uuid now) file') :
    Flowing H tenantId c { s with file := file' } := by
  obtain ⟨hs, es₁, hes₁, hdeliverable⟩ := hflows
  obtain rfl := hes₁.det hes
  obtain ⟨members, _, _, hfields⟩ := event_fields hs ho.1 hevent
  cases h with
  | replayed recorded => exact ⟨hlinked, es₁, hes, hdeliverable⟩
  | written _ hash payload newKey whole texts lowered ended =>
    obtain ⟨hread, hwhole⟩ := ended_iff.mp ended
    refine ⟨hlinked, _, hread, ?_⟩
    intro o' ho'
    by_cases hsame : o'.idempotencyKey = o.idempotencyKey
    · -- the row whose event has been written
      left
      refine ⟨_, List.mem_append_right _ (List.mem_singleton_self _), ?_, rfl⟩
      rw [hsame, hfields]
      rfl
    · rcases hdeliverable o' ho' with ⟨e, he, hkey, hjob⟩ | ⟨hnone, haggregate, hencodes, _⟩
      · exact .inl ⟨e, List.mem_append_left _ he, hkey, hjob⟩
      · refine .inr ⟨?_, haggregate, hencodes, hwhole⟩
        intro e he
        rcases List.mem_append.mp he with he | he
        · exact hnone e he
        · rw [List.mem_singleton.mp he, hfields]
          intro hkey
          apply hsame
          injection hkey with hkey
          exact hkey.symm
  | spoilt _ newKey notWhole unreadable =>
    rcases hdeliverable o ho with ⟨e, he, hkey, _⟩ | ⟨_, _, _, hwhole⟩
    · refine absurd ⟨e, he, isStr_eq_true.mpr ?_⟩ newKey
      rw [hkey, hfields]
      rfl
    · exact absurd hwhole notWhole

/-! ### The rows that are left -/

/-- These events are of rows that wait, and at most so many others wait. -/
structure Queue (tenantId : PyStr) (l : List (PolicyEvent F T)) (m : ℕ) (s : Audit F T) : Prop where
  waits : ∀ event ∈ l, ∃ o, Waits tenantId s o ∧ o.event = some event
  distinct : (l.map (·.eventId)).Nodup
  bound : waiting tenantId s ≤ m + l.length

omit [PyFloat F] [LinearOrder T] in
theorem countP_map_lt {α : Type} {p : α → Bool} {f : α → α} {l : List α}
    (hf : ∀ x ∈ l, p (f x) = true → p x = true) {a : α} (ha : a ∈ l) (hpa : p a = true)
    (hfa : p (f a) = false) : (l.map f).countP p < l.countP p := by
  rw [List.countP_map]
  induction l with
  | nil => cases ha
  | cons x l ih =>
    obtain ⟨hx, hl⟩ := List.forall_mem_cons.mp hf
    have hmono : l.countP (p ∘ f) ≤ l.countP p := List.countP_mono_left hl
    rcases List.mem_cons.mp ha with rfl | ha
    · rw [List.countP_cons_of_neg (by simp [hfa]), List.countP_cons_of_pos hpa]
      omega
    · have hrest := ih hl ha
      by_cases hpx : p (f x) = true
      · rw [List.countP_cons_of_pos (by simpa using hpx), List.countP_cons_of_pos (hx hpx)]
        omega
      · rw [List.countP_cons_of_neg (by simpa using hpx), List.countP_cons]
        omega

omit [LinearOrder T] in
/-- The mark of a waiting row: it waits no more. -/
theorem Queue.mark {event : PolicyEvent F T} {l : List (PolicyEvent F T)} {m : ℕ}
    (h : Queue tenantId (event :: l) m s) (hs : Linked H tenantId s) (now : T) :
    Queue tenantId l m { s with db := afterMark s.db tenantId event.eventId now } := by
  obtain ⟨o, ho, hevent⟩ := h.waits event List.mem_cons_self
  obtain ⟨members, _, _, hfields⟩ := event_fields hs ho.1 hevent
  obtain ⟨hnew, hdistinct⟩ := List.nodup_cons.mp h.distinct
  have hid : o.hasId tenantId event.eventId = true := by
    simp [OutboxRow.hasId, tenantId_of_waits ho, hfields]
  refine ⟨?_, hdistinct, ?_⟩
  · intro event' hevent'
    obtain ⟨o', ho', hfields'⟩ := h.waits event' (List.mem_cons_of_mem _ hevent')
    refine ⟨o', ⟨?_, ho'.2⟩, hfields'⟩
    rw [afterMark, Table.mem_update]
    refine ⟨o', ho'.1, ?_⟩
    have hother : o'.hasId tenantId event.eventId = false := by
      obtain ⟨_, _, _, hevent'_fields⟩ := event_fields hs ho'.1 hfields'
      have hne : event'.eventId ≠ event.eventId := by
        intro heq
        exact hnew (List.mem_map.mpr ⟨event', hevent', heq⟩)
      rw [hevent'_fields] at hne
      simp [OutboxRow.hasId, hne]
    rw [hother]
    rfl
  · have hlt : waiting tenantId { s with db := afterMark s.db tenantId event.eventId now } <
        waiting tenantId s := by
      rw [waiting, waiting, afterMark, Table.update]
      apply countP_map_lt _ ho.1 ho.2
      · rw [if_pos hid]
        simp [OutboxRow.isPending, OutboxRow.dispatched]
      · intro x _ hx
        by_cases hidx : x.hasId tenantId event.eventId = true
        · rw [if_pos hidx] at hx
          simp [OutboxRow.isPending, OutboxRow.dispatched] at hx
        · rwa [if_neg hidx] at hx
    have hbound := h.bound
    rw [List.length_cons] at hbound
    omega

/-! ### What is handed out -/

omit [PyFloat F] [LinearOrder T] in
theorem mapM_orRaise_ok {α β : Type} {f : α → Option β} {e : PolicyError} {l : List α}
    (h : ∀ a ∈ l, ∃ b, f a = some b) (db : PolicyDatabase F T) :
    ∃ l' : List β, (l.mapM fun a => orRaise (f a) e : PolicyDb F T (List β)) db = .ok l' db ∧
      List.Forall₂ (fun a b => f a = some b) l l' := by
  induction l with
  | nil => exact ⟨[], rfl, .nil⟩
  | cons a l ih =>
    obtain ⟨⟨b, hb⟩, hl⟩ := List.forall_mem_cons.mp h
    obtain ⟨bs, hbs, hall⟩ := ih hl
    refine ⟨b :: bs, ?_, .cons hb hall⟩
    rw [List.mapM_cons]
    exact bind_eq_ok.mpr ⟨b, db, orRaise_eq_ok.mpr ⟨hb, rfl⟩, bind_eq_ok.mpr
      ⟨bs, db, hbs, pure_eq_ok.mpr ⟨rfl, rfl⟩⟩⟩

/-- A batch: as many of the waiting rows as fit, in their order. -/
theorem pendingEvents_ok (hs : Linked H tenantId s) (hc : Accepted tenantId c) :
    ∃ l, pendingEvents (F := F) tenantId c.batchSize s.db = .ok l s.db ∧
      List.Forall₂ (fun o event => OutboxRow.event o = some event)
        ((s.db.pending tenantId).take c.batchSize.toNat) l := by
  have hrows : ∀ o ∈ (s.db.pending tenantId).take c.batchSize.toNat,
      ∃ event : PolicyEvent F T, o.event = some event := by
    intro o ho
    obtain ⟨hrow, _⟩ := mem_pending.mp (List.mem_of_mem_take ho)
    obtain ⟨members, _, _, hfields⟩ := sendable_event (hs.sound.outbox o hrow)
    exact ⟨_, hfields⟩
  obtain ⟨l, hl, hall⟩ := mapM_orRaise_ok (e := .jsonDecodeError) hrows s.db
  refine ⟨l, ?_, hall⟩
  have hpos := hc.batch_pos
  have hle := hc.batch_le
  rw [pendingEvents, if_neg (by omega)]
  refine bind_eq_ok.mpr ⟨(), s.db, bindText_eq_ok.mpr ⟨hc.tenantId.2, rfl⟩, ?_⟩
  refine bind_eq_ok.mpr ⟨(), s.db, raiseIf_eq_ok.mpr ⟨by omega, rfl⟩, ?_⟩
  exact bind_eq_ok.mpr ⟨s.db, s.db, rfl, hl⟩

omit [PyFloat F] in
theorem length_pending (db : PolicyDatabase F T) :
    (db.pending tenantId).length = db.policyOutbox.rows.countP (OutboxRow.isPending tenantId) := by
  rw [PolicyDatabase.pending, List.length_insertionSort, List.countP_eq_length_filter]

omit [PyFloat F] in
theorem nodup_pending (db : PolicyDatabase F T) (n : ℕ) :
    (((db.pending tenantId).take n).map (·.eventId)).Nodup := by
  have hpending : ((db.pending tenantId).map (·.eventId)).Nodup := by
    have hperm := (List.perm_insertionSort outboxOrder
      (db.policyOutbox.rows.filter (OutboxRow.isPending tenantId))).map (·.eventId)
    refine hperm.nodup_iff.mpr (List.pairwise_map.mpr ?_)
    apply (db.policyOutbox.distinct.filter _).imp
    intro a b hab heq
    exact hab (Or.inl heq)
  rw [List.map_take]
  exact hpending.sublist (List.take_sublist _ _)

/-- The batch handed out: all that waits when it is not full. -/
theorem queue_of_pendingEvents (hs : Linked H tenantId s) (hc : Accepted tenantId c)
    {l : List (PolicyEvent F T)}
    (h : pendingEvents tenantId c.batchSize s.db = .ok l s.db) (m : ℕ)
    (hm : (l.length : ℤ) < c.batchSize ∨ waiting tenantId s ≤ m + l.length) :
    Queue tenantId l m s := by
  obtain ⟨l', hl', hall⟩ := pendingEvents_ok hs hc
  rw [h, EStateM.Result.ok.injEq] at hl'
  obtain ⟨rfl, _⟩ := hl'
  refine ⟨?_, ?_, ?_⟩
  · intro event hevent
    obtain ⟨o, ho, hfields⟩ := exists_left hall hevent
    exact ⟨o, mem_pending.mp (List.mem_of_mem_take ho), hfields⟩
  · have hids : ∀ {rows : List (OutboxRow T)} {events : List (PolicyEvent F T)},
        List.Forall₂ (fun o event => OutboxRow.event o = some event) rows events →
          (∀ o ∈ rows, o ∈ s.db.policyOutbox.rows) →
            events.map (·.eventId) = rows.map (·.eventId) := by
      intro rows events hevents
      induction hevents with
      | nil => exact fun _ => rfl
      | cons hevent _ ih =>
        intro hmem
        obtain ⟨ho, hmem⟩ := List.forall_mem_cons.mp hmem
        obtain ⟨_, _, _, hfields⟩ := event_fields hs ho hevent
        rw [List.map_cons, List.map_cons, ih hmem, hfields]
    rw [hids hall fun o ho => (mem_pending.mp (List.mem_of_mem_take ho)).1]
    exact nodup_pending s.db _
  · rcases hm with hlt | hle
    · have hlength := hall.length_eq
      rw [List.length_take, length_pending] at hlength
      rw [waiting]
      omega
    · exact hle

/-! ### The loops -/

omit [LinearOrder T] in
theorem markDispatched_ok (hs : Linked H tenantId s) (hc : Accepted tenantId c) {o : OutboxRow T}
    (ho : Waits tenantId s o) {event : PolicyEvent F T} (hevent : o.event = some event) (now : T) :
    markDispatched tenantId event.eventId now s.db =
      .ok () (afterMark s.db tenantId event.eventId now) := by
  obtain ⟨members, _, _, hfields⟩ := event_fields hs ho.1 hevent
  have hencodes : (encode event.eventId).isSome = true := by
    rw [hfields]
    exact (hs.sound.outbox o ho.1).eventId
  have hfound : ¬(s.db.policyOutbox.find (OutboxRow.hasId tenantId event.eventId)).isNone = true := by
    intro hnone
    rw [Option.isNone_iff_eq_none, Table.find_eq_none] at hnone
    have hid : o.hasId tenantId event.eventId = true := by
      simp [OutboxRow.hasId, tenantId_of_waits ho, hfields]
    rw [hnone o ho.1] at hid
    cases hid
  refine bind_eq_ok.mpr ⟨(), s.db, bindText_eq_ok.mpr ⟨hc.tenantId.2, rfl⟩, ?_⟩
  refine bind_eq_ok.mpr ⟨(), s.db, bindText_eq_ok.mpr ⟨hencodes, rfl⟩, ?_⟩
  refine bind_eq_ok.mpr ⟨s.db, s.db, rfl, ?_⟩
  refine bind_eq_ok.mpr ⟨PUnit.unit, afterMark s.db tenantId event.eventId now, rfl, ?_⟩
  exact raiseIf_eq_ok.mpr ⟨hfound, rfl⟩

/-- The event of a waiting row is recorded. -/
theorem runs_append (hc : Accepted tenantId c) (event : PolicyEvent F T)
    (l : List (PolicyEvent F T)) (m : ℕ) :
    Runs (Performs H) Nobody (Flowing H tenantId c) (Queue tenantId (event :: l) m)
      (act (.append (eventCall c.auditJobId tenantId event)))
      (fun _ s => Queue tenantId (event :: l) m s ∧ HasEvent H event s) fun _ _ => False := by
  have hstep : ∀ s r s', Flowing H tenantId c s → Queue tenantId (event :: l) m s →
      Performs H s (.append (eventCall c.auditJobId tenantId event)) r s' →
        Flowing H tenantId c s' ∧
          ends (fun _ s => Queue tenantId (event :: l) m s ∧ HasEvent H event s)
            (fun _ _ => False) r s' := by
    intro s r s' hflows hqueue h
    obtain ⟨o, ho, hevent⟩ := hqueue.waits event List.mem_cons_self
    have hrow : HasRow tenantId event s := ⟨o, ho.1, tenantId_of_waits ho, hevent⟩
    obtain ⟨hs, es₁, hes₁, hdeliverable⟩ := id hflows
    cases performs_append hs hrow h with
    | refused uuid t x fresh run =>
      obtain ⟨env, file', hok⟩ :=
        append_of_deliverable hs hc hes₁ ho (hdeliverable o ho) hevent fresh t
      rw [hok] at run
      cases run
    | returned uuid t es env file' fresh readable run appends =>
      have hlinked := hs.grown hrow (grown_of_append run)
      refine ⟨flowing_of_appends hflows ho hevent hlinked readable appends, ⟨?_, ?_⟩⟩
      · exact ⟨hqueue.waits, hqueue.distinct, hqueue.bound⟩
      · exact fun es' hes' => hasEvent_of_appends readable appends hes'
  refine runs_ask ⟨?_, fun _ => stable_nobody, ?_⟩
  · exact fun s r s' hI hA h => (hstep s r s' hI hA h).1
  · exact fun s r s' hI hA h => (hstep s r s' hI hA h).2

/-- A recorded row is marked, and the others are left. -/
theorem runs_mark (hc : Accepted tenantId c) (event : PolicyEvent F T)
    (l : List (PolicyEvent F T)) (m : ℕ) :
    Runs (Performs H) Nobody (Flowing H tenantId c)
      (fun s => Queue tenantId (event :: l) m s ∧ HasEvent H event s)
      (act (.markDispatched tenantId event.eventId)) (fun _ => Queue tenantId l m)
      fun _ _ => False := by
  have hstep : ∀ s r s', Flowing H tenantId c s →
      Queue tenantId (event :: l) m s ∧ HasEvent H event s →
      Performs H s (.markDispatched tenantId event.eventId) r s' →
        Flowing H tenantId c s' ∧ ends (fun _ => Queue tenantId l m) (fun _ _ => False) r s' := by
    rintro s r s' ⟨hs, es, hes, hdeliverable⟩ ⟨hqueue, hrecorded⟩ ⟨now, rfl, rfl⟩
    obtain ⟨o, ho, hevent⟩ := hqueue.waits event List.mem_cons_self
    have hrow : HasRow tenantId event s := ⟨o, ho.1, tenantId_of_waits ho, hevent⟩
    rw [ran_ok (markDispatched_ok hs hc ho hevent now)]
    refine ⟨⟨hs.mark hrow hrecorded now, es, hes, ?_⟩, hqueue.mark hs now⟩
    rintro o' ⟨ho', hwaits⟩
    rw [afterMark, Table.mem_update] at ho'
    obtain ⟨o₁, ho₁, rfl⟩ := ho'
    by_cases hid : o₁.hasId tenantId event.eventId = true
    · rw [if_pos hid] at hwaits
      simp [OutboxRow.isPending, OutboxRow.dispatched] at hwaits
    · rw [if_neg hid] at hwaits ⊢
      exact hdeliverable o₁ ⟨ho₁, hwaits⟩
  refine runs_ask ⟨?_, fun _ => stable_nobody, ?_⟩
  · exact fun s r s' hI hA h => (hstep s r s' hI hA h).1
  · exact fun s r s' hI hA h => (hstep s r s' hI hA h).2

theorem runs_dispatchAll (hc : Accepted tenantId c) (l : List (PolicyEvent F T)) (m n : ℕ) :
    Runs (Performs H) Nobody (Flowing H tenantId c) (Queue tenantId l m)
      (dispatchAll c.auditJobId tenantId l n) (fun _ s => waiting tenantId s ≤ m)
      fun _ _ => False := by
  induction l generalizing n with
  | nil => exact runs_pure fun s _ hqueue => hqueue.bound
  | cons event l ih =>
    exact (runs_append hc event l m).bind fun _ => (runs_mark hc event l m).bind fun _ => ih (n + 1)

/-- The others that may wait behind a batch, by the rounds that are left. -/
def remaining (c : FlushCall) (l : List (PolicyEvent F T)) (rounds : ℕ) : ℕ :=
  if (l.length : ℤ) < c.batchSize then 0 else rounds - 1

theorem runs_pendingEvents (hc : Accepted tenantId c) (rounds : ℕ) :
    Runs (Performs H) Nobody (Flowing H tenantId c) (fun s => waiting tenantId s < rounds + 1)
      (act (.pendingEvents tenantId c.batchSize))
      (fun (l : List (PolicyEvent F T)) s => Queue tenantId l (remaining c l rounds) s ∧
        (c.batchSize ≤ l.length → 1 ≤ rounds))
      fun _ _ => False := by
  refine runs_ask ⟨?_, fun _ => stable_nobody, ?_⟩
  · intro s r s' hI _ h
    rw [(performs_pendingEvents h).1]
    exact hI
  · rintro s r s' ⟨hs, _⟩ hlt ⟨rfl, rfl⟩
    obtain ⟨l, hl, hall⟩ := pendingEvents_ok hs hc
    rw [ran_ok hl]
    have hlength := hall.length_eq
    rw [List.length_take, length_pending] at hlength
    have hpos := hc.batch_pos
    have hbound : (l.length : ℤ) < c.batchSize ∨
        waiting tenantId s ≤ remaining c l rounds + l.length := by
      by_cases hlast : (l.length : ℤ) < c.batchSize
      · exact .inl hlast
      · right
        rw [remaining, if_neg hlast]
        omega
    refine ⟨queue_of_pendingEvents hs hc hl _ hbound, ?_⟩
    intro hfull
    rw [waiting] at hlt
    omega

theorem runs_flushRounds (hc : Accepted tenantId c) (rounds n : ℕ) :
    Runs (Performs H) Nobody (Flowing H tenantId c) (fun s => waiting tenantId s < rounds)
      (flushRounds c.auditJobId tenantId c.batchSize rounds n)
      (fun dispatched s => dispatched.isSome = true ∧ waiting tenantId s = 0)
      fun _ _ => False := by
  induction rounds generalizing n with
  | zero => exact Program.Meets.unreachable fun s _ h => absurd h (Nat.not_lt_zero _)
  | succ rounds ih =>
    refine (runs_pendingEvents hc rounds).bind fun l => Runs.given fun hrounds => ?_
    have hpos := hc.batch_pos
    cases hempty : l.isEmpty with
    | true =>
      refine runs_pure fun s _ hqueue => ⟨rfl, ?_⟩
      have hnil : l = [] := List.isEmpty_iff.mp hempty
      have hbound := hqueue.bound
      have hzero : ((0 : ℕ) : ℤ) < c.batchSize := by omega
      rw [hnil, remaining, List.length_nil, if_pos hzero] at hbound
      omega
    | false =>
      by_cases hlast : (l.length : ℤ) < c.batchSize
      · have hrest := runs_dispatchAll (H := H) hc l 0 n
        rw [remaining, if_pos hlast]
        refine hrest.bind fun dispatched => ?_
        rw [if_pos hlast]
        exact runs_pure fun s _ hwaiting => ⟨rfl, by omega⟩
      · have hrest := runs_dispatchAll (H := H) hc l (rounds - 1) n
        rw [remaining, if_neg hlast]
        refine hrest.bind fun dispatched => ?_
        rw [if_neg hlast]
        refine (ih dispatched).strengthen fun s _ hwaiting => ?_
        have hone := hrounds (by omega)
        omega

/-- A flush that flows ends with a report, and nothing waits. -/
theorem runs_flush (hc : Accepted tenantId c) :
    Runs (Performs H) Nobody (Flowing H tenantId c) (fun s => waiting tenantId s < c.rounds)
      (flush tenantId c)
      (fun report s => report.isSome = true ∧ waiting tenantId s = 0) fun _ _ => False := by
  have hpos := hc.batch_pos
  have hargs : ¬(isBlank tenantId = true ∨ c.batchSize < 1) := by
    rintro (hblank | hlt)
    · rw [hc.tenantId.1] at hblank
      cases hblank
    · omega
  rw [flush, if_neg (by rw [hc.auditJobId]; simp), if_neg hargs]
  refine (runs_flushRounds hc c.rounds 0).bind fun dispatched => ?_
  cases dispatched with
  | none => exact Program.Meets.unreachable fun s _ h => by simp at h
  | some dispatched =>
    have hverify : Runs (Performs H) Nobody (Flowing H tenantId c)
        (fun s => (some dispatched).isSome = true ∧ waiting tenantId s = 0) (act .verify)
        (fun (receipt : VerificationReport F) s => receipt.ok = true ∧ waiting tenantId s = 0)
        fun _ _ => False := by
      refine runs_ask ⟨?_, fun _ => stable_nobody, ?_⟩
      · rintro s r s' hI _ ⟨_, rfl⟩
        exact hI
      · rintro s r s' ⟨hs, es, hes, _⟩ hA ⟨rfl, rfl⟩
        have hevents : Ledger.events H.ledger s'.file = .ok es := hs.noReturn.events.trans hes
        rw [Ledger.verify, hevents]
        exact ⟨rfl, hA.2⟩
    refine hverify.bind fun receipt => ?_
    cases hok : receipt.ok with
    | true => exact runs_pure fun _ _ h => ⟨rfl, h.2⟩
    | false => exact Program.Meets.unreachable fun s _ h => by simp at h

/-! ## Flushes that are refused -/

theorem pendingEvents_raises (hbatch : ¬c.batchSize < 1)
    (h : ¬((encode tenantId).isSome = true ∧ c.batchSize ≤ 9223372036854775807))
    (db : PolicyDatabase F T) (l : List (PolicyEvent F T)) (db' : PolicyDatabase F T) :
    pendingEvents tenantId c.batchSize db ≠ .ok l db' := by
  intro hok
  rw [pendingEvents, if_neg hbatch] at hok
  obtain ⟨_, _, hbound, hok⟩ := bind_eq_ok.mp hok
  obtain ⟨_, _, hlimit, _⟩ := bind_eq_ok.mp hok
  exact h ⟨(bindText_eq_ok.mp hbound).1, (not_not.mp (raiseIf_eq_ok.mp hlimit).1).2⟩

/-- Without valid arguments there is no report. -/
theorem runs_refused (h : ¬Accepted tenantId c) :
    Runs (Performs H) Nobody (fun _ => True) (fun _ => True) (flush tenantId c)
      (fun report _ => report = none) fun _ _ => True := by
  rw [flush]
  by_cases hid : isBlank c.auditJobId = true
  · rw [if_pos hid]
    exact runs_throw fun _ _ _ => trivial
  rw [if_neg hid]
  by_cases hargs : isBlank tenantId = true ∨ c.batchSize < 1
  · rw [if_pos hargs]
    exact runs_throw fun _ _ _ => trivial
  rw [if_neg hargs]
  obtain ⟨htenant, hbatch⟩ := not_or.mp hargs
  have hraises : ¬((encode tenantId).isSome = true ∧ c.batchSize ≤ 9223372036854775807) := by
    rintro ⟨hbound, hle⟩
    rw [Bool.not_eq_true] at hid htenant
    exact h ⟨hid, ⟨htenant, hbound⟩, by omega, hle⟩
  have hrounds : ∀ rounds n, Runs (Performs H) Nobody (fun _ => True) (fun _ => True)
      (flushRounds c.auditJobId tenantId c.batchSize rounds n) (fun dispatched _ => dispatched = none)
      fun _ _ => True := by
    intro rounds n
    cases rounds with
    | zero => exact runs_pure fun _ _ _ => rfl
    | succ rounds =>
      have hpending : Runs (Performs H) Nobody (fun _ => True) (fun _ => True)
          (act (.pendingEvents tenantId c.batchSize)) (fun _ _ => False) fun _ _ => True := by
        refine runs_ask ⟨fun _ _ _ _ _ _ => trivial, fun _ => stable_nobody, ?_⟩
        intro s r s' _ _ hperforms
        cases r with
        | error e => trivial
        | ok l =>
          exact pendingEvents_raises hbatch hraises _ _ _ ((performs_pendingEvents hperforms).2 l rfl)
      exact hpending.bind fun l => Program.Meets.unreachable fun _ _ hfalse => hfalse
  refine (hrounds c.rounds 0).bind fun dispatched => ?_
  cases dispatched with
  | none => exact runs_pure fun _ _ _ => rfl
  | some dispatched => exact Program.Meets.unreachable fun _ _ h => by cases h

/-! ## Every operation can be carried out -/

omit [LinearOrder T] in
/-- There is always another id. -/
theorem exists_freshId (H : AuditHost F T) (file : PyBytes) : ∃ uuid, FreshId H file uuid := by
  have hlabel : ∀ n, Label (List.replicate (n + 1) 97) := by
    intro n
    refine ⟨by simp [isBlank, isSpace, List.replicate_succ], encode_ascii ?_⟩
    intro d hd
    rw [List.eq_of_mem_replicate hd]
    decide
  cases hevents : Ledger.events (F := F) H.ledger file with
  | error x => exact ⟨_, hlabel 0, by simp [hevents]⟩
  | ok es =>
    have hinjective : Function.Injective fun n => (.str (List.replicate (n + 1) 97) : PyVal F) := by
      intro m n h
      injection h with h
      have hlength := congrArg List.length h
      simpa using hlength
    obtain ⟨v, ⟨n, rfl⟩, hv⟩ := (Set.infinite_range_of_injective hinjective).exists_notMem_finite
      (List.finite_toSet (es.map (·.eventId)))
    refine ⟨_, hlabel n, ?_⟩
    intro es' hes' e he heq
    rw [hevents, Except.ok.injEq] at hes'
    subst hes'
    exact hv (List.mem_map.mpr ⟨e, he, heq⟩)

theorem exists_performs [Nonempty T] (H : AuditHost F T) (s : Audit F T) (o : FlushOp F) :
    ∃ r s', Performs H s o r s' := by
  obtain ⟨t⟩ := ‹Nonempty T›
  cases o with
  | pendingEvents tenantId limit => exact ⟨_, _, rfl, rfl⟩
  | append call =>
    obtain ⟨uuid, hfresh⟩ := exists_freshId H s.file
    exact ⟨_, _, uuid, t, hfresh, rfl, rfl⟩
  | markDispatched tenantId eventId => exact ⟨_, _, t, rfl, rfl⟩
  | verify => exact ⟨_, _, rfl, rfl⟩

/-! ## Delivery -/

omit [LinearOrder T] in
/-- Where nothing waits and the ledger can be read, everything is delivered. -/
theorem delivered_of_flowing (hflows : Flowing H tenantId c s) (h : waiting tenantId s = 0) :
    Delivered H tenantId s := by
  obtain ⟨hs, es, hes, _⟩ := hflows
  have hnothing : ∀ o, ¬Waits tenantId s o := by
    rintro o ⟨ho, hwaits⟩
    rw [waiting, List.countP_eq_zero] at h
    exact h o ho hwaits
  refine ⟨hnothing, es, hs.noReturn.events.trans hes, ?_, hs.ofRow es hes⟩
  intro o ho htenant
  have hmarked : o.dispatchedAt.isSome = true := by
    by_contra hnone
    refine hnothing o ⟨ho, ?_⟩
    simp only [OutboxRow.isPending, htenant, beq_self_eq_true, Bool.true_and]
    simpa using hnone
  obtain ⟨e, he, heo⟩ := hs.marked es hes o ho htenant hmarked
  obtain ⟨i, hi⟩ := List.mem_iff_getElem?.mp he
  have hdistinct := List.pairwise_iff_getElem.mp (recorded_keysDistinct (loadLocked_recorded hes))
  refine ⟨i, ⟨e, hi, heo⟩, ?_⟩
  rintro j ⟨e', hj, heo'⟩
  have hkeys : Ledger.isStr e'.idempotencyKey o.idempotencyKey = true ∧
      Ledger.isStr e.idempotencyKey o.idempotencyKey = true :=
    ⟨isStr_eq_true.mpr heo'.idempotencyKey, isStr_eq_true.mpr heo.idempotencyKey⟩
  obtain ⟨hlti, rfl⟩ := List.getElem?_eq_some_iff.mp hi
  obtain ⟨hltj, rfl⟩ := List.getElem?_eq_some_iff.mp hj
  rcases Nat.lt_trichotomy i j with hij | hij | hij
  · have hne := hdistinct i j hlti hltj hij
    rw [heo.idempotencyKey, heo'.idempotencyKey, pyEq_str_self] at hne
    cases hne
  · exact hij.symm
  · have hne := hdistinct j i hltj hlti hij
    rw [heo.idempotencyKey, heo'.idempotencyKey, pyEq_str_self] at hne
    cases hne

section Runs
variable {sys : System (Audit F T) FlushCall (FlushOp F) (FlushReply F T)
    (Except (FlushError F) (Option PolicyFlushReport))}

theorem ready_of_delivers [Nonempty T]
    (h : Reaches (auditMachine H tenantId) Unguarded (System.idle Audit.initial) sys)
    (hdelivers : Delivers H tenantId c sys.state) : Ready H tenantId c sys.state := by
  have hs := linked h
  obtain ⟨⟨r, s', hrun⟩, hall⟩ := hdelivers (waiting tenantId sys.state + 1) (Nat.lt_succ_self _)
  obtain ⟨⟨report, rfl⟩, hdelivered⟩ := hall r s' hrun
  by_contra hnot
  by_cases hc : Accepted tenantId c
  · have hstuck : Stuck H tenantId c sys.state := by
      by_contra hflows
      rw [Stuck, not_or] at hflows
      obtain ⟨hread, hnone⟩ := hflows
      rw [not_forall_not] at hread
      obtain ⟨es, hes⟩ := hread
      refine hnot ⟨hc, es, hes, ?_⟩
      intro o ho
      by_contra hrefused
      refine hnone ⟨o, ho, ?_⟩
      intro es' hes'
      rw [hes'.det hes]
      exact hrefused
    obtain ⟨⟨_, hstuck'⟩, hfinal⟩ :=
      (stuckRules H tenantId { c with rounds := waiting tenantId sys.state + 1 }).flush.finishes
        hrun ⟨hs, hstuck⟩ trivial
    obtain ⟨es, hes⟩ : ∃ es : List (EventEnvelope F), Readable H.ledger s'.file es := hfinal rfl
    rcases hstuck' with hunreadable | ⟨b, hb, _⟩
    · exact hunreadable es hes
    · exact hdelivered.nothing_waits b hb
  · have hrefused : ¬Accepted tenantId { c with rounds := waiting tenantId sys.state + 1 } :=
      fun hc' => hc ⟨hc'.auditJobId, hc'.tenantId, hc'.batch_pos, hc'.batch_le⟩
    have hnone := ((runs_refused hrefused).finishes hrun trivial trivial).2
    cases hnone

theorem delivers_of_ready [Nonempty T]
    (h : Reaches (auditMachine H tenantId) Unguarded (System.idle Audit.initial) sys)
    (hready : Ready H tenantId c sys.state) : Delivers H tenantId c sys.state := by
  obtain ⟨hc, hdeliverable⟩ := hready
  intro rounds hrounds
  have hc' : Accepted tenantId { c with rounds } :=
    ⟨hc.auditJobId, hc.tenantId, hc.batch_pos, hc.batch_le⟩
  refine ⟨exists_finishes (exists_performs H) _ _, ?_⟩
  intro r s' hrun
  obtain ⟨hflows, hpost⟩ := (runs_flush hc').finishes hrun ⟨linked h, hdeliverable⟩ hrounds
  cases r with
  | error e => exact hpost.elim
  | ok report =>
    obtain ⟨hsome, hzero⟩ := hpost
    obtain ⟨report, rfl⟩ := Option.isSome_iff_exists.mp hsome
    exact ⟨⟨report, rfl⟩, delivered_of_flowing hflows hzero⟩

/-- After any run, a flush that nothing interrupts delivers everything exactly when the last line
of the ledger does not stand in its way and every waiting row is new and can be written, or was
sent under this flush's audit job id. -/
theorem delivers_iff [Nonempty T]
    (h : Reaches (auditMachine H tenantId) Unguarded (System.idle Audit.initial) sys)
    (c : FlushCall) : Delivers H tenantId c sys.state ↔ Ready H tenantId c sys.state :=
  ⟨ready_of_delivers h, delivers_of_ready h⟩

end Runs

/-! ### A flush under another id -/

omit [PyFloat F] [LinearOrder T] in
theorem waits_file {o : OutboxRow T} (h : Waits tenantId s o) (file : PyBytes) :
    Waits tenantId ⟨s.db, file⟩ o := h

omit [LinearOrder T] in
/-- A row that waits though another audit job id has sent it. -/
theorem not_ready_of_sent {es : List (EventEnvelope F)} {o : OutboxRow T} {e : EventEnvelope F}
    (hes : Ledger.events H.ledger s.file = .ok es) (ho : Waits tenantId s o) (he : e ∈ es)
    (hkey : e.idempotencyKey = .str o.idempotencyKey)
    (hother : ∀ e ∈ es, e.jobId ≠ .str c.auditJobId) (hs : NoReturn s.file) :
    ¬Ready H tenantId c s := by
  rintro ⟨_, es', hes', hall⟩
  obtain rfl : es' = es := by
    have h := hs.events.symm.trans hes
    rw [hes', Except.ok.injEq] at h
    exact h
  rcases hall o ho with ⟨e', he', _, hjob⟩ | ⟨hnew, _⟩
  · exact hother e' he' hjob
  · exact hnew e he hkey

/-- Between two runs. -/
theorem linked_idle
    (h : Reaches (auditMachine H tenantId) Unguarded (System.idle Audit.initial) (System.idle s)) :
    Linked H tenantId s :=
  linked h

/-- A flush killed between its first `append` and its `mark_dispatched`. -/
theorem reaches_sent {event : PolicyEvent F T} {uuid : PyStr} (t : T)
    (hid : isBlank c.auditJobId = false) (hargs : ¬(isBlank tenantId = true ∨ c.batchSize < 1))
    (hrounds : c.rounds ≠ 0)
    (hpending : pendingEvents tenantId c.batchSize s.db = .ok [event] s.db)
    (hfresh : FreshId H s.file uuid) :
    ∃ sys, Reaches (auditMachine H tenantId) Unguarded (System.idle s) sys ∧
      sys.state = ⟨s.db, fileAfter H.ledger s.file
        ((eventCall c.auditJobId tenantId event).args uuid (H.utcNow t))⟩ := by
  obtain ⟨rounds, hn⟩ := Nat.exists_eq_succ_of_ne_zero hrounds
  obtain ⟨next, next₂, hprogram, hnext⟩ : ∃ next next₂,
      (flush (F := F) (T := T) tenantId c).run = .step (.pendingEvents tenantId c.batchSize) next ∧
        next (.ok [event]) = .step (.append (eventCall c.auditJobId tenantId event)) next₂ := by
    rw [flush, if_neg (by rw [hid]; simp), if_neg hargs, hn]
    exact ⟨_, _, rfl, rfl⟩
  have hasks : Performs H s (.pendingEvents tenantId c.batchSize) (.ok [event]) s := by
    have hran : ran (pendingEvents tenantId c.batchSize) s.db = (.ok [event], s.db) := by
      rw [ran, hpending]
    exact ⟨by rw [hran]; rfl, by rw [hran]⟩
  have hsends : Performs H s (.append (eventCall c.auditJobId tenantId event)) _ _ :=
    ⟨uuid, t, hfresh, rfl, rfl⟩
  have hstart : Reaches (auditMachine H tenantId) Unguarded (System.idle s)
      ((System.idle s).start ⟨c, [], (flush tenantId c).run⟩) := (Reaches.refl _).tail (.start c)
  rw [hprogram] at hstart
  have hasked := hstart.tail (.operation 0 c [] _ next _ s rfl trivial (.inl hasks))
  rw [Process.advance, hnext] at hasked
  exact ⟨_, hasked.tail (.operation 0 c _ _ next₂ _ _ rfl trivial (.inl hsends)), rfl⟩

/-- The digests of the texts hashed below. -/
def digest (bytes : PyBytes) : PyStr :=
  if bytes = py "boundary_probe|pattern" then
    py "3759a2b2e90ce1821ec323409eab33309113c5aa4711916e2c59b46f091df41d"
  else if bytes = py "pattern" then
    py "1fd38d5cbd2a997b91f725cb1cb0a710849db30dac491ee42e92443fd8e3c1a2"
  else py "149a6cca781d0cd2cb08eb200ab35cc12dfc512b28768bded36bdfc76a1be909"

theorem isHash_py (cs : List Char) (h : isHash (cs.map Char.toNat) = true) :
    isHash (py (String.ofList cs)) = true := by
  rwa [py, String.toList_ofList]

theorem digest_isHash (bytes : PyBytes) : isHash (digest bytes) = true := by
  unfold digest
  split
  · exact isHash_py _ (by decide)
  · split
    · exact isHash_py _ (by decide)
    · exact isHash_py _ (by decide)

def sampleHost : AuditHost Halves ℕ where
  ledger := ⟨digest, fun s => if s = py "2026-01-01T00:00:00+00:00" then some true else none⟩
  policy := { plainHost with sha256 := digest }
  utcNow _ := py "2026-01-01T00:00:00Z"
  ledger_digest := digest_isHash
  policy_digest := digest_isHash
  utcNow_date _ := by decide +kernel
  utcNow_label _ := ⟨by decide +kernel, by decide +kernel⟩

/-- A strategy is proposed. -/
def proposal : Operation Halves ℕ :=
  .call (.proposeStrategy ⟨py "tenant", py "boundary_probe", py "pattern", py "job", py "family",
    some (py "s")⟩ [] 0 ⟨py "event-0", 0⟩)

def proposed : Audit Halves ℕ := ⟨proposal.after sampleHost.policy .empty, []⟩

def firstRun : FlushCall := ⟨py "policy:run-1", 100, 1⟩
def secondRun : FlushCall := ⟨py "policy:run-2", 100, 1⟩

def waitingRow : OutboxRow ℕ where
  eventId := py "event-0"
  tenantId := py "tenant"
  eventType := py "policy.strategy_proposed"
  aggregateType := py "strategy"
  aggregateId := py "s"
  payload := proposed.db.policyOutbox.rows.flatMap (·.payload)
  idempotencyKey := py "strategy:s:proposed"
  createdAt := 0
  dispatchedAt := none

/-- The ledger the first run leaves for this event. -/
def sentFile (event : PolicyEvent Halves ℕ) : PyBytes :=
  fileAfter sampleHost.ledger []
    ((eventCall firstRun.auditJobId (py "tenant") event).args (py "event-1") (sampleHost.utcNow 1))

/-- That ledger has the row, under the first run's id only. -/
def sentByFirstRun (event : PolicyEvent Halves ℕ) : Bool :=
  match Ledger.events (F := Halves) sampleHost.ledger (sentFile event) with
  | .ok es => es.any (isStr ·.idempotencyKey waitingRow.idempotencyKey) &&
      es.all (isStr ·.jobId firstRun.auditJobId)
  | .error _ => false

theorem reaches_proposed : Reaches (auditMachine sampleHost (py "tenant")) Unguarded
    (System.idle Audit.initial) (System.idle proposed) := by
  refine (Reaches.refl _).tail (.external proposed ⟨proposal, ?_, rfl⟩)
  exact encode_py "event-0"

theorem pending_proposed : proposed.db.pending (py "tenant") = [waitingRow] := by
  decide +kernel

theorem waits_proposed {o : OutboxRow ℕ} :
    Waits (py "tenant") proposed o ↔ o = waitingRow := by
  unfold Waits
  rw [← mem_pending, pending_proposed, List.mem_singleton]

theorem accepted_run {c : FlushCall} (hid : isBlank c.auditJobId = false)
    (hbatch : c.batchSize = 100) : Accepted (py "tenant") c :=
  ⟨hid, ⟨isBlank_py 't' _ rfl, encode_py _⟩, by omega, by omega⟩

/-- What has only been proposed is delivered under any id. -/
theorem delivers_proposed : Delivers sampleHost (py "tenant") secondRun proposed := by
  refine (delivers_iff reaches_proposed secondRun).mpr
    ⟨accepted_run (isBlank_py 'p' _ rfl) rfl, [], rfl, ?_⟩
  intro o ho
  obtain rfl := waits_proposed.mp ho
  refine .inr ⟨?_, by decide +kernel, by decide +kernel, ?_⟩
  · rintro e ⟨⟩
  · intro text htext c hc
    obtain rfl : [] = text := Option.some.inj htext
    cases hc

/-- The second run's flush does not deliver what the first run's left. -/
theorem not_delivers_always :
    ¬∀ (sys : System (Audit Halves ℕ) FlushCall (FlushOp Halves) (FlushReply Halves ℕ)
        (Except (FlushError Halves) (Option PolicyFlushReport))),
      Reaches (auditMachine sampleHost (py "tenant")) Unguarded (System.idle Audit.initial) sys →
      ∀ c : FlushCall, Accepted (py "tenant") c → Delivers sampleHost (py "tenant") c sys.state := by
  intro hall
  have hfirst : Accepted (py "tenant") firstRun := accepted_run (isBlank_py 'p' _ rfl) rfl
  have hsecond : Accepted (py "tenant") secondRun := accepted_run (isBlank_py 'p' _ rfl) rfl
  have hs : Linked sampleHost (py "tenant") proposed := linked_idle reaches_proposed
  obtain ⟨l, hl, hrows⟩ := pendingEvents_ok hs hfirst
  rw [pending_proposed] at hrows
  obtain ⟨event, hevent, rfl⟩ : ∃ event, OutboxRow.event waitingRow = some event ∧ l = [event] := by
    cases hrows with
    | cons hevent hrest =>
      cases hrest
      exact ⟨_, hevent, rfl⟩
  have hsent : sentByFirstRun event = true := by
    have hcheck : (OutboxRow.event waitingRow).any sentByFirstRun = true := by decide +kernel
    rwa [hevent] at hcheck
  have hfresh : FreshId sampleHost proposed.file (py "event-1") := by
    refine ⟨⟨by decide +kernel, by decide +kernel⟩, ?_⟩
    intro es hes e he
    obtain rfl : [] = es := Except.ok.inj hes
    cases he
  obtain ⟨sys, hreaches, hstate⟩ := reaches_sent 1 hfirst.auditJobId (by decide +kernel) (by decide)
    hl hfresh
  have hsys := reaches_proposed.trans hreaches
  have hlinked := linked hsys
  rw [sentByFirstRun] at hsent
  split at hsent
  case h_2 => cases hsent
  rename_i es hes
  obtain ⟨hany, hjobs⟩ := Bool.and_eq_true_iff.mp hsent
  obtain ⟨e, he, hkey⟩ := List.any_eq_true.mp hany
  rw [hstate] at hlinked
  have hwaits : Waits (py "tenant") sys.state waitingRow := by
    rw [hstate]
    exact waits_file (waits_proposed.mpr rfl) _
  have hother : ∀ e ∈ es, e.jobId ≠ .str secondRun.auditJobId := by
    intro e he heq
    rw [isStr_eq_true.mp (List.all_eq_true.mp hjobs e he)] at heq
    exact absurd (PyVal.str.inj heq) (py_injective.ne (by decide))
  refine not_ready_of_sent ?_ hwaits he (isStr_eq_true.mp hkey) hother ?_
    (ready_of_delivers hsys (hall sys hsys secondRun hsecond))
  · rw [hstate]
    exact hes
  · rw [hstate]
    exact hlinked.noReturn

end PolicyFlush
