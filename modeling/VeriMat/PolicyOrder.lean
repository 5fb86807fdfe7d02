import VeriMat.PolicyFlush

/-! # The order of the policy events

The rows of the outbox are read in the order of their clock readings, and those of one reading in
the order of their random ids. Where that is the order in which the waiting rows were inserted,
whenever a flush reads them, the ledger records the rows of the tenant in the order of their
insertion and leaves none out. -/
namespace PolicyOrder

open PyText JsonText PyValue AtomicProgram RelyGuarantee Transaction JsonWritable KeyedTable
open PolicyStore PolicyRefresh PolicyOutbox PolicyAudit PolicyDelivery PolicyFlush
open LedgerConcurrent LedgerChain LedgerGrowth LedgerAppend EnvelopeRoundTrip DurablePayload
open PolicyCredit (Operation)
open Ledger (LedgerError LedgerIssue AppendArgs VerificationReport isStr)
open Events (EventEnvelope isHash replaceZ)

/-! ## Positions in a list -/

section Lists
variable {α : Type} {l : List α} {x y : α} {a b : ℕ}

/-- Two elements, the first ahead of the second. -/
theorem pair_sublist (h : a < b) (hx : l[a]? = some x) (hy : l[b]? = some y) :
    [x, y].Sublist l := by
  rw [← List.take_append_drop b l]
  show ([x] ++ [y]).Sublist _
  apply List.Sublist.append
  · rw [List.singleton_sublist]
    exact List.mem_of_getElem? (i := a) (by rw [List.getElem?_take_of_lt h, hx])
  · rw [List.singleton_sublist]
    exact List.mem_of_getElem? (i := 0) (by rw [List.getElem?_drop, Nat.add_zero, hy])

theorem pair_asymm (hl : l.Nodup) (h : [x, y].Sublist l) : ¬[y, x].Sublist l := by
  induction l with
  | nil => cases h
  | cons z l ih =>
    obtain ⟨hz, hl⟩ := List.nodup_cons.mp hl
    intro h'
    cases h with
    | cons _ h =>
      cases h' with
      | cons _ h' => exact ih hl h h'
      | cons_cons _ h' => exact hz (h.subset (by simp))
    | cons_cons _ h =>
      cases h' with
      | cons _ h' => exact hz (h'.subset (by simp))
      | cons_cons _ h' => exact hz (h.subset (by simp))

/-- A list of which a prefix is on record up to this element, and not the element. -/
theorem eq_of_prefix {p before after : List α} (hl : (before ++ x :: after).Nodup)
    (hp : p <+: before ++ x :: after) (hx : x ∉ p) (hbefore : ∀ y ∈ before, y ∈ p) :
    p = before := by
  have hle : before.length ≤ p.length :=
    ((List.nodup_append.mp hl).1.subperm hbefore).length_le
  have hpre : before <+: p := List.prefix_of_prefix_length_le (List.prefix_append _ _) hp hle
  obtain ⟨d, rfl⟩ := hpre
  cases d with
  | nil => rw [List.append_nil]
  | cons y d =>
    exfalso
    have hd : y :: d <+: x :: after := (List.prefix_append_right_inj before).mp hp
    obtain ⟨rfl, _⟩ := List.cons_prefix_cons.mp hd
    exact hx (List.mem_append_right _ List.mem_cons_self)

/-- An element that passes a filter, and what passes ahead of it. -/
theorem filter_split {p : α → Bool} {r r' : List α} (h : l.filter p = r ++ x :: r') :
    ∃ before after, l = before ++ x :: after ∧ before.filter p = r := by
  obtain ⟨l₁, l₂, rfl, hl₁, hl₂⟩ := List.filter_eq_append_iff.mp h
  obtain ⟨m, after, rfl, hm, _, _⟩ := List.filter_eq_cons_iff.mp hl₂
  refine ⟨l₁ ++ m, after, by simp, ?_⟩
  rw [List.filter_append, hl₁, List.filter_eq_nil_iff.mpr hm, List.append_nil]

/-- What stands against an element, and against those ahead of it. -/
theorem forall₂_split {β : Type} {R : α → β → Prop} {ahead behind : List β} {z : β}
    (h : List.Forall₂ R l (ahead ++ z :: behind)) :
    ∃ r x r', l = r ++ x :: r' ∧ List.Forall₂ R r ahead ∧ R x z := by
  induction ahead generalizing l with
  | nil =>
    obtain ⟨x, r', hx, _, rfl⟩ := List.forall₂_cons_right_iff.mp h
    exact ⟨[], x, r', rfl, .nil, hx⟩
  | cons w ahead ih =>
    obtain ⟨x', l', hx', hrest, rfl⟩ := List.forall₂_cons_right_iff.mp h
    obtain ⟨r, x, r', rfl, hr, hx⟩ := ih hrest
    exact ⟨x' :: r, x, r', rfl, .cons hx' hr, hx⟩

end Lists

variable {F T : Type} [PyFloat F]

/-! ## In order -/

/-- The events stand in the ledger as their rows stand in the outbox. -/
def InOrder (H : AuditHost F T) (s : Audit F T) : Prop :=
  ∀ es : List (EventEnvelope F), Ledger.events H.ledger s.file = .ok es →
    ∀ (a b : ℕ) (o o' : OutboxRow T), a < b → s.db.policyOutbox.rows[a]? = some o →
      s.db.policyOutbox.rows[b]? = some o' → ∀ (i j : ℕ) (e e' : EventEnvelope F),
        es[i]? = some e → es[j]? = some e' → IsEventOf o e → IsEventOf o' e' → i < j

section Orders
variable [LinearOrder T]

omit [PyFloat F] in
/-- The clock of the tenant's rows does not go back. -/
def Steady (tenantId : PyStr) (s : Audit F T) : Prop :=
  (s.db.policyOutbox.rows.filter (·.tenantId == tenantId)).Pairwise
    fun o o' => o.createdAt ≤ o'.createdAt

omit [PyFloat F] in
/-- The rows that wait were inserted in the order in which they are read. -/
def Orderly (tenantId : PyStr) (s : Audit F T) : Prop :=
  (s.db.policyOutbox.rows.filter (OutboxRow.isPending tenantId)).Pairwise outboxOrder

omit [PyFloat F] in
/-- No flush reads rows that are not. -/
def ReadsOrderly (tenantId : PyStr) (s : Audit F T) : FlushOp F → Prop
  | .pendingEvents .. => Orderly tenantId s
  | _ => True

end Orders

/-! ## The keys on record -/

omit [PyFloat F] in
/-- The keys of the tenant's rows, in the order of their insertion. -/
def rowKeys (tenantId : PyStr) (s : Audit F T) : List (PyVal F) :=
  (s.db.policyOutbox.rows.filter (·.tenantId == tenantId)).map fun o => .str o.idempotencyKey

/-- The ledger records the rows of the tenant in that order and leaves none out. -/
def Prefixed (H : AuditHost F T) (tenantId : PyStr) (s : Audit F T) : Prop :=
  ∀ es : List (EventEnvelope F), Readable H.ledger s.file es →
    es.map (·.idempotencyKey) <+: rowKeys tenantId s

/-- The ledger, while it can be read, has an event under the key. -/
def Recorded (H : AuditHost F T) (key : PyVal F) (s : Audit F T) : Prop :=
  ∀ es : List (EventEnvelope F), Readable H.ledger s.file es → key ∈ es.map (·.idempotencyKey)

/-- What was inserted ahead of the event's row is on record or one of these events. -/
def InLine (H : AuditHost F T) (tenantId : PyStr) (ahead : List (PolicyEvent F T))
    (event : PolicyEvent F T) (s : Audit F T) : Prop :=
  ∃ before after, rowKeys tenantId s = before ++ .str event.idempotencyKey :: after ∧
    ∀ key ∈ before, Recorded H key s ∨ ∃ x ∈ ahead, key = .str x.idempotencyKey

/-- Rows of the tenant, each with what was inserted ahead of it on record or ahead of it here. -/
def Lined (H : AuditHost F T) (tenantId : PyStr) (l : List (PolicyEvent F T)) (s : Audit F T) :
    Prop :=
  ∀ ahead event behind, l = ahead ++ event :: behind →
    HasRow tenantId event s ∧ InLine H tenantId ahead event s

section Keys
variable {H : AuditHost F T} {tenantId : PyStr} {s s' : Audit F T}

omit [PyFloat F] in
theorem nodup_rowKeys (tenantId : PyStr) (s : Audit F T) : (rowKeys tenantId s).Nodup := by
  refine List.pairwise_map.mpr ?_
  refine (s.db.policyOutbox.distinct.filter _).imp_of_mem ?_
  intro o o' ho ho' hclash hkey
  have htenant := beq_iff_eq.mp (List.mem_filter.mp ho).2
  have htenant' := beq_iff_eq.mp (List.mem_filter.mp ho').2
  exact hclash (.inr (Prod.ext (htenant.trans htenant'.symm) (PyVal.str.inj hkey)))

omit [PyFloat F] in
/-- The keys are those of the rows as they were committed. -/
theorem rowKeys_committed (tenantId : PyStr) (s : Audit F T) :
    rowKeys (F := F) tenantId s = ((s.db.policyOutbox.rows.map committed).filter
      (·.tenantId == tenantId)).map fun o => .str o.idempotencyKey := by
  rw [List.filter_map, List.map_map]
  rfl

theorem rowKeys_grow (h : Evolves H s s') : rowKeys tenantId s <+: rowKeys tenantId s' := by
  rw [rowKeys_committed, rowKeys_committed]
  exact (h.rows.filter _).map _

theorem recorded_kept (h : Evolves H s s') {key : PyVal F} (hs : Recorded H key s) :
    Recorded H key s' := by
  intro es' hes'
  obtain ⟨es, hes, hgrown⟩ := h.reads hes'
  exact (hgrown.map _).subset (hs es hes)

theorem lined_kept (h : Evolves H s s') {l : List (PolicyEvent F T)}
    (hs : Lined H tenantId l s) : Lined H tenantId l s' := by
  intro ahead event behind hl
  obtain ⟨hrow, before, after, hkeys, hbefore⟩ := hs ahead event behind hl
  obtain ⟨more, hmore⟩ : rowKeys tenantId s <+: rowKeys tenantId s' := rowKeys_grow h
  refine ⟨h.hasRow hrow, before, after ++ more, ?_, ?_⟩
  · rw [← hmore, hkeys]
    simp
  · intro key hkey
    exact (hbefore key hkey).imp_left (recorded_kept h)

/-- An event that is on record stands in nobody's way. -/
theorem Lined.tail {event : PolicyEvent F T} {l : List (PolicyEvent F T)}
    (h : Lined H tenantId (event :: l) s) (hevent : HasEvent H event s) :
    Lined H tenantId l s := by
  rintro ahead x behind rfl
  obtain ⟨hrow, before, after, hkeys, hbefore⟩ := h (event :: ahead) x behind rfl
  refine ⟨hrow, before, after, hkeys, ?_⟩
  intro key hkey
  rcases hbefore key hkey with hrecorded | ⟨y, hy, rfl⟩
  · exact .inl hrecorded
  rcases List.mem_cons.mp hy with rfl | hy
  · left
    intro es hes
    obtain ⟨e, he, hkey⟩ := hevent es hes
    exact List.mem_map.mpr ⟨e, he, hkey⟩
  · exact .inr ⟨y, hy, rfl⟩

theorem prefixed_initial (H : AuditHost F T) (tenantId : PyStr) :
    Prefixed H tenantId Audit.initial := by
  intro es hes
  have hnil : Readable (F := F) H.ledger [] [] := rfl
  rw [hes.det hnil]
  exact List.nil_prefix

/-- Whatever leaves the ledger as it is keeps the invariant. -/
theorem Prefixed.of_file (hs : Prefixed H tenantId s) (h : Evolves H s s') (hfile : s'.file = s.file) :
    Prefixed H tenantId s' := by
  intro es hes
  rw [hfile] at hes
  exact (hs es hes).trans (rowKeys_grow h)

/-- An append keeps it for a row that is next, finished or not. -/
theorem Prefixed.grown (hs : Prefixed H tenantId s) {event : PolicyEvent F T}
    (hline : InLine H tenantId [] event s) {auditJobId uuid now : PyStr} {file : PyBytes}
    (h : Grown H.ledger s.file ((eventCall auditJobId tenantId event).args uuid now) file) :
    Prefixed H tenantId { s with file } := by
  intro es' hes'
  obtain ⟨es, hes⟩ := h.readable
  rcases h.reads hes hes' with rfl | ⟨hash, payload, hnew, _, rfl⟩
  · exact hs _ hes
  obtain ⟨before, after, hkeys, hbefore⟩ := hline
  have hprefix := hs es hes
  have hnodup := nodup_rowKeys (F := F) tenantId s
  rw [hkeys] at hprefix hnodup
  have hunrecorded : .str event.idempotencyKey ∉ es.map (·.idempotencyKey) := by
    intro hmem
    obtain ⟨e, he, hkey⟩ := List.mem_map.mp hmem
    exact hnew ⟨e, he, isStr_eq_true.mpr hkey⟩
  have hrecorded : ∀ key ∈ before, key ∈ es.map (·.idempotencyKey) := by
    intro key hkey
    rcases hbefore key hkey with hrecorded | ⟨x, hx, _⟩
    · exact hrecorded es hes
    · cases hx
  have heq := eq_of_prefix hnodup hprefix hunrecorded hrecorded
  have hsame : rowKeys (F := F) tenantId { s with file } = rowKeys tenantId s := rfl
  rw [hsame, hkeys, List.map_append, heq]
  refine (List.prefix_append_right_inj before).mpr ?_
  exact ⟨after, rfl⟩

end Keys

/-! ## What a flush reads -/

section Reads
variable [LinearOrder T] {H : AuditHost F T} {tenantId : PyStr} {s s' : Audit F T}

/-- What was inserted ahead of an orderly batch has been dispatched. -/
theorem lined_of_pendingEvents (hs : Linked H tenantId s) (horderly : Orderly tenantId s)
    {limit : ℤ} {l : List (PolicyEvent F T)}
    (h : pendingEvents tenantId limit s.db = .ok l s.db) : Lined H tenantId l s := by
  have hrows := rows_of_pendingEvents h
  have hsorted : s.db.pending tenantId =
      s.db.policyOutbox.rows.filter (OutboxRow.isPending tenantId) := horderly.insertionSort_eq
  rw [hsorted] at hrows
  rintro ahead event behind rfl
  obtain ⟨r, o, r', hsplit, hahead, hevent⟩ := forall₂_split hrows
  have hfilter : s.db.policyOutbox.rows.filter (OutboxRow.isPending tenantId) = r ++ o ::
      (r' ++ (s.db.policyOutbox.rows.filter (OutboxRow.isPending tenantId)).drop limit.toNat) := by
    rw [← List.cons_append, ← List.append_assoc, ← hsplit, List.take_append_drop]
  obtain ⟨before, after, hbefore, hpassed⟩ := filter_split hfilter
  have ho : o ∈ s.db.policyOutbox.rows := by
    rw [hbefore]
    simp
  have hwaits : o ∈ s.db.policyOutbox.rows.filter (OutboxRow.isPending tenantId) := by
    rw [hfilter]
    simp
  have htenant : o.tenantId = tenantId :=
    tenantId_of_waits (s := s) (List.mem_filter.mp hwaits)
  have hkey : ∀ {o : OutboxRow T} {x : PolicyEvent F T}, o ∈ s.db.policyOutbox.rows →
      o.event = some x → x.idempotencyKey = o.idempotencyKey := by
    intro o x ho hx
    obtain ⟨_, _, _, rfl⟩ := event_fields hs ho hx
    rfl
  refine ⟨⟨o, ho, htenant, hevent⟩, (before.filter (·.tenantId == tenantId)).map
    (fun o => .str o.idempotencyKey), (after.filter (·.tenantId == tenantId)).map
    (fun o => .str o.idempotencyKey), ?_, ?_⟩
  · rw [rowKeys, hbefore, List.filter_append, List.filter_cons_of_pos (by simpa using htenant),
      List.map_append, List.map_cons, hkey ho hevent]
  · intro key hmem
    obtain ⟨o', ho', rfl⟩ := List.mem_map.mp hmem
    obtain ⟨ho', htenant'⟩ := List.mem_filter.mp ho'
    have hrow : o' ∈ s.db.policyOutbox.rows := by
      rw [hbefore]
      exact List.mem_append_left _ ho'
    cases hdispatched : o'.dispatchedAt with
    | some t =>
      left
      intro es hes
      obtain ⟨e, he, heo⟩ := hs.marked es hes o' hrow (beq_iff_eq.mp htenant')
        (by rw [hdispatched]; rfl)
      exact List.mem_map.mpr ⟨e, he, heo.idempotencyKey⟩
    | none =>
      right
      have hpending : o' ∈ r := by
        rw [← hpassed, List.mem_filter]
        exact ⟨ho', by rw [OutboxRow.isPending, htenant', hdispatched]; rfl⟩
      obtain ⟨x, hx, hfields⟩ := exists_right hahead hpending
      exact ⟨x, hx, by rw [hkey hrow hfields]⟩

/-! ## Every flush, among the others -/

/-- The machine in which only orderly rows are read. -/
abbrev orderlyMachine (H : AuditHost F T) (tenantId : PyStr) :
    Machine (Audit F T) FlushCall (FlushOp F) (FlushReply F T)
      (Except (FlushError F) (Option PolicyFlushReport)) :=
  restrict (auditMachine H tenantId) (ReadsOrderly tenantId)

/-- The ledger records rows of the tenant, those that were inserted first. -/
structure Records (H : AuditHost F T) (tenantId : PyStr) (s : Audit F T) : Prop where
  linked : Linked H tenantId s
  prefixed : Prefixed H tenantId s

theorem evolves_of_interferes (hs : Records H tenantId s)
    (h : Interferes (orderlyMachine H tenantId) s s') : Evolves H s s' := by
  rcases h with ⟨o, r, _, h⟩ | ⟨o, ho, rfl⟩
  · exact evolves_of_performs h
  · exact evolves_of_mutation (mutation_adds H.policy_digest ho hs.linked.sound).2

theorem stable_lined (l : List (PolicyEvent F T)) :
    Stable (Interferes (orderlyMachine H tenantId)) (Records H tenantId) (Lined H tenantId l) :=
  fun _ _ hs h hl => lined_kept (evolves_of_interferes hs h) hl

theorem stable_hasEvent (event : PolicyEvent F T) :
    Stable (Interferes (orderlyMachine H tenantId)) (Records H tenantId) (HasEvent H event) :=
  fun _ _ hs h hevent => (evolves_of_interferes hs h).hasEvent hevent

/-- An append for the row that is next. -/
theorem Records.append (hs : Records H tenantId s) {event : PolicyEvent F T}
    {l : List (PolicyEvent F T)} (hl : Lined H tenantId (event :: l) s) {c : FlushCall}
    {r : FlushReply F T (.append (eventCall c.auditJobId tenantId event))}
    (h : (auditMachine H tenantId).perform s (.append (eventCall c.auditJobId tenantId event)) r s') :
    Records H tenantId s' ∧ ∀ e : EventEnvelope F, r = .ok e → HasEvent H event s' := by
  obtain ⟨hrow, hline⟩ := hl [] event l rfl
  obtain ⟨hlinked, hdone⟩ := (runRules H tenantId c).append event s r s' hs.linked hrow h
  refine ⟨⟨hlinked, ?_⟩, hdone⟩
  rcases h with hperforms | ⟨_, uuid, t, file, _, hgrown, rfl⟩
  · cases performs_append hs.linked hrow hperforms with
    | refused uuid t x fresh run => exact hs.prefixed
    | returned uuid t es env file' fresh readable run appends =>
      exact hs.prefixed.grown hline (grown_of_append run)
  · exact hs.prefixed.grown hline hgrown

theorem Records.mark (hs : Records H tenantId s) {event : PolicyEvent F T}
    (hrow : HasRow tenantId event s) (hevent : HasEvent H event s)
    {r : FlushReply F T (.markDispatched tenantId event.eventId)}
    (h : (auditMachine H tenantId).perform s (.markDispatched tenantId event.eventId) r s')
    (c : FlushCall) : Records H tenantId s' := by
  refine ⟨(runRules H tenantId c).mark event s r s' hs.linked hrow hevent h, ?_⟩
  refine hs.prefixed.of_file (evolves_of_performs h) ?_
  rcases h with ⟨_, _, rfl⟩ | hkilled
  · rfl
  · exact hkilled.elim

omit [LinearOrder T] in
theorem Records.mutation (hs : Records H tenantId s) {db : PolicyDatabase F T} (hdb : Sound db)
    (hgrows : Grows s.db db) : Records H tenantId { s with db } :=
  ⟨hs.linked.mutation hdb hgrows, hs.prefixed.of_file (evolves_of_mutation hgrows) rfl⟩

variable (H tenantId) in
/-- Any flush, among whatever the others do. -/
theorem orderlyRules (c : FlushCall) :
    BatchRules (orderlyMachine H tenantId).perform (Interferes (orderlyMachine H tenantId))
      tenantId c (Records H tenantId) (Lined H tenantId)
      (fun event l s => Lined H tenantId (event :: l) s ∧ HasEvent H event s) fun _ => True where
  batch_stable := stable_lined
  sent_stable event _ := (stable_lined _).and (stable_hasEvent event)
  final_stable := stable_const
  pending := by
    rintro s r s' hs ⟨horderly, hperforms | hkilled⟩
    · obtain ⟨rfl, hl⟩ := performs_pendingEvents hperforms
      exact ⟨hs, fun l hr => lined_of_pendingEvents hs.linked horderly (hl l hr)⟩
    · exact hkilled.elim
  append := by
    rintro event l s r s' hs hl ⟨_, h⟩
    obtain ⟨hrecords, hdone⟩ := hs.append hl h
    exact ⟨hrecords, fun e hr => ⟨lined_kept (evolves_of_performs h) hl, hdone e hr⟩⟩
  mark := by
    rintro event l s r s' hs ⟨hl, hevent⟩ ⟨_, h⟩
    refine ⟨hs.mark (hl [] event l rfl).1 hevent h c, ?_⟩
    exact fun _ _ => lined_kept (evolves_of_performs h) (hl.tail hevent)
  verify := by
    rintro s r s' hs ⟨_, ⟨_, rfl⟩ | hkilled⟩
    · exact ⟨hs, fun _ _ _ => trivial⟩
    · exact hkilled.elim

omit [LinearOrder T] in
/-- The events of rows that were inserted first stand first. -/
theorem Records.inOrder (hs : Records H tenantId s) : InOrder H s := by
  intro es hes a b o o' hab ho ho' i j e e' hi hj heo heo'
  have hread : Readable H.ledger s.file es := hs.linked.noReturn.events.symm.trans hes
  have hprefix := hs.prefixed es hread
  have hnodup := nodup_rowKeys (F := F) tenantId s
  have htenant : ∀ {x : EventEnvelope F} {row : OutboxRow T}, x ∈ es → IsEventOf row x →
      row.tenantId = tenantId := by
    intro x row hx hrow
    obtain ⟨row', _, htenant', hrow'⟩ := hs.linked.ofRow es hread x hx
    rw [← htenant']
    exact PyVal.str.inj (hrow.tenantId.symm.trans hrow'.tenantId)
  have hrows : [PyVal.str o.idempotencyKey, .str o'.idempotencyKey].Sublist
      (rowKeys (F := F) tenantId s) := by
    have hpair := ((pair_sublist hab ho ho').filter (·.tenantId == tenantId)).map
      fun o => (PyVal.str o.idempotencyKey : PyVal F)
    rw [List.filter_cons_of_pos
        (by simpa using htenant (List.mem_of_getElem? hi) heo),
      List.filter_cons_of_pos
        (by simpa using htenant (List.mem_of_getElem? hj) heo')] at hpair
    exact hpair
  have hi' : (es.map (·.idempotencyKey))[i]? = some (.str o.idempotencyKey) := by
    rw [List.getElem?_map, hi, ← heo.idempotencyKey]
    rfl
  have hj' : (es.map (·.idempotencyKey))[j]? = some (.str o'.idempotencyKey) := by
    rw [List.getElem?_map, hj, ← heo'.idempotencyKey]
    rfl
  rcases Nat.lt_trichotomy i j with hij | rfl | hji
  · exact hij
  · rw [hi', Option.some.injEq] at hj'
    rw [hj'] at hrows
    exact (pair_asymm hnodup hrows hrows).elim
  · exact (pair_asymm hnodup hrows ((pair_sublist hji hj' hi').trans hprefix.sublist)).elim

end Reads

/-! ## Every run -/

section Runs
variable [LinearOrder T] {H : AuditHost F T} {tenantId : PyStr} {c : FlushCall} {s : Audit F T}
  {sys : System (Audit F T) FlushCall (FlushOp F) (FlushReply F T)
    (Except (FlushError F) (Option PolicyFlushReport))}

theorem records
    (h : Reaches (auditMachine H tenantId) (Asks (ReadsOrderly tenantId))
      (System.idle Audit.initial) sys) : Records H tenantId sys.state := by
  have hcalls : ∀ c, Program.Meets (orderlyMachine H tenantId).perform
      (Interferes (orderlyMachine H tenantId)) (Records H tenantId)
      (ends (fun (report : Option PolicyFlushReport) _ => report.isSome → True)
        fun _ _ => True) ((orderlyMachine H tenantId).program c) fun _ => True :=
    fun c => (orderlyRules H tenantId c).flush
  refine (sound hcalls stable_const ?_ ⟨linked_initial H tenantId, prefixed_initial H tenantId⟩
    trivial (reaches_restrict h)).1.1
  rintro s s' hs ⟨o, ho, rfl⟩
  obtain ⟨hsound, hgrows⟩ := mutation_adds H.policy_digest ho hs.linked.sound
  exact hs.mutation hsound hgrows

/-- In every run in which the flushes find the waiting rows in the order of their insertion, the
ledger has the events in the order of the rows. -/
theorem flush_in_order
    (h : Reaches (auditMachine H tenantId) (Asks (ReadsOrderly tenantId))
      (System.idle Audit.initial) sys) : InOrder H sys.state :=
  (records h).inOrder

/-! ### The first rows of a batch -/

omit [LinearOrder T] in
/-- A row that waits and is new is appended behind what is on record. -/
theorem append_next (hs : Linked H tenantId s) (hc : Accepted tenantId c)
    {es : List (EventEnvelope F)} (hes : Ended H.ledger s.file es) {o : OutboxRow T}
    (ho : Waits tenantId s o) {event : PolicyEvent F T} (hevent : o.event = some event)
    (hnew : ∀ e ∈ es, e.idempotencyKey ≠ .str o.idempotencyKey)
    (haggregate : isBlank o.aggregateId = false) (hencodes : (encode c.auditJobId).isSome = true)
    (t : T) :
    ∃ uuid env file' e, FreshId H s.file uuid ∧ Ledger.append H.ledger s.file
        ((eventCall c.auditJobId tenantId event).args uuid (H.utcNow t)) = .ok (env, file') ∧
      Ended H.ledger file' (es ++ [e]) ∧ e.idempotencyKey = .str o.idempotencyKey := by
  obtain ⟨hread, hwhole⟩ := ended_iff.mp hes
  obtain ⟨uuid, hfresh⟩ := exists_freshId H s.file
  have hdeliverable : Deliverable c s es o := .inr ⟨hnew, haggregate, hencodes, hwhole⟩
  obtain ⟨env, file', hok⟩ := append_of_deliverable hs hc hread ho hdeliverable hevent hfresh t
  obtain ⟨_, _, _, hfields⟩ := event_fields hs ho.1 hevent
  have hkey : event.idempotencyKey = o.idempotencyKey := by
    rw [hfields]
  have happends : Appends H.ledger s.file es
      ((eventCall c.auditJobId tenantId event).args uuid (H.utcNow t)) file' := by
    refine append_appends hread
      (jsonObject_of_row hs ⟨o, ho.1, tenantId_of_waits ho, hevent⟩) ?_ hok
    exact fun e he => hfresh.2 es (hs.noReturn.events.trans hread) e he
  refine ⟨uuid, env, file', ?_⟩
  cases happends with
  | replayed recorded =>
    obtain ⟨e, he, hsame⟩ := recorded
    refine absurd ?_ (hnew e he)
    rw [isStr_eq_true.mp hsame, ← hkey]
    rfl
  | written _ hash payload newKey whole texts lowered ended =>
    refine ⟨_, hfresh, hok, ended, ?_⟩
    rw [← hkey]
    rfl
  | spoilt _ newKey notWhole unreadable => exact absurd hwhole notWhole

/-- A flush killed behind its second `append`. -/
theorem reaches_second {g : Audit F T → FlushOp F → Prop} {x y : PolicyEvent F T}
    {s₁ s₂ s₃ : Audit F T} {env : EventEnvelope F}
    {r : FlushReply F T (.append (eventCall c.auditJobId tenantId y))}
    (hread : g s (.pendingEvents tenantId c.batchSize)) (happend : ∀ s call, g s (.append call))
    (hmark : ∀ s t eventId, g s (.markDispatched t eventId)) (hc : Accepted tenantId c)
    (hrounds : c.rounds ≠ 0) (hpending : pendingEvents tenantId c.batchSize s.db = .ok [x, y] s.db)
    (h₁ : Performs H s (.append (eventCall c.auditJobId tenantId x)) (.ok env) s₁)
    (h₂ : Performs H s₁ (.markDispatched tenantId x.eventId) (.ok ()) s₂)
    (h₃ : Performs H s₂ (.append (eventCall c.auditJobId tenantId y)) r s₃) :
    ∃ sys, Reaches (auditMachine H tenantId) (Asks g) (System.idle s) sys ∧ sys.state = s₃ := by
  obtain ⟨rounds, hn⟩ := Nat.exists_eq_succ_of_ne_zero hrounds
  have hbatch := hc.batch_pos
  obtain ⟨next, next₁, next₂, next₃, hprogram, hnext, hnext₁, hnext₂⟩ :
      ∃ next next₁ next₂ next₃, (flush (F := F) (T := T) tenantId c).run =
          .step (.pendingEvents tenantId c.batchSize) next ∧
        next (.ok [x, y]) = .step (.append (eventCall c.auditJobId tenantId x)) next₁ ∧
        next₁ (.ok env) = .step (.markDispatched tenantId x.eventId) next₂ ∧
        next₂ (.ok ()) = .step (.append (eventCall c.auditJobId tenantId y)) next₃ := by
    rw [flush, if_neg (by rw [hc.auditJobId]; simp), if_neg ?_, hn]
    · exact ⟨_, _, _, _, rfl, rfl, rfl, rfl⟩
    · rw [hc.tenantId.1]
      simpa using hbatch
  have hasks : Performs H s (.pendingEvents tenantId c.batchSize) (.ok [x, y]) s := by
    have hran : ran (pendingEvents tenantId c.batchSize) s.db = (.ok [x, y], s.db) := by
      rw [ran, hpending]
    exact ⟨by rw [hran]; rfl, by rw [hran]⟩
  have hstart : Reaches (auditMachine H tenantId) (Asks g) (System.idle s)
      ((System.idle s).start ⟨c, [], (flush tenantId c).run⟩) := (Reaches.refl _).tail (.start c)
  rw [hprogram] at hstart
  have hasked := hstart.tail (.operation 0 c [] _ next _ s rfl hread (.inl hasks))
  rw [Process.advance, hnext] at hasked
  have hsent := hasked.tail (.operation 0 c _ _ next₁ _ s₁ rfl (happend _ _) (.inl h₁))
  rw [Process.advance, hnext₁] at hsent
  have hmarked := hsent.tail (.operation 0 c _ _ next₂ _ s₂ rfl (hmark _ _ _) (.inl h₂))
  rw [Process.advance, hnext₂] at hmarked
  exact ⟨_, hmarked.tail (.operation 0 c _ _ next₃ _ s₃ rfl (happend _ _) (.inl h₃)), rfl⟩

/-- What may become of the first two rows that are read. -/
structure Sends (H : AuditHost F T) (tenantId : PyStr) (o o' : OutboxRow T) (t : T)
    (es : List (EventEnvelope F)) (s s' : Audit F T) : Prop where
  db : ∃ eventId, eventId = o.eventId ∧ s'.db = afterMark s.db tenantId eventId t
  file : ∃ e e', Readable H.ledger s'.file (es ++ [e, e']) ∧
    e.idempotencyKey = .str o.idempotencyKey ∧ e'.idempotencyKey = .str o'.idempotencyKey

/-- Two new rows that are read together are recorded in the order in which they are read. -/
theorem reaches_sends {g : Audit F T → FlushOp F → Prop}
    (hread : g s (.pendingEvents tenantId c.batchSize)) (happend : ∀ s call, g s (.append call))
    (hmark : ∀ s t eventId, g s (.markDispatched t eventId)) (hs : Linked H tenantId s)
    (hc : Accepted tenantId c) (hrounds : c.rounds ≠ 0)
    (hencodes : (encode c.auditJobId).isSome = true) {es : List (EventEnvelope F)}
    (hes : Ended H.ledger s.file es) {o o' : OutboxRow T}
    (hrows : (s.db.pending tenantId).take c.batchSize.toNat = [o, o'])
    (hnew : ∀ row ∈ [o, o'], (∀ e ∈ es, e.idempotencyKey ≠ .str row.idempotencyKey) ∧
      isBlank row.aggregateId = false) (t : T) :
    ∃ sys, Reaches (auditMachine H tenantId) (Asks g) (System.idle s) sys ∧
      Sends H tenantId o o' t es s sys.state := by
  obtain ⟨l, hl, hall⟩ := pendingEvents_ok hs hc
  rw [hrows] at hall
  obtain ⟨x, y, hx, hy, rfl⟩ : ∃ x y, o.event = some x ∧ o'.event = some y ∧ l = [x, y] := by
    cases hall with
    | cons hx hrest =>
      cases hrest with
      | cons hy hrest =>
        cases hrest
        exact ⟨_, _, hx, hy, rfl⟩
  have hwaits : ∀ row ∈ [o, o'], Waits tenantId s row := by
    intro row hrow
    rw [← hrows] at hrow
    exact mem_pending.mp (List.mem_of_mem_take hrow)
  have ho := hwaits o (by simp)
  have ho' := hwaits o' (by simp)
  obtain ⟨hnewo, hblank⟩ := hnew o (by simp)
  obtain ⟨hnewo', hblank'⟩ := hnew o' (by simp)
  -- the first row is appended and marked
  obtain ⟨uuid, env, file₁, e, hfresh, hok, hended, hkey⟩ :=
    append_next hs hc hes ho hx hnewo hblank hencodes t
  have hfirst : Performs H s (.append (eventCall c.auditJobId tenantId x)) (.ok env)
      { s with file := file₁ } := by
    refine ⟨uuid, t, hfresh, ?_, ?_⟩
    · rw [hok]
      rfl
    · rw [fileAfter, hok]
  have hrow : HasRow tenantId x s := ⟨o, ho.1, tenantId_of_waits ho, hx⟩
  obtain ⟨hs₁, hdone⟩ := (runRules H tenantId c).append x s _ _ hs hrow (.inl hfirst)
  have hmarked := markDispatched_ok hs₁ hc ho hx t
  have hsecond : Performs H { s with file := file₁ } (.markDispatched tenantId x.eventId) (.ok ())
      ⟨afterMark s.db tenantId x.eventId t, file₁⟩ := by
    refine ⟨t, ?_, ?_⟩
    · rw [ran_ok hmarked]
      rfl
    · rw [ran_ok hmarked]
  have hs₂ : Linked H tenantId ⟨afterMark s.db tenantId x.eventId t, file₁⟩ :=
    hs₁.mark hrow (hdone env rfl) t
  -- the second row is another one
  obtain ⟨_, _, _, hxfields⟩ := event_fields hs ho.1 hx
  have hid : x.eventId = o.eventId := by
    rw [hxfields]
  have hne : o'.eventId ≠ o.eventId := by
    have hnodup : (((s.db.pending tenantId).take c.batchSize.toNat).map (·.eventId)).Nodup :=
      nodup_pending s.db c.batchSize.toNat
    rw [hrows] at hnodup
    simp only [List.map_cons, List.map_nil, List.nodup_cons, List.mem_singleton] at hnodup
    exact fun heq => hnodup.1 heq.symm
  have hkeys : o.idempotencyKey ≠ o'.idempotencyKey := by
    intro heq
    have hsame := row_of_key ho.1 ho'.1
      ((tenantId_of_waits ho).trans (tenantId_of_waits ho').symm) heq
    exact hne (by rw [hsame])
  have hother : Waits tenantId (⟨afterMark s.db tenantId x.eventId t, file₁⟩ : Audit F T) o' := by
    refine ⟨?_, ho'.2⟩
    rw [afterMark, Table.mem_update]
    refine ⟨o', ho'.1, ?_⟩
    have hfalse : o'.hasId tenantId x.eventId = false := by
      simp [OutboxRow.hasId, hid, hne]
    rw [hfalse]
    rfl
  have hunrecorded : ∀ z ∈ es ++ [e], z.idempotencyKey ≠ .str o'.idempotencyKey := by
    intro z hz
    rcases List.mem_append.mp hz with hz | hz
    · exact hnewo' z hz
    · rw [List.mem_singleton.mp hz, hkey]
      exact fun heq => hkeys (PyVal.str.inj heq)
  obtain ⟨uuid', env', file₂, e', hfresh', hok', hended', hkey'⟩ :=
    append_next hs₂ hc hended hother hy hunrecorded hblank' hencodes t
  have hthird : Performs H ⟨afterMark s.db tenantId x.eventId t, file₁⟩
      (.append (eventCall c.auditJobId tenantId y)) (.ok env')
      ⟨afterMark s.db tenantId x.eventId t, file₂⟩ := by
    refine ⟨uuid', t, hfresh', ?_, ?_⟩
    · rw [hok']
      rfl
    · rw [fileAfter, hok']
  obtain ⟨sys, hreaches, hstate⟩ :=
    reaches_second hread happend hmark hc hrounds hl hfirst hsecond hthird
  refine ⟨sys, hreaches, ⟨x.eventId, hid, by rw [hstate]⟩, e, e', ?_, hkey, hkey'⟩
  rw [hstate, List.append_cons]
  exact (ended_iff.mp hended').1

omit [LinearOrder T] in
theorem Sends.rows {o o' : OutboxRow T} {t : T} {es : List (EventEnvelope F)} {s' : Audit F T}
    (h : Sends H tenantId o o' t es s s') :
    s'.db.policyOutbox.rows = s.db.policyOutbox.rows.map fun row =>
      if row.hasId tenantId o.eventId then row.dispatched t else row := by
  obtain ⟨_, rfl, hdb⟩ := h.db
  rw [hdb]
  rfl

omit [LinearOrder T] in
/-- Where the second of them had been inserted first, the ledger is out of order. -/
theorem not_inOrder_of_sends {o o' : OutboxRow T} {t : T} {es : List (EventEnvelope F)}
    {s' : Audit F T} (hs' : Linked H tenantId s') (h : Sends H tenantId o o' t es s s') {a b : ℕ}
    (hab : a < b) (ho' : s.db.policyOutbox.rows[a]? = some o')
    (ho : s.db.policyOutbox.rows[b]? = some o) (htenant : o.tenantId = tenantId)
    (htenant' : o'.tenantId = tenantId) : ¬InOrder H s' := by
  intro hordered
  obtain ⟨⟨eventId, rfl, hdb⟩, e, e', hes, hkey, hkey'⟩ := h
  have hrow : ∀ {n : ℕ} {row : OutboxRow T}, s.db.policyOutbox.rows[n]? = some row →
      ∃ row', s'.db.policyOutbox.rows[n]? = some row' ∧ committed row' = committed row := by
    intro n row hn
    have hmap := congrArg (·[n]?) (afterMark_committed s.db tenantId o.eventId t)
    rw [← hdb] at hmap
    simp only [List.getElem?_map, hn, Option.map_some] at hmap
    obtain ⟨row', hrow', hsame⟩ := Option.map_eq_some_iff.mp hmap
    exact ⟨row', hrow', hsame⟩
  obtain ⟨o₁, ho₁, hsame₁⟩ := hrow ho'
  obtain ⟨o₂, ho₂, hsame₂⟩ := hrow ho
  have heo : IsEventOf o₂ e := by
    refine hs'.isEventOf hes (by simp) (List.mem_of_getElem? ho₂) ?_ ?_
    · exact (congrArg (·.tenantId) hsame₂ : o₂.tenantId = o.tenantId).trans htenant
    · rw [hkey]
      exact congrArg _ (congrArg (·.idempotencyKey) hsame₂ :
        o₂.idempotencyKey = o.idempotencyKey).symm
  have heo' : IsEventOf o₁ e' := by
    refine hs'.isEventOf hes (by simp) (List.mem_of_getElem? ho₁) ?_ ?_
    · exact (congrArg (·.tenantId) hsame₁ : o₁.tenantId = o'.tenantId).trans htenant'
    · rw [hkey']
      exact congrArg _ (congrArg (·.idempotencyKey) hsame₁ :
        o₁.idempotencyKey = o'.idempotencyKey).symm
  have hlt := hordered (es ++ [e, e']) (hs'.noReturn.events.trans hes) a b o₁ o₂ hab ho₁ ho₂
    (es.length + 1) es.length e' e (by simp) (by simp) heo' heo
  omega

end Runs

/-! ### Two proposals at one clock reading -/

/-- The proposal of this strategy; its event gets this id. -/
def proposalOf (strategyId pattern eventId : PyStr) : Operation Halves ℕ :=
  .call (.proposeStrategy ⟨py "tenant", py "boundary_probe", pattern, py "job", py "family",
    some strategyId⟩ [] 0 ⟨eventId, 0⟩)

def early : Operation Halves ℕ := proposalOf (py "s") (py "pattern") (py "event-1")
def late : Operation Halves ℕ := proposalOf (py "t") (py "other") (py "event-0")

def afterBoth (a b : Operation Halves ℕ) : Audit Halves ℕ :=
  ⟨b.after sampleHost.policy (a.after sampleHost.policy .empty), []⟩

/-- The row of a proposal. -/
def rowOf (a : Operation Halves ℕ) (strategyId eventId : PyStr) : OutboxRow ℕ where
  eventId := eventId
  tenantId := py "tenant"
  eventType := py "policy.strategy_proposed"
  aggregateType := py "strategy"
  aggregateId := strategyId
  payload := (a.after sampleHost.policy .empty).policyOutbox.rows.flatMap (·.payload)
  idempotencyKey := py "strategy:" ++ strategyId ++ py ":proposed"
  createdAt := 0
  dispatchedAt := none

def earlyRow : OutboxRow ℕ := rowOf early (py "s") (py "event-1")
def lateRow : OutboxRow ℕ := rowOf late (py "t") (py "event-0")

theorem mutates_both : Mutates early ∧ Mutates late := by
  constructor
  · exact encode_py "event-1"
  · exact encode_py "event-0"

/-- The rows of either order: how they are read, and that their clock and their ids do not go
back. -/
theorem rows_both :
    ((afterBoth early late).db.policyOutbox.rows = [earlyRow, lateRow] ∧
      (afterBoth late early).db.policyOutbox.rows = [lateRow, earlyRow]) ∧
    (∀ rows ∈ [[earlyRow, lateRow], [lateRow, earlyRow]],
      (rows.filter (OutboxRow.isPending (py "tenant"))).insertionSort outboxOrder =
        [lateRow, earlyRow]) ∧
    (([earlyRow, lateRow].map fun row =>
        if row.hasId (py "tenant") lateRow.eventId then row.dispatched 0 else row).filter
      (·.tenantId == py "tenant")).Pairwise (fun o o' => o.createdAt ≤ o'.createdAt) ∧
    ([lateRow, earlyRow].filter (OutboxRow.isPending (py "tenant"))).Pairwise outboxOrder := by
  decide +kernel

theorem rows_early_late : (afterBoth early late).db.policyOutbox.rows = [earlyRow, lateRow] :=
  rows_both.1.1

theorem rows_late_early : (afterBoth late early).db.policyOutbox.rows = [lateRow, earlyRow] :=
  rows_both.1.2

theorem pending_both {a b : Operation Halves ℕ}
    (h : (afterBoth a b).db.policyOutbox.rows = [earlyRow, lateRow] ∨
      (afterBoth a b).db.policyOutbox.rows = [lateRow, earlyRow]) :
    (afterBoth a b).db.pending (py "tenant") = [lateRow, earlyRow] := by
  rcases h with h | h
  · rw [PolicyDatabase.pending, h]
    exact rows_both.2.1 _ (.head _)
  · rw [PolicyDatabase.pending, h]
    exact rows_both.2.1 _ (.tail _ (.head _))

theorem reaches_afterBoth {a b : Operation Halves ℕ} (ha : Mutates a) (hb : Mutates b)
    (G : Audit Halves ℕ → Process FlushCall (FlushOp Halves) (FlushReply Halves ℕ)
      (Except (FlushError Halves) (Option PolicyFlushReport)) → Prop) :
    Reaches (auditMachine sampleHost (py "tenant")) G (System.idle Audit.initial)
      (System.idle (afterBoth a b)) := by
  have hfirst := (Reaches.refl (M := auditMachine sampleHost (py "tenant")) (G := G)
    (System.idle Audit.initial)).tail
    (.external ⟨a.after sampleHost.policy .empty, []⟩ ⟨a, ha, rfl⟩)
  exact hfirst.tail (.external (afterBoth a b) ⟨b, hb, rfl⟩)

/-- The later id is read first, whichever row was inserted first. -/
theorem reaches_both {a b : Operation Halves ℕ} (ha : Mutates a) (hb : Mutates b)
    (hrows : (afterBoth a b).db.policyOutbox.rows = [earlyRow, lateRow] ∨
      (afterBoth a b).db.policyOutbox.rows = [lateRow, earlyRow])
    {g : Audit Halves ℕ → FlushOp Halves → Prop}
    (hread : g (afterBoth a b) (.pendingEvents (py "tenant") firstRun.batchSize))
    (happend : ∀ s call, g s (.append call))
    (hmark : ∀ s t eventId, g s (.markDispatched t eventId)) :
    ∃ sys, Reaches (auditMachine sampleHost (py "tenant")) (Asks g) (System.idle Audit.initial)
        sys ∧ Sends sampleHost (py "tenant") lateRow earlyRow 0 [] (afterBoth a b) sys.state := by
  have hstart := reaches_afterBoth ha hb (Asks g)
  have hlinked : Linked sampleHost (py "tenant") (afterBoth a b) :=
    linked (reaches_afterBoth ha hb Unguarded)
  have hended : Ended sampleHost.ledger (afterBoth a b).file ([] : List (EventEnvelope Halves)) := by
    refine ended_iff.mpr ⟨rfl, ?_⟩
    intro text htext x hx
    obtain rfl : [] = text := Option.some.inj htext
    cases hx
  have hbatch : ((afterBoth a b).db.pending (py "tenant")).take firstRun.batchSize.toNat =
      [lateRow, earlyRow] := by
    rw [pending_both hrows]
    rfl
  obtain ⟨sys, hreaches, hsends⟩ := reaches_sends hread happend hmark hlinked
    (accepted_run (isBlank_py 'p' _ rfl) rfl) (by decide) (encode_py _) hended hbatch
    (by
      intro row hrow
      refine ⟨by simp, ?_⟩
      rcases List.mem_pair.mp hrow with rfl | rfl
      · exact isBlank_py 't' _ rfl
      · exact isBlank_py 's' _ rfl) 0
  exact ⟨sys, hstart.trans hreaches, hsends⟩

/-- Two proposals at one reading are recorded in the order of their ids. -/
theorem not_inOrder_always :
    ¬∀ sys : System (Audit Halves ℕ) FlushCall (FlushOp Halves) (FlushReply Halves ℕ)
        (Except (FlushError Halves) (Option PolicyFlushReport)),
      Reaches (auditMachine sampleHost (py "tenant")) Unguarded (System.idle Audit.initial) sys →
        Steady (py "tenant") sys.state → InOrder sampleHost sys.state := by
  intro hall
  obtain ⟨sys, hreaches, hsends⟩ := reaches_both mutates_both.1 mutates_both.2
    (.inl rows_early_late) (g := fun _ _ => True) trivial (fun _ _ => trivial)
    fun _ _ _ => trivial
  have hrun := reaches_mono (fun _ _ _ => trivial) hreaches
  have hsteady : Steady (py "tenant") sys.state := by
    rw [Steady, hsends.rows, rows_early_late]
    exact rows_both.2.2.1
  refine not_inOrder_of_sends (linked hrun) hsends (a := 0) (b := 1) (by decide) ?_ ?_ rfl rfl
    (hall sys hrun hsteady)
  · rw [rows_early_late]
    rfl
  · rw [rows_early_late]
    rfl

/-- The same two proposals the other way round. -/
theorem flush_in_order_sample :
    ∃ sys : System (Audit Halves ℕ) FlushCall (FlushOp Halves) (FlushReply Halves ℕ)
        (Except (FlushError Halves) (Option PolicyFlushReport)),
      (∃ es : List (EventEnvelope Halves),
          Ledger.events sampleHost.ledger sys.state.file = .ok es ∧ es.length = 2) ∧
        InOrder sampleHost sys.state := by
  have horderly : Orderly (py "tenant") (afterBoth late early) := by
    rw [Orderly, rows_late_early]
    exact rows_both.2.2.2
  obtain ⟨sys, hreaches, hsends⟩ := reaches_both mutates_both.2 mutates_both.1
    (.inr rows_late_early) (g := ReadsOrderly (py "tenant")) horderly (fun _ _ => trivial)
    fun _ _ _ => trivial
  have hs : Linked sampleHost (py "tenant") sys.state :=
    linked (reaches_mono (fun _ _ _ => trivial) hreaches)
  obtain ⟨e, e', hes, _, _⟩ := hsends.file
  exact ⟨sys, ⟨_, hs.noReturn.events.trans hes, rfl⟩, flush_in_order hreaches⟩

end PolicyOrder
