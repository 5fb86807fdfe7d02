import VeriMat.Artifacts
import VeriMat.JsonWritable

/-! # Artifact bindings

Calls of any number of connections, one atomic operation after another: a binding and a file
stay as they are once they are there, a row is inserted only behind its file, and so the
reference that a put returns is the one of its bytes for ever. -/
namespace ArtifactBindings

open PyText JsonText PyValue KeyedTable Events AtomicProgram RelyGuarantee Artifacts
open JsonWritable (encode_ascii)

variable {H : Host} {s s' : ArtifactStore} {ref : ArtifactRef}

/-! ## What an operation does -/

/-- The transaction finds the row it would write, or inserts it under a free key. -/
theorem bindTransaction_eq_ok :
    bindTransaction ref s = .ok s' ↔
      (∃ existing, s.binding ref.key = some existing ∧ existing.semantic = ref.semantic ∧ s' = s) ∨
        (s.binding ref.key = none ∧ (encode ref.mediaType).isSome = true ∧
          ∃ index, s.index.insert ref = some index ∧ s' = { s with index }) := by
  rw [bindTransaction]
  cases s.binding ref.key with
  | some existing =>
    simp only [Option.some.injEq, reduceCtorEq, false_and, or_false]
    by_cases hsame : existing.semantic = ref.semantic
    · rw [if_pos hsame, Except.ok.injEq]
      constructor
      · rintro rfl
        exact ⟨existing, rfl, hsame, rfl⟩
      · rintro ⟨_, _, _, rfl⟩
        rfl
    · rw [if_neg hsame]
      constructor
      · intro h
        cases h
      · rintro ⟨_, rfl, hsame', _⟩
        exact absurd hsame' hsame
  | none =>
    cases encode ref.mediaType with
    | none => simp
    | some bytes =>
      cases s.index.insert ref with
      | none => simp
      | some index => simp [Eq.comm (a := s')]

theorem perform_cases {o : ArtifactOp} {r : Except ArtifactError (Result o)}
    (h : perform s o r s') :
    s' = s ∨ (∃ path content, o = .link path content ∧ s' = s.linked path content) ∨
      ∃ ref index, o = .bindRow ref ∧ s.binding ref.key = none ∧
        s.index.insert ref = some index ∧ s' = { s with index } := by
  unfold perform at h
  cases o with
  | select key =>
    left
    exact (congrArg Prod.snd h).symm
  | blobExists path =>
    left
    exact (congrArg Prod.snd h).symm
  | link path content =>
    right; left
    exact ⟨path, content, rfl, (congrArg Prod.snd h).symm⟩
  | readBlob path =>
    left
    rw [respond] at h
    cases hblob : s.blobs path with
    | some content =>
      rw [hblob] at h
      exact (congrArg Prod.snd h).symm
    | none =>
      rw [hblob] at h
      exact (congrArg Prod.snd h).symm
  | bindRow ref =>
    rw [respond] at h
    cases hbind : bindTransaction ref s with
    | error e =>
      left
      rw [hbind] at h
      exact (congrArg Prod.snd h).symm
    | ok s₁ =>
      rw [hbind] at h
      have hs : s' = s₁ := (congrArg Prod.snd h).symm
      rw [hs]
      rcases bindTransaction_eq_ok.mp hbind with ⟨_, _, _, hsame⟩ | ⟨hfree, _, index, hinsert, hnew⟩
      · exact .inl hsame
      · exact .inr (.inr ⟨ref, index, rfl, hfree, hinsert, hnew⟩)

/-- The row is in the index. -/
def Bound (ref : ArtifactRef) (s : ArtifactStore) : Prop := s.binding ref.key = some ref

/-- The file is there, with this content. -/
def Present (path : BlobPath) (content : PyBytes) (s : ArtifactStore) : Prop :=
  s.blobs path = some content

theorem bound_iff : Bound ref s ↔ ref ∈ s.index.rows := by
  constructor
  · intro h
    exact (Table.mem_of_find h).1
  · intro h
    refine Table.find_of_mem (fun _ _ => Eq.symm) h (by simp) ?_
    intro row hrow
    exact beq_iff_eq.mp hrow

theorem binding_eq_some {key : ArtifactKey} (h : s.binding key = some ref) :
    Bound ref s ∧ ref.key = key := by
  obtain ⟨hmem, hkey⟩ := Table.mem_of_find h
  exact ⟨bound_iff.mpr hmem, beq_iff_eq.mp hkey⟩

theorem linked_blobs (path : BlobPath) (content : PyBytes) :
    (s.linked path content).blobs =
      Function.update s.blobs path (some ((s.blobs path).getD content)) := rfl

theorem linked_self {path : BlobPath} {content : PyBytes} :
    ∃ c, Present path c (s.linked path content) := by
  refine ⟨(s.blobs path).getD content, ?_⟩
  rw [Present, linked_blobs, Function.update_self]

theorem Present.linked {path path' : BlobPath} {content content' : PyBytes}
    (h : Present path content s) : Present path content (s.linked path' content') := by
  rw [Present, linked_blobs]
  by_cases hpath : path = path'
  · rw [hpath, Function.update_self, ← hpath, h, Option.getD_some]
  · rw [Function.update_of_ne hpath]
    exact h

/-- A binding is never changed. -/
theorem Bound.perform {o : ArtifactOp} {r : Except ArtifactError (Result o)} (h : Bound ref s)
    (hperform : perform s o r s') : Bound ref s' := by
  rcases perform_cases hperform with rfl | ⟨path, content, _, rfl⟩ |
    ⟨new, index, _, _, hinsert, rfl⟩
  · exact h
  · exact h
  · rw [bound_iff] at h ⊢
    rw [Table.insert_rows hinsert]
    exact List.mem_append_left _ h

/-- A file is never changed. -/
theorem Present.perform {path : BlobPath} {content : PyBytes} {o : ArtifactOp}
    {r : Except ArtifactError (Result o)} (h : Present path content s)
    (hperform : perform s o r s') : Present path content s' := by
  rcases perform_cases hperform with rfl | ⟨path', content', _, rfl⟩ | ⟨_, index, _, _, _, rfl⟩
  · exact h
  · exact h.linked
  · exact h

/-! ## The invariant -/

/-- Files have the content their names are the digests of, and rows have their files. -/
structure Sound (H : Host) (s : ArtifactStore) : Prop where
  named : ∀ path content, Present path content s → H.sha256 content = path.digest
  stored : ∀ ref ∈ s.index.rows, ∃ content, Present (ref.path H) content s ∧
    content.length = ref.sizeBytes
  safe : ∀ ref ∈ s.index.rows, (encode ref.tenantId).isSome = true ∧
    (encode ref.jobId).isSome = true ∧ (encode ref.logicalKey).isSome = true

theorem sound_empty (H : Host) : Sound H .empty := by
  refine ⟨?_, ?_, ?_⟩
  · intro path content h
    cases h
  · intro ref h
    cases h
  · intro ref h
    cases h

/-- A content is linked to its own name. -/
theorem Sound.linked {path : BlobPath} {content : PyBytes} (hs : Sound H s)
    (h : H.sha256 content = path.digest) : Sound H (s.linked path content) := by
  refine ⟨?_, ?_, hs.safe⟩
  · intro path' content' hpresent
    rw [Present, linked_blobs] at hpresent
    by_cases hpath : path' = path
    · rw [hpath, Function.update_self, Option.some.injEq] at hpresent
      cases hblob : s.blobs path with
      | none =>
        rw [hblob, Option.getD_none] at hpresent
        rw [← hpresent, hpath]
        exact h
      | some old =>
        rw [hblob, Option.getD_some] at hpresent
        rw [← hpresent, hpath]
        exact hs.named path old hblob
    · rw [Function.update_of_ne hpath] at hpresent
      exact hs.named path' content' hpresent
  · intro ref href
    obtain ⟨c, hc, hlength⟩ := hs.stored ref href
    exact ⟨c, hc.linked, hlength⟩

/-- A row is inserted behind its file. -/
theorem Sound.inserted {index : Index} {content : PyBytes} (hs : Sound H s)
    (hinsert : s.index.insert ref = some index) (hpresent : Present (ref.path H) content s)
    (hlength : content.length = ref.sizeBytes)
    (hsafe : (encode ref.tenantId).isSome = true ∧ (encode ref.jobId).isSome = true ∧
      (encode ref.logicalKey).isSome = true) : Sound H { s with index } := by
  refine ⟨hs.named, ?_, ?_⟩
  · intro row hrow
    rw [Table.insert_rows hinsert, List.mem_append, List.mem_singleton] at hrow
    rcases hrow with hold | rfl
    · exact hs.stored row hold
    · exact ⟨content, hpresent, hlength⟩
  · intro row hrow
    rw [Table.insert_rows hinsert, List.mem_append, List.mem_singleton] at hrow
    rcases hrow with hold | rfl
    · exact hs.safe row hold
    · exact hsafe

/-! ## Calls -/

variable {F : Type} [PyFloat F]

inductive Call (F : Type) where
  | put (a : PutArgs)
  | putJson (a : PutJson F)
  | read (ref : ArtifactRef)

inductive Answer where
  | ref (ref : ArtifactRef)
  | bytes (content : PyBytes)
  deriving DecidableEq, Repr

def Call.action (H : Host) : Call F → Action Answer
  | .put a => do return .ref (← putBytes H a)
  | .putJson a => do return .ref (← Artifacts.putJson H a)
  | .read ref => do return .bytes (← readBytes H ref)

/-- The `put_bytes` that a call makes. -/
def Call.puts : Call F → Option PutArgs
  | .put a => some a
  | .putJson a => a.args.toOption
  | .read _ => none

/-- The connections of a store on which no retention runs. -/
def machine (F : Type) [PyFloat F] (H : Host) :
    Machine ArtifactStore (Call F) ArtifactOp (fun o => Except ArtifactError (Result o))
      (Except ArtifactError Answer) where
  program c := (c.action H).run
  perform := perform
  external _ _ := False

abbrev Rely (F : Type) [PyFloat F] (H : Host) : ArtifactStore → ArtifactStore → Prop :=
  Interferes (machine F H)

/-- A program of a connection, from an assertion on, with its postconditions. -/
abbrev Goes (F : Type) [PyFloat F] (H : Host) {α : Type} (A : ArtifactStore → Prop) (x : Action α)
    (post : α → ArtifactStore → Prop) (raised : ArtifactError → ArtifactStore → Prop) : Prop :=
  Runs perform (Rely F H) (Sound H) A x post raised

theorem stable_bound {I : ArtifactStore → Prop} : Stable (Rely F H) I (Bound ref) := by
  intro s s' _ h hbound
  rcases h with ⟨o, r, hperform⟩ | hexternal
  · exact hbound.perform hperform
  · exact hexternal.elim

theorem stable_present {I : ArtifactStore → Prop} {path : BlobPath} {content : PyBytes} :
    Stable (Rely F H) I (Present path content) := by
  intro s s' _ h hpresent
  rcases h with ⟨o, r, hperform⟩ | hexternal
  · exact hpresent.perform hperform
  · exact hexternal.elim

/-! ## Statements of a program -/

section Rules
variable {A : ArtifactStore → Prop} {α : Type} {post : α → ArtifactStore → Prop}
  {raised : ArtifactError → ArtifactStore → Prop}

theorem goes_guard {c : Prop} [Decidable c] {e : ArtifactError} {x : Action α}
    (hraise : c → ∀ s, Sound H s → A s → raised e s) (hx : ¬c → Goes F H A x post raised) :
    Goes F H A (do raiseIf c e; x) post raised := by
  by_cases hc : c
  · have hrun : (do raiseIf c e; x) = (throw e : Action α) := by
      rw [Artifacts.raiseIf, if_pos hc]
      rfl
    rw [hrun]
    exact runs_throw (hraise hc)
  · have hrun : (do raiseIf c e; x) = x := by
      rw [Artifacts.raiseIf, if_neg hc]
      rfl
    rw [hrun]
    exact hx hc

/-- An operation that only reads. -/
theorem goes_read {o : ArtifactOp} {B : Result o → ArtifactStore → Prop}
    (hsame : ∀ s r s', perform s o r s' → s' = s) (hB : ∀ b, Stable (Rely F H) (Sound H) (B b))
    (hraised : ∀ e, Stable (Rely F H) (Sound H) (raised e))
    (h : ∀ s r, Sound H s → A s → perform s o r s → ends B raised r s) :
    Goes F H A (act o) B raised := by
  refine runs_ask ⟨?_, ?_, ?_⟩
  · intro s r s' hI _ hperform
    rw [hsame s r s' hperform]
    exact hI
  · intro r
    cases r with
    | ok b => exact hB b
    | error e => exact hraised e
  · intro s r s' hI hA hperform
    have heq := hsame s r s' hperform
    rw [heq] at hperform ⊢
    exact h s r hI hA hperform

theorem select_same (s : ArtifactStore) (key : ArtifactKey) (r : _) (s' : ArtifactStore)
    (h : perform s (.select key) r s') : s' = s := (congrArg Prod.snd h).symm

theorem readBlob_same (s : ArtifactStore) (path : BlobPath) (r : _) (s' : ArtifactStore)
    (h : perform s (.readBlob path) r s') : s' = s := by
  rcases perform_cases h with hsame | ⟨_, _, ho, _⟩ | ⟨_, _, ho, _⟩
  · exact hsame
  · cases ho
  · cases ho

theorem readBlob_cases {path : BlobPath} {r : Except ArtifactError PyBytes}
    (h : perform s (.readBlob path) r s') :
    (∃ content, Present path content s ∧ r = .ok content) ∨
      (s.blobs path = none ∧ r = .error .fileNotFoundError) := by
  rw [perform, respond] at h
  cases hblob : s.blobs path with
  | some content =>
    rw [hblob] at h
    exact .inl ⟨content, hblob, (congrArg Prod.fst h).symm⟩
  | none =>
    rw [hblob] at h
    exact .inr ⟨rfl, (congrArg Prod.fst h).symm⟩

end Rules

/-! ## Reads -/

section Reads
variable {K : ArtifactStore → Prop} {p : Prop} {content : PyBytes}

/-- The row and its file are there, if they are to be counted on. -/
def Readable (H : Host) (K : ArtifactStore → Prop) (p : Prop) (ref : ArtifactRef)
    (content : PyBytes) (s : ArtifactStore) : Prop :=
  K s ∧ (p → Bound ref s ∧ Present (ref.path H) content s)

theorem stable_readable (hK : Stable (Rely F H) (Sound H) K) :
    Stable (Rely F H) (Sound H) (Readable H K p ref content) :=
  hK.and (stable_imp fun _ => stable_bound.and stable_present)

variable (ref content) in
/-- A lookup of a bound row. -/
theorem goes_getRef (hK : Stable (Rely F H) (Sound H) K) :
    Goes F H (Readable H K p ref content) (getRef ref.key)
      (fun row s => Readable H K p ref content s ∧ (p → row = ref)) fun _ _ => ¬p := by
  refine Runs.bind (J := fun row s => Readable H K p ref content s ∧ (p → row = some ref)) ?_ ?_
  · refine goes_guard ?_ fun _ => ?_
    · intro hencode s hs hread hp
      obtain ⟨htenant, hjob, hkey⟩ := hs.safe ref (bound_iff.mp (hread.2 hp).1)
      rw [ArtifactRef.key, Option.isNone_iff_eq_none, Option.isNone_iff_eq_none,
        Option.isNone_iff_eq_none] at hencode
      rcases hencode with h | h | h
      · rw [h] at htenant
        cases htenant
      · rw [h] at hjob
        cases hjob
      · rw [h] at hkey
        cases hkey
    · refine goes_read (select_same · _) ?_ (fun _ => stable_const) ?_
      · intro row
        exact (stable_readable hK).and stable_const
      · intro s r _ hread hperform
        have hr : r = .ok (s.binding ref.key) := (congrArg Prod.fst hperform).symm
        rw [hr]
        exact ⟨hread, fun hp => (hread.2 hp).1⟩
  · intro row
    cases row with
    | none =>
      refine runs_throw ?_
      intro s _ h hp
      cases h.2 hp
    | some row =>
      refine runs_pure ?_
      intro s _ h
      exact ⟨h.1, fun hp => Option.some.inj (h.2 hp)⟩

variable (ref content) in
theorem goes_readBytes (hK : Stable (Rely F H) (Sound H) K) :
    Goes F H (Readable H K p ref content) (readBytes H ref)
      (fun bytes s => K s ∧ (p → bytes = content)) fun _ _ => ¬p := by
  refine Runs.bind (goes_getRef ref content hK) fun current => ?_
  refine goes_guard ?_ fun _ => ?_
  · intro hne s _ h hp
    exact hne (h.2 hp)
  · refine Runs.bind (J := fun bytes s => K s ∧ (p → bytes = content ∧
      content.length = ref.sizeBytes ∧ H.sha256 content = ref.contentSha256)) ?_ ?_
    · refine Runs.tryCatch (J := fun _ _ => ¬p) ?_ fun e => runs_throw fun s _ h => h
      refine goes_read (readBlob_same · _) ?_ (fun _ => stable_const) ?_
      · intro bytes
        exact hK.and stable_const
      · intro s r hs h hperform
        rcases readBlob_cases hperform with ⟨bytes, hblob, rfl⟩ | ⟨hblob, rfl⟩
        · refine ⟨h.1.1, fun hp => ?_⟩
          obtain ⟨hbound, hpresent⟩ := h.1.2 hp
          obtain ⟨stored, hstored, hlength⟩ := hs.stored ref (bound_iff.mp hbound)
          have hbytes : bytes = content := Option.some.inj (hblob.symm.trans hpresent)
          have hsame : stored = content := Option.some.inj (hstored.symm.trans hpresent)
          rw [hsame] at hlength
          exact ⟨hbytes, hlength, hs.named _ _ hpresent⟩
        · intro hp
          have hpresent := (h.1.2 hp).2
          rw [Present, hblob] at hpresent
          cases hpresent
    · intro bytes
      refine goes_guard ?_ fun _ => goes_guard ?_ fun _ => runs_pure ?_
      · intro hne s _ h hp
        obtain ⟨hbytes, hlength, _⟩ := h.2 hp
        rw [hbytes] at hne
        exact hne hlength
      · intro hne s _ h hp
        obtain ⟨hbytes, _, hhash⟩ := h.2 hp
        rw [hbytes] at hne
        exact hne hhash
      · intro s _ h
        exact ⟨h.1, fun hp => (h.2 hp).1⟩

end Reads

/-! ## Puts -/

section Puts
variable {a : PutArgs}

/-- What a put ends in: the reference of its bytes, bound. -/
def Returned (H : Host) (a : PutArgs) (answer : ArtifactRef) (s : ArtifactStore) : Prop :=
  answer = a.ref H ∧ Bound (a.ref H) s

theorem stable_returned (answer : ArtifactRef) :
    Stable (Rely F H) (Sound H) (Returned H a answer) :=
  stable_const.and stable_bound

theorem ref_eq {row : ArtifactRef} (hkey : row.key = a.key)
    (hsemantic : row.semantic = (a.ref H).semantic) : row = a.ref H := by
  cases row
  simp only [ArtifactRef.key, PutArgs.key, Prod.mk.injEq] at hkey
  simp only [ArtifactRef.semantic, PutArgs.ref, Prod.mk.injEq] at hsemantic
  obtain ⟨htenant, hjob, hlogical⟩ := hkey
  obtain ⟨hhash, hsize, hmedia⟩ := hsemantic
  rw [PutArgs.ref, htenant, hjob, hlogical, hhash, hsize, hmedia]

/-- The transaction of a put binds the reference of its bytes, or raises. -/
theorem bindRow_cases {r : Except ArtifactError Unit} (h : perform s (.bindRow (a.ref H)) r s') :
    (Bound (a.ref H) s' ∧ r = .ok ()) ∨ ∃ e, r = .error e := by
  rw [perform, respond] at h
  cases hbind : bindTransaction (a.ref H) s with
  | error e =>
    rw [hbind] at h
    exact .inr ⟨e, (congrArg Prod.fst h).symm⟩
  | ok s₁ =>
    rw [hbind] at h
    have hs' : s' = s₁ := (congrArg Prod.snd h).symm
    refine .inl ⟨?_, (congrArg Prod.fst h).symm⟩
    rcases bindTransaction_eq_ok.mp hbind with ⟨existing, hbinding, hsame, rfl⟩ |
      ⟨_, _, index, hinsert, rfl⟩
    · obtain ⟨hbound, hkey⟩ := binding_eq_some hbinding
      rw [hs', ← ref_eq hkey hsame]
      exact hbound
    · rw [hs', bound_iff, Table.insert_rows hinsert]
      exact List.mem_append_right _ List.mem_cons_self

/-- The file of a put is there. -/
def Published (H : Host) (a : PutArgs) (s : ArtifactStore) : Prop :=
  ∃ content, Present (a.path H) content s

theorem stable_published : Stable (Rely F H) (Sound H) (Published H a) := by
  rintro s s' hI h ⟨content, hpresent⟩
  exact ⟨content, stable_present s s' hI h hpresent⟩

theorem goes_publish :
    Goes F H (fun _ => True) (publish H a) (fun _ s => Published H a s) fun _ _ => True := by
  refine Runs.bind (J := fun there s => there = true → Published H a s) ?_ ?_
  · refine goes_read ?_ ?_ (fun _ => stable_const) ?_
    · intro s r s' hperform
      exact (congrArg Prod.snd hperform).symm
    · intro there
      exact stable_imp fun _ => stable_published
    · intro s r _ _ hperform
      have hr : r = .ok (s.blobs (a.path H)).isSome := (congrArg Prod.fst hperform).symm
      rw [hr]
      exact fun hthere => Option.isSome_iff_exists.mp hthere
  · intro there
    by_cases hthere : there = true
    · rw [if_pos hthere]
      exact runs_pure fun s _ h => h hthere
    · rw [if_neg hthere]
      refine runs_ask ⟨?_, ?_, ?_⟩
      · intro s r s' hs _ hperform
        have hs' : s' = s.linked (a.path H) a.content := (congrArg Prod.snd hperform).symm
        rw [hs']
        exact hs.linked rfl
      · intro r
        cases r with
        | ok u => exact stable_published
        | error e => exact stable_const
      · intro s r s' hs _ hperform
        have hs' : s' = s.linked (a.path H) a.content := (congrArg Prod.snd hperform).symm
        have hr : r = .ok () := (congrArg Prod.fst hperform).symm
        rw [hs', hr]
        exact linked_self

theorem isSafeId_encode {x : PyStr} (h : isSafeId x = true) : (encode x).isSome = true := by
  apply encode_ascii
  intro c hc
  rw [isSafeId, Bool.and_eq_true, List.all_eq_true] at h
  have hchar := h.2 c hc
  simp only [isSafeChar, Bool.or_eq_true, Bool.and_eq_true, decide_eq_true_eq] at hchar
  omega

/-- A put returns the reference of its bytes, bound, or raises. -/
theorem goes_putBytes (hsha : Function.Injective H.sha256) :
    Goes F H (fun _ => True) (putBytes H a) (Returned H a) fun _ _ => True := by
  refine goes_guard (fun _ _ _ _ => trivial) fun htenant => ?_
  refine goes_guard (fun _ _ _ _ => trivial) fun hjob => ?_
  refine goes_guard (fun _ _ _ _ => trivial) fun hlogical => ?_
  refine goes_guard (fun _ _ _ _ => trivial) fun _ => goes_guard (fun _ _ _ _ => trivial) fun _ => ?_
  rw [Bool.not_eq_false] at htenant hjob hlogical
  refine Runs.bind (J := fun row s => ∀ ref, row = some ref → Bound ref s ∧ ref.key = a.key) ?_ ?_
  · refine goes_guard (fun _ _ _ _ => trivial) fun _ => ?_
    refine goes_read (select_same · _) ?_ (fun _ => stable_const) ?_
    · intro row s s' hI h hfound ref href
      obtain ⟨hbound, hkey⟩ := hfound ref href
      exact ⟨stable_bound s s' hI h hbound, hkey⟩
    · intro s r _ _ hperform
      have hr : r = .ok (s.binding a.key) := (congrArg Prod.fst hperform).symm
      rw [hr]
      exact fun ref href => binding_eq_some href
  · intro row
    cases row with
    | some existing =>
      refine goes_guard (fun _ _ _ _ => trivial) fun hsemantic => ?_
      rw [not_not] at hsemantic
      -- the row is that of the bytes; reading it back may still raise
      refine Runs.bind (J := fun _ s => Bound existing s ∧ existing.key = a.key) ?_ ?_
      · have hread := goes_readBytes (F := F) (H := H) existing [] (p := False)
          (K := fun s => Bound existing s ∧ existing.key = a.key) (stable_bound.and stable_const)
        refine (hread.strengthen ?_).weaken (fun _ _ _ h => h.1) fun _ _ _ _ => trivial
        exact fun s _ h => ⟨h existing rfl, False.elim⟩
      · intro _
        refine runs_pure fun s _ h => ?_
        have heq := ref_eq h.2 hsemantic
        exact ⟨heq, heq ▸ h.1⟩
    | none =>
      refine Runs.bind (goes_publish.strengthen fun _ _ _ => trivial) fun _ => ?_
      refine Runs.bind (J := Present (a.path H)) ?_ fun stored => ?_
      · refine goes_read (readBlob_same · _) (fun _ => stable_present) (fun _ => stable_const) ?_
        intro s r _ _ hperform
        rcases readBlob_cases hperform with ⟨content, hpresent, rfl⟩ | ⟨_, rfl⟩
        · exact hpresent
        · trivial
      · refine goes_guard (fun _ _ _ _ => trivial) fun hhash => ?_
        rw [not_not] at hhash
        have hstored : stored = a.content := hsha hhash
        refine Runs.bind (J := fun _ s => Bound (a.ref H) s ∧ Present (a.path H) stored s) ?_ ?_
        · refine runs_ask ⟨?_, ?_, ?_⟩
          · intro s r s' hs hpresent hperform
            rcases perform_cases hperform with rfl | ⟨_, _, ho, _⟩ |
              ⟨ref, index, ho, _, hinsert, rfl⟩
            · exact hs
            · cases ho
            · cases ho
              refine hs.inserted hinsert hpresent (congrArg List.length hstored) ?_
              exact ⟨isSafeId_encode htenant, isSafeId_encode hjob, isSafeId_encode hlogical⟩
          · intro r
            cases r with
            | ok u => exact stable_bound.and stable_present
            | error e => exact stable_const
          · intro s r s' hs hpresent hperform
            have hlater : Present (a.path H) stored s' := hpresent.perform hperform
            rcases bindRow_cases hperform with ⟨hbound, rfl⟩ | ⟨e, rfl⟩
            · exact ⟨hbound, hlater⟩
            · trivial
        · intro _
          have hget := goes_getRef (F := F) (H := H) (a.ref H) stored (p := True)
            (K := fun s => Bound (a.ref H) s) stable_bound
          refine (hget.strengthen ?_).weaken ?_ fun _ _ _ _ => trivial
          · exact fun s _ h => ⟨h.1, fun _ => h⟩
          · exact fun row s _ h => ⟨h.2 trivial, h.1.1⟩

end Puts

/-! ## What a call writes -/

/-- The file that has just been found to be what its name says. -/
def checked (H : Host) : Entry ArtifactOp (fun o => Except ArtifactError (Result o)) → Option BlobPath
  | ⟨.readBlob path, .ok content⟩ => if H.sha256 content = path.digest then some path else none
  | _ => none

/-- A call links its own content, and inserts its own row right after it has checked the file. -/
def writes (H : Host) (c : Call F) :
    Protocol ArtifactOp (fun o => Except ArtifactError (Result o)) (Option BlobPath) where
  allowed g
    | .link path content => ∃ a, c.puts = some a ∧ path = a.path H ∧ content = a.content
    | .bindRow ref => ∃ a, c.puts = some a ∧ ref = a.ref H ∧ g = some (a.path H)
    | _ => True
  replies _ o r g' := g' = checked H ⟨o, r⟩

section Writes
variable {c : Call F} {α β : Type} {g : Option BlobPath}

/-- Anything may follow. -/
abbrev Free {α : Type} (_ : Option BlobPath) (_ : Except ArtifactError α) : Prop := True

theorem follows_act {o : ArtifactOp} {post : Option BlobPath → Except ArtifactError (Result o) → Prop} :
    (act o).run.Follows (writes H c) post g ↔
      (writes H c).allowed g o ∧ ∀ r, post (checked H ⟨o, r⟩) r := by
  constructor
  · rintro ⟨hallowed, hpost⟩
    exact ⟨hallowed, fun r => hpost r _ rfl⟩
  · rintro ⟨hallowed, hpost⟩
    refine ⟨hallowed, ?_⟩
    rintro r g' rfl
    exact hpost r

theorem follows_guard {q : Prop} [Decidable q] {e : ArtifactError} {x : Action α}
    (hx : ¬q → x.run.Follows (writes H c) Free g) :
    (do raiseIf q e; x : Action α).run.Follows (writes H c) Free g := by
  by_cases hq : q
  · have hrun : (do raiseIf q e; x) = (throw e : Action α) := by
      rw [Artifacts.raiseIf, if_pos hq]
      rfl
    rw [hrun]
    trivial
  · have hrun : (do raiseIf q e; x) = x := by
      rw [Artifacts.raiseIf, if_neg hq]
      rfl
    rw [hrun]
    exact hx hq

theorem follows_bind_free {x : Action α} {f : α → Action β}
    (hx : x.run.Follows (writes H c) Free g) (hf : ∀ a g, (f a).run.Follows (writes H c) Free g) :
    (x >>= f).run.Follows (writes H c) Free g := by
  rw [follows_run_bind]
  refine hx.mono ?_
  intro g r _
  cases r with
  | ok a => exact hf a g
  | error e => trivial

theorem follows_selectRow {key : ArtifactKey} :
    (selectRow key).run.Follows (writes H c) Free g :=
  follows_guard fun _ => follows_act.mpr ⟨trivial, fun _ => trivial⟩

theorem follows_getRef {key : ArtifactKey} : (getRef key).run.Follows (writes H c) Free g := by
  refine follows_bind_free follows_selectRow fun row g => ?_
  cases row with
  | none => trivial
  | some row => trivial

theorem follows_readBytes : (readBytes H ref).run.Follows (writes H c) Free g := by
  refine follows_bind_free follows_getRef fun _ _ => follows_guard fun _ => ?_
  refine follows_bind_free ?_ fun _ _ => follows_guard fun _ => follows_guard fun _ => trivial
  rw [readFile, follows_run_tryCatch]
  refine follows_act.mpr ⟨trivial, fun r => ?_⟩
  cases r with
  | ok content => trivial
  | error e => trivial

theorem follows_putBytes {a : PutArgs} (hc : c.puts = some a) :
    (putBytes H a).run.Follows (writes H c) Free g := by
  refine follows_guard fun _ => follows_guard fun _ => follows_guard fun _ => ?_
  refine follows_guard fun _ => follows_guard fun _ => ?_
  refine follows_bind_free follows_selectRow fun row g => ?_
  cases row with
  | some existing =>
    exact follows_guard fun _ => follows_bind_free follows_readBytes fun _ _ => trivial
  | none =>
    refine follows_bind_free ?_ fun _ g => ?_
    · refine follows_bind_free (follows_act.mpr ⟨trivial, fun _ => trivial⟩) fun there g => ?_
      by_cases hthere : there = true
      · rw [if_pos hthere]
        trivial
      · rw [if_neg hthere]
        exact follows_act.mpr ⟨⟨a, hc, rfl, rfl⟩, fun _ => trivial⟩
    · rw [follows_run_bind]
      refine follows_act.mpr ⟨trivial, fun r => ?_⟩
      cases r with
      | error e => trivial
      | ok stored =>
        refine follows_guard fun hhash => ?_
        rw [not_not] at hhash
        have hchecked : checked H ⟨.readBlob (a.path H), .ok stored⟩ = some (a.path H) := by
          rw [checked, if_pos]
          exact hhash
        rw [hchecked]
        refine follows_bind_free (follows_act.mpr ⟨⟨a, hc, rfl, rfl⟩, fun _ => trivial⟩) ?_
        exact fun _ _ => follows_getRef

theorem follows_action (c : Call F) :
    (c.action H).run.Follows (writes H c) Free none := by
  cases c with
  | put a => exact follows_bind_free (follows_putBytes rfl) fun _ _ => trivial
  | putJson a =>
    refine follows_bind_free ?_ fun _ _ => trivial
    rw [Artifacts.putJson]
    cases hargs : a.args with
    | error e => trivial
    | ok args =>
      refine follows_putBytes ?_
      rw [Call.puts, hargs]
      rfl
  | read ref => exact follows_bind_free follows_readBytes fun _ _ => trivial

/-- The file that a process has just checked. -/
def lastChecked (H : Host)
    (log : List (Entry ArtifactOp fun o => Except ArtifactError (Result o))) : Option BlobPath :=
  log.getLast?.bind (checked H)

theorem tracking_writes {S : Type} (M : Machine S (Call F) ArtifactOp
    (fun o => Except ArtifactError (Result o)) (Except ArtifactError Answer))
    (hprogram : ∀ c, M.program c = (c.action H).run) :
    Tracking M Unguarded (fun _ => True) (writes H) (fun _ _ log g => g = lastChecked H log)
      fun _ => Free := by
  constructor
  · intro s c _
    refine ⟨none, rfl, ?_⟩
    rw [hprogram]
    exact follows_action c
  · intro s c log g o next r s' _ _ _ _ _
    refine ⟨checked H ⟨o, r⟩, rfl, ?_⟩
    rw [lastChecked, List.getLast?_append, List.getLast?_singleton, Option.some_or, Option.bind_some]
  · intro s c log g s' _ h _
    exact h

end Writes

/-! ## Binding safety -/

variable (ref) in
theorem meets_action (hsha : Function.Injective H.sha256) {p : Prop} (content : PyBytes)
    (c : Call F) :
    Program.Meets perform (Rely F H) (Sound H)
      (fun r s => (∀ a answer, c.puts = some a → r = .ok answer →
          answer = .ref (a.ref H) ∧ Bound (a.ref H) s) ∧
        (p → c = .read ref → r = .ok (.bytes content)))
      (c.action H).run (Readable H (fun _ => True) p ref content) := by
  have hput : ∀ a, c.puts = some a → (p → c ≠ .read ref) →
      Program.Meets perform (Rely F H) (Sound H)
        (fun r s => (∀ a answer, c.puts = some a → r = .ok answer →
            answer = .ref (a.ref H) ∧ Bound (a.ref H) s) ∧
          (p → c = .read ref → r = .ok (.bytes content)))
        (do return Answer.ref (← putBytes H a) : Action Answer).run
        (Readable H (fun _ => True) p ref content) := by
    intro a ha hne
    have hgoes : Goes F H (Readable H (fun _ => True) p ref content)
        (do return Answer.ref (← putBytes H a))
        (fun answer s => answer = .ref (a.ref H) ∧ Bound (a.ref H) s) fun _ _ => True := by
      refine Runs.bind ((goes_putBytes hsha).strengthen fun _ _ _ => trivial) fun answer => ?_
      refine runs_pure fun s _ h => ?_
      rw [h.1]
      exact ⟨rfl, h.2⟩
    refine Program.Meets.weaken hgoes ?_
    intro r s _ h
    refine ⟨?_, fun hp hread => absurd hread (hne hp)⟩
    rintro a' answer ha' rfl
    rw [ha, Option.some.injEq] at ha'
    rw [← ha']
    exact h
  cases c with
  | put a => exact hput a rfl fun _ h => by cases h
  | putJson a =>
    have hne : p → Call.putJson a ≠ .read ref := by
      intro _ h
      cases h
    cases hargs : a.args with
    | ok args =>
      have hrun : (Call.putJson a).action H = (do return Answer.ref (← putBytes H args)) := by
        rw [Call.action, Artifacts.putJson, hargs]
      have hputs : (Call.putJson a).puts = some args := by
        rw [Call.puts, hargs]
        rfl
      rw [hrun]
      exact hput args hputs hne
    | error e =>
      have hrun : (Call.putJson a).action H = throw e := by
        rw [Call.action, Artifacts.putJson, hargs]
        rfl
      rw [hrun]
      intro s _ _
      refine ⟨?_, fun hp hread => absurd hread (hne hp)⟩
      intro a' answer _ h
      cases h
  | read row =>
    -- a read of another reference may end in any way
    have hgoes : Goes F H (Readable H (fun _ => True) p ref content)
        (do return Answer.bytes (← readBytes H row))
        (fun answer _ => p → row = ref → answer = .bytes content) fun _ _ => ¬(p ∧ row = ref) := by
      have hread := goes_readBytes (F := F) (H := H) row content (K := fun _ => True)
        (p := p ∧ row = ref) stable_const
      refine Runs.bind (hread.strengthen ?_) fun bytes => ?_
      · intro s _ h
        refine ⟨trivial, ?_⟩
        rintro ⟨hp, rfl⟩
        exact h.2 hp
      · refine runs_pure fun s _ h hp hrow => ?_
        rw [h.2 ⟨hp, hrow⟩]
    refine Program.Meets.weaken hgoes ?_
    intro r s _ h
    refine ⟨fun a answer ha => (by cases ha), ?_⟩
    rintro hp hrow
    cases hrow
    cases r with
    | ok answer =>
      rw [h hp rfl]
    | error e => exact absurd ⟨hp, rfl⟩ h

/-- A store in which every row has its file. -/
structure SoundStore (H : Host) where
  store : ArtifactStore
  sound : Sound H store

/-- The runs of the connections of a store. -/
def Reached (F : Type) [PyFloat F] (H : Host) (start : SoundStore H) :
    System ArtifactStore (Call F) ArtifactOp (fun o => Except ArtifactError (Result o))
      (Except ArtifactError Answer) → Prop :=
  Reaches (machine F H) Unguarded (System.idle start.store)

/-- Keys are bound once and for ever; a put that returns gives the reference of its bytes, and a
put of other bytes under a bound key raises and binds nothing. -/
structure BindingSafety (F : Type) [PyFloat F] (H : Host) (start : SoundStore H) : Prop where
  unique : ∀ sys, Reached F H start sys → ∀ row ∈ sys.state.index.rows,
    ∀ row' ∈ sys.state.index.rows, row.key = row'.key → row = row'
  kept : ∀ sys sys', Reached F H start sys → Reaches (machine F H) Unguarded sys sys' →
    ∀ key ref, sys.state.binding key = some ref → sys'.state.binding key = some ref
  returned : ∀ sys, Reached F H start sys → ∀ (i : ℕ) p a answer, sys.processes[i]? = some p →
    p.call.puts = some a → p.program = .done (.ok answer) →
      answer = .ref (a.ref H) ∧ sys.state.binding a.key = some (a.ref H)
  refused : ∀ sys sys', Reached F H start sys → Reaches (machine F H) Unguarded sys sys' →
    ∀ (i : ℕ) p a ref content r, sys.state.binding a.key = some ref →
      sys.state.blobs (ref.path H) = some content →
      (a.content ≠ content ∨ a.mediaType ≠ ref.mediaType) → sys'.processes[i]? = some p →
      p.call.puts = some a → p.program = .done r → ∃ e, r = .error e
  untouched : ∀ sys, Reached F H start sys → ∀ (i : ℕ) c log o next r s,
    sys.processes[i]? = some ⟨c, log, .step o next⟩ → perform sys.state o r s →
      s.index = sys.state.index ∨ ∃ a, c.puts = some a ∧ sys.state.binding a.key = none ∧
        s.index.rows = sys.state.index.rows ++ [a.ref H]
  readback : ∀ sys sys', Reached F H start sys → Reaches (machine F H) Unguarded sys sys' →
    ∀ (i j : ℕ) p q a ref r, sys.processes[i]? = some p → p.call.puts = some a →
      p.program = .done (.ok (.ref ref)) → sys.processes.length ≤ j →
      sys'.processes[j]? = some q → q.call = .read ref → q.program = .done r →
        r = .ok (.bytes a.content)

section Safety
variable {start : SoundStore H}
  {sys sys' : System ArtifactStore (Call F) ArtifactOp (fun o => Except ArtifactError (Result o))
    (Except ArtifactError Answer)}

theorem runs_sound (hsha : Function.Injective H.sha256) (h : Reached F H start sys) :
    Sound H sys.state ∧ ∀ (i : ℕ) p a answer, sys.processes[i]? = some p → p.call.puts = some a →
      p.program = .done (.ok answer) → answer = .ref (a.ref H) ∧ Bound (a.ref H) sys.state := by
  have hcalls := meets_action (F := F) (H := H) (p := False) ⟨[], [], [], [], 0, []⟩ hsha []
  obtain ⟨⟨hsound, _⟩, hdone⟩ := sound (M := machine F H) hcalls (stable_readable stable_const)
    (fun _ _ _ h => h.elim) start.sound ⟨trivial, False.elim⟩ h
  refine ⟨hsound, ?_⟩
  intro i p a answer hp ha hprogram
  exact (hdone i p (.ok answer) hp hprogram).1 a answer ha rfl

theorem bound_reaches (h : Reaches (machine F H) Unguarded sys sys') (hbound : Bound ref sys.state) :
    Bound ref sys'.state :=
  h.invariant hbound (fun _ _ _ _ hb hperform => hb.perform hperform) fun _ _ _ h => h.elim

theorem binding_iff {key : ArtifactKey} :
    s.binding key = some ref ↔ Bound ref s ∧ ref.key = key := by
  constructor
  · exact binding_eq_some
  · rintro ⟨hbound, rfl⟩
    exact hbound

theorem runs_untouched (h : Reached F H start sys) {i : ℕ} {c : Call F}
    {log : List (Entry ArtifactOp fun o => Except ArtifactError (Result o))} {o : ArtifactOp}
    {next : Except ArtifactError (Result o) → Program ArtifactOp
      (fun o => Except ArtifactError (Result o)) (Except ArtifactError Answer)}
    {r : Except ArtifactError (Result o)} {s : ArtifactStore}
    (hi : sys.processes[i]? = some ⟨c, log, .step o next⟩) (hperform : perform sys.state o r s) :
    s.index = sys.state.index ∨ ∃ a, c.puts = some a ∧ sys.state.binding a.key = none ∧
      s.index.rows = sys.state.index.rows ++ [a.ref H] := by
  obtain ⟨_, htracks⟩ := (tracking_writes (machine F H) fun _ => rfl).from_idle h trivial
    (fun _ _ _ _ _ _ _ _ _ _ _ => trivial) fun _ _ _ _ => trivial
  obtain ⟨g, _, hallowed, _⟩ := htracks i _ hi
  rcases perform_cases hperform with rfl | ⟨_, _, _, rfl⟩ | ⟨ref, index, rfl, hfree, hinsert, rfl⟩
  · exact .inl rfl
  · exact .inl rfl
  · obtain ⟨a, ha, rfl, _⟩ := hallowed
    exact .inr ⟨a, ha, hfree, Table.insert_rows hinsert⟩

theorem bindingSafety (hsha : Function.Injective H.sha256) (start : SoundStore H) :
    BindingSafety F H start where
  unique sys _ row hrow row' hrow' hkey :=
    sys.state.index.eq_of_clash (fun _ _ => Eq.symm) hrow hrow' hkey
  kept sys sys' _ h key ref hbinding := by
    obtain ⟨hbound, hkey⟩ := binding_eq_some hbinding
    exact binding_iff.mpr ⟨bound_reaches h hbound, hkey⟩
  returned sys h i p a answer hp ha hprogram := by
    obtain ⟨hanswer, hbound⟩ := (runs_sound hsha h).2 i p a answer hp ha hprogram
    exact ⟨hanswer, hbound⟩
  refused sys sys' h hreach i p a ref content r hbinding hblob hne hp ha hprogram := by
    cases r with
    | error e => exact ⟨e, rfl⟩
    | ok answer =>
      obtain ⟨hbound, hkey⟩ := binding_eq_some hbinding
      obtain ⟨_, hbound'⟩ := (runs_sound hsha (h.trans hreach)).2 i p a answer hp ha hprogram
      -- the key is still bound to the row it was bound to
      have hrow : ref = a.ref H :=
        sys'.state.index.eq_of_clash (fun _ _ => Eq.symm) (bound_iff.mp (bound_reaches hreach hbound))
          (bound_iff.mp hbound') hkey
      have hcontent : content = a.content := by
        apply hsha
        rw [(runs_sound hsha h).1.named _ _ hblob, hrow]
        rfl
      rcases hne with hne | hne
      · exact absurd hcontent.symm hne
      · rw [hrow] at hne
        exact absurd rfl hne
  untouched sys h i c log o next r s hi hperform := runs_untouched h hi hperform
  readback sys sys' h hreach i j p q a ref r hp ha hprogram hj hq hcall hdone := by
    obtain ⟨hanswer, hbound⟩ := (runs_sound hsha h).2 i p a _ hp ha hprogram
    rw [Answer.ref.injEq] at hanswer
    obtain ⟨content, hpresent, _⟩ := (runs_sound hsha h).1.stored _ (bound_iff.mp hbound)
    have hcontent : content = a.content := hsha ((runs_sound hsha h).1.named _ _ hpresent)
    have hcalls := meets_action (F := F) (H := H) (p := True) (a.ref H) hsha content
    have hlater := sound_later (M := machine F H) hcalls (stable_readable stable_const)
      (fun sys₁ h₁ => (runs_sound hsha (h.trans h₁)).1) ⟨trivial, fun _ => ⟨hbound, hpresent⟩⟩
      hreach j q r hj hq hdone
    rw [hlater.2 trivial (hanswer ▸ hcall), hcontent]

end Safety

/-- An injective function that is the digest of these three texts. -/
def swapHost : Host where
  sha256 :=
    Equiv.swap (py "tenant")
        (py "e9da86d351cf9a7642d8c50195c3f466220911a15c177809bd1161a51e8c5f24") ∘
      Equiv.swap (py "content")
        (py "ed7002b439e9ac845f22357d822bac1444730fbdb6016d3ec9432297b9ec9f73") ∘
      Equiv.swap [] (py "e3b0c44298fc1c149afbf4c8996fb92427ae41e4649b934ca495991b7852b855")
  fromisoformat _ := none

theorem swapHost_injective : Function.Injective swapHost.sha256 :=
  (Equiv.injective _).comp ((Equiv.injective _).comp (Equiv.injective _))

theorem swap_middle {α : Type} [DecidableEq α] {a b c d e f : α} (he : c ≠ e) (hf : c ≠ f)
    (ha : d ≠ a) (hb : d ≠ b) : (Equiv.swap a b ∘ Equiv.swap c d ∘ Equiv.swap e f) c = d := by
  rw [Function.comp_apply, Function.comp_apply, Equiv.swap_apply_of_ne_of_ne he hf,
    Equiv.swap_apply_left, Equiv.swap_apply_of_ne_of_ne ha hb]

theorem swap_outer {α : Type} [DecidableEq α] {a b c d e f : α} (he : a ≠ e) (hf : a ≠ f)
    (hc : a ≠ c) (hd : a ≠ d) : (Equiv.swap a b ∘ Equiv.swap c d ∘ Equiv.swap e f) a = b := by
  rw [Function.comp_apply, Function.comp_apply, Equiv.swap_apply_of_ne_of_ne he hf,
    Equiv.swap_apply_of_ne_of_ne hc hd, Equiv.swap_apply_left]

theorem swapHost_tenant : swapHost.sha256 (py "tenant") =
    py "e9da86d351cf9a7642d8c50195c3f466220911a15c177809bd1161a51e8c5f24" :=
  swap_outer (py_ne_nil (by decide)) (py_injective.ne (by decide))
    (py_injective.ne (by decide)) (py_injective.ne (by decide))

theorem swapHost_content : swapHost.sha256 (py "content") =
    py "ed7002b439e9ac845f22357d822bac1444730fbdb6016d3ec9432297b9ec9f73" :=
  swap_middle (py_ne_nil (by decide)) (py_injective.ne (by decide))
    (py_injective.ne (by decide)) (py_injective.ne (by decide))

theorem bindingSafety_swapHost :
    BindingSafety NonFinite swapHost ⟨.empty, sound_empty swapHost⟩ :=
  bindingSafety swapHost_injective _

end ArtifactBindings
