import VeriMat.RetentionEffect

/-! # Retention beside puts

The connections of an artifact store go on, one atomic operation after another, while one
execution of a plan runs beside them. A row is inserted behind a look at its file; as long as no
file is moved between the two, every row has its file when the execution has ended. -/
namespace RetentionRace

open PyText JsonText PyValue KeyedTable Events JobStore AtomicProgram RelyGuarantee
open Retention RetentionEffect
open Artifacts (ArtifactOp ArtifactError ArtifactRef ArtifactStore BlobPath Index blobPath)
open ArtifactBindings (Answer Call Sound)

variable {F T : Type} {H : RetentionHost F T} {plan : Plan T} {w w' : World T}
  {moved : List Slot} {ids deleted : List PyStr} {digest : PyStr}

/-! ## What the connections do -/

/-- A file is linked under the digest of its content, and a row is inserted for a file that is
there, outside of an open transaction. -/
inductive Puts (H : Host) (w : World T) : World T → Prop where
  | reads : Puts H w w
  | links (path : BlobPath) (content : PyBytes) (h : H.sha256 content = path.digest) :
      Puts H w { w with artifacts := w.artifacts.linked path content }
  | binds (ref : ArtifactRef) (index : Index) (content : PyBytes) (hclosed : w.transaction = none)
      (hinsert : w.artifacts.index.insert ref = some index)
      (hfile : w.file (.blob (ref.path H)) = some content)
      (hlength : content.length = ref.sizeBytes) :
      Puts H w { w with artifacts := { w.artifacts with index } }

/-- Files have the content that their names are the digests of. -/
def Named (H : Host) (w : World T) : Prop :=
  ∀ path content, w.file (.blob path) = some content → H.sha256 content = path.digest

/-- Every row has its file in its place or, when it has been moved, in the quarantine. -/
structure Backed (H : Host) (plan : Plan T) (moved : List Slot) (w : World T) : Prop where
  rows : ∀ row ∈ w.artifacts.index.rows, ∃ content : PyBytes, content.length = row.sizeBytes ∧
    (w.file (.blob (row.path H)) = some content ∨
      ∃ digest, .blob digest ∈ moved ∧ row.path H = blobPath H plan.tenantId digest ∧
        w.held plan.planId (.blob digest) = some content)
  named : ∀ digest, .blob digest ∈ moved → ∀ content,
    w.held plan.planId (.blob digest) = some content → H.sha256 content = digest

/-- Only these jobs have artifacts of this content. -/
def Listed (plan : Plan T) (digest : PyStr) (ids : List PyStr) (w : World T) : Prop :=
  ∀ row ∈ w.artifacts.index.rows, row.tenantId = plan.tenantId → row.contentSha256 = digest →
    row.jobId ∈ ids

/-- In the transaction, with the rows of some jobs deleted. -/
structure Working (H : Host) (plan : Plan T) (moved : List Slot) (ids deleted : List PyStr)
    (w : World T) : Prop where
  backed : Backed H plan moved w
  quarantine : (w.quarantine plan.planId).isSome = true
  transaction : ∃ d, w.transaction = some d ∧ d.index = w.artifacts.index.delete fun row =>
    row.tenantId == plan.tenantId && decide (row.jobId ∈ deleted)
  unshared : ∀ digest, .blob digest ∈ moved → Listed plan digest ids w

section Stability
variable {H : Host}

/-- A file that is there stays there. -/
theorem Puts.file (h : Puts H w w') {path : BlobPath} {content : PyBytes}
    (hfile : w.file (.blob path) = some content) : w'.file (.blob path) = some content := by
  cases h with
  | reads => exact hfile
  | links path' content' => exact ArtifactBindings.Present.linked hfile
  | binds => exact hfile

theorem Puts.held (h : Puts H w w') : w'.held = w.held := by
  cases h <;> rfl

theorem Puts.quarantine (h : Puts H w w') : w'.quarantine = w.quarantine := by
  cases h <;> rfl

theorem Puts.transaction (h : Puts H w w') : w'.transaction = w.transaction := by
  cases h <;> rfl

/-- A new row has its file. -/
theorem Puts.rows (h : Puts H w w') {row : ArtifactRef} (hrow : row ∈ w'.artifacts.index.rows) :
    row ∈ w.artifacts.index.rows ∨
      ∃ content : PyBytes, content.length = row.sizeBytes ∧
        w'.file (.blob (row.path H)) = some content := by
  cases h with
  | reads => exact .inl hrow
  | links => exact .inl hrow
  | binds ref index content _ hinsert hfile hlength =>
    rw [Table.insert_rows hinsert, List.mem_append, List.mem_singleton] at hrow
    rcases hrow with hold | rfl
    · exact .inl hold
    · exact .inr ⟨content, hlength, hfile⟩

/-- No row is inserted beside an open transaction. -/
theorem Puts.index (h : Puts H w w') {d : Databases T} (hopen : w.transaction = some d) :
    w'.artifacts.index = w.artifacts.index := by
  cases h with
  | reads => rfl
  | links => rfl
  | binds _ _ _ hclosed =>
    rw [hopen] at hclosed
    cases hclosed

theorem Puts.named (h : Puts H w w') (hnamed : Named H w) : Named H w' := by
  cases h with
  | reads => exact hnamed
  | binds => exact hnamed
  | links path content hcontent =>
    intro path' content' hfile
    change Function.update w.artifacts.blobs path _ path' = _ at hfile
    rw [Function.update_apply] at hfile
    by_cases hpath : path' = path
    · rw [if_pos hpath, Option.some.injEq] at hfile
      rw [hpath, ← hfile]
      cases hold : w.artifacts.blobs path with
      | none => exact hcontent
      | some old => exact hnamed path old hold
    · rw [if_neg hpath] at hfile
      exact hnamed path' content' hfile

theorem stable_backed {I : World T → Prop} : Stable (Puts H) I (Backed H plan moved) := by
  intro w w' _ h hbacked
  constructor
  · intro row hrow
    rcases h.rows hrow with hold | ⟨content, hlength, hfile⟩
    · obtain ⟨content, hlength, hfile | ⟨digest, hmoved, hpath, hheld⟩⟩ := hbacked.rows row hold
      · exact ⟨content, hlength, .inl (h.file hfile)⟩
      · exact ⟨content, hlength, .inr ⟨digest, hmoved, hpath, by rw [h.held]; exact hheld⟩⟩
    · exact ⟨content, hlength, .inl hfile⟩
  · rw [h.held]
    exact hbacked.named

theorem stable_working {I : World T → Prop} :
    Stable (Puts H) I (Working H plan moved ids deleted) := by
  intro w w' hI h hworking
  obtain ⟨d, hopen, hindex⟩ := hworking.transaction
  refine ⟨stable_backed w w' hI h hworking.backed, ?_, ⟨d, ?_, ?_⟩, ?_⟩
  · rw [h.quarantine]
    exact hworking.quarantine
  · rw [h.transaction]
    exact hopen
  · rw [h.index hopen]
    exact hindex
  · intro digest hmoved
    rw [Listed, h.index hopen]
    exact hworking.unshared digest hmoved

theorem stable_listed {I : World T → Prop} {jobs : List PyStr} :
    Stable (Puts H) I fun w => Working H plan moved ids deleted w ∧ Listed plan digest jobs w := by
  rintro w w' hI h ⟨hworking, hlisted⟩
  obtain ⟨d, hopen, _⟩ := hworking.transaction
  refine ⟨stable_working w w' hI h hworking, ?_⟩
  rw [Listed, h.index hopen]
  exact hlisted

end Stability

/-! ## The moves and the commit -/

section Effects
variable {slot : Slot} {content : PyBytes}

theorem file_blob (w : World T) (path : BlobPath) : w.file (.blob path) = w.artifacts.blobs path := rfl

theorem blob_ne_ledger {H : Host} {tenantId jobId : PyStr} {path : BlobPath} :
    Place.blob path ≠ Slot.place H tenantId (.ledger jobId) := by
  intro h
  cases h

/-- One file is moved, and only the jobs of the plan have artifacts of its content. -/
theorem Working.move {H : Host} (hsha : Function.Injective H.sha256) (hnamed : Named H w)
    (h : Working H plan moved ids [] w) (hfile : w.file (slot.place H plan.tenantId) = some content)
    (hlisted : ∀ digest, slot = .blob digest → Listed plan digest ids w) :
    Working H plan (moved ++ [slot]) ids []
      ((w.setHeld plan.planId slot (some content)).setFile (slot.place H plan.tenantId) none) := by
  have hcontent : ∀ digest, slot = .blob digest → H.sha256 content = digest := by
    rintro digest rfl
    exact hnamed _ _ hfile
  refine ⟨⟨?_, ?_⟩, ?_, ?_, ?_⟩
  · intro row hrow
    rw [setFile_index] at hrow
    rw [setFile_file, setFile_held, Function.update_apply]
    obtain ⟨old, hlength, hplace | ⟨digest, hmoved, hpath, hheld⟩⟩ := h.backed.rows row hrow
    · by_cases hp : Place.blob (row.path H) = slot.place H plan.tenantId
      · -- the file of this row is the one that is moved
        cases slot with
        | ledger jobId => cases hp
        | blob digest =>
          have hpath : row.path H = blobPath H plan.tenantId digest := Place.blob.inj hp
          have hold : old = content := by
            rw [hp, hfile] at hplace
            exact (Option.some.inj hplace).symm
          refine ⟨old, hlength, .inr ⟨digest, List.mem_append_right _ (List.mem_singleton_self _),
            hpath, ?_⟩⟩
          rw [setHeld_held h.quarantine, if_pos rfl, hold]
      · exact ⟨old, hlength, .inl (by rw [if_neg hp]; exact hplace)⟩
    · refine ⟨old, hlength, .inr ⟨digest, List.mem_append_left _ hmoved, hpath, ?_⟩⟩
      rw [setHeld_held h.quarantine]
      by_cases hs : Slot.blob digest = slot
      · have hold : old = content := by
          apply hsha
          rw [h.backed.named digest hmoved old hheld, hcontent digest hs.symm]
        rw [if_pos hs, hold]
      · rw [if_neg hs]
        exact hheld
  · intro digest hmoved found hfound
    rw [setFile_held, setHeld_held h.quarantine] at hfound
    by_cases hs : Slot.blob digest = slot
    · rw [if_pos hs, Option.some.injEq] at hfound
      rw [← hfound]
      exact hcontent digest hs.symm
    · rw [if_neg hs] at hfound
      have hold : Slot.blob digest ∈ moved := by
        rcases List.mem_append.mp hmoved with hold | hnew
        · exact hold
        · exact absurd (List.mem_singleton.mp hnew) hs
      exact h.backed.named digest hold found hfound
  · rw [setFile_quarantine]
    exact setHeld_isSome h.quarantine
  · rw [setFile_transaction, setFile_index]
    exact h.transaction
  · intro digest hmoved row hrow
    rw [setFile_index] at hrow
    rcases List.mem_append.mp hmoved with hold | hnew
    · exact h.unshared digest hold row hrow
    · exact hlisted digest (List.mem_singleton.mp hnew).symm row hrow

/-- The commit deletes every row whose file has been moved. -/
theorem Working.committed {H : Host} (hsha : Function.Injective H.sha256)
    (hsafe : Artifacts.isSafeId plan.tenantId = true) (h : Working H plan moved ids ids w) :
    Backed H plan [] (w.committed w.seen) := by
  obtain ⟨d, hopen, hindex⟩ := h.transaction
  have hseen : w.seen = d := by
    rw [World.seen, hopen, Option.getD_some]
  refine ⟨?_, fun _ hmoved => by cases hmoved⟩
  intro row hrow
  rw [hseen] at hrow ⊢
  change row ∈ d.index.rows at hrow
  rw [hindex] at hrow
  obtain ⟨hrow, hkept⟩ := Table.mem_delete.mp hrow
  obtain ⟨content, hlength, hfile | ⟨digest, hmoved, hpath, _⟩⟩ := h.backed.rows row hrow
  · exact ⟨content, hlength, .inl hfile⟩
  · have hparts := hpath
    simp only [ArtifactRef.path, blobPath, BlobPath.mk.injEq] at hparts
    have htenant := tenant_eq hsha hsafe hparts.1
    have hjob := h.unshared digest hmoved row hrow htenant hparts.2
    simp [htenant, hjob] at hkept

/-- A file that goes back is the one that its rows had. -/
theorem Backed.restore {H : Host} (hsha : Function.Injective H.sha256) (hnamed : Named H w)
    (h : Backed H plan (slot :: moved) w) (hheld : w.held plan.planId slot = some content) :
    Named H ((w.setHeld plan.planId slot none).setFile (slot.place H plan.tenantId)
        (some content)) ∧
      Backed H plan moved ((w.setHeld plan.planId slot none).setFile
        (slot.place H plan.tenantId) (some content)) := by
  have hquarantine : (w.quarantine plan.planId).isSome = true := by
    rw [World.held] at hheld
    cases hq : w.quarantine plan.planId with
    | none =>
      rw [hq] at hheld
      cases hheld
    | some files => rfl
  have hcontent : ∀ digest, slot = .blob digest → H.sha256 content = digest := by
    rintro digest rfl
    exact h.named digest List.mem_cons_self content hheld
  have hnamed' : Named H ((w.setHeld plan.planId slot none).setFile (slot.place H plan.tenantId)
      (some content)) := by
    intro path found hfile
    rw [setFile_file, Function.update_apply] at hfile
    by_cases hp : Place.blob path = slot.place H plan.tenantId
    · rw [if_pos hp, Option.some.injEq] at hfile
      cases slot with
      | ledger jobId => cases hp
      | blob digest =>
        have hpath : path = blobPath H plan.tenantId digest := Place.blob.inj hp
        rw [← hfile, hpath]
        exact hcontent digest rfl
    · rw [if_neg hp] at hfile
      exact hnamed path found hfile
  refine ⟨hnamed', ?_, ?_⟩
  · intro row hrow
    rw [setFile_index] at hrow
    obtain ⟨old, hlength, hplace | ⟨digest, hmoved, hpath, hwas⟩⟩ := h.rows row hrow
    · refine ⟨old, hlength, .inl ?_⟩
      rw [setFile_file, Function.update_apply]
      by_cases hp : Place.blob (row.path H) = slot.place H plan.tenantId
      · cases slot with
        | ledger jobId => cases hp
        | blob digest =>
          have hpath : row.path H = blobPath H plan.tenantId digest := Place.blob.inj hp
          have hold : old = content := by
            apply hsha
            rw [hnamed _ _ hplace, hcontent digest rfl, hpath]
            rfl
          rw [if_pos hp, hold]
      · rw [if_neg hp]
        exact hplace
    · by_cases hs : Slot.blob digest = slot
      · refine ⟨old, hlength, .inl ?_⟩
        have hp : Place.blob (row.path H) = slot.place H plan.tenantId := by
          rw [← hs, hpath]
          rfl
        have hold : content = old := by
          rw [hs, hheld] at hwas
          exact Option.some.inj hwas
        rw [setFile_file, Function.update_apply, if_pos hp, hold]
      · have hrest : Slot.blob digest ∈ moved := by
          rcases List.mem_cons.mp hmoved with hnew | hrest
          · exact absurd hnew hs
          · exact hrest
        refine ⟨old, hlength, .inr ⟨digest, hrest, hpath, ?_⟩⟩
        rw [setFile_held, setHeld_held hquarantine, if_neg hs]
        exact hwas
  · intro digest hmoved found hfound
    rw [setFile_held, setHeld_held hquarantine] at hfound
    by_cases hs : Slot.blob digest = slot
    · rw [if_pos hs] at hfound
      cases hfound
    · rw [if_neg hs] at hfound
      exact h.named digest (List.mem_cons_of_mem _ hmoved) found hfound

/-- A place that is taken has the file that its rows had. -/
theorem Backed.taken {H : Host} (hsha : Function.Injective H.sha256) (hnamed : Named H w)
    (h : Backed H plan (slot :: moved) w)
    (hthere : ((w.held plan.planId slot).isSome && (w.file (slot.place H plan.tenantId)).isNone) =
      false) : Backed H plan moved w := by
  refine ⟨?_, fun digest hmoved => h.named digest (List.mem_cons_of_mem _ hmoved)⟩
  intro row hrow
  obtain ⟨old, hlength, hplace | ⟨digest, hmoved, hpath, hwas⟩⟩ := h.rows row hrow
  · exact ⟨old, hlength, .inl hplace⟩
  · rcases List.mem_cons.mp hmoved with rfl | hrest
    · rw [hwas, Option.isSome_some, Bool.true_and, Option.isNone_eq_false_iff,
        Option.isSome_iff_exists] at hthere
      obtain ⟨found, hfound⟩ := hthere
      have hold : found = old := by
        apply hsha
        rw [hnamed _ _ hfound, h.named digest hmoved old hwas]
        rfl
      refine ⟨old, hlength, .inl ?_⟩
      rw [hpath, ← hold]
      exact hfound
    · exact ⟨old, hlength, .inr ⟨digest, hrest, hpath, hwas⟩⟩

end Effects

/-! ## Statements of an execution -/

/-- A program beside the connections, with its postconditions. -/
abbrev Beside (H : RetentionHost F T) {ε α : Type} (A : World T → Prop)
    (x : Fallible RetentionOp (fun o => Except RetentionError (Retention.Result T o)) ε α)
    (post : α → World T → Prop) (raised : ε → World T → Prop) : Prop :=
  Runs (performs H) (Puts H.host) (Named H.host) A x post raised

section Moves

/-- An operation that only reads leaves the assertion as it is. -/
theorem beside_select {o : RetentionOp} {A : World T → Prop} {raised : RetentionError → World T → Prop}
    (ho : o ≠ .walCheckpoint) (hA : Stable (Puts H.host) (Named H.host) A)
    (hraised : ∀ e, Stable (Puts H.host) (Named H.host) (raised e))
    (h : ∀ w, ∃ b, respond H w o = (.ok b, w)) (hraise : ∀ w, Named H.host w → A w → raised .storage w) :
    Beside H A (act o) (fun _ => A) raised := by
  refine runs_act ho (stable_ends (fun _ => hA) hraised) ?_ fun _ => hraise
  intro w hnamed hw
  obtain ⟨b, hresponds⟩ := h w
  rw [hresponds]
  exact ⟨hnamed, hw⟩

theorem named_move {H : Host} {slot : Slot} {content : Option PyBytes} (hnamed : Named H w) :
    Named H ((w.setHeld plan.planId slot content).setFile (slot.place H plan.tenantId) none) := by
  intro path found hfile
  rw [setFile_file, Function.update_apply] at hfile
  split_ifs at hfile
  exact hnamed path found hfile

theorem beside_move (hsha : Function.Injective H.host.sha256) {slot : Slot} :
    Beside H (fun w => Working H.host plan moved ids [] w ∧
        ∀ digest, slot = .blob digest → Listed plan digest ids w)
      (act (.move plan.planId plan.tenantId slot))
      (fun _ => Working H.host plan (moved ++ [slot]) ids [])
      fun _ => Backed H.host plan moved := by
  refine runs_act (by simp) (stable_ends (fun _ => stable_working) fun _ => stable_backed) ?_
    fun _ w _ h => h.1.backed
  rintro w hnamed ⟨hworking, hlisted⟩
  rw [respond]
  cases hfile : w.file (slot.place H.host plan.tenantId) with
  | none => exact ⟨hnamed, hworking.backed⟩
  | some content => exact ⟨named_move hnamed, hworking.move hsha hnamed hfile hlisted⟩

variable [PyFloat F] [LinearOrder T]

theorem beside_moveTarget (hsha : Function.Injective H.host.sha256) (t : Target T) :
    Beside H (Working H.host plan moved ids []) (moveTarget H plan t)
      (fun _ => Working H.host plan (moved ++ [.ledger t.jobId]) ids [])
      fun _ => Backed H.host plan moved := by
  have hraise : ∀ w : World T, Named H.host w → Working H.host plan moved ids [] w →
      Backed H.host plan moved w := fun w _ h => h.backed
  refine runs_guard hraise fun _ => ?_
  refine Runs.bind (beside_select (by simp) stable_working (fun _ => stable_backed)
    (fun w => ⟨_, rfl⟩) hraise) fun row => ?_
  cases row with
  | none => exact runs_throw hraise
  | some row =>
    refine runs_guard hraise fun _ => runs_guard hraise fun _ => runs_guard hraise fun _ => ?_
    refine Runs.bind (beside_select (by simp) stable_working (fun _ => stable_backed)
      (fun w => ⟨_, rfl⟩) hraise) fun _ => ?_
    refine runs_guard hraise fun _ => ?_
    refine Runs.bind (beside_select (by simp) stable_working (fun _ => stable_backed)
      (fun w => ⟨_, rfl⟩) hraise) fun file => ?_
    cases file with
    | none => exact runs_throw hraise
    | some file =>
      cases hrecord : ledgerRecord H file with
      | error e =>
        simp only [hrecord]
        exact runs_throw hraise
      | ok found =>
        simp only [hrecord]
        refine runs_guard hraise fun _ => (beside_move hsha).strengthen ?_
        exact fun w _ h => ⟨h, fun _ hslot => by cases hslot⟩

omit [PyFloat F] [LinearOrder T] in
theorem beside_moveBlob (hsha : Function.Injective H.host.sha256) (b : BlobRecord) :
    Beside H (Working H.host plan moved ids []) (moveBlob H plan ids b)
      (fun _ => Working H.host plan (moved ++ [.blob b.contentSha256]) ids [])
      fun _ => Backed H.host plan moved := by
  have hraise : ∀ w : World T, Named H.host w → Working H.host plan moved ids [] w →
      Backed H.host plan moved w := fun w _ h => h.backed
  refine runs_guard hraise fun _ => ?_
  -- the transaction sees the rows of all connections, and no more are inserted
  refine Runs.bind (J := fun remaining w => Working H.host plan moved ids [] w ∧
    Listed plan b.contentSha256 remaining w) ?_ fun remaining => ?_
  · refine runs_act (by simp) (stable_ends (fun _ => stable_listed) fun _ => stable_backed) ?_
      fun _ => hraise
    intro w hnamed h
    refine ⟨hnamed, h, ?_⟩
    obtain ⟨d, hopen, hindex⟩ := h.transaction
    intro row hrow htenant hdigest
    rw [World.seen, hopen, Option.getD_some, referents, List.mem_map]
    refine ⟨row, List.mem_filter.mpr ⟨?_, by simp [htenant, hdigest]⟩, rfl⟩
    rw [hindex, Table.mem_delete]
    exact ⟨hrow, by simp⟩
  · refine runs_guard (fun w _ h => h.1.backed) fun hshared => ?_
    have hlisted : ∀ w, Named H.host w → Working H.host plan moved ids [] w ∧
        Listed plan b.contentSha256 remaining w →
        Working H.host plan moved ids [] w ∧ Listed plan b.contentSha256 ids w := by
      rintro w _ ⟨hworking, hremaining⟩
      refine ⟨hworking, ?_⟩
      intro row hrow htenant hdigest
      by_contra hid
      exact hshared ⟨row.jobId, hremaining row hrow htenant hdigest, hid⟩
    refine Runs.strengthen ?_ hlisted
    refine Runs.bind (beside_select (by simp) stable_listed (fun _ => stable_backed)
      (fun w => ⟨_, rfl⟩) fun w _ h => h.1.backed) fun file => ?_
    cases file with
    | none => exact runs_throw fun w _ h => h.1.backed
    | some content =>
      refine runs_guard (fun w _ h => h.1.backed) fun _ => (beside_move hsha).strengthen ?_
      rintro w _ ⟨hworking, hlisted⟩
      refine ⟨hworking, ?_⟩
      rintro digest hslot
      rw [← Slot.blob.inj hslot]
      exact hlisted

/-- What of the moved files still has to go back. -/
def pending (l : Locals) : List Slot := if l.committed then [] else l.moved

theorem pending_of_not {l : Locals} (hl : l.committed = false) : pending l = l.moved := by
  rw [pending, hl]
  rfl

/-- What an exception of the body leaves. -/
def Leaves (H : Host) (plan : Plan T) (e : RetentionError × Locals) : World T → Prop :=
  Backed H plan (pending e.2)

theorem beside_moveTargets (hsha : Function.Injective H.host.sha256) {targets : List (Target T)}
    {l : Locals} (hl : l.committed = false) :
    Beside H (Working H.host plan l.moved ids []) (moveTargets H plan targets l)
      (fun l' w => Working H.host plan l'.moved ids [] w ∧ l'.committed = false ∧
        l'.targetIds = l.targetIds ++ targets.map (·.jobId)) (Leaves H.host plan) := by
  induction targets generalizing l with
  | nil =>
    refine runs_pure fun w _ h => ⟨h, hl, ?_⟩
    rw [List.map_nil, List.append_nil]
  | cons t targets ih =>
    refine Runs.bind (J := fun _ => Working H.host plan (l.moved ++ [.ledger t.jobId]) ids []) ?_ ?_
    · refine runs_during ((beside_moveTarget hsha t).weaken (fun _ _ _ h => h) ?_)
      intro _ w _ h
      rw [Leaves, pending_of_not hl]
      exact h
    · intro _
      refine (ih (l := { l with
        moved := l.moved ++ [.ledger t.jobId], targetIds := l.targetIds ++ [t.jobId] }) hl).weaken
          ?_ fun _ _ _ h => h
      rintro l' w _ ⟨hworking, hcommitted, hids⟩
      refine ⟨hworking, hcommitted, ?_⟩
      rw [hids, List.map_cons, List.append_assoc, List.singleton_append]

omit [PyFloat F] [LinearOrder T] in
theorem beside_moveBlobs (hsha : Function.Injective H.host.sha256) {blobs : List BlobRecord}
    {l : Locals} (hl : l.committed = false) :
    Beside H (Working H.host plan l.moved l.targetIds []) (moveBlobs H plan blobs l)
      (fun l' w => Working H.host plan l'.moved l.targetIds [] w ∧ l'.committed = false ∧
        l'.targetIds = l.targetIds) (Leaves H.host plan) := by
  induction blobs generalizing l with
  | nil => exact runs_pure fun w _ h => ⟨h, hl, rfl⟩
  | cons b blobs ih =>
    refine Runs.bind (J := fun _ =>
      Working H.host plan (l.moved ++ [.blob b.contentSha256]) l.targetIds []) ?_ ?_
    · refine runs_during ((beside_moveBlob hsha b).weaken (fun _ _ _ h => h) ?_)
      intro _ w _ h
      rw [Leaves, pending_of_not hl]
      exact h
    · exact fun _ => ih (l := { l with moved := l.moved ++ [.blob b.contentSha256] }) hl

end Moves

section Deletions

/-- The transaction has one job's rows less. -/
theorem Working.delete {H : Host} {jobId : PyStr} {d : Databases T}
    (h : Working H plan moved ids deleted w) (hd : d.index = (w.seen.deleteArtifacts plan.tenantId
      jobId).index) : Working H plan moved ids (deleted ++ [jobId]) { w with transaction := some d } := by
  obtain ⟨d₀, hopen, hindex⟩ := h.transaction
  have hseen : w.seen = d₀ := by
    rw [World.seen, hopen, Option.getD_some]
  refine ⟨⟨h.backed.rows, h.backed.named⟩, h.quarantine, ⟨d, rfl, ?_⟩, h.unshared⟩
  rw [hd, hseen, Databases.deleteArtifacts, hindex, Table.delete_delete]
  simp only [and_decide_snoc]

theorem deleteJob_index (d : Databases T) (tenantId jobId : PyStr) :
    (d.deleteJob tenantId jobId).index = d.index := by
  rw [Databases.deleteJob]
  split_ifs <;> rfl

theorem beside_deleteTarget (jobId : PyStr) :
    Beside H (Working H.host plan moved ids deleted) (deleteTarget plan jobId)
      (fun _ => Working H.host plan moved ids (deleted ++ [jobId]))
      fun _ => Backed H.host plan moved := by
  refine Runs.bind (J := fun _ => Working H.host plan moved ids (deleted ++ [jobId])) ?_ fun _ => ?_
  · refine runs_act (by simp) (stable_ends (fun _ => stable_working) fun _ => stable_backed) ?_
      fun _ w _ h => h.backed
    exact fun w hnamed h => ⟨hnamed, h.delete rfl⟩
  refine Runs.bind (J := fun _ => Working H.host plan moved ids (deleted ++ [jobId])) ?_ fun _ => ?_
  · refine runs_act (by simp) (stable_ends (fun _ => stable_working) fun _ => stable_backed) ?_
      fun _ w _ h => h.backed
    intro w hnamed h
    refine ⟨hnamed, ⟨h.backed.rows, h.backed.named⟩, h.quarantine, ⟨_, rfl, ?_⟩, h.unshared⟩
    obtain ⟨d, hopen, hindex⟩ := h.transaction
    rw [deleteJob_index, World.seen, hopen, Option.getD_some]
    exact hindex
  · refine (runs_raiseIf fun w _ h => h.backed).weaken ?_ fun _ _ _ h => h
    exact fun _ w _ h => h.1

theorem beside_deleteTargets (deleted jobIds : List PyStr) :
    Beside H (Working H.host plan moved ids deleted) (deleteTargets plan jobIds)
      (fun _ => Working H.host plan moved ids (deleted ++ jobIds))
      fun _ => Backed H.host plan moved := by
  induction jobIds generalizing deleted with
  | nil =>
    refine runs_pure fun w _ h => ?_
    rw [List.append_nil]
    exact h
  | cons jobId jobIds ih =>
    refine Runs.bind (beside_deleteTarget jobId) fun _ => ?_
    have hrest := ih (deleted ++ [jobId])
    rw [List.append_assoc, List.singleton_append] at hrest
    exact hrest

end Deletions

/-! ## The execution -/

section Execution
variable {acknowledgedSha256 : PyStr}

theorem Backed.congr {H : Host} {moved' : List Slot} (h : Backed H plan moved w)
    (hmoved : ∀ slot ∈ moved', slot ∈ moved) (hmoved' : ∀ slot ∈ moved, slot ∈ moved')
    (hindex : w'.artifacts.index = w.artifacts.index) (hfile : w'.file = w.file)
    (hheld : moved = [] ∨ w'.held = w.held) : Backed H plan moved' w' := by
  constructor
  · intro row hrow
    rw [hindex] at hrow
    rw [hfile]
    obtain ⟨content, hlength, hplace | ⟨digest, hmem, hpath, hwas⟩⟩ := h.rows row hrow
    · exact ⟨content, hlength, .inl hplace⟩
    · refine ⟨content, hlength, .inr ⟨digest, hmoved' _ hmem, hpath, ?_⟩⟩
      rcases hheld with hnil | hheld
      · rw [hnil] at hmem
        cases hmem
      · rw [hheld]
        exact hwas
  · intro digest hmem content hwas
    have hmem' := hmoved _ hmem
    rcases hheld with hnil | hheld
    · rw [hnil] at hmem'
      cases hmem'
    · rw [hheld] at hwas
      exact h.named digest hmem' content hwas

/-- An operation that leaves rows and files and, as long as it matters, the quarantine. -/
theorem beside_step {o : RetentionOp} {moved : List Slot}
    {raised : RetentionError → World T → Prop} (ho : o ≠ .walCheckpoint)
    (hraised : ∀ e, Stable (Puts H.host) (Named H.host) (raised e))
    (hok : ∀ w, ∃ b w', respond H w o = (.ok b, w') ∧ w'.artifacts.index = w.artifacts.index ∧
      w'.file = w.file ∧ (moved = [] ∨ w'.held = w.held))
    (hfail : o.mayFail = true → ∀ w, Backed H.host plan moved w → raised .storage w) :
    Beside H (Backed H.host plan moved) (act o) (fun _ => Backed H.host plan moved) raised := by
  refine runs_act ho (stable_ends (fun _ => stable_backed) hraised) ?_ fun hmay w _ => hfail hmay w
  intro w hnamed h
  obtain ⟨b, w', hresponds, hindex, hfile, hheld⟩ := hok w
  rw [hresponds]
  refine ⟨?_, h.congr (fun _ hs => hs) (fun _ hs => hs) hindex hfile hheld⟩
  intro path content hcontent
  rw [hfile] at hcontent
  exact hnamed path content hcontent

theorem beside_audit {record : AuditRecord} {raised : RetentionError → World T → Prop}
    (hraised : ∀ e, Stable (Puts H.host) (Named H.host) (raised e))
    (hfail : ∀ w, Backed H.host plan moved w → raised .storage w) :
    Beside H (Backed H.host plan moved) (act (.appendAudit record))
      (fun _ => Backed H.host plan moved) raised := by
  refine beside_step (by simp) hraised ?_ fun _ => hfail
  exact fun w => ⟨(), _, rfl, rfl, rfl, .inr rfl⟩

theorem stable_leaves {H : Host} (e : RetentionError × Locals) :
    Stable (Puts H) (Named H) (Leaves H plan e) := stable_backed

theorem beside_prepare (ids : List PyStr) :
    Beside H (Backed H.host plan []) (prepare plan)
      (fun _ => Working H.host plan [] ids []) fun _ => Backed H.host plan [] := by
  refine Runs.bind (J := fun _ => Backed H.host plan []) ?_ fun there => ?_
  · refine beside_step (by simp) (fun _ => stable_backed) ?_ fun h => by cases h
    exact fun w => ⟨_, w, rfl, rfl, rfl, .inr rfl⟩
  refine runs_guard (fun w _ h => h) fun _ => ?_
  have hstable : Stable (Puts H.host) (Named H.host) fun w : World T =>
      Backed H.host plan [] w ∧ (w.quarantine plan.planId).isSome = true := by
    refine stable_backed.and ?_
    intro w w' _ h hsome
    rw [h.quarantine]
    exact hsome
  refine Runs.bind (J := fun _ w => Backed H.host plan [] w ∧
    (w.quarantine plan.planId).isSome = true) ?_ fun _ => ?_
  · refine runs_act (by simp) (stable_ends (fun _ => hstable) fun _ => stable_backed) ?_
      fun _ w _ h => h
    intro w hnamed h
    rw [respond]
    cases hquarantine : w.quarantine plan.planId with
    | some files => exact ⟨hnamed, h⟩
    | none =>
      refine ⟨hnamed, h.congr (fun _ hs => hs) (fun _ hs => hs) rfl rfl (.inl rfl), ?_⟩
      simp
  · refine runs_act (by simp) (stable_ends (fun _ => stable_working) fun _ => stable_backed) ?_
      fun _ w _ h => h.1
    rintro w hnamed ⟨h, hquarantine⟩
    refine ⟨hnamed, ⟨h.rows, h.named⟩, hquarantine, ⟨w.databases, rfl, ?_⟩,
      fun _ hmem => by cases hmem⟩
    exact (Table.delete_none (by simp)).symm

theorem beside_finish [PyFloat F] (ids : List PyStr) :
    Beside H (Backed H.host plan []) (finish H plan acknowledgedSha256 ids)
      (fun _ => Backed H.host plan []) fun _ => Backed H.host plan [] := by
  have hbacked : ∀ _ : RetentionError,
      Stable (Puts H.host) (Named H.host) (Backed H.host plan []) := fun _ => stable_backed
  refine Runs.bind (J := fun _ => Backed H.host plan []) ?_ fun complete => ?_
  · refine runs_ask ⟨?_, stable_ends (fun _ => stable_backed) hbacked, ?_⟩
    · intro w r w' hnamed _ hsame
      have heq : w' = w := hsame
      rw [heq]
      exact hnamed
    · intro w r w' _ h hsame
      have heq : w' = w := hsame
      rw [heq]
      cases r with
      | ok b => exact h
      | error e => exact h
  refine Runs.bind (J := fun _ => Backed H.host plan []) ?_ fun _ => ?_
  · refine beside_step (by simp) hbacked ?_ fun _ _ h => h
    exact fun w => ⟨(), _, rfl, rfl, rfl, .inl rfl⟩
  · exact Runs.bind (beside_audit hbacked fun _ h => h) fun _ => runs_pure fun _ _ h => h

theorem beside_executeBody [PyFloat F] [LinearOrder T] (hsha : Function.Injective H.host.sha256)
    (hsafe : Artifacts.isSafeId plan.tenantId = true) :
    Beside H (Backed H.host plan []) (executeBody H plan acknowledgedSha256)
      (fun _ => Backed H.host plan []) (Leaves H.host plan) := by
  refine Runs.bind (runs_during (beside_audit (fun _ => stable_leaves _) fun _ h => h)) fun _ => ?_
  refine Runs.bind (runs_during (beside_prepare (jobIds plan))) fun _ => ?_
  refine Runs.bind (beside_moveTargets hsha (l := ⟨[], [], false, true⟩) rfl) fun l₁ => ?_
  refine Runs.given fun ⟨hcommitted₁, hids₁⟩ => ?_
  rw [List.nil_append] at hids₁
  have hjobs : jobIds plan = l₁.targetIds := hids₁.symm
  rw [hjobs]
  refine Runs.bind (beside_moveBlobs hsha hcommitted₁) fun l₂ => ?_
  refine Runs.given fun ⟨hcommitted₂, hids₂⟩ => ?_
  have hleaves : ∀ (e : RetentionError) w, Backed H.host plan l₂.moved w →
      Leaves H.host plan (e, l₂) w := by
    intro e w h
    rw [Leaves, pending_of_not hcommitted₂]
    exact h
  refine Runs.bind (J := fun _ => Backed H.host plan []) ?_ fun _ => ?_
  · have hdelete : Beside H (Working H.host plan l₂.moved l₁.targetIds [])
        (deleteTargets plan l₂.targetIds)
        (fun _ => Working H.host plan l₂.moved l₁.targetIds ([] ++ l₂.targetIds))
        fun _ => Backed H.host plan l₂.moved := beside_deleteTargets [] l₂.targetIds
    refine runs_during (Runs.bind (hdelete.weaken (fun _ _ _ h => h) fun e w _ => hleaves e w)
      fun _ => ?_)
    refine runs_act (by simp) (stable_ends (fun _ => stable_backed) fun _ => stable_leaves _) ?_
      fun _ w _ h => hleaves _ w h.backed
    intro w hnamed h
    rw [List.nil_append, hids₂] at h
    exact ⟨hnamed, h.committed hsha hsafe⟩
  · exact runs_during (beside_finish _)

theorem beside_undo (hsha : Function.Injective H.host.sha256) {files : List Slot}
    {raised : RetentionError → World T → Prop}
    (hraised : ∀ e, Stable (Puts H.host) (Named H.host) (raised e)) :
    Beside H (Backed H.host plan files) (undo plan files) (fun _ => Backed H.host plan []) raised := by
  induction files with
  | nil => exact runs_pure fun w _ h => h
  | cons slot files ih =>
    have hstable : ∀ there, Stable (Puts H.host) (Named H.host) fun w : World T =>
        Backed H.host plan (slot :: files) w ∧
          (there = true → (w.held plan.planId slot).isSome = true) ∧
          (there = false → Backed H.host plan files w) := by
      intro there
      refine stable_backed.and ((stable_imp fun _ => ?_).and (stable_imp fun _ => stable_backed))
      intro w w' _ h hsome
      rw [h.held]
      exact hsome
    refine Runs.bind (J := fun there w => Backed H.host plan (slot :: files) w ∧
      (there = true → (w.held plan.planId slot).isSome = true) ∧
      (there = false → Backed H.host plan files w)) ?_ fun there => ?_
    · refine runs_act (by simp) (stable_ends hstable hraised) ?_ fun h => by cases h
      intro w hnamed h
      refine ⟨hnamed, h, ?_, fun hfalse => h.taken hsha hnamed hfalse⟩
      intro htrue
      exact (Bool.and_eq_true _ _ ▸ htrue).1
    · cases there with
      | false => exact ih.strengthen fun w _ h => h.2.2 rfl
      | true =>
        refine Runs.bind (J := fun _ => Backed H.host plan files) ?_ fun _ => ih
        refine runs_act (by simp) (stable_ends (fun _ => stable_backed) hraised) ?_
          fun h => by cases h
        rintro w hnamed ⟨h, hheld, _⟩
        obtain ⟨content, hcontent⟩ := Option.isSome_iff_exists.mp (hheld rfl)
        rw [respond, hcontent]
        exact h.restore hsha hnamed hcontent

theorem beside_abort [PyFloat F] (hsha : Function.Injective H.host.sha256) (l : Locals) :
    Beside H (Backed H.host plan (pending l)) (abort H plan acknowledgedSha256 l)
      (fun _ => Backed H.host plan []) fun _ => Backed H.host plan [] := by
  have hbacked : ∀ _ : RetentionError,
      Stable (Puts H.host) (Named H.host) (Backed H.host plan []) := fun _ => stable_backed
  refine Runs.bind (J := fun _ => Backed H.host plan (pending l)) ?_ fun _ => ?_
  · refine beside_step (by simp) hbacked ?_ fun h => by cases h
    exact fun w => ⟨(), _, rfl, rfl, rfl, .inr rfl⟩
  cases hcommitted : l.committed with
  | true =>
    refine runs_pure fun w _ h => ?_
    rw [pending, if_pos hcommitted] at h
    exact h
  | false =>
    refine Runs.bind (J := fun _ => Backed H.host plan []) ?_ fun _ => ?_
    · refine (beside_undo hsha hbacked).strengthen ?_
      intro w _ h
      rw [pending_of_not hcommitted] at h
      exact h.congr (fun _ => List.mem_reverse.mp) (fun _ => List.mem_reverse.mpr) rfl rfl (.inr rfl)
    refine Runs.bind (J := fun _ => Backed H.host plan []) ?_ fun _ => ?_
    · refine beside_step (by simp) hbacked ?_ fun h => by cases h
      exact fun w => ⟨(), _, rfl, rfl, rfl, .inl rfl⟩
    · cases l.auditPrepared with
      | false => exact runs_pure fun w _ h => h
      | true =>
        exact Runs.tryCatch (J := fun _ => Backed H.host plan [])
          (beside_audit hbacked fun _ h => h) fun e => runs_pure fun w _ h => h

theorem beside_release {raised : RetentionError → World T → Prop}
    (hraised : ∀ e, Stable (Puts H.host) (Named H.host) (raised e)) :
    Beside H (Backed H.host plan []) (act .release) (fun _ => Backed H.host plan []) raised := by
  refine beside_step (by simp) hraised ?_ fun h => by cases h
  exact fun w => ⟨(), _, rfl, rfl, rfl, .inr rfl⟩

/-- When the execution has ended, every row has its file. -/
theorem beside_execute [PyFloat F] [LinearOrder T] (hsha : Function.Injective H.host.sha256) :
    Beside H (Backed H.host plan []) (executeRetentionPlan H plan acknowledgedSha256)
      (fun _ => Backed H.host plan []) fun _ => Backed H.host plan [] := by
  have hbacked : ∀ _ : RetentionError,
      Stable (Puts H.host) (Named H.host) (Backed H.host plan []) := fun _ => stable_backed
  refine Runs.bind runs_validatePlan fun _ => ?_
  refine Runs.given fun hsafe => ?_
  refine Runs.bind (J := fun _ => Backed H.host plan []) ?_ fun _ => ?_
  · refine runs_act (by simp) (stable_ends (fun _ => stable_backed) hbacked) ?_ fun h => by cases h
    intro w hnamed h
    rw [respond]
    by_cases hlocked : w.locked = true
    · rw [if_pos hlocked]
      exact ⟨hnamed, h⟩
    · rw [if_neg hlocked]
      exact ⟨hnamed, ⟨h.rows, h.named⟩⟩
  refine Runs.lift_bind (beside_executeBody hsha hsafe) fun outcome => ?_
  cases outcome with
  | ok receipt => exact Runs.bind (beside_release hbacked) fun _ => runs_pure fun _ _ h => h
  | error e =>
    refine Runs.bind (beside_abort hsha e.2) fun _ => ?_
    exact Runs.bind (beside_release hbacked) fun _ => runs_throw fun _ _ h => h

end Execution

/-! ## Joint runs -/

section Joint
variable [PyFloat F]

abbrev Answers := fun o : ArtifactOp => Except ArtifactError (Artifacts.Result o)

/-- The connections of the artifact store; a transaction of theirs waits for an open one. -/
def putMachine (F T : Type) [PyFloat F] (H : Host) :
    Machine (World T) (Call F) ArtifactOp Answers (Except ArtifactError Answer) where
  program c := (c.action H).run
  perform w o r w' :=
    (∀ ref, o = .bindRow ref → w.transaction = none) ∧
      ∃ store, Artifacts.perform w.artifacts o r store ∧ w' = { w with artifacts := store }
  external _ _ := False

/-- The connections, and what is left of the execution. -/
structure Joint (F T : Type) where
  pool : System (World T) (Call F) ArtifactOp Answers (Except ArtifactError Answer)
  execution : Program RetentionOp (fun o => Except RetentionError (Retention.Result T o))
    (Except RetentionError Receipt)

/-- An atomic operation of one of the connections or of the execution; the condition restricts in
which states the execution performs it. -/
inductive JointStep [LinearOrder T] (H : RetentionHost F T) (K : Joint F T → RetentionOp → Prop)
    (j : Joint F T) : Joint F T → Prop where
  | put (pool) (h : Step (putMachine F T H.host) Unguarded j.pool pool) :
      JointStep H K j ⟨pool, j.execution⟩
  | retention (o next r w) (hnext : j.execution = .step o next) (hguard : K j o)
      (h : performs H j.pool.state o r w) :
      JointStep H K j ⟨{ j.pool with state := w }, next r⟩

/-- No connection has called yet, and the execution has not begun. -/
def Joint.start [LinearOrder T] (H : RetentionHost F T) (plan : Plan T) (acknowledgedSha256 : PyStr)
    (w : World T) : Joint F T :=
  ⟨System.idle w, (executeRetentionPlan H plan acknowledgedSha256).run⟩

/-- The call inserts a row of this file next. -/
def AboutToBind (H : Host) (p : Process (Call F) ArtifactOp Answers (Except ArtifactError Answer))
    (path : BlobPath) : Prop :=
  ∃ ref next, p.program = .step (.bindRow ref) next ∧ ref.path H = path

/-- No file is moved that a call has read back and is about to insert a row of. -/
def Undisturbed (H : Host) (j : Joint F T) : RetentionOp → Prop
  | .move _ tenantId (.blob digest) =>
    ∀ p ∈ j.pool.processes, ¬AboutToBind H p (blobPath H tenantId digest)
  | _ => True

/-- Every row has a file of the recorded size under the recorded digest. -/
def NoDangling (H : Host) (w : World T) : Prop :=
  ∀ row ∈ w.artifacts.index.rows, ∃ content, w.artifacts.blobs (row.path H) = some content ∧
    content.length = row.sizeBytes ∧ H.sha256 content = row.contentSha256

/-- In every run whose moves meet the condition no row is left without its file. -/
def LeavesNoDangling [LinearOrder T] (H : RetentionHost F T) (plan : Plan T)
    (acknowledgedSha256 : PyStr) (K : Joint F T → RetentionOp → Prop) : Prop :=
  ∀ w j, Sound H.host w.artifacts →
    Relation.ReflTransGen (JointStep H K) (.start H plan acknowledgedSha256 w) j →
    (∃ r, j.execution = .done r) → (∀ p ∈ j.pool.processes, ∃ r, p.program = .done r) →
    NoDangling H.host j.pool.state

/-! ### One step -/

/-- What a call does, when the file that it inserts a row of is there. -/
theorem puts_of_perform {H : Host} (hsha : Function.Injective H.sha256) (hnamed : Named H w)
    {c : Call F} {log : List (Entry ArtifactOp Answers)} {o : ArtifactOp} {r : Answers o}
    (hallowed : (ArtifactBindings.writes H c).allowed (ArtifactBindings.lastChecked H log) o)
    (hthere : ∀ ref, o = .bindRow ref → ∃ content, w.file (.blob (ref.path H)) = some content)
    (h : (putMachine F T H).perform w o r w') : Puts H w w' := by
  obtain ⟨hclosed, store, hperform, rfl⟩ := h
  rcases ArtifactBindings.perform_cases hperform with rfl | ⟨path, content, rfl, rfl⟩ |
    ⟨ref, index, rfl, _, hinsert, rfl⟩
  · exact .reads
  · obtain ⟨a, _, rfl, rfl⟩ := hallowed
    exact .links _ _ rfl
  · obtain ⟨content, hfile⟩ := hthere ref rfl
    obtain ⟨a, _, rfl, _⟩ := hallowed
    have hcontent : content = a.content := by
      apply hsha
      rw [hnamed _ _ hfile]
      rfl
    refine .binds _ index content (hclosed _ rfl) hinsert hfile ?_
    rw [hcontent]
    rfl

omit [PyFloat F] in
/-- The execution takes a file away only by a move. -/
theorem respond_file {o : RetentionOp} {path : BlobPath} {content : PyBytes}
    (hfile : w.file (.blob path) = some content) :
    (∃ content, (respond H w o).2.file (.blob path) = some content) ∨
      ∃ planId tenantId digest, o = .move planId tenantId (.blob digest) ∧
        path = blobPath H.host tenantId digest := by
  cases o with
  | lock =>
    rw [respond]
    split_ifs <;> exact .inl ⟨content, hfile⟩
  | makeQuarantine planId =>
    rw [respond]
    cases w.quarantine planId <;> exact .inl ⟨content, hfile⟩
  | move planId tenantId slot =>
    rw [respond]
    cases hplace : w.file (slot.place H.host tenantId) with
    | none => exact .inl ⟨content, hfile⟩
    | some found =>
      simp only [setFile_file, Function.update_apply]
      by_cases hp : Place.blob path = slot.place H.host tenantId
      · cases slot with
        | ledger jobId => cases hp
        | blob digest => exact .inr ⟨planId, tenantId, digest, rfl, Place.blob.inj hp⟩
      · exact .inl ⟨content, by rw [if_neg hp]; exact hfile⟩
  | restore planId tenantId slot =>
    rw [respond]
    cases w.held planId slot with
    | none => exact .inl ⟨content, hfile⟩
    | some found =>
      simp only [setFile_file, Function.update_apply]
      by_cases hp : Place.blob path = slot.place H.host tenantId
      · exact .inl ⟨found, by rw [if_pos hp]⟩
      · exact .inl ⟨content, by rw [if_neg hp]; exact hfile⟩
  | _ => exact .inl ⟨content, hfile⟩

omit [PyFloat F] in
theorem performs_file [LinearOrder T] {o : RetentionOp}
    {r : Except RetentionError (Retention.Result T o)} (h : performs H w o r w') {path : BlobPath}
    {content : PyBytes} (hfile : w.file (.blob path) = some content) :
    (∃ content, w'.file (.blob path) = some content) ∨
      ∃ planId tenantId digest, o = .move planId tenantId (.blob digest) ∧
        path = blobPath H.host tenantId digest := by
  by_cases ho : o = .walCheckpoint
  · subst ho
    have hsame : w' = w := h
    rw [hsame]
    exact .inl ⟨content, hfile⟩
  · rcases (performs_iff ho).mp h with hresponds | ⟨_, _, rfl⟩
    · have hstep := respond_file (H := H) (o := o) hfile
      rw [hresponds] at hstep
      exact hstep
    · exact .inl ⟨content, hfile⟩

/-! ### Runs -/

/-- Files are named; every call is at a program that writes only what it has looked at, and finds
it where it left it; the execution is at a program that ends with every row backed. -/
structure Joint.Invariant [LinearOrder T] (H : RetentionHost F T) (plan : Plan T)
    (j : Joint F T) : Prop where
  named : Named H.host j.pool.state
  tracks : ∀ (i : ℕ) p, j.pool.processes[i]? = some p → Tracks (ArtifactBindings.writes H.host)
    (fun _ _ log g => g = ArtifactBindings.lastChecked H.host log) (fun _ => ArtifactBindings.Free)
    j.pool.state p
  there : ∀ p ∈ j.pool.processes, ∀ path, AboutToBind H.host p path →
    ∃ content, j.pool.state.file (.blob path) = some content
  execution : ∃ A, Stable (Puts H.host) (Named H.host) A ∧ A j.pool.state ∧
    Program.Meets (performs H) (Puts H.host) (Named H.host)
      (ends (fun _ => Backed H.host plan []) fun _ => Backed H.host plan []) j.execution A

/-- A call is about to insert a row only right behind its look at the file. -/
theorem AboutToBind.checked {H : Host} {p : Process (Call F) ArtifactOp Answers
    (Except ArtifactError Answer)} {path : BlobPath} (h : AboutToBind H p path)
    (htracks : Tracks (ArtifactBindings.writes H)
      (fun _ _ log g => g = ArtifactBindings.lastChecked H log) (fun _ => ArtifactBindings.Free) w p) :
    ArtifactBindings.lastChecked H p.log = some path := by
  obtain ⟨ref, next, hprogram, hpath⟩ := h
  obtain ⟨g, hg, hfollows⟩ := htracks
  rw [hprogram] at hfollows
  obtain ⟨⟨a, _, href, hchecked⟩, _⟩ := hfollows
  rw [← hg, hchecked, ← hpath, href]
  rfl

/-- A look at a file that finds it. -/
theorem checked_file {H : Host} {o : ArtifactOp} {r : Answers o} {path : BlobPath}
    (h : (putMachine F T H).perform w o r w')
    (hchecked : ArtifactBindings.checked H ⟨o, r⟩ = some path) :
    ∃ content, w'.file (.blob path) = some content := by
  obtain ⟨_, store, hperform, rfl⟩ := h
  cases o with
  | readBlob found =>
    have hsame := ArtifactBindings.readBlob_same _ _ _ _ hperform
    rcases ArtifactBindings.readBlob_cases hperform with ⟨content, hpresent, rfl⟩ | ⟨_, rfl⟩
    · rw [ArtifactBindings.checked] at hchecked
      split_ifs at hchecked
      rw [Option.some.injEq] at hchecked
      rw [← hchecked, hsame]
      exact ⟨content, hpresent⟩
    · cases hchecked
  | select key => cases hchecked
  | blobExists found => cases hchecked
  | link found content => cases hchecked
  | bindRow ref => cases hchecked

variable [LinearOrder T] {j : Joint F T} {K : Joint F T → RetentionOp → Prop}

theorem Joint.Invariant.put (hsha : Function.Injective H.host.sha256) (hinv : j.Invariant H plan)
    {pool : System (World T) (Call F) ArtifactOp Answers (Except ArtifactError Answer)}
    (h : Step (putMachine F T H.host) Unguarded j.pool pool) :
    Joint.Invariant H plan ⟨pool, j.execution⟩ := by
  have htracks : ∀ (i : ℕ) p, pool.processes[i]? = some p →
      Tracks (ArtifactBindings.writes H.host)
        (fun _ _ log g => g = ArtifactBindings.lastChecked H.host log)
        (fun _ => ArtifactBindings.Free) pool.state p :=
    fun i p => (ArtifactBindings.tracking_writes (putMachine F T H.host) fun _ => rfl).step trivial
      (fun i p _ => hinv.tracks i p) h i p (Nat.zero_le i)
  obtain ⟨A, hstable, hA, hmeets⟩ := hinv.execution
  cases h with
  | start c =>
    refine ⟨hinv.named, htracks, ?_, ⟨A, hstable, hA, hmeets⟩⟩
    intro p hp path habout
    obtain ⟨i, hi⟩ := List.mem_iff_getElem?.mp hp
    rcases List.mem_append.mp hp with hold | hnew
    · exact hinv.there p hold path habout
    · have hchecked := habout.checked (htracks i p hi)
      rw [List.mem_singleton] at hnew
      rw [hnew] at hchecked
      cases hchecked
  | external s hs => exact hs.elim
  | operation i c log o next r s hi hguard hs =>
    obtain ⟨g, hg, hallowed, _⟩ := hinv.tracks i _ hi
    have hmem : (⟨c, log, .step o next⟩ : Process (Call F) ArtifactOp Answers
        (Except ArtifactError Answer)) ∈ j.pool.processes := List.mem_of_getElem? hi
    have hputs : Puts H.host j.pool.state s := by
      refine puts_of_perform hsha hinv.named (hg ▸ hallowed) ?_ hs
      rintro ref rfl
      exact hinv.there _ hmem _ ⟨ref, next, rfl, rfl⟩
    refine ⟨hputs.named hinv.named, htracks, ?_, ⟨A, hstable, ?_, hmeets⟩⟩
    · intro p hp path habout
      obtain ⟨k, hk⟩ := List.mem_iff_getElem?.mp hp
      rcases List.mem_or_eq_of_mem_set hp with hold | rfl
      · obtain ⟨content, hfile⟩ := hinv.there p hold path habout
        exact ⟨content, hputs.file hfile⟩
      · have hchecked := habout.checked (htracks k _ hk)
        rw [Process.advance, ArtifactBindings.lastChecked, List.getLast?_append,
          List.getLast?_singleton, Option.some_or, Option.bind_some] at hchecked
        exact checked_file hs hchecked
    · exact hstable _ _ hinv.named hputs hA

theorem Joint.Invariant.retention (hinv : j.Invariant H plan) {o : RetentionOp}
    {next : Except RetentionError (Retention.Result T o) → Program RetentionOp
      (fun o => Except RetentionError (Retention.Result T o)) (Except RetentionError Receipt)}
    {r : Except RetentionError (Retention.Result T o)} (hnext : j.execution = .step o next)
    (hguard : Undisturbed H.host j o) (h : performs H j.pool.state o r w) :
    Joint.Invariant H plan ⟨{ j.pool with state := w }, next r⟩ := by
  obtain ⟨A, _, hA, hmeets⟩ := hinv.execution
  rw [hnext] at hmeets
  obtain ⟨B, hacts, hrest⟩ := hmeets
  refine ⟨hacts.keeps _ _ _ hinv.named hA h, ?_, ?_,
    ⟨B r, hacts.stable r, hacts.leads _ _ _ hinv.named hA h, hrest r⟩⟩
  · exact fun i p hi => hinv.tracks i p hi
  · intro p hp path habout
    obtain ⟨content, hfile⟩ := hinv.there p hp path habout
    rcases performs_file h hfile with hstays | ⟨planId, tenantId, digest, rfl, rfl⟩
    · exact hstays
    · exact absurd habout (hguard p hp)

theorem invariant_start (hsha : Function.Injective H.host.sha256) {acknowledgedSha256 : PyStr}
    (hsound : Sound H.host w.artifacts) :
    (Joint.start (F := F) H plan acknowledgedSha256 w).Invariant H plan := by
  refine ⟨hsound.named, ?_, ?_, ⟨Backed H.host plan [], stable_backed, ⟨?_, ?_⟩,
    beside_execute hsha⟩⟩
  · intro i p hp
    cases hp
  · intro p hp
    cases hp
  · intro row hrow
    obtain ⟨content, hpresent, hlength⟩ := hsound.stored row hrow
    exact ⟨content, hlength, .inl hpresent⟩
  · intro digest hmem
    cases hmem

theorem invariant_run (hsha : Function.Injective H.host.sha256) {acknowledgedSha256 : PyStr}
    (hsound : Sound H.host w.artifacts)
    (h : Relation.ReflTransGen (JointStep H (Undisturbed H.host))
      (.start H plan acknowledgedSha256 w) j) : j.Invariant H plan := by
  induction h with
  | refl => exact invariant_start hsha hsound
  | tail _ hstep ih =>
    cases hstep with
    | put pool h => exact ih.put hsha h
    | retention o next r w hnext hguard h => exact ih.retention hnext hguard h

/-- When no file is moved that a call is about to insert a row of, no row is left without its
file. -/
theorem leavesNoDangling (hsha : Function.Injective H.host.sha256) (acknowledgedSha256 : PyStr) :
    LeavesNoDangling H plan acknowledgedSha256 (Undisturbed (F := F) H.host) := by
  rintro w j hsound hrun ⟨r, hdone⟩ _
  have hinv := invariant_run hsha hsound hrun
  obtain ⟨A, _, hA, hmeets⟩ := hinv.execution
  rw [hdone] at hmeets
  have hbacked : Backed H.host plan [] j.pool.state := by
    have hends := hmeets _ hinv.named hA
    cases r with
    | ok receipt => exact hends
    | error e => exact hends
  intro row hrow
  obtain ⟨content, hlength, hfile | ⟨digest, hmem, _⟩⟩ := hbacked.rows row hrow
  · exact ⟨content, hfile, hlength, hinv.named _ _ hfile⟩
  · cases hmem

end Joint

theorem leavesNoDangling_sample : LeavesNoDangling sampleHost samplePlan samplePlan.planSha256
    (Undisturbed sampleHost.host) :=
  leavesNoDangling sampleHost_injective _

/-! ## A row inserted behind the whole execution -/

section Play
variable [PyFloat F] [LinearOrder T]

inductive Turn (F : Type) where
  | call (c : Call F)
  | connection (i : ℕ)
  | execution

def isBind : ArtifactOp → Bool
  | .bindRow _ => true
  | _ => false

def isDone {Op : Type} {Reply : Op → Type} {α : Type} : Program Op Reply α → Bool
  | .done _ => true
  | .step _ _ => false

/-- One turn, in which the system fails no operation. -/
def Joint.turn (H : RetentionHost F T) (j : Joint F T) : Turn F → Joint F T
  | .call c => ⟨j.pool.start ⟨c, [], (c.action H.host).run⟩, j.execution⟩
  | .connection i =>
    match j.pool.processes[i]? with
    | some ⟨c, log, .step o next⟩ =>
      if isBind o && j.pool.state.transaction.isSome then j
      else
        let r := Artifacts.respond j.pool.state.artifacts o
        ⟨j.pool.act i { j.pool.state with artifacts := r.2 } (.advance c log o r.1 next), j.execution⟩
    | _ => j
  | .execution =>
    match j.execution with
    | .step o next =>
      let r := respond H j.pool.state o
      ⟨{ j.pool with state := r.2 }, next r.1⟩
    | .done _ => j

theorem turn_run (j : Joint F T) (t : Turn F) :
    Relation.ReflTransGen (JointStep H fun _ _ => True) j (j.turn H t) := by
  cases t with
  | call c => exact .single (.put _ (.start c))
  | connection i =>
    rw [Joint.turn]
    split
    · rename_i c log o next hi
      split_ifs with hblocked
      · exact .refl
      · refine .single (.put _ (.operation i c log o next _ _ hi trivial ⟨?_, _, rfl, rfl⟩))
        rintro ref rfl
        rw [isBind, Bool.true_and, Bool.not_eq_true, Option.isSome_eq_false_iff,
          Option.isNone_iff_eq_none] at hblocked
        exact hblocked
    · exact .refl
  | execution =>
    rw [Joint.turn]
    split
    · rename_i o next hnext
      refine .single (.retention o next _ _ hnext trivial ?_)
      cases o with
      | walCheckpoint => rfl
      | _ => exact .inl rfl
    · exact .refl

theorem turns_run (j : Joint F T) (turns : List (Turn F)) :
    Relation.ReflTransGen (JointStep H fun _ _ => True) j (turns.foldl (Joint.turn H) j) := by
  induction turns generalizing j with
  | nil => exact .refl
  | cons t turns ih => exact (turn_run j t).trans (ih _)

end Play

/-- Another job of the tenant puts the same content. -/
def samplePut : Call Epoch :=
  .put ⟨py "tenant", py "other", py "key", (encode (py "content")).getD [], py "text/plain"⟩

/-- The put reads the file back, the plan is executed, and the put inserts its row. -/
def sampleTurns : List (Turn Epoch) :=
  .call samplePut :: .connection 0 :: .connection 0 :: .connection 0 ::
    (List.replicate 30 .execution ++ [.connection 0, .connection 0])

def sampleJoint : Joint Epoch ℕ :=
  sampleTurns.foldl (Joint.turn sampleHost)
    (.start sampleHost samplePlan samplePlan.planSha256 sampleWorld)

theorem sound_sample : Sound sampleHost.host sampleWorld.artifacts := by
  have hblobs : sampleWorld.artifacts.blobs = Function.update (fun _ => none)
      (blobPath ArtifactBindings.swapHost (py "tenant") contentDigest) (encode (py "content")) := rfl
  have hencode : encode (py "content") = some (py "content") := by decide +kernel
  have htenant : encode (py "tenant") = some (py "tenant") := by decide +kernel
  have hpath : blobPath sampleHost.host (py "tenant") contentDigest =
      blobPath ArtifactBindings.swapHost (py "tenant") contentDigest := by
    rw [blobPath, blobPath, htenant, Option.getD_some, sampleHost_tenant]
  have hsafe : (encode (py "tenant")).isSome = true ∧ (encode (py "job")).isSome = true ∧
      (encode (py "key")).isSome = true := ⟨encode_py _, encode_py _, encode_py _⟩
  refine ⟨?_, ?_, ?_⟩
  · intro path content h
    rw [ArtifactBindings.Present, hblobs, Function.update_apply] at h
    by_cases hp : path = blobPath ArtifactBindings.swapHost (py "tenant") contentDigest
    · rw [if_pos hp, hencode, Option.some.injEq] at h
      rw [← h, hp]
      exact sampleHost_content
    · rw [if_neg hp] at h
      cases h
  · intro row hrow
    rw [List.mem_singleton.mp hrow]
    refine ⟨py "content", ?_, ?_⟩
    · rw [ArtifactRef.path, ArtifactBindings.Present, ← hencode, hpath, hblobs, Function.update_self]
    · decide +kernel
  · intro row hrow
    rw [List.mem_singleton.mp hrow]
    exact hsafe

theorem dangles :
    ¬∀ (H : RetentionHost Epoch ℕ) (plan : Plan ℕ) (acknowledgedSha256 : PyStr),
      Function.Injective H.host.sha256 →
        LeavesNoDangling H plan acknowledgedSha256 fun _ _ => True := by
  intro h
  have hended : isDone sampleJoint.execution = true ∧
      sampleJoint.pool.processes.all (fun p => isDone p.program) = true ∧
      sampleJoint.pool.state.artifacts.index.rows.any (fun row =>
        (sampleJoint.pool.state.artifacts.blobs (row.path sampleHost.host)).isNone) = true := by
    decide +kernel
  obtain ⟨hexecution, hprocesses, hrow⟩ := hended
  have hdone : ∀ {Op : Type} {Reply : Op → Type} {α : Type} {p : Program Op Reply α},
      isDone p = true → ∃ r, p = .done r := by
    intro Op Reply α p hp
    cases p with
    | done r => exact ⟨r, rfl⟩
    | step o next => cases hp
  obtain ⟨row, hmem, hnone⟩ := List.any_eq_true.mp hrow
  obtain ⟨content, hcontent, _⟩ := h sampleHost samplePlan samplePlan.planSha256
    sampleHost_injective sampleWorld sampleJoint sound_sample (turns_run _ _) (hdone hexecution)
    (fun p hp => hdone (List.all_eq_true.mp hprocesses p hp)) row hmem
  rw [hcontent] at hnone
  cases hnone

end RetentionRace
