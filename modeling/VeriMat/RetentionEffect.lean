import VeriMat.ArtifactBindings
import VeriMat.JobStoreStateMachine
import VeriMat.Retention

/-! # What an execution alone does

An execution that nobody else writes beside: at each of its points the files it has moved are in
its quarantine and everything else is as it was, and it ends with the plan removed and nothing
else touched, or with everything back. -/
namespace RetentionEffect

open PyText JsonText PyValue KeyedTable Events JobStore AtomicProgram RelyGuarantee Retention
open Artifacts (ArtifactRef Index blobPath)

variable {F T : Type} {H : RetentionHost F T} {plan : Plan T}

/-! ## Files and their places -/

section Files
variable {w : World T} {planId tenantId : PyStr} {place : Place} {content : Option PyBytes}

@[simp] theorem setFile_jobs : (w.setFile place content).jobs = w.jobs := by
  cases place <;> rfl

@[simp] theorem setFile_index : (w.setFile place content).artifacts.index = w.artifacts.index := by
  cases place <;> rfl

@[simp] theorem setFile_transaction : (w.setFile place content).transaction = w.transaction := by
  cases place <;> rfl

@[simp] theorem setFile_quarantine : (w.setFile place content).quarantine = w.quarantine := by
  cases place <;> rfl

theorem setFile_file : (w.setFile place content).file = Function.update w.file place content := by
  funext place'
  cases place with
  | ledger tenantId jobId =>
    cases place' with
    | ledger tenantId' jobId' =>
      simp [World.setFile, World.file, Function.update_apply]
    | blob path => simp [World.setFile, World.file]
  | blob path =>
    cases place' with
    | ledger tenantId' jobId' => simp [World.setFile, World.file]
    | blob path' => simp [World.setFile, World.file, Function.update_apply]

@[simp] theorem setFile_commits : (w.setFile place content).commits = w.commits := by
  cases place <;> rfl

@[simp] theorem setFile_held : (w.setFile place content).held = w.held := by
  funext planId slot
  rw [World.held, World.held, setFile_quarantine]

theorem setHeld_held {slot : Slot} (h : (w.quarantine planId).isSome = true) (slot' : Slot) :
    (w.setHeld planId slot content).held planId slot' =
      if slot' = slot then content else w.held planId slot' := by
  obtain ⟨files, hfiles⟩ := Option.isSome_iff_exists.mp h
  simp only [World.held, World.setHeld, Function.update_self, hfiles, Option.map_some,
    Option.bind_some, Function.update_apply]

theorem setHeld_isSome {slot : Slot} (h : (w.quarantine planId).isSome = true) :
    ((w.setHeld planId slot content).quarantine planId).isSome = true := by
  simpa [World.setHeld] using h

theorem place_injective {H : Host} {slot slot' : Slot}
    (h : slot.place H tenantId = slot'.place H tenantId) : slot = slot' := by
  cases slot <;> cases slot' <;> simp_all [Slot.place, blobPath]

/-- Two worlds with the same files have the same ledgers and the same blobs. -/
theorem files_ext {w' : World T} (h : w'.file = w.file) :
    w'.ledgers = w.ledgers ∧ w'.artifacts.blobs = w.artifacts.blobs := by
  constructor
  · funext key
    exact congrFun h (.ledger key.1 key.2)
  · funext path
    exact congrFun h (.blob path)

end Files

/-! ## The points of an execution -/

/-- The moved files are in the quarantine, and everything else is as it was. -/
structure Moving (H : Host) (plan : Plan T) (w₀ w : World T) (moved : List Slot) : Prop where
  jobs : w.jobs = w₀.jobs
  index : w.artifacts.index = w₀.artifacts.index
  commits : w.commits = w₀.commits
  files : ∀ place, w.file place =
    if place ∈ moved.map (Slot.place H plan.tenantId) then none else w₀.file place
  held : ∀ slot, w.held plan.planId slot =
    if slot ∈ moved then w₀.file (slot.place H plan.tenantId) else none
  present : ∀ slot ∈ moved, (w₀.file (slot.place H plan.tenantId)).isSome = true
  nodup : moved.Nodup

/-- The jobs of a plan. -/
def jobIds (plan : Plan T) : List PyStr := plan.targets.map (·.jobId)

/-- The rows without those of these jobs of a tenant. -/
def erased (d : Databases T) (tenantId : PyStr) (ids : List PyStr) : Databases T where
  jobs :=
    ⟨d.jobs.jobs.delete fun j => j.tenantId == tenantId && decide (j.jobId ∈ ids),
      d.jobs.checkpoints.delete fun c => decide (c.jobId ∈ ids),
      d.jobs.usageLedger.delete fun u => decide (u.jobId ∈ ids)⟩
  index := d.index.delete fun row => row.tenantId == tenantId && decide (row.jobId ∈ ids)

/-- The planned jobs, their rows, their ledgers and the planned blobs are gone from their places;
everything else is as it was. -/
structure Removed (H : Host) (plan : Plan T) (w₀ w : World T) : Prop where
  commits : w.commits = w₀.commits + 1
  databases : w.databases = erased w₀.databases plan.tenantId (jobIds plan)
  found : ∀ jobId ∈ jobIds plan, ∃ j ∈ w₀.jobs.jobs.rows,
    j.tenantId = plan.tenantId ∧ j.jobId = jobId
  ledgers : ∀ tenantId jobId, w.ledgers (tenantId, jobId) =
    if tenantId = plan.tenantId ∧ jobId ∈ jobIds plan then none else w₀.ledgers (tenantId, jobId)
  blobs : ∀ path, w.artifacts.blobs path =
    if ∃ b ∈ plan.deletableBlobs, path = blobPath H plan.tenantId b.contentSha256 then none
    else w₀.artifacts.blobs path
  unreferenced : ∀ row ∈ w.artifacts.index.rows, ∀ b ∈ plan.deletableBlobs,
    row.path H ≠ blobPath H plan.tenantId b.contentSha256

/-- Nothing has been committed, and every row, ledger and blob is as it was. -/
structure Restored (w₀ w : World T) : Prop where
  jobs : w.jobs = w₀.jobs
  artifacts : w.artifacts = w₀.artifacts
  ledgers : w.ledgers = w₀.ledgers
  commits : w.commits = w₀.commits

theorem Restored.congr {w₀ w w' : World T} (h : Restored w₀ w) (hjobs : w'.jobs = w.jobs)
    (hartifacts : w'.artifacts = w.artifacts) (hledgers : w'.ledgers = w.ledgers)
    (hcommits : w'.commits = w.commits) : Restored w₀ w' :=
  ⟨hjobs.trans h.jobs, hartifacts.trans h.artifacts, hledgers.trans h.ledgers,
    hcommits.trans h.commits⟩

theorem Moving.restored {H : Host} {w₀ w : World T} (h : Moving H plan w₀ w []) :
    Restored w₀ w := by
  have hfile : w.file = w₀.file := by
    funext place
    exact h.files place
  obtain ⟨hledgers, hblobs⟩ := files_ext hfile
  have hartifacts : w.artifacts = w₀.artifacts := by
    have hindex := h.index
    cases hw : w.artifacts
    cases hw₀ : w₀.artifacts
    rw [hw, hw₀] at hindex hblobs
    simp only at hindex hblobs
    rw [hindex, hblobs]
  exact ⟨h.jobs, hartifacts, hledgers, h.commits⟩

/-- One file is moved. -/
theorem Moving.move {H : Host} {w₀ w : World T} {moved : List Slot} {slot : Slot}
    {content : PyBytes} (h : Moving H plan w₀ w moved)
    (hquarantine : (w.quarantine plan.planId).isSome = true)
    (hfile : w.file (slot.place H plan.tenantId) = some content) :
    Moving H plan w₀
      ((w.setHeld plan.planId slot (some content)).setFile (slot.place H plan.tenantId) none)
      (moved ++ [slot]) := by
  have hplace : slot.place H plan.tenantId ∉ moved.map (Slot.place H plan.tenantId) := by
    intro hmem
    rw [h.files, if_pos hmem] at hfile
    cases hfile
  have hbefore : w₀.file (slot.place H plan.tenantId) = some content := by
    rw [← hfile, h.files, if_neg hplace]
  have hslot : slot ∉ moved := fun hmem => hplace (List.mem_map_of_mem hmem)
  refine ⟨?_, ?_, ?_, ?_, ?_, ?_, ?_⟩
  · rw [setFile_jobs]
    exact h.jobs
  · rw [setFile_index]
    exact h.index
  · rw [setFile_commits]
    exact h.commits
  · intro place
    rw [setFile_file, Function.update_apply]
    by_cases hp : place = slot.place H plan.tenantId
    · have hmem : place ∈ (moved ++ [slot]).map (Slot.place H plan.tenantId) := by
        simp [hp]
      rw [if_pos hp, if_pos hmem]
    · have hmem : place ∈ (moved ++ [slot]).map (Slot.place H plan.tenantId) ↔
          place ∈ moved.map (Slot.place H plan.tenantId) := by
        simp [hp]
      rw [if_neg hp, if_congr hmem rfl rfl]
      exact h.files place
  · intro slot'
    rw [setFile_held, setHeld_held hquarantine]
    by_cases hs : slot' = slot
    · have hmem : slot' ∈ moved ++ [slot] := by
        simp [hs]
      rw [if_pos hs, if_pos hmem, hs, hbefore]
    · have hmem : slot' ∈ moved ++ [slot] ↔ slot' ∈ moved := by
        simp [hs]
      rw [if_neg hs, if_congr hmem rfl rfl]
      exact h.held slot'
  · intro slot' hslot'
    rw [List.mem_append, List.mem_singleton] at hslot'
    rcases hslot' with hold | rfl
    · exact h.present slot' hold
    · rw [hbefore, Option.isSome_some]
  · rw [List.nodup_append]
    refine ⟨h.nodup, List.nodup_singleton _, ?_⟩
    rintro slot' hslot' _ hmem rfl
    rw [List.mem_singleton] at hmem
    exact hslot (hmem ▸ hslot')

/-- The last file goes back. -/
theorem Moving.undo {H : Host} {w₀ w : World T} {moved : List Slot} {slot : Slot}
    {content : PyBytes} (h : Moving H plan w₀ w (moved ++ [slot]))
    (hheld : w.held plan.planId slot = some content) :
    Moving H plan w₀
      ((w.setHeld plan.planId slot none).setFile (slot.place H plan.tenantId) (some content))
      moved := by
  obtain ⟨hmoved, _, hdistinct⟩ := List.nodup_append.mp h.nodup
  have hslot : slot ∉ moved := by
    intro hmem
    exact hdistinct slot hmem slot (List.mem_singleton_self _) rfl
  have hquarantine : (w.quarantine plan.planId).isSome = true := by
    rw [World.held] at hheld
    cases hq : w.quarantine plan.planId with
    | none =>
      rw [hq] at hheld
      cases hheld
    | some files => rfl
  have hlast : slot ∈ moved ++ [slot] := List.mem_append_right _ (List.mem_singleton_self _)
  have hbefore : w₀.file (slot.place H plan.tenantId) = some content := by
    rw [← hheld, h.held, if_pos hlast]
  refine ⟨?_, ?_, ?_, ?_, ?_, ?_, hmoved⟩
  · rw [setFile_jobs]
    exact h.jobs
  · rw [setFile_index]
    exact h.index
  · rw [setFile_commits]
    exact h.commits
  · intro place
    rw [setFile_file, Function.update_apply]
    by_cases hp : place = slot.place H plan.tenantId
    · have hmem : place ∉ moved.map (Slot.place H plan.tenantId) := by
        rw [hp, List.mem_map]
        rintro ⟨slot', hslot', hplace⟩
        exact hslot (place_injective hplace ▸ hslot')
      rw [if_pos hp, if_neg hmem, hp, hbefore]
    · have hmem : place ∈ (moved ++ [slot]).map (Slot.place H plan.tenantId) ↔
          place ∈ moved.map (Slot.place H plan.tenantId) := by
        simp [hp]
      rw [if_neg hp, ← if_congr hmem rfl rfl]
      exact h.files place
  · intro slot'
    rw [setFile_held, setHeld_held hquarantine]
    by_cases hs : slot' = slot
    · rw [if_pos hs, if_neg (hs ▸ hslot)]
    · have hmem : slot' ∈ moved ++ [slot] ↔ slot' ∈ moved := by
        simp [hs]
      rw [if_neg hs, ← if_congr hmem rfl rfl]
      exact h.held slot'
  · intro slot' hslot'
    exact h.present slot' (List.mem_append_left _ hslot')

/-- How far an execution has come. -/
inductive Stage (H : Host) (plan : Plan T) (w₀ w : World T) : Prop where
  | untouched (restored : Restored w₀ w)
      (quarantine : w.quarantine plan.planId = w₀.quarantine plan.planId ∨
        w.quarantine plan.planId = none)
  | moving (fresh : w₀.quarantine plan.planId = none) (moved : List Slot)
      (h : Moving H plan w₀ w moved)
  | removed (fresh : w₀.quarantine plan.planId = none) (h : Removed H plan w₀ w)

/-! ## Statements of an execution -/

section Rules
variable {R : World T → World T → Prop} {I A : World T → Prop} {α : Type}
  {post : α → World T → Prop} {raised : RetentionError → World T → Prop}

theorem performs_iff {o : RetentionOp} (ho : o ≠ .walCheckpoint) {w w' : World T}
    {r : Except RetentionError (Result T o)} :
    performs H w o r w' ↔
      respond H w o = (r, w') ∨ (o.mayFail = true ∧ r = .error .storage ∧ w' = w) := by
  cases o with
  | walCheckpoint => exact absurd rfl ho
  | _ => exact Iff.rfl

/-- An operation whose postconditions last. -/
theorem runs_act {o : RetentionOp} {post : Result T o → World T → Prop} (ho : o ≠ .walCheckpoint)
    (hstable : ∀ r, Stable R I (ends post raised r))
    (hok : ∀ w, I w → A w → I (respond H w o).2 ∧ ends post raised (respond H w o).1 (respond H w o).2)
    (hfail : o.mayFail = true → ∀ w, I w → A w → raised .storage w) :
    Runs (performs H) R I A (act o) post raised := by
  have h : ∀ w r w', I w → A w → performs H w o r w' → I w' ∧ ends post raised r w' := by
    intro w r w' hI hA hperform
    rcases (performs_iff ho).mp hperform with hresponds | ⟨hmay, rfl, rfl⟩
    · have hstep := hok w hI hA
      rw [hresponds] at hstep
      exact hstep
    · exact ⟨hI, hfail hmay w' hI hA⟩
  refine runs_ask ⟨?_, hstable, ?_⟩
  · exact fun w r w' hI hA hperform => (h w r w' hI hA hperform).1
  · exact fun w r w' hI hA hperform => (h w r w' hI hA hperform).2

theorem runs_guard {c : Prop} [Decidable c] {e : RetentionError} {x : Action T α}
    (hraise : ∀ w, I w → A w → raised e w)
    (hx : ¬c → Runs (performs H) R I A x post raised) :
    Runs (performs H) R I A (do raiseIf c e; x) post raised := by
  by_cases hc : c
  · have hrun : (do raiseIf c e; x) = (throw e : Action T α) := by
      rw [Retention.raiseIf, if_pos hc]
      rfl
    rw [hrun]
    exact runs_throw hraise
  · have hrun : (do raiseIf c e; x) = x := by
      rw [Retention.raiseIf, if_neg hc]
      rfl
    rw [hrun]
    exact hx hc

theorem runs_raiseIf {c : Prop} [Decidable c] {e : RetentionError}
    (hraise : ∀ w, I w → A w → raised e w) :
    Runs (performs H) R I A (raiseIf c e) (fun _ w => A w ∧ ¬c) raised := by
  by_cases hc : c
  · rw [Retention.raiseIf, if_pos hc]
    exact runs_throw hraise
  · rw [Retention.raiseIf, if_neg hc]
    exact runs_pure fun w _ hA => ⟨hA, hc⟩

theorem runs_during {l : Locals} {x : Action T α}
    {raised : RetentionError × Locals → World T → Prop}
    (hx : Runs (performs H) R I A x post fun e => raised (e, l)) :
    Runs (performs H) R I A (during l x) post raised :=
  Runs.adapt hx

/-- A plan that passes is of a safe tenant. -/
theorem runs_validatePlan [PyFloat F] {acknowledgedSha256 : PyStr} :
    Runs (performs H) R I A (validatePlan H plan acknowledgedSha256)
      (fun _ w => A w ∧ Artifacts.isSafeId plan.tenantId = true) fun _ => A := by
  have hraise : ∀ w, I w → A w → A w := fun _ _ h => h
  refine runs_guard hraise fun _ => ?_
  cases hdigest : planDigest H plan.toPlanCore with
  | error e => exact runs_throw hraise
  | ok calculated =>
    refine runs_guard hraise fun _ => runs_guard hraise fun hsafe => ?_
    refine (runs_raiseIf hraise).weaken ?_ fun _ _ _ h => h
    intro u w _ h
    exact ⟨h.1, eq_true_of_ne_false hsafe⟩

end Rules

/-! ## Moves -/

section Moves
variable {w₀ : World T}

/-- In the transaction, with the quarantine made. -/
structure Opened (H : Host) (plan : Plan T) (w₀ w : World T) (moved : List Slot) : Prop where
  moving : Moving H plan w₀ w moved
  quarantine : (w.quarantine plan.planId).isSome = true
  transaction : w.transaction = some w₀.databases

theorem Opened.seen {w : World T} {moved : List Slot} (h : Opened H.host plan w₀ w moved) :
    w.seen = w₀.databases := by
  rw [World.seen, h.transaction, Option.getD_some]

variable [PyFloat F] [LinearOrder T]

/-- Only these jobs have artifacts of this content. -/
def Unshared (plan : Plan T) (w₀ : World T) (ids : List PyStr) (digest : PyStr) : Prop :=
  ∀ row ∈ w₀.artifacts.index.rows, row.tenantId = plan.tenantId → row.contentSha256 = digest →
    row.jobId ∈ ids

end Moves

/-! ## Deletions -/

section Deletions
variable {w₀ : World T}

theorem decide_snoc {ids : List PyStr} {jobId : PyStr} (x : PyStr) :
    (decide (x ∈ ids) || x == jobId) = decide (x ∈ ids ++ [jobId]) := by
  rw [Bool.eq_iff_iff]
  simp

theorem and_decide_snoc {ids : List PyStr} {jobId : PyStr} (b : Bool) (x : PyStr) :
    ((b && decide (x ∈ ids)) || (b && x == jobId)) = (b && decide (x ∈ ids ++ [jobId])) := by
  rw [← Bool.and_or_distrib_left, decide_snoc]

/-- In the transaction, with the rows of these jobs deleted. -/
structure Deleting (H : Host) (plan : Plan T) (w₀ : World T) (moved : List Slot)
    (ids : List PyStr) (w : World T) : Prop where
  moving : Moving H plan w₀ w moved
  quarantine : (w.quarantine plan.planId).isSome = true
  transaction : w.transaction = some (erased w₀.databases plan.tenantId ids)
  found : ∀ jobId ∈ ids, ∃ j ∈ w₀.jobs.jobs.rows, j.tenantId = plan.tenantId ∧ j.jobId = jobId

end Deletions

/-! ## The commit -/

section Commit
variable {w₀ w : World T}

/-- The files of a plan. -/
def slots (plan : Plan T) : List Slot :=
  plan.targets.map (fun t => .ledger t.jobId) ++
    plan.deletableBlobs.map fun b => .blob b.contentSha256

theorem ledger_mem_slots (H : Host) {tenantId jobId : PyStr} :
    Place.ledger tenantId jobId ∈ (slots plan).map (Slot.place H plan.tenantId) ↔
      tenantId = plan.tenantId ∧ jobId ∈ jobIds plan := by
  simp only [slots, List.map_append, List.map_map, List.mem_append, List.mem_map,
    Function.comp_apply, Slot.place, Place.ledger.injEq, reduceCtorEq, and_false, exists_false,
    or_false, jobIds]
  constructor
  · rintro ⟨t, ht, rfl, rfl⟩
    exact ⟨rfl, t, ht, rfl⟩
  · rintro ⟨rfl, t, ht, rfl⟩
    exact ⟨t, ht, rfl, rfl⟩

theorem blob_mem_slots (H : Host) {path : Artifacts.BlobPath} :
    Place.blob path ∈ (slots plan).map (Slot.place H plan.tenantId) ↔
      ∃ b ∈ plan.deletableBlobs, path = blobPath H plan.tenantId b.contentSha256 := by
  simp only [slots, List.map_append, List.map_map, List.mem_append, List.mem_map,
    Function.comp_apply, Slot.place, Place.blob.injEq, reduceCtorEq, and_false, exists_false,
    false_or]
  constructor
  · rintro ⟨b, hb, rfl⟩
    exact ⟨b, hb, rfl⟩
  · rintro ⟨b, hb, rfl⟩
    exact ⟨b, hb, rfl⟩

/-- No other tenant's files lie where those of a safe tenant do. -/
theorem tenant_eq {H : Host} (hsha : Function.Injective H.sha256) {tenantId tenantId' : PyStr}
    (hsafe : Artifacts.isSafeId tenantId = true)
    (h : H.sha256 ((encode tenantId').getD []) = H.sha256 ((encode tenantId).getD [])) :
    tenantId' = tenantId := by
  obtain ⟨bytes, hbytes⟩ :=
    Option.isSome_iff_exists.mp (ArtifactBindings.isSafeId_encode hsafe)
  have heq := hsha h
  rw [hbytes, Option.getD_some] at heq
  have hdecode := decode_encode hbytes
  cases hother : encode tenantId' with
  | some bytes' =>
    rw [hother, Option.getD_some] at heq
    have hdecode' := decode_encode hother
    rw [heq, hdecode, Option.some.injEq] at hdecode'
    exact hdecode'.symm
  | none =>
    -- a tenant that has no bytes at all is not safe
    rw [hother, Option.getD_none] at heq
    rw [← heq] at hdecode
    have hempty : tenantId = [] := by
      have hnil : decode ([] : PyBytes) = some [] := rfl
      rw [hnil, Option.some.injEq] at hdecode
      exact hdecode.symm
    rw [hempty] at hsafe
    cases hsafe

theorem Deleting.removed {H : Host} (hsha : Function.Injective H.sha256)
    (hsafe : Artifacts.isSafeId plan.tenantId = true)
    (h : Deleting H plan w₀ (slots plan) (jobIds plan) w)
    (hunshared : ∀ b ∈ plan.deletableBlobs, Unshared plan w₀ (jobIds plan) b.contentSha256) :
    Removed H plan w₀ (w.committed w.seen) := by
  have hseen : w.seen = erased w₀.databases plan.tenantId (jobIds plan) := by
    rw [World.seen, h.transaction, Option.getD_some]
  refine ⟨?_, ?_, h.found, ?_, ?_, ?_⟩
  · exact congrArg (· + 1) h.moving.commits
  · rw [hseen]
    rfl
  · intro tenantId jobId
    rw [← if_congr (ledger_mem_slots H) rfl rfl]
    exact h.moving.files (.ledger tenantId jobId)
  · intro path
    rw [← if_congr (blob_mem_slots H) rfl rfl]
    exact h.moving.files (.blob path)
  · intro row hrow b hb hpath
    rw [hseen] at hrow
    obtain ⟨hrow₀, hkept⟩ := Table.mem_delete.mp hrow
    simp only [ArtifactRef.path, blobPath, Artifacts.BlobPath.mk.injEq] at hpath
    have htenant := tenant_eq hsha hsafe hpath.1
    have hjob := hunshared b hb row hrow₀ htenant hpath.2
    simp [htenant, hjob] at hkept

end Commit

/-! ## The execution -/

section Execution
variable {w₀ : World T} {acknowledgedSha256 : PyStr}

/-- Before anything has been moved. -/
structure Started (plan : Plan T) (w₀ w : World T) : Prop where
  restored : Restored w₀ w
  quarantine : w.quarantine plan.planId = w₀.quarantine plan.planId

theorem Restored.refl (w : World T) : Restored w w := ⟨rfl, rfl, rfl, rfl⟩

theorem Started.moving {H : Host} {w : World T} (h : Started plan w₀ w)
    (hheld : ∀ slot, w.held plan.planId slot = none) : Moving H plan w₀ w [] := by
  refine ⟨h.restored.jobs, ?_, h.restored.commits, ?_, ?_, ?_, List.nodup_nil⟩
  · rw [h.restored.artifacts]
  · intro place
    rw [List.map_nil, if_neg List.not_mem_nil]
    cases place with
    | ledger tenantId jobId => rw [World.file, World.file, h.restored.ledgers]
    | blob path => rw [World.file, World.file, h.restored.artifacts]
  · intro slot
    rw [if_neg List.not_mem_nil]
    exact hheld slot
  · intro slot hslot
    cases hslot

theorem Started.stage {H : Host} {w : World T} (h : Started plan w₀ w) : Stage H plan w₀ w :=
  .untouched h.restored (.inl h.quarantine)

theorem Removed.congr {H : Host} {w w' : World T} (h : Removed H plan w₀ w)
    (hjobs : w'.jobs = w.jobs) (hartifacts : w'.artifacts = w.artifacts)
    (hledgers : w'.ledgers = w.ledgers) (hcommits : w'.commits = w.commits) :
    Removed H plan w₀ w' := by
  refine ⟨hcommits.trans h.commits, ?_, h.found, ?_, ?_, ?_⟩
  · rw [World.databases, hjobs, hartifacts]
    exact h.databases
  · rw [hledgers]
    exact h.ledgers
  · rw [hartifacts]
    exact h.blobs
  · rw [hartifacts]
    exact h.unreferenced

/-- Everything is back, or the plan has been removed. -/
def Settled (H : Host) (plan : Plan T) (w₀ w : World T) : Prop :=
  Restored w₀ w ∨ Removed H plan w₀ w

end Execution

/-! ## A plan -/

section Sample

/-- Floats enough for the epoch. -/
inductive Epoch where
  | nan
  | inf
  | negInf
  | zero
  deriving DecidableEq

instance : PyFloat Epoch where
  ofText s := if s = py "0.0" then .zero else .nan
  repr
    | .nan => py "nan"
    | .inf => py "inf"
    | .negInf => py "-inf"
    | .zero => py "0.0"
  value
    | .nan => .nan
    | .inf => .inf
    | .negInf => .negInf
    | .zero => .finite 0
  nan := .nan
  inf := .inf
  negInf := .negInf
  value_nan := rfl
  value_inf := rfl
  value_negInf := rfl
  ofText_repr x h := by cases x <;> first | rfl | cases h
  scan_repr x h := by cases x <;> first | rfl | cases h

def contentDigest : PyStr := py "ed7002b439e9ac845f22357d822bac1444730fbdb6016d3ec9432297b9ec9f73"

def emptyDigest : PyStr := py "e3b0c44298fc1c149afbf4c8996fb92427ae41e4649b934ca495991b7852b855"

def sampleCore : PlanCore ℕ where
  schemaVersion := 1
  planId := py "plan"
  generatedAt := py "1970-01-01T00:00:00+00:00"
  tenantId := py "tenant"
  cutoffEpoch := 0
  targets :=
    [⟨py "job", .cancelled, 0, ⟨0, emptyDigest, 0, []⟩,
      [⟨py "key", contentDigest, 7, py "text/plain"⟩]⟩]
  deletableBlobs := [⟨contentDigest, 7⟩]

def samplePlan : Plan ℕ :=
  ⟨sampleCore, py "356c9224db9fefde02a6669ac62d6d6d986799fc0460ae55d0a7a0b349059dbd"⟩

/-- The host at the epoch, with the digests of a tenant, a content and nothing. -/
def epochHost : RetentionHost Epoch ℕ where
  host := ArtifactBindings.swapHost
  float now := if now = 0 then .zero else .nan
  isoformat _ := py "1970-01-01T00:00:00+00:00"

def sampleBytes : PyBytes :=
  ((canonicalJson (sampleCore.dict epochHost)).toOption.bind encode).getD []

/-- The same with the digest of the plan. -/
def sampleHost : RetentionHost Epoch ℕ where
  host :=
    { ArtifactBindings.swapHost with
      sha256 := Equiv.swap sampleBytes samplePlan.planSha256 ∘ ArtifactBindings.swapHost.sha256 }
  float := epochHost.float
  isoformat := epochHost.isoformat

/-- A dict is written as an object. -/
theorem head?_dumps_dict [PyFloat F] {kvs : List (PyKey F × PyVal F)} {text : PyStr}
    (h : dumps (.dict kvs) = .ok text) : text.head? = some 123 := by
  rw [dumps, lower] at h
  cases hs : sortItems (lowerItems kvs) with
  | error e => simp [hs, Except.map] at h
  | ok items =>
    cases hm : lowerMembers items with
    | error e => simp [hs, hm, Except.map] at h
    | ok members =>
      simp only [hs, hm, Except.map, Except.ok.injEq] at h
      rw [← h]
      cases members <;> rfl

/-- A text that does not begin as an object is not what a dict is written as. -/
theorem ne_encoded_dict [PyFloat F] {v : PyVal F} {kvs : List (PyKey F × PyVal F)}
    (hv : v = .dict kvs) {text : PyStr} (hne : text ≠ []) (hhead : text.head? ≠ some 123) :
    text ≠ ((canonicalJson v).toOption.bind encode).getD [] := by
  subst hv
  cases h : canonicalJson (.dict kvs) with
  | error e => exact hne
  | ok plan =>
    obtain ⟨rest, rfl⟩ := List.head?_eq_some_iff.mp (head?_dumps_dict h)
    cases henc : encode (123 :: rest) with
    | none => simpa [Except.toOption, henc] using hne
    | some bytes =>
      obtain ⟨b, bs, hb, _, rfl⟩ := encode_cons_eq_some.mp henc
      cases hb
      rintro rfl
      simp [Except.toOption, henc] at hhead

theorem sampleHost_sha256 {content : PyBytes} {digest : PyStr}
    (h : ArtifactBindings.swapHost.sha256 content = digest) (hne : digest ≠ [])
    (hhead : digest.head? ≠ some 123) (hplan : digest ≠ samplePlan.planSha256) :
    sampleHost.host.sha256 content = digest := by
  rw [← h] at hne hhead hplan ⊢
  exact Equiv.swap_apply_of_ne_of_ne (ne_encoded_dict rfl hne hhead) hplan

theorem sampleHost_content : sampleHost.host.sha256 (py "content") = contentDigest :=
  sampleHost_sha256 ArtifactBindings.swapHost_content (py_ne_nil (by decide))
    (ne_of_eq_of_ne (head?_py 'e' _) (by decide)) (py_injective.ne (by decide))

theorem sampleHost_tenant : sampleHost.host.sha256 (py "tenant") =
    ArtifactBindings.swapHost.sha256 (py "tenant") := by
  rw [ArtifactBindings.swapHost_tenant]
  exact sampleHost_sha256 ArtifactBindings.swapHost_tenant (py_ne_nil (by decide))
    (ne_of_eq_of_ne (head?_py 'e' _) (by decide)) (py_injective.ne (by decide))

theorem sampleHost_injective : Function.Injective sampleHost.host.sha256 :=
  (Equiv.injective _).comp ArtifactBindings.swapHost_injective

/-- A cancelled job with an empty ledger and one artifact. -/
def sampleWorld : World ℕ where
  jobs := (JobStoreRuns.play (F := Epoch) Store.empty
    [.createJob JobStoreStateMachine.sampleJob [] 0,
      .transition (py "job") ⟨.cancelled, none, none, false⟩ 0]).2
  artifacts :=
    ⟨⟨[⟨py "tenant", py "job", py "key", contentDigest, 7, py "text/plain"⟩],
      List.pairwise_singleton _ _⟩,
      Function.update (fun _ => none)
        (blobPath ArtifactBindings.swapHost (py "tenant") contentDigest) (encode (py "content"))⟩
  ledgers := Function.update (fun _ => none) (py "tenant", py "job") (some [])
  quarantine _ := none
  locked := false
  transaction := none
  audit := []
  commits := 0

end Sample

end RetentionEffect
