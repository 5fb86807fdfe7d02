import VeriMat.RetentionEffect

/-! # Retention and crashes

An execution may stop behind any of its operations, and its plan may be executed again later.
What a row needs stays in its place or in the quarantine, as long as no execution starts over a
quarantine that still holds it. -/
namespace RetentionCrash

open PyText JsonText PyValue KeyedTable Events JobStore AtomicProgram RelyGuarantee
open Retention RetentionEffect
open Artifacts (ArtifactRef)

variable {F T : Type} {H : RetentionHost F T} {plan : Plan T}
  {w₀ w w' : World T} {place : Place} {content : PyBytes}

/-- The ledger of a job's row and the blob of an artifact's row. -/
inductive Needs (H : Host) (w : World T) : Place → Prop where
  | ledger (j : Job T) (h : j ∈ w.jobs.jobs.rows) : Needs H w (.ledger j.tenantId j.jobId)
  | blob (row : ArtifactRef) (h : row ∈ w.artifacts.index.rows) : Needs H w (.blob (row.path H))

/-- In its place, or in the quarantine of the operation. -/
def Recoverable (H : RetentionHost F T) (plan : Plan T) (w : World T) (place : Place)
    (content : PyBytes) : Prop :=
  w.file place = some content ∨
    ∃ slot, slot.place H.host plan.tenantId = place ∧ w.held plan.planId slot = some content

theorem Recoverable.file (h : Recoverable H plan w place content)
    (hheld : ∀ slot, slot.place H.host plan.tenantId = place → w.held plan.planId slot = none) :
    w.file place = some content := by
  rcases h with hfile | ⟨slot, hplace, hslot⟩
  · exact hfile
  · rw [hheld slot hplace] at hslot
    cases hslot

theorem Needs.restored {H : Host} (h : Restored w₀ w) (hneeds : Needs H w place) :
    Needs H w₀ place := by
  cases hneeds with
  | ledger j hj => exact .ledger j (h.jobs ▸ hj)
  | blob row hrow => exact .blob row (h.artifacts ▸ hrow)

/-- Rows are only ever deleted. -/
theorem Needs.before {H : Host} (h : Stage H plan w₀ w) (hneeds : Needs H w place) :
    Needs H w₀ place := by
  cases h with
  | untouched restored => exact hneeds.restored restored
  | moving _ moved h =>
    cases hneeds with
    | ledger j hj => exact .ledger j (h.jobs ▸ hj)
    | blob row hrow => exact .blob row (h.index ▸ hrow)
  | removed _ h =>
    cases hneeds with
    | ledger j hj =>
      have hrows : w.jobs = (erased w₀.databases plan.tenantId (jobIds plan)).jobs :=
        congrArg Databases.jobs h.databases
      rw [hrows] at hj
      exact .ledger j (Table.mem_delete.mp hj).1
    | blob row hrow =>
      have hrows : w.artifacts.index = (erased w₀.databases plan.tenantId (jobIds plan)).index :=
        congrArg Databases.index h.databases
      rw [hrows] at hrow
      exact .blob row (Table.mem_delete.mp hrow).1

variable [PyFloat F] [LinearOrder T]

/-- The process is gone, and with it its lock and its open transaction. -/
def crashed (w : World T) : World T := { w with locked := false, transaction := none }

/-- The first operations of a program, none of which the system fails. -/
def advance (H : RetentionHost F T) {α : Type} :
    ℕ → Program RetentionOp (fun o => Except RetentionError (Retention.Result T o)) α → World T →
      World T
  | 0, _, w => w
  | _ + 1, .done _, w => w
  | n + 1, .step o next, w => advance H n (next (respond H w o).1) (respond H w o).2

/-- An execution that crashes behind its first move. -/
def interrupted : World ℕ :=
  advance sampleHost 9 (executeRetentionPlan sampleHost samplePlan samplePlan.planSha256).run
    (crashed sampleWorld)

/-- The same plan again. -/
def repeated : World ℕ :=
  advance sampleHost 20 (executeRetentionPlan sampleHost samplePlan samplePlan.planSha256).run
    (crashed interrupted)

end RetentionCrash
