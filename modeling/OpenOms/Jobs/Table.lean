import OpenOms.Library.PartialIndex
import Mathlib.Data.List.Lemmas

/-!
The table of background jobs: one-off work recorded with its kind, its subject and its
outcome, and what is told of a connection's instrument universe by its latest job. A
job's id is its place in the table.
-/
namespace OmsJobs
open PartialIndex

inductive JobKind where
  | universeLoad
  | enrichment
  | symbologyBackfill
  | expirySweep
  deriving DecidableEq, Repr

def UNIVERSE_WRITERS : List JobKind := [.universeLoad, .enrichment]

def JobKind.writesUniverse (kind : JobKind) : Bool := UNIVERSE_WRITERS.contains kind

inductive JobStatus where
  | queued
  | running
  | succeeded
  | failed
  | interrupted
  deriving DecidableEq, Repr

def JobStatus.active (status : JobStatus) : Bool := status = .queued || status = .running

structure Report where
  skipped : Option Int
  skippedReasons : Option (List (Option String))
  deriving DecidableEq, Repr

structure JobRow where
  kind : JobKind
  subject : Option String
  startedBy : String
  status : JobStatus
  progressDone : Option Int
  progressTotal : Option Int
  result : Option Report
  error : Option String
  createdAt : Nat
  deriving DecidableEq, Repr

def JobKind.key (kind : JobKind) (subject : String) : String ⊕ JobKind × String :=
  if kind.writesUniverse then .inl subject else .inr (kind, subject)

/-- The two partial unique indexes: active universe writers by subject, the other active
    jobs by kind and subject. A job without a subject is in neither. -/
def indexKey (row : JobRow) : Option (String ⊕ JobKind × String) :=
  if row.status.active then row.subject.map row.kind.key else none

def blockingKinds (kind : JobKind) : List JobKind :=
  if kind.writesUniverse then UNIVERSE_WRITERS else [kind]

def JobRow.queued (kind : JobKind) (subject : Option String) (startedBy : String)
    (createdAt : Nat) : JobRow :=
  ⟨kind, subject, startedBy, .queued, none, none, none, none, createdAt⟩

def blocks (kind : JobKind) (subject : Option String) (row : JobRow) : Bool :=
  (blockingKinds kind).contains row.kind && row.subject = subject && row.status.active

def lookUp (rows : List JobRow) (kind : JobKind) (subject : Option String) : Option Nat :=
  rows.findIdx? (blocks kind subject)

def JobRow.start (row : JobRow) : JobRow := { row with status := .running }

def JobRow.progress (done : Int) (total : Option Int) (row : JobRow) : JobRow :=
  { row with progressDone := some done, progressTotal := total.or row.progressTotal }

def JobRow.succeed (result : Report) (row : JobRow) : JobRow :=
  { row with status := .succeeded, result := some result }

def JobRow.fail (error : String) (row : JobRow) : JobRow :=
  { row with status := .failed, error := some error }

def JobRow.interrupt (row : JobRow) : JobRow :=
  if row.status.active then { row with status := .interrupted } else row

def markInterrupted (rows : List JobRow) : List JobRow := rows.map JobRow.interrupt

inductive UniverseState where
  | notLoaded
  | loading
  | loaded
  | partially
  | failed
  deriving DecidableEq, Repr

def deriveUniverseState (lastJob : Option JobRow) (count : Int) : UniverseState × Option String :=
  match lastJob with
  | none => if count > 0 then (.loaded, none) else (.notLoaded, none)
  | some job =>
    match job.status with
    | .queued | .running => (.loading, none)
    | .failed => (.failed, job.error)
    | .interrupted => (.partially, some "interrupted")
    | .succeeded =>
      let skipped := (job.result.bind Report.skipped).getD 0
      if skipped > 0 then
        let reasons := ((job.result.bind Report.skippedReasons).getD []).filterMap id
        (.partially, some (toString skipped ++ " skipped: " ++ ", ".intercalate reasons))
      else if count > 0 then (.loaded, none)
      else (.notLoaded, none)

def universeJobs (rows : List JobRow) (subject : String) : List JobRow :=
  rows.filter fun row => UNIVERSE_WRITERS.contains row.kind && row.subject = some subject

def LatestUniverseJob (rows : List JobRow) (subject : String) : Option JobRow → Prop
  | none => universeJobs rows subject = []
  | some job => job ∈ universeJobs rows subject ∧
      ∀ other ∈ universeJobs rows subject, other.createdAt ≤ job.createdAt

instance (rows : List JobRow) (subject : String) (last : Option JobRow) :
    Decidable (LatestUniverseJob rows subject last) := by
  cases last <;> unfold LatestUniverseJob <;> infer_instance

theorem index_key_iff {row : JobRow} {k : String ⊕ JobKind × String} :
    k ∈ indexKey row ↔ row.status.active = true ∧ ∃ subject, row.subject = some subject ∧
      row.kind.key subject = k := by
  unfold indexKey
  split
  · rename_i active
    simp [active, Option.map_eq_some_iff]
  · rename_i over_
    simp [over_]

theorem key_blocks {kind other : JobKind} {subject named : String}
    (same : other.key named = kind.key subject) :
    other ∈ blockingKinds kind ∧ named = subject := by
  unfold JobKind.key at same
  unfold blockingKinds
  cases writes : kind.writesUniverse <;> cases too : other.writesUniverse <;>
    simp only [writes, too, if_true, if_false, Bool.false_eq_true, reduceCtorEq, Sum.inl.injEq,
      Sum.inr.injEq, Prod.mk.injEq] at same ⊢
  · exact ⟨List.mem_singleton.mpr same.1, same.2⟩
  · exact ⟨List.contains_iff_mem.mp too, same⟩

theorem blocks_key {kind other : JobKind} (subject : String)
    (blocked : other ∈ blockingKinds kind) : other.key subject = kind.key subject := by
  unfold blockingKinds at blocked
  unfold JobKind.key
  split at blocked
  · rename_i writes
    have too : other.writesUniverse = true := List.contains_iff_mem.mpr blocked
    rw [if_pos writes, if_pos too]
  · rw [List.mem_singleton.mp blocked]

theorem start_within {row : JobRow} (active : row.status.active = true) :
    Within indexKey row row.start := by
  intro k there
  obtain ⟨_, own⟩ := index_key_iff.mp there
  exact index_key_iff.mpr ⟨active, own⟩

theorem progress_within (done : Int) (total : Option Int) (row : JobRow) :
    Within indexKey row (row.progress done total) := fun _ there => there

theorem ended_within {row new : JobRow} (ended : new.status.active = false) :
    Within indexKey row new := by
  intro k there
  rw [(index_key_iff.mp there).1] at ended
  cases ended

theorem interrupt_within (row : JobRow) : Within indexKey row row.interrupt := by
  unfold JobRow.interrupt
  split
  · exact ended_within rfl
  · exact fun _ there => there

theorem interrupted_inactive (row : JobRow) : row.interrupt.status.active = false := by
  unfold JobRow.interrupt
  split
  · rfl
  · rename_i other
    exact Bool.not_eq_true _ |>.mp other

end OmsJobs
