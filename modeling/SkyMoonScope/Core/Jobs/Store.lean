import Mathlib.Data.Int.Basic

/-!
# Job rows

The row of a job in the `jobs` table of `core/src/jobs`, with the columns its life cycle reads and
writes, and the `UPDATE` statements of `store.rs` and of `retry_job`. Every statement names its row
by `id` only; its `WHERE` clause does not mention the status.

## Main definitions

* `JobStatus`, `JobStatus.Allows`: the statuses, and the transitions between them
* `Job`: the row
* `Statement`, `Statement.run`: the `UPDATE` statements
* `Statement.Guard`: the statuses from which a statement makes the transition it is there for

## Main results

* `Statement.guard_iff`: the guard is exactly what keeps a statement within the state machine
-/

namespace Core.Jobs

/-- Status of a job in its lifecycle. -/
inductive JobStatus
  | queued
  | processing
  | completed
  | failed
  | cancelled
deriving DecidableEq

namespace JobStatus

/-- The status is final. -/
def isTerminal : JobStatus → Bool
  | completed | failed | cancelled => true
  | _ => false

/-- Cancellation is a legal transition from the status. -/
def canCancel : JobStatus → Bool
  | queued | processing => true
  | _ => false

/-- The transitions of the state machine, and the return to the queue that a retry makes. -/
inductive Allows : JobStatus → JobStatus → Prop
  | start : Allows queued processing
  | dequeue : Allows queued cancelled
  | complete : Allows processing completed
  | fail : Allows processing failed
  | abort : Allows processing cancelled
  | retry : Allows failed queued

instance (a b : JobStatus) : Decidable (Allows a b) :=
  decidable_of_iff ((a, b) ∈ [(queued, processing), (queued, cancelled), (processing, completed),
      (processing, failed), (processing, cancelled), (failed, queued)])
    ⟨fun h => by cases a <;> cases b <;> first | constructor | simp at h,
      fun h => by cases h <;> simp⟩

/-- Nothing is allowed from a completed or a cancelled job. -/
theorem not_allows_of_final {a b : JobStatus} (h : a = completed ∨ a = cancelled) :
    ¬ Allows a b := by
  rcases h with rfl | rfl <;> cases b <;> decide

end JobStatus

/-- The columns of a row that its life cycle reads and writes. -/
structure Job where
  status : JobStatus
  retryCount : ℤ
  progressPercent : ℤ
  progressMessage : String
deriving DecidableEq

/-- The row that `submit` inserts: the columns it leaves out take the defaults of the table. -/
def Job.submitted : Job :=
  { status := .queued, retryCount := 0, progressPercent := 0, progressMessage := "Queued" }

/-- An `UPDATE` of the row of a job. -/
inductive Statement
  | markProcessing
  | updateProgress (percent : ℤ) (message : String)
  | complete
  | fail
  | cancel
  | requeue (newRetryCount : ℤ)
deriving DecidableEq

namespace Statement

/-- What the statement does to the row. -/
def run (job : Job) : Statement → Job
  | markProcessing =>
    { job with
      status := .processing, progressPercent := 10, progressMessage := "Processing started" }
  | updateProgress percent message =>
    { job with progressPercent := percent, progressMessage := message }
  | complete =>
    { job with status := .completed, progressPercent := 100, progressMessage := "Completed" }
  | fail => { job with status := .failed, progressMessage := "Failed" }
  | cancel => { job with status := .cancelled, progressMessage := "Cancelled" }
  | requeue newRetryCount => { job with status := .queued, retryCount := newRetryCount }

/-- The row after the statement a step issues, if it issues one. An `UPDATE` leaves a missing row
missing. -/
def apply (row : Option Job) : Option Statement → Option Job
  | none => row
  | some st => row.map (st.run ·)

/-- The status the statement writes, if it writes one. -/
def target : Statement → Option JobStatus
  | markProcessing => some .processing
  | updateProgress .. => none
  | complete => some .completed
  | fail => some .failed
  | cancel => some .cancelled
  | requeue _ => some .queued

theorem status_run (job : Job) (st : Statement) :
    (st.run job).status = st.target.getD job.status := by
  cases st <;> rfl

/-- The statuses from which the statement makes the transition it is there for, and the status it
writes: the guard that its `WHERE` clause leaves out. -/
def Guard : Statement → JobStatus → Prop
  | markProcessing, a => a = .queued ∨ a = .processing
  | updateProgress .., _ => True
  | complete, a => a = .processing ∨ a = .completed
  | fail, a => a = .processing ∨ a = .failed
  | cancel, a => a.canCancel ∨ a = .cancelled
  | requeue _, a => a = .failed ∨ a = .queued

instance (st : Statement) (a : JobStatus) : Decidable (st.Guard a) := by
  cases st <;> unfold Guard <;> infer_instance

/-- **The guard is exact**: a statement leaves the status or changes it as the state machine allows
exactly from the statuses of its guard. -/
theorem guard_iff (st : Statement) (job : Job) :
    st.Guard job.status ↔ job.status = (st.run job).status ∨
      JobStatus.Allows job.status (st.run job).status := by
  rw [status_run]
  generalize job.status = a
  cases st <;> cases a <;> simp [Guard, target, JobStatus.canCancel] <;> decide

end Statement

end Core.Jobs
