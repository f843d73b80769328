import SkyMoonScope.Core.Jobs.Store
import SkyMoonScope.Lib.Integers
import Mathlib.Algebra.Order.Ring.Nat

/-!
# The bounded task dispatcher

The dispatcher of `core/src/task_queue.rs`, as far as low-priority tasks use it: a task that finds
no free slot is dropped, and a task that is spawned holds its slot until it has run.

## Main definitions

* `BoundedTaskDispatcher`: the dispatcher, with at most `capacity` tasks in flight
* `dispatchLow`, `release`: a low-priority dispatch, and the end of a spawned task
-/

namespace Core.TaskQueue

/-- Outcome of a dispatch attempt. -/
inductive DispatchOutcome
  | spawned
  | dropped
deriving DecidableEq

/-- The dispatcher: the slots of its semaphore that are taken, and its count of dropped tasks. -/
structure BoundedTaskDispatcher where
  capacity : ℕ
  inFlight : ℕ
  dropped : ℕ
  inFlight_le : inFlight ≤ capacity

namespace BoundedTaskDispatcher

variable (d : BoundedTaskDispatcher)

/-- A dispatcher with all its slots free. -/
def new (capacity : ℕ) : BoundedTaskDispatcher :=
  { capacity, inFlight := 0, dropped := 0, inFlight_le := Nat.zero_le capacity }

/-- `dispatch` with `TaskPriority::Low`: dropped immediately if no slot is free. -/
def dispatchLow : DispatchOutcome × BoundedTaskDispatcher :=
  if h : d.inFlight < d.capacity then
    (.spawned, { d with inFlight := d.inFlight + 1, inFlight_le := h })
  else (.dropped, { d with dropped := (d.dropped + 1) % 2 ^ 64 })

/-- A spawned task has run and drops its permit. -/
def release : BoundedTaskDispatcher :=
  { d with inFlight := d.inFlight - 1, inFlight_le := Nat.le_trans (Nat.sub_le _ _) d.inFlight_le }

/-- A low-priority task is dropped exactly when the dispatcher is saturated. -/
theorem dispatchLow_eq_dropped_iff : d.dispatchLow.1 = .dropped ↔ d.inFlight = d.capacity := by
  have hle := d.inFlight_le
  unfold dispatchLow
  split
  · simp only [reduceCtorEq, false_iff]
    omega
  · simp only [true_iff]
    omega

end BoundedTaskDispatcher

end Core.TaskQueue

/-!
# The tasks that write a job's row

`process_job` and `cancel` as step-by-step programs: a program counter holds what the task has
read, and an action says which statement comes next and how it went. Every SQL statement is one
atomic step on the row; between two steps other tasks may run. A statement that fails leaves the
row alone, and its error ends the task, except where the code ignores it.

## Main definitions

* `Task`, `Task.next`: `process_job`, with `retry_job` at its end
* `Cancel`, `Cancel.next`: a cancel request
* `Task.issues`, `Cancel.issues`: the statement a step issues

## Main results

* `Task.next_row`, `Cancel.next_row`: a step runs its statement on the row, and changes nothing
  else of it
-/

namespace Core.Jobs

open TaskQueue (DispatchOutcome)

/-- The backoff of `retry_job` in seconds, unless computing it overflows. -/
def delaySecs (newRetryCount : ℤ) : Option ℤ :=
  if newRetryCount < 1 then none
  else IntType.u64.checked (2 ^ (newRetryCount - 1).toNat * 30)

/-! ## Processing -/

/-- Where a run of `process_job` is. It keeps the job as it read it. -/
inductive Task
  | idle
  | loaded (job : Job)
  | executing (job : Job)
  | completing (job : Job)
  | failing (job : Job)
  | retrying (job : Job)
  | dispatching (job : Job)
  | finished
  | crashed
deriving DecidableEq

/-- A step of `process_job`; `ok` tells whether its SQL statement succeeded. -/
inductive TaskAction
  | get (ok : Bool)
  | markProcessing (ok : Bool)
  | updateProgress (percent : ℤ) (message : String) (ok : Bool)
  | executed (success : Bool)
  | complete (ok : Bool)
  | fail (ok : Bool)
  | giveUp
  | requeue (ok : Bool)
  | overflow
  | dispatched (outcome : DispatchOutcome)
deriving DecidableEq

namespace Task

/-- The statement that a step issues, when it succeeds in issuing one. -/
def issues : Task → TaskAction → Option Statement
  | loaded _, .markProcessing true => some .markProcessing
  | executing _, .updateProgress percent message true => some (.updateProgress percent message)
  | completing _, .complete true => some .complete
  | failing _, .fail true => some .fail
  | retrying job, .requeue true => some (.requeue (job.retryCount + 1))
  | _, _ => none

/-- The next step of `process_job` on a row, with at most `maxJobRetries` retries. -/
def next (maxJobRetries : ℤ) (row : Option Job) : Task → TaskAction → Option (Task × Option Job)
  | idle, .get true =>
    match row with
    | none => some (finished, row)
    | some job => some (loaded job, row)
  | idle, .get false => some (finished, row)
  | loaded job, .markProcessing true =>
    some (executing job, row.map (Statement.markProcessing.run ·))
  | loaded _, .markProcessing false => some (finished, row)
  | executing job, .updateProgress percent message true =>
    some (executing job, row.map ((Statement.updateProgress percent message).run ·))
  -- an error of `update_progress` is ignored
  | executing job, .updateProgress _ _ false => some (executing job, row)
  | executing job, .executed true => some (completing job, row)
  -- an error, or the timeout
  | executing job, .executed false => some (failing job, row)
  | completing _, .complete true => some (finished, row.map (Statement.complete.run ·))
  | completing _, .complete false => some (finished, row)
  | failing job, .fail true => some (retrying job, row.map (Statement.fail.run ·))
  | failing _, .fail false => some (finished, row)
  | retrying job, .giveUp => if maxJobRetries ≤ job.retryCount then some (finished, row) else none
  | retrying job, .overflow =>
    if job.retryCount < maxJobRetries ∧ delaySecs (job.retryCount + 1) = none then
      some (crashed, row)
    else none
  -- after an overflow only when it is not checked for: the delay then wraps
  | retrying job, .requeue true =>
    if job.retryCount < maxJobRetries then
      some (dispatching job, row.map ((Statement.requeue (job.retryCount + 1)).run ·))
    else none
  -- an error of `retry_job` is ignored
  | retrying job, .requeue false =>
    if job.retryCount < maxJobRetries then some (finished, row) else none
  | dispatching _, .dispatched _ => some (finished, row)
  | _, _ => none

/-- **A step runs its statement on the row.** -/
theorem next_row {maxJobRetries : ℤ} {row row' : Option Job} {p q : Task} {a : TaskAction}
    (h : p.next maxJobRetries row a = some (q, row')) :
    row' = Statement.apply row (p.issues a) := by
  unfold next at h
  split at h
  -- the read of the row, which may be missing
  case h_1 => split at h <;> cases h <;> rfl
  -- the steps of `retry_job`, which depend on the retry count
  case h_13 | h_14 | h_15 | h_16 =>
    split at h
    · cases h; rfl
    · cases h
  all_goals cases h <;> rfl

/-- The status that the task has last read or written. -/
def seen : Task → Option JobStatus
  | loaded job => some job.status
  | executing _ | completing _ | failing _ => some .processing
  | retrying _ => some .failed
  | dispatching _ => some .queued
  | idle | finished | crashed => none

/-- The task has loaded its job from the queue. -/
def Sound : Task → Prop
  | loaded job => job.status = .queued
  | _ => True

/-- A task that loads its job while it is queued is sound. -/
theorem sound_of_next {maxJobRetries : ℤ} {row row' : Option Job} {p q : Task} {a : TaskAction}
    (h : p.next maxJobRetries row a = some (q, row'))
    (ha : ∀ job, a = .get true → row = some job → job.status = .queued) : q.Sound := by
  unfold next at h
  split at h
  -- only the read of the row makes a loaded task
  case h_1 =>
    split at h <;> cases h
    · trivial
    · exact ha _ rfl rfl
  case h_13 | h_14 | h_15 | h_16 =>
    split at h
    · cases h; trivial
    · cases h
  all_goals cases h <;> trivial

/-- A sound task issues its statement from a status of the guard, if the status is as it has seen
it. -/
theorem Sound.guard {p : Task} {a : TaskAction} {st : Statement} {b : JobStatus} (hp : p.Sound)
    (hst : p.issues a = some st) (hb : p.seen = some b) : st.Guard b := by
  unfold issues at hst
  split at hst <;> cases hst <;> cases hb <;> simp_all [Sound, Statement.Guard]

/-- The task has yet to start its job, or has requeued it and not handed it on. -/
def Waiting : Task → Prop
  | idle | loaded _ | dispatching _ => True
  | _ => False

/-- The task has requeued its job and has yet to dispatch the retry. -/
def Requeued : Task → Prop
  | dispatching _ => True
  | _ => False

instance (p : Task) : Decidable p.Requeued := by
  cases p <;> unfold Requeued <;> infer_instance

/-- A job that is queued after a step of a task is waited for by the task, or was queued before and
not waited for, unless the step hands the job on or fails to take it over. -/
theorem queued_of_next {maxJobRetries : ℤ} {row row' : Option Job} {p q : Task} {a : TaskAction}
    (h : p.next maxJobRetries row a = some (q, row'))
    (hrow' : row'.map (·.status) = some .queued) :
    q.Waiting ∨ row.map (·.status) = some .queued ∧ (p.Waiting →
      a = .get false ∨ a = .markProcessing false ∨ ∃ outcome, a = .dispatched outcome) := by
  unfold next at h
  split at h
  -- the read finds no row, or makes a task that waits
  case h_1 =>
    split at h <;> cases h
    · cases hrow'
    · exact .inl trivial
  case h_13 | h_14 | h_15 | h_16 =>
    split at h
    · cases h
      simp_all [Waiting]
    · cases h
  all_goals cases h
  -- a statement that does not requeue the job leaves it in another status
  all_goals rcases row with _ | job <;> simp_all [Waiting, Statement.run]

end Task

/-! ## Cancelling -/

/-- Where a cancel request is. -/
inductive Cancel
  | idle
  | cancelling (job : Job)
  | reading
  | finished
deriving DecidableEq

/-- A step of a cancel request; `ok` tells whether its SQL statement succeeded. -/
inductive CancelAction
  | get (ok : Bool)
  | cancel (ok : Bool)
deriving DecidableEq

namespace Cancel

/-- The statement that a step issues, when it succeeds in issuing one. -/
def issues : Cancel → CancelAction → Option Statement
  | cancelling _, .cancel true => some .cancel
  | _, _ => none

/-- The next step of a cancel request on a row. Only queued and processing jobs are cancelled, as
far as the request has read. -/
def next (row : Option Job) : Cancel → CancelAction → Option (Cancel × Option Job)
  | idle, .get true =>
    match row with
    | none => some (finished, row)
    | some job => if job.status.canCancel then some (cancelling job, row) else some (finished, row)
  | idle, .get false => some (finished, row)
  | cancelling _, .cancel true => some (reading, row.map (Statement.cancel.run ·))
  | cancelling _, .cancel false => some (finished, row)
  | reading, .get _ => some (finished, row)
  | _, _ => none

theorem next_row {row row' : Option Job} {p q : Cancel} {a : CancelAction}
    (h : p.next row a = some (q, row')) : row' = Statement.apply row (p.issues a) := by
  unfold next at h
  split at h
  case h_1 =>
    split at h
    · cases h; rfl
    · split at h <;> cases h <;> rfl
  all_goals cases h <;> rfl

/-- The status that the request has last read. -/
def seen : Cancel → Option JobStatus
  | cancelling job => some job.status
  | _ => none

/-- The request cancels a job that it has found queued or processing. -/
def Sound : Cancel → Prop
  | cancelling job => job.status.canCancel
  | _ => True

/-- A request only goes on with a job that can be cancelled. -/
theorem sound_of_next {row row' : Option Job} {p q : Cancel} {a : CancelAction}
    (h : p.next row a = some (q, row')) : q.Sound := by
  unfold next at h
  split at h
  case h_1 =>
    split at h
    · cases h; trivial
    -- the request goes on exactly when the job can be cancelled
    · split at h
      · cases h; assumption
      · cases h; trivial
  all_goals cases h <;> trivial

/-- A request that has found the job as it is issues its statement from a status of the guard. -/
theorem Sound.guard {p : Cancel} {a : CancelAction} {st : Statement} {b : JobStatus} (hp : p.Sound)
    (hst : p.issues a = some st) (hb : p.seen = some b) : st.Guard b := by
  unfold issues at hst
  split at hst <;> cases hst
  cases hb
  exact .inl hp

/-- A step of a request leaves the status or cancels the job. -/
theorem row_of_next {row row' : Option Job} {p q : Cancel} {a : CancelAction}
    (h : p.next row a = some (q, row')) :
    row' = row ∨ row' = row.map (Statement.cancel.run ·) := by
  rw [next_row h]
  unfold issues
  split
  · exact .inr rfl
  · exact .inl rfl

/-- A request only leaves a job queued that was queued before. -/
theorem queued_of_next {row row' : Option Job} {p q : Cancel} {a : CancelAction}
    (h : p.next row a = some (q, row')) (hrow' : row'.map (·.status) = some .queued) :
    row.map (·.status) = some .queued := by
  rcases row_of_next h with rfl | rfl
  · exact hrow'
  · rcases row with _ | job <;> cases hrow'

end Cancel

end Core.Jobs
