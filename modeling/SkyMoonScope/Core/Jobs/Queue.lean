import SkyMoonScope.Core.Jobs.Worker
import Mathlib.Logic.Function.Basic
import Mathlib.Data.List.Basic

/-!
# The job queue

The rows of the `jobs` table together with the two Redis lists of `scheduler.rs`, and everything
that moves a job between them: `submit`, the worker loop with the tasks it spawns, the retry tasks
on their dispatcher, `cancel` and `cleanup`. Each SQL statement and each Redis command is one step.
A Redis command may fail before or after the server has run it; the two differ in the step taken.

## Main definitions

* `JobQueue`: the rows, the lists and the tasks under way
* `JobQueue.Event`, `JobQueue.next`: a step of the system
* `JobQueue.Step`: what a step can do, case by case

## Main results

* `JobQueue.step_of_next`: every step is one of these cases
-/

namespace Core.Jobs

open TaskQueue (DispatchOutcome BoundedTaskDispatcher)

/-- The job queue. The lists are written from their left end. -/
structure JobQueue (Id : Type*) where
  rows : Id → Option Job
  /-- the jobs inserted by a `submit` that has not pushed them yet -/
  submitting : List Id
  /-- `sky-moon-scope:jobs:queue` -/
  queue : List Id
  /-- `sky-moon-scope:jobs:processing` -/
  processing : List Id
  /-- the tasks spawned by the workers, each with the id it has popped -/
  tasks : List (Id × Task)
  /-- the retry tasks that have not pushed their id yet -/
  retries : List Id
  retryDispatcher : BoundedTaskDispatcher
  cancels : List (Id × Cancel)

namespace JobQueue

/-- A step of the system. -/
inductive Event (Id : Type*)
  /-- the `INSERT` of a `submit` -/
  | insert (id : Id)
  /-- the `LPUSH` of a `submit`, which reaches the list or not -/
  | push (id : Id) (pushed : Bool)
  /-- the `BRPOPLPUSH` of a worker, whose reply is received or not -/
  | pop (replied : Bool)
  /-- a step of the `i`-th task -/
  | task (i : ℕ) (a : TaskAction)
  /-- the end of the `i`-th task, whose `LREM` reaches the list or not -/
  | leave (i : ℕ) (removed : Bool)
  /-- the `LPUSH` of the `k`-th retry task, which reaches the list or not -/
  | retryPush (k : ℕ) (pushed : Bool)
  /-- a retry task drops its permit -/
  | release
  | requestCancel (id : Id)
  /-- a step of the `i`-th cancel request -/
  | cancel (i : ℕ) (a : CancelAction)
  /-- the `DELETE` of `cleanup` -/
  | cleanup (expired : Id → Bool)

variable {Id : Type*} [DecidableEq Id]

/-- The queue before anything is submitted. -/
def new (retryQueueCapacity : ℕ) : JobQueue Id :=
  { rows := fun _ => none, submitting := [], queue := [], processing := [], tasks := []
    retries := [], retryDispatcher := .new retryQueueCapacity, cancels := [] }

variable (s : JobQueue Id)

/-- The status of a job. -/
def status (id : Id) : Option JobStatus :=
  (s.rows id).map (·.status)

/-- The `INSERT` of `submit`. Ids are primary keys. -/
def insertJob (id : Id) : Option (JobQueue Id) :=
  if s.rows id = none then
    some { s with
      rows := Function.update s.rows id (some .submitted), submitting := id :: s.submitting }
  else none

/-- The `LPUSH` of `submit`. Whether or not it succeeds, `submit` returns. -/
def pushJob (id : Id) (pushed : Bool) : Option (JobQueue Id) :=
  if id ∈ s.submitting then
    some { s with
      submitting := s.submitting.erase id, queue := if pushed then id :: s.queue else s.queue }
  else none

/-- The `BRPOPLPUSH` of a worker, and the task it spawns for the id it receives. -/
def popJob (replied : Bool) : Option (JobQueue Id) :=
  s.queue.getLast?.map fun id =>
    { s with
      queue := s.queue.dropLast, processing := id :: s.processing
      tasks := if replied then s.tasks ++ [(id, .idle)] else s.tasks }

/-- The dispatch at the end of `retry_job`. A dropped retry is only logged. -/
def dispatchRetry (id : Id) (outcome : DispatchOutcome) : Option (JobQueue Id) :=
  if s.retryDispatcher.dispatchLow.1 = outcome then
    some { s with
      retryDispatcher := s.retryDispatcher.dispatchLow.2
      retries := if outcome = .spawned then s.retries ++ [id] else s.retries }
  else none

/-- A step of a task. -/
def stepTask (maxJobRetries : ℤ) (i : ℕ) (a : TaskAction) : Option (JobQueue Id) :=
  s.tasks[i]?.bind fun (id, p) =>
    (p.next maxJobRetries (s.rows id) a).bind fun (q, row) =>
      let s := { s with rows := Function.update s.rows id row, tasks := s.tasks.set i (id, q) }
      match a with
      | .dispatched outcome => s.dispatchRetry id outcome
      | _ => some s

/-- The end of a task. A task that has crashed does not get to its `LREM`. -/
def leaveTask (i : ℕ) (removed : Bool) : Option (JobQueue Id) :=
  s.tasks[i]?.bind fun (id, p) =>
    if p = .finished ∨ p = .crashed ∧ removed = false then
      some { s with
        tasks := s.tasks.eraseIdx i
        processing := if removed then s.processing.erase id else s.processing }
    else none

/-- The end of a retry task. -/
def pushRetry (k : ℕ) (pushed : Bool) : Option (JobQueue Id) :=
  s.retries[k]?.map fun id =>
    { s with retries := s.retries.eraseIdx k, queue := if pushed then id :: s.queue else s.queue }

/-- A retry task that is done drops its permit. -/
def releasePermit : Option (JobQueue Id) :=
  if s.retries.length < s.retryDispatcher.inFlight then
    some { s with retryDispatcher := s.retryDispatcher.release }
  else none

/-- A step of a cancel request. -/
def stepCancel (i : ℕ) (a : CancelAction) : Option (JobQueue Id) :=
  s.cancels[i]?.bind fun (id, p) =>
    (p.next (s.rows id) a).map fun (q, row) =>
      { s with rows := Function.update s.rows id row, cancels := s.cancels.set i (id, q) }

/-- `cleanup` deletes rows whose status is terminal and whose retention has expired. -/
def cleanup (expired : Id → Bool) : JobQueue Id :=
  { s with rows := fun id => (s.rows id).filter fun job => !(job.status.isTerminal && expired id) }

/-- A step of the system. -/
def next (maxJobRetries : ℤ) (s : JobQueue Id) : Event Id → Option (JobQueue Id)
  | .insert id => s.insertJob id
  | .push id pushed => s.pushJob id pushed
  | .pop replied => s.popJob replied
  | .task i a => s.stepTask maxJobRetries i a
  | .leave i removed => s.leaveTask i removed
  | .retryPush k pushed => s.pushRetry k pushed
  | .release => s.releasePermit
  | .requestCancel id => some { s with cancels := s.cancels ++ [(id, .idle)] }
  | .cancel i a => s.stepCancel i a
  | .cleanup expired => some (s.cleanup expired)

/-! ## What a step can do -/

/-- The effect of a step, case by case. -/
inductive Step (maxJobRetries : ℤ) (s : JobQueue Id) : Event Id → JobQueue Id → Prop
  | insert {id : Id} (hid : s.rows id = none) :
      Step maxJobRetries s (.insert id)
        { s with
          rows := Function.update s.rows id (some .submitted), submitting := id :: s.submitting }
  | push {id : Id} {pushed : Bool} (hid : id ∈ s.submitting) :
      Step maxJobRetries s (.push id pushed)
        { s with
          submitting := s.submitting.erase id
          queue := if pushed then id :: s.queue else s.queue }
  | pop {id : Id} {rest : List Id} {replied : Bool} (hqueue : s.queue = rest ++ [id]) :
      Step maxJobRetries s (.pop replied)
        { s with
          queue := rest, processing := id :: s.processing
          tasks := if replied then s.tasks ++ [(id, .idle)] else s.tasks }
  | task {i : ℕ} {a : TaskAction} {id : Id} {p q : Task} {row : Option Job}
      (hp : s.tasks[i]? = some (id, p)) (hq : p.next maxJobRetries (s.rows id) a = some (q, row))
      (ha : ∀ outcome, a ≠ .dispatched outcome) :
      Step maxJobRetries s (.task i a)
        { s with rows := Function.update s.rows id row, tasks := s.tasks.set i (id, q) }
  | dispatch {i : ℕ} {id : Id} {p q : Task} {row : Option Job} {outcome : DispatchOutcome}
      (hp : s.tasks[i]? = some (id, p))
      (hq : p.next maxJobRetries (s.rows id) (.dispatched outcome) = some (q, row))
      (houtcome : s.retryDispatcher.dispatchLow.1 = outcome) :
      Step maxJobRetries s (.task i (.dispatched outcome))
        { s with
          rows := Function.update s.rows id row, tasks := s.tasks.set i (id, q)
          retryDispatcher := s.retryDispatcher.dispatchLow.2
          retries := if outcome = .spawned then s.retries ++ [id] else s.retries }
  | leave {i : ℕ} {removed : Bool} {id : Id} {p : Task} (hp : s.tasks[i]? = some (id, p))
      (hdone : p = .finished ∨ p = .crashed ∧ removed = false) :
      Step maxJobRetries s (.leave i removed)
        { s with
          tasks := s.tasks.eraseIdx i
          processing := if removed then s.processing.erase id else s.processing }
  | retryPush {k : ℕ} {pushed : Bool} {id : Id} (hid : s.retries[k]? = some id) :
      Step maxJobRetries s (.retryPush k pushed)
        { s with
          retries := s.retries.eraseIdx k, queue := if pushed then id :: s.queue else s.queue }
  | release :
      Step maxJobRetries s .release { s with retryDispatcher := s.retryDispatcher.release }
  | requestCancel {id : Id} :
      Step maxJobRetries s (.requestCancel id) { s with cancels := s.cancels ++ [(id, .idle)] }
  | cancel {i : ℕ} {a : CancelAction} {id : Id} {p q : Cancel} {row : Option Job}
      (hp : s.cancels[i]? = some (id, p)) (hq : p.next (s.rows id) a = some (q, row)) :
      Step maxJobRetries s (.cancel i a)
        { s with rows := Function.update s.rows id row, cancels := s.cancels.set i (id, q) }
  | cleanup {expired : Id → Bool} : Step maxJobRetries s (.cleanup expired) (s.cleanup expired)

variable {s} {t : JobQueue Id} {maxJobRetries : ℤ} {e : Event Id}

/-- **The cases of a step.** -/
theorem step_of_next (h : s.next maxJobRetries e = some t) : Step maxJobRetries s e t := by
  cases e with
  | insert id =>
    obtain ⟨hid, rfl⟩ : s.rows id = none ∧ _ = t := by simpa [next, insertJob] using h
    exact .insert hid
  | push id pushed =>
    obtain ⟨hid, rfl⟩ : id ∈ s.submitting ∧ _ = t := by simpa [next, pushJob] using h
    exact .push hid
  | pop replied =>
    obtain ⟨id, hid, rfl⟩ := Option.map_eq_some_iff.mp h
    obtain ⟨rest, hrest⟩ := List.getLast?_eq_some_iff.mp hid
    have hdrop : s.queue.dropLast = rest := by rw [hrest, List.dropLast_concat]
    rw [hdrop]
    exact .pop hrest
  | task i a =>
    rw [next, stepTask, Option.bind_eq_some_iff] at h
    obtain ⟨⟨id, p⟩, hp, h⟩ := h
    rw [Option.bind_eq_some_iff] at h
    obtain ⟨⟨q, row⟩, hq, h⟩ := h
    dsimp only at h
    split at h
    -- the dispatch of a retry also moves the dispatcher
    case h_1 outcome =>
      obtain ⟨houtcome, rfl⟩ : s.retryDispatcher.dispatchLow.1 = outcome ∧ _ = t := by
        simpa [dispatchRetry] using h
      exact .dispatch hp hq houtcome
    case h_2 ha =>
      cases h
      exact .task hp hq ha
  | leave i removed =>
    rw [next, leaveTask, Option.bind_eq_some_iff] at h
    obtain ⟨⟨id, p⟩, hp, h⟩ := h
    dsimp only at h
    split at h
    case isTrue hdone =>
      cases h
      exact .leave hp hdone
    case isFalse => cases h
  | retryPush k pushed =>
    obtain ⟨id, hid, rfl⟩ := Option.map_eq_some_iff.mp h
    exact .retryPush hid
  | release =>
    obtain ⟨-, rfl⟩ : s.retries.length < s.retryDispatcher.inFlight ∧ _ = t := by
      simpa [next, releasePermit] using h
    exact .release
  | requestCancel id =>
    cases h
    exact .requestCancel
  | cancel i a =>
    obtain ⟨⟨id, p⟩, hp, h⟩ := Option.bind_eq_some_iff.mp h
    obtain ⟨⟨q, row⟩, hq, rfl⟩ := Option.map_eq_some_iff.mp h
    exact .cancel hp hq
  | cleanup expired =>
    cases h
    exact .cleanup

end JobQueue

end Core.Jobs
