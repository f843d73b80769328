import SkyMoonScope.Core.Jobs.Queue
import SkyMoonScope.Lib.Machine
import SkyMoonScope.Lib.Pool

/-!
# How often a job is executed

The id of a job is a token. A submit makes one copy of it, a pop hands the copy to a task, and
`retry_job` counts the retry in the row before a retry task puts the copy back into the queue. So
at most one task works on a job at a time, the retry count it has read is the one in the row, and
every execution but the first is paid for by a retry.

## Main definitions

* `Audit`, `Audit.next`: the job queue with the ids submitted so far and a log of the executions
* `Audit.Fresh`: the id of a new job has not been given out before
* `JobQueue.copies`: the copies of an id that can still lead to an execution
* `Task.Counted`, `Audit.Counted`: executions against the retry count, for a task and for an id

## Main results

* `Task.Counted.next`: a step of a task keeps its count
* `Audit.Counted.step`: a step keeps the count of every id
* `Audit.execution_bound`: over a run, an id is executed at most once more than it may be retried
-/

namespace Core.Jobs

open Machine Pool
open TaskQueue (DispatchOutcome)

/-! ## The count of a task -/

/-- Every row that is left has the retry count of the row that was there. -/
def Keeps (row row' : Option Job) : Prop :=
  ∀ job' ∈ row', ∃ job ∈ row, job.retryCount = job'.retryCount

theorem Keeps.refl (row : Option Job) : Keeps row row :=
  fun job' hjob' => ⟨job', hjob', rfl⟩

/-- A statement that does not requeue the job keeps its retry count. -/
theorem keeps_map (row : Option Job) {st : Statement} (hst : ∀ count, st ≠ .requeue count) :
    Keeps row (row.map (st.run ·)) := by
  intro job' hjob'
  obtain ⟨job, hjob, rfl⟩ := Option.map_eq_some_iff.mp hjob'
  refine ⟨job, hjob, ?_⟩
  cases st with
  | requeue count => exact absurd rfl (hst count)
  | _ => rfl

/-- A cancel request keeps the retry count. -/
theorem Cancel.keeps_of_next {row row' : Option Job} {p q : Cancel} {a : CancelAction}
    (h : p.next row a = some (q, row')) : Keeps row row' := by
  rcases Cancel.row_of_next h with rfl | rfl
  · exact .refl _
  · exact keeps_map row (by simp)

namespace Task

/-- The task holds the copy of its id: it has not ended. -/
def live : Task → Bool
  | finished | crashed => false
  | _ => true

/-- The number of executions that a step of a task starts. -/
def executions : TaskAction → ℕ
  | .markProcessing true => 1
  | _ => 0

/-- The count of a task, when at most `n` retries are allowed, its job has been executed `executed`
times and its row is `row`: before the execution it is at most the retry count, and from then on
at most one more. The retry count that the task has read is the one in the row. -/
def Counted (n : ℤ) (row : Option Job) (executed : ℕ) : Task → Prop
  | idle => ∀ job ∈ row, executed ≤ job.retryCount
  | loaded job => executed ≤ job.retryCount ∧ job.retryCount ≤ n ∧
      ∀ current ∈ row, current.retryCount = job.retryCount
  | executing job | completing job | failing job | retrying job =>
      executed ≤ job.retryCount + 1 ∧ job.retryCount ≤ n ∧
        ∀ current ∈ row, current.retryCount = job.retryCount
  | dispatching job => executed ≤ job.retryCount + 1 ∧ job.retryCount < n ∧
      ∀ current ∈ row, current.retryCount = job.retryCount + 1
  | finished | crashed => True

variable {n maxJobRetries : ℤ} {row row' : Option Job} {executed : ℕ} {p q : Task} {a : TaskAction}

/-- Only a task that has not ended makes a step. -/
theorem live_of_next (h : p.next maxJobRetries row a = some (q, row')) : p.live = true := by
  cases p with
  | finished | crashed => cases h
  | _ => rfl

/-- Nothing is counted for a task that has ended. -/
theorem counted_of_not_live (hp : p.live = false) : p.Counted n row executed := by
  cases p with
  | finished | crashed => trivial
  | _ => cases hp

/-- A task stays counted when the row keeps its retry count. -/
theorem Counted.keeps (hp : p.Counted n row executed) (hrow : Keeps row row') :
    p.Counted n row' executed := by
  -- a property of the retry count of the row carries over
  have hall : ∀ {P : ℤ → Prop}, (∀ job ∈ row, P job.retryCount) →
      ∀ job ∈ row', P job.retryCount := by
    intro P hP job' hjob'
    obtain ⟨job, hjob, hcount⟩ := hrow job' hjob'
    exact hcount ▸ hP job hjob
  cases p with
  | finished | crashed => trivial
  | idle => exact hall (P := fun count => (executed : ℤ) ≤ count) hp
  | dispatching job =>
    exact ⟨hp.1, hp.2.1, hall (P := fun count => count = job.retryCount + 1) hp.2.2⟩
  | loaded job | executing job | completing job | failing job | retrying job =>
    exact ⟨hp.1, hp.2.1, hall (P := fun count => count = job.retryCount) hp.2.2⟩

/-- A step either keeps the retry count of the row, or is the `UPDATE` of `retry_job`. -/
theorem keeps_of_next (h : p.next maxJobRetries row a = some (q, row')) :
    Keeps row row' ∨ ∃ job, p = .retrying job ∧ q = .dispatching job ∧ executions a = 0 ∧
      job.retryCount < maxJobRetries ∧
      row' = row.map ((Statement.requeue (job.retryCount + 1)).run ·) := by
  unfold next at h
  split at h
  case h_1 => split at h <;> cases h <;> exact .inl (.refl _)
  -- the step that requeues the job
  case h_15 job =>
    split at h
    case isTrue hlt =>
      cases h
      exact .inr ⟨job, rfl, rfl, rfl, hlt, rfl⟩
    case isFalse => cases h
  case h_13 | h_14 | h_16 =>
    split at h
    · cases h
      exact .inl (.refl _)
    · cases h
  all_goals cases h <;> first | exact .inl (.refl _) | exact .inl (keeps_map row (by simp))

/-- **A step of a task keeps its count.** The execution that the step may start is counted. -/
theorem Counted.next (hmax : maxJobRetries ≤ n) (hp : p.Counted n row executed)
    (hrow : ∀ job ∈ row, job.retryCount ≤ n) (h : p.next maxJobRetries row a = some (q, row')) :
    q.Counted n row' (executed + executions a) := by
  rcases keeps_of_next h with hkeeps | ⟨job, rfl, rfl, ha, hlt, rfl⟩
  · -- the row keeps its count, and the task goes on with the job it has read
    refine Counted.keeps ?_ hkeeps
    unfold Task.next at h
    split at h
    -- the read of the row
    case h_1 =>
      split at h
      · cases h
        trivial
      · cases h
        refine ⟨by simpa [executions] using hp _ rfl, hrow _ rfl, ?_⟩
        rintro current ⟨⟩
        rfl
    -- the execution starts
    case h_3 job =>
      cases h
      obtain ⟨hexecuted, hn, hcurrent⟩ := hp
      refine ⟨?_, hn, hcurrent⟩
      push_cast [executions]
      omega
    case h_13 | h_14 | h_16 =>
      split at h
      · cases h
        trivial
      · cases h
    case h_15 =>
      split at h
      · cases h
        -- the row has another retry count already, unless it is missing
        refine ⟨hp.1, by omega, ?_⟩
        intro current hcurrent
        obtain ⟨job', hjob', hcount⟩ := hkeeps _ (Option.map_eq_some_iff.mpr ⟨_, hcurrent, rfl⟩)
        have hne := hp.2.2 job' hjob'
        simp only [Statement.run] at hcount
        omega
      · cases h
    all_goals cases h <;> first | exact hp | trivial
  · -- the retry is counted in the row
    refine ⟨by simpa [ha] using hp.1, by omega, ?_⟩
    rintro current hcurrent
    obtain ⟨job', -, rfl⟩ := Option.map_eq_some_iff.mp hcurrent
    rfl

/-- An execution is only started while the retry count allows for it. -/
theorem Counted.executions_le (hp : p.Counted n row executed) (hexecuted : (executed : ℤ) ≤ n + 1)
    (h : p.next maxJobRetries row a = some (q, row')) :
    ((executed + executions a : ℕ) : ℤ) ≤ n + 1 := by
  by_cases ha : a = .markProcessing true
  · subst ha
    cases p with
    | loaded job =>
      have hjob := hp.1
      have hn := hp.2.1
      push_cast [executions]
      omega
    | _ => cases h
  · have hzero : executions a = 0 := by
      unfold executions
      split
      · exact absurd rfl ha
      · rfl
    rw [hzero]
    exact hexecuted

/-- The row stays within the number of retries that are allowed. -/
theorem row_le_of_next (hmax : maxJobRetries ≤ n) (hrow : ∀ job ∈ row, job.retryCount ≤ n)
    (h : p.next maxJobRetries row a = some (q, row')) : ∀ job ∈ row', job.retryCount ≤ n := by
  intro job' hjob'
  rcases keeps_of_next h with hkeeps | ⟨job, -, -, -, hlt, rfl⟩
  · obtain ⟨job, hjob, hcount⟩ := hkeeps job' hjob'
    exact hcount ▸ hrow job hjob
  · obtain ⟨current, -, rfl⟩ := Option.map_eq_some_iff.mp hjob'
    show job.retryCount + 1 ≤ n
    omega

/-- A task that hands its job on has counted the retry, and is done. -/
theorem Counted.dispatched {outcome : DispatchOutcome} (hp : p.Counted n row executed)
    (h : p.next maxJobRetries row (.dispatched outcome) = some (q, row')) :
    q = .finished ∧ ∀ job ∈ row', executed ≤ job.retryCount := by
  cases p with
  | dispatching job =>
    cases h
    refine ⟨rfl, fun current hcurrent => ?_⟩
    rw [hp.2.2 current hcurrent]
    exact hp.1
  | _ => cases h

end Task

/-! ## The count of an id -/

variable {Id : Type*} [DecidableEq Id]

namespace JobQueue

/-- The task of the pool holds the copy of the id. -/
def holds (id : Id) (x : Id × Task) : Bool :=
  x.1 = id && x.2.live

/-- The copies of an id that can still lead to an execution. -/
def copies (s : JobQueue Id) (id : Id) : ℕ :=
  s.submitting.count id + s.queue.count id + s.tasks.countP (holds id) + s.retries.count id

theorem copies_pos_of_live {s : JobQueue Id} {id : Id} {p : Task} (hp : (id, p) ∈ s.tasks)
    (hlive : p.live = true) : 0 < s.copies id := by
  have hpos : 0 < s.tasks.countP (holds id) :=
    List.countP_pos_iff.mpr ⟨_, hp, by simp [holds, hlive]⟩
  simp only [copies]
  omega

/-- The ids that a step gives to a new job. -/
def submits : Event Id → List Id
  | .insert id => [id]
  | _ => []

/-- The id whose job a step starts to execute: `process_job` has marked the job and reaches
`execute_job`. -/
def executes (s : JobQueue Id) : Event Id → List Id
  | .task i (.markProcessing true) => (s.tasks[i]?.map Prod.fst).toList
  | _ => []

/-- The executions that a step of a task starts, of an id. -/
theorem count_executes {s : JobQueue Id} {i : ℕ} {k : Id} {p : Task}
    (hp : s.tasks[i]? = some (k, p)) (action : TaskAction) (id : Id) :
    (s.executes (.task i action)).count id = if k = id then Task.executions action else 0 := by
  cases action with
  | markProcessing ok =>
    cases ok with
    | true => simp [executes, Task.executions, hp, List.count_singleton]
    | false => simp [executes, Task.executions]
  | _ => simp [executes, Task.executions]

end JobQueue

/-- A job queue with its history. -/
structure Audit (Id : Type*) where
  queue : JobQueue Id
  /-- the ids submitted so far -/
  submitted : List Id
  /-- the id of every execution so far -/
  executed : List Id

namespace Audit

open JobQueue

/-- A job queue without a history. -/
def new (retryQueueCapacity : ℕ) : Audit Id :=
  { queue := .new retryQueueCapacity, submitted := [], executed := [] }

/-- A step of the job queue, entered into the history. -/
def next (maxJobRetries : ℤ) (a : Audit Id) (e : Event Id) : Option (Audit Id) :=
  (a.queue.next maxJobRetries e).map fun s =>
    { queue := s, submitted := submits e ++ a.submitted
      executed := a.queue.executes e ++ a.executed }

/-- The id of a new job is one that `JobId::new` has not given out before. -/
def Fresh (a : Audit Id) (e : Event Id) : Prop :=
  ∀ id ∈ submits e, id ∉ a.submitted

/-- The count of an id, when at most `n` retries are allowed. There is one copy of the id at most.
While it waits, its executions are at most the retry count of its row. -/
structure Counted (n : ℤ) (id : Id) (a : Audit Id) : Prop where
  copies_le : a.queue.copies id ≤ 1
  unknown : id ∉ a.submitted →
    a.queue.copies id = 0 ∧ a.queue.rows id = none ∧ a.executed.count id = 0
  executed_le : (a.executed.count id : ℤ) ≤ n + 1
  row_le : ∀ job ∈ a.queue.rows id, job.retryCount ≤ n
  waiting : id ∈ a.queue.submitting ∨ id ∈ a.queue.queue ∨ id ∈ a.queue.retries →
    ∀ job ∈ a.queue.rows id, a.executed.count id ≤ job.retryCount
  tasks : ∀ p, (id, p) ∈ a.queue.tasks → p.Counted n (a.queue.rows id) (a.executed.count id)

variable {n maxJobRetries : ℤ} {id : Id} {a b : Audit Id} {e : Event Id} {es : List (Event Id)}

theorem counted_new (hn : 0 ≤ n) (retryQueueCapacity : ℕ) :
    (new retryQueueCapacity : Audit Id).Counted n id where
  copies_le := by simp [new, JobQueue.new, copies]
  unknown := fun _ => by simp [new, JobQueue.new, copies]
  executed_le := by
    simp only [new, List.count_nil, Nat.cast_zero]
    omega
  row_le := fun _ h => by cases h
  waiting := fun _ _ h => by cases h
  tasks := fun _ h => by cases h

/-- What a step leaves alone stays counted: no copy of the id is made, the row keeps its retry
count, and whatever holds the id has held it before. -/
theorem Counted.frame (h : a.Counted n id) (hsubmitted : id ∈ a.submitted → id ∈ b.submitted)
    (hexecuted : b.executed.count id = a.executed.count id)
    (hcopies : b.queue.copies id ≤ a.queue.copies id)
    (hrow : Keeps (a.queue.rows id) (b.queue.rows id))
    (hwaiting : id ∈ b.queue.submitting ∨ id ∈ b.queue.queue ∨ id ∈ b.queue.retries →
      id ∈ a.queue.submitting ∨ id ∈ a.queue.queue ∨ id ∈ a.queue.retries)
    (htasks : ∀ p, (id, p) ∈ b.queue.tasks →
      p.Counted n (a.queue.rows id) (a.executed.count id)) : b.Counted n id where
  copies_le := hcopies.trans h.copies_le
  unknown := by
    intro hid
    obtain ⟨hzero, hnone, hexec⟩ := h.unknown fun hmem => hid (hsubmitted hmem)
    refine ⟨by omega, ?_, hexecuted.trans hexec⟩
    rcases hb : b.queue.rows id with _ | job'
    · rfl
    · obtain ⟨job, hjob, -⟩ := hrow job' hb
      simp [hnone] at hjob
  executed_le := hexecuted ▸ h.executed_le
  row_le := by
    intro job' hjob'
    obtain ⟨job, hjob, hcount⟩ := hrow job' hjob'
    exact hcount ▸ h.row_le job hjob
  waiting := by
    intro hid job' hjob'
    obtain ⟨job, hjob, hcount⟩ := hrow job' hjob'
    rw [hexecuted, ← hcount]
    exact h.waiting (hwaiting hid) job hjob
  tasks := fun p hp => hexecuted ▸ (htasks p hp).keeps hrow

/-- A task that steps holds the only copy of its id: no place holds another, and the other tasks on
the id have ended. -/
theorem Counted.of_live {i : ℕ} {p : Task} (h : a.Counted n id)
    (hp : a.queue.tasks[i]? = some (id, p)) (hlive : p.live = true) :
    id ∉ a.queue.submitting ∧ id ∉ a.queue.queue ∧ id ∉ a.queue.retries ∧
      ∀ p', (id, p') ∈ a.queue.tasks.eraseIdx i → p'.live = false := by
  have hholds : holds id (id, p) = true := by simp [holds, hlive]
  have hone := h.copies_le
  have hcount := countP_eraseIdx_add (P := holds id) hp
  rw [if_pos hholds] at hcount
  simp only [copies] at hone
  refine ⟨?_, ?_, ?_, ?_⟩
  · apply List.count_eq_zero.mp
    omega
  · apply List.count_eq_zero.mp
    omega
  · apply List.count_eq_zero.mp
    omega
  · intro p' hp'
    have hnot := not_of_countP_le_one (by omega) hp hholds hp'
    simpa [holds] using hnot

/-- The copies of an id when a task steps. -/
theorem countP_holds_set {tasks : List (Id × Task)} {i : ℕ} {k : Id} {p q : Task}
    (hp : tasks[i]? = some (k, p)) (hlive : p.live = true) (id : Id) :
    (tasks.set i (k, q)).countP (holds id) + (if k = id then 1 else 0) =
      tasks.countP (holds id) + (if k = id ∧ q.live then 1 else 0) := by
  have hset := countP_set_add (P := holds id) hp (k, q)
  simpa [holds, hlive] using hset

/-- A step of a task keeps its own id counted. The retry task that the step may spawn takes over
the copy from the task. -/
theorem Counted.task_self {i : ℕ} {p q : Task} {row : Option Job} {action : TaskAction}
    {retries : List Id} (h : a.Counted n id) (hmax : maxJobRetries ≤ n)
    (hp : a.queue.tasks[i]? = some (id, p))
    (hq : p.next maxJobRetries (a.queue.rows id) action = some (q, row))
    (hretries : retries = a.queue.retries ∨
      retries = a.queue.retries ++ [id] ∧ ∃ outcome, action = .dispatched outcome)
    (hb : b.queue = { a.queue with
      rows := Function.update a.queue.rows id row, tasks := a.queue.tasks.set i (id, q)
      retries := retries, retryDispatcher := b.queue.retryDispatcher })
    (hsubmitted : b.submitted = a.submitted)
    (hexecuted : b.executed.count id = a.executed.count id + Task.executions action) :
    b.Counted n id := by
  have hlive : p.live = true := Task.live_of_next hq
  obtain ⟨hsubmitting, hqueue, hnone, hothers⟩ := h.of_live hp hlive
  have hcounted : p.Counted n (a.queue.rows id) (a.executed.count id) :=
    h.tasks p (List.mem_of_getElem? hp)
  have hrows : b.queue.rows id = row := by rw [hb]; exact Function.update_self ..
  -- a retry task only takes over when the task is done
  have hdispatched : id ∈ retries →
      q = .finished ∧ ∀ job ∈ row, b.executed.count id ≤ job.retryCount := by
    intro hid
    rcases hretries with rfl | ⟨-, outcome, rfl⟩
    · exact absurd hid hnone
    · rw [hexecuted]
      exact hcounted.dispatched hq
  constructor
  · have hset := countP_holds_set (q := q) hp hlive id
    have hone := h.copies_le
    rw [hb]
    simp only [copies, List.count_eq_zero.mpr hsubmitting, List.count_eq_zero.mpr hqueue]
    simp only [copies] at hone
    simp only [true_and, if_true] at hset
    rcases hretries with rfl | ⟨rfl, outcome, rfl⟩
    · rw [List.count_eq_zero.mpr hnone]
      split at hset <;> omega
    · obtain ⟨rfl, -⟩ := hdispatched (by simp)
      simp only [Task.live, Bool.false_eq_true, if_false] at hset
      simp only [List.count_append, List.count_singleton_self, List.count_eq_zero.mpr hnone]
      omega
  · intro hid
    -- an id with a live task has been submitted
    have hpos := copies_pos_of_live (List.mem_of_getElem? hp) hlive
    obtain ⟨hzero, -⟩ := h.unknown (hsubmitted ▸ hid)
    omega
  · rw [hexecuted]
    exact hcounted.executions_le h.executed_le hq
  · rw [hrows]
    exact Task.row_le_of_next hmax h.row_le hq
  · rw [hrows]
    intro hid
    have hid' : id ∈ retries := by
      rw [hb] at hid
      rcases hid with hid | hid | hid
      · exact absurd hid hsubmitting
      · exact absurd hid hqueue
      · exact hid
    exact (hdispatched hid').2
  · intro p' hp'
    rw [hb] at hp'
    rw [hrows, hexecuted]
    rcases (mem_set_iff hp _ _).mp hp' with heq | hother
    · obtain ⟨-, rfl⟩ := Prod.mk.inj heq
      exact hcounted.next hmax h.row_le hq
    · exact Task.counted_of_not_live (hothers p' hother)

/-- A step of a task on another id changes nothing of the id. -/
theorem Counted.task_of_ne {i : ℕ} {k : Id} {p q : Task} {row : Option Job} {retries : List Id}
    (h : a.Counted n id) (hne : k ≠ id) (hp : a.queue.tasks[i]? = some (k, p))
    (hlive : p.live = true)
    (hretries : retries = a.queue.retries ∨ retries = a.queue.retries ++ [k])
    (hb : b.queue = { a.queue with
      rows := Function.update a.queue.rows k row, tasks := a.queue.tasks.set i (k, q)
      retries := retries, retryDispatcher := b.queue.retryDispatcher })
    (hsubmitted : b.submitted = a.submitted)
    (hexecuted : b.executed.count id = a.executed.count id) : b.Counted n id := by
  have hset := countP_holds_set (q := q) hp hlive id
  have hcount : retries.count id = a.queue.retries.count id := by
    rcases hretries with rfl | rfl
    · rfl
    · simp [hne]
  have hmem : id ∈ retries → id ∈ a.queue.retries := by
    intro hmem
    rw [← List.count_pos_iff] at hmem ⊢
    omega
  refine h.frame (by rw [hsubmitted]; exact fun h => h) hexecuted ?_ ?_ ?_ ?_
  · rw [hb]
    simp only [copies]
    simp only [hne, false_and, if_false, add_zero] at hset
    omega
  · rw [hb]
    simp only [Function.update_of_ne hne.symm]
    exact .refl _
  · rw [hb]
    rintro (hid | hid | hid)
    · exact .inl hid
    · exact .inr (.inl hid)
    · exact .inr (.inr (hmem hid))
  · intro p' hp'
    rw [hb] at hp'
    refine h.tasks p' ?_
    exact (List.mem_or_eq_of_mem_set hp').resolve_right fun heq => hne (Prod.mk.inj heq).1.symm

/-- **A step of a task keeps every id counted.** -/
theorem Counted.task {i : ℕ} {k : Id} {p q : Task} {row : Option Job} {action : TaskAction}
    {retries : List Id} (h : a.Counted n id) (hmax : maxJobRetries ≤ n)
    (hp : a.queue.tasks[i]? = some (k, p))
    (hq : p.next maxJobRetries (a.queue.rows k) action = some (q, row))
    (hretries : retries = a.queue.retries ∨
      retries = a.queue.retries ++ [k] ∧ ∃ outcome, action = .dispatched outcome)
    (hb : b.queue = { a.queue with
      rows := Function.update a.queue.rows k row, tasks := a.queue.tasks.set i (k, q)
      retries := retries, retryDispatcher := b.queue.retryDispatcher })
    (hsubmitted : b.submitted = a.submitted)
    (hexecuted : b.executed.count id =
      a.executed.count id + if k = id then Task.executions action else 0) :
    b.Counted n id := by
  rcases eq_or_ne k id with rfl | hne
  · rw [if_pos rfl] at hexecuted
    exact h.task_self hmax hp hq hretries hb hsubmitted hexecuted
  · rw [if_neg hne, add_zero] at hexecuted
    exact h.task_of_ne hne hp (Task.live_of_next hq) (hretries.imp_right And.left) hb hsubmitted
      hexecuted

/-- The row of a new job counts from zero. -/
theorem Counted.insert {k : Id} (h : a.Counted n id) (hn : 0 ≤ n) (hk : k ∉ a.submitted) :
    Counted n id
      { queue := { a.queue with
          rows := Function.update a.queue.rows k (some .submitted)
          submitting := k :: a.queue.submitting }
        submitted := k :: a.submitted, executed := a.executed } := by
  rcases eq_or_ne k id with rfl | hne
  · obtain ⟨hzero, -, hexec⟩ := h.unknown hk
    refine ⟨?_, fun hk' => absurd List.mem_cons_self hk', h.executed_le, ?_, ?_, ?_⟩
    · simp only [copies] at hzero ⊢
      rw [List.count_cons_self]
      omega
    · simp only [Function.update_self]
      rintro job ⟨⟩
      exact hn
    · simp only [Function.update_self]
      rintro - job ⟨⟩
      simp [hexec, Job.submitted]
    · intro p hp
      refine Task.counted_of_not_live (Bool.eq_false_of_not_eq_true fun hlive => ?_)
      have hpos := copies_pos_of_live (s := a.queue) hp hlive
      omega
  · refine h.frame (List.mem_cons_of_mem _) rfl ?_ ?_ ?_ h.tasks
    · simp [copies, hne]
    · simp only [Function.update_of_ne hne.symm]
      exact .refl _
    · intro hid
      simpa [hne.symm] using hid

/-- The copy of a submit moves to the queue, or is lost. -/
theorem Counted.push {k : Id} (h : a.Counted n id) (hk : k ∈ a.queue.submitting)
    (pushed : Bool) :
    Counted n id
      { queue := { a.queue with
          submitting := a.queue.submitting.erase k
          queue := if pushed then k :: a.queue.queue else a.queue.queue }
        submitted := a.submitted, executed := a.executed } := by
  have hcount := List.count_pos_iff.mpr hk
  refine h.frame (fun h => h) rfl ?_ (.refl _) ?_ h.tasks
  · cases pushed <;> simp only [copies, List.count_erase, List.count_cons, beq_iff_eq,
      Bool.false_eq_true, if_false, if_true]
    · omega
    · split
      · subst k
        omega
      · omega
  · rintro (hid | hid | hid)
    · exact .inl (List.mem_of_mem_erase hid)
    · cases pushed with
      | false => exact .inr (.inl hid)
      | true =>
        rcases List.mem_cons.mp hid with rfl | hid
        · exact .inl hk
        · exact .inr (.inl hid)
    · exact .inr (.inr hid)

/-- The copy in the queue moves to a new task, or is lost with the reply. -/
theorem Counted.pop {k : Id} {rest : List Id} (h : a.Counted n id)
    (hqueue : a.queue.queue = rest ++ [k]) (replied : Bool) :
    Counted n id
      { queue := { a.queue with
          queue := rest, processing := k :: a.queue.processing
          tasks := if replied then a.queue.tasks ++ [(k, .idle)] else a.queue.tasks }
        submitted := a.submitted, executed := a.executed } := by
  have hmem : k ∈ a.queue.queue := by simp [hqueue]
  refine h.frame (fun h => h) rfl ?_ (.refl _) ?_ ?_
  · simp only [copies, hqueue, List.count_append, List.count_singleton, beq_iff_eq]
    cases replied with
    | false =>
      simp only [Bool.false_eq_true, if_false]
      omega
    | true =>
      simp only [if_true, List.countP_append, List.countP_singleton, holds, Task.live,
        Bool.and_true, decide_eq_true_eq]
      omega
  · rintro (hid | hid | hid)
    · exact .inl hid
    · exact .inr (.inl (by simp [hqueue, hid]))
    · exact .inr (.inr hid)
  · intro p hp
    cases replied with
    | false => exact h.tasks p hp
    | true =>
      rcases List.mem_append.mp hp with hp | hp
      · exact h.tasks p hp
      · obtain ⟨rfl, rfl⟩ := Prod.mk.inj (List.mem_singleton.mp hp)
        exact h.waiting (.inr (.inl hmem))

/-- The copy of a retry task moves to the queue, or is lost. -/
theorem Counted.retryPush {i : ℕ} {k : Id} (h : a.Counted n id)
    (hk : a.queue.retries[i]? = some k) (pushed : Bool) :
    Counted n id
      { queue := { a.queue with
          retries := a.queue.retries.eraseIdx i
          queue := if pushed then k :: a.queue.queue else a.queue.queue }
        submitted := a.submitted, executed := a.executed } := by
  have hmem := List.mem_of_getElem? hk
  have hcount := countP_eraseIdx_add (P := (· == id)) hk
  refine h.frame (fun h => h) rfl ?_ (.refl _) ?_ h.tasks
  · simp only [copies]
    simp only [← List.count_eq_countP, beq_iff_eq] at hcount
    cases pushed with
    | false =>
      simp only [Bool.false_eq_true, if_false]
      omega
    | true =>
      simp only [if_true, List.count_cons, beq_iff_eq]
      omega
  · rintro (hid | hid | hid)
    · exact .inl hid
    · cases pushed with
      | false => exact .inr (.inl hid)
      | true =>
        rcases List.mem_cons.mp hid with rfl | hid
        · exact .inr (.inr hmem)
        · exact .inr (.inl hid)
    · exact .inr (.inr (List.mem_of_mem_eraseIdx hid))

/-- **A step keeps every id counted**, as long as new jobs get new ids. -/
theorem Counted.step (h : a.Counted n id) (hmax : maxJobRetries ≤ n) (hn : 0 ≤ n)
    (hnext : a.next maxJobRetries e = some b) (hfresh : a.Fresh e) : b.Counted n id := by
  obtain ⟨t, ht, rfl⟩ := Option.map_eq_some_iff.mp hnext
  cases step_of_next ht with
  | @insert k hk => exact h.insert hn (hfresh k (List.mem_singleton_self k))
  | @push k pushed hk => exact h.push hk pushed
  | @pop k rest replied hqueue => exact h.pop hqueue replied
  | @retryPush i pushed k hk => exact h.retryPush hk pushed
  | @task i action k p q row hp hq ha =>
    refine h.task hmax hp hq (.inl rfl) rfl rfl ?_
    rw [List.count_append, count_executes hp, Nat.add_comm]
  | @dispatch i k p q row outcome hp hq houtcome =>
    refine h.task hmax hp hq ?_ rfl rfl (by rw [List.count_append, count_executes hp, Nat.add_comm])
    -- a dropped dispatch leaves no retry task
    cases outcome with
    | spawned => exact .inr ⟨rfl, _, rfl⟩
    | dropped => exact .inl rfl
  | @leave i removed k p hp hdone =>
    refine h.frame (fun h => h) rfl ?_ (.refl _) (fun h => h) ?_
    · have hcount := countP_eraseIdx_add (P := holds id) hp
      simp only [copies]
      omega
    · exact fun p' hp' => h.tasks p' (List.mem_of_mem_eraseIdx hp')
  | release => exact h.frame (fun h => h) rfl le_rfl (.refl _) (fun h => h) h.tasks
  | requestCancel => exact h.frame (fun h => h) rfl le_rfl (.refl _) (fun h => h) h.tasks
  | @cancel i action k p q row hp hq =>
    refine h.frame (fun h => h) rfl le_rfl ?_ (fun h => h) h.tasks
    rcases eq_or_ne k id with rfl | hne
    · simp only [Function.update_self]
      exact Cancel.keeps_of_next hq
    · simp only [Function.update_of_ne hne.symm]
      exact .refl _
  | @cleanup expired =>
    -- the rows that are left are as they were
    refine h.frame (fun h => h) rfl le_rfl ?_ (fun h => h) h.tasks
    intro job' hjob'
    exact ⟨job', (Option.filter_eq_some_iff.mp hjob').1, rfl⟩

/-- A step does not lower the retry count of a job that has been submitted. -/
theorem Counted.retryCount_le (h : a.Counted n id) (hnext : a.next maxJobRetries e = some b)
    (hfresh : a.Fresh e) (hid : id ∈ a.submitted) {count : ℤ}
    (hcount : ∀ job ∈ a.queue.rows id, count ≤ job.retryCount) :
    ∀ job ∈ b.queue.rows id, count ≤ job.retryCount := by
  -- what keeps the retry count of the row does not lower it
  have hkeeps : ∀ {row : Option Job}, Keeps (a.queue.rows id) row →
      ∀ job ∈ row, count ≤ job.retryCount := by
    intro row hrow job' hjob'
    obtain ⟨job, hjob, heq⟩ := hrow job' hjob'
    exact heq ▸ hcount job hjob
  -- nor does the step of a task, which counts a retry from the count in the row
  have htask : ∀ {i : ℕ} {k : Id} {p q : Task} {row : Option Job} {action : TaskAction},
      a.queue.tasks[i]? = some (k, p) →
      p.next maxJobRetries (a.queue.rows k) action = some (q, row) →
      ∀ job ∈ Function.update a.queue.rows k row id, count ≤ job.retryCount := by
    intro i k p q row action hp hq
    rcases eq_or_ne k id with rfl | hne
    · rw [Function.update_self]
      rcases Task.keeps_of_next hq with hrow | ⟨job, rfl, -, -, -, rfl⟩
      · exact hkeeps hrow
      · intro job' hjob'
        obtain ⟨current, hcurrent, rfl⟩ := Option.map_eq_some_iff.mp hjob'
        obtain ⟨-, -, heq⟩ := h.tasks _ (List.mem_of_getElem? hp)
        have hle := hcount current hcurrent
        rw [heq current hcurrent] at hle
        show count ≤ job.retryCount + 1
        omega
    · rw [Function.update_of_ne hne.symm]
      exact hcount
  obtain ⟨t, ht, rfl⟩ := Option.map_eq_some_iff.mp hnext
  cases step_of_next ht with
  | @insert k hk =>
    have hne : id ≠ k := by
      rintro rfl
      exact hfresh id (List.mem_singleton_self id) hid
    simp only [Function.update_of_ne hne]
    exact hcount
  | @task i action k p q row hp hq ha => exact htask hp hq
  | @dispatch i k p q row outcome hp hq houtcome => exact htask hp hq
  | @cancel i action k p q row hp hq =>
    rcases eq_or_ne k id with rfl | hne
    · simp only [Function.update_self]
      exact hkeeps (Cancel.keeps_of_next hq)
    · simp only [Function.update_of_ne hne.symm]
      exact hcount
  | @cleanup expired =>
    intro job hjob
    exact hcount job (Option.filter_eq_some_iff.mp hjob).1
  | push | pop | leave | retryPush | release | requestCancel => exact hcount

/-- A step of the job queue in which a new job gets a new id. -/
def Step (maxJobRetries : ℤ) (a : Audit Id) (e : Event Id) (b : Audit Id) : Prop :=
  a.next maxJobRetries e = some b ∧ a.Fresh e

/-- Every id is counted in every state that is reached. -/
theorem counted_of_run {retryQueueCapacity : ℕ} (hmax : maxJobRetries ≤ n) (hn : 0 ≤ n)
    (h : Run (Step maxJobRetries) (new retryQueueCapacity) es a) : a.Counted n id := by
  apply h.invariant (I := fun a => a.Counted n id)
  · rintro a e b ha ⟨hnext, hfresh⟩
    exact ha.step hmax hn hnext hfresh
  · exact counted_new hn retryQueueCapacity

/-- **The bound on executions.** Over every run a job is executed at most once more than it may be
retried; its retry count stays within the limit and is never lowered; and the queue and the pending
retry tasks hold at most one copy of its id. -/
theorem execution_bound {retryQueueCapacity : ℕ} {es₁ es₂ : List (Event Id)}
    (hmax : 0 ≤ maxJobRetries) (h₁ : Run (Step maxJobRetries) (new retryQueueCapacity) es₁ a)
    (h₂ : Run (Step maxJobRetries) a es₂ b) (id : Id) :
    (b.executed.count id : ℤ) ≤ maxJobRetries + 1 ∧
      (∀ job ∈ b.queue.rows id, job.retryCount ≤ maxJobRetries ∧
        ∀ earlier ∈ a.queue.rows id, earlier.retryCount ≤ job.retryCount) ∧
      b.queue.queue.count id + b.queue.retries.count id ≤ 1 := by
  have ha : a.Counted maxJobRetries id := counted_of_run le_rfl hmax h₁
  have hb : b.Counted maxJobRetries id := counted_of_run le_rfl hmax (h₁.append h₂)
  refine ⟨hb.executed_le, fun job hjob => ⟨hb.row_le job hjob, fun earlier hearlier => ?_⟩, ?_⟩
  · -- a job with a row has been submitted, and its id is not given out again
    have hid : id ∈ a.submitted := by
      by_contra hid
      obtain ⟨-, hnone, -⟩ := ha.unknown hid
      simp [hnone] at hearlier
    have hgrows : b.Counted maxJobRetries id ∧ id ∈ b.submitted ∧
        ∀ job ∈ b.queue.rows id, earlier.retryCount ≤ job.retryCount := by
      apply h₂.invariant (I := fun c => c.Counted maxJobRetries id ∧ id ∈ c.submitted ∧
        ∀ job ∈ c.queue.rows id, earlier.retryCount ≤ job.retryCount)
      · rintro c e d ⟨hc, hmem, hle⟩ ⟨hnext, hfresh⟩
        refine ⟨hc.step le_rfl hmax hnext hfresh, ?_, hc.retryCount_le hnext hfresh hmem hle⟩
        obtain ⟨t, -, rfl⟩ := Option.map_eq_some_iff.mp hnext
        exact List.mem_append_right _ hmem
      · refine ⟨ha, hid, ?_⟩
        rintro job hjob
        obtain rfl := Option.mem_unique hearlier hjob
        exact le_rfl
    exact hgrows.2.2 job hjob
  · have hone := hb.copies_le
    simp only [copies] at hone
    omega

/-- A submitted job is executed, fails and is put back into the queue. -/
def failed : List (Event ℕ) :=
  [.insert 0, .push 0 true, .pop true, .task 0 (.get true), .task 0 (.markProcessing true),
    .task 0 (.executed false), .task 0 (.fail true), .task 0 (.requeue true),
    .task 0 (.dispatched .spawned), .leave 0 true, .retryPush 0 true]

/-- The job is taken out of the queue again and executed. -/
def executedAgain : List (Event ℕ) :=
  [.pop true, .task 0 (.get true), .task 0 (.markProcessing true)]

/-- A job that fails once is executed twice, of the four times that the default allows. -/
theorem execution_bound_failed :
    ∃ a b, Run (Step 3) (new 256) failed a ∧ Run (Step 3) a executedAgain b ∧
      b.executed = [0, 0] ∧ (b.executed.count 0 : ℤ) ≤ 3 + 1 := by
  have hfresh : ∀ (a : Audit ℕ) (e : Event ℕ), submits e = [] → a.Fresh e := by
    intro a e he id hid
    rw [he] at hid
    cases hid
  have hruns : ∃ a b, Run (Step 3) (new 256) failed a ∧ Run (Step 3) a executedAgain b ∧
      b.executed = [0, 0] := by
    exact ⟨_, _, .cons ⟨rfl, fun _ _ hid => by cases hid⟩ <| .cons ⟨rfl, hfresh _ _ rfl⟩ <|
      .cons ⟨rfl, hfresh _ _ rfl⟩ <| .cons ⟨rfl, hfresh _ _ rfl⟩ <|
      .cons ⟨rfl, hfresh _ _ rfl⟩ <| .cons ⟨rfl, hfresh _ _ rfl⟩ <|
      .cons ⟨rfl, hfresh _ _ rfl⟩ <| .cons ⟨rfl, hfresh _ _ rfl⟩ <|
      .cons ⟨rfl, hfresh _ _ rfl⟩ <| .cons ⟨rfl, hfresh _ _ rfl⟩ <|
      .single ⟨rfl, hfresh _ _ rfl⟩,
      .cons ⟨rfl, hfresh _ _ rfl⟩ <| .cons ⟨rfl, hfresh _ _ rfl⟩ <|
      .single ⟨rfl, hfresh _ _ rfl⟩, rfl⟩
  obtain ⟨a, b, h₁, h₂, hb⟩ := hruns
  exact ⟨a, b, h₁, h₂, hb, (execution_bound (by omega) h₁ h₂ 0).1⟩

end Audit

end Core.Jobs
