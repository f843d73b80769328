import SkyMoonScope.Core.Jobs.Queue
import SkyMoonScope.Lib.Machine
import SkyMoonScope.Lib.Pool

/-!
# Queued jobs and their places

A job whose status is queued should have its id where a later pass can find it. The id is handed
from place to place, and nothing in the code takes up an id whose hand-over has failed.

## Main definitions

* `JobQueue.Placed`: the id of a job is in one of the places from which it can be run
* `JobQueue.Stranded`: the job is queued and has no place
* `JobQueue.HandsOver`: a hand-over that fails finds its job no longer queued

## Main results

* `JobQueue.queued_placed`: while every failing hand-over finds its job no longer queued, every
  queued job has a place
* `JobQueue.stranded_run`: a stranded job stays stranded until it is cancelled
-/

namespace Core.Jobs

open Machine Pool

namespace JobQueue

variable {Id : Type*} [DecidableEq Id] {maxJobRetries : ℤ} {s t : JobQueue Id} {e : Event Id}
  {es : List (Event Id)} {id : Id}

/-- The job is queued, as the database has it. -/
def Queued (s : JobQueue Id) (id : Id) : Prop :=
  s.status id = some .queued

/-- Whether the job of an updated row is queued. -/
theorem queued_update_self {row : Option Job} (h : t.rows = Function.update s.rows id row) :
    t.Queued id ↔ row.map (·.status) = some .queued := by
  rw [Queued, status, h, Function.update_self]

/-- An update of a row does not affect whether another job is queued. -/
theorem queued_update_of_ne {row : Option Job} (h : t.rows = Function.update s.rows id row) {m : Id}
    (hm : m ≠ id) : t.Queued m ↔ s.Queued m := by
  rw [Queued, Queued, status, status, h, Function.update_of_ne hm]

/-- The id is in the queue, in the processing list, in a submit or a retry in progress, or in a
pending retry task. -/
def Placed (s : JobQueue Id) (id : Id) : Prop :=
  id ∈ s.queue ∨ id ∈ s.processing ∨ id ∈ s.submitting ∨
    (∃ x ∈ s.tasks, x.1 = id ∧ x.2.Requeued) ∨ id ∈ s.retries

/-- The job is queued and has no place. -/
def Stranded (s : JobQueue Id) (id : Id) : Prop :=
  s.Queued id ∧ ¬ s.Placed id

instance (s : JobQueue Id) (id : Id) : Decidable (s.Stranded id) := by
  unfold Stranded Queued Placed
  infer_instance

/-- Every hand-over of an id that the step fails to make finds the job no longer queued: the
`LPUSH` of a submit and of a retry task, the dispatch of a retry, and the two statements with which
a worker takes the job over. -/
def HandsOver (s : JobQueue Id) : Event Id → Prop
  | .push id false => ¬ s.Queued id
  | .retryPush k false => ∀ id ∈ s.retries[k]?, ¬ s.Queued id
  | .task i (.dispatched .dropped) => ∀ x ∈ s.tasks[i]?, ¬ s.Queued x.1
  | .task i (.get false) => ∀ x ∈ s.tasks[i]?, ¬ s.Queued x.1
  | .task i (.markProcessing false) => ∀ x ∈ s.tasks[i]?, ¬ s.Queued x.1
  | _ => True

/-! ## Every task has its entry in the processing list -/

/-- The entries of the processing list suffice for the tasks under way. -/
def Listed (s : JobQueue Id) : Prop :=
  ∀ id, running s.tasks id ≤ s.processing.count id

theorem listed_new (retryQueueCapacity : ℕ) : (new retryQueueCapacity : JobQueue Id).Listed :=
  fun _ => Nat.zero_le _

/-- Whatever fails, a task has an entry of its own in the processing list. -/
theorem Listed.step (hs : s.Listed) (h : s.next maxJobRetries e = some t) : t.Listed := by
  -- only a pop and the end of a task change the tasks or the processing list
  cases step_of_next h with
  | @pop id rest replied hqueue =>
    intro m
    have hm := hs m
    cases replied <;> simp only [List.count_cons, Bool.false_eq_true, if_false, if_true,
      running_concat, beq_iff_eq] <;> omega
  | task hp hq _ =>
    intro m
    rw [running_set hp]
    exact hs m
  | dispatch hp hq _ =>
    intro m
    rw [running_set hp]
    exact hs m
  | @leave i removed id p hp _ =>
    intro m
    have hm := hs m
    have hleave := running_eraseIdx hp m
    cases removed with
    | false =>
      simp only [Bool.false_eq_true, if_false]
      omega
    | true =>
      -- the task and one entry of its id leave together
      simp only [if_true, List.count_erase, beq_iff_eq]
      omega
  | insert | push | retryPush | release | requestCancel | cancel | cleanup => exact hs

/-- A task under way has its id in the processing list. -/
theorem Listed.mem_processing (hs : s.Listed) {p : Task} (hp : (id, p) ∈ s.tasks) :
    id ∈ s.processing :=
  List.count_pos_iff.mp ((running_pos_of_mem hp).trans_le (hs id))

/-! ## Every queued job is covered -/

/-- What keeps a queued job from being stranded: its id is in the queue or in a hand-over, a task
waits to run or to requeue it, or the processing list has an entry of it that no task will
remove. -/
def Covered (s : JobQueue Id) (id : Id) : Prop :=
  id ∈ s.queue ∨ id ∈ s.submitting ∨ id ∈ s.retries ∨
    (∃ p, (id, p) ∈ s.tasks ∧ p.Waiting) ∨ running s.tasks id < s.processing.count id

theorem Covered.placed (hs : s.Listed) (h : s.Covered id) : s.Placed id := by
  rcases h with h | h | h | ⟨p, hp, -⟩ | h
  · exact .inl h
  · exact .inr (.inr (.inl h))
  · exact .inr (.inr (.inr (.inr h)))
  · exact .inr (.inl (hs.mem_processing hp))
  · exact .inr (.inl (List.count_pos_iff.mp (Nat.zero_lt_of_lt h)))

/-- Every queued job is covered. -/
structure Inv (s : JobQueue Id) : Prop where
  listed : s.Listed
  covered : ∀ id, s.Queued id → s.Covered id

theorem inv_new (retryQueueCapacity : ℕ) : (new retryQueueCapacity : JobQueue Id).Inv :=
  ⟨listed_new _, fun _ h => by cases h⟩

/-- A job that is covered stays covered when its places and its tasks remain. -/
theorem Covered.mono (h : s.Covered id) (hqueue : id ∈ s.queue → id ∈ t.queue)
    (hsubmitting : id ∈ s.submitting → id ∈ t.submitting)
    (hretries : id ∈ s.retries → id ∈ t.retries)
    (htasks : ∀ p, p.Waiting → (id, p) ∈ s.tasks → (id, p) ∈ t.tasks)
    (hrunning : running s.tasks id < s.processing.count id →
      running t.tasks id < t.processing.count id) : t.Covered id := by
  rcases h with h | h | h | ⟨p, hp, hw⟩ | h
  · exact .inl (hqueue h)
  · exact .inr (.inl (hsubmitting h))
  · exact .inr (.inr (.inl (hretries h)))
  · exact .inr (.inr (.inr (.inl ⟨p, htasks p hw hp, hw⟩)))
  · exact .inr (.inr (.inr (.inr (hrunning h))))

theorem Covered.of_task {p : Task} (hp : (id, p) ∈ s.tasks) (hw : p.Waiting) : s.Covered id :=
  .inr (.inr (.inr (.inl ⟨p, hp, hw⟩)))

omit [DecidableEq Id] in
theorem mem_pushed {l : List Id} {m : Id} (h : m ∈ l) (id : Id) (pushed : Bool) :
    m ∈ if pushed then id :: l else l := by
  split
  · exact List.mem_cons_of_mem id h
  · exact h

/-- A step of a task keeps every queued job covered, unless it fails to hand over its own. -/
theorem Inv.covered_task {i : ℕ} {a : TaskAction} {p q : Task} {row : Option Job} {m : Id}
    (hs : s.Inv) (hm : t.Queued m) (he : s.HandsOver (.task i a)) (hp : s.tasks[i]? = some (id, p))
    (hq : p.next maxJobRetries (s.rows id) a = some (q, row))
    (hrows : t.rows = Function.update s.rows id row) (htasks : t.tasks = s.tasks.set i (id, q))
    (hqueue : t.queue = s.queue) (hsubmitting : t.submitting = s.submitting)
    (hprocessing : t.processing = s.processing) (hretries : s.retries ⊆ t.retries)
    (hspawned : a = .dispatched .spawned → id ∈ t.retries) : t.Covered m := by
  have hrunning : running t.tasks = running s.tasks := by rw [htasks, running_set hp]
  -- a job stays covered when it does not rest on the task that steps
  have hmono : s.Queued m → (m = id → ¬ p.Waiting) → t.Covered m := by
    intro hm' hnot
    refine (hs.covered m hm').mono (by simp [hqueue]) (by simp [hsubmitting])
      (fun h => hretries h) ?_ (by rw [hrunning, hprocessing]; exact fun h => h)
    intro p' hw hp'
    rw [htasks]
    rcases mem_set_or_eq hp hp' (id, q) with h | h
    · exact h
    · obtain ⟨rfl, rfl⟩ := Prod.mk.inj h
      exact absurd hw (hnot rfl)
  rcases eq_or_ne m id with rfl | hne
  · rcases Task.queued_of_next hq ((queued_update_self hrows).mp hm) with hw | ⟨hrow, hhand⟩
    · have hmem : (m, q) ∈ t.tasks := by
        rw [htasks]
        exact List.mem_set (List.getElem?_eq_some_iff.mp hp).1 _
      exact .of_task hmem hw
    · by_cases hw : p.Waiting
      · -- the task hands its job on, or fails to take it over
        rcases hhand hw with rfl | rfl | ⟨outcome, rfl⟩
        · exact absurd hrow (he (m, p) hp)
        · exact absurd hrow (he (m, p) hp)
        · cases outcome with
          | spawned => exact .inr (.inr (.inl (hspawned rfl)))
          | dropped => exact absurd hrow (he (m, p) hp)
      · exact hmono hrow fun _ => hw
  · exact hmono ((queued_update_of_ne hrows hne).mp hm) fun h => absurd h hne

/-- A task that ends leaves every queued job covered: it has nothing left to do for its job, and
takes no entry of the processing list but its own. -/
theorem Inv.covered_leave {i : ℕ} {removed : Bool} {p : Task} (hs : s.Inv)
    (hp : s.tasks[i]? = some (id, p)) (hw : ¬ p.Waiting) {m : Id} (hm : s.Queued m)
    (htasks : t.tasks = s.tasks.eraseIdx i)
    (hprocessing : t.processing = if removed then s.processing.erase id else s.processing)
    (hqueue : t.queue = s.queue) (hsubmitting : t.submitting = s.submitting)
    (hretries : t.retries = s.retries) : t.Covered m := by
  refine (hs.covered m hm).mono (by simp [hqueue]) (by simp [hsubmitting]) (by simp [hretries])
    ?_ ?_
  · intro p' hw' hp'
    rw [htasks]
    rcases mem_eraseIdx_or_eq hp hp' with h | h
    · exact h
    · obtain ⟨-, rfl⟩ := Prod.mk.inj h
      exact absurd hw' hw
  · intro hlt
    have hleave := running_eraseIdx hp m
    rw [htasks, hprocessing]
    cases removed with
    | false =>
      simp only [Bool.false_eq_true, if_false]
      omega
    | true =>
      simp only [if_true, List.count_erase, beq_iff_eq]
      omega

/-- **A step keeps every queued job covered**, unless it fails to hand one over. -/
theorem Inv.step (hs : s.Inv) (h : s.next maxJobRetries e = some t) (he : s.HandsOver e) :
    t.Inv := by
  refine ⟨hs.listed.step h, fun m hm => ?_⟩
  cases step_of_next h with
  | @insert id hid =>
    rcases eq_or_ne m id with rfl | hne
    · -- the new job is being submitted
      exact .inr (.inl List.mem_cons_self)
    · have hm' : s.Queued m := (queued_update_of_ne rfl hne).mp hm
      exact (hs.covered m hm').mono (fun h => h) (List.mem_cons_of_mem _) (fun h => h)
        (fun _ _ h => h) (fun h => h)
  | @push id pushed hid =>
    rcases eq_or_ne m id with rfl | hne
    · cases pushed with
      | true => exact .inl List.mem_cons_self
      | false => exact absurd hm he
    · exact (hs.covered m hm).mono (fun h => mem_pushed h id pushed)
        (List.mem_erase_of_ne hne).mpr (fun h => h) (fun _ _ h => h) (fun h => h)
  | @pop id rest replied hqueue =>
    have hm' : s.Queued m := hm
    rcases eq_or_ne m id with rfl | hne
    · cases replied with
      | true =>
        -- the new task waits to run the job
        exact .of_task (p := .idle) (List.mem_append_right _ (List.mem_singleton_self _)) trivial
      | false =>
        -- the entry of a pop without a reply stays in the processing list
        have hlisted := hs.listed m
        exact .inr (.inr (.inr (.inr (by simpa using Nat.lt_succ_of_le hlisted))))
    · refine (hs.covered m hm').mono ?_ (fun h => h) (fun h => h) ?_ ?_
      · intro h
        simpa [hqueue, hne] using h
      · intro p _ hp
        cases replied with
        | true => exact List.mem_append_left _ hp
        | false => exact hp
      · intro hlt
        cases replied <;> simpa [running_concat, hne.symm] using hlt
  | @task i a id p q row hp hq ha =>
    exact hs.covered_task hm he hp hq rfl rfl rfl rfl rfl (fun _ h => h)
      fun h => absurd h (ha _)
  | @dispatch i id p q row outcome hp hq houtcome =>
    -- as any step of a task, and the retries gain the job when the dispatch is not dropped
    refine hs.covered_task hm he hp hq rfl rfl rfl rfl rfl ?_ ?_
    · intro k hk
      cases outcome with
      | spawned => exact List.mem_append_left _ hk
      | dropped => exact hk
    · intro h
      cases h
      exact List.mem_append_right _ (List.mem_singleton_self _)
  | @leave i removed id p hp hdone =>
    -- a task that has ended does not wait
    have hw : ¬ p.Waiting := by
      rcases hdone with rfl | ⟨rfl, -⟩ <;> exact fun h => h
    exact hs.covered_leave hp hw hm rfl rfl rfl rfl rfl
  | @retryPush k pushed id hid =>
    rcases eq_or_ne m id with rfl | hne
    · cases pushed with
      | true => exact .inl List.mem_cons_self
      | false => exact absurd hm (he m hid)
    · refine (hs.covered m hm).mono (fun h => mem_pushed h id pushed) (fun h => h) ?_
        (fun _ _ h => h) (fun h => h)
      intro h
      exact (mem_eraseIdx_or_eq hid h).resolve_right hne
  | release => exact hs.covered m hm
  | requestCancel => exact hs.covered m hm
  | @cancel i a id p q row hp hq =>
    -- a request queues no job
    refine hs.covered m ?_
    rcases eq_or_ne m id with rfl | hne
    · exact Cancel.queued_of_next hq ((queued_update_self rfl).mp hm)
    · exact (queued_update_of_ne rfl hne).mp hm
  | @cleanup expired =>
    -- a row that is left is as it was
    refine hs.covered m ?_
    obtain ⟨job, hjob, hstatus⟩ := Option.map_eq_some_iff.mp hm
    rw [Queued, status, (Option.filter_eq_some_iff.mp hjob).1, Option.map_some, hstatus]

/-- **No queued job is stranded** in a run in which every failing hand-over finds its job no longer
queued. -/
theorem queued_placed {retryQueueCapacity : ℕ}
    (h : Run (fun s e t => s.next maxJobRetries e = some t ∧ s.HandsOver e)
      (new retryQueueCapacity : JobQueue Id) es t) (hid : t.Queued id) : t.Placed id := by
  have hstep : ∀ (u : JobQueue Id) e v, u.Inv → u.next maxJobRetries e = some v ∧ u.HandsOver e →
      v.Inv := by
    rintro u e v hu ⟨hnext, he⟩
    exact hu.step hnext he
  have hinv : t.Inv := h.invariant hstep (inv_new retryQueueCapacity)
  exact (hinv.covered id hid).placed hinv.listed

/-- A job fails and its retry is scheduled. -/
def retried : List (Event ℕ) :=
  [.insert 0, .push 0 true, .pop true, .task 0 (.get true), .task 0 (.markProcessing true),
    .task 0 (.executed false), .task 0 (.fail true), .task 0 (.requeue true),
    .task 0 (.dispatched .spawned), .leave 0 true]

/-- A job that has failed once waits for its retry. -/
theorem queued_placed_retried :
    ∃ t, Run (fun s e t => next 3 s e = some t ∧ s.HandsOver e) (new 256) retried t ∧
      t.Queued 0 ∧ t.Placed 0 := by
  have hrun : Run (fun s e t => next 3 s e = some t ∧ s.HandsOver e) (new 256) retried _ :=
    .cons ⟨rfl, trivial⟩ <| .cons ⟨rfl, trivial⟩ <| .cons ⟨rfl, trivial⟩ <|
    .cons ⟨rfl, trivial⟩ <| .cons ⟨rfl, trivial⟩ <| .cons ⟨rfl, trivial⟩ <|
    .cons ⟨rfl, trivial⟩ <| .cons ⟨rfl, trivial⟩ <| .cons ⟨rfl, trivial⟩ <|
    .single ⟨rfl, trivial⟩
  exact ⟨_, hrun, rfl, queued_placed hrun rfl⟩

/-- The jobs of two workers fail while the dispatcher has room for one retry: both are requeued,
and the retry of the second is dropped. -/
def saturated : List (Event ℕ) :=
  [.insert 0, .push 0 true, .insert 1, .push 1 true, .pop true, .pop true,
    .task 0 (.get true), .task 0 (.markProcessing true), .task 0 (.executed false),
    .task 0 (.fail true), .task 0 (.requeue true), .task 0 (.dispatched .spawned),
    .task 1 (.get true), .task 1 (.markProcessing true), .task 1 (.executed false),
    .task 1 (.fail true), .task 1 (.requeue true), .task 1 (.dispatched .dropped), .leave 1 true]

/-- A job whose retry is dropped is stranded, although every Redis operation succeeds. -/
theorem stranded_of_dropped :
    ¬ ∀ (maxJobRetries : ℤ) (retryQueueCapacity : ℕ) (es : List (Event ℕ)) (t : JobQueue ℕ)
      (id : ℕ), Run (fun s e t => s.next maxJobRetries e = some t) (new retryQueueCapacity) es t →
        t.Queued id → t.Placed id := by
  intro h
  have hexec : (exec (next 3) (new 1) saturated).any (fun t => decide (t.Stranded 1)) = true := by
    decide
  obtain ⟨t, hrun, ht⟩ := exists_run_of_exec hexec
  obtain ⟨hqueued, hplaced⟩ : t.Stranded 1 := of_decide_eq_true ht
  exact hplaced (h 3 1 saturated t 1 hrun hqueued)

/-! ## Stranded jobs -/

omit [DecidableEq Id] in
/-- A job that has a place keeps it when its places and its tasks remain. -/
theorem Placed.mono (h : s.Placed id) (hqueue : id ∈ s.queue → id ∈ t.queue)
    (hprocessing : id ∈ s.processing → id ∈ t.processing)
    (hsubmitting : id ∈ s.submitting → id ∈ t.submitting)
    (htasks : ∀ p, p.Requeued → (id, p) ∈ s.tasks → (id, p) ∈ t.tasks)
    (hretries : id ∈ s.retries → id ∈ t.retries) : t.Placed id := by
  rcases h with h | h | h | ⟨⟨m, p⟩, hp, rfl, hreq⟩ | h
  · exact .inl (hqueue h)
  · exact .inr (.inl (hprocessing h))
  · exact .inr (.inr (.inl (hsubmitting h)))
  · exact .inr (.inr (.inr (.inl ⟨_, htasks p hreq hp, rfl, hreq⟩)))
  · exact .inr (.inr (.inr (.inr (hretries h))))

theorem mem_of_mem_pushed {α : Type*} {l : List α} {x y : α} {pushed : Bool} (hne : x ≠ y)
    (h : x ∈ if pushed then y :: l else l) : x ∈ l := by
  split at h
  · exact (List.mem_cons.mp h).resolve_left hne
  · exact h

omit [DecidableEq Id] in
/-- A task that is updated in place is not a task on another job. -/
theorem mem_of_mem_set_task {tasks : List (Id × Task)} {i : ℕ} {m : Id} {p q : Task} (hne : id ≠ m)
    (h : (id, p) ∈ tasks.set i (m, q)) : (id, p) ∈ tasks :=
  (List.mem_or_eq_of_mem_set h).resolve_right fun heq => hne (Prod.mk.inj heq).1

/-- **A step gives a place only to a new job**, or to one that has a place already. -/
theorem placed_of_next (hs : s.Listed) (h : s.next maxJobRetries e = some t)
    (hid : s.rows id ≠ none) (ht : t.Placed id) : s.Placed id := by
  cases step_of_next h with
  | @insert m hm =>
    have hne : id ≠ m := fun heq => hid (heq ▸ hm)
    exact ht.mono (fun h => h) (fun h => h) (fun h => (List.mem_cons.mp h).resolve_left hne)
      (fun _ _ h => h) (fun h => h)
  | @push m pushed hm =>
    rcases eq_or_ne id m with rfl | hne
    · exact .inr (.inr (.inl hm))
    · exact ht.mono (mem_of_mem_pushed hne) (fun h => h) List.mem_of_mem_erase (fun _ _ h => h)
        (fun h => h)
  | @pop m rest replied hqueue =>
    rcases eq_or_ne id m with rfl | hne
    · exact .inl (by simp [hqueue])
    · refine ht.mono (fun h => by simp [hqueue, h]) (fun h => (List.mem_cons.mp h).resolve_left hne)
        (fun h => h) (fun p _ hp => ?_) (fun h => h)
      cases replied with
      | true => simpa [hne] using hp
      | false => exact hp
  | @task i a m p q row hp hq _ =>
    rcases eq_or_ne id m with rfl | hne
    · -- a task that could requeue the job has its entry in the processing list
      exact .inr (.inl (hs.mem_processing (List.mem_of_getElem? hp)))
    · exact ht.mono (fun h => h) (fun h => h) (fun h => h) (fun _ _ => mem_of_mem_set_task hne)
        (fun h => h)
  | @dispatch i m p q row outcome hp hq houtcome =>
    rcases eq_or_ne id m with rfl | hne
    · exact .inr (.inl (hs.mem_processing (List.mem_of_getElem? hp)))
    · refine ht.mono (fun h => h) (fun h => h) (fun h => h) (fun _ _ => mem_of_mem_set_task hne) ?_
      intro hretries
      cases outcome with
      | spawned => simpa [hne] using hretries
      | dropped => exact hretries
  | @leave i removed m p hp hdone =>
    refine ht.mono (fun h => h) (fun h => ?_) (fun h => h) (fun _ _ => List.mem_of_mem_eraseIdx)
      (fun h => h)
    cases removed with
    | true => exact List.mem_of_mem_erase h
    | false => exact h
  | @retryPush k pushed m hm =>
    rcases eq_or_ne id m with rfl | hne
    · exact .inr (.inr (.inr (.inr (List.mem_of_getElem? hm))))
    · exact ht.mono (mem_of_mem_pushed hne) (fun h => h) (fun h => h) (fun _ _ h => h)
        List.mem_of_mem_eraseIdx
  | release | requestCancel | cancel | cleanup => exact ht

/-- A queued job without an entry in the processing list stays queued until it is cancelled. -/
theorem queued_or_cancelled_of_next (hs : s.Listed) (h : s.next maxJobRetries e = some t)
    (hid : s.Queued id) (hprocessing : id ∉ s.processing) :
    t.Queued id ∨ t.status id = some .cancelled := by
  cases step_of_next h with
  | @insert m hm =>
    have hne : id ≠ m := by
      rintro rfl
      simp [Queued, status, hm] at hid
    exact .inl ((queued_update_of_ne rfl hne).mpr hid)
  | task hp | dispatch hp =>
    -- without an entry there is no task on the job
    have hne : id ≠ _ := fun heq =>
      hprocessing (heq ▸ hs.mem_processing (List.mem_of_getElem? hp))
    exact .inl ((queued_update_of_ne rfl hne).mpr hid)
  | @cancel i a m p q row hp hq =>
    rcases eq_or_ne id m with rfl | hne
    · -- a request reads the row or cancels the job
      rcases Cancel.row_of_next hq with rfl | rfl
      · exact .inl ((queued_update_self rfl).mpr hid)
      · obtain ⟨job, hjob, -⟩ := Option.map_eq_some_iff.mp hid
        exact .inr (by simp [status, hjob, Statement.run])
    · exact .inl ((queued_update_of_ne rfl hne).mpr hid)
  | @cleanup expired =>
    obtain ⟨job, hjob, hstatus⟩ := Option.map_eq_some_iff.mp hid
    -- a queued row is not terminal
    exact .inl (by simp [Queued, status, cleanup, hjob, hstatus, JobStatus.isTerminal])
  | push | pop | leave | retryPush | release | requestCancel => exact .inl hid

/-- **No pass recovers a stranded job**: it stays stranded unless it is cancelled. -/
theorem stranded_run {retryQueueCapacity : ℕ} {es₀ : List (Event Id)}
    (h₀ : Run (fun s e t => s.next maxJobRetries e = some t) (new retryQueueCapacity) es₀ s)
    (hs : s.Stranded id)
    (h : Run (fun s e t => s.next maxJobRetries e = some t ∧ t.status id ≠ some .cancelled)
      s es t) :
    t.Stranded id := by
  have hlisted : s.Listed :=
    h₀.invariant (fun _ _ _ hs hstep => hs.step hstep) (listed_new retryQueueCapacity)
  -- the processing list is part of the invariant: it tells that no task works on the job
  refine (h.invariant (I := fun u => u.Listed ∧ u.Stranded id) ?_ ⟨hlisted, hs⟩).2
  rintro u e v ⟨hu, hqueued, hplaced⟩ ⟨hstep, hcancelled⟩
  have hrow : u.rows id ≠ none := fun hnone => by simp [Queued, status, hnone] at hqueued
  have hprocessing : id ∉ u.processing := fun hmem => hplaced (.inr (.inl hmem))
  have hv : v.Queued id :=
    (queued_or_cancelled_of_next hu hstep hqueued hprocessing).resolve_right hcancelled
  exact ⟨hu.step hstep, hv, fun hmem => hplaced (placed_of_next hu hstep hrow hmem)⟩

end JobQueue

end Core.Jobs
