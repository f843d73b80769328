import SkyMoonScope.Core.Jobs.Worker
import SkyMoonScope.Lib.Machine
import Mathlib.Logic.Function.Basic

/-!
# Workers and cancel requests racing on one job

Any number of runs of `process_job` and of cancel requests on the same job, interleaved in any
order. Every statement is issued on what its task read or wrote some steps earlier, and none of
them checks the status it overwrites.

## Main definitions

* `Race`, `Race.next`: the row, the tasks on it, and a step of one of them
* `Race.Allowed`: the status change of a step is one the state machine allows
* `Race.Guarded`: the statement a step issues finds the row in a status of its guard
* `Race.Undisturbed`: a statement finds the status that its task left or read

## Main results

* `Race.run_allowed_iff`: the runs within the state machine are exactly those in which every
  statement finds its guard met, and in them a completed or cancelled job keeps its status
* `Race.run_guarded_of_undisturbed`: tasks that do not disturb one another stay within the state
  machine, when the workers load only queued jobs
-/

namespace Core.Jobs

open Machine

/-- The row of a job, the runs of `process_job` on it and the requests to cancel it. -/
structure Race where
  row : Option Job
  workers : ℕ → Task
  cancels : ℕ → Cancel

namespace Race

/-- A step of one of the tasks. -/
inductive Event
  | worker (i : ℕ) (a : TaskAction)
  | cancel (i : ℕ) (a : CancelAction)

/-- The state in which no task has started. -/
def start (row : Option Job) : Race :=
  { row, workers := fun _ => .idle, cancels := fun _ => .idle }

/-- The status of the job. -/
def status (s : Race) : Option JobStatus :=
  s.row.map (·.status)

/-- The statement that a step issues. -/
def issued (s : Race) : Event → Option Statement
  | .worker i a => (s.workers i).issues a
  | .cancel i a => (s.cancels i).issues a

/-- A step of the race. -/
def next (maxJobRetries : ℤ) (s : Race) : Event → Option Race
  | .worker i a =>
    ((s.workers i).next maxJobRetries s.row a).map fun (q, row) =>
      { s with row, workers := Function.update s.workers i q }
  | .cancel i a =>
    ((s.cancels i).next s.row a).map fun (q, row) =>
      { s with row, cancels := Function.update s.cancels i q }

variable {maxJobRetries : ℤ} {s t : Race} {e : Event} {es : List Event}

/-- A step runs the statement it issues on the row. -/
theorem next_row (h : s.next maxJobRetries e = some t) :
    t.row = Statement.apply s.row (s.issued e) := by
  cases e with
  | worker i a =>
    obtain ⟨⟨q, row⟩, hq, rfl⟩ := Option.map_eq_some_iff.mp h
    exact Task.next_row hq
  | cancel i a =>
    obtain ⟨⟨q, row⟩, hq, rfl⟩ := Option.map_eq_some_iff.mp h
    exact Cancel.next_row hq

/-! ## The state machine -/

/-- The status does not change, or changes as the state machine allows. -/
def Allowed (s t : Race) : Prop :=
  ∀ a ∈ s.status, ∀ b ∈ t.status, a = b ∨ JobStatus.Allows a b

/-- The statement that the step issues, if any, finds the row in a status of its guard. -/
def Guarded (s : Race) (e : Event) : Prop :=
  ∀ st ∈ s.issued e, ∀ a ∈ s.status, st.Guard a

instance (s t : Race) : Decidable (s.Allowed t) :=
  inferInstanceAs (Decidable (∀ a ∈ s.status, ∀ b ∈ t.status, a = b ∨ JobStatus.Allows a b))

instance (s : Race) (e : Event) : Decidable (s.Guarded e) :=
  inferInstanceAs (Decidable (∀ st ∈ s.issued e, ∀ a ∈ s.status, st.Guard a))

/-- A step of the race. -/
def Step (maxJobRetries : ℤ) (s : Race) (e : Event) (t : Race) : Prop :=
  s.next maxJobRetries e = some t

/-- A step within the state machine. -/
def AllowedStep (maxJobRetries : ℤ) (s : Race) (e : Event) (t : Race) : Prop :=
  s.Step maxJobRetries e t ∧ s.Allowed t

/-- A step whose statement finds its guard met. -/
def GuardedStep (maxJobRetries : ℤ) (s : Race) (e : Event) (t : Race) : Prop :=
  s.Step maxJobRetries e t ∧ s.Guarded e

/-- A step stays within the state machine exactly when its statement finds its guard met. -/
theorem allowed_iff_guarded (h : s.Step maxJobRetries e t) : s.Allowed t ↔ s.Guarded e := by
  have hrow := next_row h
  unfold Allowed Guarded status
  rw [hrow]
  rcases hst : s.issued e with _ | st
  · -- no statement, no change
    simp only [Statement.apply, Option.not_mem_none, false_imp_iff, implies_true, iff_true]
    intro a ha b hb
    exact .inl (Option.some.inj (ha.symm.trans hb))
  · rcases s.row with _ | job
    · -- a missing row has no status
      simp [Statement.apply]
    · simpa [Statement.apply] using (st.guard_iff job).symm

/-- What is completed or cancelled stays so in a step within the state machine. -/
theorem status_eq_of_allowedStep (h : s.AllowedStep maxJobRetries e t) {a : JobStatus}
    (ha : a = .completed ∨ a = .cancelled) (hs : s.status = some a) : t.status = some a := by
  -- no statement deletes the row
  obtain ⟨b, hb⟩ : ∃ b, t.status = some b := by
    obtain ⟨job, hjob, -⟩ := Option.map_eq_some_iff.mp hs
    rw [status, next_row h.1, hjob]
    cases s.issued e <;> simp [Statement.apply]
  rcases h.2 a hs b hb with rfl | hab
  · exact hb
  · exact absurd hab (JobStatus.not_allows_of_final ha)

/-- The status that the task of a step has last read or written. -/
def seen (s : Race) : Event → Option JobStatus
  | .worker i _ => (s.workers i).seen
  | .cancel i _ => (s.cancels i).seen

/-- The step is undisturbed: a worker loads the job only while it is queued, and a statement that
writes the status finds the status its task has last seen. -/
structure Undisturbed (s : Race) (e : Event) : Prop where
  queued : ∀ i, e = .worker i (.get true) → ∀ a ∈ s.status, a = .queued
  unchanged : ∀ st ∈ s.issued e, st.target ≠ none → ∀ a ∈ s.status, s.seen e = some a

/-- Every task is where it can issue its next statement on the status it has seen. -/
structure Sound (s : Race) : Prop where
  workers : ∀ i, (s.workers i).Sound
  cancels : ∀ i, (s.cancels i).Sound

theorem sound_start (row : Option Job) : (start row).Sound :=
  ⟨fun _ => trivial, fun _ => trivial⟩

theorem Sound.step (hs : s.Sound) (h : s.Step maxJobRetries e t) (he : s.Undisturbed e) :
    t.Sound := by
  cases e with
  | worker i a =>
    obtain ⟨⟨q, row⟩, hq, rfl⟩ := Option.map_eq_some_iff.mp h
    -- an undisturbed worker loads its job queued
    have hsound : q.Sound := by
      apply Task.sound_of_next hq
      intro job ha hjob
      apply he.queued i (by rw [ha])
      rw [status, hjob, Option.map_some, Option.mem_def]
    exact ⟨(Function.forall_update_iff _ fun _ => Task.Sound).mpr ⟨hsound, fun j _ => hs.workers j⟩,
      hs.cancels⟩
  | cancel i a =>
    obtain ⟨⟨q, row⟩, hq, rfl⟩ := Option.map_eq_some_iff.mp h
    exact ⟨hs.workers, (Function.forall_update_iff _ fun _ => Cancel.Sound).mpr
      ⟨Cancel.sound_of_next hq, fun j _ => hs.cancels j⟩⟩

theorem Sound.guarded (hs : s.Sound) (he : s.Undisturbed e) : s.Guarded e := by
  intro st hst a ha
  by_cases htarget : st.target = none
  · -- a statement that writes no status is met everywhere
    cases st <;> simp_all [Statement.target, Statement.Guard]
  have hseen := he.unchanged st hst htarget a ha
  cases e with
  | worker i _ => exact (hs.workers i).guard hst hseen
  | cancel i _ => exact (hs.cancels i).guard hst hseen

/-- **Tasks that do not disturb one another** stay within the state machine. -/
theorem run_guarded_of_undisturbed {row : Option Job}
    (h : Run (fun s e t => s.Step maxJobRetries e t ∧ s.Undisturbed e) (start row) es t) :
    Run (GuardedStep maxJobRetries) (start row) es t := by
  have hstep : ∀ u e v, u.Sound → u.Step maxJobRetries e v ∧ u.Undisturbed e →
      v.Sound ∧ GuardedStep maxJobRetries u e v := by
    rintro u e v hu ⟨hstep, he⟩
    exact ⟨hu.step hstep he, hstep, hu.guarded he⟩
  exact h.mono_of_invariant hstep (sound_start row)

end Race

end Core.Jobs
