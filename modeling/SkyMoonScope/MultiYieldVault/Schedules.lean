import SkyMoonScope.MultiYieldVault.Unreachable

/-!
# Which schedules are executed

A schedule may be executed from its next ledger on, up to its last one. A pass executes each of
these once, as its shares are covered, and it leaves all others as they are. So an open schedule can
be executed later on just as long as its last ledger has not passed, since its executions are
planned to end in time. After its last ledger a schedule that missed an execution stays open, with
its shares reserved, until its owner cancels it.

## Main definitions

* `WithdrawalSchedule.after ledger`: an open schedule after a pass
* `Timely s`: the executions that remain end in time

## Main results

* `after_executeLoop`: what a pass does to every schedule
* `Timely.run`: after every run, the executions that remain end in time
* `schedules_executed`: what is due is executed, and what has not ended can still be due
-/

namespace MultiYieldVault

open Soroban Machine Relation

variable {Address World : Type} {host : Host Address World}

/-- An open schedule after a pass at a ledger: it has advanced if it was due. -/
def WithdrawalSchedule.after (ledger : ℕ) (schedule : WithdrawalSchedule Address) :
    WithdrawalSchedule Address :=
  if schedule.nextExecutionLedger ≤ ledger ∧ ledger ≤ schedule.endLedger then schedule.advance
  else schedule

/-- The executions that remain of the open schedules end in time. -/
def Timely (s : State Address) : Prop :=
  ∀ id schedule, s.schedule id = some schedule → schedule.closed = false → schedule.InTime

section InTime

variable {schedule : WithdrawalSchedule Address}

/-- An execution takes one interval of those that remain. -/
theorem inTime_advance (hopen : schedule.advance.closed = false) (h : schedule.InTime) :
    schedule.advance.InTime := by
  unfold WithdrawalSchedule.advance at hopen ⊢
  unfold WithdrawalSchedule.InTime at h ⊢
  dsimp only at hopen ⊢
  split at hopen
  next => exact Bool.noConfusion hopen
  next hleft =>
    rw [if_neg hleft]
    dsimp only
    obtain ⟨left, hcount⟩ : ∃ left, schedule.totalExecutions - schedule.executions - 1 = left + 1 :=
      ⟨schedule.totalExecutions - schedule.executions - 2, by omega⟩
    have hrest : schedule.totalExecutions - (schedule.executions + 1) - 1 = left := by omega
    rw [hcount, Nat.add_mul, Nat.one_mul] at h
    rw [hrest]
    have hmin := Nat.min_le_left (schedule.nextExecutionLedger + schedule.intervalLedgers)
      (2 ^ 32 - 1)
    omega

/-- The next execution is not after the last ledger. -/
theorem next_le_end (h : schedule.InTime) : schedule.nextExecutionLedger ≤ schedule.endLedger :=
  (Nat.le_add_right _ _).trans h

end InTime

section Timely

variable {s t : State Address}

theorem timely_of_eq (h : Timely s) (heq : t.schedule = s.schedule) : Timely t := by
  intro id schedule hschedule
  rw [heq] at hschedule
  exact h id schedule hschedule

/-- A schedule is written, and it is closed or still in time. -/
theorem timely_of_update {id : ℕ} {schedule : WithdrawalSchedule Address} (h : Timely s)
    (heq : t.schedule = Function.update s.schedule id (some schedule))
    (hschedule : schedule.closed = false → schedule.InTime) : Timely t := by
  intro k other hother
  rw [heq] at hother
  rcases Register.entry_update hother with ⟨rfl, rfl⟩ | ⟨-, hother⟩
  · exact hschedule
  · exact h k other hother

/-- **Every transition leaves the executions that remain in time.** -/
theorem Timely.transition [DecidableEq Address] (h : Timely s) (ht : Transition host s t) :
    Timely t := by
  cases ht with
  | neutral hneutral => exact timely_of_eq h (by rw [hneutral.eq])
  | mint => exact timely_of_eq h rfl
  | settle => exact timely_of_eq h (congrArg Register.entry settle_plans)
  | gone => exact timely_of_eq h rfl
  | partly => exact timely_of_eq h rfl
  | settled => exact timely_of_eq h rfl
  | writeOff => exact timely_of_eq h rfl
  | plan _ _ _ _ htime => exact timely_of_update h rfl fun _ => htime
  | ended => exact timely_of_update h rfl fun hopen => Bool.noConfusion hopen
  | fire _ hschedule hopen =>
    exact timely_of_update h rfl fun hadvance => inTime_advance hadvance (h _ _ hschedule hopen)
  | release => exact timely_of_update h rfl fun hopen => Bool.noConfusion hopen

theorem Timely.transitions [DecidableEq Address] (h : Timely s)
    (ht : ReflTransGen (Transition host) s t) : Timely t := by
  induction ht with
  | refl => exact h
  | tail _ hlast ih => exact ih.transition hlast

theorem Timely.initial : Timely (State.initial : State Address) := by
  intro id schedule hschedule
  cases hschedule

/-- **Every run leaves the executions that remain in time.** -/
theorem Timely.run [DecidableEq Address]
    {events : List (Event (Env Address World) (Call Address) Error (Response Address))}
    (h : Sound s ∧ Timely s)
    (hrun : Run (Step (entryPoint host Fallbacks.source)) s events t) : Sound t ∧ Timely t := by
  refine invariant_of_returns (I := fun s => Sound s ∧ Timely s) (P := fun _ _ _ => True) ?_
    (run_unconditional hrun) h
  rintro env call s v t ⟨hsound, htimely⟩ hcall -
  exact ⟨hsound.call hcall,
    htimely.transitions (MultiYieldVault.transitions hsound.plans.sound.nodup hcall)⟩

end Timely

/-! ## The pass over the schedules -/

section Pass

variable [DecidableEq Address] {env : Env Address World} {c c' : Session Address World}
  {s t : State Address} {ledger id : ℕ} {inspection : Inspection}

/-- An open schedule is covered by the balance of its owner. -/
theorem Sound.covered (hsound : Sound s) {schedule : WithdrawalSchedule Address}
    (hschedule : s.schedule id = some schedule) (hopen : schedule.closed = false) :
    schedule.amountPerExecution ≤ s.balance schedule.owner := by
  obtain ⟨hamount, hrunning⟩ := hsound.plans.sound.valid id schedule hschedule
  calc schedule.amountPerExecution ≤ schedule.reserved :=
        amount_le_reserved hamount (hrunning hopen)
    _ ≤ s.escrowed schedule.owner := hsound.plans.le hschedule hopen
    _ ≤ s.balance schedule.owner := hsound.plans.escrowed_le schedule.owner

/-- **A look at a listed schedule** executes it if it is due, and leaves it as it is otherwise. It
is open, and it is covered. -/
theorem Inspected.schedule_eq {l : List ℕ} (hsound : Sound { s with schedules := l })
    (hid : id ∈ l) (h : Inspected host ledger s id inspection t) :
    inspection ≠ .ended ∧ ∃ schedule, s.schedule id = some schedule ∧
      t.schedule = Function.update s.schedule id (some (schedule.after ledger)) := by
  obtain ⟨listed, hlisted, hopen⟩ := hsound.plans.sound.exists_of_mem hid
  have hlt := (hsound.plans.sound.valid id listed hlisted).2 hopen
  cases h with
  | ended hschedule hover =>
    obtain rfl := Option.some.inj (hlisted.symm.trans hschedule)
    -- a listed schedule is open and has executions left
    rcases hover with hclosed | hdone
    · rw [hopen] at hclosed
      cases hclosed
    · exact absurd hlt hdone.not_gt
  | waiting hschedule hwaits =>
    obtain rfl := Option.some.inj (hlisted.symm.trans hschedule)
    refine ⟨nofun, listed, hlisted, ?_⟩
    -- it is not due, or no more due
    have hafter : listed.after ledger = listed := if_neg (by omega)
    rw [hafter, ← hlisted]
    exact (Function.update_eq_self id s.schedule).symm
  | uncovered hschedule _ hshort =>
    obtain rfl := Option.some.inj (hlisted.symm.trans hschedule)
    -- the shares of all executions to come are reserved
    have hcovered : listed.amountPerExecution ≤ s.balance listed.owner :=
      hsound.covered hlisted hopen
    exact absurd hcovered (not_le.mpr hshort)
  | fired hvault hschedule _ _ hdue hlast _ hfire =>
    obtain rfl := Option.some.inj (hlisted.symm.trans hschedule)
    refine ⟨nofun, listed, hlisted, ?_⟩
    rw [WithdrawalSchedule.after, if_pos ⟨hdue, hlast⟩]
    exact congrArg State.schedule (hfire [] [] List.not_mem_nil)

/-- **What a pass does to every schedule**, where its budget is enough for all that it has still to
look at. The induction is on these. -/
theorem after_executeLoop {depositToken : Address} {budget : ℕ} {kept schedules l : List ℕ}
    {result result' : ScheduleExecutionResult}
    (hsound : Sound { c.storage with schedules := kept ++ schedules })
    (hbudget : result.considered + schedules.length ≤ budget)
    (h : Returns (executeLoop host env Fallbacks.source depositToken budget kept schedules result)
      c (l, result') c') :
    (∀ id ∉ schedules, c'.storage.schedule id = c.storage.schedule id) ∧
      ∀ id ∈ schedules, ∃ schedule, c.storage.schedule id = some schedule ∧
        c'.storage.schedule id = some (schedule.after env.sequence) := by
  induction schedules generalizing c kept result with
  | nil =>
    obtain ⟨-, rfl⟩ := returns_pure.mp h
    exact ⟨fun _ _ => rfl, fun _ hid => absurd hid List.not_mem_nil⟩
  | cons id rest ih =>
    rw [List.length_cons] at hbudget
    rw [executeLoop, if_pos (by omega)] at h
    obtain ⟨inspection, c₁, hinspect, h⟩ := returns_bind.mp h
    have hnodup := List.nodup_append.mp hsound.plans.sound.nodup
    -- no schedule is listed twice
    have hkept : id ∉ kept := fun hmem => hnodup.2.2 id hmem id List.mem_cons_self rfl
    have hrest : id ∉ rest := (List.nodup_cons.mp hnodup.2.1).1
    have hlook := inspected_inspect hinspect
    have hround := hsound.transition (hlook.transition rest hkept)
    obtain ⟨hended, schedule, hschedule, hafter⟩ :=
      hlook.schedule_eq hsound (List.mem_append_right _ List.mem_cons_self)
    -- what the rest of the pass does, after the look
    have hcombine : ∀ {u : Session Address World},
        (∀ k ∉ rest, u.storage.schedule k = c₁.storage.schedule k) ∧
          (∀ k ∈ rest, ∃ schedule, c₁.storage.schedule k = some schedule ∧
            u.storage.schedule k = some (schedule.after env.sequence)) →
        (∀ k ∉ id :: rest, u.storage.schedule k = c.storage.schedule k) ∧
          ∀ k ∈ id :: rest, ∃ schedule, c.storage.schedule k = some schedule ∧
            u.storage.schedule k = some (schedule.after env.sequence) := by
      rintro u ⟨hothers, hpass⟩
      constructor
      · intro k hk
        obtain ⟨hne, hk⟩ := not_or.mp (mt List.mem_cons.mpr hk)
        rw [hothers k hk, hafter, Function.update_of_ne hne]
      · intro k hk
        rcases List.mem_cons.mp hk with rfl | hk
        · refine ⟨schedule, hschedule, ?_⟩
          rw [hothers k hrest, hafter, Function.update_self]
        · have hne : k ≠ id := fun heq => hrest (heq ▸ hk)
          obtain ⟨other, hother, hpassed⟩ := hpass k hk
          rw [hafter, Function.update_of_ne hne] at hother
          exact ⟨other, hother, hpassed⟩
    -- a schedule that stays is kept behind those that the pass has already kept
    have hmoved : kept ++ id :: rest = (kept ++ [id]) ++ rest := by simp
    cases inspection with
    | ended => exact absurd rfl hended
    | waiting =>
      simp only [Inspection.schedules, hmoved] at hround
      exact hcombine (ih hround (by dsimp only; omega) h)
    | fired payout finished =>
      simp only [returns_plain_bind] at h
      cases finished with
      | false =>
        simp only [Inspection.schedules, hmoved] at hround
        exact hcombine (ih hround (by dsimp only; omega) h.2)
      | true => exact hcombine (ih hround (by dsimp only; omega) h.2)

omit [DecidableEq Address] in
/-- The schedules that are due, by their entries. -/
theorem mem_dueSchedules : id ∈ dueSchedules s ledger ↔ id ∈ s.schedules ∧
    ∃ schedule, s.schedule id = some schedule ∧ schedule.closed = false ∧
      schedule.executions < schedule.totalExecutions ∧ schedule.nextExecutionLedger ≤ ledger ∧
      ledger ≤ schedule.endLedger := by
  unfold dueSchedules
  rw [List.mem_filter]
  refine and_congr_right fun _ => ?_
  cases hschedule : s.schedule id with
  | none => simp
  | some schedule => simp [and_assoc]

/-- The budget of a call is enough for all schedules. -/
def EnoughBudget (s : State Address) (maxCount : ℕ) : Prop :=
  s.schedules.length ≤ if maxCount = 0 then maxSchedules else min maxCount maxSchedules

instance (s : State Address) (maxCount : ℕ) : Decidable (EnoughBudget s maxCount) :=
  inferInstanceAs (Decidable (_ ≤ _))

theorem after_executeScheduledWithdrawals {maxCount : ℕ} {result : ScheduleExecutionResult}
    (hsound : Sound c.storage) (hbudget : EnoughBudget c.storage maxCount)
    (h : Returns (executeScheduledWithdrawals host env Fallbacks.source maxCount) c result c') :
    ∀ id ∈ c.storage.schedules, ∃ schedule, c.storage.schedule id = some schedule ∧
      c'.storage.schedule id = some (schedule.after env.sequence) := by
  rw [executeScheduledWithdrawals, returns_loadVault_bind] at h
  obtain ⟨vault, -, h⟩ := h
  rw [returns_storage_bind] at h
  split at h
  next hnone =>
    -- without a list there is nothing to execute
    intro id hid
    rw [List.eq_nil_of_length_eq_zero hnone] at hid
    exact absurd hid List.not_mem_nil
  next =>
    obtain ⟨⟨schedules, result'⟩, c₁, hloop, h⟩ := returns_bind.mp h
    simp only [saveSchedules, returns_save_bind, returns_pure] at h
    obtain ⟨-, rfl⟩ := h
    have hsound' : Sound { c.storage with schedules := [] ++ c.storage.schedules } := hsound
    refine (after_executeLoop hsound' ?_ hloop).2
    rw [Nat.zero_add]
    exact hbudget

/-- **What is due is executed**, and what has not ended can still be due. After every run, an open
schedule whose last ledger has not passed is due at a ledger from now on. A call with enough budget
executes every open schedule that is due, and leaves those as they are that are not due yet or whose
last ledger has passed. -/
theorem schedules_executed
    {events : List (Event (Env Address World) (Call Address) Error (Response Address))}
    (hrun : Run (Step (entryPoint host Fallbacks.source)) State.initial events s) :
    (∀ now id schedule, s.schedule id = some schedule → schedule.closed = false →
      now ≤ schedule.endLedger → ∃ ledger, now ≤ ledger ∧ id ∈ dueSchedules s ledger) ∧
    ∀ env w maxCount result c', EnoughBudget s maxCount →
      Returns (executeScheduledWithdrawals host env Fallbacks.source maxCount) ⟨s, w⟩ result c' →
      ∀ id schedule, s.schedule id = some schedule → schedule.closed = false →
        c'.storage.schedule id = some (schedule.after env.sequence) := by
  obtain ⟨hsound, htimely⟩ := Timely.run ⟨Sound.initial, Timely.initial⟩ hrun
  constructor
  · intro now id schedule hschedule hopen hnow
    have hlast := next_le_end (htimely id schedule hschedule hopen)
    have hrunning := (hsound.plans.sound.valid id schedule hschedule).2 hopen
    -- it is due at its next ledger, or now if that has passed
    refine ⟨max now schedule.nextExecutionLedger, le_max_left _ _, mem_dueSchedules.mpr ?_⟩
    exact ⟨hsound.plans.sound.mem_of_open hschedule hopen, schedule, hschedule, hopen, hrunning,
      le_max_right _ _, max_le hnow hlast⟩
  · intro env w maxCount result c' hbudget h id schedule hschedule hopen
    have hid : id ∈ s.schedules := hsound.plans.sound.mem_of_open hschedule hopen
    obtain ⟨found, hfound, hafter⟩ := after_executeScheduledWithdrawals (c := ⟨s, w⟩) hsound hbudget
      h id hid
    obtain rfl := Option.some.inj (hschedule.symm.trans hfound)
    exact hafter

/-- A schedule for the ledger 7 alone. -/
def sampleOnce : List (Env ℕ (ℕ × Bool) × Call ℕ) :=
  [(sampleEnv 1 0 false, .initializeVault 9 100 100 10000),
   (sampleEnv 1 0 false, .registerPool 101 true),
   (sampleEnv 1 0 false, .registerPool 102 true),
   (sampleEnv 1 0 false, .setWeights [5000, 5000]),
   (sampleEnv 1 0 false, .deposit 1 100),
   (sampleEnv 2 0 false, .scheduleWithdrawals 1 3 5 .oneTime 7 0 0)]

theorem schedules_executed_once :
    ∃ events s, Run (Step (entryPoint sampleHost Fallbacks.source)) State.initial events s ∧
      s.schedules = [0] ∧
      ∀ now id schedule, s.schedule id = some schedule → schedule.closed = false →
        now ≤ schedule.endLedger → ∃ ledger, now ≤ ledger ∧ id ∈ dueSchedules s ledger := by
  have hrun := run_execute (entryPoint sampleHost Fallbacks.source) State.initial sampleOnce
  exact ⟨_, _, hrun, by decide +kernel, (schedules_executed hrun).1⟩

/-- Nobody calls at the ledger 7. A call at the next ledger passes over the schedule, which is due
at no ledger from then on and stays open. -/
theorem schedule_missed :
    ∃ events s schedule,
      Run (Step (entryPoint sampleHost Fallbacks.source)) State.initial events s ∧
      s.schedule 0 = some schedule ∧ schedule.closed = false ∧
      schedule.nextExecutionLedger ≤ 8 ∧ (∀ ledger ≥ 8, 0 ∉ dueSchedules s ledger) ∧
      EnoughBudget s 0 ∧ ∃ result c',
        Returns (executeScheduledWithdrawals sampleHost (sampleEnv 8 0 false) Fallbacks.source 0)
          ⟨s, (0, false)⟩ result c' ∧
        (c'.storage.schedule 0).map (fun x => (x.closed, x.executions)) = some (false, 0) := by
  have hrun := run_execute (entryPoint sampleHost Fallbacks.source) State.initial sampleOnce
  have hstored : ((execute (entryPoint sampleHost Fallbacks.source) State.initial
      sampleOnce).2.schedule 0).map (fun x => (x.closed, x.nextExecutionLedger, x.endLedger)) =
        some (false, 7, 7) := by decide +kernel
  obtain ⟨schedule, hschedule, hfields⟩ := Option.map_eq_some_iff.mp hstored
  obtain ⟨hopen, hnext, hend⟩ : schedule.closed = false ∧ schedule.nextExecutionLedger = 7 ∧
      schedule.endLedger = 7 := by simpa using hfields
  obtain ⟨result, h⟩ := exists_returns_of_isOk (show
    (invoke (executeScheduledWithdrawals sampleHost (sampleEnv 8 0 false) Fallbacks.source 0)
      ⟨(execute (entryPoint sampleHost Fallbacks.source) State.initial sampleOnce).2,
        (0, false)⟩).1.isOk = true by decide +kernel)
  refine ⟨_, _, schedule, hrun, hschedule, hopen, by omega, ?_, by decide +kernel, result, _, h,
    by decide +kernel⟩
  -- its last ledger is 7
  intro ledger hledger hdue
  obtain ⟨-, found, hfound, -, -, -, hlast⟩ := mem_dueSchedules.mp hdue
  obtain rfl := Option.some.inj (hschedule.symm.trans hfound)
  omega

end Pass

end MultiYieldVault
