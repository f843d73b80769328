import Mathlib.Algebra.Order.Ring.Nat
import Mathlib.Data.List.Basic
import Mathlib.Tactic.Common
import Mathlib.Tactic.IntervalCases

/-!
# The worker pool

A supervisor looks at its workers from time to time. A worker that has ended is replaced, after a
delay that doubles with each failure up to half a minute, and that is forgotten when a minute has
passed since the worker was started. The minute also passes while a slot is down.

## Main definitions

* `WorkerSlot`: a slot, with what the supervisor knows of its worker
* `WorkerSlot.takeFinished`, `restartBackoff`: the end of a worker, and the delay after it
* `Tick`, `superviseTick`, `supervise`: a look at all workers, and a run of them
* `restarts`: how often a slot has been restarted in a run

## Main results

* `restarts_le`: in any run a slot is restarted at most thrice, and once every fifteen seconds
* `restarted_within`: a worker that is found to have ended is replaced within half a minute
-/

namespace Core.WorkerPool

/-- A second, in nanoseconds. -/
def second : ℕ := 10 ^ 9

def restartBackoffBase : ℕ := second

def restartBackoffMax : ℕ := 30 * second

def restartBackoffResetAfter : ℕ := 60 * second

/-- The delay before a restart. It doubles with each failure. -/
def restartBackoff (consecutiveFailures : ℕ) : ℕ :=
  let exponent := min (consecutiveFailures - 1) 16
  min (restartBackoffBase * 2 ^ exponent) restartBackoffMax

/-! ## The slots -/

structure WorkerSlot where
  /-- there is a worker, that may have ended -/
  handle : Bool
  failures : ℕ
  restartAt : Option ℕ
  startedAt : ℕ

namespace WorkerSlot

def start (now : ℕ) : WorkerSlot where
  handle := true
  failures := 0
  restartAt := none
  startedAt := now

/-- Whether the worker has ended, which is then taken out of its slot. -/
def takeFinished (slot : WorkerSlot) (now : ℕ) (isFinished : Bool) : WorkerSlot × Bool :=
  if slot.handle && isFinished then ({ slot with handle := false }, true)
  else if 0 < slot.failures ∧ restartBackoffResetAfter ≤ now - slot.startedAt then
    ({ slot with failures := 0 }, false)
  else (slot, false)

/-- The first pass of the supervisor. The failures are counted up to the bound of their type. -/
def reap (slot : WorkerSlot) (now : ℕ) (isFinished : Bool) : WorkerSlot :=
  let (slot, finished) := slot.takeFinished now isFinished
  if finished then
    let failures := min (slot.failures + 1) (2 ^ 32 - 1)
    { slot with
      failures := failures
      restartAt := some (now + restartBackoff failures) }
  else slot

/-- Whether the slot gets a new worker. -/
def isDue (slot : WorkerSlot) (now : ℕ) : Bool :=
  !slot.handle && !slot.restartAt.any fun instant => now < instant

/-- The second pass. -/
def respawn (slot : WorkerSlot) (now : ℕ) : WorkerSlot :=
  if slot.isDue now then { slot with handle := true, startedAt := now, restartAt := none } else slot

end WorkerSlot

/-! ## The supervisor -/

/-- The time of a look at the workers, and which of them have ended. -/
structure Tick where
  now : ℕ
  isFinished : ℕ → Bool

def reapAll (slots : List WorkerSlot) (tick : Tick) : List WorkerSlot :=
  slots.mapIdx fun index slot => slot.reap tick.now (tick.isFinished index)

def superviseTick (slots : List WorkerSlot) (tick : Tick) : List WorkerSlot :=
  (reapAll slots tick).map fun slot => slot.respawn tick.now

def supervise (slots : List WorkerSlot) (ticks : List Tick) : List WorkerSlot :=
  ticks.foldl superviseTick slots

/-- How often the slot `index` is restarted in a run. -/
def restarts (index : ℕ) : List WorkerSlot → List Tick → ℕ
  | _, [] => 0
  | slots, tick :: ticks =>
    (if (reapAll slots tick)[index]?.any (·.isDue tick.now) then 1 else 0) +
      restarts index (superviseTick slots tick) ticks

/-! ## The pace of the restarts -/

section Pace

variable {slot : WorkerSlot} {start now later k : ℕ} {isFinished : Bool}

/-- By how much the restarts may be ahead of one in fifteen seconds, after so many failures. -/
def ahead : ℕ → ℕ
  | 0 => 0
  | 1 => 14 * second
  | 2 => 27 * second
  | 3 => 38 * second
  | _ => 45 * second

theorem ahead_le (failures : ℕ) : ahead failures ≤ 45 * second := by
  unfold ahead
  split <;> simp [second]

theorem ahead_of_le {failures : ℕ} (h : 4 ≤ failures) : ahead failures = 45 * second := by
  unfold ahead
  split <;> omega

theorem restartBackoff_le (failures : ℕ) : restartBackoff failures ≤ 30 * second := min_le_right _ _

/-- From the fifth failure on the delay is at least fifteen seconds. -/
theorem le_restartBackoff {failures : ℕ} (h : 5 ≤ failures) :
    15 * second ≤ restartBackoff failures := by
  have hexponent : 4 ≤ min (failures - 1) 16 := by omega
  have hpow : 2 ^ 4 ≤ 2 ^ min (failures - 1) 16 := Nat.pow_le_pow_right Nat.two_pos hexponent
  refine le_min ?_ (by decide)
  calc 15 * second ≤ second * 2 ^ 4 := by decide
    _ ≤ restartBackoffBase * 2 ^ min (failures - 1) 16 := Nat.mul_le_mul_left _ hpow

/-- A delay makes up for the restart after it. -/
theorem ahead_add_le (failures : ℕ) : ahead failures + 15 * second ≤
    ahead (min (failures + 1) (2 ^ 32 - 1)) +
      restartBackoff (min (failures + 1) (2 ^ 32 - 1)) := by
  rcases lt_or_ge failures 4 with hlt | hge
  · interval_cases failures <;>
      norm_num [ahead, restartBackoff, restartBackoffBase, restartBackoffMax, second]
  · have hfive : 5 ≤ min (failures + 1) (2 ^ 32 - 1) := by omega
    have hdelay := le_restartBackoff hfive
    have hahead := ahead_of_le (Nat.le_of_succ_le hfive)
    have hle := ahead_le failures
    omega

/-- So many restarts are not ahead of their pace, at the time `now`. -/
structure Paced (start now k : ℕ) (slot : WorkerSlot) : Prop where
  startedAt_le : slot.startedAt ≤ now
  base : 15 * second * k + start ≤ slot.startedAt + 45 * second
  /-- the pace that the failures of a worker allow is kept since it was started, or since the delay
  was forgotten -/
  up : slot.handle = true → ∃ since ≤ now, 15 * second * k + start ≤ since + ahead slot.failures
  /-- a slot that is down keeps the pace with its next restart -/
  down : slot.handle = false → ∃ instant since, slot.restartAt = some instant ∧
    since ≤ max now instant ∧ 15 * second * (k + 1) + start ≤ since + ahead slot.failures

theorem paced_start : Paced start start 0 (.start start) :=
  ⟨le_rfl, by simp [WorkerSlot.start], fun _ => ⟨start, le_rfl, by simp⟩, nofun⟩

/-- **The first pass keeps the pace.** When the delay is forgotten, a minute has passed since the
worker was started. -/
theorem Paced.reap (h : Paced start now k slot) (hnow : now ≤ later) (isFinished : Bool) :
    Paced start later k (slot.reap later isFinished) := by
  obtain ⟨hstarted, hbase, hup, hdown⟩ := h
  rw [WorkerSlot.reap, WorkerSlot.takeFinished]
  split_ifs with hended hforgotten
  · -- the worker has ended
    rw [Bool.and_eq_true] at hended
    obtain ⟨since, hsince, hpace⟩ := hup hended.1
    have hahead := ahead_add_le slot.failures
    have hnext : 15 * second * (k + 1) + start ≤
        later + restartBackoff (min (slot.failures + 1) (2 ^ 32 - 1)) +
          ahead (min (slot.failures + 1) (2 ^ 32 - 1)) := by
      rw [Nat.mul_add]
      omega
    exact ⟨hstarted.trans hnow, hbase, nofun, fun _ => ⟨_, _, rfl, le_max_right _ _, hnext⟩⟩
  · -- a minute has passed
    have hreset : restartBackoffResetAfter = 60 * second := rfl
    refine ⟨hstarted.trans hnow, hbase, fun _ => ⟨later, le_rfl, ?_⟩, fun hhandle => ?_⟩
    · dsimp only
      have hzero : ahead 0 = 0 := rfl
      omega
    · obtain ⟨instant, -, hinstant, -⟩ := hdown hhandle
      refine ⟨instant, later, hinstant, le_max_left _ _, ?_⟩
      dsimp only
      have hzero : ahead 0 = 0 := rfl
      rw [Nat.mul_add]
      omega
  · refine ⟨hstarted.trans hnow, hbase, fun hhandle => ?_, fun hhandle => ?_⟩
    · obtain ⟨since, hsince, hpace⟩ := hup hhandle
      exact ⟨since, hsince.trans hnow, hpace⟩
    · obtain ⟨instant, since, hinstant, hsince, hpace⟩ := hdown hhandle
      exact ⟨instant, since, hinstant, hsince.trans (max_le_max_right _ hnow), hpace⟩

/-- **The second pass keeps the pace**, with the restart if there is one. -/
theorem Paced.respawn (h : Paced start now k slot) :
    Paced start now (k + if slot.isDue now then 1 else 0) (slot.respawn now) := by
  obtain ⟨hstarted, hbase, hup, hdown⟩ := h
  rw [WorkerSlot.respawn]
  cases hdue : slot.isDue now with
  | false => exact ⟨hstarted, hbase, hup, hdown⟩
  | true =>
    rw [WorkerSlot.isDue, Bool.and_eq_true, Bool.not_eq_true'] at hdue
    obtain ⟨instant, since, hinstant, hsince, hpace⟩ := hdown hdue.1
    have hpassed : instant ≤ now := by simpa [hinstant] using hdue.2
    have hle := ahead_le slot.failures
    rw [max_eq_left hpassed] at hsince
    exact ⟨le_rfl, (hpace.trans (Nat.add_le_add_left hle _)).trans (Nat.add_le_add_right hsince _),
      fun _ => ⟨since, hsince, hpace⟩, nofun⟩

end Pace

/-! ## Runs -/

section Runs

variable {slots : List WorkerSlot} {tick : Tick} {ticks : List Tick} {index : ℕ}
  {slot : WorkerSlot} {start now k later : ℕ}

theorem getElem?_reapAll (h : slots[index]? = some slot) :
    (reapAll slots tick)[index]? = some (slot.reap tick.now (tick.isFinished index)) := by
  rw [reapAll, List.getElem?_mapIdx, h]
  rfl

theorem getElem?_superviseTick (tick : Tick) (h : slots[index]? = some slot) :
    (superviseTick slots tick)[index]? =
      some ((slot.reap tick.now (tick.isFinished index)).respawn tick.now) := by
  rw [superviseTick, List.getElem?_map, getElem?_reapAll h]
  rfl

/-- The looks of a run come one after another, from the time `now` to the time `later`. -/
def Ordered (now : ℕ) (ticks : List Tick) (later : ℕ) : Prop :=
  List.IsChain (· ≤ ·) (now :: ticks.map Tick.now ++ [later])

theorem restarts_of_paced (hindex : slots[index]? = some slot) (hslot : Paced start now k slot)
    (hticks : Ordered now ticks later) :
    15 * second * (k + restarts index slots ticks) + start ≤ later + 45 * second := by
  induction ticks generalizing slots slot now k with
  | nil =>
    obtain ⟨hstarted, hbase, -, -⟩ := hslot
    have hle : now ≤ later := by simpa [Ordered] using hticks
    rw [restarts, Nat.add_zero]
    omega
  | cons tick ticks ih =>
    obtain ⟨hnow, hrest⟩ := List.isChain_cons_cons.mp hticks
    have hnext := ((hslot.reap hnow (tick.isFinished index))).respawn
    rw [restarts, getElem?_reapAll hindex, ← Nat.add_assoc]
    exact ih (getElem?_superviseTick tick hindex) hnext hrest

/-- **A slot is not restarted in a loop**: in any run of the pool at most thrice, and once every
fifteen seconds. -/
theorem restarts_le {n index : ℕ} (hindex : index < n) {ticks : List Tick}
    (hticks : Ordered start ticks later) :
    15 * second * restarts index (List.replicate n (.start start)) ticks ≤
      later - start + 45 * second := by
  have hslot : (List.replicate n (WorkerSlot.start start))[index]? = some (.start start) := by
    simp [hindex]
  have hpace := restarts_of_paced hslot paced_start hticks
  rw [Nat.zero_add] at hpace
  omega

/-- While a slot is down, the first pass leaves the time of its restart. -/
theorem WorkerSlot.reap_of_down (h : slot.handle = false) (now : ℕ) (isFinished : Bool) :
    (slot.reap now isFinished).handle = false ∧
      (slot.reap now isFinished).restartAt = slot.restartAt := by
  rw [reap, takeFinished, h, Bool.false_and, if_neg (by simp)]
  split_ifs <;> simp [h]

/-- A slot that is down is restarted at the latest at a look after the time of its restart. -/
theorem restarts_pos {instant : ℕ} (hindex : slots[index]? = some slot)
    (hdown : slot.handle = false) (hinstant : slot.restartAt = some instant)
    (hlast : ∃ tick ∈ ticks, instant ≤ tick.now) : 0 < restarts index slots ticks := by
  induction ticks generalizing slots slot with
  | nil =>
    obtain ⟨tick, htick, -⟩ := hlast
    cases htick
  | cons tick ticks ih =>
    obtain ⟨hdown', hinstant'⟩ :=
      WorkerSlot.reap_of_down hdown tick.now (tick.isFinished index)
    rw [restarts, getElem?_reapAll hindex]
    cases hdue : (slot.reap tick.now (tick.isFinished index)).isDue tick.now with
    | true => simp [hdue]
    | false =>
      -- the slot stays as it is, and the look is before the time of the restart
      have hbefore : tick.now < instant := by
        simpa [WorkerSlot.isDue, hdown', hinstant', hinstant] using hdue
      have hstays := getElem?_superviseTick tick hindex
      rw [WorkerSlot.respawn, hdue, if_neg (by simp)] at hstays
      refine Nat.add_pos_right _ (ih hstays hdown' (hinstant'.trans hinstant) ?_)
      obtain ⟨last, hmem, hle⟩ := hlast
      rcases List.mem_cons.mp hmem with rfl | hmem
      · omega
      · exact ⟨last, hmem, hle⟩

/-- **A worker that has ended is replaced** by the first look after half a minute at the latest. -/
theorem restarted_within (hindex : slots[index]? = some slot) (hup : slot.handle = true)
    (hended : tick.isFinished index = true)
    (hlast : ∃ last ∈ ticks, tick.now + 30 * second ≤ last.now) :
    0 < restarts index slots (tick :: ticks) := by
  have hreap : slot.reap tick.now (tick.isFinished index) =
      { slot with
        handle := false
        failures := min (slot.failures + 1) (2 ^ 32 - 1)
        restartAt := some (tick.now + restartBackoff (min (slot.failures + 1) (2 ^ 32 - 1))) } := by
    rw [WorkerSlot.reap, WorkerSlot.takeFinished, hup, hended]
    rfl
  rw [restarts, getElem?_reapAll hindex]
  cases hdue : (slot.reap tick.now (tick.isFinished index)).isDue tick.now with
  | true => simp [hdue]
  | false =>
    have hstays := getElem?_superviseTick tick hindex
    rw [WorkerSlot.respawn, hdue, if_neg (by simp), hreap] at hstays
    refine Nat.add_pos_right _ (restarts_pos hstays rfl rfl ?_)
    obtain ⟨last, hmem, hle⟩ := hlast
    have hdelay := restartBackoff_le (min (slot.failures + 1) (2 ^ 32 - 1))
    exact ⟨last, hmem, (Nat.add_le_add_left hdelay _).trans hle⟩

/-- Three looks at workers that have ended each time. -/
def crashingTicks : List Tick := [1, 2, 3].map fun n => ⟨n * second, fun _ => true⟩

theorem restarts_le_crashing :
    15 * second * restarts 0 (List.replicate 2 (.start 0)) crashingTicks ≤
      3 * second - 0 + 45 * second := by
  refine restarts_le Nat.two_pos ?_
  simp [Ordered, crashingTicks, second]

theorem restarted_within_crashing :
    0 < restarts 1 [.start 0, .start 0]
      [⟨0, fun _ => true⟩, ⟨second, fun _ => false⟩, ⟨30 * second, fun _ => false⟩] := by
  have hslot : [WorkerSlot.start 0, .start 0][1]? = some (.start 0) := rfl
  exact restarted_within hslot rfl rfl ⟨⟨30 * second, fun _ => false⟩, by simp, by simp⟩

end Runs

end Core.WorkerPool
