import Mathlib.Data.List.Count
import Mathlib.Data.List.Induction
import Mathlib.Data.List.Perm.Basic
import Mathlib.Logic.Function.Basic

/-!
# The slots for simulations

Each API key has a number of simulations that may run at the same time. A simulation that begins
gets a permit, and whatever becomes of it, the permit is dropped when it ends. The counts of the
keys are under one lock, so that the requests come one after another, in any order.

## Main definitions

* `ConcurrencyLimiter`: the limit, and the counts of the keys that have permits
* `tryAcquire`, `dropPermit`: a request for a permit, and the end of one
* `Guarded`, `Guarded.run`: a limiter with its permits, and any order of requests and ends

## Main results

* `permits_exact`: the counts are the permits, no key has more than the limit, and a request is
  refused just when the key has all of its permits
-/

namespace Core.SimulationService

structure ConcurrencyLimiter where
  maxPerKey : ℕ
  /-- the counts of some keys -/
  counts : String → Option ℕ

/-- The error of a request that is refused. -/
inductive AppError
  | tooManyRequests (message : String)

namespace ConcurrencyLimiter

def new (maxPerKey : ℕ) : ConcurrencyLimiter where
  maxPerKey := max maxPerKey 1
  counts _ := none

def inFlight (l : ConcurrencyLimiter) (apiKey : String) : ℕ := (l.counts apiKey).getD 0

/-- A request. The key has a count from then on, also if it is refused. -/
def tryAcquire (l : ConcurrencyLimiter) (apiKey : String) :
    Except AppError Unit × ConcurrencyLimiter :=
  let count := (l.counts apiKey).getD 0
  let l := { l with counts := Function.update l.counts apiKey (some count) }
  if count ≥ l.maxPerKey then
    (.error (.tooManyRequests
      s!"API key is limited to {l.maxPerKey} concurrent simulations"), l)
  else (.ok (), { l with counts := Function.update l.counts apiKey (some (count + 1)) })

/-- The end of a permit. A key without permits has no count. -/
def dropPermit (l : ConcurrencyLimiter) (apiKey : String) : ConcurrencyLimiter :=
  match l.counts apiKey with
  | none => l
  | some count =>
    if count - 1 = 0 then { l with counts := Function.update l.counts apiKey none }
    else { l with counts := Function.update l.counts apiKey (some (count - 1)) }

end ConcurrencyLimiter

open ConcurrencyLimiter

/-! ## Requests and ends -/

/-- A limiter, and the keys of the permits that have not been dropped. -/
structure Guarded where
  limiter : ConcurrencyLimiter
  permits : List String

/-- A request of a key, or the end of the permit at a position. -/
inductive Event
  | acquire (apiKey : String)
  | drop (position : ℕ)

namespace Guarded

def step (g : Guarded) : Event → Guarded
  | .acquire apiKey =>
    match g.limiter.tryAcquire apiKey with
    | (.ok (), l) => ⟨l, apiKey :: g.permits⟩
    | (.error _, l) => ⟨l, g.permits⟩
  | .drop position =>
    match g.permits[position]? with
    | none => g
    | some apiKey => ⟨g.limiter.dropPermit apiKey, g.permits.eraseIdx position⟩

def run (maxPerKey : ℕ) (events : List Event) : Guarded := events.foldl step ⟨new maxPerKey, []⟩

/-- The counts are those of the permits, no key has more than the limit, and only keys with permits
have a count. -/
structure Inv (g : Guarded) : Prop where
  one_le : 1 ≤ g.limiter.maxPerKey
  counts_eq : ∀ apiKey, g.limiter.counts apiKey =
    if g.permits.count apiKey = 0 then none else some (g.permits.count apiKey)
  count_le : ∀ apiKey, g.permits.count apiKey ≤ g.limiter.maxPerKey

variable {g : Guarded} {apiKey : String}

theorem Inv.inFlight_eq (h : g.Inv) (apiKey : String) :
    g.limiter.inFlight apiKey = g.permits.count apiKey := by
  rw [inFlight, h.counts_eq apiKey]
  split
  case isTrue hzero => rw [hzero, Option.getD_none]
  case isFalse => rfl

/-- A request is granted as long as the key has fewer permits than the limit. -/
theorem Inv.tryAcquire_of_lt (h : g.Inv) (hlt : g.permits.count apiKey < g.limiter.maxPerKey) :
    g.limiter.tryAcquire apiKey = (.ok (), { g.limiter with
      counts := Function.update g.limiter.counts apiKey (some (g.permits.count apiKey + 1)) }) := by
  have hcount : (g.limiter.counts apiKey).getD 0 = g.permits.count apiKey := h.inFlight_eq apiKey
  simp only [tryAcquire, hcount, Function.update_idem]
  rw [if_neg (Nat.not_le_of_lt hlt)]

/-- A request that is refused changes nothing, since the key has a count already. -/
theorem Inv.tryAcquire_of_le (h : g.Inv) (hle : g.limiter.maxPerKey ≤ g.permits.count apiKey) :
    ∃ err, g.limiter.tryAcquire apiKey = (.error err, g.limiter) := by
  have hne : g.permits.count apiKey ≠ 0 := Nat.one_le_iff_ne_zero.mp (Nat.le_trans h.one_le hle)
  have hcounts : g.limiter.counts apiKey = some (g.permits.count apiKey) := by
    rw [h.counts_eq, if_neg hne]
  simp only [tryAcquire, hcounts, Option.getD_some]
  rw [if_pos hle, ← hcounts, Function.update_eq_self]
  exact ⟨_, rfl⟩

theorem inv_step (h : g.Inv) (event : Event) : (g.step event).Inv := by
  obtain ⟨hone, hcounts, hle⟩ := h
  cases event with
  | acquire apiKey =>
    rcases Nat.lt_or_ge (g.permits.count apiKey) g.limiter.maxPerKey with hlt | hge
    · rw [step, Inv.tryAcquire_of_lt ⟨hone, hcounts, hle⟩ hlt]
      refine ⟨hone, fun key => ?_, fun key => ?_⟩ <;> dsimp only
      · by_cases hkey : key = apiKey
        · subst hkey
          rw [Function.update_self, List.count_cons_self, if_neg (Nat.succ_ne_zero _)]
        · rw [Function.update_of_ne hkey, List.count_cons_of_ne (Ne.symm hkey)]
          exact hcounts key
      · by_cases hkey : key = apiKey
        · subst hkey
          rw [List.count_cons_self]
          exact hlt
        · rw [List.count_cons_of_ne (Ne.symm hkey)]
          exact hle key
    · obtain ⟨err, herr⟩ := Inv.tryAcquire_of_le ⟨hone, hcounts, hle⟩ hge
      rw [step, herr]
      exact ⟨hone, hcounts, hle⟩
  | drop position =>
    rw [step]
    rcases hget : g.permits[position]? with - | apiKey
    · exact ⟨hone, hcounts, hle⟩
    · -- the counts of the permits before, with the one that is dropped
      obtain ⟨hlt, rfl⟩ := List.getElem?_eq_some_iff.mp hget
      have hcount := fun key =>
        (List.getElem_cons_eraseIdx_perm hlt).count_eq key
      set apiKey := g.permits[position]
      set rest := g.permits.eraseIdx position
      have hself : g.permits.count apiKey = rest.count apiKey + 1 := by
        rw [← hcount, List.count_cons_self]
      have hother : ∀ key, key ≠ apiKey → g.permits.count key = rest.count key := fun key hkey => by
        rw [← hcount, List.count_cons_of_ne (Ne.symm hkey)]
      have hentry : g.limiter.counts apiKey = some (rest.count apiKey + 1) := by
        rw [hcounts, hself, if_neg (Nat.succ_ne_zero _)]
      refine ⟨?_, fun key => ?_, fun key => ?_⟩
      all_goals
        simp only [dropPermit, hentry, Nat.add_sub_cancel]
      · split <;> exact hone
      · by_cases hkey : key = apiKey
        · subst hkey
          split <;> simp
        · rw [← hother key hkey, ← hcounts key]
          split <;> exact Function.update_of_ne hkey _ _
      · have hbound : rest.count key ≤ g.limiter.maxPerKey :=
          Nat.le_trans ((List.eraseIdx_sublist _ _).count_le key) (hle key)
        split <;> exact hbound

theorem inv_run (maxPerKey : ℕ) (events : List Event) : (run maxPerKey events).Inv := by
  induction events using List.reverseRecOn with
  | nil => exact ⟨Nat.le_max_right _ _, fun _ => rfl, fun _ => Nat.zero_le _⟩
  | append_singleton events event ih =>
    rw [run, List.foldl_append]
    exact inv_step ih event

theorem maxPerKey_step (g : Guarded) (event : Event) :
    (g.step event).limiter.maxPerKey = g.limiter.maxPerKey := by
  cases event with
  | acquire apiKey =>
    by_cases hfull : (g.limiter.counts apiKey).getD 0 ≥ g.limiter.maxPerKey
    · simp [step, tryAcquire, if_pos hfull]
    · simp [step, tryAcquire, if_neg hfull]
  | drop position =>
    rw [step]
    split
    · rfl
    · simp only [dropPermit]
      split
      · rfl
      · split <;> rfl

theorem maxPerKey_run (maxPerKey : ℕ) (events : List Event) :
    (run maxPerKey events).limiter.maxPerKey = max maxPerKey 1 := by
  induction events using List.reverseRecOn with
  | nil => rfl
  | append_singleton events event ih =>
    rw [run, List.foldl_append, ← ih]
    exact maxPerKey_step _ event

/-- **The counts are exact** in any order of requests and ends: a key has as many simulations in
flight as it has permits, never more than the limit, and it has a count only as long as it has a
permit. A request is refused just when the key has all of its permits. -/
theorem permits_exact (maxPerKey : ℕ) (events : List Event) (apiKey : String) :
    let g := run maxPerKey events
    g.limiter.inFlight apiKey = g.permits.count apiKey ∧
      g.permits.count apiKey ≤ max maxPerKey 1 ∧
      ((g.limiter.counts apiKey).isSome ↔ apiKey ∈ g.permits) ∧
      ((g.limiter.tryAcquire apiKey).1 = .ok () ↔ g.permits.count apiKey < max maxPerKey 1) := by
  intro g
  have hinv := inv_run maxPerKey events
  have hmax := maxPerKey_run maxPerKey events
  refine ⟨hinv.inFlight_eq apiKey, hmax ▸ hinv.count_le apiKey, ?_, ?_⟩
  · rw [hinv.counts_eq, ← List.count_pos_iff]
    split
    case isTrue hzero => simp [g, hzero]
    case isFalse hne => simp [g, Nat.pos_of_ne_zero hne]
  · rw [← hmax]
    constructor
    · intro hok
      by_contra hge
      obtain ⟨err, herr⟩ := hinv.tryAcquire_of_le (Nat.le_of_not_lt hge)
      rw [herr] at hok
      cases hok
    · intro hlt
      rw [hinv.tryAcquire_of_lt hlt]

end Guarded

end Core.SimulationService
