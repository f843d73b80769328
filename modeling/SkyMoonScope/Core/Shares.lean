import SkyMoonScope.Lib.Machine
import SkyMoonScope.Lib.Lease
import Mathlib.Algebra.Ring.Nat
import Mathlib.Logic.Function.Basic

/-!
# The rate limit of share creation

Every IP has a counter in a cache. A call looks the counter up and counts on it, or, when there is
none, inserts a new one; a counter whose window is over starts again at one. Lookup and insertion
are operations of their own, and entries leave the cache, so that a new window may start while calls
of the last one still matter.

## Main definitions

* `RateLimitEntry`: a counter with the start of its window
* `State`, `State.next`: the cache, the entries that calls hold, and the progress of every call
* `State.Limited`: at most ten calls for an IP succeed within any window
* `State.Counted`: an operation does not start or use a counter that misses a recent success

## Main results

* `Inv.of_succeeded_cons`: a success keeps the limit, if its counter has counted all recent ones
* `limited_of_counted`: the limit holds along every run whose operations are counted
-/

namespace Core.Shares

open Machine Function

def rateLimitWindowSecs : ℕ := 60

def rateLimitMaxCreates : ℕ := 10

/-- The window, in nanoseconds. -/
def window : ℕ := rateLimitWindowSecs * 10 ^ 9

/-- How long an entry stays in the cache. -/
def timeToLive : ℕ := 2 * window

inductive AppError
  | tooManyRequests (message : String)
deriving DecidableEq

def rateLimitExceeded : AppError :=
  .tooManyRequests s!"Rate limit exceeded: max {rateLimitMaxCreates} share creations per {
    rateLimitWindowSecs} seconds"

/-! ## The counters -/

/-- A counter of 32 bits, and the start of its window. -/
structure RateLimitEntry where
  count : ℕ
  windowStart : ℕ

def RateLimitEntry.new (now : ℕ) : RateLimitEntry := ⟨1, now⟩

/-- Count a call on an entry, which its lock keeps to itself. The clock is read again when the
window starts again. -/
def RateLimitEntry.check (entry : RateLimitEntry) (now later : ℕ) :
    Except AppError Unit × RateLimitEntry :=
  if window ≤ now - entry.windowStart then (.ok (), ⟨1, later⟩)
  else
    let counted := { entry with count := (entry.count + 1) % 2 ^ 32 }
    if rateLimitMaxCreates ≤ entry.count then (.error rateLimitExceeded, counted)
    else (.ok (), counted)

/-- An entry in the cache, by its number among those of its IP. -/
structure CachedEntry where
  entry : ℕ
  insertedAt : ℕ

/-- How far a call is: not started, with the entry it looked up or none, or done. -/
inductive Call
  | idle
  | found (ip : String) (entry : ℕ)
  | missing (ip : String) (since : ℕ)
  | done (result : Except AppError Unit)

/-- A call for an IP that succeeded, with the entry it was counted on. -/
structure Success where
  ip : String
  time : ℕ
  entry : ℕ

/-- The entries of each IP are numbered in the order of their creation. One that has left the cache
may still be held by a call. -/
structure State where
  clock : ℕ
  rateCache : String → Option CachedEntry
  entries : String → ℕ → RateLimitEntry
  created : String → ℕ
  calls : ℕ → Call
  succeeded : List Success

inductive Operation
  | get (call : ℕ) (ip : String) (now : ℕ)
  | check (call : ℕ) (now later : ℕ)
  | insert (call : ℕ) (created now : ℕ)
  | evict (ip : String)

namespace State

def start : State where
  clock := 0
  rateCache := fun _ => none
  entries := fun _ _ => ⟨0, 0⟩
  created := fun _ => 0
  calls := fun _ => .idle
  succeeded := []

/-- Replace an entry. -/
def setEntry (s : State) (ip : String) (entry : ℕ) (e : RateLimitEntry) : State :=
  { s with entries := update s.entries ip (update (s.entries ip) entry e) }

/-- A call is done; if it succeeded, it is recorded. -/
def finish (s : State) (call : ℕ) (ip : String) (entry now : ℕ) (result : Except AppError Unit) :
    State :=
  { s with
    calls := update s.calls call (.done result)
    succeeded := match result with
      | .ok () => ⟨ip, now, entry⟩ :: s.succeeded
      | .error _ => s.succeeded }

/-- The lookup of the cache, where an entry is gone after its time to live. -/
def lookup (s : State) (ip : String) (now : ℕ) : Option ℕ :=
  match s.rateCache ip with
  | some cached => if now < cached.insertedAt + timeToLive then some cached.entry else none
  | none => none

/-- One operation of a call, or the eviction of an entry when the cache is full. -/
def next (s : State) : Operation → Option State
  | .get call ip now =>
    match s.calls call with
    | .idle =>
      if s.clock ≤ now then
        let found := match s.lookup ip now with
          | some entry => Call.found ip entry
          | none => .missing ip now
        some { s with clock := now, calls := update s.calls call found }
      else none
    | _ => none
  | .check call now later =>
    match s.calls call with
    | .found ip entry =>
      if s.clock ≤ now ∧ now ≤ later then
        let (result, e) := (s.entries ip entry).check now later
        some ({ s with clock := later }.setEntry ip entry e |>.finish call ip entry later result)
      else none
    | _ => none
  | .insert call created now =>
    match s.calls call with
    | .missing ip since =>
      if s.clock ≤ now ∧ since ≤ created ∧ created ≤ now then
        let entry := s.created ip
        let s := { s with
          clock := now
          rateCache := update s.rateCache ip (some ⟨entry, now⟩)
          created := update s.created ip (entry + 1) }
        some (s.setEntry ip entry (.new created) |>.finish call ip entry now (.ok ()))
      else none
    | _ => none
  | .evict ip => some { s with rateCache := update s.rateCache ip none }

def Step (s : State) (op : Operation) (t : State) : Prop := s.next op = some t

/-- When the calls for an IP succeeded. -/
def times (s : State) (ip : String) : List ℕ :=
  (s.succeeded.filter fun p => p.ip = ip).map (·.time)

/-- At most ten calls for an IP succeed within any window. -/
def Limited (s : State) : Prop :=
  ∀ ip, Window.Limited window rateLimitMaxCreates (s.times ip)

/-- A call does not start a counter while another success of its IP is recent, nor use one that has
not counted all of them; and the counter does not overflow. -/
def Counted (s : State) (op : Operation) : Prop :=
  match op with
  | .insert call _ now =>
    match s.calls call with
    | .missing ip _ => ∀ p ∈ s.succeeded, p.ip = ip → p.time + window ≤ now
    | _ => True
  | .check call now later =>
    match s.calls call with
    | .found ip entry =>
      if window ≤ now - (s.entries ip entry).windowStart then
        ∀ p ∈ s.succeeded, p.ip = ip → p.time + window ≤ later
      else
        (s.entries ip entry).count + 1 < 2 ^ 32 ∧
          ((s.entries ip entry).count < rateLimitMaxCreates →
            ∀ p ∈ s.succeeded, p.ip = ip → later < p.time + window → p.entry = entry)
    | _ => True
  | _ => True

/-! ## Counting -/

/-- The recent successes for an IP that an entry counted. -/
def countedBy (s : State) (ip : String) (entry now : ℕ) : List ℕ :=
  Window.recent window now
    ((s.succeeded.filter fun p => p.ip = ip ∧ p.entry = entry).map (·.time))

/-- The entries that are in the cache, held by a call, or counted a success, exist. -/
structure Known (s : State) : Prop where
  cached : ∀ ip cached, s.rateCache ip = some cached → cached.entry < s.created ip
  found : ∀ call ip entry, s.calls call = .found ip entry → entry < s.created ip
  succeeded : ∀ p ∈ s.succeeded, p.entry < s.created p.ip

/-- Every entry has counted the recent successes made with it. -/
structure Inv (s : State) : Prop extends Known s where
  counted : ∀ ip entry, (s.countedBy ip entry s.clock).length ≤ (s.entries ip entry).count
  limited : s.Limited

theorem known_start : start.Known where
  cached := by simp [start]
  found := by simp [start]
  succeeded := by simp [start]

theorem limited_start : start.Limited := by
  intro ip
  rw [times, start, List.filter_nil, List.map_nil]
  exact Window.limited_nil

theorem counted_start (ip : String) (entry : ℕ) :
    (start.countedBy ip entry start.clock).length ≤ (start.entries ip entry).count := by
  simp [countedBy, start, Window.recent]

theorem inv_start : start.Inv := ⟨known_start, counted_start, limited_start⟩

variable {s t : State}

/-- An operation by which no call succeeds keeps the limit, if no counter goes down. -/
theorem Inv.of_succeeded_eq (h : s.Inv) (hknown : t.Known) (hclock : s.clock ≤ t.clock)
    (hcount : ∀ ip entry, (s.entries ip entry).count ≤ (t.entries ip entry).count)
    (hsucceeded : t.succeeded = s.succeeded) : t.Inv where
  toKnown := hknown
  counted := by
    intro ip entry
    rw [countedBy, hsucceeded]
    exact ((Window.length_recent_le hclock).trans (h.counted ip entry)).trans (hcount ip entry)
  limited := by
    intro ip
    rw [times, hsucceeded]
    exact h.limited ip

/-- The recent successes for an IP are those that an entry counted, if it counted all of them. -/
theorem length_recent_times_le {ip : String} {entry now : ℕ}
    (hall : ∀ p ∈ s.succeeded, p.ip = ip → now < p.time + window → p.entry = entry) :
    (Window.recent window now (s.times ip)).length ≤ (s.countedBy ip entry now).length := by
  refine Window.length_recent_map_le ?_
  intro p hp hip hrecent
  simp only [decide_eq_true_eq] at hip ⊢
  exact ⟨hip, hall p hp hip hrecent⟩

theorem countedBy_eq_nil {ip : String} {entry now : ℕ}
    (h : ∀ p ∈ s.succeeded, p.ip = ip → p.time + window ≤ now) : s.countedBy ip entry now = [] := by
  refine Window.recent_eq_nil ?_
  intro time htime
  obtain ⟨p, hp, rfl⟩ := List.mem_map.mp htime
  obtain ⟨hp, hip⟩ := List.mem_filter.mp hp
  simp only [decide_eq_true_eq] at hip
  exact h p hp hip.1

/-- A call that succeeds keeps the limit, if its entry has counted all recent successes for its IP,
and not too many. -/
theorem Inv.of_succeeded_cons (h : s.Inv) (hknown : t.Known) (hclock : s.clock ≤ t.clock)
    {ip : String} {entry : ℕ} (hsucceeded : t.succeeded = ⟨ip, t.clock, entry⟩ :: s.succeeded)
    (hentries : ∀ ip' entry', (ip', entry') ≠ (ip, entry) →
      t.entries ip' entry' = s.entries ip' entry')
    (hall : ∀ p ∈ s.succeeded, p.ip = ip → t.clock < p.time + window → p.entry = entry)
    (hcount : (s.countedBy ip entry t.clock).length + 1 ≤ (t.entries ip entry).count)
    (hmax : (t.entries ip entry).count ≤ rateLimitMaxCreates) : t.Inv where
  toKnown := hknown
  counted := by
    intro ip' entry'
    by_cases heq : (ip', entry') = (ip, entry)
    · obtain ⟨rfl, rfl⟩ := Prod.mk.inj heq
      rw [countedBy, hsucceeded, List.filter_cons_of_pos (by simp), List.map_cons]
      exact (Window.length_recent_cons_le _).trans hcount
    · have hne : ¬ (ip = ip' ∧ entry = entry') := by
        rintro ⟨rfl, rfl⟩
        exact heq rfl
      rw [countedBy, hsucceeded, List.filter_cons_of_neg (by simpa using hne),
        hentries ip' entry' heq]
      exact (Window.length_recent_le hclock).trans (h.counted ip' entry')
  limited := by
    intro ip'
    rw [times, hsucceeded]
    by_cases hip : ip = ip'
    · subst hip
      rw [List.filter_cons_of_pos (by simp), List.map_cons]
      refine (h.limited ip).cons ?_
      calc (Window.recent window t.clock (s.times ip)).length + 1
          ≤ (s.countedBy ip entry t.clock).length + 1 :=
            Nat.succ_le_succ (length_recent_times_le hall)
        _ ≤ (t.entries ip entry).count := hcount
        _ ≤ rateLimitMaxCreates := hmax
    · rw [List.filter_cons_of_neg (by simpa using hip)]
      exact h.limited ip'

theorem lookup_lt (h : s.Known) {ip : String} {now entry : ℕ}
    (hlookup : s.lookup ip now = some entry) : entry < s.created ip := by
  unfold lookup at hlookup
  split at hlookup
  case h_1 cached hcached =>
    split at hlookup
    · obtain rfl := Option.some.inj hlookup
      exact h.cached ip cached hcached
    · simp at hlookup
  case h_2 => simp at hlookup

/-- Calls that hold an entry that exists. -/
theorem found_update {calls : ℕ → Call} {created : String → ℕ} {call : ℕ} {c : Call}
    (h : ∀ call ip entry, calls call = .found ip entry → entry < created ip)
    (hc : ∀ ip entry, c = .found ip entry → entry < created ip) :
    ∀ call' ip entry, update calls call c call' = .found ip entry → entry < created ip := by
  intro call' ip entry hfound
  by_cases heq : call' = call
  · rw [heq, update_self] at hfound
    exact hc ip entry hfound
  · rw [update_of_ne heq] at hfound
    exact h call' ip entry hfound

theorem inv_get (h : s.Inv) {call now : ℕ} {ip : String} (hstep : s.Step (.get call ip now) t) :
    t.Inv := by
  simp only [Step, next] at hstep
  split at hstep
  case h_2 => simp at hstep
  case h_1 =>
    split at hstep
    case isFalse => simp at hstep
    case isTrue hnow =>
      obtain rfl := Option.some.inj hstep
      refine h.of_succeeded_eq ⟨h.cached, ?_, h.succeeded⟩ hnow (fun _ _ => le_rfl) rfl
      refine found_update h.found ?_
      intro ip' entry hfound
      split at hfound
      case h_1 entry' hlookup =>
        obtain ⟨rfl, rfl⟩ := Call.found.inj hfound
        exact lookup_lt h.toKnown hlookup
      case h_2 => simp at hfound

theorem inv_evict (h : s.Inv) {ip : String} (hstep : s.Step (.evict ip) t) : t.Inv := by
  simp only [Step, next] at hstep
  obtain rfl := Option.some.inj hstep
  refine h.of_succeeded_eq ⟨?_, h.found, h.succeeded⟩ le_rfl (fun _ _ => le_rfl) rfl
  intro ip' cached hcached
  simp only at hcached
  by_cases heq : ip' = ip
  · simp [heq] at hcached
  · rw [update_of_ne heq] at hcached
    exact h.cached ip' cached hcached

/-! ## Operations that may succeed -/

end State

/-- What a check does: the window starts again, or the call is counted, and then succeeds or not. -/
theorem RateLimitEntry.check_cases (e : RateLimitEntry) (now later : ℕ) :
    (window ≤ now - e.windowStart ∧ e.check now later = (.ok (), ⟨1, later⟩)) ∨
    (¬ window ≤ now - e.windowStart ∧
      (e.count < rateLimitMaxCreates ∧
          e.check now later = (.ok (), { e with count := (e.count + 1) % 2 ^ 32 }) ∨
        e.check now later =
          (.error rateLimitExceeded, { e with count := (e.count + 1) % 2 ^ 32 }))) := by
  unfold check
  split_ifs with hwindow hmax
  · exact .inl ⟨hwindow, rfl⟩
  · exact .inr ⟨hwindow, .inr rfl⟩
  · exact .inr ⟨hwindow, .inl ⟨by omega, rfl⟩⟩

namespace State

variable {s t : State}

theorem setEntry_of_ne {ip ip' : String} {entry entry' : ℕ} (e : RateLimitEntry)
    (h : (ip', entry') ≠ (ip, entry)) :
    (s.setEntry ip entry e).entries ip' entry' = s.entries ip' entry' := by
  simp only [setEntry]
  by_cases hip : ip' = ip
  · subst hip
    have hne : entry' ≠ entry := fun heq => h (by rw [heq])
    rw [update_self, update_of_ne hne]
  · rw [update_of_ne hip]

theorem finish_entries (call entry now : ℕ) (ip : String) (result : Except AppError Unit) :
    (s.finish call ip entry now result).entries = s.entries := rfl

theorem setEntry_self (ip : String) (entry : ℕ) (e : RateLimitEntry) :
    (s.setEntry ip entry e).entries ip entry = e := by
  simp only [setEntry, update_self]

/-- A call that is done holds no entry, and has counted on one that exists. -/
theorem Known.finish (h : s.Known) {call entry now : ℕ} {ip : String} {e : RateLimitEntry}
    (hentry : entry < s.created ip) (result : Except AppError Unit) :
    ((s.setEntry ip entry e).finish call ip entry now result).Known where
  cached := h.cached
  found := found_update h.found (by simp)
  succeeded := by
    intro p hp
    cases result with
    | error => exact h.succeeded p hp
    | ok =>
      rcases List.mem_cons.mp hp with rfl | hp
      · exact hentry
      · exact h.succeeded p hp

theorem inv_check (h : s.Inv) {call now later : ℕ} (hstep : s.Step (.check call now later) t)
    (hcounted : s.Counted (.check call now later)) : t.Inv := by
  simp only [Step, next] at hstep
  simp only [Counted] at hcounted
  split at hstep
  case h_2 => simp at hstep
  case h_1 ip entry hcall =>
    rw [hcall] at hcounted
    split at hstep
    case isFalse => simp at hstep
    case isTrue hnow =>
      have hclock : s.clock ≤ later := by omega
      have hknown : ({ s with clock := later } : State).Known := ⟨h.cached, h.found, h.succeeded⟩
      have hentry : entry < s.created ip := h.found call ip entry hcall
      have hold := (Window.length_recent_le hclock).trans (h.counted ip entry)
      rcases (s.entries ip entry).check_cases now later with
        ⟨hwindow, hcheck⟩ | ⟨hwindow, ⟨hlt, hcheck⟩ | hcheck⟩
      · -- the window starts again, and no success is recent
        simp only [hcheck, Option.some.injEq] at hstep
        simp only [if_pos hwindow] at hcounted
        subst hstep
        refine h.of_succeeded_cons (hknown.finish hentry _) hclock rfl
          (fun _ _ => setEntry_of_ne _) ?_ ?_ ?_
        · intro p hp hip hrecent
          exact absurd (hcounted p hp hip) (Nat.not_le.mpr hrecent)
        · rw [finish_entries, setEntry_self]
          exact (congrArg (·.length + 1) (countedBy_eq_nil hcounted)).le
        · rw [finish_entries, setEntry_self]
          exact (by decide : 1 ≤ rateLimitMaxCreates)
      · -- the entry has counted all recent successes
        simp only [hcheck, Option.some.injEq] at hstep
        simp only [if_neg hwindow] at hcounted
        subst hstep
        refine h.of_succeeded_cons (hknown.finish hentry _) hclock rfl
          (fun _ _ => setEntry_of_ne _) (hcounted.2 hlt) ?_ ?_
        · rw [finish_entries, setEntry_self]
          simp only [Nat.mod_eq_of_lt hcounted.1]
          exact Nat.succ_le_succ hold
        · rw [finish_entries, setEntry_self]
          simp only [Nat.mod_eq_of_lt hcounted.1]
          exact hlt
      · -- the call is rejected
        simp only [hcheck, Option.some.injEq] at hstep
        simp only [if_neg hwindow] at hcounted
        subst hstep
        refine h.of_succeeded_eq (hknown.finish hentry _) hclock ?_ rfl
        intro ip' entry'
        rw [finish_entries]
        by_cases heq : (ip', entry') = (ip, entry)
        · obtain ⟨rfl, rfl⟩ := Prod.mk.inj heq
          rw [setEntry_self]
          simp only [Nat.mod_eq_of_lt hcounted.1]
          exact Nat.le_succ _
        · rw [setEntry_of_ne _ heq]

theorem inv_insert (h : s.Inv) {call created now : ℕ} (hstep : s.Step (.insert call created now) t)
    (hcounted : s.Counted (.insert call created now)) : t.Inv := by
  simp only [Step, next] at hstep
  simp only [Counted] at hcounted
  split at hstep
  case h_2 => simp at hstep
  case h_1 ip since hcall =>
    rw [hcall] at hcounted
    split at hstep
    case isFalse => simp at hstep
    case isTrue hnow =>
      obtain rfl := Option.some.inj hstep
      have hgrow : ∀ ip', s.created ip' ≤ update s.created ip (s.created ip + 1) ip' := by
        intro ip'
        by_cases heq : ip' = ip
        · rw [heq, update_self]
          exact Nat.le_succ _
        · rw [update_of_ne heq]
      have hentry : s.created ip < update s.created ip (s.created ip + 1) ip := by
        rw [update_self]
        exact Nat.lt_succ_self _
      have hknown : State.Known { s with
          clock := now
          rateCache := update s.rateCache ip (some ⟨s.created ip, now⟩)
          created := update s.created ip (s.created ip + 1) } := by
        refine ⟨?_, fun call ip' entry hf => (h.found call ip' entry hf).trans_le (hgrow ip'),
          fun p hp => (h.succeeded p hp).trans_le (hgrow p.ip)⟩
        intro ip' cached hcached
        simp only at hcached
        by_cases heq : ip' = ip
        · subst heq
          rw [update_self] at hcached
          obtain rfl := Option.some.inj hcached
          exact hentry
        · rw [update_of_ne heq] at hcached
          exact (h.cached ip' cached hcached).trans_le (hgrow ip')
      refine h.of_succeeded_cons (hknown.finish hentry _) hnow.1 rfl
        (fun _ _ => setEntry_of_ne _) ?_ ?_ ?_
      · intro p hp hip hrecent
        exact absurd (hcounted p hp hip) (Nat.not_le.mpr hrecent)
      · rw [finish_entries, setEntry_self]
        exact (congrArg (·.length + 1) (countedBy_eq_nil hcounted)).le
      · rw [finish_entries, setEntry_self]
        exact (by decide : 1 ≤ rateLimitMaxCreates)

theorem Inv.step {op : Operation} (h : s.Inv) (hstep : s.Step op t ∧ s.Counted op) : t.Inv := by
  cases op with
  | get call ip now => exact inv_get h hstep.1
  | check call now later => exact inv_check h hstep.1 hstep.2
  | insert call created now => exact inv_insert h hstep.1 hstep.2
  | evict ip => exact inv_evict h hstep.1

/-- **The rate limit** holds along every run in which no call starts or uses a counter that misses
a recent success. -/
theorem limited_of_counted (ops : List Operation) (s : State)
    (hrun : Run (fun s op t => s.Step op t ∧ s.Counted op) start ops s) : s.Limited := by
  have hinv : s.Inv := hrun.invariant (fun _ _ _ h hstep => h.step hstep) inv_start
  exact hinv.limited

/-- A second call counts on the entry that the first one has inserted. -/
def twoCalls : List Operation :=
  [.get 0 "a" 0, .insert 0 0 0, .get 1 "a" 5, .check 1 5 5]

theorem limited_of_counted_twoCalls :
    ∃ s, Run (fun s op t => s.Step op t ∧ s.Counted op) start twoCalls s ∧ s.Limited := by
  have hrun : ∃ s, Run (fun s op t => s.Step op t ∧ s.Counted op) start twoCalls s := by
    refine ⟨_, .cons ⟨rfl, trivial⟩ (.cons ⟨rfl, ?_⟩ (.cons ⟨rfl, trivial⟩ (.single ⟨rfl, ?_⟩)))⟩
    · intro p hp
      exact absurd hp (List.not_mem_nil)
    · refine ⟨by decide, fun _ p hp _ _ => ?_⟩
      obtain rfl : p = ⟨"a", 0, 0⟩ := List.mem_singleton.mp hp
      rfl
  obtain ⟨s, hs⟩ := hrun
  exact ⟨s, hs, limited_of_counted twoCalls s hs⟩

/-- Eleven calls find no entry, and then each of them inserts one. -/
def firstRequests : List Operation :=
  ((List.range 11).map fun call => .get call "a" 0) ++
    (List.range 11).map fun call => .insert call 0 0

/-- **The limit is exceeded** by first requests that arrive together: all eleven succeed. -/
theorem not_limited :
    ¬ ∀ (ops : List Operation) (s : State), Run Step start ops s → s.Limited := by
  intro h
  have hexec : (exec next start firstRequests).any
      (fun s => 11 ≤ (Window.inWindow window 0 (s.times "a")).length) = true := by decide
  obtain ⟨s, hrun, hs⟩ := exists_run_of_exec hexec
  have hlimited := h firstRequests s hrun "a" 0
  simp only [decide_eq_true_eq] at hs
  rw [rateLimitMaxCreates] at hlimited
  omega

end State

end Core.Shares
