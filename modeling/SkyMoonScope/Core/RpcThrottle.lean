import SkyMoonScope.Lib.Machine
import SkyMoonScope.Lib.Text
import Mathlib.Logic.Function.Basic
import Mathlib.Algebra.Ring.Nat

/-!
# The RPC throttle

`rpc_throttle.rs` holds requests back while a provider asks for it. An observation of a response
computes a deadline and then takes the lock to store it; a wait takes the lock, reads the deadline,
and sleeps until then. Any number of tasks do so on one throttle, and the lock orders what they
store and read, not what happens between. A task that sleeps does not look at the deadline again.

## Main definitions

* `retryDelay`: the delay that the headers of a response ask for
* `Throttle`, `Throttle.next`: the throttle, the clock and the tasks, step by step
* `Throttle.Respects`: the step releases no task before a deadline that was observed, and does not
  panic
* `Throttle.Orderly`: the step computes a deadline that can be represented, or stores one that
  neither lowers a deadline still to come nor is later than what a sleeping task waits for

## Main results

* `Throttle.respects_of_orderly`: while every step is orderly, every step respects the deadlines
* `Throttle.not_respects_of_not_orderly`: after a step that is not, some task may be released early,
  unless the step itself panics
-/

namespace Core.RpcThrottle

open Machine

/-! ## The headers -/

/-- A header map: names, in lower case, with their values. -/
abbrev HeaderMap := List (String × List UInt8)

/-- `HeaderValue::to_str`: only visible ASCII characters, blanks and tabs are text. -/
def toStr (value : List UInt8) : Option (List Char) :=
  if value.all fun b => (32 ≤ b && b < 127) || b = 9 then
    some (value.map fun b => Char.ofNat b.toNat)
  else none

/-- `Duration::from_secs`, in nanoseconds. -/
def fromSecs (seconds : ℕ) : ℕ :=
  seconds * 1000000000

/-- The number of seconds in a header, if it is there and is one. -/
def seconds (headers : HeaderMap) (name : String) : Option ℕ :=
  (headers.lookup name).bind fun value =>
    (toStr value).bind fun s => Text.parseUnsigned (2 ^ 64) (Text.trim s)

/-- The delay that the headers ask for at a system time, in nanoseconds from the epoch. A clock
before the epoch tells nothing. -/
def retryDelay (headers : HeaderMap) (now : ℤ) : Option ℕ :=
  match seconds headers "retry-after" with
  | some seconds => some (fromSecs seconds)
  | none =>
    (seconds headers "x-ratelimit-reset").bind fun reset =>
      if now < 0 then none else some (fromSecs (reset - now.toNat / 1000000000))

/-! ## The throttle -/

/-- Where a task is. -/
inductive Task
  | idle
  /-- `wait` is called and has not got the lock yet -/
  | waiting
  /-- `wait` has read the deadline and sleeps until it -/
  | sleeping (deadline : ℕ)
  /-- `observe` has computed the deadline and has not got the lock yet -/
  | observing (deadline : ℕ)
  | panicked
deriving DecidableEq

/-- The throttle, the monotonic clock and the tasks. The deadlines stored so far are kept for the
specification only. -/
structure Throttle (ι : Type*) where
  now : ℕ
  blockedUntil : Option ℕ
  tasks : ι → Task
  observed : List ℕ

/-- A step of a task, or of the clock. -/
inductive Event (ι : Type*)
  | tick (d : ℕ)
  | observe (i : ι) (headers : HeaderMap) (systemTime : ℤ)
  | store (i : ι)
  | wait (i : ι)
  | read (i : ι)
  | wake (i : ι)
  /-- the future of the task is dropped -/
  | drop (i : ι)

namespace Throttle

variable {ι : Type*} [DecidableEq ι]

/-- Nothing is observed yet. -/
def new : Throttle ι :=
  { now := 0, blockedUntil := none, tasks := fun _ => .idle, observed := [] }

/-- The task is at `p` from now on. -/
def setTask (s : Throttle ι) (i : ι) (p : Task) : Throttle ι :=
  { s with tasks := Function.update s.tasks i p }

/-- The next step. Adding a delay to the clock panics beyond `maxInstant`, the last instant that
can be represented. -/
def next (maxInstant : ℕ) (s : Throttle ι) : Event ι → Option (Throttle ι)
  | .tick d => some { s with now := s.now + d }
  | .observe i headers systemTime =>
    match s.tasks i, retryDelay headers systemTime with
    | .idle, none => some s
    | .idle, some delay =>
      if s.now + delay ≤ maxInstant then some (s.setTask i (.observing (s.now + delay)))
      else some (s.setTask i .panicked)
    | _, _ => none
  | .store i =>
    match s.tasks i with
    | .observing deadline =>
      some { s.setTask i .idle with
        blockedUntil := some deadline, observed := deadline :: s.observed }
    | _ => none
  | .wait i => if s.tasks i = .idle then some (s.setTask i .waiting) else none
  | .read i =>
    if s.tasks i = .waiting then
      match s.blockedUntil with
      | none => some (s.setTask i .idle)
      | some deadline => some (s.setTask i (.sleeping deadline))
    else none
  | .wake i =>
    match s.tasks i with
    | .sleeping deadline => if deadline ≤ s.now then some (s.setTask i .idle) else none
    | _ => none
  | .drop i => if s.tasks i = .panicked then none else some (s.setTask i .idle)

/-- The step releases a task from `wait`. -/
def Releases (s : Throttle ι) : Event ι → Prop
  | .read _ => s.blockedUntil = none
  | .wake _ => True
  | _ => False

/-- A released task is not released before a deadline observed before, and no task panics. -/
def Respects (s : Throttle ι) (e : Event ι) (t : Throttle ι) : Prop :=
  (s.Releases e → ∀ deadline ∈ s.observed, deadline ≤ s.now) ∧
    ∀ i, t.tasks i = .panicked → s.tasks i = .panicked

/-- The step computes a deadline that can be represented, or stores one that lowers no deadline
still to come, and is no later than what every sleeping task waits for, unless it has passed. -/
def Orderly (maxInstant : ℕ) (s : Throttle ι) : Event ι → Prop
  | .observe _ headers systemTime =>
    ∀ delay ∈ retryDelay headers systemTime, s.now + delay ≤ maxInstant
  | .store i => ∀ deadline, s.tasks i = .observing deadline →
      (∀ pending ∈ s.blockedUntil, pending ≤ max deadline s.now) ∧
        ∀ j target, s.tasks j = .sleeping target → deadline ≤ max target s.now
  | _ => True

/-! ## What a step can do -/

/-- The effect of a step, case by case. -/
inductive Step (maxInstant : ℕ) (s : Throttle ι) : Event ι → Throttle ι → Prop
  | tick (d : ℕ) : Step maxInstant s (.tick d) { s with now := s.now + d }
  | observeNone {i : ι} {headers : HeaderMap} {systemTime : ℤ} (hi : s.tasks i = .idle)
      (hdelay : retryDelay headers systemTime = none) :
      Step maxInstant s (.observe i headers systemTime) s
  | observe {i : ι} {headers : HeaderMap} {systemTime : ℤ} {delay : ℕ} (hi : s.tasks i = .idle)
      (hdelay : retryDelay headers systemTime = some delay) (hle : s.now + delay ≤ maxInstant) :
      Step maxInstant s (.observe i headers systemTime) (s.setTask i (.observing (s.now + delay)))
  | observePanic {i : ι} {headers : HeaderMap} {systemTime : ℤ} {delay : ℕ}
      (hi : s.tasks i = .idle) (hdelay : retryDelay headers systemTime = some delay)
      (hlt : maxInstant < s.now + delay) :
      Step maxInstant s (.observe i headers systemTime) (s.setTask i .panicked)
  | store {i : ι} {deadline : ℕ} (hi : s.tasks i = .observing deadline) :
      Step maxInstant s (.store i)
        { s.setTask i .idle with
          blockedUntil := some deadline, observed := deadline :: s.observed }
  | wait {i : ι} (hi : s.tasks i = .idle) : Step maxInstant s (.wait i) (s.setTask i .waiting)
  | readNone {i : ι} (hi : s.tasks i = .waiting) (hnone : s.blockedUntil = none) :
      Step maxInstant s (.read i) (s.setTask i .idle)
  | read {i : ι} {deadline : ℕ} (hi : s.tasks i = .waiting)
      (hsome : s.blockedUntil = some deadline) :
      Step maxInstant s (.read i) (s.setTask i (.sleeping deadline))
  | wake {i : ι} {deadline : ℕ} (hi : s.tasks i = .sleeping deadline) (hle : deadline ≤ s.now) :
      Step maxInstant s (.wake i) (s.setTask i .idle)
  | drop {i : ι} (hi : s.tasks i ≠ .panicked) : Step maxInstant s (.drop i) (s.setTask i .idle)

variable {maxInstant : ℕ} {s t : Throttle ι} {e : Event ι} {es : List (Event ι)}

/-- **The cases of a step.** -/
theorem step_of_next (h : s.next maxInstant e = some t) : Step maxInstant s e t := by
  cases e with
  | tick d =>
    cases h
    exact .tick d
  | observe i headers systemTime =>
    simp only [next] at h
    split at h
    case h_1 hi hdelay =>
      cases h
      exact .observeNone hi hdelay
    case h_2 delay hi hdelay =>
      split at h
      case isTrue hle =>
        cases h
        exact .observe hi hdelay hle
      case isFalse hlt =>
        cases h
        exact .observePanic hi hdelay (by omega)
    case h_3 => cases h
  | store i =>
    simp only [next] at h
    split at h
    case h_1 deadline hi =>
      cases h
      exact .store hi
    case h_2 => cases h
  | wait i =>
    obtain ⟨hi, rfl⟩ : s.tasks i = .idle ∧ _ = t := by simpa [next] using h
    exact .wait hi
  | read i =>
    simp only [next] at h
    split at h
    case isTrue hi =>
      split at h
      case h_1 hnone =>
        cases h
        exact .readNone hi hnone
      case h_2 deadline hsome =>
        cases h
        exact .read hi hsome
    case isFalse => cases h
  | wake i =>
    simp only [next] at h
    split at h
    case h_1 deadline hi =>
      obtain ⟨hle, rfl⟩ : deadline ≤ s.now ∧ _ = t := by simpa using h
      exact .wake hi hle
    case h_2 => cases h
  | drop i =>
    obtain ⟨hi, rfl⟩ : s.tasks i ≠ .panicked ∧ _ = t := by simpa [next] using h
    exact .drop hi

/-! ## Deadlines are respected -/

/-- Every observed deadline has passed, or the stored deadline is no earlier; and so for what every
sleeping task waits for. -/
structure Covered (s : Throttle ι) : Prop where
  blocked : ∀ deadline ∈ s.observed, deadline ≤ s.now ∨ ∃ pending ∈ s.blockedUntil,
    deadline ≤ pending
  sleeping : ∀ i target, s.tasks i = .sleeping target → ∀ deadline ∈ s.observed,
    deadline ≤ max target s.now

omit [DecidableEq ι] in
theorem covered_new : (new : Throttle ι).Covered where
  blocked := fun _ h => by cases h
  sleeping := fun _ _ h => by cases h

/-- A task that neither stores a deadline nor goes to sleep keeps the deadlines covered. -/
theorem Covered.setTask {i : ι} {p : Task} (hs : s.Covered)
    (hp : ∀ target, p ≠ .sleeping target) :
    (s.setTask i p).Covered where
  blocked := hs.blocked
  sleeping := by
    intro j target hj
    rcases eq_or_ne j i with rfl | hne
    · exact absurd ((Function.update_self ..).symm.trans hj) (hp target)
    · exact hs.sleeping j target ((Function.update_of_ne hne ..).symm.trans hj)

/-- **An orderly step keeps the deadlines covered.** -/
theorem Covered.step (hs : s.Covered) (h : s.next maxInstant e = some t)
    (he : s.Orderly maxInstant e) : t.Covered := by
  cases step_of_next h with
  | tick d =>
    -- time passes for the deadlines and for those that sleep
    refine ⟨fun deadline hmem => ?_, fun i target hi deadline hmem => ?_⟩
    · rcases hs.blocked deadline hmem with hle | hpending
      · exact .inl (hle.trans (Nat.le_add_right _ _))
      · exact .inr hpending
    · have hle := hs.sleeping i target hi deadline hmem
      show deadline ≤ max target (s.now + d)
      omega
  | observeNone => exact hs
  | observe | observePanic | wait | readNone | wake | drop => exact hs.setTask (by simp)
  | @store i deadline hi =>
    obtain ⟨hpending, hsleeping⟩ := he deadline hi
    refine ⟨fun d hd => ?_, fun j target hj d hd => ?_⟩
    · rcases List.mem_cons.mp hd with rfl | hd
      · exact .inr ⟨d, rfl, le_rfl⟩
      · -- what was covered by the deadline before is covered by the new one
        rcases hs.blocked d hd with hle | ⟨pending, hp, hle⟩
        · exact .inl hle
        · have hmax := hpending pending hp
          by_cases hdl : pending ≤ deadline
          · exact .inr ⟨deadline, rfl, hle.trans hdl⟩
          · have hnow : d ≤ s.now := by omega
            exact .inl hnow
    · rcases eq_or_ne j i with rfl | hne
      · cases (Function.update_self ..).symm.trans hj
      · have hj' : s.tasks j = .sleeping target := (Function.update_of_ne hne ..).symm.trans hj
        rcases List.mem_cons.mp hd with rfl | hd
        · exact hsleeping j target hj'
        · exact hs.sleeping j target hj' d hd
  | @read i pending hi hsome =>
    refine ⟨hs.blocked, fun j target hj d hd => ?_⟩
    rcases eq_or_ne j i with rfl | hne
    · -- the task sleeps until the stored deadline
      cases (Function.update_self ..).symm.trans hj
      rcases hs.blocked d hd with hle | ⟨pending', hp, hle⟩
      · exact hle.trans (Nat.le_max_right _ _)
      · obtain rfl : pending = pending' := Option.some.inj (hsome.symm.trans hp)
        exact hle.trans (Nat.le_max_left _ _)
    · exact hs.sleeping j target ((Function.update_of_ne hne ..).symm.trans hj) d hd

/-- Only the computation of a deadline panics. -/
theorem panicked_of_next (h : s.next maxInstant e = some t) (he : s.Orderly maxInstant e) (i : ι)
    (hi : t.tasks i = .panicked) : s.tasks i = .panicked := by
  -- a task that is put elsewhere has not panicked
  have hset : ∀ {j : ι} {p : Task}, p ≠ .panicked → (s.setTask j p).tasks i = .panicked →
      s.tasks i = .panicked := by
    intro j p hp hpan
    rcases eq_or_ne i j with rfl | hne
    · exact absurd ((Function.update_self ..).symm.trans hpan) hp
    · exact (Function.update_of_ne hne ..).symm.trans hpan
  cases step_of_next h with
  | tick | observeNone => exact hi
  | observePanic hidle hdelay hlt =>
    have hle := he _ hdelay
    omega
  | observe | store | wait | readNone | read | wake | drop => exact hset (by simp) hi

/-- In a state whose deadlines are covered, a released task is not early. -/
theorem Covered.releases (hs : s.Covered) (h : s.next maxInstant e = some t)
    (he : s.Releases e) : ∀ deadline ∈ s.observed, deadline ≤ s.now := by
  intro deadline hmem
  cases step_of_next h with
  | readNone hi hnone =>
    rcases hs.blocked deadline hmem with hle | ⟨pending, hp, -⟩
    · exact hle
    · simp [hnone] at hp
  | wake hi hle =>
    have hmax := hs.sleeping _ _ hi deadline hmem
    omega
  | read hi hsome => cases hsome.symm.trans he
  | _ => exact absurd he id

/-- A step, and a step that is orderly. -/
def Next (maxInstant : ℕ) (s : Throttle ι) (e : Event ι) (t : Throttle ι) : Prop :=
  s.next maxInstant e = some t

def OrderlyNext (maxInstant : ℕ) (s : Throttle ι) (e : Event ι) (t : Throttle ι) : Prop :=
  Next maxInstant s e t ∧ s.Orderly maxInstant e

/-- **Deadlines are respected** by every step of a run whose steps are orderly. -/
theorem respects_of_orderly (h : Run (OrderlyNext maxInstant) new es s)
    (hstep : OrderlyNext maxInstant s e t) : s.Respects e t := by
  have hs : s.Covered := by
    apply h.invariant (I := Covered)
    · rintro s e t hs ⟨hnext, he⟩
      exact hs.step hnext he
    · exact covered_new
  exact ⟨hs.releases hstep.1, panicked_of_next hstep.1 hstep.2⟩

/-- The headers of a response that asks to retry after some seconds. -/
def retryAfter (value : String) : HeaderMap :=
  [("retry-after", value.toUTF8.toList)]

/-- The last instant of a clock that counts its seconds in an `i64`. -/
def unixMaxInstant : ℕ :=
  fromSecs (2 ^ 63 - 1) + 999999999

/-- A response asks for a delay, and a task waits for it. -/
def delayed (value : String) (delay : ℕ) : List (Event ℕ) :=
  [.observe 0 (retryAfter value) 0, .store 0, .wait 0, .read 0, .tick delay]

/-- The task waits for the second that the response has asked for, and is released after it. -/
theorem respects_of_orderly_second :
    ∃ s t : Throttle ℕ, Run (OrderlyNext unixMaxInstant) new (delayed "1" 1000000000) s ∧
      OrderlyNext unixMaxInstant s (.wake 0) t ∧ s.Respects (.wake 0) t := by
  -- the run is the same for every delay that can be represented
  have hruns : ∀ delay, retryDelay (retryAfter "1") 0 = some delay → 0 + delay ≤ unixMaxInstant →
      ∃ s t : Throttle ℕ, Run (OrderlyNext unixMaxInstant) new (delayed "1" delay) s ∧
        OrderlyNext unixMaxInstant s (.wake 0) t := by
    intro delay hdelay hle
    have hobserve : (new : Throttle ℕ).next unixMaxInstant (.observe 0 (retryAfter "1") 0) =
        some (new.setTask 0 (.observing (0 + delay))) := by
      simp only [next, hdelay, new]
      exact if_pos hle
    have hobserve' : (new : Throttle ℕ).Orderly unixMaxInstant
        (.observe 0 (retryAfter "1") 0) := by
      intro d hd
      obtain rfl : delay = d := Option.some.inj (hdelay.symm.trans hd)
      exact hle
    -- no other task sleeps when the deadline is stored
    have hstore : ((new : Throttle ℕ).setTask 0 (.observing (0 + delay))).Orderly unixMaxInstant
        (.store 0) := by
      refine fun deadline _ => ⟨fun _ h => (by cases h), fun j target hj => ?_⟩
      rcases eq_or_ne j 0 with rfl | hne
      · cases hj
      · cases (Function.update_of_ne hne ..).symm.trans hj
    exact ⟨_, _, .cons ⟨hobserve, hobserve'⟩ <| .cons ⟨rfl, hstore⟩ <| .cons ⟨rfl, trivial⟩ <|
      .cons ⟨rfl, trivial⟩ <| .single ⟨rfl, trivial⟩, if_pos le_rfl, trivial⟩
  have hdelay : retryDelay (retryAfter "1") 0 = some 1000000000 := by decide +kernel
  obtain ⟨s, t, hrun, hstep⟩ := hruns _ hdelay (by decide +kernel)
  exact ⟨s, t, hrun, hstep, respects_of_orderly hrun hstep⟩

/-- The deadline of the first response, ten seconds away, is replaced by that of a second one. -/
def replaced : List (Event ℕ) :=
  [.observe 0 (retryAfter "10") 0, .store 0, .observe 1 (retryAfter "1") 0, .store 1, .wait 0,
    .read 0, .tick 1000000000]

/-- **A deadline is not respected**: the task is released nine seconds before the first deadline. -/
theorem not_respects :
    ¬ ∀ (maxInstant : ℕ) (es : List (Event ℕ)) (e : Event ℕ) (s t : Throttle ℕ),
      Run (Next maxInstant) new es s → Next maxInstant s e t → s.Respects e t := by
  intro h
  have hexec : (exec (next unixMaxInstant) new replaced).any (fun s =>
      decide (s.tasks 0 = .sleeping 1000000000 ∧ s.now = 1000000000 ∧
        10000000000 ∈ s.observed)) = true := by
    decide +kernel
  obtain ⟨s, hrun, hs⟩ := exists_run_of_exec hexec
  obtain ⟨htask, hnow, hmem⟩ := of_decide_eq_true hs
  have hwake : s.next unixMaxInstant (.wake 0) = some (s.setTask 0 .idle) := by
    simp [next, htask, hnow]
  have hle := (h unixMaxInstant replaced (.wake 0) s _ hrun hwake).1 trivial _ hmem
  omega

/-- The stored deadline has been observed. -/
theorem mem_observed_of_run (h : Run (Next maxInstant) new es s) :
    ∀ pending ∈ s.blockedUntil, pending ∈ s.observed := by
  apply h.invariant (I := fun s => ∀ pending ∈ s.blockedUntil, pending ∈ s.observed)
  · intro s e t hs hnext
    cases step_of_next hnext with
    | store hi =>
      rintro pending ⟨⟩
      exact List.mem_cons_self
    | _ => exact hs
  · rintro pending ⟨⟩

/-- Some task may be released before an observed deadline. -/
def MayRelease (maxInstant : ℕ) (s : Throttle ι) : Prop :=
  ∃ es u e v, Run (Next maxInstant) s es u ∧ Next maxInstant u e v ∧ ¬ u.Respects e v

/-- A task that sleeps until before an observed deadline may be released there. -/
theorem mayRelease_of_sleeping {i : ι} {target deadline : ℕ} (hi : s.tasks i = .sleeping target)
    (hmem : deadline ∈ s.observed) (hlt : max target s.now < deadline) :
    s.MayRelease maxInstant := by
  let u : Throttle ι := { s with now := s.now + (target - s.now) }
  have hwake : u.next maxInstant (.wake i) = some (u.setTask i .idle) := by
    have hle : target ≤ s.now + (target - s.now) := by omega
    simp [next, u, hi, hle]
  refine ⟨[.tick (target - s.now)], u, .wake i, _, .single rfl, hwake, fun hrespects => ?_⟩
  have hle : deadline ≤ s.now + (target - s.now) := hrespects.1 trivial deadline hmem
  omega

/-- A task that starts to wait may be released too early when the stored deadline is before another
observed one. -/
theorem mayRelease_of_idle {i : ι} {pending deadline : ℕ} (hi : s.tasks i = .idle)
    (hpending : s.blockedUntil = some pending) (hmem : deadline ∈ s.observed)
    (hlt : max pending s.now < deadline) : s.MayRelease maxInstant := by
  have hwait : s.next maxInstant (.wait i) = some (s.setTask i .waiting) := if_pos hi
  have hread : (s.setTask i .waiting).next maxInstant (.read i) =
      some ((s.setTask i .waiting).setTask i (.sleeping pending)) := by
    simp [next, setTask, hpending]
  have hsleeping : ((s.setTask i .waiting).setTask i (.sleeping pending)).MayRelease maxInstant :=
    mayRelease_of_sleeping (Function.update_self ..) hmem hlt
  obtain ⟨es, u, e, v, hrun, hnext, hrespects⟩ := hsleeping
  exact ⟨_, u, e, v, .cons hwait (.cons hread hrun), hnext, hrespects⟩

/-- **The condition is exact**: a step that is not orderly panics, or some task may be released
before an observed deadline after it. -/
theorem not_respects_of_not_orderly (h : Run (Next maxInstant) new es s)
    (hstep : Next maxInstant s e t) (he : ¬ s.Orderly maxInstant e) :
    ¬ s.Respects e t ∨ t.MayRelease maxInstant := by
  cases step_of_next hstep with
  | observeNone hi hdelay => exact absurd (by simp [Orderly, hdelay]) he
  | observe hi hdelay hle => exact absurd (by simpa [Orderly, hdelay] using hle) he
  | observePanic hi hdelay hlt =>
    refine .inl fun hrespects => ?_
    cases hi.symm.trans (hrespects.2 _ (Function.update_self ..))
  | @store i deadline hi =>
    have hlate : (∃ pending ∈ s.blockedUntil, max deadline s.now < pending) ∨
        ∃ j target, s.tasks j = .sleeping target ∧ max target s.now < deadline := by
      by_contra hnone
      push Not at hnone
      refine he fun d hd => ?_
      obtain rfl : deadline = d := Task.observing.inj (hi.symm.trans hd)
      exact hnone
    rcases hlate with ⟨pending, hpending, hlt⟩ | ⟨j, target, hj, hlt⟩
    · -- the task itself may wait next, for the new deadline only
      refine .inr (mayRelease_of_idle (i := i) (Function.update_self ..) rfl ?_ hlt)
      exact List.mem_cons_of_mem _ (mem_observed_of_run h pending hpending)
    · -- the task that sleeps may wake before the new deadline
      have hne : j ≠ i := by
        rintro rfl
        cases hi.symm.trans hj
      exact .inr (mayRelease_of_sleeping ((Function.update_of_ne hne ..).trans hj)
        List.mem_cons_self hlt)
  | tick | wait | readNone | read | wake | drop => exact absurd trivial he

end Throttle

end Core.RpcThrottle
