import SkyMoonScope.Lib.Lease
import SkyMoonScope.Lib.Machine
import Mathlib.Algebra.Ring.Nat
import Mathlib.Logic.Function.Basic
import Mathlib.Logic.Nontrivial.Basic

/-!
# The leader lock

Every instance elects itself by `try_acquire_or_renew`: a compare-and-expire script renews the
lease, `SET NX PX` takes it when it is free. Redis executes a command at one moment, and its reply
reaches the instance at another; the instance then records, for itself, until when it is leader.

## Main definitions

* `RedisLeaderLock`: the token of an instance and the time to live of its lease
* `Pc`, `State`, `State.next`: the calls of all instances, one step of one of them at a time
* `State.granted`: the instance whose call returns `true` in a step
* `State.Exclusive`: no other instance has a recorded deadline that has not passed
* `State.ReplyWithin D`: a successful reply is received at most `D` after its execution

## Main results

* `exclusive_iff`: leadership is exclusive along every run in which replies take at most `D`
  exactly when `D` is zero
* `not_exclusive`: with a reply that takes one millisecond, two instances lead at the same time
-/

set_option linter.unusedSectionVars false

namespace Core.LeaderLock

open Machine

/-- The lock of one instance: its token and the time to live of its lease, in milliseconds. -/
structure RedisLeaderLock (τ : Type*) where
  token : τ
  ttlMs : ℕ
  ttlMs_pos : 0 < ttlMs

/-- The lock an instance creates for a time to live; zero is encoded as one millisecond. -/
def RedisLeaderLock.new {τ : Type*} (token : τ) (ttl : ℕ) : RedisLeaderLock τ where
  token
  ttlMs := max (if ttl < 2 ^ 64 then ttl else 2 ^ 64 - 1) 1
  ttlMs_pos := by omega

/-- The commands `try_acquire_or_renew` sends: the renew script and `SET NX PX`. -/
inductive Command
  | renew
  | set
deriving DecidableEq

/-- How far a call of `try_acquire_or_renew` is. A reply carries the time of the execution. -/
inductive Pc
  | idle
  | checked (expired : Bool)
  | connecting (expired : Bool)
  | waiting (cmd : Command)
  | replied (cmd : Command) (ok : Bool) (executed : ℕ)
deriving DecidableEq

/-- A step of a call. The command in flight is executed, or its reply lost, or received. -/
inductive Action
  | check
  | clear
  | connect (ok : Bool)
  | execute
  | lose
  | receive

/-- A step of a call, the execution of a command that its call gave up, or the passing of time. -/
inductive Event (C : Type*)
  | call (c : C) (a : Action)
  | late (n : ℕ)
  | tick (δ : ℕ)

/-- The instances, and the instance each call is of. -/
structure Deployment (τ I C : Type*) where
  lock : I → RedisLeaderLock τ
  owner : C → I

/-- The key at Redis, the recorded deadlines, the calls, and the commands that were sent and
given up before they were executed. -/
structure State (τ I C : Type*) where
  now : ℕ
  key : Option (Lease τ)
  leaseDeadline : I → Option ℕ
  calls : C → Pc
  abandoned : List (I × Command)

namespace State

variable {τ I C : Type*} [DecidableEq τ] [DecidableEq I] [DecidableEq C]

/-- No lease is held and no call is under way. -/
def start (now : ℕ) : State τ I C :=
  { now, key := none, leaseDeadline := fun _ => none, calls := fun _ => .idle, abandoned := [] }

/-- The effect of a command on the key, and its reply. -/
def run (lock : RedisLeaderLock τ) (key : Option (Lease τ)) (now : ℕ) :
    Command → Option (Lease τ) × Bool
  | .renew => Lease.renew key lock.token lock.ttlMs now
  | .set => Lease.claim key lock.token lock.ttlMs now

/-- The recorded deadline has passed. -/
def expired (s : State τ I C) (i : I) : Bool :=
  (s.leaseDeadline i).any fun deadline => deadline ≤ s.now

def setCall (s : State τ I C) (c : C) (p : Pc) : State τ I C :=
  { s with calls := Function.update s.calls c p }

/-- The deadline is counted from the moment of the call, when the reply is already there. -/
def updateLeaseDeadline (s : State τ I C) (lock : RedisLeaderLock τ) (i : I) : State τ I C :=
  { s with leaseDeadline := Function.update s.leaseDeadline i (some (s.now + lock.ttlMs)) }

/-- `try_acquire_or_renew` of the instance `i`, one step of the call `c`. -/
def tryAcquireOrRenew (lock : RedisLeaderLock τ) (s : State τ I C) (i : I) (c : C) :
    Pc → Action → Option (State τ I C)
  | .idle, .check => some (s.setCall c (.checked (s.expired i)))
  | .checked false, .clear => some (s.setCall c (.connecting false))
  | .checked true, .clear =>
    some { s.setCall c (.connecting true) with
      leaseDeadline := Function.update s.leaseDeadline i none }
  -- without a connection the call returns `false`
  | .connecting _, .connect false => some (s.setCall c .idle)
  | .connecting expired, .connect true =>
    some (s.setCall c (.waiting (if expired then .set else .renew)))
  | .waiting cmd, .execute =>
    let (key, ok) := run lock s.key s.now cmd
    some { s.setCall c (.replied cmd ok s.now) with key }
  -- `unwrap_or(0)` of the renewal, `unwrap_or(false)` of the claim
  | .waiting .renew, .lose =>
    some { s.setCall c (.waiting .set) with abandoned := (i, .renew) :: s.abandoned }
  | .waiting .set, .lose =>
    some { s.setCall c .idle with abandoned := (i, .set) :: s.abandoned }
  | .replied .renew _ _, .lose => some (s.setCall c (.waiting .set))
  | .replied .set _ _, .lose => some (s.setCall c .idle)
  | .replied _ true _, .receive => some ((s.setCall c .idle).updateLeaseDeadline lock i)
  | .replied .renew false _, .receive => some (s.setCall c (.waiting .set))
  | .replied .set false _, .receive => some (s.setCall c .idle)
  | _, _ => none

/-- A step of the system. -/
def next (D : Deployment τ I C) (s : State τ I C) : Event C → Option (State τ I C)
  | .call c a => s.tryAcquireOrRenew (D.lock (D.owner c)) (D.owner c) c (s.calls c) a
  | .late n => s.abandoned[n]?.map fun (i, cmd) =>
    { s with key := (run (D.lock i) s.key s.now cmd).1, abandoned := s.abandoned.eraseIdx n }
  | .tick δ => some { s with now := s.now + δ }

/-- The instance whose call returns `true` in a step. -/
def granted (D : Deployment τ I C) (s : State τ I C) : Event C → Option I
  | .call c .receive =>
    match s.calls c with
    | .replied _ true _ => some (D.owner c)
    | _ => none
  | _ => none

/-- When a call returns `true`, no other instance has a recorded deadline that has not passed. -/
def Exclusive (D : Deployment τ I C) (s : State τ I C) (e : Event C) : Prop :=
  ∀ j ∈ s.granted D e, ∀ i, i ≠ j → ∀ d ∈ s.leaseDeadline i, d ≤ s.now

/-- A successful reply is received at most `delay` after its execution. -/
def ReplyWithin (delay : ℕ) (s : State τ I C) : Event C → Prop
  | .call c .receive => ∀ cmd executed, s.calls c = .replied cmd true executed →
      s.now ≤ executed + delay
  | _ => True

/-- A step of the system in which replies take at most `delay`. -/
def StepWithin (D : Deployment τ I C) (delay : ℕ) (s : State τ I C) (e : Event C)
    (t : State τ I C) : Prop :=
  s.next D e = some t ∧ s.ReplyWithin delay e

variable {D : Deployment τ I C} {s t : State τ I C} {e : Event C}

/-! ## What a step does -/

/-- The key stays, no deadline is recorded, and no successful reply is under way that was not
before. -/
structure Quiet (s t : State τ I C) : Prop where
  key_eq : t.key = s.key
  now_le : s.now ≤ t.now
  deadline : ∀ i d, t.leaseDeadline i = some d → s.leaseDeadline i = some d
  reply : ∀ c cmd executed, t.calls c = .replied cmd true executed →
    s.calls c = .replied cmd true executed

/-- Instance `i` has Redis execute `cmd`, for the call `c` or for none. -/
structure Executes (D : Deployment τ I C) (i : I) (cmd : Command) (s t : State τ I C) : Prop where
  key_eq : t.key = (run (D.lock i) s.key s.now cmd).1
  now_eq : t.now = s.now
  deadline_eq : t.leaseDeadline = s.leaseDeadline
  reply : ∀ c cmd' executed, t.calls c = .replied cmd' true executed →
    s.calls c = .replied cmd' true executed ∨
      D.owner c = i ∧ (run (D.lock i) s.key s.now cmd).2 = true ∧ executed = s.now

/-- The call `c` receives the reply of a command that succeeded at `executed`, and records until
when its instance is leader. -/
structure Grants (D : Deployment τ I C) (c : C) (executed : ℕ) (s t : State τ I C) : Prop where
  reply_eq : ∃ cmd, s.calls c = .replied cmd true executed
  key_eq : t.key = s.key
  now_eq : t.now = s.now
  deadline_eq : t.leaseDeadline =
    Function.update s.leaseDeadline (D.owner c) (some (s.now + (D.lock (D.owner c)).ttlMs))
  reply : ∀ c' cmd executed, t.calls c' = .replied cmd true executed →
    s.calls c' = .replied cmd true executed

theorem quiet_setCall (s : State τ I C) (c : C) {p : Pc}
    (hp : ∀ cmd executed, p ≠ .replied cmd true executed) : Quiet s (s.setCall c p) where
  key_eq := rfl
  now_le := Nat.le_refl _
  deadline := fun _ _ h => h
  reply := by
    intro c' cmd executed h
    by_cases hc : c' = c
    · subst hc
      exact absurd (by simpa [setCall] using h) (hp cmd executed)
    · simpa [setCall, hc] using h

theorem next_cases (h : s.next D e = some t) :
    Quiet s t ∨ (∃ i cmd, Executes D i cmd s t) ∨
      ∃ c executed, e = .call c .receive ∧ Grants D c executed s t := by
  cases e with
  | tick δ =>
    obtain rfl := Option.some.inj h
    exact .inl ⟨rfl, Nat.le_add_right _ _, fun _ _ h => h, fun _ _ _ h => h⟩
  | late n =>
    obtain ⟨⟨i, cmd⟩, -, rfl⟩ := Option.map_eq_some_iff.mp h
    exact .inr (.inl ⟨i, cmd, rfl, rfl, rfl, fun _ _ _ h => .inl h⟩)
  | call c a =>
    simp only [next] at h
    generalize hp : s.calls c = p at h
    unfold tryAcquireOrRenew at h
    split at h
    case h_14 => simp at h
    all_goals obtain rfl := Option.some.inj h
    case h_3 =>
      -- an expired deadline is dropped
      have hq := quiet_setCall s c (p := .connecting true) (by simp)
      refine .inl ⟨hq.key_eq, hq.now_le, ?_, hq.reply⟩
      intro i d hd
      by_cases hi : i = D.owner c
      · simp [hi] at hd
      · simpa [hi, setCall] using hd
    case h_6 cmd =>
      refine .inr (.inl ⟨D.owner c, cmd, rfl, rfl, rfl, ?_⟩)
      intro c' cmd' executed h'
      by_cases hc : c' = c
      · subst hc
        obtain ⟨rfl, hok, rfl⟩ := by simpa [setCall] using h'
        exact .inr ⟨rfl, hok, rfl⟩
      · exact .inl (by simpa [setCall, hc] using h')
    case h_11 cmd executed =>
      refine .inr (.inr ⟨c, executed, rfl, ⟨cmd, hp⟩, rfl, rfl, rfl, ?_⟩)
      exact (quiet_setCall s c (p := .idle) (by simp)).reply
    -- a command that is given up only joins the others of its kind
    case h_7 | h_8 =>
      refine .inl ⟨rfl, Nat.le_refl _, fun _ _ h => h, ?_⟩
      exact (quiet_setCall s c (by simp)).reply
    all_goals exact .inl (quiet_setCall s c (by simp))

/-! ## Exclusion -/

/-- The time to live of the lock with a given token. -/
noncomputable def ttlOf (D : Deployment τ I C) : τ → ℕ :=
  Function.extend (fun i => (D.lock i).token) (fun i => (D.lock i).ttlMs) fun _ => 0

/-- What a successful reply under way says is borne out by the key, and so is every recorded
deadline. -/
structure Inv (D : Deployment τ I C) (s : State τ I C) : Prop where
  bounded : Lease.Bounded (ttlOf D) s.key s.now
  reply : ∀ c cmd executed, s.calls c = .replied cmd true executed →
    Lease.Covered s.key s.now (D.lock (D.owner c)).token
      (executed + (D.lock (D.owner c)).ttlMs)
  recorded : ∀ i d, s.leaseDeadline i = some d →
    Lease.Covered s.key s.now (D.lock i).token d

theorem inv_start (D : Deployment τ I C) (now : ℕ) : Inv D (start now) where
  bounded := Lease.Bounded.none
  reply := by simp [start]
  recorded := by simp [start]

section Execution

variable (hD : Function.Injective fun i => (D.lock i).token)

include hD

theorem ttlOf_token (i : I) : ttlOf D (D.lock i).token = (D.lock i).ttlMs :=
  hD.extend_apply _ _ i

theorem bounded_run {key : Option (Lease τ)} {now : ℕ} (h : Lease.Bounded (ttlOf D) key now)
    (i : I) (cmd : Command) : Lease.Bounded (ttlOf D) (run (D.lock i) key now cmd).1 now := by
  cases cmd with
  | renew => simpa [run, ttlOf_token hD] using h.renew (D.lock i).token
  | set => simpa [run, ttlOf_token hD] using h.claim (D.lock i).token

theorem covered_run {key : Option (Lease τ)} {now d : ℕ} {k : τ}
    (h : Lease.Covered key now k d) (hb : Lease.Bounded (ttlOf D) key now) (i : I)
    (cmd : Command) : Lease.Covered (run (D.lock i) key now cmd).1 now k d := by
  cases cmd with
  | renew => simpa [run, ttlOf_token hD] using h.renew hb (D.lock i).token
  | set => exact h.claim (D.lock i).token (D.lock i).ttlMs

end Execution

theorem covered_of_run {key : Option (Lease τ)} {now : ℕ} {i : I} {cmd : Command}
    (h : (run (D.lock i) key now cmd).2 = true) :
    Lease.Covered (run (D.lock i) key now cmd).1 now (D.lock i).token
      (now + (D.lock i).ttlMs) := by
  cases cmd with
  | renew => exact Lease.Covered.of_renewed h
  | set => exact Lease.Covered.of_claimed h

/-- A step whose successful reply, if it receives one, was given at this very moment keeps the
invariant. -/
theorem inv_step (hD : Function.Injective fun i => (D.lock i).token) (hi : Inv D s)
    (h : StepWithin D 0 s e t) : Inv D t := by
  rcases next_cases h.1 with hq | ⟨i, cmd, hx⟩ | ⟨c, executed, rfl, hg⟩
  · -- time only makes beliefs weaker
    refine ⟨?_, ?_, ?_⟩
    · rw [hq.key_eq]
      exact hi.bounded.mono hq.now_le
    · intro c cmd executed hc
      rw [hq.key_eq]
      exact (hi.reply c cmd executed (hq.reply c cmd executed hc)).mono hq.now_le (Nat.le_refl _)
    · intro j d hd
      rw [hq.key_eq]
      exact (hi.recorded j d (hq.deadline j d hd)).mono hq.now_le (Nat.le_refl _)
  · -- Redis executes a command: what was covered stays so, and a success is covered at once
    refine ⟨?_, ?_, ?_⟩
    · rw [hx.key_eq, hx.now_eq]
      exact bounded_run hD hi.bounded i cmd
    · intro c cmd' executed hc
      rw [hx.key_eq, hx.now_eq]
      rcases hx.reply c cmd' executed hc with hc | ⟨rfl, hok, rfl⟩
      · exact covered_run hD (hi.reply c cmd' executed hc) hi.bounded i cmd
      · exact covered_of_run hok
    · intro j d hd
      rw [hx.deadline_eq] at hd
      rw [hx.key_eq, hx.now_eq]
      exact covered_run hD (hi.recorded j d hd) hi.bounded i cmd
  · -- the deadline recorded is the one the reply stands for
    refine ⟨?_, ?_, ?_⟩
    · rw [hg.key_eq, hg.now_eq]
      exact hi.bounded
    · intro c' cmd executed hc
      rw [hg.key_eq, hg.now_eq]
      exact hi.reply c' cmd executed (hg.reply c' cmd executed hc)
    · intro j d hd
      rw [hg.deadline_eq] at hd
      rw [hg.key_eq, hg.now_eq]
      obtain ⟨cmd, hr⟩ := hg.reply_eq
      by_cases hj : j = D.owner c
      · subst hj
        obtain rfl : s.now + _ = d := by simpa using hd
        have hnow : s.now ≤ executed + 0 := h.2 cmd executed hr
        exact (hi.reply c cmd executed hr).mono (Nat.le_refl _) (by omega)
      · exact hi.recorded j d (by simpa [hj] using hd)

theorem granted_eq_some {j : I} (h : s.granted D e = some j) :
    ∃ c cmd executed, e = .call c .receive ∧ D.owner c = j ∧
      s.calls c = .replied cmd true executed := by
  unfold granted at h
  split at h
  case h_1 c =>
    split at h
    case h_1 cmd executed hc => exact ⟨c, cmd, executed, rfl, Option.some.inj h, hc⟩
    case h_2 => simp at h
  case h_2 => simp at h

/-- A step from a state with the invariant is exclusive, when its reply took no time. -/
theorem exclusive_step (hD : Function.Injective fun i => (D.lock i).token) (hi : Inv D s)
    (h : s.ReplyWithin 0 e) : s.Exclusive D e := by
  intro j hj i hij d hd
  obtain ⟨c, cmd, executed, rfl, rfl, hc⟩ := granted_eq_some hj
  by_contra hlt
  have hnow : s.now ≤ executed + 0 := h cmd executed hc
  have hpos := (D.lock (D.owner c)).ttlMs_pos
  have hheld := Lease.Covered.holder_unique (hi.recorded i d hd) (hi.reply c cmd executed hc)
    (by omega) (by omega)
  exact hij (hD hheld)

@[simp] theorem calls_setCall (c : C) (p : Pc) : (s.setCall c p).calls c = p := by
  simp [setCall]

@[simp] theorem setCall_setCall (c : C) (p q : Pc) :
    (s.setCall c p).setCall c q = s.setCall c q := by
  simp [setCall]

/-- A step of a call that receives no successful reply is within every bound. -/
theorem stepWithin_call {delay : ℕ} {c : C} {p : Pc} {a : Action} (hp : s.calls c = p)
    (hstep : s.tryAcquireOrRenew (D.lock (D.owner c)) (D.owner c) c p a = some t)
    (ha : ∀ cmd executed, p ≠ .replied cmd true executed) :
    StepWithin D delay s (.call c a) t := by
  refine ⟨by rw [next, hp, hstep], ?_⟩
  cases a with
  | receive =>
    intro cmd executed h
    exact absurd (hp.symm.trans h) (ha cmd executed)
  | _ => trivial

theorem stepWithin_setCall {delay : ℕ} {c : C} {p : Pc} {a : Action}
    (hstep : (s.setCall c p).tryAcquireOrRenew (D.lock (D.owner c)) (D.owner c) c p a = some t)
    (ha : ∀ cmd executed, p ≠ .replied cmd true executed) :
    StepWithin D delay (s.setCall c p) (.call c a) t :=
  stepWithin_call (calls_setCall c p) hstep ha

/-- The steps by which a call has its claim of a free lease executed. -/
def elect (c : C) : List (Event C) :=
  [.check, .clear, .connect true, .execute, .receive, .execute].map (.call c)

theorem exists_run_elect (delay : ℕ) {c : C} (hidle : s.calls c = .idle)
    (hd : s.leaseDeadline (D.owner c) = none) (hfree : Lease.live s.key s.now = none) :
    ∃ t, Run (StepWithin D delay) s (elect c) t ∧ t.now = s.now ∧
      t.key = some ⟨(D.lock (D.owner c)).token, s.now + (D.lock (D.owner c)).ttlMs⟩ ∧
      t.leaseDeadline = s.leaseDeadline ∧
      t.calls = Function.update s.calls c (.replied .set true s.now) := by
  have hcheck : StepWithin D delay s (.call c .check) (s.setCall c (.checked false)) :=
    stepWithin_call hidle (by simp [tryAcquireOrRenew, expired, hd]) (by simp)
  have hclear : StepWithin D delay (s.setCall c (.checked false)) (.call c .clear)
      (s.setCall c (.connecting false)) :=
    stepWithin_setCall (by simp [tryAcquireOrRenew]) (by simp)
  have hconnect : StepWithin D delay (s.setCall c (.connecting false)) (.call c (.connect true))
      (s.setCall c (.waiting .renew)) :=
    stepWithin_setCall (by simp [tryAcquireOrRenew]) (by simp)
  -- there is nothing to renew
  have hrenew : StepWithin D delay (s.setCall c (.waiting .renew)) (.call c .execute)
      (s.setCall c (.replied .renew false s.now)) :=
    stepWithin_setCall (by simp [tryAcquireOrRenew, run, Lease.renew, setCall, hfree]) (by simp)
  have hreply : StepWithin D delay (s.setCall c (.replied .renew false s.now)) (.call c .receive)
      (s.setCall c (.waiting .set)) :=
    stepWithin_setCall (by simp [tryAcquireOrRenew]) (by simp)
  have hset : StepWithin D delay (s.setCall c (.waiting .set)) (.call c .execute)
      { s.setCall c (.replied .set true s.now) with
        key := some ⟨(D.lock (D.owner c)).token, s.now + (D.lock (D.owner c)).ttlMs⟩ } :=
    stepWithin_setCall (by simp [tryAcquireOrRenew, run, Lease.claim, setCall, hfree]) (by simp)
  exact ⟨_, .cons hcheck <| .cons hclear <| .cons hconnect <| .cons hrenew <| .cons hreply <|
    .single hset, rfl, rfl, rfl, rfl⟩

/-- A successful reply is received: the deadline is counted from now. -/
theorem stepWithin_receive {delay : ℕ} {c : C} {cmd : Command} {executed : ℕ}
    (hc : s.calls c = .replied cmd true executed) (hdelay : s.now ≤ executed + delay) :
    StepWithin D delay s (.call c .receive)
      ((s.setCall c .idle).updateLeaseDeadline (D.lock (D.owner c)) (D.owner c)) := by
  refine ⟨by simp only [next, hc, tryAcquireOrRenew], ?_⟩
  intro cmd' executed' h
  obtain ⟨-, -, rfl⟩ : cmd = cmd' ∧ True ∧ executed = executed' := by simpa [hc] using h
  exact hdelay

/-- With a reply that takes one unit of time, the deadline recorded outlives the lease by as much:
another instance is elected in between. -/
theorem exists_not_exclusive {delay : ℕ} (hdelay : 1 ≤ delay) {c c' : C}
    (hc : D.owner c ≠ D.owner c') :
    ∃ es s t, Run (StepWithin D delay) (start 0) es s ∧
      StepWithin D delay s (.call c' .receive) t ∧ ¬ s.Exclusive D (.call c' .receive) := by
  have hpos := (D.lock (D.owner c)).ttlMs_pos
  obtain ⟨s₁, hrun₁, hnow₁, hkey₁, hdead₁, hcalls₁⟩ :=
    exists_run_elect (D := D) (s := start 0) delay (c := c) rfl rfl rfl
  -- the reply is received one unit later
  have htick : StepWithin D delay s₁ (.tick 1) { s₁ with now := s₁.now + 1 } := ⟨rfl, trivial⟩
  have hreplied : ({ s₁ with now := s₁.now + 1 } : State τ I C).calls c = .replied .set true 0 := by
    simp [hcalls₁, start]
  have hdelayed : s₁.now + 1 ≤ 0 + delay := by simp [hnow₁, start, hdelay]
  have hgrant := stepWithin_receive (D := D) hreplied hdelayed
  set s₂ := (setCall { s₁ with now := s₁.now + 1 } c .idle).updateLeaseDeadline
    (D.lock (D.owner c)) (D.owner c) with hs₂
  have hdead₂ : s₂.leaseDeadline =
      Function.update s₁.leaseDeadline (D.owner c) (some (1 + (D.lock (D.owner c)).ttlMs)) := by
    simp [hs₂, updateLeaseDeadline, setCall, hnow₁, start]
  -- and the key has expired when the other instance comes
  have hwait : StepWithin D delay s₂ (.tick ((D.lock (D.owner c)).ttlMs - 1))
      { s₂ with now := s₂.now + ((D.lock (D.owner c)).ttlMs - 1) } := ⟨rfl, trivial⟩
  set s₃ := { s₂ with now := s₂.now + ((D.lock (D.owner c)).ttlMs - 1) } with hs₃
  have hnow₃ : s₃.now = (D.lock (D.owner c)).ttlMs := by
    have : s₃.now = s₁.now + 1 + ((D.lock (D.owner c)).ttlMs - 1) := rfl
    have : s₁.now = 0 := hnow₁
    omega
  obtain ⟨s₄, hrun₄, hnow₄, -, hdead₄, hcalls₄⟩ :=
    exists_run_elect (D := D) (s := s₃) delay (c := c')
      (by simp [hs₃, hs₂, updateLeaseDeadline, setCall, hcalls₁, start])
      (by simp [hs₃, hdead₂, Ne.symm hc, hdead₁, start])
      (by
        rw [Lease.live_eq_none_iff, hnow₃]
        simp [hs₃, hs₂, updateLeaseDeadline, setCall, hkey₁, start])
  have hreply : s₄.calls c' = .replied .set true s₃.now := by simp [hcalls₄]
  refine ⟨_, s₄, _, hrun₁.append <| .cons htick <| .cons hgrant <| .cons hwait hrun₄,
    stepWithin_receive hreply (by omega), ?_⟩
  intro h
  have hgranted : s₄.granted D (.call c' .receive) = some (D.owner c') := by
    simp [granted, hreply]
  have hdead : s₄.leaseDeadline (D.owner c) = some (1 + (D.lock (D.owner c)).ttlMs) := by
    simp [hdead₄, hs₃, hdead₂]
  have hle := h _ hgranted _ hc _ hdead
  omega

/-- **Leadership is exclusive** along every run in which a successful reply is received at most
`delay` after its execution exactly when `delay` is zero: the deadline is counted from the reply,
and the lease from the execution. -/
theorem exclusive_iff (D : Deployment τ I C)
    (hD : Function.Injective fun i => (D.lock i).token)
    (hC : ∃ c c', D.owner c ≠ D.owner c') (delay : ℕ) :
    (∀ now es s e t, Run (StepWithin D delay) (start now) es s → StepWithin D delay s e t →
      s.Exclusive D e) ↔ delay = 0 := by
  constructor
  · intro h
    by_contra hdelay
    obtain ⟨c, c', hc⟩ := hC
    obtain ⟨es, s, t, hrun, hstep, hnot⟩ :=
      exists_not_exclusive (D := D) (Nat.one_le_iff_ne_zero.mpr hdelay) hc
    exact hnot (h 0 es s _ t hrun hstep)
  · rintro rfl now es s e t hrun hstep
    have hinv : Inv D s := hrun.invariant (fun _ _ _ hi h => inv_step hD hi h) (inv_start D now)
    exact exclusive_step hD hinv hstep.2

/-- Two instances with one call each, and leases of a hundred milliseconds. -/
def twoInstances : Deployment ℕ Bool Bool where
  lock i := .new (if i then 1 else 0) 100
  owner := id

theorem exclusive_iff_twoInstances :
    (∀ now es s e t, Run (StepWithin twoInstances 0) (start now) es s →
      StepWithin twoInstances 0 s e t → s.Exclusive twoInstances e) ↔ 0 = 0 := by
  refine exclusive_iff twoInstances ?_ ⟨true, false, by simp [twoInstances]⟩ 0
  intro i j h
  cases i <;> cases j <;> simp_all [twoInstances, RedisLeaderLock.new]

/-- **Two leaders.** The reply to the first instance's claim takes five milliseconds. A hundred
milliseconds after the claim the key expires and the second instance takes it, while the first one
counts itself leader for five milliseconds more. -/
theorem not_exclusive :
    ¬ ∀ es s e t, Run (fun s e t => s.next twoInstances e = some t) (start 0) es s →
      s.next twoInstances e = some t → s.Exclusive twoInstances e := by
  intro h
  have hrun : Run (fun s e t => s.next twoInstances e = some t) (start 0)
      (elect true ++ [.tick 5, .call true .receive, .tick 95] ++ elect false) _ := run_of_exec rfl
  have hex := h _ _ (.call false .receive) _ hrun rfl
  exact absurd (hex false rfl true (by decide) 105 rfl) (by decide)

end State

end Core.LeaderLock
