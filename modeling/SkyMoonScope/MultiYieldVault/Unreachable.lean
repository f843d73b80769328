import SkyMoonScope.MultiYieldVault.Accounts

/-!
# The defences of the vault are never needed

The source passes over a due schedule that the balance of its owner does not cover, and puts zero in
the place of a queued total or a reservation that would become negative. From sound accounts none of
these branches is taken: whatever is done there instead, every call does the same, also one that
fails. In a loop this is so in every round, since its rounds keep the accounts sound.

## Main results

* `same_processLoop`, `same_executeLoop`: the loops, round by round
* `same_entryPoint`: every call from sound accounts does the same with all fallbacks
* `reservations_exact`: what is reserved is what the open schedules take, and is covered
* `queue_integrity`: the queue lists the open requests, and its total is what they are owed
-/

namespace MultiYieldVault

open Soroban Machine

variable {Address World : Type} [DecidableEq Address] {host : Host Address World}
  {env : Env Address World} {c : Session Address World} {fallbacks : Fallbacks Address World}

/-! ## The defences -/

omit [DecidableEq Address] in
theorem same_maxZero {fallback fallback' : Body Address World ℤ} {x : ℤ} (hx : 0 ≤ x) :
    SameAt c (maxZero fallback x) (maxZero fallback' x) := by
  apply SameAt.ite
  · exact fun hneg => absurd hneg (not_lt.mpr hx)
  · exact fun _ => .refl c _

omit [DecidableEq Address] in
/-- Taking no more than is queued leaves nothing to clamp. -/
theorem same_reduceQueued {amount : ℤ} (hle : amount ≤ queuedAmount c.storage) :
    SameAt c (reduceQueued fallbacks amount) (reduceQueued Fallbacks.source amount) := by
  apply SameAt.ite
  · exact fun _ => .refl c _
  · intro _
    apply (SameAt.refl c storage).bind
    intro s c₁ hs
    simp only [storage, returns_get_bind, returns_pure] at hs
    obtain ⟨rfl, rfl⟩ := hs
    cases hvault : c.storage.vault with
    | none => exact .refl c _
    | some vault =>
      apply (SameAt.refl c (plain (vault.queuedAmount - amount))).bind
      intro rest c₂ hrest
      obtain ⟨hfits, -⟩ := returns_orFault.mp hrest
      obtain ⟨-, rfl⟩ := IntType.checked_eq_some.mp hfits
      rw [queuedAmount_of_vault hvault] at hle
      exact (same_maxZero (sub_nonneg.mpr hle)).bind fun _ t _ => .refl t _

/-- Releasing no more than is reserved leaves nothing to clamp. -/
theorem same_adjustEscrowed {owner : Address} {delta : ℤ}
    (hle : 0 ≤ c.storage.escrowed owner + delta) :
    SameAt c (adjustEscrowed fallbacks owner delta)
      (adjustEscrowed Fallbacks.source owner delta) := by
  apply (SameAt.refl c storage).bind
  intro s c₁ hs
  simp only [storage, returns_get_bind, returns_pure] at hs
  obtain ⟨rfl, rfl⟩ := hs
  apply (SameAt.refl c (plain (c.storage.escrowed owner + delta))).bind
  intro sum c₂ hsum
  obtain ⟨hfits, rfl⟩ := returns_orFault.mp hsum
  obtain ⟨-, rfl⟩ := IntType.checked_eq_some.mp hfits
  exact (same_maxZero hle).bind fun _ t _ => .refl t _

/-! ## The queue -/

omit [DecidableEq Address] in
/-- A part of a body that leaves the storage as it is, where the rest does the same. -/
theorem same_bind_of_keeps {α β : Type} {x : Body Address World α} {f g : α → Body Address World β}
    (hx : Keeps Session.storage x)
    (hf : ∀ a c', c'.storage = c.storage → Returns x c a c' → SameAt c' (f a) (g a)) :
    SameAt c (x >>= f) (x >>= g) :=
  (SameAt.refl c x).bind fun a c' h => hf a c' (hx c a c' h) h

omit [DecidableEq Address] in
theorem keeps_loadRequest (id : ℕ) :
    Keeps Session.storage (loadRequest id : Body Address World (WithdrawalRequest Address)) :=
  keeps_storage.bind fun _ => ReadOnly.orFault.keeps

omit [DecidableEq Address] in
theorem keeps_loadSchedule (id : ℕ) :
    Keeps Session.storage (loadSchedule id : Body Address World (WithdrawalSchedule Address)) :=
  keeps_storage.bind fun _ => ReadOnly.orFault.keeps

omit [DecidableEq Address] in
theorem eq_of_loadRequest {id : ℕ} {req : WithdrawalRequest Address} {c' : Session Address World}
    (h : Returns (loadRequest id) c req c') : c.storage.withdrawal id = some req := by
  simp only [loadRequest, returns_storage_bind, returns_orFault] at h
  exact h.1

omit [DecidableEq Address] in
theorem eq_of_loadSchedule {id : ℕ} {schedule : WithdrawalSchedule Address}
    {c' : Session Address World} (h : Returns (loadSchedule id) c schedule c') :
    c.storage.schedule id = some schedule := by
  simp only [loadSchedule, returns_storage_bind, returns_orFault] at h
  exact h.1

theorem same_fillRequest {depositToken : Address} {id : ℕ} {queue : List ℕ}
    (hsound : Sound { c.storage with queue }) :
    SameAt c (fillRequest host fallbacks depositToken id)
      (fillRequest host Fallbacks.source depositToken id) := by
  apply same_bind_of_keeps (keeps_loadRequest id)
  intro req c₁ hc₁ hload
  have hreq := eq_of_loadRequest hload
  apply SameAt.ite
  · exact fun _ => .refl c₁ _
  · intro hgone
    obtain ⟨hopen, hpos⟩ := not_or.mp hgone
    -- an open request is owed no more than is queued
    have hle : req.remainingShares ≤ queuedAmount c.storage :=
      hsound.queue.le hreq (Bool.eq_false_of_not_eq_true hopen)
    apply same_bind_of_keeps (keeps_external _)
    intro available c₂ hc₂ _
    apply SameAt.ite
    · exact fun _ => .refl c₂ _
    · intro _
      apply (SameAt.refl c₂ (payOut host depositToken req.owner _)).bind
      intro payout c₃ hpay
      obtain ⟨hstorage, hpayout, -⟩ := returns_payOut hpay
      apply SameAt.ite
      · exact fun _ => .refl c₃ _
      · intro hzero
        have hpaid : payout ≤ req.remainingShares := by
          rcases hpayout with hmin | rfl
          · exact hmin.trans (min_le_left _ _)
          · exact absurd le_rfl hzero
        apply same_bind_of_keeps (keeps_plain _)
        intro remainingShares c₄ hc₄ _
        apply same_bind_of_keeps (keeps_plain _)
        intro filledAmount c₅ hc₅ _
        have hqueued : queuedAmount c₅.storage = queuedAmount c.storage := by
          rw [hc₅, hc₄, hstorage, hc₂, hc₁, pay_eq]
          rfl
        apply (same_reduceQueued (by rw [hqueued]; linarith)).bind
        exact fun _ t _ => .refl t _

/-- The pass over the queue does the same in every round, from sound accounts with the list that it
keeps. -/
theorem same_processLoop {depositToken : Address} {budget visited : ℕ} {queue : List ℕ}
    {result : QueueFillResult} (hsound : Sound { c.storage with queue }) :
    SameAt c (processLoop host fallbacks depositToken budget queue visited result)
      (processLoop host Fallbacks.source depositToken budget queue visited result) := by
  induction queue generalizing c visited result with
  | nil => exact .refl c _
  | cons id queue ih =>
    apply SameAt.ite
    · intro _
      apply (same_fillRequest hsound).bind
      intro visit c₁ hvisit
      have hround := hsound.transition
        (transition_fillRequest queue ((same_fillRequest hsound).returns hvisit))
      cases visit with
      | gone => exact ih hround
      | dry => exact .refl c₁ _
      | partly payout => exact .refl c₁ _
      | settled payout =>
        apply same_bind_of_keeps (keeps_plain _)
        intro paidOut c₂ hc₂ _
        exact ih (by rwa [hc₂])
    · exact fun _ => .refl c _

theorem same_processWithdrawQueue {maxEntries : ℕ} (hsound : Sound c.storage) :
    SameAt c (processWithdrawQueue host fallbacks maxEntries)
      (processWithdrawQueue host Fallbacks.source maxEntries) := by
  apply same_bind_of_keeps keeps_loadVault
  intro vault c₁ hc₁ _
  apply same_bind_of_keeps keeps_storage
  intro s c₂ hc₂ hs
  simp only [storage, returns_get_bind, returns_pure] at hs
  obtain ⟨rfl, rfl⟩ := hs
  apply SameAt.ite
  · exact fun _ => .refl c₁ _
  · intro _
    have hsame : Sound { c₁.storage with queue := c₁.storage.queue } := hc₁ ▸ hsound
    exact (same_processLoop hsame).bind fun _ t _ => .refl t _

theorem same_cancelWithdrawal {owner : Address} {id : ℕ} (hsound : Sound c.storage) :
    SameAt c (cancelWithdrawal env fallbacks owner id)
      (cancelWithdrawal env Fallbacks.source owner id) := by
  apply same_bind_of_keeps (keeps_require _)
  intro _ c₁ hc₁ _
  apply same_bind_of_keeps (keeps_loadRequest id)
  intro req c₂ hc₂ hload
  have hreq := eq_of_loadRequest hload
  rw [hc₁] at hreq
  apply same_bind_of_keeps (keeps_require _)
  intro _ c₃ hc₃ _
  apply (SameAt.refl c₃ (require _ _)).bind
  intro _ c₄ hrequire
  obtain ⟨hopen, rfl⟩ := returns_require.mp hrequire
  have hle := hsound.queue.le hreq (Bool.eq_false_of_not_eq_true (not_or.mp hopen).1)
  have hqueued : queuedAmount c₃.storage = queuedAmount c.storage := by
    rw [hc₃, hc₂, hc₁]
  apply (same_reduceQueued (by rwa [hqueued])).bind
  exact fun _ t _ => .refl t _

/-! ## Schedules -/

theorem same_scheduleWithdrawals {owner recipient : Address} {amountPerExecution : ℤ}
    {frequency : ScheduleFrequency} {first interval last : ℕ} (hsound : Sound c.storage) :
    SameAt c
      (scheduleWithdrawals env fallbacks owner recipient amountPerExecution frequency first
        interval last)
      (scheduleWithdrawals env Fallbacks.source owner recipient amountPerExecution frequency first
        interval last) := by
  apply same_bind_of_keeps (keeps_require _)
  intro _ c₁ hc₁ _
  apply same_bind_of_keeps keeps_loadVault
  intro vault c₂ hc₂ _
  apply same_bind_of_keeps (keeps_require _)
  intro _ c₃ hc₃ _
  apply (SameAt.refl c₃ (planExecutions _ frequency first interval last)).bind
  rintro ⟨total, escrow⟩ c₄ hplan
  obtain ⟨hc₄, hpos, htotal, -, rfl⟩ := returns_planExecutions hplan
  apply same_bind_of_keeps keeps_storage
  intro s c₅ hc₅ _
  apply same_bind_of_keeps (keeps_plain _)
  intro spendable c₆ hc₆ _
  apply same_bind_of_keeps (keeps_require _)
  intro _ c₇ hc₇ _
  apply same_bind_of_keeps (keeps_require _)
  intro _ c₈ hc₈ _
  apply same_bind_of_keeps (keeps_plainU32 _)
  intro nextScheduleId c₉ hc₉ _
  have hescrowed : c₉.storage.escrowed owner = c.storage.escrowed owner := by
    rw [hc₉, hc₈, hc₇, hc₆, hc₅, hc₄, hc₃, hc₂, hc₁]
  have hnonneg : 0 ≤ c.storage.escrowed owner + amountPerExecution * total :=
    add_nonneg (hsound.plans.nonneg owner) (mul_nonneg hpos.le (Int.natCast_nonneg total))
  -- the schedule is written before its shares are reserved
  apply (SameAt.refl c₉ (save _)).bind
  intro _ c₁₀ hsave
  obtain rfl := returns_save.mp hsave
  apply (SameAt.refl _ (saveSchedule _ _)).bind
  intro _ c₁₁ hsave
  obtain rfl := returns_save.mp hsave
  apply (SameAt.refl _ (saveSchedules _)).bind
  intro _ c₁₂ hsave
  obtain rfl := returns_save.mp hsave
  apply (same_adjustEscrowed (by rwa [← hescrowed] at hnonneg)).bind
  exact fun _ t _ => .refl t _

theorem same_cancelWithdrawalSchedule {owner : Address} {id : ℕ} (hsound : Sound c.storage) :
    SameAt c (cancelWithdrawalSchedule env fallbacks owner id)
      (cancelWithdrawalSchedule env Fallbacks.source owner id) := by
  apply same_bind_of_keeps (keeps_require _)
  intro _ c₁ hc₁ _
  apply same_bind_of_keeps (keeps_loadSchedule id)
  intro schedule c₂ hc₂ hload
  have hschedule := eq_of_loadSchedule hload
  rw [hc₁] at hschedule
  apply (SameAt.refl c₂ (require _ _)).bind
  intro _ c₃ hrequire
  obtain ⟨howner, rfl⟩ := returns_require.mp hrequire
  obtain rfl : schedule.owner = owner := not_not.mp howner
  apply (SameAt.refl c₂ (require _ _)).bind
  intro _ c₃ hrequire
  obtain ⟨hopen, rfl⟩ := returns_require.mp hrequire
  apply (SameAt.refl c₂ (orFault _ _)).bind
  intro released c₃ hreleased
  obtain ⟨hchecked, rfl⟩ := returns_orFault.mp hreleased
  obtain ⟨-, rfl⟩ := IntType.checked_eq_some.mp hchecked
  have hle := hsound.plans.le hschedule (Bool.eq_false_of_not_eq_true (not_or.mp hopen).1)
  have hescrowed : c₂.storage.escrowed = c.storage.escrowed := by rw [hc₂, hc₁]
  apply (SameAt.refl c₂ (saveSchedule _ _)).bind
  intro _ c₃ hsave
  obtain rfl := returns_save.mp hsave
  apply same_bind_of_keeps keeps_storage
  intro s c₄ hc₄ _
  apply (SameAt.refl c₄ (saveSchedules _)).bind
  intro _ c₅ hsave
  obtain rfl := returns_save.mp hsave
  apply same_adjustEscrowed
  show 0 ≤ c₄.storage.escrowed schedule.owner + -schedule.reserved
  rw [hc₄]
  show 0 ≤ c₂.storage.escrowed schedule.owner + -schedule.reserved
  rw [hescrowed]
  linarith

/-- An execution does the same where its shares are reserved. -/
theorem same_fire {depositToken : Address} {id : ℕ} {schedule : WithdrawalSchedule Address}
    {vault : VaultState Address} {ownerBalance : ℤ}
    (hle : schedule.amountPerExecution ≤ c.storage.escrowed schedule.owner) :
    SameAt c (fire host fallbacks depositToken id schedule vault ownerBalance)
      (fire host Fallbacks.source depositToken id schedule vault ownerBalance) := by
  apply same_bind_of_keeps keeps_storage
  intro s c₁ hc₁ _
  apply same_bind_of_keeps (keeps_eachPool (keeps_redeem _ _ _) _ _ _)
  rintro ⟨totalReceived, pools⟩ c₂ hc₂ _
  apply (SameAt.refl c₂ (savePools pools)).bind
  intro _ c₃ hsave
  obtain rfl := returns_save.mp hsave
  have hescrowed : c₂.storage.escrowed = c.storage.escrowed := by rw [hc₂, hc₁]
  have hnonneg : 0 ≤ c₂.storage.escrowed schedule.owner + -schedule.amountPerExecution := by
    rw [hescrowed]
    linarith
  refine SameAt.bind (same_adjustEscrowed ?_) fun _ t _ => .refl t _
  exact hnonneg

/-- A due schedule is covered by what its owner has reserved, and so by the balance: it is never
passed over. -/
theorem same_inspect {depositToken : Address} {id : ℕ} {schedules : List ℕ}
    (hsound : Sound { c.storage with schedules }) :
    SameAt c (inspect host env fallbacks depositToken id)
      (inspect host env Fallbacks.source depositToken id) := by
  apply same_bind_of_keeps (keeps_loadSchedule id)
  intro schedule c₁ hc₁ hload
  have hschedule := eq_of_loadSchedule hload
  apply SameAt.ite
  · exact fun _ => .refl c₁ _
  · intro hover
    apply SameAt.ite
    · exact fun _ => .refl c₁ _
    · intro _
      obtain ⟨hopen, hlt⟩ := not_or.mp hover
      have hamount := (hsound.plans.sound.valid id schedule hschedule).1
      have hreserved : schedule.amountPerExecution ≤ c.storage.escrowed schedule.owner :=
        (amount_le_reserved hamount (not_le.mp hlt)).trans
          (hsound.plans.le hschedule (Bool.eq_false_of_not_eq_true hopen))
      have hcovered : c.storage.escrowed schedule.owner ≤ c.storage.balance schedule.owner :=
        hsound.plans.escrowed_le schedule.owner
      apply same_bind_of_keeps keeps_loadVault
      intro vault c₂ hc₂ _
      apply (SameAt.refl c₂ storage).bind
      intro s c₃ hs
      simp only [storage, returns_get_bind, returns_pure] at hs
      obtain ⟨rfl, rfl⟩ := hs
      apply SameAt.ite
      · intro hshort
        rw [hc₂, hc₁] at hshort
        exact absurd (hreserved.trans hcovered) (not_le.mpr hshort)
      · intro _
        exact same_fire (by rwa [hc₂, hc₁])

/-- The pass over the schedules does the same in every round. -/
theorem same_executeLoop {depositToken : Address} {budget : ℕ} {kept schedules : List ℕ}
    {result : ScheduleExecutionResult}
    (hsound : Sound { c.storage with schedules := kept ++ schedules }) :
    SameAt c (executeLoop host env fallbacks depositToken budget kept schedules result)
      (executeLoop host env Fallbacks.source depositToken budget kept schedules result) := by
  induction schedules generalizing c kept result with
  | nil => exact .refl c _
  | cons id rest ih =>
    apply SameAt.ite
    · intro _
      apply (same_inspect hsound).bind
      intro inspection c₁ hinspection
      have hid : id ∉ kept := fun hmem =>
        (List.nodup_append.mp hsound.plans.sound.nodup).2.2 id hmem id List.mem_cons_self rfl
      have hround := hsound.transition
        (transition_inspect rest hid ((same_inspect hsound).returns hinspection))
      have hmoved : kept ++ id :: rest = (kept ++ [id]) ++ rest := by simp
      cases inspection with
      | ended => exact ih hround
      | waiting =>
        simp only [Inspection.schedules, hmoved] at hround
        exact ih hround
      | fired payout finished =>
        apply same_bind_of_keeps (keeps_plain _)
        intro paidOut c₂ hc₂ _
        cases finished with
        | false =>
          simp only [Inspection.schedules, hmoved] at hround
          exact ih (by rwa [hc₂])
        | true => exact ih (by rwa [hc₂])
    · exact fun _ => .refl c _

theorem same_executeScheduledWithdrawals {maxCount : ℕ} (hsound : Sound c.storage) :
    SameAt c (executeScheduledWithdrawals host env fallbacks maxCount)
      (executeScheduledWithdrawals host env Fallbacks.source maxCount) := by
  apply same_bind_of_keeps keeps_loadVault
  intro vault c₁ hc₁ _
  apply (SameAt.refl c₁ storage).bind
  intro s c₂ hs
  simp only [storage, returns_get_bind, returns_pure] at hs
  obtain ⟨rfl, rfl⟩ := hs
  apply SameAt.ite
  · exact fun _ => .refl c₁ _
  · intro _
    have hsame : Sound { c₁.storage with schedules := [] ++ c₁.storage.schedules } := hc₁ ▸ hsound
    exact (same_executeLoop hsame).bind fun _ t _ => .refl t _

/-! ## All calls -/

/-- **From sound accounts, every call does the same with all fallbacks.** -/
theorem same_entryPoint {s : State Address} (hsound : Sound s)
    (fallbacks : Fallbacks Address World) (env : Env Address World) (call : Call Address) :
    SameAt s (entryPoint host fallbacks env call) (entryPoint host Fallbacks.source env call) := by
  apply SameAt.zoom
  cases call with
  | processWithdrawQueue maxEntries => exact (same_processWithdrawQueue hsound).map
  | cancelWithdrawal owner id =>
    exact (same_cancelWithdrawal hsound).bind fun _ t _ => .refl t _
  | scheduleWithdrawals owner recipient amountPerExecution frequency first interval last =>
    exact (same_scheduleWithdrawals hsound).map
  | executeScheduledWithdrawals maxCount => exact (same_executeScheduledWithdrawals hsound).map
  | cancelWithdrawalSchedule owner id =>
    exact (same_cancelWithdrawalSchedule hsound).bind fun _ t _ => .refl t _
  | _ => exact .refl _ _

/-! ## The accounts after every run -/

/-- The open schedules, in the order of the stored list. -/
def openSchedules (s : State Address) : List (WithdrawalSchedule Address) :=
  s.schedules.filterMap s.schedule

/-- The requests of the queue, oldest first. -/
def openRequests (s : State Address) : List (WithdrawalRequest Address) :=
  s.queue.filterMap s.withdrawal

/-- The vault of the examples, at address 0. Its deposit token and its pools keep what they hold for
it: idle tokens, and whether the pools are dry. A pool that is not gives back what it was given. -/
def sampleHost : Host ℕ (ℕ × Bool) where
  currentContractAddress := 0
  balance := fun _ holder w => some (if holder = 0 then w.1 else 0, w)
  transfer := fun _ source _ amount w =>
    if source = 0 then some ((), w.1 - amount.toNat, w.2)
    else some ((), w.1 + amount.toNat, w.2)
  approve := fun _ _ _ _ _ w => some ((), w)
  poolDeposit := fun _ _ a b w => some (a + b, w.1 - (a + b).toNat, w.2)
  poolWithdraw := fun _ _ shares w =>
    if w.2 then some ((0, 0), w) else some ((shares, 0), w.1 + shares.toNat, w.2)
  getReserveA := fun _ w => some (1000, w)
  getReserveB := fun _ w => some (1000, w)
  getFee := fun _ w => some (30, w)

/-- A ledger, idle tokens and the state of the pools; everybody but the vault authorizes. -/
def sampleEnv (sequence idle : ℕ) (dry : Bool) : Env ℕ (ℕ × Bool) where
  sequence := sequence
  auth := fun addr => addr != 0
  world := (idle, dry)

/-- Two schedules reserve shares. A withdrawal finds the pools dry and is queued, and so is a part
of an execution; the queue is paid in part, one schedule is cancelled, and the last request is
written off. -/
def sampleCalls : List (Env ℕ (ℕ × Bool) × Call ℕ) :=
  [(sampleEnv 1 0 false, .initializeVault 9 100 100 10000),
   (sampleEnv 1 0 false, .registerPool 101 true),
   (sampleEnv 1 0 false, .registerPool 102 true),
   (sampleEnv 1 0 false, .setWeights [5000, 5000]),
   (sampleEnv 1 0 false, .deposit 1 100),
   (sampleEnv 2 0 false, .scheduleWithdrawals 1 2 10 .recurring 5 5 15),
   (sampleEnv 2 0 false, .scheduleWithdrawals 1 3 5 .oneTime 7 0 0),
   (sampleEnv 3 20 true, .withdraw 1 60),
   (sampleEnv 5 4 false, .executeScheduledWithdrawals 0),
   (sampleEnv 6 0 true, .executeScheduledWithdrawals 0),
   (sampleEnv 6 25 true, .processWithdrawQueue 0),
   (sampleEnv 7 0 true, .executeScheduledWithdrawals 1),
   (sampleEnv 10 3 true, .executeScheduledWithdrawals 0),
   (sampleEnv 11 0 true, .cancelWithdrawalSchedule 1 1),
   (sampleEnv 12 0 true, .cancelWithdrawal 2 1)]

/-- **What is reserved.** After every run, what an address has reserved is, over its open schedules,
the amount of an execution times the executions that remain, and the balance covers it. The stored
list names exactly the open schedules, each of them once. So a due schedule is never passed over:
every call, also one that fails, does the same whatever is done there. -/
theorem reservations_exact
    {events : List (Event (Env Address World) (Call Address) Error (Response Address))}
    {s : State Address}
    (hrun : Run (Step (entryPoint host Fallbacks.source)) State.initial events s) :
    (∀ owner, s.escrowed owner = ((openSchedules s).map (reservedOf owner)).sum ∧
      0 ≤ s.escrowed owner ∧ s.escrowed owner ≤ s.balance owner) ∧
    (s.schedules.Nodup ∧ ∀ id schedule, s.schedule id = some schedule →
      (id ∈ s.schedules ↔ schedule.closed = false)) ∧
    ∀ (skip : Body Address World Unit) (env : Env Address World) (call : Call Address),
      invoke (entryPoint host { Fallbacks.source with skip } env call) s =
        invoke (entryPoint host Fallbacks.source env call) s := by
  have hsound : Sound s := Sound.initial.run hrun
  refine ⟨?_, ⟨hsound.plans.sound.nodup, ?_⟩, ?_⟩
  · intro owner
    have htotal : s.plans.total (reservedOf owner) =
        ((openSchedules s).map (reservedOf owner)).sum := Register.total_eq_sum_opened
    exact ⟨(hsound.plans.escrowed_eq owner).trans htotal, hsound.plans.nonneg owner,
      hsound.plans.escrowed_le owner⟩
  · intro id schedule hschedule
    have hmem := hsound.plans.sound.mem_iff id
    constructor
    · intro hid
      obtain ⟨schedule', hschedule', hopen⟩ := hmem.mp hid
      rwa [Option.some.inj (hschedule.symm.trans hschedule')]
    · exact fun hopen => hmem.mpr ⟨schedule, hschedule, hopen⟩
  · exact fun skip env call => (same_entryPoint hsound _ env call).invoke_eq

theorem reservations_exact_sample :
    ∃ events s, Run (Step (entryPoint sampleHost Fallbacks.source)) State.initial events s ∧
      s.escrowed 1 = 10 ∧ s.balance 1 = 20 ∧ s.schedules = [0] ∧
      ∀ owner, s.escrowed owner = ((openSchedules s).map (reservedOf owner)).sum ∧
        0 ≤ s.escrowed owner ∧ s.escrowed owner ≤ s.balance owner := by
  have hrun := run_execute (entryPoint sampleHost Fallbacks.source) State.initial sampleCalls
  exact ⟨_, _, hrun, by decide +kernel, by decide +kernel, by decide +kernel,
    (reservations_exact hrun).1⟩

/-- **The queue.** After every run, the numbers of the queue increase and are below the next one,
every request of the queue is open and is owed something, and the stored total is what they are
owed. So the total is never clamped: every call, also one that fails, does the same whatever is done
there. -/
theorem queue_integrity
    {events : List (Event (Env Address World) (Call Address) Error (Response Address))}
    {s : State Address}
    (hrun : Run (Step (entryPoint host Fallbacks.source)) State.initial events s) :
    s.queue.Pairwise (· < ·) ∧
    (∀ id ∈ s.queue, id < s.nextQueueId ∧ ∃ req, s.withdrawal id = some req ∧
      req.closed = false ∧ 0 < req.remainingShares) ∧
    queuedAmount s = ((openRequests s).map WithdrawalRequest.remainingShares).sum ∧
    ∀ (clampQueued : Body Address World ℤ) (env : Env Address World) (call : Call Address),
      invoke (entryPoint host { Fallbacks.source with clampQueued } env call) s =
        invoke (entryPoint host Fallbacks.source env call) s := by
  have hsound : Sound s := Sound.initial.run hrun
  refine ⟨hsound.queue.sound.increasing, ?_, ?_, ?_⟩
  · intro id hid
    obtain ⟨req, hreq, hopen⟩ := hsound.queue.sound.exists_of_mem hid
    exact ⟨hsound.queue.sound.lt_next_of_mem hid, req, hreq, hopen,
      (hsound.queue.sound.valid id req hreq).2 hopen⟩
  · have htotal : s.requests.total WithdrawalRequest.remainingShares =
        ((openRequests s).map WithdrawalRequest.remainingShares).sum :=
      Register.total_eq_sum_opened
    exact hsound.queue.queued_eq.trans htotal
  · exact fun clampQueued env call => (same_entryPoint hsound _ env call).invoke_eq

theorem queue_integrity_sample :
    ∃ events s, Run (Step (entryPoint sampleHost Fallbacks.source)) State.initial events s ∧
      s.queue = [0] ∧ queuedAmount s = 35 ∧ s.queue.Pairwise (· < ·) ∧
      queuedAmount s = ((openRequests s).map WithdrawalRequest.remainingShares).sum := by
  have hrun := run_execute (entryPoint sampleHost Fallbacks.source) State.initial sampleCalls
  obtain ⟨hincreasing, -, hqueued, -⟩ := queue_integrity hrun
  exact ⟨_, _, hrun, by decide +kernel, by decide +kernel, hincreasing, hqueued⟩

end MultiYieldVault
