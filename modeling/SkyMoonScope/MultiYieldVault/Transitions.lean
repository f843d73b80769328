import SkyMoonScope.MultiYieldVault.Effects
import Mathlib.Logic.Relation

/-!
# Calls as transitions of the accounts

Shares are minted and burned, requests are opened, filled and written off, and schedules are
planned, fired and released. Every call that returns is a sequence of such transitions. A loop keeps
its list to itself until the end; its rounds are transitions of the storage with this list in the
place of the stored one.

## Main definitions

* `Transition`: one change of the accounts, with what the contract has checked for it
* `Looked`, `Inspected`: what a look at the head of the queue, or at a schedule, finds

## Main results

* `transitions_processLoop`, `transitions_executeLoop`: the rounds of the two loops
* `transitions`: a call that returns is a sequence of transitions
-/

namespace MultiYieldVault

open Soroban Relation

variable {Address World : Type} {host : Host Address World} {c c' : Session Address World}

section

variable [DecidableEq Address]

/-- The accounts are the same: only the pools and the settings of the vault may differ. -/
structure Neutral (s t : State Address) : Prop where
  totalShares_eq : totalShares t = totalShares s
  queuedAmount_eq : queuedAmount t = queuedAmount s
  eq : t = { s with vault := t.vault, pools := t.pools }

/-- What is paid of shares that were burned. -/
structure Payable (host : Host Address World) (shares payout : ℤ) : Prop where
  le : payout ≤ shares
  nonneg : NonnegBalances host → 0 ≤ payout

/-- One change of the accounts, with what the contract has checked for it. -/
inductive Transition (host : Host Address World) (s : State Address) : State Address → Prop
  | neutral {t : State Address} (h : Neutral s t) : Transition host s t
  | mint {vault : VaultState Address} {account : Address} {shares : ℤ}
      {pools : List (PoolAllocation Address)} (hvault : s.vault = some vault)
      (hpos : 0 < shares) : Transition host s (s.mint vault account shares pools)
  | settle {vault : VaultState Address} {owner : Address} {shares payout : ℤ}
      {pools : List (PoolAllocation Address)} (hvault : s.vault = some vault)
      (hpos : 0 < shares) (hle : shares ≤ s.balance owner - s.escrowed owner)
      (hpay : Payable host shares payout) :
      Transition host s (s.settle vault owner owner shares payout pools)
  | gone {id : ℕ} {req : WithdrawalRequest Address} (hid : id ∈ s.queue)
      (hreq : s.withdrawal id = some req) (hgone : req.closed = true ∨ req.remainingShares ≤ 0) :
      Transition host s { s with queue := s.queue.erase id }
  | partly {id : ℕ} {req : WithdrawalRequest Address} {payout : ℤ}
      (hreq : s.withdrawal id = some req) (hopen : req.closed = false) (hpos : 0 < payout)
      (hlt : payout < req.remainingShares) :
      Transition host s (s.fill id
        { req with
          remainingShares := req.remainingShares - payout
          filledAmount := req.filledAmount + payout } payout)
  | settled {id : ℕ} {req : WithdrawalRequest Address} (hreq : s.withdrawal id = some req)
      (hopen : req.closed = false) (hpos : 0 < req.remainingShares) :
      Transition host s
        { s.fill id
            { req with
              remainingShares := 0
              filledAmount := req.filledAmount + req.remainingShares
              closed := true } req.remainingShares with
          queue := s.queue.erase id }
  | writeOff {id : ℕ} {req : WithdrawalRequest Address} (hreq : s.withdrawal id = some req)
      (hopen : req.closed = false) (hpos : 0 < req.remainingShares) :
      Transition host s (s.writeOff id req)
  | plan {schedule : WithdrawalSchedule Address} (hopen : schedule.closed = false)
      (hamount : 0 < schedule.amountPerExecution) (hnew : schedule.executions = 0)
      (htotal : 0 < schedule.totalExecutions) (htime : schedule.InTime)
      (hle : schedule.reserved ≤ s.balance schedule.owner - s.escrowed schedule.owner) :
      Transition host s (s.plan schedule schedule.reserved)
  | ended {id : ℕ} {schedule : WithdrawalSchedule Address} (hid : id ∈ s.schedules)
      (hschedule : s.schedule id = some schedule)
      (hover : schedule.closed = true ∨ schedule.executions ≥ schedule.totalExecutions) :
      Transition host s
        { s with
          schedule := Function.update s.schedule id (some { schedule with closed := true })
          schedules := s.schedules.erase id }
  | fire {vault : VaultState Address} {id : ℕ} {schedule : WithdrawalSchedule Address}
      {payout : ℤ} {pools : List (PoolAllocation Address)} (hvault : s.vault = some vault)
      (hschedule : s.schedule id = some schedule) (hopen : schedule.closed = false)
      (hlt : schedule.executions < schedule.totalExecutions)
      (hpay : 0 < schedule.amountPerExecution →
        Payable host schedule.amountPerExecution payout) :
      Transition host s (s.fire vault id schedule payout pools)
  | release {id : ℕ} {schedule : WithdrawalSchedule Address}
      (hschedule : s.schedule id = some schedule) (hopen : schedule.closed = false)
      (hlt : schedule.executions < schedule.totalExecutions) :
      Transition host s (s.release id schedule)

end

/-! ## Settings, pools and views -/

section Neutral

variable {env : Env Address World}

theorem Neutral.refl (s : State Address) : Neutral s s := ⟨rfl, rfl, rfl⟩

theorem neutral_of_keeps {α : Type} {x : Body Address World α} {v : α}
    (hx : Keeps Session.storage x) (h : Returns x c v c') : Neutral c.storage c'.storage := by
  rw [hx c v c' h]
  exact Neutral.refl _

/-- New pools do not change the accounts. -/
theorem neutral_pools (s : State Address) (pools : List (PoolAllocation Address)) :
    Neutral s { s with pools } := ⟨rfl, rfl, rfl⟩

theorem neutral_initializeVault {admin depositToken : Address} {slippageBps volumeProxyBps : ℤ}
    {r : Unit}
    (h : Returns (initializeVault admin depositToken slippageBps volumeProxyBps) c r c') :
    Neutral c.storage c'.storage := by
  rw [initializeVault, returns_storage_bind, returns_require_bind, returns_require_bind] at h
  obtain ⟨hnone, -, h⟩ := h
  obtain rfl := returns_save.mp h
  have hvault : c.storage.vault = none := Option.isNone_iff_eq_none.mp hnone
  refine ⟨?_, ?_, rfl⟩
  · simp [totalShares, hvault]
  · simp [queuedAmount, hvault]

theorem neutral_registerPool [DecidableEq Address] {pool : Address} {depositIsA : Bool} {r : Unit}
    (h : Returns (registerPool env pool depositIsA) c r c') : Neutral c.storage c'.storage := by
  rw [registerPool, returns_loadVault_bind] at h
  obtain ⟨vault, -, h⟩ := h
  simp only [returns_requireAuth_bind, returns_storage_bind, returns_require_bind, savePools,
    returns_save] at h
  obtain ⟨-, -, -, rfl⟩ := h
  exact neutral_pools _ _

theorem neutral_setWeights {weights : List ℕ} {r : Unit}
    (h : Returns (setWeights host env weights) c r c') : Neutral c.storage c'.storage := by
  have hsum : ∀ weights sum,
      Keeps Session.storage (sumNewWeights weights sum : Body Address World ℕ) := by
    intro weights
    induction weights with
    | nil => exact fun sum => Keeps.pure sum
    | cons w weights ih =>
      intro sum
      apply (keeps_require _).bind
      intro _
      exact (keeps_plainU32 _).bind ih
  rw [setWeights, returns_loadVault_bind] at h
  obtain ⟨vault, -, h⟩ := h
  rw [returns_requireAuth_bind, returns_storage_bind, returns_require_bind] at h
  obtain ⟨-, -, h⟩ := h
  obtain ⟨sum, world, -, h⟩ := returns_bind_of_keeps (hsum _ _) h
  rw [returns_require_bind] at h
  obtain ⟨_, world, -, h⟩ := returns_bind_of_keeps (keeps_validateWeightedPools _) h.2
  obtain rfl := returns_save.mp h
  exact neutral_pools _ _

theorem neutral_setSlippage {slippageBps : ℤ} {r : Unit}
    (h : Returns (setSlippage env slippageBps) c r c') : Neutral c.storage c'.storage := by
  rw [setSlippage, returns_loadVault_bind] at h
  obtain ⟨vault, hvault, h⟩ := h
  simp only [returns_requireAuth_bind, saveVault, returns_save] at h
  obtain ⟨-, rfl⟩ := h
  refine ⟨?_, ?_, rfl⟩
  · simp [totalShares, hvault]
  · simp [queuedAmount, hvault]

theorem neutral_rebalance {r : Unit} (h : Returns (rebalance host env) c r c') :
    Neutral c.storage c'.storage := by
  rw [rebalance, returns_loadVault_bind] at h
  obtain ⟨vault, -, h⟩ := h
  rw [returns_storage_bind] at h
  split at h
  next =>
    obtain ⟨-, rfl⟩ := returns_pure.mp h
    exact Neutral.refl _
  next =>
    obtain ⟨lastIdx, world, -, h⟩ := returns_bind_of_keeps (keeps_checkWeights _) h
    obtain ⟨⟨totalToMove, emptied⟩, world, -, h⟩ := returns_bind_of_keeps
      (keeps_eachPool (keeps_divest _) _ _ _) h
    simp only at h
    split at h
    next =>
      obtain ⟨p, world, -, h⟩ := returns_bind_of_keeps
        (keeps_eachPool (keeps_invest _ _ _ _) _ _ _) h
      obtain rfl := returns_save.mp h
      exact neutral_pools _ _
    next =>
      obtain rfl := returns_save.mp h
      exact neutral_pools _ _

theorem keeps_storage : Keeps Session.storage (storage : Body Address World (State Address)) :=
  (ReadOnly.get.bind fun _ => ReadOnly.pure _).keeps

theorem keeps_loadVault :
    Keeps Session.storage (loadVault : Body Address World (VaultState Address)) :=
  keeps_storage.bind fun _ => ReadOnly.orFault.keeps

theorem keeps_getAprs (volumeProxyBps : ℤ) (pools : List (PoolAllocation Address)) :
    Keeps Session.storage (getAprs host volumeProxyBps pools) := by
  induction pools with
  | nil => exact Keeps.pure _
  | cons alloc pools ih =>
    apply (keeps_external _).bind
    intro fee
    apply ((keeps_plain _).bind fun _ => Keeps.pure _).bind
    intro apr
    apply ih.bind
    intro aprs
    exact Keeps.pure _

end Neutral

/-! ## Transitions of the entry points -/

section Calls

variable [DecidableEq Address] {env : Env Address World}

theorem transition_deposit {source : Address} {amount v : ℤ}
    (h : Returns (deposit host env source amount) c v c') :
    Transition host c.storage c'.storage := by
  rw [deposit, returns_require_bind, returns_requireAuth_bind, returns_loadVault_bind] at h
  obtain ⟨hpos, -, vault, hvault, h⟩ := h
  rw [returns_storage_bind, returns_require_bind] at h
  obtain ⟨-, h⟩ := h
  obtain ⟨_, world, -, h⟩ := returns_bind_of_keeps (keeps_external _) h
  obtain ⟨lastIdx, world, -, h⟩ := returns_bind_of_keeps (keeps_checkWeights _) h
  obtain ⟨p, world, -, h⟩ := returns_bind_of_keeps
    (keeps_eachPool (keeps_invest _ _ _ _) _ _ _) h
  simp only [savePools, mintShares, saveVault, bind_assoc, returns_save_bind,
    returns_storage_bind, returns_plain_bind, returns_pure] at h
  obtain ⟨-, -, -, rfl⟩ := h
  exact .mint hvault (not_le.mp hpos)

theorem transition_withdraw {destination : Address} {shares v : ℤ}
    (h : Returns (withdraw host env destination shares) c v c') :
    Transition host c.storage c'.storage := by
  rw [withdraw, returns_require_bind, returns_requireAuth_bind, returns_loadVault_bind] at h
  obtain ⟨hpos, -, vault, hvault, h⟩ := h
  rw [returns_storage_bind, returns_plain_bind, returns_require_bind] at h
  obtain ⟨-, hle, h⟩ := h
  obtain ⟨_, world, -, h⟩ := returns_bind_of_keeps (keeps_external _) h
  obtain ⟨⟨totalReceived, pools⟩, world, -, h⟩ := returns_bind_of_keeps
    (keeps_eachPool (keeps_redeem _ _ _) _ _ _) h
  simp only [savePools, returns_save_bind] at h
  obtain ⟨payout, c₁, hpay, h⟩ := returns_bind.mp h
  obtain ⟨hstorage, hpayout, hnonneg⟩ := returns_payOut hpay
  simp only [burnShares, saveVault, bind_assoc, returns_plain_bind, returns_save_bind] at h
  obtain ⟨-, -, -, h⟩ := h
  obtain ⟨_, c₂, hremainder, h⟩ := returns_bind.mp h
  obtain ⟨rfl, rfl⟩ := returns_pure.mp h
  have hqueue := returns_enqueueRemainder rfl hremainder
  have hpayable : Payable host shares payout := by
    refine ⟨?_, hnonneg⟩
    rcases hpayout with hmin | rfl
    · exact hmin.trans (min_le_right _ _)
    · exact (not_le.mp hpos).le
  -- the payment is recorded before the shares are burned
  have hsettle : c₂.storage =
      c.storage.settle vault destination destination shares payout pools := by
    rw [hqueue]
    simp only [hstorage, State.settle, State.pay, State.burn]
    split <;> split <;> rfl
  rw [hsettle]
  exact .settle hvault (not_le.mp hpos) (not_lt.mp hle) hpayable

theorem transition_cancelWithdrawal {owner : Address} {id : ℕ} {r : Unit}
    (h : Returns (cancelWithdrawal env Fallbacks.source owner id) c r c') :
    Transition host c.storage c'.storage := by
  rw [cancelWithdrawal, returns_requireAuth_bind, returns_loadRequest_bind] at h
  obtain ⟨-, req, hreq, h⟩ := h
  rw [returns_require_bind, returns_require_bind] at h
  obtain ⟨howner, hopen, h⟩ := h
  obtain ⟨hopen, hpos⟩ := not_or.mp hopen
  obtain ⟨_, c₁, hreduce, h⟩ := returns_bind.mp h
  obtain rfl := returns_reduceQueued (not_le.mp hpos) hreduce
  simp only [saveRequest, saveQueue, returns_save_bind, returns_storage_bind, returns_save] at h
  obtain rfl : req.owner = owner := not_not.mp howner
  rw [← h]
  exact .writeOff hreq (Bool.eq_false_of_not_eq_true hopen) (not_le.mp hpos)

/-! ### The pass over the queue -/

/-- The list after a look at its head. -/
def Visit.queue (id : ℕ) (queue : List ℕ) : Visit → List ℕ
  | .gone => queue
  | .dry => id :: queue
  | .partly _ => id :: queue
  | .settled _ => queue

/-- What a look at a request of the queue finds, and the storage that it leaves. -/
inductive Looked (s : State Address) (id : ℕ) : Visit → State Address → Prop
  | gone {req : WithdrawalRequest Address} (hreq : s.withdrawal id = some req)
      (hgone : req.closed = true ∨ req.remainingShares ≤ 0) : Looked s id .gone s
  | dry : Looked s id .dry s
  | partly {req : WithdrawalRequest Address} {payout : ℤ} (hreq : s.withdrawal id = some req)
      (hopen : req.closed = false) (hpos : 0 < payout) (hlt : payout < req.remainingShares) :
      Looked s id (.partly payout) (s.fill id
        { req with
          remainingShares := req.remainingShares - payout
          filledAmount := req.filledAmount + payout } payout)
  | settled {req : WithdrawalRequest Address} (hreq : s.withdrawal id = some req)
      (hopen : req.closed = false) (hpos : 0 < req.remainingShares) :
      Looked s id (.settled req.remainingShares) (s.fill id
        { req with
          remainingShares := 0
          filledAmount := req.filledAmount + req.remainingShares
          closed := true } req.remainingShares)

omit [DecidableEq Address] in
/-- **A look at the head of the queue** finds one of four cases. -/
theorem looked_fillRequest {depositToken : Address} {id : ℕ} {visit : Visit}
    (h : Returns (fillRequest host Fallbacks.source depositToken id) c visit c') :
    Looked c.storage id visit c'.storage := by
  rw [fillRequest, returns_loadRequest_bind] at h
  obtain ⟨req, hreq, h⟩ := h
  split at h
  next hgone =>
    obtain ⟨rfl, rfl⟩ := returns_pure.mp h
    exact .gone hreq hgone
  next hgone =>
    obtain ⟨hopen, hpos⟩ := not_or.mp hgone
    obtain ⟨available, world, -, h⟩ := returns_bind_of_keeps (keeps_external _) h
    split at h
    next =>
      obtain ⟨rfl, rfl⟩ := returns_pure.mp h
      exact .dry
    next hdry =>
      obtain ⟨payout, c₁, hpay, h⟩ := returns_bind.mp h
      obtain ⟨hstorage, hpayout, -⟩ := returns_payOut hpay
      split at h
      next hzero =>
        obtain ⟨rfl, rfl⟩ := returns_pure.mp h
        rw [State.pay, if_neg (not_lt.mpr hzero)] at hstorage
        rw [hstorage]
        exact .dry
      next hzero =>
        have hpaid : 0 < payout := not_le.mp hzero
        have hle : payout ≤ req.remainingShares := by
          rcases hpayout with hmin | rfl
          · exact hmin.trans (min_le_left _ _)
          · exact absurd hpaid (lt_irrefl _)
        rw [returns_plain_bind, returns_plain_bind] at h
        obtain ⟨-, -, h⟩ := h
        obtain ⟨_, c₂, hreduce, h⟩ := returns_bind.mp h
        obtain rfl := returns_reduceQueued hpaid hreduce
        rw [State.pay, if_pos hpaid] at hstorage
        split at h
        next hrest =>
          simp only [saveRequest, returns_save_bind, returns_pure] at h
          obtain ⟨rfl, rfl⟩ := h
          obtain rfl : req.remainingShares = payout := sub_eq_zero.mp hrest
          simp only [hstorage, sub_self]
          exact .settled hreq (Bool.eq_false_of_not_eq_true hopen) hpaid
        next hrest =>
          simp only [saveRequest, returns_save_bind, returns_pure] at h
          obtain ⟨rfl, rfl⟩ := h
          have hlt : payout < req.remainingShares :=
            lt_of_le_of_ne hle fun heq => hrest (sub_eq_zero.mpr heq.symm)
          simp only [hstorage]
          exact .partly hreq (Bool.eq_false_of_not_eq_true hopen) hpaid hlt

/-- A look at the head of the queue is a transition of the storage with the list that the pass
keeps. -/
theorem transition_fillRequest {depositToken : Address} {id : ℕ} {visit : Visit} (queue : List ℕ)
    (h : Returns (fillRequest host Fallbacks.source depositToken id) c visit c') :
    Transition host { c.storage with queue := id :: queue }
      { c'.storage with queue := visit.queue id queue } := by
  have herase : (id :: queue).erase id = queue := List.erase_cons_head id queue
  have hlook := looked_fillRequest h
  generalize c'.storage = t at hlook ⊢
  cases hlook with
  | gone hreq hgone =>
    have htransition : Transition host { c.storage with queue := id :: queue }
        { c.storage with queue := (id :: queue).erase id } :=
      .gone List.mem_cons_self hreq hgone
    rwa [herase] at htransition
  | dry => exact .neutral ⟨rfl, rfl, rfl⟩
  | partly hreq hopen hpos hlt =>
    exact .partly (s := { c.storage with queue := id :: queue }) hreq hopen hpos hlt
  | settled hreq hopen hpos =>
    have htransition : Transition host { c.storage with queue := id :: queue } _ :=
      .settled hreq hopen hpos
    simp only [herase] at htransition
    exact htransition

/-- The rounds of the pass are transitions. The induction is on the list that it keeps. -/
theorem transitions_processLoop {depositToken : Address} {budget visited : ℕ}
    {queue l : List ℕ} {result result' : QueueFillResult}
    (h : Returns (processLoop host Fallbacks.source depositToken budget queue visited result) c
      (l, result') c') :
    ReflTransGen (Transition host) { c.storage with queue } { c'.storage with queue := l } := by
  induction queue generalizing c visited result with
  | nil =>
    obtain ⟨hl, rfl⟩ := returns_pure.mp h
    obtain ⟨rfl, -⟩ := Prod.mk.inj hl
    exact .refl
  | cons id queue ih =>
    rw [processLoop] at h
    split at h
    next =>
      obtain ⟨visit, c₁, hvisit, h⟩ := returns_bind.mp h
      have hround := transition_fillRequest queue hvisit
      apply ReflTransGen.head hround
      cases visit with
      | gone => exact ih h
      | dry =>
        obtain ⟨hl, rfl⟩ := returns_pure.mp h
        obtain ⟨rfl, -⟩ := Prod.mk.inj hl
        exact .refl
      | partly payout =>
        simp only [returns_plain_bind, returns_pure] at h
        obtain ⟨-, hl, rfl⟩ := h
        obtain ⟨rfl, -⟩ := Prod.mk.inj hl
        exact .refl
      | settled payout =>
        simp only [returns_plain_bind] at h
        exact ih h.2
    next =>
      obtain ⟨hl, rfl⟩ := returns_pure.mp h
      obtain ⟨rfl, -⟩ := Prod.mk.inj hl
      exact .refl

theorem transitions_processWithdrawQueue {maxEntries : ℕ} {result : QueueFillResult}
    (h : Returns (processWithdrawQueue host Fallbacks.source maxEntries) c result c') :
    ReflTransGen (Transition host) c.storage c'.storage := by
  rw [processWithdrawQueue, returns_loadVault_bind] at h
  obtain ⟨vault, hvault, h⟩ := h
  rw [returns_storage_bind] at h
  split at h
  next =>
    obtain ⟨-, rfl⟩ := returns_pure.mp h
    exact .refl
  next =>
    obtain ⟨⟨queue, result'⟩, c₁, hloop, h⟩ := returns_bind.mp h
    simp only [saveQueue, returns_save_bind, returns_pure] at h
    obtain ⟨-, rfl⟩ := h
    exact transitions_processLoop hloop

/-! ### Schedules -/

theorem transition_scheduleWithdrawals {owner recipient : Address} {amountPerExecution : ℤ}
    {frequency : ScheduleFrequency} {first interval last n : ℕ}
    (h : Returns (scheduleWithdrawals env Fallbacks.source owner recipient amountPerExecution
      frequency first interval last) c n c') :
    Transition host c.storage c'.storage := by
  rw [scheduleWithdrawals, returns_requireAuth_bind, returns_loadVault_bind] at h
  obtain ⟨-, vault, hvault, h⟩ := h
  rw [returns_require_bind] at h
  obtain ⟨-, h⟩ := h
  obtain ⟨⟨total, escrow⟩, c₁, hplan, h⟩ := returns_bind.mp h
  obtain ⟨hc₁, hpos, htotal, hlast, rfl⟩ := returns_planExecutions hplan
  rw [hc₁] at h
  simp only [returns_storage_bind, returns_plain_bind, returns_require_bind,
    returns_plainU32_bind, returns_save_bind, saveSchedule, saveSchedules] at h
  obtain ⟨-, hle, -, -, h⟩ := h
  obtain ⟨_, c₂, hadjust, h⟩ := returns_bind.mp h
  obtain rfl := returns_adjustEscrowed hadjust
  obtain ⟨-, rfl⟩ := returns_pure.mp h
  let schedule : WithdrawalSchedule Address :=
    { id := c.storage.nextScheduleId, owner, recipient, amountPerExecution, frequency,
      intervalLedgers := interval, nextExecutionLedger := first,
      endLedger := effectiveEndLedger frequency first last, totalExecutions := total,
      executions := 0, closed := false }
  have hreserved : schedule.reserved = amountPerExecution * total := rfl
  rw [← hreserved] at hle ⊢
  have hplan : Transition host c.storage (c.storage.plan schedule schedule.reserved) :=
    .plan rfl hpos rfl htotal hlast (not_lt.mp hle)
  exact hplan

theorem transition_cancelWithdrawalSchedule {owner : Address} {id : ℕ} {r : Unit}
    (h : Returns (cancelWithdrawalSchedule env Fallbacks.source owner id) c r c') :
    Transition host c.storage c'.storage := by
  rw [cancelWithdrawalSchedule, returns_requireAuth_bind, returns_loadSchedule_bind] at h
  obtain ⟨-, schedule, hschedule, h⟩ := h
  rw [returns_require_bind, returns_require_bind, returns_orFault_bind] at h
  obtain ⟨howner, hopen, released, hreleased, h⟩ := h
  obtain ⟨hopen, hlt⟩ := not_or.mp hopen
  obtain ⟨-, rfl⟩ := IntType.checked_eq_some.mp hreleased
  obtain rfl : schedule.owner = owner := not_not.mp howner
  simp only [saveSchedule, saveSchedules, returns_save_bind, returns_storage_bind] at h
  obtain rfl := returns_adjustEscrowed h
  exact .release hschedule (Bool.eq_false_of_not_eq_true hopen) (not_le.mp hlt)

/-! ### The pass over the schedules -/

/-- The list after a look at the schedule that follows those that stay. -/
def Inspection.schedules (kept : List ℕ) (id : ℕ) (rest : List ℕ) : Inspection → List ℕ
  | .ended => kept ++ rest
  | .waiting => kept ++ id :: rest
  | .fired _ finished => if finished then kept ++ rest else kept ++ id :: rest

/-- What an execution leaves: its recipient is paid or queued, for every list that the pass
keeps. -/
theorem returns_fire {depositToken : Address} {id : ℕ} {schedule : WithdrawalSchedule Address}
    {vault : VaultState Address} {inspection : Inspection}
    (h : Returns (fire host Fallbacks.source depositToken id schedule vault
      (c.storage.balance schedule.owner)) c inspection c') :
    ∃ payout pools, inspection = .fired payout schedule.advance.closed ∧
      (0 < schedule.amountPerExecution → Payable host schedule.amountPerExecution payout) ∧
      ∀ kept rest, id ∉ kept →
        { c'.storage with schedules := inspection.schedules kept id rest } =
          State.fire { c.storage with schedules := kept ++ id :: rest } vault id schedule payout
            pools := by
  rw [fire, returns_storage_bind] at h
  obtain ⟨⟨totalReceived, pools⟩, world, -, h⟩ := returns_bind_of_keeps
    (keeps_eachPool (keeps_redeem _ _ _) _ _ _) h
  simp only [savePools, returns_save_bind] at h
  obtain ⟨_, c₁, hadjust, h⟩ := returns_bind.mp h
  obtain rfl := returns_adjustEscrowed hadjust
  simp only [burnShares, saveVault, bind_assoc, returns_plain_bind, returns_save_bind] at h
  obtain ⟨-, -, h⟩ := h
  obtain ⟨payout, c₂, hpay, h⟩ := returns_bind.mp h
  obtain ⟨hstorage, hpayout, hnonneg⟩ := returns_payOut hpay
  rw [returns_plain_bind] at h
  obtain ⟨-, h⟩ := h
  obtain ⟨_, c₃, hremainder, h⟩ := returns_bind.mp h
  have hsaved : c₂.storage.vault =
      some { vault with totalShares := vault.totalShares - schedule.amountPerExecution } := by
    rw [hstorage, State.pay]
    split <;> rfl
  have hqueue := returns_enqueueRemainder hsaved hremainder
  simp only [saveSchedule, returns_save_bind, returns_pure] at h
  obtain ⟨rfl, rfl⟩ := h
  refine ⟨payout, pools, rfl, ?_, ?_⟩
  · intro hpos
    refine ⟨?_, hnonneg⟩
    rcases hpayout with hmin | rfl
    · exact hmin.trans (min_le_right _ _)
    · exact hpos.le
  · intro kept rest hid
    have herase : (kept ++ id :: rest).erase id = kept ++ rest := by
      rw [List.erase_append_right _ hid, List.erase_cons_head]
    -- the reservation is released before the shares are burned
    rw [hqueue]
    simp only [hstorage, State.fire, State.settle, State.pay, State.burn, State.adjust, herase,
      Inspection.schedules]
    split <;> split <;> rfl

/-- What a look at a schedule finds, and the storage that it leaves. -/
inductive Inspected (host : Host Address World) (ledger : ℕ) (s : State Address) (id : ℕ) :
    Inspection → State Address → Prop
  | ended {schedule : WithdrawalSchedule Address} (hschedule : s.schedule id = some schedule)
      (hover : schedule.closed = true ∨ schedule.executions ≥ schedule.totalExecutions) :
      Inspected host ledger s id .ended
        { s with schedule := Function.update s.schedule id (some { schedule with closed := true }) }
  | waiting {schedule : WithdrawalSchedule Address} (hschedule : s.schedule id = some schedule)
      (hwaits : ledger < schedule.nextExecutionLedger ∨ ledger > schedule.endLedger) :
      Inspected host ledger s id .waiting s
  | uncovered {schedule : WithdrawalSchedule Address} (hschedule : s.schedule id = some schedule)
      (hopen : schedule.closed = false)
      (hshort : s.balance schedule.owner < schedule.amountPerExecution) :
      Inspected host ledger s id .waiting s
  | fired {t : State Address} {vault : VaultState Address} {payout : ℤ}
      {schedule : WithdrawalSchedule Address} {pools : List (PoolAllocation Address)}
      (hvault : s.vault = some vault) (hschedule : s.schedule id = some schedule)
      (hopen : schedule.closed = false) (hlt : schedule.executions < schedule.totalExecutions)
      (hdue : schedule.nextExecutionLedger ≤ ledger) (hlast : ledger ≤ schedule.endLedger)
      (hpay : 0 < schedule.amountPerExecution →
        Payable host schedule.amountPerExecution payout)
      (hfire : ∀ kept rest, id ∉ kept →
        { t with
          schedules := Inspection.schedules kept id rest (.fired payout schedule.advance.closed) } =
          State.fire { s with schedules := kept ++ id :: rest } vault id schedule payout pools) :
      Inspected host ledger s id (.fired payout schedule.advance.closed) t

/-- **A look at a schedule** finds one of four cases. -/
theorem inspected_inspect {depositToken : Address} {id : ℕ} {inspection : Inspection}
    (h : Returns (inspect host env Fallbacks.source depositToken id) c inspection c') :
    Inspected host env.sequence c.storage id inspection c'.storage := by
  rw [inspect, returns_loadSchedule_bind] at h
  obtain ⟨schedule, hschedule, h⟩ := h
  split at h
  next hover =>
    simp only [saveSchedule, returns_save_bind, returns_pure] at h
    obtain ⟨rfl, rfl⟩ := h
    exact .ended hschedule hover
  next hover =>
    obtain ⟨hopen, hlt⟩ := not_or.mp hover
    split at h
    next hwaits =>
      obtain ⟨rfl, rfl⟩ := returns_pure.mp h
      exact .waiting hschedule hwaits
    next hdue =>
      obtain ⟨hdue, hlast⟩ := not_or.mp hdue
      rw [returns_loadVault_bind] at h
      obtain ⟨vault, hvault, h⟩ := h
      rw [returns_storage_bind] at h
      dsimp only at h
      split at h
      next hshort =>
        -- the source passes over the schedule and changes nothing
        simp only [Fallbacks.source, pure_bind, returns_pure] at h
        obtain ⟨rfl, rfl⟩ := h
        exact .uncovered hschedule (Bool.eq_false_of_not_eq_true hopen) hshort
      next =>
        obtain ⟨payout, pools, rfl, hpay, hfire⟩ := returns_fire h
        exact .fired hvault hschedule (Bool.eq_false_of_not_eq_true hopen) (not_le.mp hlt)
          (not_lt.mp hdue) (not_lt.mp hlast) hpay hfire

/-- A look at a schedule is a transition of the storage with the list that the pass keeps. -/
theorem Inspected.transition {ledger id : ℕ} {kept : List ℕ} {inspection : Inspection}
    {s t : State Address} (rest : List ℕ) (hid : id ∉ kept)
    (h : Inspected host ledger s id inspection t) :
    Transition host { s with schedules := kept ++ id :: rest }
      { t with schedules := inspection.schedules kept id rest } := by
  have herase : (kept ++ id :: rest).erase id = kept ++ rest := by
    rw [List.erase_append_right _ hid, List.erase_cons_head]
  cases h with
  | ended hschedule hover =>
    have htransition : Transition host { s with schedules := kept ++ id :: rest } _ :=
      .ended (List.mem_append_right _ List.mem_cons_self) hschedule hover
    simp only [herase] at htransition
    exact htransition
  | waiting => exact .neutral ⟨rfl, rfl, rfl⟩
  | uncovered => exact .neutral ⟨rfl, rfl, rfl⟩
  | fired hvault hschedule hopen hlt _ _ hpay hfire =>
    rw [hfire kept rest hid]
    exact .fire hvault hschedule hopen hlt hpay

theorem transition_inspect {depositToken : Address} {kept : List ℕ} {id : ℕ}
    {inspection : Inspection} (rest : List ℕ) (hid : id ∉ kept)
    (h : Returns (inspect host env Fallbacks.source depositToken id) c inspection c') :
    Transition host { c.storage with schedules := kept ++ id :: rest }
      { c'.storage with schedules := inspection.schedules kept id rest } :=
  (inspected_inspect h).transition rest hid

/-- The list of the pass loses at most the schedule that is looked at. -/
theorem schedules_sublist (kept : List ℕ) (id : ℕ) (rest : List ℕ) (inspection : Inspection) :
    (inspection.schedules kept id rest).Sublist (kept ++ id :: rest) := by
  have hlost : (kept ++ rest).Sublist (kept ++ id :: rest) :=
    (List.Sublist.refl kept).append (List.sublist_cons_self id rest)
  cases inspection with
  | ended => exact hlost
  | waiting => exact .refl _
  | fired payout finished =>
    cases finished with
    | false => exact .refl _
    | true => exact hlost

/-- The rounds of the pass are transitions. The induction is on the schedules still to look at. -/
theorem transitions_executeLoop {depositToken : Address} {budget : ℕ} {kept schedules l : List ℕ}
    {result result' : ScheduleExecutionResult} (hnodup : (kept ++ schedules).Nodup)
    (h : Returns (executeLoop host env Fallbacks.source depositToken budget kept schedules result)
      c (l, result') c') :
    ReflTransGen (Transition host) { c.storage with schedules := kept ++ schedules }
      { c'.storage with schedules := l } := by
  induction schedules generalizing c kept result with
  | nil =>
    obtain ⟨hl, rfl⟩ := returns_pure.mp h
    obtain ⟨rfl, -⟩ := Prod.mk.inj hl
    rw [List.append_nil]
  | cons id rest ih =>
    rw [executeLoop] at h
    split at h
    next =>
      obtain ⟨inspection, c₁, hinspect, h⟩ := returns_bind.mp h
      have hid : id ∉ kept := fun hmem =>
        (List.nodup_append.mp hnodup).2.2 id hmem id List.mem_cons_self rfl
      have hround := transition_inspect rest hid hinspect
      have hnext := hnodup.sublist (schedules_sublist kept id rest inspection)
      apply ReflTransGen.head hround
      -- the schedule goes to the front of the list, or off it
      have hmoved : kept ++ id :: rest = (kept ++ [id]) ++ rest := by simp
      cases inspection with
      | ended => exact ih hnext h
      | waiting =>
        simp only [Inspection.schedules, hmoved] at hnext ⊢
        exact ih hnext h
      | fired payout finished =>
        simp only [returns_plain_bind] at h
        cases finished with
        | false =>
          simp only [Inspection.schedules, hmoved] at hnext ⊢
          exact ih hnext h.2
        | true => exact ih hnext h.2
    next =>
      obtain ⟨hl, rfl⟩ := returns_pure.mp h
      obtain ⟨rfl, -⟩ := Prod.mk.inj hl
      exact .refl

theorem transitions_executeScheduledWithdrawals {maxCount : ℕ} {result : ScheduleExecutionResult}
    (hnodup : c.storage.schedules.Nodup)
    (h : Returns (executeScheduledWithdrawals host env Fallbacks.source maxCount) c result c') :
    ReflTransGen (Transition host) c.storage c'.storage := by
  rw [executeScheduledWithdrawals, returns_loadVault_bind] at h
  obtain ⟨vault, hvault, h⟩ := h
  rw [returns_storage_bind] at h
  split at h
  next =>
    obtain ⟨-, rfl⟩ := returns_pure.mp h
    exact .refl
  next =>
    obtain ⟨⟨schedules, result'⟩, c₁, hloop, h⟩ := returns_bind.mp h
    simp only [saveSchedules, returns_save_bind, returns_pure] at h
    obtain ⟨-, rfl⟩ := h
    have hlist : ([] ++ c.storage.schedules).Nodup := hnodup
    exact transitions_executeLoop hlist hloop

/-! ### All calls -/

/-- **A call that returns is a sequence of transitions.** -/
theorem transitions {call : Call Address} {s t : State Address} {v : Response Address}
    (hnodup : s.schedules.Nodup)
    (hcall : Returns (entryPoint host Fallbacks.source env call) s v t) :
    ReflTransGen (Transition host) s t := by
  obtain ⟨c', h, rfl⟩ := returns_zoom.mp hcall
  have hone : ∀ {u : State Address}, Transition host s u → ReflTransGen (Transition host) s u :=
    fun htransition => ReflTransGen.single htransition
  have hneutral : ∀ {u : State Address}, Neutral s u → ReflTransGen (Transition host) s u :=
    fun hs => hone (.neutral hs)
  have hview : ∀ {x : Body Address World (Response Address)}, Keeps Session.storage x →
      Returns x ⟨s, env.world⟩ v c' → ReflTransGen (Transition host) s c'.storage :=
    fun hx hreturns => hneutral (neutral_of_keeps hx hreturns)
  cases call with
  | initializeVault admin depositToken slippageBps volumeProxyBps =>
    obtain ⟨_, _, hbody, hpure⟩ := returns_bind.mp h
    obtain ⟨-, rfl⟩ := returns_pure.mp hpure
    exact hneutral (neutral_initializeVault hbody)
  | registerPool pool depositIsA =>
    obtain ⟨_, _, hbody, hpure⟩ := returns_bind.mp h
    obtain ⟨-, rfl⟩ := returns_pure.mp hpure
    exact hneutral (neutral_registerPool hbody)
  | setWeights weights =>
    obtain ⟨_, _, hbody, hpure⟩ := returns_bind.mp h
    obtain ⟨-, rfl⟩ := returns_pure.mp hpure
    exact hneutral (neutral_setWeights hbody)
  | setSlippage slippageBps =>
    obtain ⟨_, _, hbody, hpure⟩ := returns_bind.mp h
    obtain ⟨-, rfl⟩ := returns_pure.mp hpure
    exact hneutral (neutral_setSlippage hbody)
  | deposit source amount =>
    obtain ⟨_, hbody, -⟩ := returns_map.mp h
    exact hone (transition_deposit hbody)
  | withdraw destination shares =>
    obtain ⟨_, hbody, -⟩ := returns_map.mp h
    exact hone (transition_withdraw hbody)
  | processWithdrawQueue maxEntries =>
    obtain ⟨_, hbody, -⟩ := returns_map.mp h
    exact transitions_processWithdrawQueue hbody
  | cancelWithdrawal owner id =>
    obtain ⟨_, _, hbody, hpure⟩ := returns_bind.mp h
    obtain ⟨-, rfl⟩ := returns_pure.mp hpure
    exact hone (transition_cancelWithdrawal hbody)
  | scheduleWithdrawals owner recipient amountPerExecution frequency first interval last =>
    obtain ⟨_, hbody, -⟩ := returns_map.mp h
    exact hone (transition_scheduleWithdrawals hbody)
  | executeScheduledWithdrawals maxCount =>
    obtain ⟨_, hbody, -⟩ := returns_map.mp h
    exact transitions_executeScheduledWithdrawals hnodup hbody
  | cancelWithdrawalSchedule owner id =>
    obtain ⟨_, _, hbody, hpure⟩ := returns_bind.mp h
    obtain ⟨-, rfl⟩ := returns_pure.mp hpure
    exact hone (transition_cancelWithdrawalSchedule hbody)
  | rebalance =>
    obtain ⟨_, _, hbody, hpure⟩ := returns_bind.mp h
    obtain ⟨-, rfl⟩ := returns_pure.mp hpure
    exact hneutral (neutral_rebalance hbody)
  | getVault =>
    obtain ⟨_, hbody, -⟩ := returns_map.mp h
    exact hneutral (neutral_of_keeps keeps_loadVault hbody)
  | availableLiquidity =>
    obtain ⟨vault, c₁, hvault, h⟩ := returns_bind.mp h
    obtain rfl := storage_of_loadVault hvault
    obtain ⟨_, hbody, -⟩ := returns_map.mp h
    exact hneutral (neutral_of_keeps (keeps_external _) hbody)
  | getAprs =>
    simp only [Call.body, returns_loadVault_bind, returns_storage_bind] at h
    obtain ⟨vault, -, h⟩ := h
    obtain ⟨_, hbody, -⟩ := returns_map.mp h
    exact hneutral (neutral_of_keeps (keeps_getAprs _ _) hbody)
  | getPools => exact hview (keeps_storage.bind fun _ => Keeps.pure _) h
  | vaultBalance user => exact hview (keeps_storage.bind fun _ => Keeps.pure _) h
  | getQueue => exact hview (keeps_storage.bind fun _ => Keeps.pure _) h
  | queueLen => exact hview (keeps_storage.bind fun _ => Keeps.pure _) h
  | getWithdrawalRequest id => exact hview (keeps_storage.bind fun _ => Keeps.pure _) h
  | getWithdrawalSchedule id => exact hview (keeps_storage.bind fun _ => Keeps.pure _) h
  | getWithdrawalSchedules => exact hview (keeps_storage.bind fun _ => Keeps.pure _) h
  | scheduleCount => exact hview (keeps_storage.bind fun _ => Keeps.pure _) h
  | escrowedShares user => exact hview (keeps_storage.bind fun _ => Keeps.pure _) h
  | dueSchedules ledger => exact hview (keeps_storage.bind fun _ => Keeps.pure _) h

end Calls

end MultiYieldVault
