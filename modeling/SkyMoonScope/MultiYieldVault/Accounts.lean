import SkyMoonScope.Lib.Accounts
import SkyMoonScope.MultiYieldVault.Transitions

/-!
# The accounts of the vault agree

The total of the shares is the sum of the balances, the queue lists the open requests and its total
is what they are owed, and what an address has reserved is what its open schedules still take, which
its balance covers. Every transition keeps all of this, each part by itself: a transition that takes
from a balance either leaves what is reserved, or takes both.

## Main definitions

* `SharesSound`, `QueueSound`, `PlansSound`: the three parts
* `Sound`: all of them, for a storage

## Main results

* `Sound.transition`: every transition keeps sound accounts sound
* `Sound.run`: so does every run
-/

namespace MultiYieldVault

open Soroban Accounts Machine Relation

variable {Address World : Type} {host : Host Address World}

/-! ## The three parts -/

/-- The total of the shares is the sum of the balances. -/
structure SharesSound (balance : Address → ℤ) (total : ℤ) : Prop where
  finite : balance.HasFiniteSupport
  total_eq : total = ∑ᶠ a, balance a

/-- The total of the queue is what its requests are owed, each of which is owed something. -/
structure QueueSound (r : Register (WithdrawalRequest Address)) (queued : ℤ) : Prop where
  sound : r.Sound (fun req => req.closed = false)
    fun req => 0 ≤ req.remainingShares ∧ (req.closed = false → 0 < req.remainingShares)
  queued_eq : queued = r.total WithdrawalRequest.remainingShares

/-- What a schedule has reserved of the shares of an address. -/
def reservedOf [DecidableEq Address] (owner : Address) (schedule : WithdrawalSchedule Address) :
    ℤ :=
  if schedule.owner = owner then schedule.reserved else 0

/-- What is reserved is what the open schedules still take, and the balances cover it. -/
structure PlansSound [DecidableEq Address] (r : Register (WithdrawalSchedule Address))
    (escrowed balance : Address → ℤ) : Prop where
  sound : r.Sound (fun schedule => schedule.closed = false)
    fun schedule => 0 < schedule.amountPerExecution ∧
      (schedule.closed = false → schedule.executions < schedule.totalExecutions)
  escrowed_eq : ∀ owner, escrowed owner = r.total (reservedOf owner)
  escrowed_le : ∀ owner, escrowed owner ≤ balance owner

/-- The accounts of a storage agree. -/
structure Sound [DecidableEq Address] (s : State Address) : Prop where
  shares : SharesSound s.balance (totalShares s)
  queue : QueueSound s.requests (queuedAmount s)
  plans : PlansSound s.plans s.escrowed s.balance

section Shares

variable [DecidableEq Address] {balance : Address → ℤ} {total x : ℤ} {a : Address}

theorem SharesSound.credited (h : SharesSound balance total) :
    SharesSound (credit balance a x) (total + x) := by
  refine ⟨hasFiniteSupport_credit h.finite, ?_⟩
  rw [finsum_credit h.finite, h.total_eq]

end Shares

/-! ## The queue -/

section Queue

variable {r : Register (WithdrawalRequest Address)} {queued payout : ℤ} {id : ℕ}
  {req req' : WithdrawalRequest Address}

theorem QueueSound.issue (h : QueueSound r queued) (hopen : req.closed = false)
    (hpos : 0 < req.remainingShares) :
    QueueSound (r.issue req) (queued + req.remainingShares) := by
  refine ⟨h.sound.issue hopen ⟨hpos.le, fun _ => hpos⟩, ?_⟩
  rw [Register.total_issue h.sound, h.queued_eq]

/-- What an open request is owed is part of the total, so that taking it out leaves no less than
zero. -/
theorem QueueSound.le (h : QueueSound r queued) (hreq : r.entry id = some req)
    (hopen : req.closed = false) : req.remainingShares ≤ queued := by
  rw [h.queued_eq]
  exact Register.le_total (fun k v hv => (h.sound.valid k v hv).1)
    (h.sound.mem_of_open hreq hopen) hreq

theorem QueueSound.amend (h : QueueSound r queued) (hreq : r.entry id = some req)
    (hopen : req.closed = false) (hopen' : req'.closed = false)
    (hlt : payout < req.remainingShares)
    (hrest : req'.remainingShares = req.remainingShares - payout) :
    QueueSound (r.amend id req') (max (queued - payout) 0) := by
  have hid := h.sound.mem_of_open hreq hopen
  have hle := h.le hreq hopen
  have hpos : 0 < req'.remainingShares := by linarith
  refine ⟨h.sound.amend hid hopen' ⟨hpos.le, fun _ => hpos⟩, ?_⟩
  rw [max_eq_left (by linarith), Register.total_amend h.sound hid hreq, h.queued_eq, hrest]
  ring

theorem QueueSound.close (h : QueueSound r queued) (hreq : r.entry id = some req)
    (hopen : req.closed = false) (hclosed : req'.closed = true)
    (hrest : req'.remainingShares = 0) :
    QueueSound (r.close id req') (max (queued - req.remainingShares) 0) := by
  have hid := h.sound.mem_of_open hreq hopen
  have hle := h.le hreq hopen
  refine ⟨h.sound.close hid (by simp [hclosed]) ⟨hrest.ge, by simp [hclosed]⟩, ?_⟩
  rw [max_eq_left (by linarith), Register.total_close h.sound hid hreq, h.queued_eq]

end Queue

/-! ## Schedules -/

section Advance

variable {schedule : WithdrawalSchedule Address}

@[simp] theorem advance_owner : schedule.advance.owner = schedule.owner := by
  unfold WithdrawalSchedule.advance
  dsimp only
  split <;> rfl

@[simp] theorem advance_amountPerExecution :
    schedule.advance.amountPerExecution = schedule.amountPerExecution := by
  unfold WithdrawalSchedule.advance
  dsimp only
  split <;> rfl

@[simp] theorem advance_totalExecutions :
    schedule.advance.totalExecutions = schedule.totalExecutions := by
  unfold WithdrawalSchedule.advance
  dsimp only
  split <;> rfl

@[simp] theorem advance_executions : schedule.advance.executions = schedule.executions + 1 := by
  unfold WithdrawalSchedule.advance
  dsimp only
  split <;> rfl

/-- An open schedule is closed by its last execution. -/
theorem closed_advance (hopen : schedule.closed = false) :
    schedule.advance.closed = decide (schedule.totalExecutions ≤ schedule.executions + 1) := by
  unfold WithdrawalSchedule.advance
  dsimp only
  split
  next hdone => exact (decide_eq_true hdone).symm
  next hdone => rw [hopen, decide_eq_false hdone]

/-- A schedule that advances has reserved one execution less. -/
theorem reserved_advance (hlt : schedule.executions < schedule.totalExecutions) :
    schedule.advance.reserved = schedule.reserved - schedule.amountPerExecution := by
  have hcount : ((schedule.totalExecutions - (schedule.executions + 1) : ℕ) : ℤ) =
      (schedule.totalExecutions - schedule.executions : ℕ) - 1 := by omega
  simp only [WithdrawalSchedule.reserved, advance_amountPerExecution, advance_executions,
    advance_totalExecutions, hcount]
  ring

/-- The next execution of an open schedule takes no more than it has reserved. -/
theorem amount_le_reserved (hamount : 0 < schedule.amountPerExecution)
    (hlt : schedule.executions < schedule.totalExecutions) :
    schedule.amountPerExecution ≤ schedule.reserved := by
  have hone : (1 : ℤ) ≤ (schedule.totalExecutions - schedule.executions : ℕ) := by omega
  unfold WithdrawalSchedule.reserved
  nlinarith

end Advance

section Plans

variable [DecidableEq Address] {r : Register (WithdrawalSchedule Address)}
  {escrowed balance balance' : Address → ℤ} {id : ℕ}
  {schedule : WithdrawalSchedule Address} {a : Address} {x : ℤ}

theorem reservedOf_nonneg (hamount : 0 < schedule.amountPerExecution) (owner : Address) :
    0 ≤ reservedOf owner schedule := by
  unfold reservedOf
  split
  · exact mul_nonneg hamount.le (Int.natCast_nonneg _)
  · exact le_rfl

theorem reservedOf_self : reservedOf schedule.owner schedule = schedule.reserved := if_pos rfl

theorem PlansSound.nonneg (h : PlansSound r escrowed balance) (owner : Address) :
    0 ≤ escrowed owner := by
  rw [h.escrowed_eq]
  exact Register.total_nonneg fun k v hv => reservedOf_nonneg (h.sound.valid k v hv).1 owner

/-- An open schedule has its shares among what its owner has reserved. -/
theorem PlansSound.le (h : PlansSound r escrowed balance) (hschedule : r.entry id = some schedule)
    (hopen : schedule.closed = false) : schedule.reserved ≤ escrowed schedule.owner := by
  rw [h.escrowed_eq, ← reservedOf_self]
  exact Register.le_total (fun k v hv => reservedOf_nonneg (h.sound.valid k v hv).1 _)
    (h.sound.mem_of_open hschedule hopen) hschedule

/-- What is not reserved may go, and anything may come. -/
theorem PlansSound.rebalance (h : PlansSound r escrowed balance)
    (hle : ∀ owner, escrowed owner ≤ balance' owner) : PlansSound r escrowed balance' :=
  ⟨h.sound, h.escrowed_eq, hle⟩

theorem PlansSound.credited (h : PlansSound r escrowed balance) (hx : escrowed a ≤ balance a + x) :
    PlansSound r escrowed (credit balance a x) := by
  apply h.rebalance
  intro owner
  by_cases ha : owner = a
  · subst ha
    rwa [credit_self]
  · rw [credit_of_ne ha]
    exact h.escrowed_le owner

/-- The register changes for one owner, and what it has reserved changes with it. The sum is never
negative, so that nothing is clamped. -/
theorem PlansSound.update {r' : Register (WithdrawalSchedule Address)}
    (h : PlansSound r escrowed balance)
    (hsound : r'.Sound (fun schedule => schedule.closed = false)
      fun schedule => 0 < schedule.amountPerExecution ∧
        (schedule.closed = false → schedule.executions < schedule.totalExecutions))
    (htotal : ∀ owner, r'.total (reservedOf owner) =
      r.total (reservedOf owner) + if a = owner then x else 0)
    (hle : escrowed a + x ≤ balance' a)
    (hother : ∀ owner, owner ≠ a → balance' owner = balance owner) :
    PlansSound r' (Function.update escrowed a (max (escrowed a + x) 0)) balance' := by
  have hmax : max (escrowed a + x) 0 = escrowed a + x := by
    have hnonneg : 0 ≤ r'.total (reservedOf a) :=
      Register.total_nonneg fun k v hv => reservedOf_nonneg (hsound.valid k v hv).1 a
    rw [htotal, if_pos rfl, ← h.escrowed_eq] at hnonneg
    exact max_eq_left hnonneg
  refine ⟨hsound, ?_, ?_⟩
  · intro owner
    rw [htotal, ← h.escrowed_eq]
    by_cases ha : owner = a
    · subst ha
      rw [Function.update_self, if_pos rfl, hmax]
    · rw [Function.update_of_ne ha, if_neg (Ne.symm ha), add_zero]
  · intro owner
    by_cases ha : owner = a
    · subst ha
      rwa [Function.update_self, hmax]
    · rw [Function.update_of_ne ha, hother owner ha]
      exact h.escrowed_le owner

theorem PlansSound.plan (h : PlansSound r escrowed balance) (hopen : schedule.closed = false)
    (hamount : 0 < schedule.amountPerExecution)
    (hlt : schedule.executions < schedule.totalExecutions)
    (hle : schedule.reserved ≤ balance schedule.owner - escrowed schedule.owner) :
    PlansSound (r.issue schedule)
      (Function.update escrowed schedule.owner
        (max (escrowed schedule.owner + schedule.reserved) 0)) balance := by
  apply h.update (h.sound.issue hopen ⟨hamount, fun _ => hlt⟩)
  · intro owner
    rw [Register.total_issue h.sound, reservedOf]
  · linarith
  · exact fun _ _ => rfl

/-- A cancelled schedule gives back all that it has reserved. -/
theorem PlansSound.release (h : PlansSound r escrowed balance)
    (hschedule : r.entry id = some schedule) (hopen : schedule.closed = false) :
    PlansSound (r.close id { schedule with closed := true })
      (Function.update escrowed schedule.owner
        (max (escrowed schedule.owner + -schedule.reserved) 0)) balance := by
  have hid := h.sound.mem_of_open hschedule hopen
  have hamount := (h.sound.valid id schedule hschedule).1
  have hreserved : 0 ≤ schedule.reserved := mul_nonneg hamount.le (Int.natCast_nonneg _)
  have hcover := h.escrowed_le schedule.owner
  have hsound := h.sound.close (v := { schedule with closed := true }) hid (by simp)
    ⟨hamount, by simp⟩
  apply h.update hsound
  · intro owner
    rw [Register.total_close h.sound hid hschedule, reservedOf]
    split <;> ring
  · linarith
  · exact fun _ _ => rfl

/-- An execution takes its shares from what its owner has reserved and from the balance. -/
theorem PlansSound.fire (h : PlansSound r escrowed balance)
    (hschedule : r.entry id = some schedule) (hopen : schedule.closed = false) :
    PlansSound
      (if schedule.advance.closed then r.close id schedule.advance
        else r.amend id schedule.advance)
      (Function.update escrowed schedule.owner
        (max (escrowed schedule.owner + -schedule.amountPerExecution) 0))
      (credit balance schedule.owner (-schedule.amountPerExecution)) := by
  have hid := h.sound.mem_of_open hschedule hopen
  obtain ⟨hamount, hrunning⟩ := h.sound.valid id schedule hschedule
  have hlt := hrunning hopen
  have hadvance := reserved_advance hlt
  have hcover := h.escrowed_le schedule.owner
  have hself : escrowed schedule.owner + -schedule.amountPerExecution ≤
      credit balance schedule.owner (-schedule.amountPerExecution) schedule.owner := by
    rw [credit_self]
    linarith
  have hother : ∀ owner, owner ≠ schedule.owner →
      credit balance schedule.owner (-schedule.amountPerExecution) owner = balance owner :=
    fun owner hne => credit_of_ne hne
  split
  next hclosed =>
    -- the last execution has reserved nothing more, so that closing leaves nothing out
    have hlast : schedule.advance.reserved = 0 := by
      rw [closed_advance hopen, decide_eq_true_eq] at hclosed
      rw [WithdrawalSchedule.reserved, advance_executions, advance_totalExecutions,
        Nat.sub_eq_zero_of_le hclosed, Nat.cast_zero, mul_zero]
    have hsound := h.sound.close (v := schedule.advance) hid (by simp [hclosed])
      ⟨by rwa [advance_amountPerExecution], by simp [hclosed]⟩
    apply h.update hsound _ hself hother
    intro owner
    rw [Register.total_close h.sound hid hschedule, reservedOf]
    split <;> linarith
  next hclosed =>
    have hopen' : schedule.advance.closed = false := Bool.eq_false_of_not_eq_true hclosed
    have hmore : schedule.advance.executions < schedule.advance.totalExecutions := by
      rw [closed_advance hopen, decide_eq_true_eq] at hclosed
      rw [advance_executions, advance_totalExecutions]
      exact not_le.mp hclosed
    have hsound := h.sound.amend (v := schedule.advance) hid hopen'
      ⟨by rwa [advance_amountPerExecution], fun _ => hmore⟩
    apply h.update hsound _ hself hother
    intro owner
    rw [Register.total_amend h.sound hid hschedule, reservedOf, reservedOf, advance_owner, hadvance]
    split <;> ring

end Plans

/-! ## Transitions -/

section Vault

variable {s : State Address} {vault : VaultState Address} {payee : Address} {payout : ℤ}

theorem totalShares_of_vault (hvault : s.vault = some vault) :
    totalShares s = vault.totalShares := by
  rw [totalShares, hvault]
  rfl

theorem queuedAmount_of_vault (hvault : s.vault = some vault) :
    queuedAmount s = vault.queuedAmount := by
  rw [queuedAmount, hvault]
  rfl

theorem queuedAmount_reduce (hpos : 0 ≤ payout) (hle : payout ≤ queuedAmount s) :
    queuedAmount (s.reduce payout) = max (queuedAmount s - payout) 0 := by
  cases hvault : s.vault with
  | none =>
    -- without a vault nothing is queued
    simp only [queuedAmount, State.reduce, hvault, Option.map_none, Option.getD_none] at hle ⊢
    rw [le_antisymm hle hpos]
    rfl
  | some vault =>
    simp only [queuedAmount, State.reduce, hvault, Option.map_some, Option.getD_some]

theorem totalShares_reduce : totalShares (s.reduce payout) = totalShares s := by
  cases hvault : s.vault <;> simp [totalShares, State.reduce, hvault]

/-- A payment only adds to the record. -/
theorem pay_eq : s.pay payee payout =
    { s with payments := if 0 < payout then ⟨payee, payout⟩ :: s.payments else s.payments } := by
  unfold State.pay
  split <;> rfl

end Vault

section Transitions

variable [DecidableEq Address] {s t : State Address} {vault : VaultState Address}
  {owner payee account : Address} {shares payout : ℤ} {pools : List (PoolAllocation Address)}

theorem settle_balance : (s.settle vault owner payee shares payout pools).balance =
    credit s.balance owner (-shares) := by
  simp only [State.settle, pay_eq]
  split <;> rfl

theorem settle_plans : (s.settle vault owner payee shares payout pools).plans = s.plans := by
  simp only [State.settle, pay_eq]
  split <;> rfl

theorem settle_escrowed :
    (s.settle vault owner payee shares payout pools).escrowed = s.escrowed := by
  simp only [State.settle, pay_eq]
  split <;> rfl

theorem totalShares_settle (hvault : s.vault = some vault) :
    totalShares (s.settle vault owner payee shares payout pools) = totalShares s + -shares := by
  rw [totalShares_of_vault hvault]
  simp only [State.settle, pay_eq]
  split <;> rfl

section Fire

variable {id : ℕ} {schedule : WithdrawalSchedule Address}

theorem fire_balance : (s.fire vault id schedule payout pools).balance =
    credit s.balance schedule.owner (-schedule.amountPerExecution) :=
  settle_balance

theorem fire_escrowed : (s.fire vault id schedule payout pools).escrowed =
    Function.update s.escrowed schedule.owner
      (max (s.escrowed schedule.owner + -schedule.amountPerExecution) 0) := by
  simp only [State.fire, State.adjust, settle_escrowed]

theorem fire_plans : (s.fire vault id schedule payout pools).plans =
    if schedule.advance.closed then s.plans.close id schedule.advance
    else s.plans.amend id schedule.advance := by
  have hnext : (s.settle vault schedule.owner schedule.recipient schedule.amountPerExecution
      payout pools).nextScheduleId = s.nextScheduleId := congrArg Register.next settle_plans
  simp only [State.fire, State.adjust, State.plans, hnext]
  split <;> rfl

end Fire

/-- What a settlement does to the queue: nothing, or a new request for what was not paid. -/
theorem settle_queue (owner payee : Address) (pools : List (PoolAllocation Address))
    (hvault : s.vault = some vault) (hle : payout ≤ shares) :
    (shares = payout ∧
        (s.settle vault owner payee shares payout pools).requests = s.requests ∧
        queuedAmount (s.settle vault owner payee shares payout pools) = queuedAmount s) ∨
      ∃ req : WithdrawalRequest Address, req.owner = payee ∧ req.closed = false ∧
        0 < req.remainingShares ∧ req.remainingShares = shares - payout ∧
        (s.settle vault owner payee shares payout pools).requests = s.requests.issue req ∧
        queuedAmount (s.settle vault owner payee shares payout pools) =
          queuedAmount s + req.remainingShares := by
  rw [queuedAmount_of_vault hvault]
  simp only [State.settle, pay_eq]
  split
  next hpos =>
    refine .inr ⟨⟨payee, shares - payout, shares - payout, 0, false⟩, rfl, rfl, hpos, rfl, ?_⟩
    exact ⟨rfl, rfl⟩
  next hpos => exact .inl ⟨by linarith, rfl, rfl⟩

theorem QueueSound.settle (h : QueueSound s.requests (queuedAmount s))
    (hvault : s.vault = some vault) (hle : payout ≤ shares) :
    QueueSound (s.settle vault owner payee shares payout pools).requests
      (queuedAmount (s.settle vault owner payee shares payout pools)) := by
  rcases settle_queue owner payee pools hvault hle with
    ⟨-, hrequests, hqueued⟩ | ⟨req, -, hopen, hpos, -, hrequests, hqueued⟩
  · rwa [hrequests, hqueued]
  · rw [hrequests, hqueued]
    exact h.issue hopen hpos

/-- **Every transition keeps sound accounts sound.** -/
theorem Sound.transition (h : Sound s) (ht : Transition host s t) : Sound t := by
  obtain ⟨hshares, hqueue, hplans⟩ := h
  cases ht with
  | neutral hneutral =>
    obtain ⟨htotal, hqueued, heq⟩ := hneutral
    have hbalance : t.balance = s.balance := by rw [heq]
    have hrequests : t.requests = s.requests := by rw [heq]; rfl
    have hschedules : t.plans = s.plans := by rw [heq]; rfl
    have hescrowed : t.escrowed = s.escrowed := by rw [heq]
    refine ⟨?_, ?_, ?_⟩
    · rwa [hbalance, htotal]
    · rwa [hrequests, hqueued]
    · rwa [hschedules, hescrowed, hbalance]
  | @mint vault account shares pools hvault hpos =>
    refine ⟨?_, ?_, ?_⟩
    · have hcredited := hshares.credited (a := account) (x := shares)
      rwa [totalShares_of_vault hvault] at hcredited
    · rwa [queuedAmount_of_vault hvault] at hqueue
    · apply hplans.credited
      exact (hplans.escrowed_le account).trans (by linarith)
  | settle hvault hpos hle hpay =>
    refine ⟨?_, hqueue.settle hvault hpay.le, ?_⟩
    · rw [settle_balance, totalShares_settle hvault]
      exact hshares.credited
    · rw [settle_plans, settle_escrowed, settle_balance]
      exact hplans.credited (by linarith)
  | gone hid hreq hgone =>
    -- the queue names open requests only
    obtain ⟨req', hreq', hopen⟩ := hqueue.sound.exists_of_mem hid
    obtain rfl := Option.some.inj (hreq'.symm.trans hreq)
    have hpos := (hqueue.sound.valid _ _ hreq').2 hopen
    rcases hgone with hclosed | hzero
    · rw [hopen] at hclosed
      cases hclosed
    · exact absurd hpos (not_lt.mpr hzero)
  | partly hreq hopen hpos hlt =>
    have hle := hqueue.le hreq hopen
    refine ⟨?_, ?_, hplans⟩
    · exact totalShares_reduce.symm ▸ hshares
    · have hqueued := queuedAmount_reduce hpos.le (hlt.le.trans hle)
      exact hqueued.symm ▸ hqueue.amend hreq hopen hopen hlt rfl
  | settled hreq hopen hpos =>
    refine ⟨?_, ?_, hplans⟩
    · exact totalShares_reduce.symm ▸ hshares
    · have hqueued := queuedAmount_reduce hpos.le (hqueue.le hreq hopen)
      exact hqueued.symm ▸ hqueue.close hreq hopen rfl rfl
  | writeOff hreq hopen hpos =>
    refine ⟨?_, ?_, hplans⟩
    · exact totalShares_reduce.symm ▸ hshares
    · have hqueued := queuedAmount_reduce hpos.le (hqueue.le hreq hopen)
      exact hqueued.symm ▸ hqueue.close hreq hopen rfl rfl
  | plan hopen hamount hnew htotal htime hle =>
    refine ⟨hshares, hqueue, ?_⟩
    exact hplans.plan hopen hamount (by rwa [hnew]) hle
  | ended hid hschedule hover =>
    -- the list names open schedules only, and these have executions left
    obtain ⟨schedule', hschedule', hopen⟩ := hplans.sound.exists_of_mem hid
    obtain rfl := Option.some.inj (hschedule'.symm.trans hschedule)
    have hlt := (hplans.sound.valid _ _ hschedule').2 hopen
    rcases hover with hclosed | hdone
    · rw [hopen] at hclosed
      cases hclosed
    · exact absurd hlt (not_lt.mpr hdone)
  | @fire vault id schedule payout pools hvault hschedule hopen hlt hpay =>
    have hamount := (hplans.sound.valid _ _ hschedule).1
    have hle := (hpay hamount).le
    refine ⟨?_, ?_, ?_⟩
    · show SharesSound (State.settle ..).balance (totalShares (State.settle ..))
      rw [settle_balance, totalShares_settle hvault]
      exact hshares.credited
    · exact hqueue.settle hvault hle
    · rw [fire_plans, fire_escrowed, fire_balance]
      exact hplans.fire hschedule hopen
  | release hschedule hopen hlt => exact ⟨hshares, hqueue, hplans.release hschedule hopen⟩

/-! ## Runs -/

theorem Sound.initial : Sound (State.initial : State Address) := by
  refine ⟨⟨?_, ?_⟩, ⟨Register.Sound.empty, rfl⟩, ⟨Register.Sound.empty, ?_, ?_⟩⟩
  · show (fun _ : Address => (0 : ℤ)).HasFiniteSupport
    simp [Function.HasFiniteSupport]
  · exact finsum_zero.symm
  · exact fun owner => rfl
  · exact fun owner => le_rfl

theorem Sound.transitions (h : Sound s) (ht : ReflTransGen (Transition host) s t) : Sound t := by
  induction ht with
  | refl => exact h
  | tail _ hlast ih => exact ih.transition hlast

/-- A call that returns keeps sound accounts sound. -/
theorem Sound.call {env : Env Address World} {call : Call Address} {v : Response Address}
    (h : Sound s) (hcall : Returns (entryPoint host Fallbacks.source env call) s v t) :
    Sound t :=
  h.transitions (MultiYieldVault.transitions h.plans.sound.nodup hcall)

/-- **Every run keeps sound accounts sound.** -/
theorem Sound.run
    {events : List (Event (Env Address World) (Call Address) Error (Response Address))}
    (h : Sound s) (hrun : Run (Step (entryPoint host Fallbacks.source)) s events t) : Sound t :=
  invariant_of_returns (P := fun _ _ _ => True) (fun hs hcall _ => hs.call hcall)
    (run_unconditional hrun) h

end Transitions

end MultiYieldVault
