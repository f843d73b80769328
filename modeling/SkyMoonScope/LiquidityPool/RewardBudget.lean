import SkyMoonScope.Lib.Accrual
import SkyMoonScope.LiquidityPool.Conservation

/-!
# The budget of the rewards

A fixed number of rewards accrues per ledger and is shared by the stakers through an accumulator per
staked share. The contract keeps what a user has claimed, and pays the worth of the user's stake
less that. It takes no snapshot of the accumulator when a stake is raised, so that shares earn from
the beginning, whenever they were staked. The rewards paid stay within those that accrued as long
as a stake is only raised to what the user's claims make up already.

## Main definitions

* `Storage.rewards`: the stakes, the claims and the accumulator
* `paid`: the rewards that the claims of a run have paid
* `elapsed`: the number of ledgers since the first staking action of a run
* `CreditsNothing`: the change of a stake brings no rewards from before it
* `Budgeted`: the invariant, that the rewards since the first staking action cover all claims

## Main results

* `paid_le_of_neutral`: the rewards paid are within the budget when no stake brings rewards from
  before it
* `not_paid_le`: two stakers that come ten ledgers apart are paid twice what accrued
-/

namespace LiquidityPool

open Soroban Machine Accrual

variable {Address Tokens : Type}

/-- The stakes, what everyone has claimed, and the accumulator. -/
def Storage.rewards (s : Storage Address Tokens) : Accumulator Address ℤ where
  stake := getStakedBalance s
  claimed := fun a => (s.userRewards a).getD 0
  index := s.accumulatedRewardPerShare.getD 0

/-- What the call paid as rewards. -/
def Event.paid (l : Event Address Tokens) : ℤ :=
  match l.call, l.result with
  | .claimRewards _, .ok (.amount x) => x
  | _, _ => 0

/-- The rewards that the claims of a run have paid. -/
def paid (ls : List (Event Address Tokens)) : ℤ := (ls.map Event.paid).sum

/-- The call staked or unstaked shares. -/
def Event.isStaking (l : Event Address Tokens) : Bool :=
  match l.call, l.result with
  | .stake .., .ok _ | .unstake .., .ok _ => true
  | _, _ => false

/-- The ledger of the first staking action of a run. -/
def firstStaking (ls : List (Event Address Tokens)) : Option ℤ :=
  (ls.find? Event.isStaking).map fun l => l.host.sequence

/-- The number of ledgers since the first staking action. -/
def elapsed (ls : List (Event Address Tokens)) (now : ℤ) : ℤ :=
  (firstStaking ls).elim 0 fun first => now - first

/-- The stake of `user` changes by `amount` and stays nonnegative, and it is lowered, or else all
of it is worth no more than what the user has claimed. -/
def CreditsNothing (sequence : ℤ) (s : Storage Address Tokens) (user : Address) (amount : ℤ) :
    Prop :=
  0 ≤ getStakedBalance s user + amount ∧
    (amount ≤ 0 ∨ (getStakedBalance s user + amount) * projectedRewardPerShare sequence s ≤
      (s.userRewards user).getD 0 * rewardPrecision)

/-- The call brings nobody rewards from before it. -/
def Call.Neutral (sequence : ℤ) (s : Storage Address Tokens) : Call Address → Prop
  | .stake user amount => CreditsNothing sequence s user amount
  | .unstake user amount => CreditsNothing sequence s user (-amount)
  | _ => True

/-- A call that was neutral, where it returned. -/
def neutralStep [DecidableEq Address] (s : Storage Address Tokens) (l : Event Address Tokens)
    (t : Storage Address Tokens) : Prop :=
  s.step l t ∧ ∀ v, l.result = .ok v → l.call.Neutral l.host.sequence s

variable {s t : Storage Address Tokens} {l : Event Address Tokens}
  {ls : List (Event Address Tokens)} {sequence now : ℤ}

theorem paid_append : paid (ls ++ [l]) = paid ls + l.paid := by
  rw [paid, List.map_append, List.sum_append, List.map_singleton, List.sum_singleton, paid]

theorem firstStaking_append :
    firstStaking (ls ++ [l]) =
      (firstStaking ls).or (if l.isStaking then some l.host.sequence else none) := by
  rw [firstStaking, List.find?_append, Option.map_or, firstStaking]
  cases h : l.isStaking <;> simp [h]

/-! ## The accumulator -/

/-- A value that is not negative saturates to one that is not negative either. -/
theorem saturate_nonneg {x : ℤ} (h : 0 ≤ x) :
    0 ≤ IntType.i128.saturate x ∧ IntType.i128.saturate x ≤ x := by
  constructor
  · exact le_max_of_le_right (le_min h (by decide))
  · exact IntType.saturate_le (le_trans (by decide) h)

/-- The increment of the accumulator, times the shares, is at most the rewards of the ledgers that
have passed. It is zero where these overflow. -/
theorem increment_mul_le {ledgers total : ℤ} (hledgers : 0 ≤ ledgers) (htotal : 0 < total)
    {scaled : Option ℤ}
    (hscaled : scaled = (IntType.i128.checked (ledgers * rewardsPerLedger)).bind fun newRewards =>
      IntType.i128.checked (newRewards * rewardPrecision)) :
    0 ≤ (scaled.map fun scaled => scaled.tdiv total).getD 0 ∧
      (scaled.map fun scaled => scaled.tdiv total).getD 0 * total ≤
        ledgers * (rewardsPerLedger * rewardPrecision) := by
  have hrewards : 0 ≤ ledgers * (rewardsPerLedger * rewardPrecision) :=
    mul_nonneg hledgers (by decide)
  cases scaled with
  | none => simpa using hrewards
  | some x =>
    obtain ⟨_, hnew, hx⟩ := Option.bind_eq_some_iff.mp hscaled.symm
    obtain ⟨-, rfl⟩ := IntType.checked_eq_some.mp hnew
    obtain ⟨-, rfl⟩ := IntType.checked_eq_some.mp hx
    rw [mul_assoc, Option.map_some, Option.getD_some]
    exact ⟨Int.tdiv_nonneg hrewards htotal.le, IntType.tdiv_mul_le hrewards htotal.le⟩

/-- What the accumulator gains per share, times the shares, is at most the rewards of the ledgers
since the last checkpoint. -/
theorem projectedRewardPerShare_le (hindex : 0 ≤ s.rewards.index)
    (hlast : ∀ last, s.lastRewardLedger = some last → last ≤ sequence) :
    ∃ inc, 0 ≤ inc ∧ 0 ≤ projectedRewardPerShare sequence s ∧
      projectedRewardPerShare sequence s ≤ s.rewards.index + inc ∧
      inc * getTotalStaked s ≤
        (sequence - s.lastRewardLedger.getD sequence) * (rewardsPerLedger * rewardPrecision) := by
  unfold projectedRewardPerShare
  cases h : s.lastRewardLedger with
  | none => exact ⟨0, le_refl 0, hindex, le_add_of_nonneg_right le_rfl, by simp⟩
  | some last =>
    have hledgers := sub_nonneg.mpr (hlast last h)
    rw [Option.getD_some]
    dsimp only
    split
    · -- no ledger has passed, or nothing is staked
      refine ⟨0, le_refl 0, hindex, le_add_of_nonneg_right le_rfl, ?_⟩
      rw [zero_mul]
      exact mul_nonneg hledgers (by decide)
    · next hpassed =>
      obtain ⟨-, htotal⟩ := not_or.mp hpassed
      obtain ⟨hinc, hmul⟩ := increment_mul_le hledgers (not_le.mp htotal) rfl
      obtain ⟨hnonneg, hle⟩ := saturate_nonneg (add_nonneg hindex hinc)
      exact ⟨_, hinc, hnonneg, hle, hmul⟩

/-- What a stake has earned is not negative, and at most its worth at the accumulator. -/
theorem earned_mul_le {stakedAmount index : ℤ} (hstake : 0 ≤ stakedAmount) (hindex : 0 ≤ index) :
    earned stakedAmount index * rewardPrecision ≤ stakedAmount * index := by
  have hworth := mul_nonneg hstake hindex
  unfold earned
  cases h : IntType.i128.checked (stakedAmount * index) with
  | none => simpa using hworth
  | some x =>
    obtain ⟨-, rfl⟩ := IntType.checked_eq_some.mp h
    exact IntType.tdiv_mul_le hworth (by decide)

theorem rewards_accrued :
    (accrued sequence s).rewards = s.rewards.advance (projectedRewardPerShare sequence s) := by
  have hindex : (accrued sequence s).accumulatedRewardPerShare.getD 0 =
      projectedRewardPerShare sequence s := by
    unfold accrued projectedRewardPerShare
    cases s.lastRewardLedger <;> rfl
  rw [Storage.rewards, hindex]
  rfl

/-! ## The invariant -/

/-- The rewards since the first staking action cover all claims. -/
structure Budgeted (ls : List (Event Address Tokens)) (now : ℤ) (s : Storage Address Tokens) :
    Prop where
  balanced : Balanced s.book
  funded : Funded rewardPrecision s.rewards
    (elapsed ls (s.lastRewardLedger.getD 0) * (rewardsPerLedger * rewardPrecision))
  paid_le : paid ls ≤ ∑ᶠ a, s.rewards.claimed a
  checkpoint : ∀ last, s.lastRewardLedger = some last → last ≤ now
  first : ∀ first, firstStaking ls = some first →
    ∃ last, s.lastRewardLedger = some last ∧ first ≤ last
  unstaked : firstStaking ls = none → ∀ a, s.rewards.stake a = 0

theorem budgeted_initial {tokens : Tokens} :
    Budgeted [] now (Storage.initial tokens : Storage Address Tokens) where
  balanced := balanced_initial tokens
  funded := by
    rw [elapsed, firstStaking, List.find?_nil, Option.map_none, Option.elim_none, zero_mul]
    exact funded_zero
  paid_le := by
    show (0 : ℤ) ≤ ∑ᶠ _ : Address, (0 : ℤ)
    simp
  checkpoint := by rintro last ⟨⟩
  first := by rintro first ⟨⟩
  unstaked := fun _ _ => rfl

namespace Budgeted

theorem index_nonneg (h : Budgeted ls now s) : 0 ≤ s.rewards.index := by
  obtain ⟨_, hcovers⟩ := h.funded
  exact hcovers.index_nonneg

theorem stake_nonneg (h : Budgeted ls now s) {user : Address} : 0 ≤ s.rewards.stake user := by
  obtain ⟨_, hcovers⟩ := h.funded
  exact hcovers.stake_nonneg user

/-- What is distributed up to the ledger `sequence` is what the budget grows by. -/
theorem distributed_le (h : Budgeted ls now s) {inc : ℤ}
    (hmul : inc * getTotalStaked s ≤
      (sequence - s.lastRewardLedger.getD sequence) * (rewardsPerLedger * rewardPrecision)) :
    inc * ∑ᶠ a, s.rewards.stake a ≤ elapsed ls sequence * (rewardsPerLedger * rewardPrecision) -
      elapsed ls (s.lastRewardLedger.getD 0) * (rewardsPerLedger * rewardPrecision) := by
  cases hfirst : firstStaking ls with
  | none =>
    -- nothing is staked yet
    rw [finsum_congr (h.unstaked hfirst), finsum_zero, mul_zero, elapsed, elapsed, hfirst]
    simp
  | some first =>
    obtain ⟨last, hlast, -⟩ := h.first first hfirst
    have htotal : ∑ᶠ a, s.rewards.stake a = getTotalStaked s := h.balanced.staked_eq.symm
    simp only [hlast, Option.getD_some] at hmul ⊢
    rw [htotal, elapsed, elapsed, hfirst]
    refine hmul.trans (le_of_eq ?_)
    show _ = (sequence - first) * _ - (last - first) * _
    ring

/-- Bringing the rewards forward adds to the accumulator at most what accrues meanwhile. -/
theorem accrue (h : Budgeted ls now s) (hnow : now ≤ sequence) :
    Budgeted ls sequence (accrued sequence s) := by
  have hlast : ∀ last, s.lastRewardLedger = some last → last ≤ sequence :=
    fun last hl => (h.checkpoint last hl).trans hnow
  obtain ⟨inc, hinc, hnonneg, hle, hmul⟩ := projectedRewardPerShare_le h.index_nonneg hlast
  refine ⟨h.balanced, ?_, h.paid_le, ?_, ?_, h.unstaked⟩
  · rw [rewards_accrued]
    have hadvance := h.funded.advance h.balanced.staked_finite hnonneg hinc hle
      (h.distributed_le hmul)
    rwa [add_sub_cancel] at hadvance
  · rintro last ⟨⟩
    exact le_refl sequence
  · intro first hfirst
    obtain ⟨last, hl, hle⟩ := h.first first hfirst
    exact ⟨sequence, rfl, hle.trans (hlast last hl)⟩

/-- After a call that is no staking action. -/
theorem of_not_isStaking (h : Budgeted ls now s) (hnow : now ≤ l.host.sequence)
    (hbalanced : Balanced t.book) (hstake : t.rewards.stake = s.rewards.stake)
    (hlast : t.lastRewardLedger = s.lastRewardLedger) (hstaking : l.isStaking = false)
    (hfunded : Funded rewardPrecision t.rewards
      (elapsed ls (s.lastRewardLedger.getD 0) * (rewardsPerLedger * rewardPrecision)))
    (hpaid : paid ls + l.paid ≤ ∑ᶠ a, t.rewards.claimed a) :
    Budgeted (ls ++ [l]) l.host.sequence t := by
  have hfirst : firstStaking (ls ++ [l]) = firstStaking ls := by
    rw [firstStaking_append, hstaking]
    simp
  refine ⟨hbalanced, ?_, ?_, ?_, ?_, ?_⟩
  · rw [hlast, elapsed, hfirst]
    exact hfunded
  · rw [paid_append]
    exact hpaid
  · intro last hl
    exact (h.checkpoint last (hlast ▸ hl)).trans hnow
  · intro first hl
    rw [hlast]
    exact h.first first (hfirst ▸ hl)
  · intro hnone
    rw [hstake]
    exact h.unstaked (hfirst ▸ hnone)

/-- After a call that leaves the rewards alone. -/
theorem frame (h : Budgeted ls now s) (hnow : now ≤ l.host.sequence)
    (hbalanced : Balanced t.book) (hrewards : t.rewards = s.rewards)
    (hlast : t.lastRewardLedger = s.lastRewardLedger) (hpaid : l.paid = 0)
    (hstaking : l.isStaking = false) : Budgeted (ls ++ [l]) l.host.sequence t := by
  apply h.of_not_isStaking hnow hbalanced (by rw [hrewards]) hlast hstaking
  · rw [hrewards]
    exact h.funded
  · rw [hpaid, add_zero, hrewards]
    exact h.paid_le

/-- After a claim that paid no more than the worth of the stake less what was claimed before. -/
theorem claim [DecidableEq Address] {user : Address} {x : ℤ}
    (h : Budgeted ls l.host.sequence s) (hbalanced : Balanced t.book)
    (hrewards : t.rewards = s.rewards.claim user x)
    (hlast : t.lastRewardLedger = s.lastRewardLedger) (hstaking : l.isStaking = false)
    (hpos : 0 ≤ l.paid) (hpaid : l.paid ≤ x - s.rewards.claimed user)
    (hle : x * rewardPrecision ≤ s.rewards.stake user * s.rewards.index) :
    Budgeted (ls ++ [l]) l.host.sequence t := by
  have hprecision : 0 < rewardPrecision := by decide
  apply h.of_not_isStaking le_rfl hbalanced (by rw [hrewards]; rfl) hlast hstaking
  · rw [hrewards]
    exact h.funded.claim (by linarith) hle
  · rw [hrewards, h.funded.total_claim hprecision]
    exact add_le_add h.paid_le hpaid

/-- A staking action right after the rewards were brought forward. -/
theorem restake [DecidableEq Address] {user : Address} {x : ℤ}
    (h : Budgeted ls l.host.sequence s) (hs : s.lastRewardLedger = some l.host.sequence)
    (hbalanced : Balanced t.book) (hrewards : t.rewards = s.rewards.restake user x)
    (hlast : t.lastRewardLedger = s.lastRewardLedger) (hpaid : l.paid = 0)
    (hstaking : l.isStaking = true) (hx : 0 ≤ x)
    (hle : x ≤ s.rewards.stake user ∨
      x * s.rewards.index ≤ s.rewards.claimed user * rewardPrecision) :
    Budgeted (ls ++ [l]) l.host.sequence t := by
  have hfirst : firstStaking (ls ++ [l]) = some ((firstStaking ls).getD l.host.sequence) := by
    rw [firstStaking_append, hstaking]
    cases firstStaking ls <;> rfl
  refine ⟨hbalanced, ?_, ?_, ?_, ?_, ?_⟩
  · have helapsed : elapsed (ls ++ [l]) (t.lastRewardLedger.getD 0) =
        elapsed ls (s.lastRewardLedger.getD 0) := by
      rw [hlast, hs, elapsed, elapsed, hfirst]
      cases firstStaking ls <;> simp
    rw [helapsed, hrewards]
    exact h.funded.restake hx hle
  · rw [paid_append, hpaid, add_zero, hrewards]
    exact h.paid_le
  · intro last hl
    exact h.checkpoint last (hlast ▸ hl)
  · rintro first hl
    obtain rfl := Option.some.inj (hfirst.symm.trans hl)
    refine ⟨l.host.sequence, hlast.trans hs, ?_⟩
    cases hf : firstStaking ls with
    | none => exact le_refl _
    | some first =>
      obtain ⟨last, hl', hle⟩ := h.first first hf
      exact hle.trans (h.checkpoint last hl')
  · intro hnone
    rw [hfirst] at hnone
    cases hnone

end Budgeted

/-! ## Runs -/

theorem rewards_congr (h : SameShares s t) : t.rewards = s.rewards := by
  have hstake : getStakedBalance t = getStakedBalance s := by
    ext a
    rw [getStakedBalance, h.stakedBalance, getStakedBalance]
  rw [Storage.rewards, hstake, h.userRewards, h.accumulatedRewardPerShare]
  rfl

/-- A payment is at most the worth of the stake less what was claimed. -/
theorem paid_le_of_pending {user : Address} {stakedAmount x : ℤ} (hpos : 0 < x)
    (hx : x = calculatePendingRewards sequence s user stakedAmount) :
    x ≤ earned stakedAmount (projectedRewardPerShare sequence s) - s.rewards.claimed user := by
  rw [calculatePendingRewards, IntType.saturate] at hx
  rcases le_max_iff.mp hx.le with hlo | hle
  · exact absurd (hpos.trans_le hlo) (by decide)
  · exact hle.trans (min_le_left _ _)

/-- The accumulator is not brought forward twice. -/
theorem projectedRewardPerShare_accrued :
    projectedRewardPerShare sequence (accrued sequence s) =
      (accrued sequence s).rewards.index := by
  rw [projectedRewardPerShare, Storage.rewards]
  exact if_pos (.inl le_rfl)

/-- A neutral stake is worth no more than before, or no more than what was claimed. -/
theorem CreditsNothing.le {user : Address} {amount : ℤ}
    (h : CreditsNothing sequence s user amount) :
    getStakedBalance s user + amount ≤ (accrued sequence s).rewards.stake user ∨
      (getStakedBalance s user + amount) * (accrued sequence s).rewards.index ≤
        (accrued sequence s).rewards.claimed user * rewardPrecision := by
  rw [rewards_accrued]
  apply h.2.imp_left
  intro hle
  show getStakedBalance s user + amount ≤ getStakedBalance s user
  linarith

section

variable [DecidableEq Address]

/-- What is written as the staked balance of a user becomes its stake. -/
theorem rewards_restake {user : Address} {x : ℤ}
    (hstaked : t.stakedBalance = Function.update s.stakedBalance user (some x))
    (hclaimed : t.userRewards = s.userRewards)
    (hindex : t.accumulatedRewardPerShare = s.accumulatedRewardPerShare) :
    t.rewards = s.rewards.restake user x := by
  have hstake : getStakedBalance t = Function.update (getStakedBalance s) user x := by
    show (fun a => (t.stakedBalance a).getD 0) = _
    rw [hstaked, getD_update]
    rfl
  rw [Storage.rewards, hstake, hclaimed, hindex]
  rfl

/-- What is written as the rewards of a user becomes its claims. -/
theorem rewards_claim {user : Address} {x : ℤ} (hstaked : t.stakedBalance = s.stakedBalance)
    (hclaimed : t.userRewards = Function.update s.userRewards user (some x))
    (hindex : t.accumulatedRewardPerShare = s.accumulatedRewardPerShare) :
    t.rewards = s.rewards.claim user x := by
  have hstake : getStakedBalance t = getStakedBalance s := by
    ext a
    rw [getStakedBalance, hstaked, getStakedBalance]
  rw [Storage.rewards, hstake, hclaimed, hindex, getD_update]
  rfl

/-- **A neutral call keeps the claims within the budget.** -/
theorem Budgeted.step (h : Budgeted ls now s) (hnow : now ≤ l.host.sequence)
    (hl : neutralStep s l t) : Budgeted (ls ++ [l]) l.host.sequence t := by
  obtain ⟨hstep, hneutral⟩ := hl
  have hbalanced := h.balanced.step hstep
  have haccrued := h.accrue hnow
  obtain ⟨host, call, result⟩ := l
  rcases Storage.step_cases hstep with ⟨v, rfl, hreturns⟩ | ⟨⟨fault, rfl⟩, rfl⟩
  · have hneutral := hneutral v rfl
    cases sharesAfter hreturns with
    | same hcall hsame =>
      -- neither a claim nor a staking action
      have hlabel : (⟨host, call, .ok v⟩ : Event Address Tokens).paid = 0 ∧
          (⟨host, call, .ok v⟩ : Event Address Tokens).isStaking = false := by
        cases call <;> first | exact ⟨rfl, rfl⟩ | cases hcall
      exact h.frame hnow hbalanced (rewards_congr hsame) hsame.lastRewardLedger hlabel.1 hlabel.2
    | deposit hpool hauth hnet ht =>
      exact h.frame hnow hbalanced (by rw [ht]; rfl) (by rw [ht]) rfl rfl
    | withdraw hpool hauth hpos hcover hearly ha hb ht =>
      exact h.frame hnow hbalanced (by rw [ht]; rfl) (by rw [ht]) rfl rfl
    | burn hpool hauth hcover ht =>
      exact h.frame hnow hbalanced (by rw [ht]; rfl) (by rw [ht]) rfl rfl
    | transfer hauth hcover ht =>
      exact h.frame hnow hbalanced (by rw [ht]; rfl) (by rw [ht]) rfl rfl
    | approve ht =>
      exact h.frame hnow hbalanced (by rw [ht]; rfl) (by rw [ht]) rfl rfl
    | transferFrom hspender hauth hallowed hcover ht =>
      exact h.frame hnow hbalanced (by rw [ht]; rfl) (by rw [ht]) rfl rfl
    -- the rewards are brought forward before the stake changes, or before they are paid
    | stake hauth hcover ht =>
      have hrewards := rewards_restake (s := accrued host.sequence s) (t := t)
        (by rw [ht]; rfl) (by rw [ht]) (by rw [ht])
      exact haccrued.restake rfl hbalanced hrewards (by rw [ht]) rfl rfl hneutral.1 hneutral.le
    | unstake hauth hcover ht =>
      have hrewards := rewards_restake (s := accrued host.sequence s) (t := t)
        (by rw [ht]; rfl) (by rw [ht]) (by rw [ht])
      exact haccrued.restake rfl hbalanced hrewards (by rw [ht]) rfl rfl hneutral.1 hneutral.le
    | claimNothing ht =>
      exact haccrued.frame le_rfl hbalanced (by rw [ht]) (by rw [ht]) rfl rfl
    | claimRewards hpos hpaid ht =>
      rw [projectedRewardPerShare_accrued] at ht
      have hrewards := rewards_claim (s := accrued host.sequence s) (t := t)
        (by rw [ht]) (by rw [ht]; rfl) (by rw [ht])
      have hle := paid_le_of_pending hpos hpaid
      rw [projectedRewardPerShare_accrued] at hle
      exact haccrued.claim hbalanced hrewards (by rw [ht]) rfl hpos.le hle
        (earned_mul_le haccrued.stake_nonneg haccrued.index_nonneg)
  · -- a call that fails pays nothing and stakes nothing
    refine h.frame hnow hbalanced rfl rfl ?_ ?_
    · cases call <;> rfl
    · cases call <;> rfl

/-- **Reward budget.** In every run at ledgers that do not decrease where no stake brings rewards
from before it, the claims have paid at most what accrued since the first staking action. -/
theorem paid_le_of_neutral {tokens : Tokens} {start : ℤ}
    (h : Run (timed Event.ledger neutralStep) (start, Storage.initial tokens) ls (now, s)) :
    paid ls ≤ rewardsPerLedger * elapsed ls now := by
  have hbudgeted : Budgeted ls now s := by
    refine h.history (H := fun ls p => Budgeted ls p.1 p.2) ?_ budgeted_initial
    rintro ls ⟨now, u⟩ l ⟨now', w⟩ hu ⟨hnow, rfl, hstep⟩
    exact hu.step hnow hstep
  have hprecision : 0 < rewardPrecision := by decide
  have htotal := hbudgeted.funded.total_claimed_le hprecision
  -- the last checkpoint is not after the end of the run
  have helapsed : elapsed ls (s.lastRewardLedger.getD 0) ≤ elapsed ls now := by
    rw [elapsed, elapsed]
    cases hfirst : firstStaking ls with
    | none => exact le_rfl
    | some first =>
      obtain ⟨last, hlast, -⟩ := hbudgeted.first first hfirst
      rw [hlast]
      exact sub_le_sub_right (hbudgeted.checkpoint last hlast) first
  calc paid ls ≤ ∑ᶠ a, s.rewards.claimed a := hbudgeted.paid_le
    _ ≤ elapsed ls (s.lastRewardLedger.getD 0) * rewardsPerLedger := by
      rw [← mul_assoc] at htotal
      exact le_of_mul_le_mul_right htotal hprecision
    _ ≤ elapsed ls now * rewardsPerLedger := mul_le_mul_of_nonneg_right helapsed (by decide)
    _ = rewardsPerLedger * elapsed ls now := mul_comm _ _

end

/-- Two stakes of ten shares, the second at the ledger `sequence`, and two claims at ledger 11. -/
def sampleStakes (sequence : ℤ) : List (Host ℕ Unit × Call ℕ) :=
  [(sampleHost 1 [9], .initializePool 9 100 101),
   (sampleHost 1 [1], .deposit 1 10 10),
   (sampleHost 1 [2], .deposit 2 10 10),
   (sampleHost 1 [1], .stake 1 10),
   (sampleHost sequence [2], .stake 2 10),
   (sampleHost 11 [2], .claimRewards 2),
   (sampleHost 11 [1], .claimRewards 1)]

theorem paid_le_of_neutral_sample :
    ∃ (ls : List (Event ℕ Unit)) (s : Storage ℕ Unit),
      Run (timed Event.ledger neutralStep) (0, Storage.initial ()) ls (11, s) ∧
      paid ls = 100000000 ∧ paid ls ≤ rewardsPerLedger * elapsed ls 11 := by
  have hrun : ∃ s, Run neutralStep (Storage.initial ())
      (execute (Storage.initial ()) (sampleStakes 1)).1 s := by
    refine ⟨_, .cons ⟨rfl, fun _ _ => trivial⟩ <| .cons ⟨rfl, fun _ _ => trivial⟩ <|
      .cons ⟨rfl, fun _ _ => trivial⟩ <| .cons ⟨rfl, fun _ _ => ⟨?_, .inr ?_⟩⟩ <|
      .cons ⟨rfl, fun _ _ => ⟨?_, .inr ?_⟩⟩ <| .cons ⟨rfl, fun _ _ => trivial⟩ <|
      .cons ⟨rfl, fun _ _ => trivial⟩ <| .nil _⟩
    all_goals decide
  obtain ⟨s, hrun⟩ := hrun
  have htimed : Run (timed Event.ledger neutralStep) (0, Storage.initial ()) _ (11, s) :=
    hrun.timed (by decide)
  exact ⟨_, s, htimed, rfl, paid_le_of_neutral htimed⟩

/-- The second of two stakers is paid for the ledgers before its stake, and the first as well. -/
theorem not_paid_le :
    ¬ ∀ (start now : ℤ) (ls : List (Event ℕ Unit)) (s : Storage ℕ Unit),
      Run (timed Event.ledger Storage.step) (start, Storage.initial ()) ls (now, s) →
      paid ls ≤ rewardsPerLedger * elapsed ls now := by
  intro h
  have hrun := run_execute (Storage.initial ()) (sampleStakes 11)
  have hle := h 0 _ _ _ (hrun.timed (by decide))
  exact absurd hle (by decide)

end LiquidityPool
