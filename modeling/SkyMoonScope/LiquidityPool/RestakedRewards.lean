import SkyMoonScope.LiquidityPool.RewardBudget

/-!
# Pending rewards across a change of stake

The pending rewards of a user are what the stake is worth at the accumulator, less what the user
has claimed. `stake` and `unstake` bring the accumulator forward and change the stake, and record
nothing of what was earned with the stake before. The whole stake is then worth what it would have
earned from the beginning, so that staking makes up rewards and unstaking forfeits them.

## Main definitions

* `Call.newStake`: whose stake a call changes, and what it becomes
* `SameRewards index claimed x y`: the stakes have the same pending rewards

## Main results

* `pendingRewards_iff`: when a change of stake keeps the pending rewards
* `not_pendingRewards`: the rewards of ten ledgers are forfeited
-/

namespace LiquidityPool

open Soroban Machine Accrual Accumulator

variable {Address Tokens : Type}

/-- Whose stake the call changes, and what it becomes. -/
def Call.newStake (s : Storage Address Tokens) : Call Address → Option (Address × ℤ)
  | .stake user amount => some (user, getStakedBalance s user + amount)
  | .unstake user amount => some (user, getStakedBalance s user - amount)
  | _ => none

/-- The stakes `x` and `y` are worth the same whole number of rewards at the accumulator `index`, or
both are so far from what was claimed that the pending rewards do not fit. -/
def SameRewards (index claimed x y : ℤ) : Prop :=
  earned x index = earned y index ∨
    IntType.i128.hi ≤ earned x index - claimed ∧ IntType.i128.hi ≤ earned y index - claimed ∨
    earned x index - claimed ≤ IntType.i128.lo ∧ earned y index - claimed ≤ IntType.i128.lo

/-- At the ledger of the last checkpoint, the pending rewards are read off the accumulator. -/
theorem calculatePendingRewards_of_checkpoint {t : Storage Address Tokens} {user : Address}
    {sequence stakedAmount : ℤ} (h : t.lastRewardLedger = some sequence) :
    calculatePendingRewards sequence t user stakedAmount =
      IntType.i128.saturate (earned stakedAmount t.rewards.index - t.rewards.claimed user) := by
  have hindex : projectedRewardPerShare sequence t = t.rewards.index := by
    rw [projectedRewardPerShare, h]
    exact if_pos (.inl le_rfl)
  rw [calculatePendingRewards, hindex]
  rfl

section Staking

variable [DecidableEq Address] {host : Host Address Tokens} {s t : Storage Address Tokens}
  {call : Call Address} {v : Response Address} {user : Address} {x : ℤ}

/-- A change of stake brings the accumulator forward, and does nothing else to the rewards. -/
theorem rewards_after_staking (hcall : call.newStake s = some (user, x))
    (h : Returns (entryPoint host call) s v t) :
    t.rewards = (s.rewards.advance (projectedRewardPerShare host.sequence s)).restake user x ∧
      t.lastRewardLedger = some host.sequence := by
  rw [← rewards_accrued]
  cases sharesAfter h with
  | stake hauth hcover ht =>
    cases hcall
    exact ⟨rewards_restake (by rw [ht]; rfl) (by rw [ht]) (by rw [ht]), by rw [ht]; rfl⟩
  | unstake hauth hcover ht =>
    cases hcall
    exact ⟨rewards_restake (by rw [ht]; rfl) (by rw [ht]) (by rw [ht]), by rw [ht]; rfl⟩
  -- the calls that leave all stakes, and those that are not about stakes
  | same hcall' => cases call <;> cases hcall <;> cases hcall'
  | _ => cases hcall

/-- **A change of stake keeps the pending rewards** of its user just when the stakes before and
after it are worth the same at the accumulator of this ledger. -/
theorem pendingRewards_iff (hcall : call.newStake s = some (user, x))
    (h : Returns (entryPoint host call) s v t) :
    View.read host t (.getPendingRewards user) = View.read host s (.getPendingRewards user) ↔
      SameRewards (projectedRewardPerShare host.sequence s) ((s.userRewards user).getD 0)
        x (getStakedBalance s user) := by
  obtain ⟨hrewards, hlast⟩ := rewards_after_staking hcall h
  have hstake : getStakedBalance t user = x := by
    show t.rewards.stake user = x
    rw [hrewards, restake_stake, Function.update_self]
  have hafter : calculatePendingRewards host.sequence t user (getStakedBalance t user) =
      IntType.i128.saturate (earned x (projectedRewardPerShare host.sequence s) -
        (s.userRewards user).getD 0) := by
    rw [calculatePendingRewards_of_checkpoint hlast, hstake, hrewards]
    rfl
  rw [View.read, View.read, Response.amount.injEq, hafter, calculatePendingRewards,
    IntType.saturate_eq_saturate_iff (by decide), sub_left_inj, SameRewards]

end Staking

/-- A pool with two users of ten shares each, of which the first is staked in the first ledger. -/
def sampleStake : List (Host ℕ Unit × Call ℕ) :=
  [(sampleHost 1 [9], .initializePool 9 100 101),
   (sampleHost 1 [1], .deposit 1 10 10),
   (sampleHost 1 [1], .stake 1 10)]

/-- The second user stakes as well, before any rewards have accrued. -/
theorem pendingRewards_sample :
    let s := (execute (Storage.initial ())
      (sampleStake ++ [(sampleHost 1 [2], .deposit 2 10 10)])).2
    ∃ t, Returns (entryPoint (sampleHost 1 [2]) (.stake 2 10)) s .unit t ∧
      View.read (sampleHost 1 [2]) t (.getPendingRewards 2) =
        View.read (sampleHost 1 [2]) s (.getPendingRewards 2) := by
  intro s
  have hstake : ∃ t, Returns (entryPoint (sampleHost 1 [2]) (.stake 2 10)) s .unit t :=
    exists_returns_of_toOption (by decide)
  obtain ⟨t, ht⟩ := hstake
  have hcall : Call.newStake s (.stake 2 10) = some (2, 10) := by decide
  exact ⟨t, ht, (pendingRewards_iff hcall ht).mpr (.inl (by decide))⟩

/-- **Unstaking forfeits all rewards**: those of ten ledgers are pending before and not after it,
and nothing was paid. -/
theorem not_pendingRewards :
    ¬ ∀ (ls : List (Event ℕ Unit)) (s t : Storage ℕ Unit) (host : Host ℕ Unit) (user : ℕ)
      (amount : ℤ), Run Storage.step (Storage.initial ()) ls s →
      Returns (entryPoint host (.unstake user amount)) s .unit t →
      View.read host t (.getPendingRewards user) = View.read host s (.getPendingRewards user) := by
  intro h
  have hrun := run_execute (Storage.initial ()) sampleStake
  have hsame := h _ _ _ (sampleHost 11 [1]) 1 10 hrun rfl
  exact absurd hsame (by decide)

end LiquidityPool
