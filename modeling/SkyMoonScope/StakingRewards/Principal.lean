import SkyMoonScope.Soroban.Arithmetic
import SkyMoonScope.Soroban.Calls
import SkyMoonScope.StakingRewards.Staking

/-!
# The stakes are backed

The contract pays rewards and stakes out of its balances. When the rewards are paid in another token
than the stakes, its balance in the staking token covers all stakes in every run, whatever the
penalties. The initialization also accepts one token for both, and then a claim can pay rewards out
of the stakes of others.

## Main definitions

* `Principal`: the total is that of the stakes, and the balance covers it

## Main results

* `principal_post`: what is posted to the entry of a staker
* `principal_step`: every call that returns keeps the stakes backed
* `principal_safe`: so they are in every run
* `principal_paid_out`: a run in which they are not, with one token for both
-/

namespace StakingRewards

open Soroban Machine Accounts Function

variable {Address Tokens : Type}

/-- The total is that of the stakes, none of which is negative, and the balance in the staking token
covers it when the rewards are paid in another one. -/
structure Principal (host : Host Address Tokens) (s : State Address Tokens) : Prop where
  nonneg : ∀ user, 0 ≤ getStakedBalance s user
  finite : (getStakedBalance s).HasFiniteSupport
  total_eq : s.totalStaked = ∑ᶠ user, getStakedBalance s user
  backed : ∀ config, s.config = some config → config.stakingToken ≠ config.rewardToken →
    s.totalStaked ≤ host.balance config.stakingToken s.tokens host.currentContractAddress
  fresh : s.config = none → ∀ user, s.userState user = none

section Step

variable [DecidableEq Address] {host : Host Address Tokens} {env : Env host}
  {s t : State Address Tokens} {r : Unit} {v : ℤ} {user : Address} {amount : ℤ}

/-- The stakes after an entry was written are credited by the difference. -/
theorem staked_update {o : Option UserStakingState} {x : ℤ}
    (hentry : o.elim 0 UserStakingState.stakedAmount = getStakedBalance s user + x)
    (total : ℤ) (tokens : Tokens) :
    getStakedBalance { s with
      tokens
      totalStaked := total
      userState := update s.userState user o } = credit (getStakedBalance s) user x := by
  ext other
  by_cases hother : other = user
  · subst hother
    rw [credit_self, ← hentry]
    unfold getStakedBalance
    dsimp only
    rw [update_self]
  · rw [credit_of_ne hother]
    unfold getStakedBalance
    dsimp only
    rw [update_of_ne hother]

/-- **What is posted** to an entry is added to the total, and must come in with it. -/
theorem principal_post (hs : Principal host s) {o : Option UserStakingState} {x : ℤ}
    {tokens : Tokens} {config : StakingConfig Address} (hconfig : s.config = some config)
    (hentry : o.elim 0 UserStakingState.stakedAmount = getStakedBalance s user + x)
    (hx : 0 ≤ getStakedBalance s user + x)
    (hbacked : config.stakingToken ≠ config.rewardToken →
      host.balance config.stakingToken s.tokens host.currentContractAddress + x ≤
        host.balance config.stakingToken tokens host.currentContractAddress) :
    Principal host { s with
      tokens
      totalStaked := s.totalStaked + x
      userState := update s.userState user o } := by
  refine ⟨?_, ?_, ?_, ?_, ?_⟩
  · rw [staked_update hentry]
    exact (credit_nonneg_iff hs.nonneg).mpr hx
  · rw [staked_update hentry]
    exact hasFiniteSupport_credit hs.finite
  · rw [staked_update hentry]
    dsimp only
    rw [finsum_credit hs.finite, hs.total_eq]
  · intro config' hconfig' hne
    obtain rfl := Option.some.inj (hconfig.symm.trans hconfig')
    have hbefore := hs.backed config hconfig hne
    have hafter := hbacked hne
    dsimp only
    linarith
  · intro hnone
    cases hconfig.symm.trans hnone

omit [DecidableEq Address] in
/-- The tokens as they are when a call is made. -/
theorem principal_outside (env : Env host) (hs : Principal host s) :
    Principal host { s with tokens := env.outside s.tokens } :=
  ⟨hs.nonneg, hs.finite, hs.total_eq,
    fun config hconfig hne => (hs.backed config hconfig hne).trans (env.outside_keeps _ _),
    hs.fresh⟩

omit [DecidableEq Address] in
theorem principal_snapshotted {config : StakingConfig Address} (hs : Principal host s)
    (h : Snapshotted config s t) : Principal host t := by
  obtain ⟨⟨snapshots, rfl⟩, -⟩ := h
  exact ⟨hs.nonneg, hs.finite, hs.total_eq, hs.backed, hs.fresh⟩

omit [DecidableEq Address] in
/-- Who has authorized the call is not the contract. -/
theorem ne_of_auth {addr : Address} (h : env.auth addr = true) :
    addr ≠ host.currentContractAddress := by
  rintro rfl
  rw [env.auth_contract] at h
  cases h

omit [DecidableEq Address] in
theorem snapshotted_fields {config : StakingConfig Address} (h : Snapshotted config s t) :
    t.config = s.config ∧ getStakedBalance t = getStakedBalance s := by
  obtain ⟨⟨snapshots, rfl⟩, -⟩ := h
  exact ⟨rfl, rfl⟩

theorem principal_initialize {owner stakingToken rewardToken : Address}
    {initialRate epochDecayPercent : ℤ} {epochLength startBlock : ℕ}
    (htoken : Conforming host.toTokenInterface) (hs : Principal host s)
    (h : Returns (initializeStaking owner stakingToken rewardToken initialRate epochDecayPercent
      epochLength startBlock) s r t) : Principal host t := by
  obtain ⟨hnone, -, guard, rfl⟩ := returns_initializeStaking h
  -- there are no stakes before the initialization
  have hzero : ∀ user, getStakedBalance s user = 0 := fun user => by
    rw [getStakedBalance, hs.fresh hnone user, Option.elim_none]
  have htotal : (0 : ℤ) = ∑ᶠ user, getStakedBalance s user := by
    simp only [hzero, finsum_zero]
  exact ⟨hs.nonneg, hs.finite, htotal, fun config _ _ => htoken.balance_nonneg _ _ _,
    fun hconfig => by cases hconfig⟩

theorem principal_stake (htoken : Conforming host.toTokenInterface) (hs : Principal host s)
    (h : Returns (stake env user amount) s r t) : Principal host t := by
  obtain ⟨config, state, u, tokens, hconfig, hauth, hamount, hupdate, htransfer, rfl⟩ :=
    returns_stake h
  obtain ⟨hsnapshotted, hstaked, -⟩ := returns_updateUserRewards hupdate
  obtain ⟨hconfig', hstakes⟩ := snapshotted_fields hsnapshotted
  rw [← hstakes] at hstaked
  have hu := principal_snapshotted hs hsnapshotted
  have hentry := hu.nonneg user
  refine principal_post hu (hconfig'.trans hconfig) ?_ (by linarith) fun _ => ?_
  · rw [Option.elim_some, hstaked]
  · rw [htoken.balance_transfer htransfer, move_destination (ne_of_auth hauth)]

theorem principal_withdraw (htoken : Conforming host.toTokenInterface) (hs : Principal host s)
    (h : Returns (withdraw env user amount) s r t) : Principal host t := by
  obtain ⟨config, state, u, tokens, hconfig, hauth, hamount, hupdate, hle, htransfer, rfl⟩ :=
    returns_withdraw h
  obtain ⟨hsnapshotted, hstaked, -⟩ := returns_updateUserRewards hupdate
  obtain ⟨hconfig', hstakes⟩ := snapshotted_fields hsnapshotted
  rw [← hstakes] at hstaked
  have hu := principal_snapshotted hs hsnapshotted
  rw [sub_eq_add_neg u.totalStaked]
  refine principal_post hu (hconfig'.trans hconfig) ?_ (by linarith) fun _ => ?_
  · split
    next hempty =>
      rw [Option.elim_none, ← hstaked, ← hempty.1, sub_eq_add_neg]
    next => rw [Option.elim_some, hstaked, sub_eq_add_neg]
  · rw [htoken.balance_transfer htransfer, move_source (ne_of_auth hauth).symm, sub_eq_add_neg]

theorem principal_claim (htoken : Conforming host.toTokenInterface) (hs : Principal host s)
    (h : Returns (claim env user) s v t) : Principal host t := by
  obtain ⟨config, state, u, hconfig, hauth, hupdate, ⟨-, rfl⟩ | ⟨-, tokens, htransfer, rfl⟩⟩ :=
    returns_claim h
  · exact principal_snapshotted hs (returns_updateUserRewards hupdate).1
  · obtain ⟨hsnapshotted, hstaked, -⟩ := returns_updateUserRewards hupdate
    obtain ⟨hconfig', hstakes⟩ := snapshotted_fields hsnapshotted
    rw [← hstakes] at hstaked
    have hu := principal_snapshotted hs hsnapshotted
    have hpost : Principal host { u with
        tokens
        totalStaked := u.totalStaked + 0
        userState := update u.userState user
          (if state.stakedAmount = 0 then none else some { state with accruedRewards := 0 }) } := by
      refine principal_post hu (hconfig'.trans hconfig) ?_ (by linarith [hu.nonneg user])
        fun hne => ?_
      · split
        next hempty => rw [Option.elim_none, ← hstaked, hempty, add_zero]
        next => rw [Option.elim_some, hstaked, add_zero]
      · -- the rewards are paid in the other token
        rw [htoken.balance_transfer_of_ne htransfer hne, add_zero]
    rwa [add_zero] at hpost

theorem principal_emergencyWithdraw (htoken : Conforming host.toTokenInterface)
    (hs : Principal host s) (h : Returns (emergencyWithdraw env user) s v t) :
    Principal host t := by
  obtain ⟨config, hconfig, hauth, ⟨-, rfl⟩ | ⟨state, hstate, hcase⟩⟩ := returns_emergencyWithdraw h
  · exact hs
  · have hstaked : getStakedBalance s user = state.stakedAmount := by
      rw [getStakedBalance, hstate, Option.elim_some]
    have hnonneg := hs.nonneg user
    rcases hcase with ⟨hle, rfl⟩ | ⟨hpos, payout, tokens, hpayout, hpaid, rfl⟩
    · rw [show state.stakedAmount = 0 by linarith, sub_zero]
      exact hs
    · rw [sub_eq_add_neg s.totalStaked]
      refine principal_post hs hconfig ?_ (by linarith) fun _ => ?_
      · rw [Option.elim_none, hstaked, add_neg_cancel]
      · rcases hpaid with ⟨-, rfl⟩ | htransfer
        · linarith
        · rw [htoken.balance_transfer htransfer, move_source (ne_of_auth hauth).symm]
          linarith

/-- **Every call** that returns keeps the stakes backed. -/
theorem principal_step (htoken : Conforming host.toTokenInterface) {call : Call Address}
    (hs : Principal host s) (h : Returns (entryPoint env call) s v t) : Principal host t := by
  have hu := principal_outside env hs
  rw [returns_entryPoint] at h
  cases call with
  | initializeStaking owner stakingToken rewardToken initialRate epochDecayPercent epochLength
      startBlock =>
    obtain ⟨_, h, -⟩ := returns_map.mp h
    exact principal_initialize htoken hu h
  | stake user amount =>
    obtain ⟨_, h, -⟩ := returns_map.mp h
    exact principal_stake htoken hu h
  | withdraw user amount =>
    obtain ⟨_, h, -⟩ := returns_map.mp h
    exact principal_withdraw htoken hu h
  | claim user => exact principal_claim htoken hu h
  | emergencyWithdraw user => exact principal_emergencyWithdraw htoken hu h
  | _ =>
    obtain ⟨guard, penaltyFeeBps, rfl⟩ := returns_quiet (by trivial) h
    exact ⟨hu.nonneg, hu.finite, hu.total_eq, hu.backed, hu.fresh⟩

/-- **The stakes are backed** in every state of every run when the rewards are paid in another
token, and their total is kept in any case. -/
theorem principal_safe {tokens : Tokens} {ls : List (Event host)}
    (htoken : Conforming host.toTokenInterface)
    (h : Run (Step entryPoint) (State.initial tokens) ls s) :
    s.totalStaked = ∑ᶠ user, getStakedBalance s user ∧
      ∀ config, s.config = some config → config.stakingToken ≠ config.rewardToken →
        s.totalStaked ≤ host.balance config.stakingToken s.tokens host.currentContractAddress := by
  have hs : Principal host s := by
    refine invariant_of_returns (P := fun _ _ _ => True) (I := Principal host)
      (fun hu hreturns _ => principal_step htoken hu hreturns) (run_unconditional h) ?_
    refine ⟨fun user => le_rfl, ?_, ?_, fun config hconfig _ => (by cases hconfig), fun _ _ => rfl⟩
    · exact Set.finite_empty.subset fun user huser => huser rfl
    · exact (finsum_zero (α := Address) (M := ℤ)).symm
  exact ⟨hs.total_eq, hs.backed⟩

end Step

/-! ## A market -/

/-- Balances of all tokens. The contract has the address 0. -/
def market : Host ℕ (Balances ℕ) where
  toTokenInterface := Balances.interface ℕ
  currentContractAddress := 0

/-- Everybody but the contract has authorized the call. -/
def marketEnv (sequence : ℕ) : Env market where
  auth := fun a => a ≠ 0
  auth_contract := rfl
  sequence := sequence % 2 ^ 32
  sequence_lt := ledger_lt sequence
  outside := id
  outside_keeps := fun _ _ => le_rfl

/-- A stake of 1000 of the token 9, and a claim of its rewards one ledger later at the rate 1. -/
def marketCalls (rewardToken : ℕ) : List (Env market × Call ℕ) :=
  [(marketEnv 1, .initializeStaking 1 9 rewardToken Math.scale 0 1000 1),
    (marketEnv 10, .stake 2 1000), (marketEnv 11, .claim 2)]

/-- What the calls leave, where everybody held 1000 of every token. -/
theorem market_result (rewardToken : ℕ) (hreward : rewardToken = 8 ∨ rewardToken = 9) :
    let s := (execute entryPoint (State.initial (Balances.constant ℕ 1000))
      (marketCalls rewardToken)).2
    s.config.map StakingConfig.stakingToken = some 9 ∧ s.totalStaked = 1000 ∧
      market.balance 9 s.tokens 0 = if rewardToken = 9 then 282 else 2000 := by
  rcases hreward with rfl | rfl <;> decide +kernel

theorem principal_safe_sample :
    let s := (execute entryPoint (State.initial (Balances.constant ℕ 1000)) (marketCalls 8)).2
    s.totalStaked = ∑ᶠ user, getStakedBalance s user ∧
      ∀ config, s.config = some config → config.stakingToken ≠ config.rewardToken →
        s.totalStaked ≤
          market.balance config.stakingToken s.tokens market.currentContractAddress :=
  principal_safe conforming_balances (run_execute entryPoint _ (marketCalls 8))

/-- **Rewards out of the stakes.** With one token for both, the claim leaves less than what is
staked. -/
theorem principal_paid_out :
    ¬∀ (ls : List (Event market)) (s : State ℕ (Balances ℕ)) (config : StakingConfig ℕ),
      Run (Step entryPoint) (State.initial (Balances.constant ℕ 1000)) ls s →
        s.config = some config →
          s.totalStaked ≤ market.balance config.stakingToken s.tokens 0 := by
  intro hall
  obtain ⟨hconfig, htotal, hbalance⟩ := market_result 9 (.inr rfl)
  obtain ⟨config, hconfig, hstaking⟩ := Option.map_eq_some_iff.mp hconfig
  have hle := hall _ _ config (run_execute entryPoint _ (marketCalls 9)) hconfig
  rw [hstaking, htotal, hbalance] at hle
  norm_num at hle

end StakingRewards
