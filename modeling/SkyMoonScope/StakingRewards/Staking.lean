import SkyMoonScope.EmergencyGuard.Entrypoints
import SkyMoonScope.StakingRewards.Rewards

/-!
# Staking

The entry points of `contracts/staking_rewards/src/lib.rs`. Stakers leave tokens with the contract,
take them back, and claim their rewards in another token. An emergency withdrawal returns the stake
without the rewards, and without a penalty that stays with the contract. The owner, and the admins
of the built-in guard, pause the operations. Events, the lifetime of the storage and most of the
entry points that only read are left out.

## Main definitions

* `Host`, `Env`: the token contracts, and what a call takes from its surroundings
* `stake`, `withdraw`, `claim`, `emergencyWithdraw`: the entry points of the stakers
* `Call`, `entryPoint`: a call of the contract, and its body

## Main results

* `returns_stake`, `returns_withdraw`, `returns_claim`, `returns_emergencyWithdraw`: what a call has
  checked, and what it writes
* `returns_quiet`: the other calls leave the stakes and the tokens as they are
-/

namespace StakingRewards

open Soroban Math Function EmergencyGuard

variable {Address Tokens : Type}

/-- The storage before the first call. -/
def State.initial (tokens : Tokens) : State Address Tokens where
  config := none
  userState := fun _ => none
  totalStaked := 0
  epochSnapshot := fun _ => none
  penaltyFeeBps := 0
  guard := EmergencyGuard.State.initial Address
  tokens := tokens

/-- The token contracts, and the address of this one. -/
structure Host (Address Tokens : Type) extends TokenInterface Address Tokens where
  currentContractAddress : Address

/-- What a call takes from its surroundings: who has authorized it, which the contract itself never
has, the ledger, and what became of the tokens since the call before. Others may have paid tokens to
the contract, but have taken none from it. -/
structure Env {Address Tokens : Type} (host : Host Address Tokens) where
  auth : Address → Bool
  auth_contract : auth host.currentContractAddress = false
  sequence : ℕ
  sequence_lt : sequence < 2 ^ 32
  outside : Tokens → Tokens
  outside_keeps : ∀ token tokens, host.balance token tokens host.currentContractAddress ≤
    host.balance token (outside tokens) host.currentContractAddress

namespace PauseType

def stake : UInt32 := (1 : UInt32) <<< 7

def claimRewards : UInt32 := (1 : UInt32) <<< 9

end PauseType

/-- A function of the built-in guard, whose errors become one of the contract. -/
def guarded (e : ContractError) (x : EmergencyGuard.Body Address Unit) :
    Body Address Tokens Unit :=
  zoom State.guard (fun s guard => { s with guard }) (fun _ => e) x

def getConfig : Body Address Tokens (StakingConfig Address) := do
  let s ← get
  orFault s.config (.error .notInitialized)

section Functions

variable {host : Host Address Tokens} (env : Env host)

def requireAuth (addr : Address) : Body Address Tokens Unit :=
  require (env.auth addr) (.trap "Error(Auth, InvalidAction)")

variable (host) in
/-- A transfer of a token, which fails where the token contract does. -/
def transfer (token source destination : Address) (amount : ℤ) : Body Address Tokens Unit := do
  let s ← get
  let tokens ← orFault (host.transfer token source destination amount s.tokens)
    (.trap "Error(Contract)")
  set { s with tokens }

/-- The owner becomes the only admin of the guard. -/
def initializeStaking (owner stakingToken rewardToken : Address)
    (initialRate epochDecayPercent : ℤ) (epochLength startBlock : ℕ) :
    Body Address Tokens Unit := do
  let s ← get
  require (¬s.config.isSome) (.error .alreadyInitialized)
  require (¬(epochDecayPercent < 0 ∨ epochDecayPercent > scale)) (.error .invalidInput)
  require (¬epochLength = 0) (.error .invalidInput)
  require (¬initialRate < 0) (.error .invalidInput)
  let config := {
    owner, stakingToken, rewardToken, initialRate, epochDecayPercent, epochLength, startBlock
    isPaused := false }
  let rate0 ← epochRate config 0
  set { s with
    epochSnapshot := update s.epochSnapshot 0 (some ⟨rate0, startBlock⟩)
    config := some config
    totalStaked := 0 }
  guarded .alreadyInitialized (initializeGuard [owner] 1 owner)

section Stakers

variable [DecidableEq Address]

def stake (user : Address) (amount : ℤ) : Body Address Tokens Unit := do
  guarded .paused (DefaultEmergencyGuard.checkNotPaused PauseType.stake)
  require (¬amount ≤ 0) (.error .invalidInput)
  requireAuth env user
  let config ← getConfig
  let state ← updateUserRewards env.sequence config user
  transfer host config.stakingToken user host.currentContractAddress amount
  let stakedAmount ← orOverflow (IntType.i128.checked (state.stakedAmount + amount))
  let s ← get
  let totalStaked ← orOverflow (IntType.i128.checked (s.totalStaked + amount))
  set { s with
    totalStaked
    userState := update s.userState user (some { state with stakedAmount }) }

def withdraw (user : Address) (amount : ℤ) : Body Address Tokens Unit := do
  guarded .paused (DefaultEmergencyGuard.checkNotPaused PauseType.stake)
  require (¬amount ≤ 0) (.error .invalidInput)
  requireAuth env user
  let config ← getConfig
  let state ← updateUserRewards env.sequence config user
  require (¬state.stakedAmount < amount) (.error .insufficientBalance)
  let stakedAmount ← orOverflow (IntType.i128.checked (state.stakedAmount - amount))
  let s ← get
  let totalStaked ← orOverflow (IntType.i128.checked (s.totalStaked - amount))
  set { s with
    totalStaked
    userState := update s.userState user
      (if stakedAmount = 0 ∧ state.accruedRewards = 0 then none
        else some { state with stakedAmount }) }
  transfer host config.stakingToken host.currentContractAddress user amount

def claim (user : Address) : Body Address Tokens ℤ := do
  guarded .paused (DefaultEmergencyGuard.checkNotPaused PauseType.stake)
  let s ← get
  require (¬EmergencyGuard.isPaused s.guard PauseType.claimRewards) (.error .paused)
  requireAuth env user
  let config ← getConfig
  let state ← updateUserRewards env.sequence config user
  if state.accruedRewards ≤ 0 then pure 0
  else do
    let s ← get
    set { s with
      userState := update s.userState user
        (if state.stakedAmount = 0 then none else some { state with accruedRewards := 0 }) }
    transfer host config.rewardToken host.currentContractAddress user state.accruedRewards
    pure state.accruedRewards

/-- What is paid of a stake: the penalty is a part of it in basis points. -/
def emergencyPayout (stakedAmount : ℤ) (penaltyFeeBps : ℕ) : Body Address Tokens ℤ := do
  require (stakedAmount.toNat * penaltyFeeBps < 2 ^ 128) (.trap "attempt to multiply with overflow")
  pure (stakedAmount - (stakedAmount.toNat * penaltyFeeBps / 10000 : ℕ))

def emergencyWithdraw (user : Address) : Body Address Tokens ℤ := do
  requireAuth env user
  let config ← getConfig
  let s ← get
  match s.userState user with
  | none => pure 0
  | some state => do
    let totalStaked ← orOverflow (IntType.i128.checked (s.totalStaked - state.stakedAmount))
    set { s with totalStaked }
    if state.stakedAmount ≤ 0 then pure 0
    else do
      let payout ← emergencyPayout state.stakedAmount s.penaltyFeeBps
      set { s with totalStaked, userState := update s.userState user none }
      if payout > 0 then do
        transfer host config.stakingToken host.currentContractAddress user payout
        pure payout
      else pure payout

end Stakers

def setPenaltyFee (feeBps : ℕ) : Body Address Tokens Unit := do
  let config ← getConfig
  requireAuth env config.owner
  require (¬feeBps > 10000) (.error .invalidInput)
  let s ← get
  set { s with penaltyFeeBps := feeBps }

/-- The two entry points that pause the staking, and resume it. -/
def setStakingPaused (paused : Bool) : Body Address Tokens Unit := do
  let config ← getConfig
  requireAuth env config.owner
  guarded .paused (DefaultEmergencyGuard.setPauseState PauseType.stake paused)

def pauseStaking : Body Address Tokens Unit := setStakingPaused env true

def resumeStaking : Body Address Tokens Unit := setStakingPaused env false

section Guard

variable [DecidableEq Address]

def emergencyPauseAll (approvers : List Address) : Body Address Tokens Unit :=
  guarded .paused (DefaultEmergencyGuard.emergencyPauseAll env.auth approvers)

def resumeAll (approvers : List Address) : Body Address Tokens Unit :=
  guarded .paused (DefaultEmergencyGuard.resumeAll env.auth approvers)

def addAdmin (approvers : List Address) (newAdmin : Address) : Body Address Tokens Unit :=
  guarded .paused (DefaultEmergencyGuard.addAdmin env.auth approvers newAdmin)

def removeAdmin (approvers : List Address) (admin : Address) : Body Address Tokens Unit :=
  guarded .paused (DefaultEmergencyGuard.removeAdmin env.auth approvers admin)

def rotateAdmin (approvers : List Address) (oldAdmin newAdmin : Address) :
    Body Address Tokens Unit :=
  guarded .paused (DefaultEmergencyGuard.rotateAdmin env.auth approvers oldAdmin newAdmin)

def setClaimRewardsPaused (paused : Bool) : Body Address Tokens Unit := do
  let config ← getConfig
  guarded .paused (setPause env.auth config.owner PauseType.claimRewards paused)

end Guard

end Functions

/-! ## Calls -/

inductive Call (Address : Type)
  | initializeStaking (owner stakingToken rewardToken : Address)
      (initialRate epochDecayPercent : ℤ) (epochLength startBlock : ℕ)
  | stake (user : Address) (amount : ℤ)
  | withdraw (user : Address) (amount : ℤ)
  | claim (user : Address)
  | emergencyWithdraw (user : Address)
  | setPenaltyFee (feeBps : ℕ)
  | pauseStaking
  | resumeStaking
  | emergencyPauseAll (approvers : List Address)
  | resumeAll (approvers : List Address)
  | addAdmin (approvers : List Address) (newAdmin : Address)
  | removeAdmin (approvers : List Address) (admin : Address)
  | rotateAdmin (approvers : List Address) (oldAdmin newAdmin : Address)
  | setClaimRewardsPaused (paused : Bool)

section Dispatch

variable [DecidableEq Address] {host : Host Address Tokens}

/-- The body of the called entry point, with zero for the result of one that returns none. -/
def body (env : Env host) : Call Address → Body Address Tokens ℤ
  | .initializeStaking owner stakingToken rewardToken initialRate epochDecayPercent epochLength
      startBlock =>
    (fun _ => 0) <$> initializeStaking owner stakingToken rewardToken initialRate
      epochDecayPercent epochLength startBlock
  | .stake user amount => (fun _ => 0) <$> stake env user amount
  | .withdraw user amount => (fun _ => 0) <$> withdraw env user amount
  | .claim user => claim env user
  | .emergencyWithdraw user => emergencyWithdraw env user
  | .setPenaltyFee feeBps => (fun _ => 0) <$> setPenaltyFee env feeBps
  | .pauseStaking => (fun _ => 0) <$> pauseStaking env
  | .resumeStaking => (fun _ => 0) <$> resumeStaking env
  | .emergencyPauseAll approvers => (fun _ => 0) <$> emergencyPauseAll env approvers
  | .resumeAll approvers => (fun _ => 0) <$> resumeAll env approvers
  | .addAdmin approvers newAdmin => (fun _ => 0) <$> addAdmin env approvers newAdmin
  | .removeAdmin approvers admin => (fun _ => 0) <$> removeAdmin env approvers admin
  | .rotateAdmin approvers oldAdmin newAdmin =>
    (fun _ => 0) <$> rotateAdmin env approvers oldAdmin newAdmin
  | .setClaimRewardsPaused paused => (fun _ => 0) <$> setClaimRewardsPaused env paused

/-- A call, which finds the tokens as they are by then. -/
def entryPoint (env : Env host) (call : Call Address) : Body Address Tokens ℤ := do
  let s ← get
  set { s with tokens := env.outside s.tokens }
  body env call

end Dispatch

/-- A call of the contract with what it returned. -/
abbrev Event {Address Tokens : Type} (host : Host Address Tokens) :=
  Soroban.Event (Env host) (Call Address) ContractError ℤ

/-! ## What the entry points check and write -/

section Spec

variable {host : Host Address Tokens} {env : Env host} {s t : State Address Tokens} {r : Unit}
  {v : ℤ} {user : Address} {amount : ℤ}

theorem returns_guarded {e : ContractError} {x : EmergencyGuard.Body Address Unit} :
    Returns (guarded e x) s r t ↔ ∃ guard, Returns x s.guard r guard ∧ { s with guard } = t :=
  returns_zoom

theorem returns_checkNotPaused_bind {α : Type} {a : α} {operation : UInt32}
    {f : Unit → Body Address Tokens α} :
    Returns (guarded .paused (DefaultEmergencyGuard.checkNotPaused operation) >>= f) s a t ↔
      ¬EmergencyGuard.isPaused s.guard operation = true ∧ Returns (f ()) s a t := by
  refine returns_bind_of_checks fun r u => ?_
  simp only [returns_guarded, DefaultEmergencyGuard.checkNotPaused, returns_get_bind,
    returns_require]
  constructor
  · rintro ⟨guard, ⟨hpaused, rfl⟩, rfl⟩
    exact ⟨hpaused, rfl⟩
  · rintro ⟨hpaused, rfl⟩
    exact ⟨_, ⟨hpaused, rfl⟩, rfl⟩

theorem returns_getConfig_bind {α : Type} {a : α}
    {f : StakingConfig Address → Body Address Tokens α} :
    Returns (getConfig >>= f) s a t ↔
      ∃ config, s.config = some config ∧ Returns (f config) s a t := by
  simp only [getConfig, bind_assoc, returns_get_bind, returns_orFault_bind]

theorem returns_requireAuth_bind {α : Type} {a : α} {addr : Address}
    {f : Unit → Body Address Tokens α} :
    Returns (requireAuth env addr >>= f) s a t ↔ env.auth addr = true ∧ Returns (f ()) s a t := by
  simp only [requireAuth, returns_require_bind]

theorem returns_transfer {token source destination : Address} :
    Returns (transfer host token source destination amount) s r t ↔
      ∃ tokens, host.transfer token source destination amount s.tokens = some tokens ∧
        t = { s with tokens } := by
  simp only [transfer, returns_get_bind, returns_orFault_bind, returns_set, eq_comm (a := t)]

theorem returns_transfer_bind {α : Type} {a : α} {token source destination : Address}
    {f : Unit → Body Address Tokens α} :
    Returns (transfer host token source destination amount >>= f) s a t ↔
      ∃ tokens, host.transfer token source destination amount s.tokens = some tokens ∧
        Returns (f ()) { s with tokens } a t := by
  simp only [transfer, bind_assoc, returns_get_bind, returns_orFault_bind, returns_set_bind]

/-- **The initialization** stores the configuration and the rate of the first epoch. -/
theorem returns_initializeStaking {owner stakingToken rewardToken : Address}
    {initialRate epochDecayPercent : ℤ} {epochLength startBlock : ℕ}
    (h : Returns (initializeStaking owner stakingToken rewardToken initialRate epochDecayPercent
      epochLength startBlock) s r t) :
    s.config = none ∧ 0 ≤ initialRate ∧ ∃ guard, t = { s with
      epochSnapshot := update s.epochSnapshot 0 (some ⟨initialRate, startBlock⟩)
      config := some ⟨owner, stakingToken, rewardToken, initialRate, epochDecayPercent,
        epochLength, startBlock, false⟩
      totalStaked := 0
      guard := guard } := by
  simp only [initializeStaking, returns_get_bind, returns_require_bind, returns_epochRate_bind,
    returns_set_bind, Bool.not_eq_true, Option.isSome_eq_false_iff,
    Option.isNone_iff_eq_none] at h
  obtain ⟨hnone, -, -, hrate, rate0, hrate0, h⟩ := h
  obtain rfl := Except.ok.inj hrate0
  obtain ⟨guard, -, rfl⟩ := returns_guarded.mp h
  exact ⟨hnone, not_lt.mp hrate, guard, rfl⟩

/-- A payout is at most the stake. -/
theorem returns_emergencyPayout {stakedAmount payout : ℤ} {penaltyFeeBps : ℕ}
    (h : Returns (emergencyPayout stakedAmount penaltyFeeBps) s payout t) :
    payout ≤ stakedAmount ∧ s = t := by
  rw [emergencyPayout, returns_require_bind, returns_pure] at h
  obtain ⟨-, rfl, rfl⟩ := h
  exact ⟨sub_le_self _ (Int.natCast_nonneg _), rfl⟩

/-- A function of the guard writes its entries only. -/
theorem quiet_of_guarded {e : ContractError} {x : EmergencyGuard.Body Address Unit} {a : ℤ}
    (h : Returns ((fun _ => a) <$> guarded e x) s v t) :
    ∃ guard penaltyFeeBps, t = { s with guard, penaltyFeeBps } := by
  obtain ⟨_, hguard, -⟩ := returns_map.mp h
  obtain ⟨guard, -, rfl⟩ := returns_guarded.mp hguard
  exact ⟨guard, s.penaltyFeeBps, rfl⟩

theorem quiet_of_setStakingPaused {paused : Bool} {a : ℤ}
    (h : Returns ((fun _ => a) <$> setStakingPaused env paused) s v t) :
    ∃ guard penaltyFeeBps, t = { s with guard, penaltyFeeBps } := by
  simp only [setStakingPaused, returns_map, returns_getConfig_bind, returns_requireAuth_bind,
    returns_guarded] at h
  obtain ⟨_, ⟨config, -, -, guard, -, rfl⟩, -⟩ := h
  exact ⟨guard, s.penaltyFeeBps, rfl⟩

variable [DecidableEq Address]

/-- **A stake** is paid to the contract and added to the entry of the staker. -/
theorem returns_stake (h : Returns (stake env user amount) s r t) :
    ∃ config state u tokens, s.config = some config ∧ env.auth user = true ∧ 0 < amount ∧
      Returns (updateUserRewards env.sequence config user) s state u ∧
      host.transfer config.stakingToken user host.currentContractAddress amount u.tokens =
        some tokens ∧
      t = { u with
        tokens
        totalStaked := u.totalStaked + amount
        userState := update u.userState user
          (some { state with stakedAmount := state.stakedAmount + amount }) } := by
  simp only [stake, returns_checkNotPaused_bind, returns_require_bind, returns_requireAuth_bind,
    returns_getConfig_bind, not_le] at h
  obtain ⟨-, hamount, hauth, config, hconfig, h⟩ := h
  obtain ⟨state, u, hupdate, h⟩ := returns_bind.mp h
  simp only [returns_transfer_bind, returns_orOverflow_bind, returns_get_bind, returns_set,
    IntType.checked_eq_some] at h
  obtain ⟨tokens, htransfer, _, ⟨-, rfl⟩, _, ⟨-, rfl⟩, rfl⟩ := h
  exact ⟨config, state, u, tokens, hconfig, hauth, hamount, hupdate, htransfer, rfl⟩

/-- **A withdrawal** is at most the stake, is taken from it and paid out. -/
theorem returns_withdraw (h : Returns (withdraw env user amount) s r t) :
    ∃ config state u tokens, s.config = some config ∧ env.auth user = true ∧ 0 < amount ∧
      Returns (updateUserRewards env.sequence config user) s state u ∧
      amount ≤ state.stakedAmount ∧
      host.transfer config.stakingToken host.currentContractAddress user amount u.tokens =
        some tokens ∧
      t = { u with
        tokens
        totalStaked := u.totalStaked - amount
        userState := update u.userState user
          (if state.stakedAmount - amount = 0 ∧ state.accruedRewards = 0 then none
            else some { state with stakedAmount := state.stakedAmount - amount }) } := by
  simp only [withdraw, returns_checkNotPaused_bind, returns_require_bind, returns_requireAuth_bind,
    returns_getConfig_bind, not_le] at h
  obtain ⟨-, hamount, hauth, config, hconfig, h⟩ := h
  obtain ⟨state, u, hupdate, h⟩ := returns_bind.mp h
  simp only [returns_require_bind, returns_orOverflow_bind, returns_get_bind, returns_set_bind,
    returns_transfer, IntType.checked_eq_some, not_lt] at h
  obtain ⟨hle, _, ⟨-, rfl⟩, _, ⟨-, rfl⟩, tokens, htransfer, rfl⟩ := h
  exact ⟨config, state, u, tokens, hconfig, hauth, hamount, hupdate, hle, htransfer, rfl⟩

/-- **A claim** pays the rewards, where there are some, and leaves none. -/
theorem returns_claim (h : Returns (claim env user) s v t) :
    ∃ config state u, s.config = some config ∧ env.auth user = true ∧
      Returns (updateUserRewards env.sequence config user) s state u ∧
      (state.accruedRewards ≤ 0 ∧ t = u ∨ 0 < state.accruedRewards ∧ ∃ tokens,
        host.transfer config.rewardToken host.currentContractAddress user state.accruedRewards
          u.tokens = some tokens ∧
        t = { u with
          tokens
          userState := update u.userState user
            (if state.stakedAmount = 0 then none
              else some { state with accruedRewards := 0 }) }) := by
  simp only [claim, returns_checkNotPaused_bind, returns_get_bind, returns_require_bind,
    returns_requireAuth_bind, returns_getConfig_bind] at h
  obtain ⟨-, -, hauth, config, hconfig, h⟩ := h
  obtain ⟨state, u, hupdate, h⟩ := returns_bind.mp h
  refine ⟨config, state, u, hconfig, hauth, hupdate, ?_⟩
  split at h
  next hle =>
    obtain ⟨-, rfl⟩ := returns_pure.mp h
    exact .inl ⟨hle, rfl⟩
  next hlt =>
    simp only [returns_get_bind, returns_set_bind, returns_transfer_bind, returns_pure] at h
    obtain ⟨tokens, htransfer, -, rfl⟩ := h
    exact .inr ⟨not_le.mp hlt, tokens, htransfer, rfl⟩

/-- **An emergency withdrawal** removes the entry of the staker and pays at most the stake. -/
theorem returns_emergencyWithdraw (h : Returns (emergencyWithdraw env user) s v t) :
    ∃ config, s.config = some config ∧ env.auth user = true ∧
      (s.userState user = none ∧ t = s ∨ ∃ state, s.userState user = some state ∧
        (state.stakedAmount ≤ 0 ∧ t = { s with totalStaked := s.totalStaked - state.stakedAmount } ∨
          0 < state.stakedAmount ∧ ∃ payout tokens, payout ≤ state.stakedAmount ∧
            (payout ≤ 0 ∧ tokens = s.tokens ∨ host.transfer config.stakingToken
              host.currentContractAddress user payout s.tokens = some tokens) ∧
            t = { s with
              tokens
              totalStaked := s.totalStaked - state.stakedAmount
              userState := update s.userState user none })) := by
  simp only [emergencyWithdraw, returns_requireAuth_bind, returns_getConfig_bind,
    returns_get_bind] at h
  obtain ⟨hauth, config, hconfig, h⟩ := h
  refine ⟨config, hconfig, hauth, ?_⟩
  cases hstate : s.userState user with
  | none =>
    rw [hstate] at h
    obtain ⟨-, rfl⟩ := returns_pure.mp h
    exact .inl ⟨rfl, rfl⟩
  | some state =>
    simp only [hstate, returns_orOverflow_bind, returns_set_bind, IntType.checked_eq_some] at h
    obtain ⟨_, ⟨-, rfl⟩, h⟩ := h
    refine .inr ⟨state, rfl, ?_⟩
    split at h
    next hle =>
      obtain ⟨-, rfl⟩ := returns_pure.mp h
      exact .inl ⟨hle, rfl⟩
    next hlt =>
      obtain ⟨payout, u, hpayout, h⟩ := returns_bind.mp h
      obtain ⟨hle, rfl⟩ := returns_emergencyPayout hpayout
      rw [returns_set_bind] at h
      split at h
      · simp only [returns_transfer_bind, returns_pure] at h
        obtain ⟨tokens, htransfer, -, rfl⟩ := h
        exact .inr ⟨not_le.mp hlt, payout, tokens, hle, .inr htransfer, rfl⟩
      next hpos =>
        obtain ⟨-, rfl⟩ := returns_pure.mp h
        exact .inr ⟨not_le.mp hlt, payout, s.tokens, hle, .inl ⟨not_lt.mp hpos, rfl⟩, rfl⟩

/-- The calls of the stakers, and the initialization. -/
def Call.Quiet : Call Address → Prop
  | .initializeStaking .. | .stake .. | .withdraw .. | .claim .. | .emergencyWithdraw .. => False
  | _ => True

/-- **The other calls** write the guard or the penalty. -/
theorem returns_quiet {call : Call Address} (hquiet : call.Quiet)
    (h : Returns (body env call) s v t) :
    ∃ guard penaltyFeeBps, t = { s with guard, penaltyFeeBps } := by
  cases call with
  | initializeStaking => exact hquiet.elim
  | stake => exact hquiet.elim
  | withdraw => exact hquiet.elim
  | claim => exact hquiet.elim
  | emergencyWithdraw => exact hquiet.elim
  | setPenaltyFee feeBps =>
    simp only [body, setPenaltyFee, returns_map, returns_getConfig_bind, returns_requireAuth_bind,
      returns_require_bind, returns_get_bind, returns_set] at h
    obtain ⟨_, ⟨config, -, -, -, rfl⟩, -⟩ := h
    exact ⟨_, _, rfl⟩
  | pauseStaking => exact quiet_of_setStakingPaused h
  | resumeStaking => exact quiet_of_setStakingPaused h
  | emergencyPauseAll approvers => exact quiet_of_guarded h
  | resumeAll approvers => exact quiet_of_guarded h
  | addAdmin approvers newAdmin => exact quiet_of_guarded h
  | removeAdmin approvers admin => exact quiet_of_guarded h
  | rotateAdmin approvers oldAdmin newAdmin => exact quiet_of_guarded h
  | setClaimRewardsPaused paused =>
    simp only [body, setClaimRewardsPaused, returns_map, returns_getConfig_bind,
      returns_guarded] at h
    obtain ⟨_, ⟨config, -, guard, -, rfl⟩, -⟩ := h
    exact ⟨_, _, rfl⟩

/-- A call starts with the tokens as they are by then. -/
theorem returns_entryPoint {call : Call Address} :
    Returns (entryPoint env call) s v t ↔
      Returns (body env call) { s with tokens := env.outside s.tokens } v t := by
  rw [entryPoint, returns_get_bind, returns_set_bind]

end Spec

end StakingRewards
