import SkyMoonScope.EmergencyGuard
import SkyMoonScope.Math.Fixed
import SkyMoonScope.Soroban.Token

/-!
# Rewards that compound

How `contracts/staking_rewards/src/lib.rs` computes rewards. Time is divided into epochs of equally
many ledgers, each with a rate that is lower than the one before. What a staker has, with the
rewards so far, is multiplied by the exponential of the rate times the ledgers, epoch by epoch.

## Main definitions

* `StakingConfig`, `UserStakingState`, `State`: the entries of the contract
* `computeEpochRate`, `epochForBlock`, `epochStartBlock`: the epochs
* `ensureEpochSnapshots`, `calculateMultiplier`: the rates that are stored, and their compounding
* `computeRewardIndex`, `updateUserRewards`: the rewards of a staker

## Main results

* `returns_computeRewardIndex`: the rewards that a multiplier makes
* `returns_compound`: the factor of an epoch
* `returns_updateUserRewards`: the entry of a staker, brought up to the current ledger
-/

namespace StakingRewards

open Soroban Math Function

inductive ContractError
  | alreadyInitialized
  | notInitialized
  | insufficientBalance
  | paused
  | overflow
  | invalidInput
  | invalidAmount
deriving DecidableEq

structure StakingConfig (Address : Type) where
  owner : Address
  stakingToken : Address
  rewardToken : Address
  initialRate : ℤ
  epochDecayPercent : ℤ
  epochLength : ℕ
  startBlock : ℕ
  isPaused : Bool

structure EpochSnapshot where
  rate : ℤ
  startBlock : ℕ

structure UserStakingState where
  stakedAmount : ℤ
  accruedRewards : ℤ
  lastUpdateBlock : ℕ

/-- The entries of the contract, with those of the guard, and the storage of the token contracts. A
total or a fee that is not stored reads as zero. -/
structure State (Address Tokens : Type) where
  config : Option (StakingConfig Address)
  userState : Address → Option UserStakingState
  totalStaked : ℤ
  epochSnapshot : ℕ → Option EpochSnapshot
  penaltyFeeBps : ℕ
  guard : EmergencyGuard.State Address
  tokens : Tokens

abbrev Body (Address Tokens α : Type) := Contract (State Address Tokens) ContractError α

variable {Address Tokens : Type}

/-- A result of the arithmetic, which has no value where it overflows. -/
def orOverflow {α : Type} (o : Option α) : Body Address Tokens α := orFault o (.error .overflow)

/-- An operator on `u32` values, which traps on overflow. -/
def plainU32 (x : ℕ) : Body Address Tokens ℕ := do
  require (x < 2 ^ 32) (.trap "arithmetic operation with overflow")
  pure x

/-! ## Epochs -/

/-- The rounds over the bits of the exponent. -/
def fixedPowIntLoop : ℕ → ℤ → ℤ → ℕ → Option ℤ
  | 0, _, ans, _ => some ans
  | rounds + 1, temp, ans, exp =>
    if exp > 0 then do
      let ans ← (if exp &&& 1 = 1 then Fixed.mul ans temp else some ans)
      let temp ← Fixed.mul temp temp
      fixedPowIntLoop rounds temp ans (exp >>> 1)
    else some ans

/-- The power. The exponent is a `u32`, so that 32 rounds are enough. -/
def fixedPowInt (base : ℤ) (exp : ℕ) : Option ℤ := fixedPowIntLoop 32 base Fixed.one exp

def epochForBlock (startBlock epochLength block : ℕ) : ℕ :=
  if block ≤ startBlock then 0 else (block - startBlock) / epochLength

def epochStartBlock (startBlock epochLength epoch : ℕ) : Body Address Tokens ℕ := do
  let blocks ← plainU32 (epoch * epochLength)
  plainU32 (startBlock + blocks)

/-- The rate of an epoch, or the error. -/
def computeEpochRate (initialRate epochDecayPercent : ℤ) (epoch : ℕ) : Except ContractError ℤ :=
  if epoch = 0 then .ok initialRate
  else
    match Fixed.sub Fixed.one epochDecayPercent with
    | none => .error .overflow
    | some base =>
      if base < 0 ∨ base > scale then .error .invalidInput
      else
        match (fixedPowInt base epoch).bind (Fixed.mul initialRate) with
        | none => .error .overflow
        | some rate => .ok rate

/-- The rate as a statement of a body. -/
def epochRate (config : StakingConfig Address) (epoch : ℕ) : Body Address Tokens ℤ :=
  match computeEpochRate config.initialRate config.epochDecayPercent epoch with
  | .ok rate => pure rate
  | .error e => throw (.error e)

/-- A round of the loop over the epochs, which stores the rate of one where it is missing. -/
def ensureEpochSnapshot (config : StakingConfig Address) (epoch : ℕ) :
    Body Address Tokens Unit := do
  let s ← get
  if (s.epochSnapshot epoch).isNone then do
    let rate ← epochRate config epoch
    let startBlock ← epochStartBlock config.startBlock config.epochLength epoch
    set { s with epochSnapshot := update s.epochSnapshot epoch (some { rate, startBlock }) }

/-- The number of the epoch is a `u32` also after the last round. -/
def ensureEpochSnapshots (config : StakingConfig Address) (upToBlock : ℕ) :
    Body Address Tokens Unit :=
  (List.range (epochForBlock config.startBlock config.epochLength upToBlock + 1)).forM
    fun epoch => do
      ensureEpochSnapshot config epoch
      discard (plainU32 (epoch + 1))

def getEpochRate (epoch : ℕ) : Body Address Tokens ℤ := do
  let s ← get
  let snapshot ← orFault (s.epochSnapshot epoch) (.error .notInitialized)
  pure snapshot.rate

/-! ## The multiplier -/

/-- A round of the loop over the epochs: the multiplier with the factor of one more. -/
def compound (config : StakingConfig Address) (t1 t2 : ℕ) (mult : ℤ) (epoch : ℕ) :
    Body Address Tokens ℤ := do
  let rate ← getEpochRate epoch
  let epochStart ← epochStartBlock config.startBlock config.epochLength epoch
  let epochEnd ← plainU32 (epochStart + config.epochLength)
  let overlapStart := max t1 epochStart
  let overlapEnd := min t2 epochEnd
  if overlapEnd > overlapStart then do
    let blocksFixed ← orOverflow (Fixed.fromInt (overlapEnd - overlapStart : ℕ))
    let exponent ← orOverflow (Fixed.mul rate blocksFixed)
    let factor ← orOverflow (Fixed.exp exponent)
    orOverflow (Fixed.mul mult factor)
  else pure mult

def calculateMultiplier (config : StakingConfig Address) (t1 t2 : ℕ) : Body Address Tokens ℤ := do
  if t2 ≤ t1 then pure Fixed.one
  else
    let t1Eff := max t1 config.startBlock
    let t2Eff := max t2 config.startBlock
    if t2Eff ≤ t1Eff then pure Fixed.one
    else do
      ensureEpochSnapshots config t2Eff
      let e1 := epochForBlock config.startBlock config.epochLength t1Eff
      let e2 := epochForBlock config.startBlock config.epochLength t2Eff
      (List.range' e1 (e2 + 1 - e1)).foldlM (compound config t1Eff t2Eff) Fixed.one

/-! ## The rewards of a staker -/

/-- The contract has a copy of the division. -/
def mulDiv (a b d : ℤ) : Option ℤ := Math.mulDiv a b d

def multiplyAmount (amount multiplier : ℤ) : Body Address Tokens ℤ :=
  orOverflow (mulDiv amount multiplier scale)

def computeRewardIndex (stakedAmount accruedRewards multiplier : ℤ) : Body Address Tokens ℤ := do
  require (¬(stakedAmount ≤ 0 ∨ accruedRewards < 0)) (.error .invalidAmount)
  let vOld ← orOverflow (IntType.i128.checked (stakedAmount + accruedRewards))
  let vNew ← multiplyAmount vOld multiplier
  orFault (IntType.i128.checked (vNew - stakedAmount)) (.error .invalidAmount)

/-- The entry of a staker, with the rewards up to the current ledger. It is not stored here. -/
def updateUserRewards (sequence : ℕ) (config : StakingConfig Address) (user : Address) :
    Body Address Tokens UserStakingState := do
  let s ← get
  let state := (s.userState user).getD ⟨0, 0, max sequence config.startBlock⟩
  let lastUpdateBlock := max sequence config.startBlock
  if state.stakedAmount > 0 ∧ sequence > state.lastUpdateBlock then do
    let multiplier ← calculateMultiplier config state.lastUpdateBlock sequence
    let accruedRewards ← computeRewardIndex state.stakedAmount state.accruedRewards multiplier
    pure { state with accruedRewards, lastUpdateBlock }
  else pure { state with lastUpdateBlock }

/-! ## What can be asked about a staker -/

def getStakedBalance (s : State Address Tokens) (user : Address) : ℤ :=
  (s.userState user).elim 0 UserStakingState.stakedAmount

def getAccruedRewards (s : State Address Tokens) (user : Address) : ℤ :=
  (s.userState user).elim 0 UserStakingState.accruedRewards

/-! ## What the functions do -/

section Spec

variable {s t : State Address Tokens} {config : StakingConfig Address} {r mult : ℤ}
  {epoch t1 t2 : ℕ}

theorem returns_plainU32 {x y : ℕ} :
    Returns (plainU32 x : Body Address Tokens ℕ) s y t ↔ x < 2 ^ 32 ∧ x = y ∧ s = t := by
  rw [plainU32, returns_require_bind, returns_pure]

theorem returns_plainU32_bind {α : Type} {v : α} {x : ℕ} {f : ℕ → Body Address Tokens α} :
    Returns (plainU32 x >>= f) s v t ↔ x < 2 ^ 32 ∧ Returns (f x) s v t := by
  rw [plainU32, bind_assoc, returns_require_bind]
  rfl

theorem returns_orOverflow_bind {α β : Type} {v : β} {o : Option α}
    {f : α → Body Address Tokens β} :
    Returns (orOverflow o >>= f) s v t ↔ ∃ a, o = some a ∧ Returns (f a) s v t :=
  returns_orFault_bind

theorem returns_epochStartBlock_bind {α : Type} {v : α} {startBlock epochLength : ℕ}
    {f : ℕ → Body Address Tokens α} :
    Returns (epochStartBlock startBlock epochLength epoch >>= f) s v t ↔
      epoch * epochLength < 2 ^ 32 ∧ startBlock + epoch * epochLength < 2 ^ 32 ∧
        Returns (f (startBlock + epoch * epochLength)) s v t := by
  rw [epochStartBlock, bind_assoc, returns_plainU32_bind, returns_plainU32_bind]

theorem returns_epochRate_bind {α : Type} {v : α} {f : ℤ → Body Address Tokens α} :
    Returns (epochRate config epoch >>= f) s v t ↔
      ∃ rate, computeEpochRate config.initialRate config.epochDecayPercent epoch = .ok rate ∧
        Returns (f rate) s v t := by
  unfold epochRate
  split
  next rate hrate =>
    constructor
    · exact fun h => ⟨rate, hrate, h⟩
    · rintro ⟨rate', hrate', h⟩
      obtain rfl := Except.ok.inj (hrate.symm.trans hrate')
      exact h
  next e he =>
    constructor
    · intro h
      obtain ⟨_, _, hthrow, -⟩ := returns_bind.mp h
      exact absurd hthrow not_returns_throw
    · rintro ⟨rate, hrate, -⟩
      cases he.symm.trans hrate

/-- The rates that are stored are those of their epochs. -/
def Rates (config : StakingConfig Address) (snapshots : ℕ → Option EpochSnapshot) : Prop :=
  ∀ epoch snapshot, snapshots epoch = some snapshot →
    computeEpochRate config.initialRate config.epochDecayPercent epoch = .ok snapshot.rate

/-- Only the stored rates differ, and the new ones are those of their epochs. -/
structure Snapshotted (config : StakingConfig Address) (s t : State Address Tokens) : Prop where
  eq : ∃ epochSnapshot, t = { s with epochSnapshot }
  rates : Rates config s.epochSnapshot → Rates config t.epochSnapshot

theorem Snapshotted.refl (config : StakingConfig Address) (s : State Address Tokens) :
    Snapshotted config s s := ⟨⟨s.epochSnapshot, rfl⟩, id⟩

theorem Snapshotted.trans {u : State Address Tokens} (h : Snapshotted config s t)
    (h' : Snapshotted config t u) : Snapshotted config s u := by
  obtain ⟨⟨snapshots, rfl⟩, hrates⟩ := h
  obtain ⟨⟨snapshots', rfl⟩, hrates'⟩ := h'
  exact ⟨⟨snapshots', rfl⟩, hrates' ∘ hrates⟩

theorem snapshotted_ensureEpochSnapshot {v : Unit}
    (h : Returns (ensureEpochSnapshot config epoch) s v t) : Snapshotted config s t := by
  rw [ensureEpochSnapshot, returns_get_bind] at h
  split at h
  · rw [returns_epochRate_bind] at h
    obtain ⟨rate, hrate, h⟩ := h
    rw [returns_epochStartBlock_bind, returns_set] at h
    obtain ⟨-, -, rfl⟩ := h
    refine ⟨⟨_, rfl⟩, fun hrates epoch' snapshot hsnapshot => ?_⟩
    dsimp only at hsnapshot
    by_cases heq : epoch' = epoch
    · subst heq
      rw [update_self] at hsnapshot
      obtain rfl := Option.some.inj hsnapshot
      exact hrate
    · rw [update_of_ne heq] at hsnapshot
      exact hrates epoch' snapshot hsnapshot
  · obtain ⟨-, rfl⟩ := returns_pure.mp h
    exact .refl config s

theorem snapshotted_ensureEpochSnapshots {v : Unit} {upToBlock : ℕ}
    (h : Returns (ensureEpochSnapshots config upToBlock) s v t) : Snapshotted config s t := by
  unfold ensureEpochSnapshots at h
  generalize List.range _ = epochs at h
  induction epochs generalizing s with
  | nil =>
    obtain ⟨-, rfl⟩ := returns_pure.mp h
    exact .refl config s
  | cons epoch epochs ih =>
    obtain ⟨⟨⟩, u, hround, hrest⟩ := returns_bind.mp h
    obtain ⟨⟨⟩, w, hstore, hcount⟩ := returns_bind.mp hround
    obtain ⟨_, hcount, -⟩ := returns_map.mp hcount
    obtain ⟨-, -, rfl⟩ := returns_plainU32.mp hcount
    exact (snapshotted_ensureEpochSnapshot hstore).trans (ih hrest)

/-- How many ledgers of an epoch are between two ledgers. -/
def overlap (config : StakingConfig Address) (t1 t2 epoch : ℕ) : ℕ :=
  min t2 (config.startBlock + epoch * config.epochLength + config.epochLength) -
    max t1 (config.startBlock + epoch * config.epochLength)

/-- **The factor of an epoch** is the exponential of its rate times its ledgers. -/
theorem returns_compound (h : Returns (compound config t1 t2 mult epoch) s r t) :
    s = t ∧ (r = mult ∨ ∃ snapshot blocksFixed exponent factor,
      s.epochSnapshot epoch = some snapshot ∧
      Fixed.fromInt (overlap config t1 t2 epoch) = some blocksFixed ∧
      Fixed.mul snapshot.rate blocksFixed = some exponent ∧ Fixed.exp exponent = some factor ∧
      Fixed.mul mult factor = some r) := by
  simp only [compound, getEpochRate, bind_assoc, returns_get_bind, returns_orFault_bind,
    pure_bind, returns_epochStartBlock_bind, returns_plainU32_bind] at h
  obtain ⟨snapshot, hsnapshot, -, -, -, h⟩ := h
  split at h
  · simp only [orOverflow, returns_orFault_bind, returns_orFault] at h
    obtain ⟨blocksFixed, hblocks, exponent, hexponent, factor, hfactor, hmul, rfl⟩ := h
    exact ⟨rfl, .inr ⟨snapshot, blocksFixed, exponent, factor, hsnapshot, hblocks, hexponent,
      hfactor, hmul⟩⟩
  · obtain ⟨rfl, rfl⟩ := returns_pure.mp h
    exact ⟨rfl, .inl rfl⟩

/-- The loop over the epochs only reads. -/
theorem readOnly_compound (config : StakingConfig Address) (t1 t2 : ℕ) (epochs : List ℕ)
    (mult : ℤ) :
    ReadOnly (epochs.foldlM (compound config t1 t2) mult : Body Address Tokens ℤ) := by
  induction epochs generalizing mult with
  | nil => exact ReadOnly.pure mult
  | cons epoch epochs ih =>
    rw [List.foldlM_cons]
    exact ReadOnly.bind (fun s r t h => (returns_compound h).1) ih

/-- **The multiplier** is one, or the rates were stored and the factors of the epochs compounded. -/
theorem returns_calculateMultiplier (h : Returns (calculateMultiplier config t1 t2) s r t) :
    Snapshotted config s t ∧ (r = Fixed.one ∨ ∃ epochs : List ℕ,
      Returns (epochs.foldlM (compound config (max t1 config.startBlock)
        (max t2 config.startBlock)) Fixed.one) t r t) := by
  unfold calculateMultiplier at h
  dsimp only at h
  split at h
  · obtain ⟨rfl, rfl⟩ := returns_pure.mp h
    exact ⟨.refl config s, .inl rfl⟩
  · split at h
    · obtain ⟨rfl, rfl⟩ := returns_pure.mp h
      exact ⟨.refl config s, .inl rfl⟩
    · obtain ⟨⟨⟩, u, hensure, hloop⟩ := returns_bind.mp h
      obtain rfl := readOnly_compound _ _ _ _ _ _ _ _ hloop
      exact ⟨snapshotted_ensureEpochSnapshots hensure, .inr ⟨_, hloop⟩⟩

/-- **The rewards** are what the multiplied balance exceeds the stake by. -/
theorem returns_computeRewardIndex {staked accrued : ℤ} :
    Returns (computeRewardIndex staked accrued mult) s r t ↔
      0 < staked ∧ 0 ≤ accrued ∧ IntType.i128.Fits (staked + accrued) ∧
        ∃ vNew, Math.mulDiv (staked + accrued) mult scale = some vNew ∧
          IntType.i128.Fits (vNew - staked) ∧ vNew - staked = r ∧ s = t := by
  simp only [computeRewardIndex, multiplyAmount, mulDiv, returns_require_bind,
    returns_orOverflow_bind, returns_orFault, IntType.checked_eq_some, not_or, not_le, not_lt]
  constructor
  · rintro ⟨⟨hstaked, haccrued⟩, vOld, ⟨hfits, rfl⟩, vNew, hvNew, ⟨hfits', rfl⟩, rfl⟩
    exact ⟨hstaked, haccrued, hfits, vNew, hvNew, hfits', rfl, rfl⟩
  · rintro ⟨hstaked, haccrued, hfits, vNew, hvNew, hfits', rfl, rfl⟩
    exact ⟨⟨hstaked, haccrued⟩, _, ⟨hfits, rfl⟩, vNew, hvNew, ⟨hfits', rfl⟩, rfl⟩

/-- **The entry of a staker.** The stake is the one that is stored, and the rewards are those that
are stored, or were multiplied. -/
theorem returns_updateUserRewards {sequence : ℕ} {user : Address} {state : UserStakingState}
    (h : Returns (updateUserRewards sequence config user) s state t) :
    Snapshotted config s t ∧ state.stakedAmount = getStakedBalance s user ∧
      (state.accruedRewards = getAccruedRewards s user ∨ ∃ old multiplier,
        s.userState user = some old ∧ 0 < old.stakedAmount ∧
        Returns (calculateMultiplier config old.lastUpdateBlock sequence) s multiplier t ∧
        Returns (computeRewardIndex old.stakedAmount old.accruedRewards multiplier) t
          state.accruedRewards t) := by
  rw [updateUserRewards, returns_get_bind] at h
  dsimp only at h
  split at h
  next hstale =>
    cases hold : s.userState user with
    | none =>
      -- an entry that is not stored has no stake
      rw [hold] at hstale
      exact absurd hstale.1 (lt_irrefl 0)
    | some old =>
      simp only [hold, Option.getD_some] at h hstale
      obtain ⟨multiplier, u, hmultiplier, hrest⟩ := returns_bind.mp h
      obtain ⟨accrued, w, haccrued, hpure⟩ := returns_bind.mp hrest
      obtain ⟨rfl, rfl⟩ := returns_pure.mp hpure
      obtain rfl := (returns_computeRewardIndex.mp haccrued).2.2.2.choose_spec.2.2.2
      have hstaked : old.stakedAmount = getStakedBalance s user := by
        rw [getStakedBalance, hold, Option.elim_some]
      exact ⟨(returns_calculateMultiplier hmultiplier).1, hstaked,
        .inr ⟨old, multiplier, rfl, hstale.1, hmultiplier, haccrued⟩⟩
  next =>
    obtain ⟨rfl, rfl⟩ := returns_pure.mp h
    refine ⟨.refl config s, ?_, .inl ?_⟩
    · dsimp only
      unfold getStakedBalance
      cases s.userState user <;> rfl
    · dsimp only
      unfold getAccruedRewards
      cases s.userState user <;> rfl

end Spec

end StakingRewards
