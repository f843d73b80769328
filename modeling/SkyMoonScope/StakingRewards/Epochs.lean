import SkyMoonScope.Lib.Intervals
import SkyMoonScope.Soroban.Loops
import SkyMoonScope.StakingRewards.Principal
import Mathlib.Order.Interval.Finset.Nat

/-!
# The ledgers of the epochs

A multiplier compounds a factor for every epoch of which some ledgers are between two ledgers. These
are the ledgers after the first one and up to the second, and of them those that are in an epoch.
Each is counted in one epoch.

The contract computes the start and the end of an epoch with plain operators on `u32` values. The
end of the epoch of the current ledger is computed although the epoch has not ended, and does not
fit near the last ledgers there are, or when epochs are long. Then the operations of all stakers
trap.

## Main definitions

* `boundary`, `programEpoch`: where an epoch starts, and its ledgers
* `epochsBetween`, `ledgers`: the epochs that a multiplier goes through, and the ledgers of each
* `Compounded`: the factors of some epochs, one after the other
* `EpochEnds`: the end of the epoch of a ledger is a `u32`

## Main results

* `epochs_tile`: no ledger is counted twice or skipped
* `epochArithmetic_fits_iff`: no operator overflows just when the end of the epoch is a `u32`
* `epochArithmetic_traps`: a run in which the operations of a staker trap
-/

namespace StakingRewards

open Soroban Machine Math Function

variable {Address Tokens : Type}

/-- Where the epoch of a number starts: after this ledger. -/
def boundary (config : StakingConfig Address) (epoch : ℕ) : ℕ :=
  config.startBlock + epoch * config.epochLength

/-- The ledgers of an epoch. -/
def programEpoch (config : StakingConfig Address) (epoch : ℕ) : Finset ℕ :=
  Finset.Ioc (boundary config epoch) (boundary config (epoch + 1))

/-- The epochs that the multiplier between two ledgers goes through. -/
def epochsBetween (config : StakingConfig Address) (t1 t2 : ℕ) : List ℕ :=
  if max t2 config.startBlock ≤ max t1 config.startBlock then []
  else
    let e1 := epochForBlock config.startBlock config.epochLength (max t1 config.startBlock)
    let e2 := epochForBlock config.startBlock config.epochLength (max t2 config.startBlock)
    List.range' e1 (e2 + 1 - e1)

/-- The ledgers of an epoch that the multiplier between two ledgers counts. -/
def ledgers (config : StakingConfig Address) (t1 t2 epoch : ℕ) : Finset ℕ :=
  Tiling.piece (boundary config) (max t1 config.startBlock) (max t2 config.startBlock) epoch

/-- The factors of some epochs, one after the other. The exponent of a factor is the rate of the
epoch times its ledgers, and an epoch without ledgers is left out. -/
inductive Compounded (snapshots : ℕ → Option EpochSnapshot) (counted : ℕ → Finset ℕ) :
    List ℕ → ℤ → ℤ → Prop
  | nil (mult : ℤ) : Compounded snapshots counted [] mult mult
  | skip {epoch : ℕ} {epochs : List ℕ} {mult r : ℤ} (h : counted epoch = ∅)
      (hrest : Compounded snapshots counted epochs mult r) :
      Compounded snapshots counted (epoch :: epochs) mult r
  | factor {epoch : ℕ} {epochs : List ℕ} {snapshot : EpochSnapshot}
      {blocksFixed exponent factor mult next r : ℤ}
      (hsnapshot : snapshots epoch = some snapshot)
      (hblocks : Fixed.fromInt (counted epoch).card = some blocksFixed)
      (hexponent : Fixed.mul snapshot.rate blocksFixed = some exponent)
      (hfactor : Fixed.exp exponent = some factor) (hmul : Fixed.mul mult factor = some next)
      (hrest : Compounded snapshots counted epochs next r) :
      Compounded snapshots counted (epoch :: epochs) mult r

/-! ## No ledger is counted twice or skipped -/

section Tiling

variable {config : StakingConfig Address} {t1 t2 epoch block n : ℕ}
  {s t : State Address Tokens} {mult r : ℤ}

theorem boundary_succ :
    boundary config (epoch + 1) = boundary config epoch + config.epochLength := by
  unfold boundary
  rw [Nat.succ_mul, Nat.add_assoc]

theorem boundary_mono : Monotone (boundary config) :=
  fun _ _ h => Nat.add_le_add_left (Nat.mul_le_mul_right _ h) _

/-- **The epoch of a ledger** starts at the ledger or before it, and ends after it. -/
theorem boundary_epochForBlock (hlength : 0 < config.epochLength)
    (hblock : config.startBlock ≤ block) :
    boundary config (epochForBlock config.startBlock config.epochLength block) ≤ block ∧
      block < boundary config
        (epochForBlock config.startBlock config.epochLength block + 1) := by
  rw [boundary_succ]
  unfold boundary epochForBlock
  split
  next hle => omega
  next hlt =>
    -- the epoch is a quotient, and the remainder is less than a length
    have hdiv := Nat.div_add_mod (block - config.startBlock) config.epochLength
    have hmod := Nat.mod_lt (block - config.startBlock) hlength
    rw [Nat.mul_comm] at hdiv
    omega

theorem epochForBlock_mono (startBlock epochLength : ℕ) :
    Monotone (epochForBlock startBlock epochLength) := by
  intro j k hjk
  unfold epochForBlock
  split
  · exact Nat.zero_le _
  · rw [if_neg (by omega)]
    exact Nat.div_le_div_right (by omega)

theorem mem_epochsBetween : epoch ∈ epochsBetween config t1 t2 ↔
    max t1 config.startBlock < max t2 config.startBlock ∧
      epochForBlock config.startBlock config.epochLength (max t1 config.startBlock) ≤ epoch ∧
      epoch ≤ epochForBlock config.startBlock config.epochLength (max t2 config.startBlock) := by
  unfold epochsBetween
  split
  next hle => simp only [List.not_mem_nil, false_iff, not_and]; omega
  next hlt =>
    have hmono := epochForBlock_mono config.startBlock config.epochLength (not_le.mp hlt).le
    rw [List.mem_range'_1]
    omega

theorem nodup_epochsBetween : (epochsBetween config t1 t2).Nodup := by
  unfold epochsBetween
  split
  · exact List.nodup_nil
  · exact List.nodup_range'

/-- A ledger after the first one is in an epoch. -/
theorem exists_mem_programEpoch_iff (hlength : 0 < config.epochLength) :
    (∃ epoch, n ∈ programEpoch config epoch) ↔ config.startBlock < n := by
  constructor
  · rintro ⟨epoch, hn⟩
    exact (Nat.le_add_right _ _).trans_lt (Finset.mem_Ioc.mp hn).1
  · intro hn
    -- the ledger before it is in the epoch, or is the one after which the epoch starts
    have hbefore : config.startBlock ≤ n - 1 := by omega
    obtain ⟨hle, hlt⟩ := boundary_epochForBlock hlength hbefore
    refine ⟨epochForBlock config.startBlock config.epochLength (n - 1), ?_⟩
    exact Finset.mem_Ioc.mpr ⟨by omega, by omega⟩

theorem card_ledgers : (ledgers config t1 t2 epoch).card =
    overlap config (max t1 config.startBlock) (max t2 config.startBlock) epoch := by
  rw [ledgers, Tiling.piece, Nat.card_Ioc, boundary_succ]
  rfl

/-- **The factor of an epoch** is left out only when the epoch has no ledgers. -/
theorem compounded_compound {epochs : List ℕ} {next : ℤ}
    (h : Returns (compound config (max t1 config.startBlock) (max t2 config.startBlock) mult epoch)
      s next t)
    (hrest : Compounded t.epochSnapshot (ledgers config t1 t2) epochs next r) :
    Compounded t.epochSnapshot (ledgers config t1 t2) (epoch :: epochs) mult r := by
  simp only [compound, getEpochRate, bind_assoc, returns_get_bind, returns_orFault_bind,
    pure_bind, returns_epochStartBlock_bind, returns_plainU32_bind] at h
  obtain ⟨snapshot, hsnapshot, -, -, -, h⟩ := h
  split at h
  next hlt =>
    simp only [orOverflow, returns_orFault_bind, returns_orFault] at h
    obtain ⟨blocksFixed, hblocks, exponent, hexponent, factor, hfactor, hmul, rfl⟩ := h
    refine .factor hsnapshot ?_ hexponent hfactor hmul hrest
    rw [card_ledgers]
    exact hblocks
  next hle =>
    obtain ⟨rfl, rfl⟩ := returns_pure.mp h
    -- the overlap is empty, and the multiplier stays as it is
    refine .skip (Finset.card_eq_zero.mp ?_) hrest
    rw [card_ledgers, overlap]
    omega

theorem compounded_foldlM {epochs : List ℕ}
    (h : Returns (epochs.foldlM (compound config (max t1 config.startBlock)
      (max t2 config.startBlock)) mult) s r t) :
    Compounded t.epochSnapshot (ledgers config t1 t2) epochs mult r := by
  induction epochs generalizing mult s with
  | nil =>
    obtain ⟨rfl, rfl⟩ := returns_pure.mp h
    exact .nil mult
  | cons epoch epochs ih =>
    rw [List.foldlM_cons] at h
    obtain ⟨next, u, hround, hrest⟩ := returns_bind.mp h
    -- the loop only reads, so that every round has found the same rates
    obtain rfl := readOnly_compound _ _ _ _ _ _ _ _ hrest
    exact compounded_compound hround (ih hrest)

/-- **The multiplier** compounds the epochs between the ledgers. -/
theorem compounded_calculateMultiplier (h : Returns (calculateMultiplier config t1 t2) s r t) :
    Compounded t.epochSnapshot (ledgers config t1 t2) (epochsBetween config t1 t2) Fixed.one r := by
  unfold calculateMultiplier at h
  unfold epochsBetween
  dsimp only at h ⊢
  split at h
  next hle =>
    obtain ⟨rfl, rfl⟩ := returns_pure.mp h
    rw [if_pos (max_le_max_right _ hle)]
    exact .nil _
  next =>
    split at h
    next hle =>
      obtain ⟨rfl, rfl⟩ := returns_pure.mp h
      rw [if_pos hle]
      exact .nil _
    next hlt =>
      rw [if_neg hlt]
      obtain ⟨⟨⟩, u, -, hloop⟩ := returns_bind.mp h
      exact compounded_foldlM hloop

end Tiling

/-- What the initialization accepts, and stores. -/
theorem accepted_initializeStaking {owner stakingToken rewardToken : Address}
    {initialRate epochDecayPercent : ℤ} {epochLength startBlock : ℕ}
    {config : StakingConfig Address} {s t : State Address Tokens} {v : Unit}
    (h : Returns (initializeStaking owner stakingToken rewardToken initialRate epochDecayPercent
      epochLength startBlock) s v t) (hconfig : t.config = some config) :
    0 < config.epochLength := by
  have hlength : ¬epochLength = 0 := by
    simp only [initializeStaking, returns_get_bind, returns_require_bind] at h
    exact h.2.2.1
  obtain ⟨-, -, guard, rfl⟩ := returns_initializeStaking h
  obtain rfl := Option.some.inj hconfig
  exact Nat.pos_of_ne_zero hlength

/-- **No ledger is counted twice or skipped.** The epochs that a multiplier goes through are
different, no ledger is counted in two of them, and the ledgers counted are those between the two
that are in an epoch. The multiplier compounds one factor for each epoch, by its ledgers. -/
theorem epochs_tile {owner stakingToken rewardToken : Address} {initialRate epochDecayPercent : ℤ}
    {epochLength startBlock : ℕ} {config : StakingConfig Address} {s₀ t₀ : State Address Tokens}
    {v : Unit}
    (h : Returns (initializeStaking owner stakingToken rewardToken initialRate epochDecayPercent
      epochLength startBlock) s₀ v t₀) (hconfig : t₀.config = some config) (t1 t2 : ℕ) :
    (epochsBetween config t1 t2).Nodup ∧
      (∀ j k, j ≠ k → Disjoint (ledgers config t1 t2 j) (ledgers config t1 t2 k)) ∧
      (∀ n, (∃ epoch ∈ epochsBetween config t1 t2, n ∈ ledgers config t1 t2 epoch) ↔
        n ∈ Finset.Ioc t1 t2 ∧ ∃ epoch, n ∈ programEpoch config epoch) ∧
      ∀ (s : State Address Tokens) mult t, Returns (calculateMultiplier config t1 t2) s mult t →
        Compounded t.epochSnapshot (ledgers config t1 t2) (epochsBetween config t1 t2) Fixed.one
          mult := by
  have hlength := accepted_initializeStaking h hconfig
  refine ⟨nodup_epochsBetween, fun j k hjk => Tiling.disjoint_piece boundary_mono hjk,
    fun n => ?_, fun s mult t hmult => compounded_calculateMultiplier hmult⟩
  obtain ⟨hfirst, -⟩ := boundary_epochForBlock hlength (le_max_right t1 config.startBlock)
  obtain ⟨-, hlast⟩ := boundary_epochForBlock hlength (le_max_right t2 config.startBlock)
  have hcover := Tiling.exists_mem_piece_iff (x := n) boundary_mono hfirst hlast.le
  rw [exists_mem_programEpoch_iff hlength, Finset.mem_Ioc]
  simp only [mem_epochsBetween]
  constructor
  · -- the pieces are counted from the clamped ledgers on, which are after the first one
    rintro ⟨epoch, ⟨-, hle, hle'⟩, hn⟩
    obtain ⟨hlow, hhigh⟩ := hcover.mp ⟨epoch, hle, hle', hn⟩
    obtain ⟨hlow, hstart⟩ := max_lt_iff.mp hlow
    exact ⟨⟨hlow, (le_max_iff.mp hhigh).resolve_right (not_le.mpr hstart)⟩, hstart⟩
  · rintro ⟨⟨hlow, hhigh⟩, hstart⟩
    obtain ⟨epoch, hle, hle', hn⟩ := hcover.mpr ⟨max_lt hlow hstart, le_max_of_le_left hhigh⟩
    exact ⟨epoch, ⟨(max_lt hlow hstart).trans_le (le_max_of_le_left hhigh), hle, hle'⟩, hn⟩

/-- Epochs of four ledgers after the ledger 3, and the ledgers from 6 to 12 in three of them. -/
theorem epochs_tile_sample :
    let config : StakingConfig ℕ := ⟨1, 9, 8, 0, 0, 4, 3, false⟩
    epochsBetween config 5 12 = [0, 1, 2] ∧ ledgers config 5 12 1 = {8, 9, 10, 11} ∧
      ∀ n, (∃ epoch ∈ epochsBetween config 5 12, n ∈ ledgers config 5 12 epoch) ↔
        n ∈ Finset.Ioc 5 12 ∧ ∃ epoch, n ∈ programEpoch config epoch :=
  ⟨by decide, by decide, (epochs_tile (v := ()) (show Returns (initializeStaking 1 9 8 0 0 4 3)
    (State.initial (Balances.constant ℕ 0)) () _ from rfl) rfl 5 12).2.2.1⟩

/-! ## The end of an epoch -/

/-- A plain operator that overflows. -/
def overflowTrap : Fault ContractError := .trap "arithmetic operation with overflow"

/-- The end of the epoch of a ledger is a `u32`, or the epochs have not begun. -/
def EpochEnds (config : StakingConfig Address) (sequence : ℕ) : Prop :=
  sequence ≤ config.startBlock ∨
    boundary config (epochForBlock config.startBlock config.epochLength sequence + 1) < 2 ^ 32

section Overflow

variable {config : StakingConfig Address} {t1 t2 epoch sequence x : ℕ} {mult : ℤ}
  {s t : State Address Tokens}

theorem avoids_plainU32 (h : x < 2 ^ 32) :
    Avoids overflowTrap (plainU32 x : Body Address Tokens ℕ) := by
  rw [plainU32, require, if_pos h]
  exact .pure _

/-- The errors of the contract are other faults. -/
theorem error_ne_overflowTrap (e : ContractError) : Fault.error e ≠ overflowTrap := nofun

theorem avoids_orOverflow {α : Type} {o : Option α} :
    Avoids overflowTrap (orOverflow o : Body Address Tokens α) :=
  .orFault (error_ne_overflowTrap _)

theorem avoids_epochStartBlock (h : boundary config epoch < 2 ^ 32) : Avoids overflowTrap
    (epochStartBlock config.startBlock config.epochLength epoch : Body Address Tokens ℕ) := by
  have hblocks : epoch * config.epochLength < 2 ^ 32 := (Nat.le_add_left _ _).trans_lt h
  intro s
  rw [epochStartBlock, run_bind_of_returns (returns_plainU32.mpr ⟨hblocks, rfl, rfl⟩)]
  exact avoids_plainU32 h s

theorem avoids_epochRate :
    Avoids overflowTrap (epochRate config epoch : Body Address Tokens ℤ) := by
  unfold epochRate
  split
  · exact .pure _
  · exact .throw (error_ne_overflowTrap _)

theorem avoids_ensureEpochSnapshot (h : boundary config epoch < 2 ^ 32) :
    Avoids overflowTrap (ensureEpochSnapshot config epoch : Body Address Tokens Unit) :=
  Avoids.get.bind fun _ => .ite
    (avoids_epochRate.bind fun _ => (avoids_epochStartBlock h).bind fun _ => .set _) (.pure ())

/-- A round computes the end of the epoch, also when the epoch has no ledgers. -/
theorem avoids_compound (h : boundary config (epoch + 1) < 2 ^ 32) :
    Avoids overflowTrap (compound config t1 t2 mult epoch : Body Address Tokens ℤ) := by
  have hstart : boundary config epoch < 2 ^ 32 := (boundary_mono (Nat.le_succ epoch)).trans_lt h
  have hrate : Avoids overflowTrap (getEpochRate epoch : Body Address Tokens ℤ) :=
    Avoids.get.bind fun _ => (Avoids.orFault (error_ne_overflowTrap _)).bind fun _ => .pure _
  refine hrate.bind fun rate s => run_bind_ne_error (avoids_epochStartBlock hstart s) ?_
  intro epochStart t hreturns
  -- what the start is decides whether the end fits
  obtain ⟨_, _, hblocks, hsum⟩ := returns_bind.mp hreturns
  obtain ⟨-, rfl, rfl⟩ := returns_plainU32.mp hblocks
  obtain ⟨-, rfl, rfl⟩ := returns_plainU32.mp hsum
  rw [boundary_succ] at h
  refine Avoids.bind (avoids_plainU32 h) (fun epochEnd => .ite ?_ (.pure mult)) _
  exact avoids_orOverflow.bind fun _ => avoids_orOverflow.bind fun _ =>
    avoids_orOverflow.bind fun _ => avoids_orOverflow

/-- **The multiplier** up to a ledger whose epoch ends in time. -/
theorem avoids_calculateMultiplier (hlength : 0 < config.epochLength)
    (h : EpochEnds config sequence) :
    Avoids overflowTrap (calculateMultiplier config t1 sequence : Body Address Tokens ℤ) := by
  unfold calculateMultiplier
  dsimp only
  refine .ite (.pure _) ?_
  split
  next => exact .pure _
  next hlt =>
    have hstart : config.startBlock < sequence := by omega
    have hends := h.resolve_left (not_le.mpr hstart)
    rw [max_eq_left hstart.le]
    -- no epoch of the two loops is after that of the ledger
    have hfits : ∀ {epoch}, epoch ≤ epochForBlock config.startBlock config.epochLength sequence →
        boundary config (epoch + 1) < 2 ^ 32 :=
      fun hle => (boundary_mono (Nat.succ_le_succ hle)).trans_lt hends
    have hnumber : ∀ epoch, epoch ≤ boundary config epoch := fun epoch =>
      (Nat.le_mul_of_pos_right epoch hlength).trans (Nat.le_add_left _ _)
    refine Avoids.bind (.forM fun epoch hepoch => ?_) fun _ => .foldlM fun mult epoch hepoch => ?_
    · have hepoch := hfits (Nat.lt_succ_iff.mp (List.mem_range.mp hepoch))
      refine (avoids_ensureEpochSnapshot ?_).bind fun _ => (avoids_plainU32 ?_).map
      · exact (boundary_mono (Nat.le_succ epoch)).trans_lt hepoch
      · exact (hnumber _).trans_lt hepoch
    · rw [List.mem_range'_1] at hepoch
      exact avoids_compound (hfits (by omega))

theorem avoids_updateUserRewards (hlength : 0 < config.epochLength)
    (h : EpochEnds config sequence) {user : Address} :
    Avoids overflowTrap (updateUserRewards sequence config user : Body Address Tokens _) := by
  have hindex : ∀ staked accrued mult, Avoids overflowTrap
      (computeRewardIndex staked accrued mult : Body Address Tokens ℤ) := fun _ _ _ =>
    (Avoids.require (error_ne_overflowTrap _)).bind fun _ => avoids_orOverflow.bind fun _ =>
      avoids_orOverflow.bind fun _ => .orFault (error_ne_overflowTrap _)
  exact Avoids.get.bind fun _ => .ite ((avoids_calculateMultiplier hlength h).bind fun _ =>
    (hindex _ _ _).bind fun _ => .pure _) (.pure _)

/-! The operations of the stakers do no other arithmetic that traps. -/

theorem avoids_checkNotPaused {operation : UInt32} : Avoids overflowTrap
    (guarded .paused (EmergencyGuard.DefaultEmergencyGuard.checkNotPaused operation) :
      Body Address Tokens Unit) := by
  refine .zoom fun e he => Avoids.get.bind fun _ => .require ?_
  rintro rfl
  cases he

variable {host : Host Address Tokens} {env : Env host} {user : Address} {amount : ℤ}

theorem avoids_transfer {token source destination : Address} :
    Avoids overflowTrap (transfer host token source destination amount) :=
  Avoids.get.bind fun _ => (Avoids.orFault (by decide)).bind fun _ => .set _

/-- What the operations begin with: the checks of the guard, and the configuration. -/
theorem run_checked_ne_overflow {operation : UInt32} {α : Type} {f : Unit → Body Address Tokens α}
    (h : ∀ guard, (f ()).run { s with guard } ≠ .error overflowTrap) :
    (guarded .paused (EmergencyGuard.DefaultEmergencyGuard.checkNotPaused operation) >>= f).run s ≠
      .error overflowTrap := by
  refine run_bind_ne_error (avoids_checkNotPaused s) fun _ t ht => ?_
  obtain ⟨guard, -, rfl⟩ := returns_guarded.mp ht
  exact h guard

theorem run_getConfig_bind_ne_overflow {α : Type}
    {f : StakingConfig Address → Body Address Tokens α} (hconfig : s.config = some config)
    (h : Avoids overflowTrap (f config)) : (getConfig >>= f).run s ≠ .error overflowTrap := by
  have hreturns : Returns getConfig s config s := by
    rw [getConfig, returns_get_bind, returns_orFault]
    exact ⟨hconfig, rfl⟩
  rw [run_bind_of_returns hreturns]
  exact h s

variable [DecidableEq Address]

theorem stake_ne_overflow (hconfig : s.config = some config) (hlength : 0 < config.epochLength)
    (h : EpochEnds config env.sequence) : (stake env user amount).run s ≠ .error overflowTrap := by
  refine run_checked_ne_overflow fun guard => ?_
  refine run_require_bind_ne_error (error_ne_overflowTrap _) ?_
  refine run_require_bind_ne_error (by decide) (run_getConfig_bind_ne_overflow hconfig ?_)
  exact (avoids_updateUserRewards hlength h).bind fun _ => avoids_transfer.bind fun _ =>
    avoids_orOverflow.bind fun _ => Avoids.get.bind fun _ => avoids_orOverflow.bind fun _ => .set _

theorem withdraw_ne_overflow (hconfig : s.config = some config) (hlength : 0 < config.epochLength)
    (h : EpochEnds config env.sequence) :
    (withdraw env user amount).run s ≠ .error overflowTrap := by
  refine run_checked_ne_overflow fun guard => ?_
  refine run_require_bind_ne_error (error_ne_overflowTrap _) ?_
  refine run_require_bind_ne_error (by decide) (run_getConfig_bind_ne_overflow hconfig ?_)
  refine (avoids_updateUserRewards hlength h).bind fun state => ?_
  refine Avoids.bind (.require (error_ne_overflowTrap _)) fun _ => ?_
  exact avoids_orOverflow.bind fun _ => Avoids.get.bind fun _ => avoids_orOverflow.bind fun _ =>
    (Avoids.set _).bind fun _ => avoids_transfer

theorem claim_ne_overflow (hconfig : s.config = some config) (hlength : 0 < config.epochLength)
    (h : EpochEnds config env.sequence) : (claim env user).run s ≠ .error overflowTrap := by
  refine run_checked_ne_overflow fun guard => ?_
  rw [run_bind_of_returns (returns_get.mpr ⟨rfl, rfl⟩)]
  refine run_require_bind_ne_error (error_ne_overflowTrap _) ?_
  refine run_require_bind_ne_error (by decide) (run_getConfig_bind_ne_overflow hconfig ?_)
  exact (avoids_updateUserRewards hlength h).bind fun _ => .ite (.pure 0)
    (Avoids.get.bind fun _ => (Avoids.set _).bind fun _ => avoids_transfer.bind fun _ => .pure _)

end Overflow

/-! Where the epoch does not end in time, storages with a rate of zero for every epoch show that
nothing else stops the loops before its end is computed. -/

section Overflows

variable {config : StakingConfig Address} {t1 t2 epoch sequence x : ℕ}
  {s : State Address Tokens}

theorem run_plainU32_bind_of_le {α : Type} {f : ℕ → Body Address Tokens α} (h : 2 ^ 32 ≤ x) :
    (plainU32 x >>= f).run s = .error overflowTrap := by
  refine run_bind_of_error ?_
  rw [plainU32, require, if_neg (not_lt.mpr h)]
  rfl

theorem returns_orOverflow_of_eq {α : Type} {a : α} {o : Option α} (h : o = some a) :
    Returns (orOverflow o) s a s := returns_orFault.mpr ⟨h, rfl⟩

/-- A factor whose exponent is zero is one. -/
theorem factor_zero (blocks : ℕ) (h : blocks < 2 ^ 32) :
    ∃ blocksFixed, Fixed.fromInt blocks = some blocksFixed ∧ Fixed.mul 0 blocksFixed = some 0 ∧
      Fixed.exp 0 = some Fixed.one ∧ Fixed.mul Fixed.one Fixed.one = some Fixed.one := by
  have hfits : IntType.i128.Fits (blocks * scale) := by
    constructor <;> simp only [IntType.i128, scale] <;> omega
  refine ⟨blocks * scale, IntType.checked_eq_some.mpr ⟨hfits, rfl⟩, ?_, rfl, by decide +kernel⟩
  exact (mul_eq_some le_rfl (mul_nonneg (Int.natCast_nonneg _) (by decide))).mpr
    ⟨by rw [zero_mul]; rfl, by decide⟩

/-- **A round with the rate zero** leaves the multiplier one, or the end of the epoch overflows. -/
theorem returns_or_overflow_compound (hrate : ∃ snapshot, s.epochSnapshot epoch = some snapshot ∧
    snapshot.rate = 0) (ht2 : t2 < 2 ^ 32) :
    Returns (compound config t1 t2 Fixed.one epoch) s Fixed.one s ∧
        boundary config (epoch + 1) < 2 ^ 32 ∨
      (compound config t1 t2 Fixed.one epoch).run s = .error overflowTrap := by
  obtain ⟨snapshot, hsnapshot, hzero⟩ := hrate
  have hget : Returns (getEpochRate epoch) s 0 s := by
    rw [getEpochRate, returns_get_bind, returns_orFault_bind]
    exact ⟨snapshot, hsnapshot, returns_pure.mpr ⟨hzero, rfl⟩⟩
  unfold compound
  rw [Returns, run_bind_of_returns hget, epochStartBlock]
  simp only [bind_assoc]
  -- one operator after the other
  by_cases hblocks : epoch * config.epochLength < 2 ^ 32
  · rw [run_bind_of_returns (returns_plainU32.mpr ⟨hblocks, rfl, rfl⟩)]
    by_cases hstart : config.startBlock + epoch * config.epochLength < 2 ^ 32
    · rw [run_bind_of_returns (returns_plainU32.mpr ⟨hstart, rfl, rfl⟩)]
      by_cases hend : config.startBlock + epoch * config.epochLength + config.epochLength < 2 ^ 32
      · rw [run_bind_of_returns (returns_plainU32.mpr ⟨hend, rfl, rfl⟩)]
        refine .inl ⟨?_, by rwa [boundary_succ]⟩
        split
        · obtain ⟨blocksFixed, hfixed, hmul, hexp, hone⟩ := factor_zero
            (min t2 (config.startBlock + epoch * config.epochLength + config.epochLength) -
              max t1 (config.startBlock + epoch * config.epochLength)) (by omega)
          rw [run_bind_of_returns (returns_orOverflow_of_eq hfixed),
            run_bind_of_returns (returns_orOverflow_of_eq hmul),
            run_bind_of_returns (returns_orOverflow_of_eq hexp)]
          exact returns_orOverflow_of_eq hone
        · rfl
      · exact .inr (run_plainU32_bind_of_le (not_lt.mp hend))
    · exact .inr (run_plainU32_bind_of_le (not_lt.mp hstart))
  · exact .inr (run_plainU32_bind_of_le (not_lt.mp hblocks))

/-- The round of an epoch that does not end in time. -/
theorem overflow_compound (hrate : ∃ snapshot, s.epochSnapshot epoch = some snapshot ∧
    snapshot.rate = 0) (ht2 : t2 < 2 ^ 32) (hend : 2 ^ 32 ≤ boundary config (epoch + 1)) :
    (compound config t1 t2 Fixed.one epoch).run s = .error overflowTrap := by
  rcases returns_or_overflow_compound hrate ht2 with ⟨-, hlt⟩ | htrap
  · exact absurd hlt (not_lt.mpr hend)
  · exact htrap

/-- **The multiplier** up to a ledger whose epoch does not end in time. -/
theorem overflow_calculateMultiplier (hsequence : sequence < 2 ^ 32)
    (hends : ¬EpochEnds config sequence)
    (hrate : ∀ epoch, ∃ snapshot, s.epochSnapshot epoch = some snapshot ∧ snapshot.rate = 0) :
    (calculateMultiplier config 0 sequence).run s = .error overflowTrap := by
  obtain ⟨hstart, hend⟩ := not_or.mp hends
  have hstart := not_le.mp hstart
  have hfirst : epochForBlock config.startBlock config.epochLength config.startBlock = 0 :=
    if_pos le_rfl
  unfold calculateMultiplier
  rw [if_neg (by omega), Nat.zero_max, max_eq_left hstart.le, if_neg (not_le.mpr hstart), hfirst]
  dsimp only
  rw [Nat.sub_zero, List.range'_1_concat, Nat.zero_add]
  -- all rates are stored, but the number after the last epoch may not fit
  have hensure : Returns (ensureEpochSnapshots config sequence) s ⟨⟩ s ∨
      (ensureEpochSnapshots config sequence).run s = .error overflowTrap := by
    refine returns_or_error_forM fun epoch _ => ?_
    have hstored : Returns (ensureEpochSnapshot config epoch) s () s := by
      obtain ⟨snapshot, hsnapshot, -⟩ := hrate epoch
      rw [ensureEpochSnapshot, returns_get_bind, hsnapshot]
      exact returns_pure.mpr ⟨rfl, rfl⟩
    rw [Returns, run_bind_of_returns hstored]
    by_cases hnumber : epoch + 1 < 2 ^ 32
    · refine .inl (returns_map.mpr ⟨_, returns_plainU32.mpr ⟨hnumber, rfl, rfl⟩, rfl⟩)
    · refine .inr ?_
      show StateT.run ((fun _ => ()) <$> plainU32 (epoch + 1)) s = _
      rw [map_eq_pure_bind]
      exact run_plainU32_bind_of_le (not_lt.mp hnumber)
  rcases hensure with hensure | hensure
  · rw [run_bind_of_returns hensure, List.foldlM_append]
    -- the epochs before the last one leave the multiplier one
    rcases returns_or_error_foldlM fun epoch _ =>
      (returns_or_overflow_compound (hrate epoch) hsequence).imp_left And.left with hloop | hloop
    · rw [run_bind_of_returns hloop, List.foldlM_cons]
      exact run_bind_of_error (overflow_compound (hrate _) hsequence (not_lt.mp hend))
    · exact run_bind_of_error hloop
  · exact run_bind_of_error hensure

end Overflows

/-- **The arithmetic of the epochs** never overflows up to a ledger, and the operations of the
stakers never trap for it, just when the end of the epoch of the ledger is a `u32`. -/
theorem epochArithmetic_fits_iff [DecidableEq Address] {owner stakingToken rewardToken : Address}
    {initialRate epochDecayPercent : ℤ} {epochLength startBlock sequence : ℕ}
    {config : StakingConfig Address} {s₀ t₀ : State Address Tokens} {v : Unit}
    (h : Returns (initializeStaking owner stakingToken rewardToken initialRate epochDecayPercent
      epochLength startBlock) s₀ v t₀) (hconfig : t₀.config = some config)
    (hsequence : sequence < 2 ^ 32) :
    ((∀ (s : State Address Tokens) t1,
        (calculateMultiplier config t1 sequence).run s ≠ .error overflowTrap) ∧
      ∀ (host : Host Address Tokens) (env : Env host) (s : State Address Tokens) user amount,
        env.sequence = sequence → s.config = some config →
          (stake env user amount).run s ≠ .error overflowTrap ∧
            (withdraw env user amount).run s ≠ .error overflowTrap ∧
            (claim env user).run s ≠ .error overflowTrap) ↔
      EpochEnds config sequence := by
  have hlength := accepted_initializeStaking h hconfig
  constructor
  · rintro ⟨hfits, -⟩
    by_contra hends
    -- a storage in which all rates are zero, so that nothing stops the loops before
    refine hfits { t₀ with epochSnapshot := fun _ => some ⟨0, 0⟩ } 0 ?_
    exact overflow_calculateMultiplier hsequence hends fun _ => ⟨⟨0, 0⟩, rfl, rfl⟩
  · intro hends
    refine ⟨fun s t1 => avoids_calculateMultiplier hlength hends s, ?_⟩
    rintro host env s user amount rfl hstored
    exact ⟨stake_ne_overflow hstored hlength hends, withdraw_ne_overflow hstored hlength hends,
      claim_ne_overflow hstored hlength hends⟩

/-- The last epoch of four ledgers that ends in time is that of the ledger 4294967294. -/
theorem epochArithmetic_fits_sample :
    let config : StakingConfig ℕ := ⟨1, 9, 8, 0, 0, 4, 3, false⟩
    ¬EpochEnds config 4294967295 ∧ ∀ (s : State ℕ (Balances ℕ)) t1,
      (calculateMultiplier config t1 4294967294).run s ≠ .error overflowTrap :=
  ⟨not_or.mpr ⟨by decide, by decide +kernel⟩, ((epochArithmetic_fits_iff (v := ())
    (show Returns (initializeStaking 1 9 8 0 0 4 3) (State.initial (Balances.constant ℕ 0)) () _
      from rfl) rfl (by decide)).mpr (.inr (by decide +kernel))).1⟩

/-- A stake at the ledger 10, where the only epoch there is ends after the last ledger. -/
def longEpoch : List (Env market × Call ℕ) :=
  [(marketEnv 1, .initializeStaking 1 9 8 0 0 4294967295 1), (marketEnv 10, .stake 2 500)]

/-- **The staker cannot get the stake back.** One ledger after it, the three operations trap. -/
theorem epochArithmetic_traps :
    ¬∀ (ls : List (Event market)) (s : State ℕ (Balances ℕ)),
      Run (Step entryPoint) (State.initial (Balances.constant ℕ 1000)) ls s →
        ∀ (env : Env market) user amount,
          (stake env user amount).run s ≠ .error overflowTrap ∨
            (withdraw env user amount).run s ≠ .error overflowTrap ∨
            (claim env user).run s ≠ .error overflowTrap := by
  intro hall
  rcases hall _ _ (run_execute entryPoint _ longEpoch) (marketEnv 11) 2 500 with h | h | h
  · exact h rfl
  · exact h rfl
  · exact h rfl

end StakingRewards
