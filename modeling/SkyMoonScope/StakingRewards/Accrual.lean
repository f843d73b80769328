import SkyMoonScope.StakingRewards.Principal

/-!
# Rewards grow

What a staker has is multiplied by a factor for every epoch since the last update. As long as the
exponent of each factor is one whose power fits, no factor is less than one, and the rewards of a
staker become less by nothing but a claim or an emergency withdrawal of this staker. The exponential
shifts its result without a look at what is shifted out, and so a greater exponent can make rewards
negative, which are then stored.

## Main definitions

* `Moderate`: the exponents of an update have powers that fit
* `Accruing`: no rewards are negative, and the stored rates are those of their epochs

## Main results

* `computeEpochRate_nonneg`: a rate is not negative, and at most the initial one
* `scale_le_multiplier`: a multiplier is at least one
* `accruing_step`: a call keeps this, and lowers no rewards but by a claim or an emergency
  withdrawal
* `accrual_monotone`: so does every run
* `rewards_negative`: a run in which rewards become negative
-/

namespace StakingRewards

open Soroban Machine Math Function

variable {Address Tokens : Type}

/-- The staker whose entry a call brings up to the current ledger. -/
def Call.updates : Call Address → Option Address
  | .stake user _ => some user
  | .withdraw user _ => some user
  | .claim user => some user
  | _ => none

/-- The rate of every epoch times its ledgers since the last update is at most the greatest exponent
whose power fits. -/
def ModerateSince (config : StakingConfig Address) (lastUpdateBlock sequence : ℕ) : Prop :=
  ∀ epoch rate, computeEpochRate config.initialRate config.epochDecayPercent epoch = .ok rate →
    rate * overlap config (max lastUpdateBlock config.startBlock)
      (max sequence config.startBlock) epoch ≤ maxExponent

/-- The rewards that a call brings up to the current ledger, if any, have such exponents. -/
def Moderate {host : Host Address Tokens} (s : State Address Tokens) (env : Env host)
    (call : Call Address) : Prop :=
  ∀ config user state, s.config = some config → call.updates = some user →
    s.userState user = some state → 0 < state.stakedAmount →
      ModerateSince config state.lastUpdateBlock env.sequence

/-! ## The rates -/

section Rates

variable {base temp ans exp v initialRate epochDecayPercent rate : ℤ} {rounds epoch n : ℕ}

/-- A power of at most one is at most one. -/
theorem fixedPowIntLoop_mem (htemp : 0 ≤ temp) (htemp' : temp ≤ scale) (hans : 0 ≤ ans)
    (hans' : ans ≤ scale) (h : fixedPowIntLoop rounds temp ans n = some v) :
    0 ≤ v ∧ v ≤ scale := by
  induction rounds generalizing temp ans n with
  | zero =>
    obtain rfl := Option.some.inj h
    exact ⟨hans, hans'⟩
  | succ rounds ih =>
    unfold fixedPowIntLoop at h
    split at h
    · obtain ⟨next, hnext, h⟩ := Option.bind_eq_some_iff.mp h
      obtain ⟨square, hsquare, h⟩ := Option.bind_eq_some_iff.mp h
      have hmem : 0 ≤ next ∧ next ≤ scale := by
        split at hnext
        · obtain ⟨hlow, hhigh⟩ := mul_le hans htemp htemp' hnext
          exact ⟨hlow, hhigh.trans hans'⟩
        · obtain rfl := Option.some.inj hnext
          exact ⟨hans, hans'⟩
      obtain ⟨hlow, hhigh⟩ := mul_le htemp htemp htemp' hsquare
      exact ih hlow (hhigh.trans htemp') hmem.1 hmem.2 h
    · obtain rfl := Option.some.inj h
      exact ⟨hans, hans'⟩

/-- **A rate** is not negative, and at most the initial one. -/
theorem computeEpochRate_nonneg (hinitial : 0 ≤ initialRate)
    (h : computeEpochRate initialRate epochDecayPercent epoch = .ok rate) :
    0 ≤ rate ∧ rate ≤ initialRate := by
  unfold computeEpochRate at h
  split at h
  · obtain rfl := Except.ok.inj h
    exact ⟨hinitial, le_rfl⟩
  · split at h
    · cases h
    · split at h
      · cases h
      next base _ hbase =>
        split at h
        · cases h
        next rate' hrate =>
          obtain rfl := Except.ok.inj h
          obtain ⟨power, hpower, hmul⟩ := Option.bind_eq_some_iff.mp hrate
          obtain ⟨hlow, hhigh⟩ := not_or.mp hbase
          obtain ⟨hpower0, hpower1⟩ := fixedPowIntLoop_mem (not_lt.mp hlow) (not_lt.mp hhigh)
            (by decide) le_rfl hpower
          exact mul_le hinitial hpower0 hpower1 hmul

end Rates

/-! ## The multiplier -/

section Multiplier

variable {s t : State Address Tokens} {config : StakingConfig Address} {r mult : ℤ} {t1 t2 : ℕ}

/-- The loop does not lower a multiplier that is at least one. -/
theorem le_foldlM_compound {epochs : List ℕ}
    (hrates : ∀ epoch snapshot, s.epochSnapshot epoch = some snapshot →
      0 ≤ snapshot.rate ∧ snapshot.rate * overlap config t1 t2 epoch ≤ maxExponent)
    (hmult : scale ≤ mult)
    (h : Returns (epochs.foldlM (compound config t1 t2) mult) s r t) : scale ≤ r := by
  induction epochs generalizing mult with
  | nil =>
    obtain ⟨rfl, -⟩ := returns_pure.mp h
    exact hmult
  | cons epoch epochs ih =>
    rw [List.foldlM_cons] at h
    obtain ⟨next, u, hround, hrest⟩ := returns_bind.mp h
    obtain ⟨rfl, rfl | ⟨snapshot, blocks, exponent, factor, hsnapshot, hblocks, hexponent, hfactor,
      hmul⟩⟩ := returns_compound hround
    · exact ih hmult hrest
    · obtain ⟨hrate, hfits⟩ := hrates epoch snapshot hsnapshot
      have hledgers : (0 : ℤ) ≤ overlap config t1 t2 epoch := Int.natCast_nonneg _
      obtain rfl := mul_fromInt hrate hledgers hblocks hexponent
      have hone : scale ≤ factor := scale_le_exp (mul_nonneg hrate hledgers) hfits hfactor
      exact ih (hmult.trans (le_mul (le_trans (by decide) hmult) hone hmul)) hrest

/-- **A multiplier is at least one** when the exponents have powers that fit. -/
theorem scale_le_multiplier (hinitial : 0 ≤ config.initialRate)
    (hrates : Rates config s.epochSnapshot) (hmoderate : ModerateSince config t1 t2)
    (h : Returns (calculateMultiplier config t1 t2) s r t) : scale ≤ r := by
  rcases returns_calculateMultiplier h with ⟨hsnapshotted, rfl | ⟨epochs, hloop⟩⟩
  · exact le_rfl
  · refine le_foldlM_compound (fun epoch snapshot hsnapshot => ?_) le_rfl hloop
    have hrate := hsnapshotted.rates hrates epoch snapshot hsnapshot
    exact ⟨(computeEpochRate_nonneg hinitial hrate).1, hmoderate epoch _ hrate⟩

/-- **The rewards do not become less** by a multiplier of at least one. -/
theorem le_computeRewardIndex {staked accrued : ℤ} (hmult : scale ≤ mult)
    (h : Returns (computeRewardIndex staked accrued mult) s r t) : accrued ≤ r := by
  obtain ⟨hstaked, haccrued, -, vNew, hvNew, -, rfl, -⟩ := returns_computeRewardIndex.mp h
  have hle : staked + accrued ≤ vNew := le_mul (by linarith) hmult hvNew
  linarith

end Multiplier

/-! ## Steps -/

/-- No rewards are negative, and the stored rates are those of their epochs. -/
structure Accruing (s : State Address Tokens) : Prop where
  accrued_nonneg : ∀ user, 0 ≤ getAccruedRewards s user
  rates : ∀ config, s.config = some config →
    0 ≤ config.initialRate ∧ Rates config s.epochSnapshot
  fresh : s.config = none → ∀ epoch, s.epochSnapshot epoch = none

section Step

variable {host : Host Address Tokens} {env : Env host} {s t u : State Address Tokens} {r : Unit}
  {v : ℤ} {user : Address} {amount : ℤ}

theorem accruing_snapshotted {config : StakingConfig Address} (hs : Accruing s)
    (hconfig : s.config = some config) (h : Snapshotted config s t) : Accruing t := by
  obtain ⟨⟨snapshots, rfl⟩, hrates⟩ := h
  refine ⟨hs.accrued_nonneg, fun config' hconfig' => ?_, fun hnone => ?_⟩
  · obtain rfl := Option.some.inj (hconfig.symm.trans hconfig')
    obtain ⟨hinitial, hbefore⟩ := hs.rates config hconfig
    exact ⟨hinitial, hrates hbefore⟩
  · cases hconfig.symm.trans hnone

/-- **An update** does not lower the rewards. -/
theorem le_updateUserRewards {config : StakingConfig Address} {state : UserStakingState}
    {sequence : ℕ} (hs : Accruing s) (hconfig : s.config = some config)
    (hmoderate : ∀ old, s.userState user = some old → 0 < old.stakedAmount →
      ModerateSince config old.lastUpdateBlock sequence)
    (h : Returns (updateUserRewards sequence config user) s state t) :
    Accruing t ∧ getAccruedRewards s user ≤ state.accruedRewards := by
  obtain ⟨hsnapshotted, -, haccrued⟩ := returns_updateUserRewards h
  refine ⟨accruing_snapshotted hs hconfig hsnapshotted, ?_⟩
  rcases haccrued with haccrued | ⟨old, multiplier, hold, hstaked, hmultiplier, hindex⟩
  · exact haccrued.ge
  · obtain ⟨hinitial, hrates⟩ := hs.rates config hconfig
    have hone := scale_le_multiplier hinitial hrates (hmoderate old hold hstaked) hmultiplier
    rw [getAccruedRewards, hold, Option.elim_some]
    exact le_computeRewardIndex hone hindex

variable [DecidableEq Address]

/-- The rewards after the entry of a staker was written. -/
theorem accrued_update {o : Option UserStakingState} {tokens : Tokens} {total : ℤ}
    (other : Address) :
    getAccruedRewards { s with
      tokens
      totalStaked := total
      userState := update s.userState user o } other =
        if other = user then o.elim 0 UserStakingState.accruedRewards
        else getAccruedRewards s other := by
  unfold getAccruedRewards
  dsimp only
  split
  next heq => rw [heq, update_self]
  next hne => rw [update_of_ne hne]

/-- An entry whose rewards are not negative keeps what holds of the rewards. -/
theorem accruing_update {o : Option UserStakingState} {tokens : Tokens} {total : ℤ}
    (hs : Accruing s) (hentry : 0 ≤ o.elim 0 UserStakingState.accruedRewards) :
    Accruing { s with
      tokens
      totalStaked := total
      userState := update s.userState user o } := by
  refine ⟨fun other => ?_, hs.rates, hs.fresh⟩
  rw [accrued_update]
  split
  · exact hentry
  · exact hs.accrued_nonneg other

omit [DecidableEq Address] in
theorem accrued_snapshotted {config : StakingConfig Address} (h : Snapshotted config s t) :
    getAccruedRewards t = getAccruedRewards s := by
  obtain ⟨⟨snapshots, rfl⟩, -⟩ := h
  rfl

/-- What a call makes of the rewards: none are lowered but those of the staker who claims them, or
withdraws in an emergency. -/
def Raises (call : Call Address) (s t : State Address Tokens) : Prop :=
  ∀ user, getAccruedRewards s user ≤ getAccruedRewards t user ∨
    call = .claim user ∨ call = .emergencyWithdraw user

/-- A new entry with at least the rewards of the old one. -/
theorem raises_update {call : Call Address} {o : Option UserStakingState} {tokens : Tokens}
    {total : ℤ} (hu : getAccruedRewards u = getAccruedRewards s)
    (hentry : getAccruedRewards s user ≤ o.elim 0 UserStakingState.accruedRewards ∨
      call = .claim user ∨ call = .emergencyWithdraw user) :
    Raises call s { u with
      tokens
      totalStaked := total
      userState := update u.userState user o } := by
  intro other
  rw [accrued_update]
  split
  next heq =>
    subst heq
    exact hentry
  next => exact .inl (congrFun hu other).ge

theorem accruing_stake (hs : Accruing s) (hmoderate : Moderate s env (.stake user amount))
    (h : Returns (stake env user amount) s r t) :
    Accruing t ∧ Raises (.stake user amount) s t := by
  obtain ⟨config, state, u, tokens, hconfig, -, -, hupdate, -, rfl⟩ := returns_stake h
  obtain ⟨hu, hle⟩ := le_updateUserRewards hs hconfig
    (fun old hold => hmoderate config user old hconfig rfl hold) hupdate
  have hsame := accrued_snapshotted (returns_updateUserRewards hupdate).1
  exact ⟨accruing_update hu ((hs.accrued_nonneg user).trans hle),
    raises_update hsame (.inl hle)⟩

theorem accruing_withdraw (hs : Accruing s) (hmoderate : Moderate s env (.withdraw user amount))
    (h : Returns (withdraw env user amount) s r t) :
    Accruing t ∧ Raises (.withdraw user amount) s t := by
  obtain ⟨config, state, u, tokens, hconfig, -, -, hupdate, -, -, rfl⟩ := returns_withdraw h
  obtain ⟨hu, hle⟩ := le_updateUserRewards hs hconfig
    (fun old hold => hmoderate config user old hconfig rfl hold) hupdate
  have hsame := accrued_snapshotted (returns_updateUserRewards hupdate).1
  -- an entry is removed only when it has no rewards
  have hentry : (if state.stakedAmount - amount = 0 ∧ state.accruedRewards = 0 then none
      else some { state with stakedAmount := state.stakedAmount - amount }).elim 0
        UserStakingState.accruedRewards = state.accruedRewards := by
    split
    next hempty => exact hempty.2.symm
    next => rfl
  refine ⟨accruing_update hu ?_, raises_update hsame (.inl ?_)⟩ <;> rw [hentry]
  · exact (hs.accrued_nonneg user).trans hle
  · exact hle

theorem accruing_claim (hs : Accruing s) (hmoderate : Moderate s env (.claim user))
    (h : Returns (claim env user) s v t) : Accruing t ∧ Raises (.claim user) s t := by
  obtain ⟨config, state, u, hconfig, -, hupdate, hcase⟩ := returns_claim h
  obtain ⟨hu, hle⟩ := le_updateUserRewards hs hconfig
    (fun old hold => hmoderate config user old hconfig rfl hold) hupdate
  have hsame := accrued_snapshotted (returns_updateUserRewards hupdate).1
  rcases hcase with ⟨-, rfl⟩ | ⟨-, tokens, -, rfl⟩
  · exact ⟨hu, fun other => .inl (congrFun hsame other).ge⟩
  · refine ⟨accruing_update hu ?_, raises_update hsame (.inr (.inl rfl))⟩
    split <;> exact le_rfl

theorem accruing_emergencyWithdraw (hs : Accruing s)
    (h : Returns (emergencyWithdraw env user) s v t) :
    Accruing t ∧ Raises (.emergencyWithdraw user) s t := by
  obtain ⟨config, -, -, ⟨-, rfl⟩ | ⟨state, -, ⟨-, rfl⟩ | ⟨-, payout, tokens, -, -, rfl⟩⟩⟩ :=
    returns_emergencyWithdraw h
  · exact ⟨hs, fun other => .inl le_rfl⟩
  · exact ⟨⟨hs.accrued_nonneg, hs.rates, hs.fresh⟩, fun other => .inl le_rfl⟩
  · exact ⟨accruing_update hs le_rfl, raises_update rfl (.inr (.inr rfl))⟩

omit [DecidableEq Address] in
theorem accruing_initialize {owner stakingToken rewardToken : Address}
    {initialRate epochDecayPercent : ℤ} {epochLength startBlock : ℕ} (hs : Accruing s)
    (h : Returns (initializeStaking owner stakingToken rewardToken initialRate epochDecayPercent
      epochLength startBlock) s r t) :
    Accruing t ∧ getAccruedRewards t = getAccruedRewards s := by
  obtain ⟨hnone, hinitial, guard, rfl⟩ := returns_initializeStaking h
  refine ⟨⟨hs.accrued_nonneg, fun config hconfig => ?_, fun hconfig => by cases hconfig⟩, rfl⟩
  obtain rfl := Option.some.inj hconfig
  refine ⟨hinitial, fun epoch snapshot hsnapshot => ?_⟩
  dsimp only at hsnapshot
  by_cases hepoch : epoch = 0
  · subst hepoch
    rw [update_self] at hsnapshot
    obtain rfl := Option.some.inj hsnapshot
    rfl
  · rw [update_of_ne hepoch, hs.fresh hnone epoch] at hsnapshot
    cases hsnapshot

/-- **Every call** that returns keeps the rewards from becoming negative, and lowers none but by a
claim or an emergency withdrawal, when its exponents have powers that fit. -/
theorem accruing_step {call : Call Address} (hs : Accruing s) (hmoderate : Moderate s env call)
    (h : Returns (entryPoint env call) s v t) : Accruing t ∧ Raises call s t := by
  have hu : Accruing { s with tokens := env.outside s.tokens } :=
    ⟨hs.accrued_nonneg, hs.rates, hs.fresh⟩
  have hmoderate' : Moderate { s with tokens := env.outside s.tokens } env call := hmoderate
  rw [returns_entryPoint] at h
  suffices hsuffices : Accruing t ∧ Raises call { s with tokens := env.outside s.tokens } t from
    hsuffices
  cases call with
  | initializeStaking owner stakingToken rewardToken initialRate epochDecayPercent epochLength
      startBlock =>
    obtain ⟨_, h, -⟩ := returns_map.mp h
    obtain ⟨ht, hsame⟩ := accruing_initialize hu h
    exact ⟨ht, fun user => .inl (congrFun hsame user).ge⟩
  | stake user amount =>
    obtain ⟨_, h, -⟩ := returns_map.mp h
    exact accruing_stake hu hmoderate' h
  | withdraw user amount =>
    obtain ⟨_, h, -⟩ := returns_map.mp h
    exact accruing_withdraw hu hmoderate' h
  | claim user => exact accruing_claim hu hmoderate' h
  | emergencyWithdraw user => exact accruing_emergencyWithdraw hu h
  | _ =>
    obtain ⟨guard, penaltyFeeBps, rfl⟩ := returns_quiet (by trivial) h
    exact ⟨⟨hu.accrued_nonneg, hu.rates, hu.fresh⟩, fun user => .inl le_rfl⟩

end Step

/-! ## Runs -/

section Runs

variable [DecidableEq Address] {host : Host Address Tokens} {s : State Address Tokens}
  {tokens : Tokens} {ls : List (Event host)}

/-- **Rewards grow** in every run whose updates have exponents with powers that fit. No rewards are
negative in a state that is reached, and no next call lowers any but those of the staker who claims
them, or withdraws in an emergency. -/
theorem accrual_monotone
    (h : Run (fun u l w => Step entryPoint u l w ∧
      ∀ v, l.result = .ok v → Moderate u l.host l.call) (State.initial tokens) ls s) :
    (∀ user, 0 ≤ getAccruedRewards s user) ∧
      ∀ (l : Event host) t, Step entryPoint s l t →
        (∀ v, l.result = .ok v → Moderate s l.host l.call) →
          ∀ user, getAccruedRewards t user < getAccruedRewards s user →
            l.call = .claim user ∨ l.call = .emergencyWithdraw user := by
  have hs : Accruing s := by
    refine invariant_of_returns (P := Moderate) (I := Accruing)
      (fun hu hreturns hmoderate => (accruing_step hu hmoderate hreturns).1) h ?_
    exact ⟨fun user => le_rfl, fun config hconfig => (by cases hconfig), fun _ epoch => rfl⟩
  refine ⟨hs.accrued_nonneg, fun l t hl hmoderate user hlt => ?_⟩
  rcases hl.cases with ⟨v, hv, hreturns⟩ | ⟨-, rfl⟩
  · rcases (accruing_step hs (hmoderate v hv) hreturns).2 user with hle | hcall
    · exact absurd hlt (not_lt.mpr hle)
    · exact hcall
  · exact absurd hlt (lt_irrefl _)

omit [DecidableEq Address] in
/-- Where the initial rate is low enough for all ledgers there are, every call is moderate. -/
theorem moderate_of_slow {env : Env host} {call : Call Address}
    (h : (s.config.all fun config => 0 ≤ config.initialRate ∧
      config.initialRate * 4294967296 ≤ maxExponent) = true) : Moderate s env call := by
  intro config user state hconfig _ _ _ epoch rate hrate
  rw [hconfig] at h
  obtain ⟨hinitial, hslow⟩ := of_decide_eq_true h
  obtain ⟨hnonneg, hle⟩ := computeEpochRate_nonneg hinitial hrate
  have hlt := env.sequence_lt
  have hledgers : (overlap config (max state.lastUpdateBlock config.startBlock)
      (max env.sequence config.startBlock) epoch : ℤ) ≤ 4294967296 := by
    unfold overlap
    omega
  exact (mul_le_mul hle hledgers (Int.natCast_nonneg _) hinitial).trans hslow

end Runs

/-! ## Two stakes -/

/-- Two stakes of the same staker, at an initial rate and with ledgers between them. -/
def twoStakes (initialRate amount : ℤ) (ledgers : ℕ) : List (Env market × Call ℕ) :=
  [(marketEnv 1, .initializeStaking 1 9 8 initialRate 0 1000 1),
    (marketEnv 10, .stake 2 amount), (marketEnv (10 + ledgers), .stake 2 amount)]

/-- What the staker has been rewarded with. -/
def rewarded (initialRate amount : ℤ) (ledgers : ℕ) : ℤ :=
  getAccruedRewards (execute entryPoint (State.initial (Balances.constant ℕ 100000000))
    (twoStakes initialRate amount ledgers)).2 2

theorem slow_twoStakes : CallsMeet entryPoint Moderate
    (State.initial (Balances.constant ℕ 100000000)) (twoStakes 10000000000 10000000 5000) := by
  refine ⟨fun _ _ => moderate_of_slow ?_, fun _ _ => moderate_of_slow ?_,
    fun _ _ => moderate_of_slow ?_, trivial⟩ <;> decide +kernel

theorem accrual_monotone_sample :
    rewarded 10000000000 10000000 5000 = 500 ∧
      ∀ user, 0 ≤ getAccruedRewards (execute entryPoint
        (State.initial (Balances.constant ℕ 100000000)) (twoStakes 10000000000 10000000 5000)).2
          user :=
  ⟨by decide +kernel, (accrual_monotone (run_execute_meeting slow_twoStakes)).1⟩

/-- **Negative rewards.** After 47 ledgers at the rate of one the exponential is negative. -/
theorem rewards_negative :
    ¬∀ (ls : List (Event market)) (s : State ℕ (Balances ℕ)),
      Run (Step entryPoint) (State.initial (Balances.constant ℕ 100000000)) ls s →
        ∀ user, 0 ≤ getAccruedRewards s user := by
  intro hall
  have hnonneg : 0 ≤ rewarded scale 1 47 := hall _ _ (run_execute entryPoint _ _) 2
  exact absurd hnonneg (by decide +kernel)

end StakingRewards
