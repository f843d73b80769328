import SkyMoonScope.Lib.Machine
import SkyMoonScope.LiquidityPool.Admin

/-!
# Calls of the pool

Every entry point that `contracts/liquidity_pool/src/lib.rs` exports, in the order of its two
`contractimpl` blocks. A call runs one of them with what its environment provides, and a call that
fails is reverted.

## Main definitions

* `Call`, `View`: the entry points with their arguments; a view reads and cannot fail
* `Response`, `Failure`: what a call returns, or fails with
* `entryPoint`: the body of the called entry point
* `Storage.step`: a call with its result, as a step of the storage
* `execute`: calls made one after another
* `Storage.initial`: the storage before the first call
-/

namespace LiquidityPool

open Soroban EmergencyGuard Machine

/-- An entry point that reads the storage and cannot fail. -/
inductive View (Address : Type)
  | getAdminThreshold
  | guardIsPaused (operation : UInt32)
  | getPauseMask
  | isPausedOp (operation : UInt32)
  | getGuardAdmins
  | getGuardThreshold
  | getFee
  | getLpFeeBps
  | getLastVolatilityBps
  | getPendingFeeUpdate
  | getStakedBalance (user : Address)
  | getPendingRewards (user : Address)
  | getTotalStaked
  | name
  | symbol
  | decimals
  | balance (id : Address)
  | totalSupply
  | allowance (source spender : Address)
  | getPauseState
  | getAdmins
  | getThreshold
  | isAdmin (addr : Address)

/-- A call of an entry point. -/
inductive Call (Address : Type)
  | initializePool (admin tokenA tokenB : Address)
  | getAdmin
  | guardPause (admin : Address) (operation : UInt32) (paused : Bool)
  | setOperationPaused (admin : Address) (operation : UInt32) (paused : Bool)
  | setPaused (paused : Bool)
  | pauseSwaps
  | resumeSwaps
  | pauseDeposits
  | resumeDeposits
  | pauseWithdrawals
  | resumeWithdrawals
  | emergencyPause (approvers : List Address)
  | resume (approvers : List Address)
  | guardUnpause (approvers : List Address)
  | addGuardAdmin (approvers : List Address) (newAdmin : Address)
  | removeGuardAdmin (approvers : List Address) (admin : Address)
  | setFee (feeBps : ℤ)
  | setLpFeeBps (feeBps : ℤ)
  | configureFeeOracle (oracle : Address) (baseFeeBps timelockLedgers : ℤ)
  | syncFeeFromOracle
  | executeFeeUpdate
  | stake (user : Address) (amount : ℤ)
  | unstake (user : Address) (amount : ℤ)
  | claimRewards (user : Address)
  | deposit (user : Address) (amountA amountB : ℤ)
  | swap (user : Address) (buyA : Bool) (out inMax : ℤ)
  | swapExactIn (user : Address) (buyA : Bool) (amountIn minAmountOut : ℤ)
  | getAmountOut (buyA : Bool) (amountIn : ℤ)
  | getAmountIn (buyA : Bool) (amountOut : ℤ)
  | getReserves
  | withdraw (user : Address) (shareAmount : ℤ)
  | burn (source : Address) (amount : ℤ)
  | transfer (source destination : Address) (amount : ℤ)
  | approve (source spender : Address) (amount expirationLedger : ℤ)
  | transferFrom (spender source destination : Address) (amount : ℤ)
  | checkNotPaused (operation : UInt32)
  | setPauseState (operation : UInt32) (paused : Bool)
  | unpause (admin : Address) (operation : UInt32)
  | unpauseAll (admin : Address)
  | emergencyPauseAll (approvers : List Address)
  | resumeAll (approvers : List Address)
  | initGuard (admins : List Address) (threshold : ℕ)
  | addAdmin (approvers : List Address) (newAdmin : Address)
  | removeAdmin (approvers : List Address) (admin : Address)
  | rotateAdmin (approvers : List Address) (oldAdmin newAdmin : Address)
  | view (view : View Address)

/-- What a call returns. -/
inductive Response (Address : Type)
  | unit
  | amount (x : ℤ)
  | amounts (a b : ℤ)
  | flag (b : Bool)
  | mask (m : UInt32)
  | count (n : ℕ)
  | text (s : String)
  | address (addr : Address)
  | addresses (addrs : List Address)
  | pendingFeeUpdate (pending : Option PendingFeeUpdate)
deriving DecidableEq

/-- The error codes of the two groups of entry points. -/
inductive Failure
  | pool (e : Error)
  | guard (e : GuardError)
deriving DecidableEq

variable {Address Tokens α δ : Type}

section Dispatch

variable [DecidableEq Address] (host : Host Address Tokens)

def View.read (s : Storage Address Tokens) : View Address → Response Address
  | getAdminThreshold => .count (EmergencyGuard.getThreshold s.guard)
  | guardIsPaused operation => .flag (EmergencyGuard.isPaused s.guard operation)
  | getPauseMask => .mask (EmergencyGuard.getPauseState s.guard)
  | isPausedOp operation => .flag (EmergencyGuard.isPaused s.guard operation)
  | getGuardAdmins => .addresses (EmergencyGuard.getAdmins s.guard)
  | getGuardThreshold => .count (EmergencyGuard.getThreshold s.guard)
  | getFee => .amount ((s.pool.map PoolState.feeBps).getD defaultBaseFeeBps)
  | getLpFeeBps => .amount (LiquidityPool.getLpFeeBps s.toState)
  | getLastVolatilityBps => .amount ((s.oracle.map OracleConfig.lastVolatilityBps).getD 0)
  | getPendingFeeUpdate => .pendingFeeUpdate s.pendingFeeUpdate
  | getStakedBalance user => .amount (LiquidityPool.getStakedBalance s user)
  | getPendingRewards user =>
    .amount (calculatePendingRewards host.sequence s user (LiquidityPool.getStakedBalance s user))
  | getTotalStaked => .amount (LiquidityPool.getTotalStaked s)
  | name => .text "Liquidity Pool Share"
  | symbol => .text "LPS"
  | decimals => .count 7
  | balance id => .amount (Token.balance s id)
  | totalSupply => .amount (LiquidityPool.totalSupply s)
  | allowance source spender => .amount (Token.allowance host.sequence s source spender)
  | getPauseState => .mask (EmergencyGuard.getPauseState s.guard)
  | getAdmins => .addresses (EmergencyGuard.getAdmins s.guard)
  | getThreshold => .count (EmergencyGuard.getThreshold s.guard)
  | isAdmin addr => .flag (isAdminInternal s.guard addr)

/-- A body, with its errors and what it returns among those of the contract. -/
def exported (err : δ → Failure) (value : α → Response Address)
    (x : Contract (Storage Address Tokens) δ α) :
    Contract (Storage Address Tokens) Failure (Response Address) :=
  zoom id (fun _ u => u) err (value <$> x)

/-- An entry point of the first block that returns nothing. -/
def done (x : Entry Address Tokens Unit) :
    Contract (Storage Address Tokens) Failure (Response Address) :=
  exported .pool (fun _ => .unit) x

/-- An entry point of the trait that returns nothing. -/
def traitDone (x : TraitEntry Address Tokens Unit) :
    Contract (Storage Address Tokens) Failure (Response Address) :=
  exported .guard (fun _ => .unit) x

/-- The body of the called entry point. -/
def entryPoint : Call Address → Contract (Storage Address Tokens) Failure (Response Address)
  | .initializePool admin tokenA tokenB => done (initializePool admin tokenA tokenB)
  | .getAdmin => exported .pool .address getAdmin
  | .guardPause admin operation paused => done (guardPause host admin operation paused)
  | .setOperationPaused admin operation paused =>
    done (setOperationPaused host admin operation paused)
  | .setPaused paused => done (setPaused host paused)
  | .pauseSwaps => done (pauseSwaps host)
  | .resumeSwaps => done (resumeSwaps host)
  | .pauseDeposits => done (pauseDeposits host)
  | .resumeDeposits => done (resumeDeposits host)
  | .pauseWithdrawals => done (pauseWithdrawals host)
  | .resumeWithdrawals => done (resumeWithdrawals host)
  | .emergencyPause approvers => done (emergencyPause host approvers)
  | .resume approvers => done (resume host approvers)
  | .guardUnpause approvers => done (guardUnpause host approvers)
  | .addGuardAdmin approvers newAdmin => done (addGuardAdmin host approvers newAdmin)
  | .removeGuardAdmin approvers admin => done (removeGuardAdmin host approvers admin)
  | .setFee feeBps => done (setFee host feeBps)
  | .setLpFeeBps feeBps => done (setLpFeeBps host feeBps)
  | .configureFeeOracle oracle baseFeeBps timelockLedgers =>
    done (configureFeeOracle host oracle baseFeeBps timelockLedgers)
  | .syncFeeFromOracle => exported .pool .pendingFeeUpdate (syncFeeFromOracle host)
  | .executeFeeUpdate => exported .pool .amount (executeFeeUpdate host)
  | .stake user amount => done (stake host user amount)
  | .unstake user amount => done (unstake host user amount)
  | .claimRewards user => exported .pool .amount (claimRewards host user)
  | .deposit user amountA amountB =>
    exported .pool .amount (core (deposit host.toEnv user amountA amountB))
  | .swap user buyA out inMax =>
    exported .pool .amount (core (swap host.toEnv user buyA out inMax))
  | .swapExactIn user buyA amountIn minAmountOut =>
    exported .pool .amount (core (swapExactIn host.toEnv user buyA amountIn minAmountOut))
  | .getAmountOut buyA amountIn => exported .pool .amount (core (getAmountOut buyA amountIn))
  | .getAmountIn buyA amountOut => exported .pool .amount (core (getAmountIn buyA amountOut))
  | .getReserves => exported .pool (fun r => .amounts r.1 r.2) (core getReserves)
  | .withdraw user shareAmount =>
    exported .pool (fun r => .amounts r.1 r.2) (core (withdraw host.toEnv user shareAmount))
  | .burn source amount => done (burn host source amount)
  | .transfer source destination amount => done (Token.transfer host source destination amount)
  | .approve source spender amount expirationLedger =>
    done (Token.approve host source spender amount expirationLedger)
  | .transferFrom spender source destination amount =>
    done (Token.transferFrom host spender source destination amount)
  | .checkNotPaused operation => traitDone (checkNotPaused operation)
  | .setPauseState operation paused => traitDone (setPauseState operation paused)
  | .unpause admin operation => traitDone (unpause host admin operation)
  | .unpauseAll admin => traitDone (unpauseAll host admin)
  | .emergencyPauseAll approvers => traitDone (emergencyPauseAll host approvers)
  | .resumeAll approvers => traitDone (resumeAll host approvers)
  | .initGuard admins threshold => traitDone (initGuard admins threshold)
  | .addAdmin approvers newAdmin => traitDone (addAdmin host approvers newAdmin)
  | .removeAdmin approvers admin => traitDone (removeAdmin host approvers admin)
  | .rotateAdmin approvers oldAdmin newAdmin =>
    traitDone (rotateAdmin host approvers oldAdmin newAdmin)
  | .view view => do
    let s ← get
    pure (view.read host s)

end Dispatch

/-! ## Runs -/

/-- A call with what its environment provided and what it returned or failed with. -/
structure Event (Address Tokens : Type) where
  host : Host Address Tokens
  call : Call Address
  result : Except (Fault Failure) (Response Address)

/-- The ledger in which a call was made. -/
def Event.ledger (l : Event Address Tokens) : ℤ := l.host.sequence

/-- A call; one that fails is reverted. -/
def Storage.step [DecidableEq Address] (s : Storage Address Tokens) (l : Event Address Tokens)
    (t : Storage Address Tokens) : Prop :=
  invoke (entryPoint l.host l.call) s = (l.result, t)

/-- The events of calls made one after another, and the storage after them. -/
def execute [DecidableEq Address] (s : Storage Address Tokens) :
    List (Host Address Tokens × Call Address) → List (Event Address Tokens) × Storage Address Tokens
  | [] => ([], s)
  | (host, call) :: calls =>
    let (result, t) := invoke (entryPoint host call) s
    let (events, u) := execute t calls
    (⟨host, call, result⟩ :: events, u)

/-- The storage before the first call. -/
def Storage.initial (tokens : Tokens) : Storage Address Tokens where
  pool := none
  lpFeeBps := none
  balance := fun _ => none
  depositLedger := fun _ => none
  pauseState := none
  tokens := tokens
  admin := none
  allowance := fun _ _ => none
  oracle := none
  pendingFeeUpdate := none
  stakedBalance := fun _ => none
  totalStaked := none
  userRewards := fun _ => none
  lastRewardLedger := none
  accumulatedRewardPerShare := none
  admins := none
  guardians := none
  signatureThreshold := none

section

variable {s t : Storage Address Tokens} {v : Response Address}

@[simp] theorem returns_exported {err : δ → Failure} {value : α → Response Address}
    {x : Contract (Storage Address Tokens) δ α} :
    Returns (exported err value x) s v t ↔ ∃ a, Returns x s a t ∧ value a = v := by
  simp [exported]

@[simp] theorem returns_done {x : Entry Address Tokens Unit} :
    Returns (done x) s v t ↔ Returns x s () t ∧ v = .unit := by
  rw [done, returns_exported]
  constructor
  · rintro ⟨⟨⟩, h, rfl⟩
    exact ⟨h, rfl⟩
  · rintro ⟨h, rfl⟩
    exact ⟨(), h, rfl⟩

@[simp] theorem returns_traitDone {x : TraitEntry Address Tokens Unit} :
    Returns (traitDone x) s v t ↔ Returns x s () t ∧ v = .unit := by
  rw [traitDone, returns_exported]
  constructor
  · rintro ⟨⟨⟩, h, rfl⟩
    exact ⟨h, rfl⟩
  · rintro ⟨h, rfl⟩
    exact ⟨(), h, rfl⟩

variable [DecidableEq Address] {l : Event Address Tokens}

/-- A step is a call that returned, or one that failed and changed nothing. -/
theorem Storage.step_cases (h : s.step l t) :
    (∃ v, l.result = .ok v ∧ Returns (entryPoint l.host l.call) s v t) ∨
      (∃ fault, l.result = .error fault) ∧ t = s := by
  unfold Storage.step at h
  cases hresult : l.result with
  | ok v =>
    rw [hresult] at h
    exact .inl ⟨v, rfl, invoke_eq_ok.mp h⟩
  | error fault =>
    rw [hresult] at h
    exact .inr ⟨⟨fault, rfl⟩, eq_of_invoke_error h⟩

/-- What holds of a call that returns, and what holds of one that fails and changes nothing. -/
theorem Storage.step_split {host : Host Address Tokens} {call : Call Address}
    {result : Except (Fault Failure) (Response Address)} {A B : Prop}
    (h : s.step ⟨host, call, result⟩ t) (hreturns : ∀ v, Returns (entryPoint host call) s v t → A)
    (hfails : t = s → B) : (∀ v, result = .ok v → A) ∧ ∀ fault, result = .error fault → B := by
  rcases Storage.step_cases h with ⟨v, hv, hreturn⟩ | ⟨⟨fault, hfault⟩, ht⟩
  · refine ⟨fun _ _ => hreturns v hreturn, ?_⟩
    intro fault hfault
    cases hv.symm.trans hfault
  · refine ⟨?_, fun _ _ => hfails ht⟩
    intro v hv
    cases hv.symm.trans hfault

/-- **Invariants of the storage.** What a call that returns preserves when it meets a condition, a
run preserves whose calls meet the condition. -/
theorem invariant_of_returns {tokens : Tokens} {ls : List (Event Address Tokens)}
    {C : Host Address Tokens → Storage Address Tokens → Call Address → Prop}
    {I : Storage Address Tokens → Prop}
    (hI : ∀ {host call u v w}, I u → Returns (entryPoint host call) u v w → C host u call → I w)
    (h : Run (fun u l w => u.step l w ∧ ∀ v, l.result = .ok v → C l.host u l.call)
      (Storage.initial tokens) ls s)
    (hinitial : I (Storage.initial tokens)) : I s := by
  apply h.invariant (I := I) ?_ hinitial
  rintro u l w hu ⟨hstep, hcondition⟩
  rcases Storage.step_cases hstep with ⟨v, hv, hreturns⟩ | ⟨-, rfl⟩
  · exact hI hu hreturns (hcondition v hv)
  · -- a call that fails changes nothing
    exact hu

/-- A call leads to the storage that it leaves. -/
theorem Storage.step_invoke (s : Storage Address Tokens) (host : Host Address Tokens)
    (call : Call Address) {result : Except (Fault Failure) (Response Address)}
    (h : (invoke (entryPoint host call) s).1 = result) :
    s.step ⟨host, call, result⟩ (invoke (entryPoint host call) s).2 :=
  Prod.ext h rfl

theorem run_execute (s : Storage Address Tokens)
    (calls : List (Host Address Tokens × Call Address)) :
    Run Storage.step s (execute s calls).1 (execute s calls).2 := by
  induction calls generalizing s with
  | nil => exact .nil s
  | cons c calls ih => exact .cons rfl (ih _)

/-- The same where the calls meet a condition in every storage. -/
theorem run_execute_of {P : Storage Address Tokens → Event Address Tokens → Prop}
    (s : Storage Address Tokens) (calls : List (Host Address Tokens × Call Address))
    (h : ∀ c ∈ calls, ∀ u result, P u ⟨c.1, c.2, result⟩) :
    Run (fun u l t => u.step l t ∧ P u l) s (execute s calls).1 (execute s calls).2 := by
  induction calls generalizing s with
  | nil => exact .nil s
  | cons c calls ih =>
    refine .cons ⟨rfl, h c List.mem_cons_self s _⟩ (ih _ fun c hc => ?_)
    exact h c (List.mem_cons_of_mem _ hc)

end

/-- A host at the ledger `sequence` where every transfer succeeds, with the addresses that
authorize the call. -/
def sampleHost (sequence : ℤ) (signers : List ℕ) : Host ℕ Unit where
  currentContractAddress := 0
  sequence := sequence
  auth := fun addr => decide (addr ∈ signers)
  transfer := fun _ _ _ _ _ => some ()
  latestPrice := fun _ => none

end LiquidityPool
