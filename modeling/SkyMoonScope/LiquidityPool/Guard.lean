import SkyMoonScope.LiquidityPool.Effects

/-!
# What a call does to the guard

For every function of the guard, under both its names, what it leaves of the pause mask, of the
admins and their threshold, and of the admin of the pool, with what it had checked. Every other call
leaves all of them alone.

## Main definitions

* `Call.checked`: the call is neither of the two that check too little
* `SameAdmin`: two storages with the same admin of the pool, initialised alike
* `GuardAfter`: what a call does to the guard

## Main results

* `guardAfter`: every call that returns does one of the cases
-/

namespace LiquidityPool

open Soroban EmergencyGuard

variable {Address Tokens : Type}

/-- All calls but two: `set_pause_state` asks nobody, and `remove_guard_admin` does not look at the
admin of the pool. -/
def Call.checked : Call Address → Bool
  | .setPauseState .. | .removeGuardAdmin .. => false
  | _ => true

/-- Two storages with the same admin of the pool, both initialised or neither. -/
structure SameAdmin (s t : Storage Address Tokens) : Prop where
  admin : t.admin = s.admin
  isSome : t.pool.isSome = s.pool.isSome

/-- What a call does to the guard. -/
inductive GuardAfter [DecidableEq Address] (host : Host Address Tokens)
    (s : Storage Address Tokens) : Call Address → Storage Address Tokens → Prop
  | same {call t} (hcall : call.checked = true) (h : SameAdmin s t) (hguard : t.guard = s.guard) :
      GuardAfter host s call t
  | paused {call t mask} (hcall : call.checked = true) (h : SameAdmin s t)
      (happroved : Approved host.auth s.guard)
      (hguard : t.guard = { s.guard with pauseState := some mask }) : GuardAfter host s call t
  | setPauseState {operation paused t} (h : SameAdmin s t)
      (hguard : t.guard = { s.guard with
        pauseState := some (PauseType.setPaused (getPauseState s.guard) operation paused) }) :
      GuardAfter host s (.setPauseState operation paused) t
  | initGuard {admins threshold t} (h : SameAdmin s t) (hnone : s.admins = none)
      (hthreshold : 0 < threshold)
      (hguard : t.guard = { s.guard with
        admins := some admins
        signatureThreshold := some threshold
        pauseState := some 0 }) :
      GuardAfter host s (.initGuard admins threshold) t
  | initializePool {admin tokenA tokenB t} (hpool : s.pool = none) (hnone : s.admins = none)
      (hadmin : t.admin = some admin)
      (hguard : t.guard = ⟨some 0, some [admin], some [admin], some 1⟩) :
      GuardAfter host s (.initializePool admin tokenA tokenB) t
  | added {call t newAdmin} (hcall : call.checked = true) (h : SameAdmin s t)
      (hnew : newAdmin ∉ getAdmins s.guard)
      (hguard : t.guard = { s.guard with admins := some (getAdmins s.guard ++ [newAdmin]) }) :
      GuardAfter host s call t
  | removeGuardAdmin {approvers admin t} (h : SameAdmin s t) (hmem : admin ∈ getAdmins s.guard)
      (hguard : t.guard = { s.guard with
        admins := some ((getAdmins s.guard).filter fun a => a ≠ admin) }) :
      GuardAfter host s (.removeGuardAdmin approvers admin) t
  | removeAdmin {approvers admin t} (hlen : getThreshold s.guard < (getAdmins s.guard).length)
      (hguard : t.guard = { s.guard with
        admins := some ((getAdmins s.guard).filter fun a => a ≠ admin) })
      (hadmin : t.admin = if s.admin = some admin then (getAdmins t.guard).head?.or s.admin
        else s.admin)
      (hpool : t.pool.isSome = s.pool.isSome) :
      GuardAfter host s (.removeAdmin approvers admin) t
  | rotateAdmin {approvers oldAdmin newAdmin t}
      (hguard : t.guard = { s.guard with
        admins := some ((getAdmins s.guard).filter (fun a => a ≠ oldAdmin ∧ a ≠ newAdmin) ++
          [newAdmin]) })
      (hadmin : t.admin = if s.admin = some oldAdmin then some newAdmin else s.admin)
      (hpool : t.pool.isSome = s.pool.isSome) :
      GuardAfter host s (.rotateAdmin approvers oldAdmin newAdmin) t

namespace SameAdmin

/-- The admin of the pool is apart from what the guard writes. -/
theorem withGuard (s : Storage Address Tokens) (g : EmergencyGuard.State Address) :
    SameAdmin s (s.withGuard g) :=
  ⟨rfl, rfl⟩

end SameAdmin

section

variable [DecidableEq Address] {host : Host Address Tokens} {s t : Storage Address Tokens}
  {call : Call Address} {v : Response Address} {r : Unit}

/-! ## The single functions -/

/-- An admin that pauses or resumes operations. -/
theorem GuardAfter.of_setPause {admin : Address} {operation : UInt32} {paused : Bool}
    (hcall : call.checked = true)
    (h : Returns (onGuard (setPause host.auth admin operation paused)) s r t) :
    GuardAfter host s call t := by
  obtain ⟨g, hg, rfl⟩ := returns_onGuard.mp h
  obtain ⟨hadmin, rfl⟩ := setPause_spec hg
  exact .paused hcall (.withGuard s _) (.inl ⟨admin, hadmin⟩) rfl

/-- The admin of the pool that pauses or resumes operations. -/
theorem GuardAfter.of_setPauseByAdmin {operation : UInt32} {paused : Bool}
    (hcall : call.checked = true)
    (h : Returns (setPauseByAdmin host operation paused) s r t) : GuardAfter host s call t := by
  rw [setPauseByAdmin, returns_loadAdmin_bind] at h
  obtain ⟨admin, -, h⟩ := h
  exact .of_setPause hcall h

theorem GuardAfter.of_resume {approvers : List Address} (hcall : call.checked = true)
    {g : EmergencyGuard.State Address}
    (h : Returns (EmergencyGuard.resume host.auth approvers) s.guard r g) :
    GuardAfter host s call (s.withGuard g) := by
  obtain ⟨hsigned, rfl⟩ := resume_spec h
  exact .paused hcall (.withGuard s _) (.inr (.inl hsigned)) rfl

theorem GuardAfter.of_emergencyPause {approvers : List Address} (hcall : call.checked = true)
    {g : EmergencyGuard.State Address}
    (h : Returns (EmergencyGuard.emergencyPause host.auth approvers) s.guard r g) :
    GuardAfter host s call (s.withGuard g) := by
  obtain ⟨hsigned, rfl⟩ := emergencyPause_spec h
  exact .paused hcall (.withGuard s _) (.inr (.inr hsigned)) rfl

/-- Adding an admin, where it was none before. -/
theorem GuardAfter.of_added {newAdmin : Address} (hcall : call.checked = true)
    {g : EmergencyGuard.State Address}
    (h : g = s.guard ∨ newAdmin ∉ getAdmins s.guard ∧
      g = { s.guard with admins := some (getAdmins s.guard ++ [newAdmin]) }) :
    GuardAfter host s call (s.withGuard g) := by
  rcases h with rfl | ⟨hnew, rfl⟩
  · exact .same hcall (.withGuard s _) rfl
  · exact .added hcall (.withGuard s _) hnew rfl

/-- The admin of the pool is reassigned where it is the departing one and there is another. -/
theorem reassignPrimaryAdminIf_spec {departing : Address} {replacement : Option Address}
    (h : Returns (reassignPrimaryAdminIf departing replacement) s r t) :
    t.guard = s.guard ∧
      t.admin = (if s.admin = some departing then replacement.or s.admin else s.admin) ∧
      t.pool.isSome = s.pool.isSome := by
  unfold reassignPrimaryAdminIf at h
  split at h
  · obtain ⟨-, rfl⟩ := returns_pure.mp h
    exact ⟨rfl, by simp, rfl⟩
  · rw [returns_get_bind] at h
    split at h
    · next hne =>
      obtain ⟨-, rfl⟩ := returns_pure.mp h
      exact ⟨rfl, (if_neg hne).symm, rfl⟩
    · next heq =>
      obtain rfl := returns_set.mp h
      refine ⟨rfl, (if_pos (not_not.mp heq)).symm, ?_⟩
      exact Option.isSome_map

theorem GuardAfter.of_initializePool {admin tokenA tokenB : Address}
    (h : Returns (LiquidityPool.initializePool admin tokenA tokenB) s r t) :
    GuardAfter host s (.initializePool admin tokenA tokenB) t := by
  simp only [LiquidityPool.initializePool, returns_get_bind, returns_require_bind,
    returns_set_bind] at h
  obtain ⟨hpool, h⟩ := h
  obtain ⟨g, hg, rfl⟩ := returns_onGuard.mp h
  obtain ⟨hnone, -, rfl⟩ := initializeGuard_spec hg
  exact .initializePool (Option.isNone_iff_eq_none.mp hpool) hnone rfl rfl

/-! ## All calls -/

/-- **Every call that returns does one of the cases** to the guard. -/
theorem guardAfter (h : Returns (entryPoint host call) s v t) : GuardAfter host s call t := by
  cases call with
  | initializePool admin tokenA tokenB => exact .of_initializePool (returns_done.mp h).1
  | guardPause | setOperationPaused => exact .of_setPause rfl (returns_done.mp h).1
  | setPaused | pauseSwaps | resumeSwaps | pauseDeposits | resumeDeposits | pauseWithdrawals
  | resumeWithdrawals => exact .of_setPauseByAdmin rfl (returns_done.mp h).1
  | emergencyPause =>
    obtain ⟨g, hg, rfl⟩ := returns_onGuard.mp (returns_done.mp h).1
    exact .of_emergencyPause rfl hg
  | resume | guardUnpause =>
    obtain ⟨g, hg, rfl⟩ := returns_onGuard.mp (returns_done.mp h).1
    exact .of_resume rfl hg
  | addGuardAdmin =>
    obtain ⟨g, hg, rfl⟩ := returns_onGuard.mp (returns_done.mp h).1
    exact .of_added rfl (addAdmin_spec hg)
  | removeGuardAdmin =>
    obtain ⟨g, hg, rfl⟩ := returns_onGuard.mp (returns_done.mp h).1
    obtain ⟨-, hmem, rfl⟩ := removeAdmin_spec hg
    exact .removeGuardAdmin (.withGuard s _) hmem rfl
  | checkNotPaused operation =>
    obtain ⟨g, hg, rfl⟩ := returns_onTrait.mp (returns_traitDone.mp h).1
    rw [DefaultEmergencyGuard.checkNotPaused, returns_get_bind, returns_require] at hg
    obtain ⟨-, rfl⟩ := hg
    exact .same rfl (.withGuard s _) rfl
  | setPauseState =>
    obtain ⟨g, hg, rfl⟩ := returns_onTrait.mp (returns_traitDone.mp h).1
    exact .setPauseState (.withGuard s _) (DefaultEmergencyGuard.setPauseState_spec hg)
  | unpause =>
    obtain ⟨g, hg, rfl⟩ := returns_onTrait.mp (returns_traitDone.mp h).1
    obtain ⟨hadmin, rfl⟩ := DefaultEmergencyGuard.unpause_spec hg
    exact .paused rfl (.withGuard s _) (.inl ⟨_, hadmin⟩) rfl
  | unpauseAll =>
    obtain ⟨g, hg, rfl⟩ := returns_onTrait.mp (returns_traitDone.mp h).1
    obtain ⟨hadmin, rfl⟩ := DefaultEmergencyGuard.unpauseAll_spec hg
    exact .paused rfl (.withGuard s _) (.inl ⟨_, hadmin⟩) rfl
  | emergencyPauseAll =>
    obtain ⟨g, hg, rfl⟩ := returns_onTrait.mp (returns_traitDone.mp h).1
    exact .of_emergencyPause rfl hg
  | resumeAll =>
    obtain ⟨g, hg, rfl⟩ := returns_onTrait.mp (returns_traitDone.mp h).1
    exact .of_resume rfl hg
  | initGuard =>
    obtain ⟨g, hg, rfl⟩ := returns_onTrait.mp (returns_traitDone.mp h).1
    obtain ⟨hnone, hthreshold, rfl⟩ := DefaultEmergencyGuard.initGuard_spec hg
    exact .initGuard (.withGuard s _) hnone hthreshold rfl
  | addAdmin =>
    obtain ⟨g, hg, rfl⟩ := returns_onTrait.mp (returns_traitDone.mp h).1
    exact .of_added rfl (DefaultEmergencyGuard.addAdmin_spec hg)
  | removeAdmin approvers admin =>
    simp only [entryPoint, removeAdmin, returns_traitDone, returns_bind, returns_get] at h
    obtain ⟨⟨_, _, hremove, _, _, ⟨rfl, rfl⟩, hreassign⟩, -⟩ := h
    obtain ⟨g, hg, rfl⟩ := returns_onTrait.mp hremove
    obtain ⟨hlen, -, rfl⟩ := removeAdmin_spec hg
    obtain ⟨hguard, hadmin, hpool⟩ := reassignPrimaryAdminIf_spec hreassign
    exact .removeAdmin hlen hguard (by rw [hguard]; exact hadmin) hpool
  | rotateAdmin approvers oldAdmin newAdmin =>
    simp only [entryPoint, rotateAdmin, returns_traitDone, returns_bind] at h
    obtain ⟨⟨_, _, hrotate, hreassign⟩, -⟩ := h
    obtain ⟨g, hg, rfl⟩ := returns_onTrait.mp hrotate
    obtain rfl := DefaultEmergencyGuard.rotateAdmin_spec hg
    obtain ⟨hguard, hadmin, hpool⟩ := reassignPrimaryAdminIf_spec hreassign
    exact .rotateAdmin hguard hadmin hpool
  | deposit | withdraw | burn | transfer | approve | transferFrom | stake | unstake
  | claimRewards =>
    obtain ⟨-, hguard, hadmin, hsome⟩ := sameSettings_after rfl h
    exact .same rfl ⟨hadmin, hsome⟩ hguard
  | getAdmin | setFee | setLpFeeBps | configureFeeOracle | syncFeeFromOracle | executeFeeUpdate
  | swap | swapExactIn | getAmountOut | getAmountIn | getReserves | view =>
    obtain ⟨hframe, hsome, -, -⟩ := onlyMarket_after rfl rfl h
    exact .same rfl ⟨by rw [hframe], hsome⟩ (by rw [hframe]; rfl)

end

end LiquidityPool
