import SkyMoonScope.Soroban.Contract
import Mathlib.Data.List.Nodup

/-!
# The emergency guard

The part of `contracts/emergency_guard/src/lib.rs` that other contracts build in: the pause mask,
the admins and the guardians, and the threshold of signatures. There are two families of functions,
those of `EmergencyGuard` and the defaults of the trait, `DefaultEmergencyGuard`; some do the same,
and some do not. Events and logs are left out.

## Main definitions

* `State`: the entries of the guard
* `checkMultiSig`, `checkGuardianMultiSig`: the two checks of a list of approvers
* `setPause`, `resume`, `addAdmin`, …: the functions of `EmergencyGuard`
* `DefaultEmergencyGuard.setPauseState`, …: the defaults of the trait
* `Quorum`: at least `threshold` different members have authorized the call
* `Approved`: an admin, a quorum of admins or a quorum of guardians has authorized the call

## Main results

* `checkMultiSig_spec`, `checkGuardianMultiSig_spec`: a check that passes saw a quorum
* `setPause_spec`, `addAdmin_spec`, …: what each function does when it returns
-/

namespace EmergencyGuard

open Soroban

inductive GuardError
  | notInitialized
  | unauthorized
  | paused
  | insufficientSignatures
  | invalidThreshold
  | adminNotFound
  | alreadyInitialized
  | tooManyGuardians
  | guardianNotFound
deriving DecidableEq

/-- The entries of the guard, by the keys of `GuardDataKey`. -/
structure State (Address : Type) where
  pauseState : Option UInt32
  admins : Option (List Address)
  guardians : Option (List Address)
  signatureThreshold : Option ℕ

def maxGuardians : ℕ := 20

namespace PauseType

def isPaused (state operation : UInt32) : Bool := state &&& operation != 0

def setPaused (state operation : UInt32) (paused : Bool) : UInt32 :=
  if paused then state ||| operation else state &&& ~~~operation

/-- `u32::MAX`. -/
def all : UInt32 := ~~~0

end PauseType

variable {Address : Type}

abbrev Body (Address α : Type) := Contract (State Address) GuardError α

def getPauseState (s : State Address) : UInt32 := s.pauseState.getD 0

def getAdmins (s : State Address) : List Address := s.admins.getD []

def getGuardians (s : State Address) : List Address := s.guardians.getD []

def getThreshold (s : State Address) : ℕ := s.signatureThreshold.getD 0

def isPaused (s : State Address) (operation : UInt32) : Bool :=
  PauseType.isPaused (getPauseState s) operation

def savePauseState (state : UInt32) : Body Address Unit := do
  let s ← get
  set { s with pauseState := some state }

def saveAdmins (admins : List Address) : Body Address Unit := do
  let s ← get
  set { s with admins := some admins }

section Functions

variable [DecidableEq Address] (auth : Address → Bool)

def isAdminInternal (s : State Address) (addr : Address) : Bool := decide (addr ∈ getAdmins s)

def requireAuth (addr : Address) : Body Address Unit :=
  require (auth addr) (.trap "Error(Auth, InvalidAction)")

/-! ## Checks of the approvers -/

/-- The loop over the approvers. One that was seen before is skipped, one that is no member ends
the check, and every other one must have authorized the call and is counted. -/
def countValid (members : List Address) : List Address → List Address → ℕ → Body Address ℕ
  | _, [], valid => pure valid
  | seen, addr :: approvers, valid =>
    if addr ∈ seen then countValid members seen approvers valid
    else do
      require (addr ∈ members) (.error .unauthorized)
      requireAuth auth addr
      countValid members (seen ++ [addr]) approvers (valid + 1)

/-- The check that the two below share: at least as many different members as the threshold. -/
def checkThreshold (members : State Address → List Address) (approvers : List Address) :
    Body Address Unit := do
  let s ← get
  let threshold ← orFault s.signatureThreshold (.error .notInitialized)
  let valid ← countValid auth (members s) [] approvers 0
  require (¬approvers.length < threshold) (.error .insufficientSignatures)
  require (¬valid < threshold) (.error .insufficientSignatures)

/-- At least `threshold` different admins, each with its authorization. -/
def checkMultiSig (approvers : List Address) : Body Address Unit :=
  checkThreshold auth getAdmins approvers

/-- At least `threshold` different guardians, each with its authorization. -/
def checkGuardianMultiSig (approvers : List Address) : Body Address Unit :=
  checkThreshold auth getGuardians approvers

/-- A single admin, with its authorization. -/
def requireAdmin (admin : Address) : Body Address Unit := do
  requireAuth auth admin
  let s ← get
  require (isAdminInternal s admin) (.error .unauthorized)

/-! ## The functions of `EmergencyGuard` -/

def initializeGuard (admins : List Address) (threshold : ℕ) (guardian : Address) :
    Body Address Unit := do
  let s ← get
  require s.admins.isNone (.error .alreadyInitialized)
  require (¬(threshold = 0 ∨ threshold > admins.length)) (.error .invalidThreshold)
  require (¬admins.length > maxGuardians) (.error .tooManyGuardians)
  let guardians := [guardian]
  require (¬guardians.length > maxGuardians) (.error .tooManyGuardians)
  set { s with
    admins := some admins
    guardians := some guardians
    signatureThreshold := some threshold
    pauseState := some 0 }

def setPause (admin : Address) (operation : UInt32) (paused : Bool) : Body Address Unit := do
  requireAdmin auth admin
  let s ← get
  savePauseState (PauseType.setPaused (getPauseState s) operation paused)

def emergencyPause (approvers : List Address) : Body Address Unit := do
  checkGuardianMultiSig auth approvers
  savePauseState PauseType.all

def resume (approvers : List Address) : Body Address Unit := do
  checkMultiSig auth approvers
  savePauseState 0

def addAdmin (approvers : List Address) (newAdmin : Address) : Body Address Unit := do
  checkMultiSig auth approvers
  let s ← get
  let admins := getAdmins s
  if newAdmin ∈ admins then pure ()
  else
    require (¬admins.length ≥ maxGuardians) (.error .tooManyGuardians)
    saveAdmins (admins ++ [newAdmin])

def removeAdmin (approvers : List Address) (admin : Address) : Body Address Unit := do
  checkMultiSig auth approvers
  let s ← get
  let admins := getAdmins s
  require (¬admins.length ≤ getThreshold s) (.error .invalidThreshold)
  require (admin ∈ admins) (.error .adminNotFound)
  saveAdmins (admins.filter fun a => a ≠ admin)

/-! ## The defaults of the trait -/

namespace DefaultEmergencyGuard

def checkNotPaused (operation : UInt32) : Body Address Unit := do
  let s ← get
  require (¬isPaused s operation) (.error .paused)

def setPauseState (operation : UInt32) (paused : Bool) : Body Address Unit := do
  let s ← get
  savePauseState (PauseType.setPaused (getPauseState s) operation paused)

def unpause (admin : Address) (operation : UInt32) : Body Address Unit := do
  requireAdmin auth admin
  setPauseState operation false

def unpauseAll (admin : Address) : Body Address Unit := do
  requireAdmin auth admin
  savePauseState 0

def emergencyPauseAll (approvers : List Address) : Body Address Unit := do
  checkGuardianMultiSig auth approvers
  savePauseState PauseType.all

def resumeAll (approvers : List Address) : Body Address Unit := do
  checkMultiSig auth approvers
  savePauseState 0

/-- It leaves the guardians as they are. -/
def initGuard (admins : List Address) (threshold : ℕ) : Body Address Unit := do
  let s ← get
  require s.admins.isNone (.error .alreadyInitialized)
  require (¬(threshold = 0 ∨ threshold > admins.length)) (.error .invalidThreshold)
  set { s with
    admins := some admins
    signatureThreshold := some threshold
    pauseState := some 0 }

/-- It does not bound the number of admins. -/
def addAdmin (approvers : List Address) (newAdmin : Address) : Body Address Unit := do
  checkMultiSig auth approvers
  let s ← get
  let admins := getAdmins s
  if newAdmin ∈ admins then pure () else saveAdmins (admins ++ [newAdmin])

/-- The same as in `EmergencyGuard`. -/
def removeAdmin (approvers : List Address) (admin : Address) : Body Address Unit :=
  EmergencyGuard.removeAdmin auth approvers admin

/-- The new admin comes last, also where it was an admin before. -/
def rotateAdmin (approvers : List Address) (oldAdmin newAdmin : Address) : Body Address Unit := do
  checkMultiSig auth approvers
  let s ← get
  let admins := getAdmins s
  require (oldAdmin ∈ admins) (.error .adminNotFound)
  let newAdmins := admins.filter (fun a => a ≠ oldAdmin ∧ a ≠ newAdmin) ++ [newAdmin]
  require (¬newAdmins.length < getThreshold s) (.error .invalidThreshold)
  saveAdmins newAdmins

end DefaultEmergencyGuard

end Functions

/-! ## What the functions do -/

/-- At least `threshold` different members have authorized the call. -/
def Quorum (auth : Address → Bool) (members : List Address) (threshold : ℕ) : Prop :=
  ∃ signers : List Address, signers.Nodup ∧ (∀ a ∈ signers, a ∈ members ∧ auth a = true) ∧
    threshold ≤ signers.length

/-- The call is authorized by as many different members as the stored threshold asks for. -/
def Signed (auth : Address → Bool) (s : State Address) (members : List Address) : Prop :=
  ∃ threshold, s.signatureThreshold = some threshold ∧ Quorum auth members threshold

/-- The call is authorized by an admin, by a quorum of admins or by a quorum of guardians. -/
def Approved (auth : Address → Bool) (s : State Address) : Prop :=
  (∃ admin, auth admin = true ∧ admin ∈ getAdmins s) ∨ Signed auth s (getAdmins s) ∨
    Signed auth s (getGuardians s)

section Spec

variable {auth : Address → Bool} {s t : State Address} {r : Unit} {approvers : List Address}

@[simp] theorem returns_requireAuth {addr : Address} :
    Returns (requireAuth auth addr : Body Address Unit) s r t ↔ auth addr = true ∧ s = t := by
  simp [requireAuth]

@[simp] theorem returns_savePauseState {state : UInt32} :
    Returns (savePauseState state : Body Address Unit) s r t ↔
      { s with pauseState := some state } = t := by
  simp [savePauseState]

@[simp] theorem returns_saveAdmins {admins : List Address} :
    Returns (saveAdmins admins : Body Address Unit) s r t ↔
      { s with admins := some admins } = t := by
  simp [saveAdmins]

theorem initializeGuard_spec {admins : List Address} {threshold : ℕ} {guardian : Address}
    (h : Returns (initializeGuard admins threshold guardian) s r t) :
    s.admins = none ∧ 0 < threshold ∧
      t = ⟨some 0, some admins, some [guardian], some threshold⟩ := by
  simp only [initializeGuard, returns_bind, returns_get, returns_require, returns_set] at h
  obtain ⟨_, _, ⟨rfl, rfl⟩, _, _, ⟨hnone, rfl⟩, _, _, ⟨hthreshold, rfl⟩, _, _, ⟨-, rfl⟩, _, _,
    ⟨-, rfl⟩, rfl⟩ := h
  rw [Option.isNone_iff_eq_none] at hnone
  exact ⟨hnone, by omega, rfl⟩

namespace DefaultEmergencyGuard

theorem setPauseState_spec {operation : UInt32} {paused : Bool}
    (h : Returns (setPauseState operation paused) s r t) :
    t = { s with pauseState := some (PauseType.setPaused (getPauseState s) operation paused) } := by
  simp only [setPauseState, returns_bind, returns_get, returns_savePauseState] at h
  obtain ⟨_, _, ⟨rfl, rfl⟩, rfl⟩ := h
  rfl

theorem initGuard_spec {admins : List Address} {threshold : ℕ}
    (h : Returns (initGuard admins threshold) s r t) :
    s.admins = none ∧ 0 < threshold ∧
      t = { s with
        admins := some admins
        signatureThreshold := some threshold
        pauseState := some 0 } := by
  simp only [initGuard, returns_bind, returns_get, returns_require, returns_set] at h
  obtain ⟨_, _, ⟨rfl, rfl⟩, _, _, ⟨hnone, rfl⟩, _, _, ⟨hthreshold, rfl⟩, rfl⟩ := h
  rw [Option.isNone_iff_eq_none] at hnone
  exact ⟨hnone, by omega, rfl⟩

end DefaultEmergencyGuard

variable [DecidableEq Address]

@[simp] theorem returns_requireAdmin {admin : Address} :
    Returns (requireAdmin auth admin) s r t ↔
      (auth admin = true ∧ admin ∈ getAdmins s) ∧ s = t := by
  simp only [requireAdmin, returns_bind, returns_requireAuth, returns_get, returns_require]
  simp [isAdminInternal, and_assoc]

/-- The loop counts different members that have authorized the call. -/
theorem countValid_spec {members seen : List Address} {valid n : ℕ}
    (h : Returns (countValid auth members seen approvers valid) s n t) (hnodup : seen.Nodup)
    (hseen : ∀ a ∈ seen, a ∈ members ∧ auth a = true) (hvalid : seen.length = valid) :
    s = t ∧ Quorum auth members n := by
  induction approvers generalizing seen valid with
  | nil =>
    simp only [countValid, returns_pure] at h
    obtain ⟨rfl, rfl⟩ := h
    exact ⟨rfl, seen, hnodup, hseen, hvalid.ge⟩
  | cons addr approvers ih =>
    unfold countValid at h
    split at h
    next hmem => exact ih h hnodup hseen hvalid
    next hmem =>
      simp only [returns_bind, returns_require, returns_requireAuth] at h
      obtain ⟨_, _, ⟨hmember, rfl⟩, _, _, ⟨hauth, rfl⟩, h⟩ := h
      apply ih h
      · exact List.nodup_append.mpr ⟨hnodup, List.nodup_singleton _, by grind⟩
      · intro a ha
        rcases List.mem_append.mp ha with ha | ha
        · exact hseen a ha
        · obtain rfl := List.mem_singleton.mp ha
          exact ⟨hmember, hauth⟩
      · rw [List.length_append, List.length_singleton, hvalid]

theorem checkThreshold_spec {members : State Address → List Address}
    (h : Returns (checkThreshold auth members approvers) s r t) :
    Signed auth s (members s) ∧ s = t := by
  simp only [checkThreshold, returns_bind, returns_get, returns_orFault, returns_require] at h
  obtain ⟨_, _, ⟨rfl, rfl⟩, threshold, _, ⟨hthreshold, rfl⟩, n, _, hcount, _, _, ⟨-, rfl⟩, hn,
    rfl⟩ := h
  obtain ⟨rfl, signers, hnodup, hsigners, hlen⟩ :=
    countValid_spec hcount List.nodup_nil (by simp) rfl
  exact ⟨⟨threshold, hthreshold, signers, hnodup, hsigners, (not_lt.mp hn).trans hlen⟩, rfl⟩

/-- **A check of approvers that passes saw a quorum** of the admins, and changed nothing. -/
theorem checkMultiSig_spec (h : Returns (checkMultiSig auth approvers) s r t) :
    Signed auth s (getAdmins s) ∧ s = t :=
  checkThreshold_spec h

/-- The same for the guardians. -/
theorem checkGuardianMultiSig_spec (h : Returns (checkGuardianMultiSig auth approvers) s r t) :
    Signed auth s (getGuardians s) ∧ s = t :=
  checkThreshold_spec h

theorem setPause_spec {admin : Address} {operation : UInt32} {paused : Bool}
    (h : Returns (setPause auth admin operation paused) s r t) :
    (auth admin = true ∧ admin ∈ getAdmins s) ∧
      t = { s with
        pauseState := some (PauseType.setPaused (getPauseState s) operation paused) } := by
  simp only [setPause, returns_bind, returns_requireAdmin, returns_get,
    returns_savePauseState] at h
  obtain ⟨_, _, ⟨hadmin, rfl⟩, _, _, ⟨rfl, rfl⟩, rfl⟩ := h
  exact ⟨hadmin, rfl⟩

theorem emergencyPause_spec (h : Returns (emergencyPause auth approvers) s r t) :
    Signed auth s (getGuardians s) ∧ t = { s with pauseState := some PauseType.all } := by
  simp only [emergencyPause, returns_bind, returns_savePauseState] at h
  obtain ⟨_, _, hcheck, rfl⟩ := h
  obtain ⟨hquorum, rfl⟩ := checkGuardianMultiSig_spec hcheck
  exact ⟨hquorum, rfl⟩

theorem resume_spec (h : Returns (resume auth approvers) s r t) :
    Signed auth s (getAdmins s) ∧ t = { s with pauseState := some 0 } := by
  simp only [resume, returns_bind, returns_savePauseState] at h
  obtain ⟨_, _, hcheck, rfl⟩ := h
  obtain ⟨hquorum, rfl⟩ := checkMultiSig_spec hcheck
  exact ⟨hquorum, rfl⟩

/-- Adding an admin puts it last, or changes nothing where it is one already. -/
theorem addAdmin_spec {newAdmin : Address} (h : Returns (addAdmin auth approvers newAdmin) s r t) :
    t = s ∨ newAdmin ∉ getAdmins s ∧ t = { s with admins := some (getAdmins s ++ [newAdmin]) } := by
  simp only [addAdmin, returns_bind, returns_get] at h
  obtain ⟨_, _, hcheck, _, _, ⟨rfl, rfl⟩, h⟩ := h
  obtain ⟨-, rfl⟩ := checkMultiSig_spec hcheck
  split at h
  · exact .inl (returns_pure.mp h).2.symm
  · next hnew =>
    simp only [returns_bind, returns_require, returns_saveAdmins] at h
    obtain ⟨_, _, ⟨-, rfl⟩, rfl⟩ := h
    exact .inr ⟨hnew, rfl⟩

/-- Removing an admin leaves more admins than none, as more were there than the threshold. -/
theorem removeAdmin_spec {admin : Address} (h : Returns (removeAdmin auth approvers admin) s r t) :
    getThreshold s < (getAdmins s).length ∧ admin ∈ getAdmins s ∧
      t = { s with admins := some ((getAdmins s).filter fun a => a ≠ admin) } := by
  simp only [removeAdmin, returns_bind, returns_get, returns_require, returns_saveAdmins] at h
  obtain ⟨_, _, hcheck, _, _, ⟨rfl, rfl⟩, _, _, ⟨hlen, rfl⟩, _, _, ⟨hmem, rfl⟩, rfl⟩ := h
  obtain ⟨-, rfl⟩ := checkMultiSig_spec hcheck
  exact ⟨not_le.mp hlen, hmem, rfl⟩

namespace DefaultEmergencyGuard

theorem unpause_spec {admin : Address} {operation : UInt32}
    (h : Returns (unpause auth admin operation) s r t) :
    (auth admin = true ∧ admin ∈ getAdmins s) ∧
      t = { s with
        pauseState := some (PauseType.setPaused (getPauseState s) operation false) } := by
  simp only [unpause, returns_bind, returns_requireAdmin] at h
  obtain ⟨_, _, ⟨hadmin, rfl⟩, h⟩ := h
  exact ⟨hadmin, setPauseState_spec h⟩

theorem unpauseAll_spec {admin : Address} (h : Returns (unpauseAll auth admin) s r t) :
    (auth admin = true ∧ admin ∈ getAdmins s) ∧ t = { s with pauseState := some 0 } := by
  simp only [unpauseAll, returns_bind, returns_requireAdmin, returns_savePauseState] at h
  obtain ⟨_, _, ⟨hadmin, rfl⟩, rfl⟩ := h
  exact ⟨hadmin, rfl⟩

theorem emergencyPauseAll_spec (h : Returns (emergencyPauseAll auth approvers) s r t) :
    Signed auth s (getGuardians s) ∧ t = { s with pauseState := some PauseType.all } :=
  emergencyPause_spec h

theorem resumeAll_spec (h : Returns (resumeAll auth approvers) s r t) :
    Signed auth s (getAdmins s) ∧ t = { s with pauseState := some 0 } :=
  resume_spec h

theorem addAdmin_spec {newAdmin : Address} (h : Returns (addAdmin auth approvers newAdmin) s r t) :
    t = s ∨ newAdmin ∉ getAdmins s ∧ t = { s with admins := some (getAdmins s ++ [newAdmin]) } := by
  simp only [addAdmin, returns_bind, returns_get] at h
  obtain ⟨_, _, hcheck, _, _, ⟨rfl, rfl⟩, h⟩ := h
  obtain ⟨-, rfl⟩ := checkMultiSig_spec hcheck
  split at h
  · exact .inl (returns_pure.mp h).2.symm
  · next hnew => exact .inr ⟨hnew, (returns_saveAdmins.mp h).symm⟩

theorem rotateAdmin_spec {oldAdmin newAdmin : Address}
    (h : Returns (rotateAdmin auth approvers oldAdmin newAdmin) s r t) :
    t = { s with
      admins := some
        ((getAdmins s).filter (fun a => a ≠ oldAdmin ∧ a ≠ newAdmin) ++ [newAdmin]) } := by
  simp only [rotateAdmin, returns_bind, returns_get, returns_require, returns_saveAdmins] at h
  obtain ⟨_, _, hcheck, _, _, ⟨rfl, rfl⟩, _, _, ⟨-, rfl⟩, _, _, ⟨-, rfl⟩, rfl⟩ := h
  obtain ⟨-, rfl⟩ := checkMultiSig_spec hcheck
  rfl

end DefaultEmergencyGuard

end Spec

end EmergencyGuard
