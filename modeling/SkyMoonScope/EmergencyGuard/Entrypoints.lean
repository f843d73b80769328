import SkyMoonScope.EmergencyGuard
import SkyMoonScope.Soroban.Contract
import SkyMoonScope.Soroban.Calls

/-!
# The guard as a contract

`EmergencyGuard` of `contracts/emergency_guard/src/lib.rs` is also a contract of its own. This
module has the functions that are not built into other contracts, and what each entry point needs
in order to return, and does then. The entry points that only read are left out.

## Main definitions

* `initializeWithRoles`, `addGuardian`, `removeGuardian`, `rotateAdmin`: the rest of the functions
* `Call`, `entryPoint`: a call of the contract, and its body
* `Approves`: the approvers are members that have authorized the call, and are enough

## Main results

* `returns_checkThreshold`: a check of approvers returns just when they approve in this sense
* `returns_addAdmin`, `returns_rotateAdmin`, …: when each entry point returns, and what it stores
-/

namespace EmergencyGuard

open Soroban Machine

variable {Address : Type}

def saveGuardians (guardians : List Address) : Body Address Unit := do
  let s ← get
  set { s with guardians := some guardians }

def initializeWithRoles (admins guardians : List Address) (threshold : ℕ) :
    Body Address Unit := do
  let s ← get
  require s.admins.isNone (.error .alreadyInitialized)
  require (¬(threshold = 0 ∨ threshold > admins.length ∨ threshold > guardians.length))
    (.error .invalidThreshold)
  require (¬(admins.length > maxGuardians ∨ guardians.length > maxGuardians))
    (.error .tooManyGuardians)
  set { s with
    admins := some admins
    guardians := some guardians
    signatureThreshold := some threshold
    pauseState := some 0 }

/-- The storage before the first call. -/
def State.initial (Address : Type) : State Address := ⟨none, none, none, none⟩

section Functions

variable [DecidableEq Address] (auth : Address → Bool)

def addGuardian (approvers : List Address) (newGuardian : Address) : Body Address Unit := do
  checkMultiSig auth approvers
  let s ← get
  let guardians := getGuardians s
  if newGuardian ∈ guardians then pure ()
  else
    require (¬guardians.length ≥ maxGuardians) (.error .tooManyGuardians)
    saveGuardians (guardians ++ [newGuardian])

/-- Unlike the removal of an admin it does not look at the threshold. -/
def removeGuardian (approvers : List Address) (guardian : Address) : Body Address Unit := do
  checkMultiSig auth approvers
  let s ← get
  let guardians := getGuardians s
  require (guardian ∈ guardians) (.error .guardianNotFound)
  saveGuardians (guardians.filter fun g => g ≠ guardian)

/-- `push_back`, where the address is not there yet. -/
def pushNew (admins : List Address) (a : Address) : List Address :=
  if a ∈ admins then admins else admins ++ [a]

/-- The loop of `rotate_admin`: the new admin comes in the place of the old one. -/
def rotated (oldAdmin newAdmin : Address) (admins : List Address) : List Address :=
  admins.foldl (fun newAdmins a => pushNew newAdmins (if a = oldAdmin then newAdmin else a)) []

def rotateAdmin (approvers : List Address) (oldAdmin newAdmin : Address) : Body Address Unit := do
  checkMultiSig auth approvers
  let s ← get
  let threshold := getThreshold s
  let admins := getAdmins s
  let newAdmins := rotated oldAdmin newAdmin admins
  require (oldAdmin ∈ admins) (.error .adminNotFound)
  require (¬newAdmins.length < threshold) (.error .invalidThreshold)
  saveAdmins newAdmins

end Functions

/-! ## Calls -/

inductive Call (Address : Type)
  | initializeGuard (admins : List Address) (threshold : ℕ) (guardian : Address)
  | initializeWithRoles (admins guardians : List Address) (threshold : ℕ)
  | setPause (admin : Address) (operation : UInt32) (paused : Bool)
  | emergencyPause (approvers : List Address)
  | resume (approvers : List Address)
  | addAdmin (approvers : List Address) (newAdmin : Address)
  | addGuardian (approvers : List Address) (newGuardian : Address)
  | removeGuardian (approvers : List Address) (guardian : Address)
  | removeAdmin (approvers : List Address) (admin : Address)
  | rotateAdmin (approvers : List Address) (oldAdmin newAdmin : Address)
  | validateMultiSig (approvers : List Address)

/-- The body of a call, which the addresses with `auth` have authorized. -/
def entryPoint [DecidableEq Address] (auth : Address → Bool) : Call Address → Body Address Unit
  | .initializeGuard admins threshold guardian => initializeGuard admins threshold guardian
  | .initializeWithRoles admins guardians threshold =>
    initializeWithRoles admins guardians threshold
  | .setPause admin operation paused => setPause auth admin operation paused
  | .emergencyPause approvers => emergencyPause auth approvers
  | .resume approvers => resume auth approvers
  | .addAdmin approvers newAdmin => addAdmin auth approvers newAdmin
  | .addGuardian approvers newGuardian => addGuardian auth approvers newGuardian
  | .removeGuardian approvers guardian => removeGuardian auth approvers guardian
  | .removeAdmin approvers admin => removeAdmin auth approvers admin
  | .rotateAdmin approvers oldAdmin newAdmin => rotateAdmin auth approvers oldAdmin newAdmin
  | .validateMultiSig approvers => checkMultiSig auth approvers

/-! ## The loop of a rotation -/

section Rotation

variable [DecidableEq Address] {newAdmins admins : List Address} {a : Address}

theorem rotated_eq (oldAdmin newAdmin : Address) (admins : List Address) :
    rotated oldAdmin newAdmin admins =
      (admins.map fun a => if a = oldAdmin then newAdmin else a).foldl pushNew [] := by
  rw [List.foldl_map]
  rfl

theorem mem_pushNew {b : Address} : b ∈ pushNew newAdmins a ↔ b ∈ newAdmins ∨ b = a := by
  unfold pushNew
  split <;> grind

theorem nodup_pushNew (h : newAdmins.Nodup) : (pushNew newAdmins a).Nodup := by
  unfold pushNew
  split
  next => exact h
  next hmem => exact List.nodup_append.mpr ⟨h, List.nodup_singleton a, by grind⟩

theorem mem_foldl_pushNew : a ∈ admins.foldl pushNew newAdmins ↔ a ∈ newAdmins ∨ a ∈ admins := by
  induction admins generalizing newAdmins with
  | nil => simp
  | cons b admins ih => rw [List.foldl_cons, ih, mem_pushNew, List.mem_cons, or_assoc]

/-- What the loop has pushed so far stays as it is. -/
theorem prefix_foldl_pushNew (newAdmins admins : List Address) :
    newAdmins <+: admins.foldl pushNew newAdmins := by
  induction admins generalizing newAdmins with
  | nil => exact List.prefix_rfl
  | cons b admins ih =>
    refine List.IsPrefix.trans ?_ (ih (pushNew newAdmins b))
    unfold pushNew
    split
    · exact List.prefix_rfl
    · exact List.prefix_append newAdmins [b]

theorem nodup_foldl_pushNew (h : newAdmins.Nodup) : (admins.foldl pushNew newAdmins).Nodup := by
  induction admins generalizing newAdmins with
  | nil => exact h
  | cons b admins ih => exact ih (nodup_pushNew h)

theorem length_foldl_pushNew_le (newAdmins admins : List Address) :
    (admins.foldl pushNew newAdmins).length ≤ newAdmins.length + admins.length := by
  induction admins generalizing newAdmins with
  | nil => exact le_rfl
  | cons b admins ih =>
    have hpush : (pushNew newAdmins b).length ≤ newAdmins.length + 1 := by
      unfold pushNew
      split <;> simp
    have hrest := ih (pushNew newAdmins b)
    rw [List.foldl_cons, List.length_cons]
    omega

/-- Different admins that are not there yet are all pushed. -/
theorem foldl_pushNew_of_nodup (h : (newAdmins ++ admins).Nodup) :
    admins.foldl pushNew newAdmins = newAdmins ++ admins := by
  induction admins generalizing newAdmins with
  | nil => simp
  | cons b admins ih =>
    have hb : b ∉ newAdmins := fun hmem => List.disjoint_of_nodup_append h hmem (by simp)
    rw [List.append_cons] at h
    rw [List.foldl_cons, pushNew, if_neg hb, ih h, List.append_assoc, List.singleton_append]

/-- Admins that are there already are not pushed. -/
theorem foldl_pushNew_of_subset (h : ∀ b ∈ admins, b ∈ newAdmins) :
    admins.foldl pushNew newAdmins = newAdmins := by
  induction admins with
  | nil => rfl
  | cons b admins ih =>
    obtain ⟨hb, h⟩ := List.forall_mem_cons.mp h
    rw [List.foldl_cons, pushNew, if_pos hb, ih h]

end Rotation

/-! ## When a check of approvers passes -/

/-- The approvers are members that have authorized the call, and there are at least as many
different ones as the stored threshold. -/
structure Approves [DecidableEq Address] (auth : Address → Bool) (s : State Address)
    (members approvers : List Address) : Prop where
  enough : ∃ threshold, s.signatureThreshold = some threshold ∧
    threshold ≤ approvers.toFinset.card
  valid : ∀ a ∈ approvers, a ∈ members ∧ auth a = true

section Spec

variable {auth : Address → Bool} {s t : State Address} {r : Unit} {admins guardians : List Address}
  {threshold : ℕ}

@[simp] theorem returns_saveGuardians :
    Returns (saveGuardians guardians : Body Address Unit) s r t ↔
      { s with guardians := some guardians } = t := by
  simp [saveGuardians]

theorem returns_initializeGuard {guardian : Address} :
    Returns (initializeGuard admins threshold guardian) s r t ↔
      (s.admins = none ∧ (0 < threshold ∧ threshold ≤ admins.length) ∧
          admins.length ≤ maxGuardians) ∧
        t = ⟨some 0, some admins, some [guardian], some threshold⟩ := by
  have hone : ¬[guardian].length > maxGuardians := by simp [maxGuardians]
  simp only [initializeGuard, returns_get_bind, returns_require_bind, returns_set,
    Option.isNone_iff_eq_none]
  constructor
  · rintro ⟨hnone, hthreshold, hlen, -, rfl⟩
    exact ⟨⟨hnone, by omega, not_lt.mp hlen⟩, rfl⟩
  · rintro ⟨⟨hnone, hthreshold, hlen⟩, rfl⟩
    exact ⟨hnone, by omega, not_lt.mpr hlen, hone, rfl⟩

theorem returns_initializeWithRoles :
    Returns (initializeWithRoles admins guardians threshold) s r t ↔
      (s.admins = none ∧
          (0 < threshold ∧ threshold ≤ admins.length ∧ threshold ≤ guardians.length) ∧
          admins.length ≤ maxGuardians ∧ guardians.length ≤ maxGuardians) ∧
        t = ⟨some 0, some admins, some guardians, some threshold⟩ := by
  simp only [initializeWithRoles, returns_get_bind, returns_require_bind, returns_set,
    Option.isNone_iff_eq_none]
  constructor
  · rintro ⟨hnone, hthreshold, hlen, rfl⟩
    exact ⟨⟨hnone, by omega, by omega⟩, rfl⟩
  · rintro ⟨⟨hnone, hthreshold, hlen⟩, rfl⟩
    exact ⟨hnone, by omega, by omega, rfl⟩

variable [DecidableEq Address] {approvers members : List Address}

theorem countValid_eq {seen : List Address} {valid : ℕ} :
    countValid auth members seen approvers valid =
      countDistinct (fun addr => do
        require (addr ∈ members) (.error .unauthorized)
        requireAuth auth addr) seen approvers valid := by
  induction approvers generalizing seen valid with
  | nil => rfl
  | cons addr approvers ih => simp only [countValid, countDistinct, ih, bind_assoc]

/-- The loop over the approvers returns when those that were not seen before are members with their
authorization, and it counts the different ones of them. -/
theorem returns_countValid {seen : List Address} {valid n : ℕ} :
    Returns (countValid auth members seen approvers valid) s n t ↔
      (∀ a ∈ approvers, a ∉ seen → a ∈ members ∧ auth a = true) ∧
        n = valid + (approvers.toFinset \ seen.toFinset).card ∧ s = t := by
  rw [countValid_eq]
  refine returns_countDistinct fun a s r t => ?_
  simp only [requireAuth, returns_require_bind, returns_require, and_assoc]

theorem returns_checkThreshold {members : State Address → List Address} :
    Returns (checkThreshold auth members approvers) s r t ↔
      Approves auth s (members s) approvers ∧ s = t := by
  simp only [checkThreshold, returns_get_bind, returns_orFault_bind]
  simp only [returns_bind, returns_countValid, returns_require, not_lt]
  constructor
  · rintro ⟨n, hn, _, _, ⟨hvalid, rfl, rfl⟩, _, _, ⟨-, rfl⟩, hcount, rfl⟩
    exact ⟨⟨⟨n, hn, by simpa using hcount⟩, by simpa using hvalid⟩, rfl⟩
  · rintro ⟨⟨⟨n, hn, henough⟩, hvalid⟩, rfl⟩
    -- different approvers are at most as many as approvers
    have hlen : n ≤ approvers.length := henough.trans (List.toFinset_card_le approvers)
    exact ⟨n, hn, _, s, ⟨by simpa using hvalid, rfl, rfl⟩, (), s, ⟨hlen, rfl⟩,
      by simpa using henough, rfl⟩

theorem returns_checkMultiSig :
    Returns (checkMultiSig auth approvers) s r t ↔
      Approves auth s (getAdmins s) approvers ∧ s = t :=
  returns_checkThreshold

theorem returns_checkGuardianMultiSig :
    Returns (checkGuardianMultiSig auth approvers) s r t ↔
      Approves auth s (getGuardians s) approvers ∧ s = t :=
  returns_checkThreshold

/-- A checked body is the check and the rest of it. -/
theorem returns_checkMultiSig_bind {α : Type} {f : Unit → Body Address α} {v : α} :
    Returns (checkMultiSig auth approvers >>= f) s v t ↔
      Approves auth s (getAdmins s) approvers ∧ Returns (f ()) s v t :=
  returns_bind_of_checks fun _ _ => returns_checkMultiSig

theorem returns_checkGuardianMultiSig_bind {α : Type} {f : Unit → Body Address α} {v : α} :
    Returns (checkGuardianMultiSig auth approvers >>= f) s v t ↔
      Approves auth s (getGuardians s) approvers ∧ Returns (f ()) s v t :=
  returns_bind_of_checks fun _ _ => returns_checkGuardianMultiSig

/-! ## When the entry points return -/

theorem returns_setPause {admin : Address} {operation : UInt32} {paused : Bool} :
    Returns (setPause auth admin operation paused) s r t ↔
      (auth admin = true ∧ admin ∈ getAdmins s) ∧
        t = { s with
          pauseState := some (PauseType.setPaused (getPauseState s) operation paused) } := by
  simp only [setPause, returns_bind_of_checks fun _ _ => returns_requireAdmin, returns_get_bind,
    returns_savePauseState, eq_comm (a := t)]

theorem returns_emergencyPause :
    Returns (emergencyPause auth approvers) s r t ↔
      Approves auth s (getGuardians s) approvers ∧
        t = { s with pauseState := some PauseType.all } := by
  simp only [emergencyPause, returns_checkGuardianMultiSig_bind, returns_savePauseState,
    eq_comm (a := t)]

theorem returns_resume :
    Returns (resume auth approvers) s r t ↔
      Approves auth s (getAdmins s) approvers ∧ t = { s with pauseState := some 0 } := by
  simp only [resume, returns_checkMultiSig_bind, returns_savePauseState, eq_comm (a := t)]

theorem returns_addAdmin {newAdmin : Address} :
    Returns (addAdmin auth approvers newAdmin) s r t ↔
      (Approves auth s (getAdmins s) approvers ∧
          (newAdmin ∉ getAdmins s → (getAdmins s).length < maxGuardians)) ∧
        t = if newAdmin ∈ getAdmins s then s
          else { s with admins := some (getAdmins s ++ [newAdmin]) } := by
  simp only [addAdmin, returns_checkMultiSig_bind, returns_get_bind]
  split
  next hmem => simp [hmem, eq_comm]
  next hmem => simp [hmem, and_assoc, eq_comm]

theorem returns_addGuardian {newGuardian : Address} :
    Returns (addGuardian auth approvers newGuardian) s r t ↔
      (Approves auth s (getAdmins s) approvers ∧
          (newGuardian ∉ getGuardians s → (getGuardians s).length < maxGuardians)) ∧
        t = if newGuardian ∈ getGuardians s then s
          else { s with guardians := some (getGuardians s ++ [newGuardian]) } := by
  simp only [addGuardian, returns_checkMultiSig_bind, returns_get_bind]
  split
  next hmem => simp [hmem, eq_comm]
  next hmem => simp [hmem, and_assoc, eq_comm]

theorem returns_removeGuardian {guardian : Address} :
    Returns (removeGuardian auth approvers guardian) s r t ↔
      (Approves auth s (getAdmins s) approvers ∧ guardian ∈ getGuardians s) ∧
        t = { s with guardians := some ((getGuardians s).filter fun g => g ≠ guardian) } := by
  simp only [removeGuardian, returns_checkMultiSig_bind, returns_get_bind, returns_require_bind,
    returns_saveGuardians, and_assoc, eq_comm (a := t)]

theorem returns_removeAdmin {admin : Address} :
    Returns (removeAdmin auth approvers admin) s r t ↔
      (Approves auth s (getAdmins s) approvers ∧ getThreshold s < (getAdmins s).length ∧
          admin ∈ getAdmins s) ∧
        t = { s with admins := some ((getAdmins s).filter fun a => a ≠ admin) } := by
  simp only [removeAdmin, returns_checkMultiSig_bind, returns_get_bind, returns_require_bind,
    returns_saveAdmins, not_le, and_assoc, eq_comm (a := t)]

theorem returns_rotateAdmin {oldAdmin newAdmin : Address} :
    Returns (rotateAdmin auth approvers oldAdmin newAdmin) s r t ↔
      (Approves auth s (getAdmins s) approvers ∧ oldAdmin ∈ getAdmins s ∧
          getThreshold s ≤ (rotated oldAdmin newAdmin (getAdmins s)).length) ∧
        t = { s with admins := some (rotated oldAdmin newAdmin (getAdmins s)) } := by
  simp only [rotateAdmin, returns_checkMultiSig_bind, returns_get_bind, returns_require_bind,
    returns_saveAdmins, not_lt, and_assoc, eq_comm (a := t)]

end Spec

/-! ## The pause mask -/

/-- What was paused stays paused, and the operation is too. -/
theorem isPaused_setPaused_true (state operation mask : UInt32) :
    PauseType.isPaused (PauseType.setPaused state operation true) mask =
      (PauseType.isPaused state mask || PauseType.isPaused operation mask) := by
  have hdistrib : (state ||| operation) &&& mask = state &&& mask ||| operation &&& mask := by
    rw [← UInt32.toBitVec_inj]
    exact BitVec.and_or_distrib_right
  simp only [PauseType.isPaused, PauseType.setPaused, if_true, hdistrib]
  rw [Bool.eq_iff_iff]
  simp [UInt32.or_eq_zero_iff]
  tauto

/-- An operation that is let through again leaves the other ones as they are. -/
theorem isPaused_setPaused_false {state operation mask : UInt32}
    (h : PauseType.isPaused operation mask = false) :
    PauseType.isPaused (PauseType.setPaused state operation false) mask =
      PauseType.isPaused state mask := by
  have hmask : operation &&& mask = 0 := by simpa [PauseType.isPaused] using h
  have hkeep : state &&& ~~~operation &&& mask = state &&& mask := by
    rw [← UInt32.toBitVec_inj] at hmask ⊢
    ext i hi
    have hi := congrArg (fun b => b.getLsbD i) hmask
    simp at hi ⊢
    grind
  simp only [PauseType.isPaused, PauseType.setPaused, Bool.false_eq_true, if_false, hkeep]

end EmergencyGuard
