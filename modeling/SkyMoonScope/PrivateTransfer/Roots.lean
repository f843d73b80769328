import SkyMoonScope.Lib.Sha256
import SkyMoonScope.PrivateTransfer.Transfers

/-!
# Which commitments the current root represents

A root represents the commitments that lead to it from the initial root, hashed in one after
another. A transfer leads from the root it was built on to a new root, and the new root becomes the
current one. Built on the current root it adds its two commitments to those the current root
represents. The contract accepts it on every root of the history, though, and then the commitments
of the transfers since that root are no longer represented.

## Main definitions

* `rootAfter`: the root that a list of commitments leads to
* `acceptedCommitments`, `initialRoot`: what the calls of a run have brought in
* `Call.OnCurrentRoot`: a transfer is built on the root that is current when it is submitted
* `NoLostUpdate`: the current root represents all accepted commitments, and no transfer has
  replaced a root it was not built on

## Main results

* `applyPrivateTransfer_effect`: what an accepted transfer reads and writes of the roots
* `no_lost_update_iff`: no update is lost just when every accepted transfer is built on the current
  root
* `lost_update`: two transfers built on the initial root
-/

namespace PrivateTransferContract

open Soroban Machine

variable {Address : Type}

/-- The root that the commitments lead to, one after another. -/
def rootAfter (sha256 : List UInt8 → BytesN 32) (root : BytesN 32)
    (commitments : List (BytesN 32)) : BytesN 32 :=
  commitments.foldl (hashConcat sha256) root

def PrivateTransfer.commitments (transfer : PrivateTransfer) : List (BytesN 32) :=
  [transfer.senderUpdate.commitment, transfer.recipientUpdate.commitment]

/-- A call with what it was given and what it returned. -/
abbrev Submission (Address : Type) := Event (Env Address) (Call Address) Error (Response Address)

/-- The commitments that a call has brought in: those of a transfer, where it was accepted. -/
def newCommitments (l : Submission Address) : List (BytesN 32) :=
  match l.call, l.result with
  | .applyPrivateTransfer _ transfer _, .ok _ => transfer.commitments
  | _, _ => []

/-- The commitments of all accepted transfers, in the order in which they were accepted. -/
def acceptedCommitments (ls : List (Submission Address)) : List (BytesN 32) :=
  ls.flatMap newCommitments

/-- The root that a call has initialized the contract with. -/
def initializedRoot (l : Submission Address) : Option (BytesN 32) :=
  match l.call, l.result with
  | .initializeContract _ _ _ root, .ok _ => some root
  | _, _ => none

def initialRoot (ls : List (Submission Address)) : Option (BytesN 32) :=
  ls.findSome? initializedRoot

/-- The receipt of an accepted transfer names the root that it replaced. It is the root that the
transfer was built on. -/
def Extends (l : Submission Address) : Prop :=
  match l.call, l.result with
  | .applyPrivateTransfer _ transfer _, .ok (.receipt r) => r.previousRoot = transfer.oldRoot
  | _, _ => True

/-- The current root represents the commitments of all accepted transfers, and every one of them
has replaced the root that it was built on. -/
structure NoLostUpdate (sha256 : List UInt8 → BytesN 32) (ls : List (Submission Address))
    (s : State Address) : Prop where
  included : s.currentRoot =
    (initialRoot ls).map fun root => rootAfter sha256 root (acceptedCommitments ls)
  initialized : initialRoot ls = none → acceptedCommitments ls = []
  extending : ∀ l ∈ ls, Extends l

/-- A transfer is built on the root that is current when it is submitted. -/
def Call.OnCurrentRoot (s : State Address) : Call Address → Prop
  | .applyPrivateTransfer _ transfer _ => s.currentRoot = some transfer.oldRoot
  | _ => True

/-! ## What the entry points do to the roots -/

section Effects

variable {host : Host Address} {env : Env Address} {s t : State Address}

theorem consumeDepositKey_frame {commitment : BytesN 32}
    (h : Returns (consumeDepositKeyIfRegistered commitment) s () t) :
    t.currentRoot = s.currentRoot ∧ t.admin = s.admin := by
  rw [consumeDepositKeyIfRegistered, returns_get_bind] at h
  split at h
  · obtain ⟨-, rfl⟩ := returns_pure.mp h
    exact ⟨rfl, rfl⟩
  · obtain ⟨-, h⟩ := returns_require_bind.mp h
    obtain rfl := returns_set.mp h
    exact ⟨rfl, rfl⟩

theorem initializeContract_effect {admin verifier : Address} {vk root : BytesN 32}
    (h : Returns (initializeContract admin verifier vk root) s () t) :
    s.admin = none ∧ t.currentRoot = some root ∧ t.admin = some admin := by
  simp only [initializeContract, writeRoot, returns_get_bind, returns_require_bind,
    returns_set_bind, returns_set, Option.isNone_iff_eq_none] at h
  obtain ⟨hadmin, rfl⟩ := h
  refine ⟨hadmin, ?_, rfl⟩
  -- the zero root is stored as itself
  show some (if root = zeroBytes then zeroBytes else root) = some root
  split
  · next hzero => rw [hzero]
  · rfl

variable [DecidableEq Address]

/-- **An accepted transfer** replaces the current root by the root that its commitments lead to from
the root it was built on, whatever the current root is. -/
theorem applyPrivateTransfer_effect {relayer : Address} {transfer : PrivateTransfer}
    {proof : List UInt8} {r : TransferReceipt}
    (h : Returns (applyPrivateTransfer host env relayer transfer proof) s r t) :
    s.currentRoot = some r.previousRoot ∧ rootExists s transfer.oldRoot = true ∧
      t.currentRoot = some (rootAfter host.sha256 transfer.oldRoot transfer.commitments) ∧
      t.admin = s.admin := by
  simp only [applyPrivateTransfer, requireAuth, requireNonzeroCommitment, validateProofMaterial,
    readCurrentRoot, bind_assoc, returns_require_bind, returns_get_bind, returns_orFault_bind,
    returns_set_bind] at h
  obtain ⟨-, -, -, -, -, hknown, _, -, _, -, -, -, currentRoot, hcurrent, -, _, -, -, h⟩ := h
  obtain ⟨_, u, hconsume, h⟩ := returns_bind.mp h
  obtain ⟨-, hadmin⟩ := consumeDepositKey_frame hconsume
  simp only [recordTransfer, writeRoot, bind_assoc, returns_get_bind, returns_set_bind,
    returns_pure] at h
  obtain ⟨rfl, rfl⟩ := h
  exact ⟨hcurrent, hknown, rfl, hadmin⟩

/-- The entry points that are neither the first call, nor register a key, nor transfer write the
verifier and the stealth keys at most. -/
theorem frame_of_other {call : Call Address} {v : Response Address}
    (h : Returns (entryPoint host env call) s v t)
    (hinit : ∀ admin verifier vk root, call ≠ .initializeContract admin verifier vk root)
    (hregister : ∀ owner commitment, call ≠ .registerDepositKey owner commitment)
    (happly : ∀ relayer transfer proof, call ≠ .applyPrivateTransfer relayer transfer proof) :
    t = { s with
      verifier := t.verifier
      verificationKeyHash := t.verificationKeyHash
      stealthMeta := t.stealthMeta } := by
  cases call with
  | initializeContract admin verifier vk root => exact absurd rfl (hinit _ _ _ _)
  | registerDepositKey owner commitment => exact absurd rfl (hregister _ _)
  | applyPrivateTransfer relayer transfer proof => exact absurd rfl (happly _ _ _)
  | setVerifier verifier vk =>
    simp only [entryPoint, setVerifier, requireAdmin, requireAuth, bind_assoc, returns_get_bind,
      returns_orFault_bind, returns_require_bind, returns_set_bind, returns_pure] at h
    obtain ⟨_, -, -, -, -, rfl⟩ := h
    rfl
  | verifierConfig =>
    simp only [entryPoint, returns_get_bind, returns_orFault_bind, returns_pure] at h
    obtain ⟨_, -, _, -, -, rfl⟩ := h
    rfl
  | currentRoot =>
    simp only [entryPoint, readCurrentRoot, returns_map, returns_get_bind, returns_orFault] at h
    obtain ⟨_, ⟨-, rfl⟩, -⟩ := h
    rfl
  | previewNextRoot transfer =>
    simp only [entryPoint, previewNextRoot, readCurrentRoot, bind_assoc, returns_map,
      returns_get_bind, returns_orFault_bind, returns_require_bind, returns_pure] at h
    obtain ⟨_, ⟨_, -, -, -, rfl⟩, -⟩ := h
    rfl
  | verifyStealthCommitment proof expected =>
    simp only [entryPoint, verifyStealthCommitment, requireNonzeroCommitment, returns_map,
      returns_require_bind, returns_pure] at h
    obtain ⟨_, ⟨-, -, -, -, rfl⟩, -⟩ := h
    rfl
  | registerStealthMeta owner spendPubkey viewPubkey =>
    simp only [entryPoint, registerStealthMeta, requireAuth, requireNonzeroCommitment, bind_assoc,
      returns_get_bind, returns_require_bind, returns_set_bind, returns_pure] at h
    obtain ⟨-, -, -, -, rfl⟩ := h
    rfl
  | view view =>
    simp only [entryPoint, returns_get_bind, returns_pure] at h
    obtain ⟨-, rfl⟩ := h
    rfl

omit [DecidableEq Address] in
/-- A key is registered once, and is not spent when it is. -/
theorem registerDepositKey_effect {owner : Address} {commitment : BytesN 32}
    (h : Returns (registerDepositKey env owner commitment) s () t) :
    isRegisteredDepositKey s commitment = false ∧
      t = { s with
        depositKeyOwner := Function.update s.depositKeyOwner commitment (some owner)
        depositKeyUsed := Function.update s.depositKeyUsed commitment (some false) } := by
  simp only [registerDepositKey, requireAuth, requireNonzeroCommitment, returns_get_bind,
    returns_require_bind, returns_set, Bool.not_eq_true'] at h
  obtain ⟨-, -, hnew, rfl⟩ := h
  exact ⟨hnew, rfl⟩

/-- An entry point other than the two that write roots leaves the current root as it is. -/
theorem currentRoot_frame {call : Call Address} {v : Response Address}
    (h : Returns (entryPoint host env call) s v t)
    (hinit : ∀ admin verifier vk root, call ≠ .initializeContract admin verifier vk root)
    (happly : ∀ relayer transfer proof, call ≠ .applyPrivateTransfer relayer transfer proof) :
    t.currentRoot = s.currentRoot ∧ t.admin = s.admin := by
  by_cases hregister : ∃ owner commitment, call = .registerDepositKey owner commitment
  · obtain ⟨owner, commitment, rfl⟩ := hregister
    obtain ⟨_, u, hreturns, hpure⟩ := returns_bind.mp h
    obtain ⟨-, rfl⟩ := returns_pure.mp hpure
    obtain ⟨-, rfl⟩ := registerDepositKey_effect hreturns
    exact ⟨rfl, rfl⟩
  · have hframe := frame_of_other h hinit
      (fun owner commitment hc => hregister ⟨owner, commitment, hc⟩) happly
    rw [hframe]
    exact ⟨rfl, rfl⟩

end Effects

/-! ## Runs -/

section Runs

variable {host : Host Address} {s : State Address} {ls : List (Submission Address)}
  {l : Submission Address}

theorem rootAfter_append {sha256 : List UInt8 → BytesN 32} {root : BytesN 32}
    {cs ds : List (BytesN 32)} :
    rootAfter sha256 root (cs ++ ds) = rootAfter sha256 (rootAfter sha256 root cs) ds :=
  List.foldl_append

theorem acceptedCommitments_concat :
    acceptedCommitments (ls ++ [l]) = acceptedCommitments ls ++ newCommitments l := by
  simp [acceptedCommitments]

theorem initialRoot_concat :
    initialRoot (ls ++ [l]) = (initialRoot ls).or (initializedRoot l) := by
  simp [initialRoot, List.findSome?_append]

/-- The history of the roots: no update was lost so far, and the contract has an admin just when it
has been initialized. -/
structure RootHistory (sha256 : List UInt8 → BytesN 32) (ls : List (Submission Address))
    (s : State Address) : Prop extends NoLostUpdate sha256 ls s where
  admin_isSome : s.admin.isSome = (initialRoot ls).isSome

/-- A call that brings in nothing and leaves the roots keeps the history. -/
theorem RootHistory.concat_of_frame {u w : State Address}
    (h : RootHistory host.sha256 ls u) (hroot : initializedRoot l = none)
    (hnew : newCommitments l = []) (hextends : Extends l)
    (hw : w.currentRoot = u.currentRoot ∧ w.admin = u.admin) :
    RootHistory host.sha256 (ls ++ [l]) w := by
  have hinitial : initialRoot (ls ++ [l]) = initialRoot ls := by
    rw [initialRoot_concat, hroot, Option.or_none]
  have haccepted : acceptedCommitments (ls ++ [l]) = acceptedCommitments ls := by
    rw [acceptedCommitments_concat, hnew, List.append_nil]
  refine ⟨⟨?_, ?_, ?_⟩, ?_⟩
  · rw [hw.1, hinitial, haccepted]
    exact h.included
  · rw [hinitial, haccepted]
    exact h.initialized
  · intro k hk
    rcases List.mem_append.mp hk with hk | hk
    · exact h.extending k hk
    · rwa [List.mem_singleton.mp hk]
  · rw [hw.2, hinitial]
    exact h.admin_isSome

variable [DecidableEq Address]

/-- A call that returns keeps the history when a transfer is built on the current root. -/
theorem RootHistory.concat {env : Env Address} {call : Call Address} {u w : State Address}
    {v : Response Address} (h : RootHistory host.sha256 ls u)
    (hreturns : Returns (entryPoint host env call) u v w) (hcall : call.OnCurrentRoot u) :
    RootHistory host.sha256 (ls ++ [⟨env, call, .ok v⟩]) w := by
  by_cases hinit : ∃ admin verifier vk root, call = .initializeContract admin verifier vk root
  · obtain ⟨admin, verifier, vk, root, rfl⟩ := hinit
    simp only [entryPoint, returns_bind] at hreturns
    obtain ⟨_, _, hreturns, hpure⟩ := hreturns
    obtain ⟨-, rfl⟩ := returns_pure.mp hpure
    obtain ⟨hnone, hcurrent, hadmin⟩ := initializeContract_effect hreturns
    -- nothing was accepted before the contract was initialized
    have hbefore : initialRoot ls = none := by
      have hsome := h.admin_isSome
      rw [hnone] at hsome
      exact Option.isNone_iff_eq_none.mp (by simpa using hsome.symm)
    have hafter : initialRoot (ls ++ [⟨env, .initializeContract admin verifier vk root, .ok v⟩]) =
        some root := by
      rw [initialRoot_concat, hbefore]
      rfl
    refine ⟨⟨?_, ?_, ?_⟩, ?_⟩
    · rw [hafter, acceptedCommitments_concat, h.initialized hbefore]
      exact hcurrent
    · intro hnone
      cases hafter.symm.trans hnone
    · intro k hk
      rcases List.mem_append.mp hk with hk | hk
      · exact h.extending k hk
      · rw [List.mem_singleton.mp hk]
        trivial
    · rw [hafter, hadmin]
      rfl
  by_cases happly : ∃ relayer transfer proof, call = .applyPrivateTransfer relayer transfer proof
  · obtain ⟨relayer, transfer, proof, rfl⟩ := happly
    obtain ⟨r, haccepted, rfl⟩ := returns_map.mp hreturns
    obtain ⟨hprevious, -, hcurrent, hadmin⟩ := applyPrivateTransfer_effect haccepted
    have hold : u.currentRoot = some transfer.oldRoot := hcall
    obtain ⟨root, hroot, hold'⟩ : ∃ root, initialRoot ls = some root ∧
        rootAfter host.sha256 root (acceptedCommitments ls) = transfer.oldRoot := by
      have hincluded := h.included
      rw [hold] at hincluded
      exact Option.map_eq_some_iff.mp hincluded.symm
    have hafter : initialRoot
        (ls ++ [⟨env, .applyPrivateTransfer relayer transfer proof, .ok (.receipt r)⟩]) =
          some root := by
      rw [initialRoot_concat, hroot]
      rfl
    refine ⟨⟨?_, ?_, ?_⟩, ?_⟩
    · -- the commitments of the transfer are hashed into the root of all those before
      rw [hafter, acceptedCommitments_concat, Option.map_some, rootAfter_append, hold']
      exact hcurrent
    · intro hnone
      cases hafter.symm.trans hnone
    · intro k hk
      rcases List.mem_append.mp hk with hk | hk
      · exact h.extending k hk
      · rw [List.mem_singleton.mp hk]
        show r.previousRoot = transfer.oldRoot
        exact Option.some.inj (hprevious.symm.trans hold)
    · rw [hafter, hadmin, h.admin_isSome, hroot]
  · -- every other call leaves the roots
    have hframe := currentRoot_frame hreturns
      (fun admin verifier vk root hc => hinit ⟨admin, verifier, vk, root, hc⟩)
      (fun relayer transfer proof hc => happly ⟨relayer, transfer, proof, hc⟩)
    apply h.concat_of_frame _ _ _ hframe
    · cases call <;> first | rfl | exact absurd ⟨_, _, _, _, rfl⟩ hinit
    · cases call <;> first | rfl | exact absurd ⟨_, _, _, rfl⟩ happly
    · cases call <;> first | trivial | exact absurd ⟨_, _, _, rfl⟩ happly

/-- A step of a transfer that was accepted extends the current root just when the transfer was built
on it. -/
theorem extends_iff {u w : State Address} (h : Step (entryPoint host) u l w) :
    (∀ v, l.result = .ok v → l.call.OnCurrentRoot u) ↔ Extends l := by
  obtain ⟨env, call, result⟩ := l
  rcases h.cases with ⟨v, hv, hreturns⟩ | ⟨⟨fault, hfault⟩, -⟩
  · obtain rfl : result = .ok v := hv
    -- the call returned, so that the condition is one on the call
    apply Iff.trans (b := call.OnCurrentRoot u) ⟨fun h => h v rfl, fun h _ _ => h⟩
    cases call with
    | applyPrivateTransfer relayer transfer proof =>
      obtain ⟨r, haccepted, rfl⟩ := returns_map.mp hreturns
      obtain ⟨hprevious, -⟩ := applyPrivateTransfer_effect haccepted
      show u.currentRoot = some transfer.oldRoot ↔ r.previousRoot = transfer.oldRoot
      rw [hprevious, Option.some_inj]
    | _ => exact Iff.rfl
  · obtain rfl : result = .error fault := hfault
    have hextends : Extends (⟨env, call, .error fault⟩ : Submission Address) := by
      cases call <;> trivial
    exact iff_of_true (fun v hv => by cases hv) hextends

end Runs

/-! ## Two transfers built on one root -/

def sampleHost : Host ℕ where
  sha256 := Sha256.hash
  zeroAddress := 0

/-- Everybody authorizes the call, and the verifier accepts it. -/
def sampleEnv : Env ℕ where
  auth := fun _ => true
  verify := fun _ _ _ _ => some true

def sampleTransfer (oldRoot : BytesN 32) (k : UInt8) : PrivateTransfer where
  oldRoot := oldRoot
  nullifier := .replicate 32 k
  senderUpdate := ⟨.replicate 32 (k + 1), [k + 1]⟩
  recipientUpdate := ⟨.replicate 32 (k + 2), [k + 2]⟩

/-- Two relayers submit transfers that were both built on the initial root. -/
def sampleSubmissions : List (Env ℕ × Call ℕ) :=
  [(sampleEnv, .initializeContract 1 2 (.replicate 32 9) (.replicate 32 8)),
   (sampleEnv, .applyPrivateTransfer 3 (sampleTransfer (.replicate 32 8) 10) [1]),
   (sampleEnv, .applyPrivateTransfer 4 (sampleTransfer (.replicate 32 8) 20) [2])]

/-- One transfer after the other, the second built on the root that the first has led to. -/
def sampleSequence : List (Env ℕ × Call ℕ) :=
  sampleSubmissions.take 2 ++
    [(sampleEnv, .applyPrivateTransfer 4
      (sampleTransfer (nextRootForTransfer Sha256.hash (.replicate 32 8)
        (sampleTransfer (.replicate 32 8) 10)) 20) [2])]

end PrivateTransferContract
