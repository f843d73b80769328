import SkyMoonScope.Lib.Bytes
import SkyMoonScope.Soroban.Calls
import Mathlib.Logic.Function.Basic

/-!
# The registry of verification keys

The registry of `contracts/statement_verifier/src/lib.rs`. An admin registers the public key that a
hash commits to and removes it again; a list keeps the registered hashes in order. The verification
of a proof, which reads a key and writes nothing, events and the lifetime of the storage are left
out.

## Main definitions

* `State`: the entries of the contract
* `registerVerificationKey`, `removeVerificationKey`: the entry points that write the registry
* `Call`, `entryPoint`: a call of the contract, and its body

## Main results

* `returns_registerVerificationKey`, `returns_removeVerificationKey`: what a call has checked, and
  what it writes
-/

namespace StatementVerifier

open Soroban Function

inductive Error
  | unknownVerificationKey
  | malformedProof
  | invalidProof
  | notInitialized
  | unauthorized
  | invalidPublicKey
  | alreadyInitialized
deriving DecidableEq

/-- The entries of the contract. A list of hashes that is not stored reads as empty. -/
structure State (Address : Type) where
  admin : Option Address
  publicKey : BytesN 32 → Option (BytesN 32)
  keyOrder : List (BytesN 32)

/-- The storage before the first call. -/
def State.initial (Address : Type) : State Address where
  admin := none
  publicKey := fun _ => none
  keyOrder := []

variable {Address : Type}

abbrev Body (Address α : Type) := Contract (State Address) Error α

section Functions

variable (auth : Address → Bool)

/-- The stored admin, who has authorized the call. -/
def requireAdmin : Body Address Address := do
  let s ← get
  let admin ← orFault s.admin (.error .notInitialized)
  require (auth admin) (.trap "Error(Auth, InvalidAction)")
  pure admin

/-- The first call needs no authorization. -/
def initializeVerifier (admin : Address) : Body Address Unit := do
  let s ← get
  require s.admin.isNone (.error .alreadyInitialized)
  set { s with admin := some admin, keyOrder := [] }

def isRegistered (order : List (BytesN 32)) (hash : BytesN 32) : Bool := order.contains hash

def registerVerificationKey (verificationKeyHash publicKey : BytesN 32) : Body Address Unit := do
  let _ ← requireAdmin auth
  require (¬publicKey = .replicate 32 0) (.error .invalidPublicKey)
  let s ← get
  match s.publicKey verificationKeyHash with
  | some existing => require (¬existing ≠ publicKey) (.error .invalidPublicKey)
  | none =>
    set { s with
      publicKey := update s.publicKey verificationKeyHash (some publicKey)
      keyOrder :=
        if isRegistered s.keyOrder verificationKeyHash then s.keyOrder
        else s.keyOrder ++ [verificationKeyHash] }

def removeVerificationKey (verificationKeyHash : BytesN 32) : Body Address Unit := do
  let _ ← requireAdmin auth
  let s ← get
  require (s.publicKey verificationKeyHash).isSome (.error .unknownVerificationKey)
  set { s with
    publicKey := update s.publicKey verificationKeyHash none
    keyOrder := s.keyOrder.filter fun hash => hash ≠ verificationKeyHash }

end Functions

/-! ## Calls -/

inductive Call (Address : Type)
  | initializeVerifier (admin : Address)
  | registerVerificationKey (verificationKeyHash publicKey : BytesN 32)
  | removeVerificationKey (verificationKeyHash : BytesN 32)

/-- The body of a call, which the addresses with `auth` have authorized. -/
def entryPoint (auth : Address → Bool) : Call Address → Body Address Unit
  | .initializeVerifier admin => initializeVerifier admin
  | .registerVerificationKey verificationKeyHash publicKey =>
    registerVerificationKey auth verificationKeyHash publicKey
  | .removeVerificationKey verificationKeyHash => removeVerificationKey auth verificationKeyHash

/-- A call of the contract with what it returned. -/
abbrev Event (Address : Type) := Soroban.Event (Address → Bool) (Call Address) Error Unit

/-! ## What the entry points check and write -/

section Spec

variable {auth : Address → Bool} {s t : State Address} {r : Unit} {hash key : BytesN 32}

theorem returns_requireAdmin_bind {α : Type} {v : α} {f : Address → Body Address α} :
    Returns (requireAdmin auth >>= f) s v t ↔
      ∃ admin, s.admin = some admin ∧ auth admin = true ∧ Returns (f admin) s v t := by
  simp only [requireAdmin, bind_assoc, pure_bind, returns_get_bind, returns_orFault_bind,
    returns_require_bind]

theorem returns_initializeVerifier {admin : Address} :
    Returns (initializeVerifier admin) s r t ↔
      s.admin = none ∧ t = { s with admin := some admin, keyOrder := [] } := by
  simp only [initializeVerifier, returns_get_bind, returns_require_bind, returns_set,
    Option.isNone_iff_eq_none, eq_comm (a := t)]

/-- **A registration** finds the same key under the hash and changes nothing, or no key and stores
the hash and the key. -/
theorem returns_registerVerificationKey
    (h : Returns (registerVerificationKey auth hash key) s r t) :
    s.admin ≠ none ∧
      (s.publicKey hash = some key ∧ t = s ∨
        s.publicKey hash = none ∧
          t = { s with
            publicKey := update s.publicKey hash (some key)
            keyOrder := if hash ∈ s.keyOrder then s.keyOrder else s.keyOrder ++ [hash] }) := by
  simp only [registerVerificationKey, returns_requireAdmin_bind, returns_require_bind,
    returns_get_bind] at h
  obtain ⟨admin, hadmin, -, -, h⟩ := h
  refine ⟨by simp [hadmin], ?_⟩
  split at h
  next existing hexisting =>
    obtain ⟨heq, rfl⟩ := returns_require.mp h
    rw [ne_eq, not_not] at heq
    exact .inl ⟨heq ▸ hexisting, rfl⟩
  next hnone =>
    rw [returns_set] at h
    subst h
    refine .inr ⟨hnone, ?_⟩
    simp only [isRegistered, List.contains_iff_mem]

theorem returns_removeVerificationKey :
    Returns (removeVerificationKey auth hash) s r t ↔
      (∃ admin, s.admin = some admin ∧ auth admin = true) ∧ s.publicKey hash ≠ none ∧
        t = { s with
          publicKey := update s.publicKey hash none
          keyOrder := s.keyOrder.filter fun h => h ≠ hash } := by
  simp only [removeVerificationKey, returns_requireAdmin_bind, returns_require_bind,
    returns_get_bind, returns_set, Option.isSome_iff_ne_none]
  constructor
  · rintro ⟨admin, hadmin, hauth, hsome, rfl⟩
    exact ⟨⟨admin, hadmin, hauth⟩, hsome, rfl⟩
  · rintro ⟨⟨admin, hadmin, hauth⟩, hsome, rfl⟩
    exact ⟨admin, hadmin, hauth, hsome, rfl⟩

end Spec

end StatementVerifier
