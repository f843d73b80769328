import SkyMoonScope.Soroban.Calls
import SkyMoonScope.Soroban.Token
import Mathlib.Data.Prod.Lex
import Mathlib.Logic.Function.Basic

/-!
# The executor of gasless transactions

The contract of `contracts/crucible-example-gasless/src/lib.rs`. A user signs a transfer with a
nonce and an epoch, and a relayer submits it. The user may skip nonces, and may begin a new epoch,
whose nonces start at zero. Events, the lifetime of the storage and the entry points that only read
are left out.

## Main definitions

* `MetaTx`, `State`: a signed transfer, and the entries of the contract
* `execute`, `invalidateNonces`, `rotateEpoch`: the entry points
* `Call`, `entryPoint`: a call of the contract, and its body

## Main results

* `returns_execute`, `returns_invalidateNonces`, `returns_rotateEpoch`: what a call has checked, and
  what it writes
-/

namespace Gasless

open Soroban Function

/-- A transfer that its source has signed, for one nonce of one epoch, up to a deadline. -/
structure MetaTx (Address : Type) where
  source : Address
  destination : Address
  token : Address
  amount : ℤ
  nonce : ℕ
  epoch : ℕ
  deadline : ℕ

/-- The entries of the contract, and the storage of the token contracts. A nonce or an epoch that is
not stored reads as zero. -/
structure State (Address Tokens : Type) where
  admin : Option Address
  nonce : Address → ℕ
  epoch : Address → ℕ
  tokens : Tokens

/-- The storage before the first call. -/
def State.initial {Address Tokens : Type} (tokens : Tokens) : State Address Tokens where
  admin := none
  nonce := fun _ => 0
  epoch := fun _ => 0
  tokens := tokens

/-- What a call takes from its surroundings: who has authorized it, the time of the ledger, and what
became of the tokens since the call before. -/
structure Env (Address Tokens : Type) where
  auth : Address → Bool
  timestamp : ℕ
  outside : Tokens → Tokens

def maxNonceAdvance : ℕ := 10000

/-- A contract without errors of its own: its calls return or trap. -/
abbrev Body (Address Tokens α : Type) := Contract (State Address Tokens) Empty α

variable {Address Tokens : Type}

def requireAuth (auth : Address → Bool) (addr : Address) : Body Address Tokens Unit :=
  require (auth addr) (.trap "Error(Auth, InvalidAction)")

/-- `checked_add` of one to a `u64`, with `expect`. -/
def incremented (x : ℕ) (message : String) : Body Address Tokens ℕ := do
  require (x + 1 < 2 ^ 64) (.trap message)
  pure (x + 1)

section Functions

variable [DecidableEq Address] (host : TokenInterface Address Tokens) (env : Env Address Tokens)

def writeNonce (user : Address) (value : ℕ) : Body Address Tokens Unit := do
  let s ← get
  set { s with nonce := update s.nonce user value }

def writeEpoch (user : Address) (value : ℕ) : Body Address Tokens Unit := do
  let s ← get
  set { s with epoch := update s.epoch user value }

omit [DecidableEq Address] in
def initializeExecutor (admin : Address) : Body Address Tokens Unit := do
  let s ← get
  require s.admin.isNone (.trap "already initialized")
  requireAuth env.auth admin
  set { s with admin := some admin }

/-- The nonce is used up before the token contract has control. -/
def execute (relayer : Address) (metaTx : MetaTx Address) : Body Address Tokens Unit := do
  let s ← get
  let admin ← orFault s.admin (.trap "not initialized")
  require (¬relayer ≠ admin) (.trap "unauthorized relayer")
  requireAuth env.auth relayer
  require (¬env.timestamp > metaTx.deadline) (.trap "meta-tx expired")
  require (¬metaTx.epoch ≠ s.epoch metaTx.source) (.trap "invalid epoch")
  let expectedNonce := s.nonce metaTx.source
  require (¬metaTx.nonce ≠ expectedNonce) (.trap "invalid nonce")
  requireAuth env.auth metaTx.source
  let nextNonce ← incremented expectedNonce "nonce overflow"
  writeNonce metaTx.source nextNonce
  let s ← get
  let tokens ← orFault
    (host.transfer metaTx.token metaTx.source metaTx.destination metaTx.amount s.tokens)
    (.trap "Error(Contract)")
  set { s with tokens }

def invalidateNonces (user : Address) (newNonce : ℕ) : Body Address Tokens ℕ := do
  requireAuth env.auth user
  let s ← get
  let current := s.nonce user
  require (¬newNonce ≤ current) (.trap "invalid nonce")
  require (¬newNonce - current > maxNonceAdvance) (.trap "advance too large")
  writeNonce user newNonce
  pure newNonce

def rotateEpoch (user : Address) : Body Address Tokens (ℕ × ℕ) := do
  requireAuth env.auth user
  let s ← get
  let currentEpoch := s.epoch user
  let newEpoch ← incremented currentEpoch "epoch overflow"
  writeEpoch user newEpoch
  writeNonce user 0
  pure (newEpoch, 0)

end Functions

/-! ## Calls -/

inductive Call (Address : Type)
  | initializeExecutor (admin : Address)
  | execute (relayer : Address) (metaTx : MetaTx Address)
  | invalidateNonces (user : Address) (newNonce : ℕ)
  | rotateEpoch (user : Address)

/-- What a call returns. -/
inductive Response
  | unit
  | nonce (n : ℕ)
  | epochAndNonce (epoch nonce : ℕ)

section Dispatch

variable [DecidableEq Address] (host : TokenInterface Address Tokens)

/-- The body of the called entry point. -/
def body (env : Env Address Tokens) : Call Address → Body Address Tokens Response
  | .initializeExecutor admin => (fun _ => .unit) <$> initializeExecutor env admin
  | .execute relayer metaTx => (fun _ => .unit) <$> execute host env relayer metaTx
  | .invalidateNonces user newNonce => .nonce <$> invalidateNonces env user newNonce
  | .rotateEpoch user => (fun p => .epochAndNonce p.1 p.2) <$> rotateEpoch env user

/-- A call, which finds the tokens as they are by then. -/
def entryPoint (env : Env Address Tokens) (call : Call Address) :
    Body Address Tokens Response := do
  let s ← get
  set { s with tokens := env.outside s.tokens }
  body host env call

end Dispatch

/-- A call of the contract with what it returned. -/
abbrev Event (Address Tokens : Type) :=
  Soroban.Event (Env Address Tokens) (Call Address) Empty Response

/-! ## What the entry points check and write -/

section Spec

variable {host : TokenInterface Address Tokens} {env : Env Address Tokens}
  {s t : State Address Tokens} {α : Type} {v : α}

theorem returns_requireAuth_bind {auth : Address → Bool} {addr : Address}
    {f : Unit → Body Address Tokens α} :
    Returns (requireAuth auth addr >>= f) s v t ↔ auth addr = true ∧ Returns (f ()) s v t := by
  simp only [requireAuth, returns_require_bind]

theorem returns_incremented_bind {x : ℕ} {message : String} {f : ℕ → Body Address Tokens α} :
    Returns (incremented x message >>= f) s v t ↔ x + 1 < 2 ^ 64 ∧ Returns (f (x + 1)) s v t := by
  simp only [incremented, bind_assoc, pure_bind, returns_require_bind]

theorem returns_initializeExecutor {admin : Address} {r : Unit}
    (h : Returns (initializeExecutor env admin) s r t) : t = { s with admin := some admin } := by
  simp only [initializeExecutor, returns_get_bind, returns_require_bind, returns_requireAuth_bind,
    returns_set] at h
  exact h.2.2.symm

variable [DecidableEq Address]

theorem returns_writeNonce_bind {user : Address} {value : ℕ} {f : Unit → Body Address Tokens α} :
    Returns (writeNonce user value >>= f) s v t ↔
      Returns (f ()) { s with nonce := update s.nonce user value } v t := by
  simp only [writeNonce, bind_assoc, returns_get_bind, returns_set_bind]

theorem returns_writeEpoch_bind {user : Address} {value : ℕ} {f : Unit → Body Address Tokens α} :
    Returns (writeEpoch user value >>= f) s v t ↔
      Returns (f ()) { s with epoch := update s.epoch user value } v t := by
  simp only [writeEpoch, bind_assoc, returns_get_bind, returns_set_bind]

/-- **An execution** is of the current epoch and the next nonce of the source, and uses the nonce
up. -/
theorem returns_execute {relayer : Address} {metaTx : MetaTx Address} {r : Unit}
    (h : Returns (execute host env relayer metaTx) s r t) :
    metaTx.epoch = s.epoch metaTx.source ∧ metaTx.nonce = s.nonce metaTx.source ∧
      ∃ tokens, host.transfer metaTx.token metaTx.source metaTx.destination metaTx.amount s.tokens =
          some tokens ∧
        t = { s with nonce := update s.nonce metaTx.source (metaTx.nonce + 1), tokens } := by
  simp only [execute, returns_get_bind, returns_orFault_bind, returns_require_bind,
    returns_requireAuth_bind, returns_incremented_bind, returns_writeNonce_bind, returns_set,
    ne_eq, not_not] at h
  obtain ⟨admin, -, -, -, -, hepoch, hnonce, -, -, tokens, htransfer, rfl⟩ := h
  exact ⟨hepoch, hnonce, tokens, htransfer, by rw [hnonce]⟩

theorem returns_invalidateNonces {user : Address} {newNonce n : ℕ}
    (h : Returns (invalidateNonces env user newNonce) s n t) :
    s.nonce user < newNonce ∧ newNonce - s.nonce user ≤ maxNonceAdvance ∧
      t = { s with nonce := update s.nonce user newNonce } := by
  simp only [invalidateNonces, returns_requireAuth_bind, returns_get_bind, returns_require_bind,
    returns_writeNonce_bind, returns_pure, not_le, not_lt, gt_iff_lt] at h
  obtain ⟨-, hlt, hle, -, rfl⟩ := h
  exact ⟨hlt, hle, rfl⟩

theorem returns_rotateEpoch {user : Address} {r : ℕ × ℕ}
    (h : Returns (rotateEpoch env user) s r t) :
    r = (s.epoch user + 1, 0) ∧
      t = { s with
        epoch := update s.epoch user (s.epoch user + 1), nonce := update s.nonce user 0 } := by
  simp only [rotateEpoch, returns_requireAuth_bind, returns_get_bind, returns_incremented_bind,
    returns_writeEpoch_bind, returns_writeNonce_bind, returns_pure] at h
  obtain ⟨-, -, rfl, rfl⟩ := h
  exact ⟨rfl, rfl⟩

/-- A call runs its body after what became of the tokens. -/
theorem returns_entryPoint {call : Call Address} {r : Response} :
    Returns (entryPoint host env call) s r t ↔
      Returns (body host env call) { s with tokens := env.outside s.tokens } r t := by
  simp only [entryPoint, returns_get_bind, returns_set_bind]

end Spec

end Gasless
