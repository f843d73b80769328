import SkyMoonScope.EmergencyGuard.Entrypoints
import SkyMoonScope.Lib.Accounts
import SkyMoonScope.Lib.Integers

/-!
# The token

The contract of `contracts/token/src`: balances, allowances and a supply that only the admin mints,
with the functions of the emergency guard beside them. A plain operator traps where its value leaves
the type. Events are left out, and so are the entry points that only read and the lifetimes of the
entries.

## Main definitions

* `State`: the entries of the contract
* `receiveBalance`, `spendBalance`, `spendAllowance`: the helpers that the operations share
* `mint`, `transfer`, `burn`, …: the entry points
* `Call`, `entryPoint`: a call of the contract, and its body
* `Ledger`: the balances and the supply
* `Call.Covered`, `Call.post`: what a call checks of the ledger, and what it makes of it

## Main results

* `post_of_returns`: a call that returns has found the ledger so, and has made this of it
-/

namespace TokenContract

open Soroban EmergencyGuard Accounts Function

structure AllowanceValue where
  amount : ℤ
  expirationLedger : ℕ

/-- Token metadata grouped into a single entry. -/
structure TokenMetadata where
  name : String
  symbol : String
  decimals : ℕ

/-- The entries of the contract. A balance or an allowance that is not stored reads as zero. -/
structure State (Address : Type) where
  guard : EmergencyGuard.State Address
  admin : Option Address
  metadata : Option TokenMetadata
  balance : Address → ℤ
  allowance : Address → Address → AllowanceValue
  maxSupply : Option ℤ
  totalSupply : ℤ

/-- What a call takes from the host: the ledger, and which addresses have authorized it. -/
structure Env (Address : Type) where
  sequence : ℕ
  auth : Address → Bool

/-- The storage before the first call. -/
def State.initial (Address : Type) : State Address where
  guard := .initial Address
  admin := none
  metadata := none
  balance := fun _ => 0
  allowance := fun _ _ => ⟨0, 0⟩
  maxSupply := none
  totalSupply := 0

variable {Address : Type}

abbrev Body (Address α : Type) := Contract (State Address) GuardError α

/-! ## Helpers -/

/-- A plain operator on `i128` values, which traps on overflow. -/
def plain (x : ℤ) : Body Address ℤ :=
  orFault (IntType.i128.checked x) (.trap "arithmetic operation with overflow")

/-- A function of the guard. -/
def guarded (x : EmergencyGuard.Body Address Unit) : Body Address Unit :=
  zoom State.guard (fun s guard => { s with guard }) id x

/-- A function of the guard, of which an error is a panic. -/
def expect (reason : String) (x : EmergencyGuard.Body Address Unit) : Body Address Unit := fun s =>
  match (guarded x).run s with
  | .ok (r, t) => .ok (r, t)
  | .error _ => .error (.trap reason)

def requireNotPaused (operation : UInt32) : Body Address Unit := do
  let s ← get
  require (¬EmergencyGuard.isPaused s.guard operation) (.trap "operation paused")

def readAdministrator : Body Address Address := do
  let s ← get
  orFault s.admin (.trap "called Option::unwrap() on a None value")

def writeTotalSupply (amount : ℤ) : Body Address Unit := do
  let s ← get
  set { s with totalSupply := amount }

namespace PauseType

def transfer : UInt32 := (1 : UInt32) <<< 3

def mint : UInt32 := (1 : UInt32) <<< 4

def burn : UInt32 := (1 : UInt32) <<< 5

end PauseType

section Functions

variable [DecidableEq Address] (env : Env Address)

def requireAuth (addr : Address) : Body Address Unit :=
  require (env.auth addr) (.trap "Error(Auth, InvalidAction)")

def writeBalance (addr : Address) (amount : ℤ) : Body Address Unit := do
  let s ← get
  set { s with balance := update s.balance addr amount }

def receiveBalance (addr : Address) (amount : ℤ) : Body Address Unit := do
  let s ← get
  let balance ← plain (s.balance addr + amount)
  writeBalance addr balance

def spendBalance (addr : Address) (amount : ℤ) : Body Address Unit := do
  let s ← get
  require (¬s.balance addr < amount) (.trap "insufficient balance")
  let balance ← plain (s.balance addr - amount)
  writeBalance addr balance

/-- An allowance that is not positive is removed. -/
def writeAllowance (source spender : Address) (amount : ℤ) (expirationLedger : ℕ) :
    Body Address Unit := do
  let s ← get
  let value : AllowanceValue := if amount > 0 then ⟨amount, expirationLedger⟩ else ⟨0, 0⟩
  set { s with
    allowance := update s.allowance source (update (s.allowance source) spender value) }

def spendAllowance (source spender : Address) (amount : ℤ) : Body Address Unit := do
  let s ← get
  let allowance := s.allowance source spender
  require (¬allowance.amount < amount) (.trap "insufficient allowance")
  require (¬allowance.expirationLedger < env.sequence) (.trap "allowance expired")
  let rest ← plain (allowance.amount - amount)
  writeAllowance source spender rest allowance.expirationLedger

/-! ## Entry points -/

/-- The admin is the initial guardian as well. -/
def initializeToken (admin : Address) (decimals : ℕ) (name symbol : String) (maxSupply : ℤ) :
    Body Address Unit := do
  let s ← get
  require s.admin.isNone (.trap "already initialized")
  set { s with admin := some admin }
  expect "failed to initialize emergency guard" (initializeGuard [admin] 1 admin)
  let s ← get
  set { s with
    metadata := some { name, symbol, decimals }
    maxSupply := some maxSupply }

def mint (destination : Address) (amount : ℤ) : Body Address Unit := do
  requireNotPaused PauseType.mint
  let admin ← readAdministrator
  requireAuth env admin
  let s ← get
  let supply := s.totalSupply
  let maxSupply ← orFault s.maxSupply (.trap "called Option::unwrap() on a None value")
  require (¬(IntType.i128.checked (supply + amount) = none ∨ supply + amount > maxSupply))
    (.trap "max supply exceeded")
  receiveBalance destination amount
  let newSupply ← plain (supply + amount)
  writeTotalSupply newSupply

def setAdmin (newAdmin : Address) : Body Address Unit := do
  let admin ← readAdministrator
  requireAuth env admin
  expect "failed to add token admin" (addAdmin env.auth [admin] newAdmin)
  expect "failed to remove old token admin" (removeAdmin env.auth [admin] admin)
  let s ← get
  set { s with admin := some newAdmin }

def approve (source spender : Address) (amount : ℤ) (expirationLedger : ℕ) :
    Body Address Unit := do
  requireAuth env source
  writeAllowance source spender amount expirationLedger

def transfer (source destination : Address) (amount : ℤ) : Body Address Unit := do
  requireNotPaused PauseType.transfer
  requireAuth env source
  spendBalance source amount
  receiveBalance destination amount

def transferFrom (spender source destination : Address) (amount : ℤ) : Body Address Unit := do
  requireNotPaused PauseType.transfer
  requireAuth env spender
  spendAllowance env source spender amount
  spendBalance source amount
  receiveBalance destination amount

/-- The supply after a burn, which is read after the balances were written. -/
def reduceSupply (amount : ℤ) : Body Address Unit := do
  let s ← get
  let supply ← plain (s.totalSupply - amount)
  writeTotalSupply supply

/-- The balance is spent before the event and once more after it. -/
def burn (source : Address) (amount : ℤ) : Body Address Unit := do
  requireNotPaused PauseType.burn
  requireAuth env source
  spendBalance source amount
  spendBalance source amount
  reduceSupply amount

/-- The allowance and the balance are spent before the event and once more after it. -/
def burnFrom (spender source : Address) (amount : ℤ) : Body Address Unit := do
  requireNotPaused PauseType.burn
  requireAuth env spender
  spendAllowance env source spender amount
  spendBalance source amount
  spendAllowance env source spender amount
  spendBalance source amount
  reduceSupply amount

end Functions

/-! ## Calls -/

inductive Call (Address : Type)
  | initializeToken (admin : Address) (decimals : ℕ) (name symbol : String) (maxSupply : ℤ)
  | mint (destination : Address) (amount : ℤ)
  | setAdmin (newAdmin : Address)
  | guardPause (admin : Address) (operation : UInt32) (paused : Bool)
  | emergencyPause (approvers : List Address)
  | guardResume (approvers : List Address)
  | guardAddAdmin (approvers : List Address) (newAdmin : Address)
  | guardRemoveAdmin (approvers : List Address) (admin : Address)
  | approve (source spender : Address) (amount : ℤ) (expirationLedger : ℕ)
  | transfer (source destination : Address) (amount : ℤ)
  | transferFrom (spender source destination : Address) (amount : ℤ)
  | burn (source : Address) (amount : ℤ)
  | burnFrom (spender source : Address) (amount : ℤ)

def entryPoint [DecidableEq Address] (env : Env Address) : Call Address → Body Address Unit
  | .initializeToken admin decimals name symbol maxSupply =>
    initializeToken admin decimals name symbol maxSupply
  | .mint destination amount => mint env destination amount
  | .setAdmin newAdmin => setAdmin env newAdmin
  | .guardPause admin operation paused => guarded (setPause env.auth admin operation paused)
  | .emergencyPause approvers => guarded (EmergencyGuard.emergencyPause env.auth approvers)
  | .guardResume approvers => guarded (resume env.auth approvers)
  | .guardAddAdmin approvers newAdmin => guarded (addAdmin env.auth approvers newAdmin)
  | .guardRemoveAdmin approvers admin => guarded (removeAdmin env.auth approvers admin)
  | .approve source spender amount expirationLedger =>
    approve env source spender amount expirationLedger
  | .transfer source destination amount => transfer env source destination amount
  | .transferFrom spender source destination amount =>
    transferFrom env spender source destination amount
  | .burn source amount => burn env source amount
  | .burnFrom spender source amount => burnFrom env spender source amount

/-! ## What the calls write -/

/-- The balances, the supply and its bound. -/
structure Ledger (Address : Type) where
  balance : Address → ℤ
  totalSupply : ℤ
  maxSupply : Option ℤ

def State.ledger (s : State Address) : Ledger Address := ⟨s.balance, s.totalSupply, s.maxSupply⟩

section Posting

variable [DecidableEq Address] (l : Ledger Address)

/-- What a call checks of the ledger. -/
def Call.Covered : Call Address → Prop
  | .mint _ amount => ∃ maxSupply, l.maxSupply = some maxSupply ∧ l.totalSupply + amount ≤ maxSupply
  | .transfer source _ amount => amount ≤ l.balance source
  | .transferFrom _ source _ amount => amount ≤ l.balance source
  | .burn source amount => amount + amount ≤ l.balance source
  | .burnFrom _ source amount => amount + amount ≤ l.balance source
  | _ => True

/-- The ledger after an amount of one account was burned. -/
def Ledger.burned (source : Address) (amount : ℤ) : Ledger Address :=
  { l with
    balance := credit (credit l.balance source (-amount)) source (-amount)
    totalSupply := l.totalSupply - amount }

/-- What a call makes of the ledger. -/
def Call.post : Call Address → Ledger Address
  | .initializeToken _ _ _ _ maxSupply => { l with maxSupply := some maxSupply }
  | .mint destination amount =>
    { l with
      balance := credit l.balance destination amount
      totalSupply := l.totalSupply + amount }
  | .transfer source destination amount =>
    { l with balance := move l.balance source destination amount }
  | .transferFrom _ source destination amount =>
    { l with balance := move l.balance source destination amount }
  | .burn source amount => l.burned source amount
  | .burnFrom _ source amount => l.burned source amount
  | _ => l

end Posting

section Returns

variable {s t : State Address} {r : Unit} {amount z : ℤ}

theorem returns_plain :
    Returns (plain amount : Body Address ℤ) s z t ↔
      (IntType.i128.Fits amount ∧ amount = z) ∧ s = t := by
  simp [plain]

theorem returns_plain_bind {α : Type} {f : ℤ → Body Address α} {v : α} :
    Returns (plain amount >>= f) s v t ↔
      IntType.i128.Fits amount ∧ Returns (f amount) s v t := by
  rw [returns_bind_of_reads fun z t => returns_plain]
  simp

theorem returns_requireNotPaused {operation : UInt32} :
    Returns (requireNotPaused operation : Body Address Unit) s r t ↔
      EmergencyGuard.isPaused s.guard operation = false ∧ s = t := by
  simp only [requireNotPaused, returns_get_bind, returns_require, Bool.not_eq_true]

theorem returns_requireNotPaused_bind {α : Type} {operation : UInt32} {f : Unit → Body Address α}
    {v : α} :
    Returns (requireNotPaused operation >>= f) s v t ↔
      EmergencyGuard.isPaused s.guard operation = false ∧ Returns (f ()) s v t :=
  returns_bind_of_checks fun _ _ => returns_requireNotPaused

theorem returns_writeTotalSupply :
    Returns (writeTotalSupply amount : Body Address Unit) s r t ↔
      t = { s with totalSupply := amount } := by
  simp [writeTotalSupply, eq_comm]

/-- A function of the guard writes nothing but the entries of the guard. -/
theorem ledger_of_guarded {x : EmergencyGuard.Body Address Unit} (h : Returns (guarded x) s r t) :
    t.ledger = s.ledger := by
  obtain ⟨u, -, rfl⟩ := returns_zoom.mp h
  rfl

theorem ledger_of_expect {reason : String} {x : EmergencyGuard.Body Address Unit}
    (h : Returns (expect reason x) s r t) : t.ledger = s.ledger := by
  have hguarded : Returns (guarded x) s r t := by
    unfold Returns at h ⊢
    change (expect reason x) s = _ at h
    unfold expect at h
    split at h
    next heq => rw [heq, h]
    · cases h
  exact ledger_of_guarded hguarded

variable [DecidableEq Address] {env : Env Address} {addr source spender : Address}

omit [DecidableEq Address] in
theorem returns_requireAuth_bind {α : Type} {f : Unit → Body Address α} {v : α} :
    Returns (requireAuth env addr >>= f) s v t ↔ env.auth addr = true ∧ Returns (f ()) s v t :=
  returns_require_bind

theorem returns_receiveBalance :
    Returns (receiveBalance addr amount) s r t ↔
      IntType.i128.Fits (s.balance addr + amount) ∧
        t = { s with balance := credit s.balance addr amount } := by
  simp only [receiveBalance, writeBalance, returns_get_bind, returns_plain_bind, returns_set,
    credit, eq_comm (a := t)]

theorem returns_spendBalance :
    Returns (spendBalance addr amount) s r t ↔
      (amount ≤ s.balance addr ∧ IntType.i128.Fits (s.balance addr - amount)) ∧
        t = { s with balance := credit s.balance addr (-amount) } := by
  simp only [spendBalance, writeBalance, returns_get_bind, returns_require_bind,
    returns_plain_bind, returns_set, not_lt, credit, sub_eq_add_neg, and_assoc, eq_comm (a := t)]

theorem returns_receiveBalance_bind {α : Type} {f : Unit → Body Address α} {v : α} :
    Returns (receiveBalance addr amount >>= f) s v t ↔
      IntType.i128.Fits (s.balance addr + amount) ∧
        Returns (f ()) { s with balance := credit s.balance addr amount } v t :=
  returns_bind_of_writes fun _ _ => returns_receiveBalance

theorem returns_spendBalance_bind {α : Type} {f : Unit → Body Address α} {v : α} :
    Returns (spendBalance addr amount >>= f) s v t ↔
      (amount ≤ s.balance addr ∧ IntType.i128.Fits (s.balance addr - amount)) ∧
        Returns (f ()) { s with balance := credit s.balance addr (-amount) } v t :=
  returns_bind_of_writes fun _ _ => returns_spendBalance

/-- An allowance is spent without a change of the ledger. -/
theorem ledger_of_writeAllowance {expirationLedger : ℕ}
    (h : Returns (writeAllowance source spender amount expirationLedger) s r t) :
    t.ledger = s.ledger := by
  simp only [writeAllowance, returns_get_bind, returns_set] at h
  obtain rfl := h
  rfl

theorem ledger_of_spendAllowance (h : Returns (spendAllowance env source spender amount) s r t) :
    t.ledger = s.ledger := by
  simp only [spendAllowance, returns_get_bind, returns_require_bind, returns_plain_bind] at h
  exact ledger_of_writeAllowance h.2.2.2

omit [DecidableEq Address] in
theorem ledger_of_reduceSupply (h : Returns (reduceSupply amount : Body Address Unit) s r t) :
    t.ledger = { s.ledger with totalSupply := s.totalSupply - amount } := by
  simp only [reduceSupply, returns_get_bind, returns_plain_bind, returns_writeTotalSupply] at h
  obtain ⟨-, rfl⟩ := h
  rfl

/-- **What a call writes**: one that returns has found its amounts covered, and has posted them. -/
theorem post_of_returns {call : Call Address} (h : Returns (entryPoint env call) s r t) :
    call.Covered s.ledger ∧ t.ledger = call.post s.ledger := by
  cases call with
  | initializeToken admin decimals name symbol maxSupply =>
    simp only [entryPoint, initializeToken, returns_get_bind, returns_require_bind,
      returns_set_bind] at h
    obtain ⟨-, u, w, hguard, h⟩ := h.imp_right returns_bind.mp
    simp only [returns_get_bind, returns_set] at h
    have hledger := ledger_of_expect hguard
    rw [← h, Call.post]
    exact ⟨trivial, congrArg (fun l : Ledger Address => { l with maxSupply := some maxSupply })
      hledger⟩
  | mint destination amount =>
    simp only [entryPoint, mint, readAdministrator, returns_requireNotPaused_bind, bind_assoc,
      returns_get_bind, returns_orFault_bind, returns_requireAuth_bind, returns_require_bind,
      returns_receiveBalance_bind, returns_plain_bind, returns_writeTotalSupply] at h
    obtain ⟨-, admin, -, -, maxSupply, hmax, hcap, -, -, rfl⟩ := h
    rw [not_or, not_lt] at hcap
    exact ⟨⟨maxSupply, hmax, hcap.2⟩, rfl⟩
  | setAdmin newAdmin =>
    simp only [entryPoint, setAdmin, readAdministrator, bind_assoc, returns_get_bind,
      returns_orFault_bind, returns_requireAuth_bind] at h
    obtain ⟨admin, -, -, h⟩ := h
    obtain ⟨_, u, hadd, h⟩ := returns_bind.mp h
    obtain ⟨_, w, hremove, h⟩ := returns_bind.mp h
    simp only [returns_get_bind, returns_set] at h
    obtain rfl := h
    exact ⟨trivial, (ledger_of_expect hremove).trans (ledger_of_expect hadd)⟩
  | guardPause admin operation paused => exact ⟨trivial, ledger_of_guarded h⟩
  | emergencyPause approvers => exact ⟨trivial, ledger_of_guarded h⟩
  | guardResume approvers => exact ⟨trivial, ledger_of_guarded h⟩
  | guardAddAdmin approvers newAdmin => exact ⟨trivial, ledger_of_guarded h⟩
  | guardRemoveAdmin approvers admin => exact ⟨trivial, ledger_of_guarded h⟩
  | approve source spender amount expirationLedger =>
    simp only [entryPoint, approve, returns_requireAuth_bind] at h
    exact ⟨trivial, ledger_of_writeAllowance h.2⟩
  | transfer source destination amount =>
    simp only [entryPoint, transfer, returns_requireNotPaused_bind, returns_requireAuth_bind,
      returns_spendBalance_bind, returns_receiveBalance] at h
    obtain ⟨-, -, ⟨hcovered, -⟩, -, rfl⟩ := h
    exact ⟨hcovered, rfl⟩
  | transferFrom spender source destination amount =>
    simp only [entryPoint, transferFrom, returns_requireNotPaused_bind,
      returns_requireAuth_bind] at h
    obtain ⟨_, u, hallowance, h⟩ := returns_bind.mp h.2.2
    simp only [returns_spendBalance_bind, returns_receiveBalance] at h
    obtain ⟨⟨hcovered, -⟩, -, rfl⟩ := h
    rw [← ledger_of_spendAllowance hallowance]
    exact ⟨hcovered, rfl⟩
  | burn source amount =>
    simp only [entryPoint, burn, returns_requireNotPaused_bind, returns_requireAuth_bind,
      returns_spendBalance_bind] at h
    obtain ⟨-, -, -, ⟨hcovered, -⟩, h⟩ := h
    refine ⟨?_, ledger_of_reduceSupply h⟩
    have hbalance : amount ≤ s.balance source + -amount := by simpa using hcovered
    show amount + amount ≤ s.balance source
    linarith
  | burnFrom spender source amount =>
    simp only [entryPoint, burnFrom, returns_requireNotPaused_bind, returns_requireAuth_bind] at h
    obtain ⟨_, u, hfirst, h⟩ := returns_bind.mp h.2.2
    rw [returns_spendBalance_bind] at h
    obtain ⟨_, w, hsecond, h⟩ := returns_bind.mp h.2
    rw [returns_spendBalance_bind] at h
    obtain ⟨⟨hcovered, -⟩, h⟩ := h
    -- the second allowance is spent from the ledger with the balance spent once
    have hw := ledger_of_spendAllowance hsecond
    have hbalance : w.balance = credit u.balance source (-amount) :=
      congrArg Ledger.balance hw
    rw [← ledger_of_spendAllowance hfirst]
    refine ⟨?_, ?_⟩
    · rw [hbalance, credit_self] at hcovered
      show amount + amount ≤ u.balance source
      linarith
    · have htotal : w.totalSupply = u.totalSupply := congrArg Ledger.totalSupply hw
      have hmax : w.maxSupply = u.maxSupply := congrArg Ledger.maxSupply hw
      rw [ledger_of_reduceSupply h]
      simp only [State.ledger, hbalance, htotal, hmax]
      rfl

end Returns

end TokenContract
