import SkyMoonScope.Soroban.Calls
import Mathlib.Algebra.Order.Ring.Int
import Mathlib.Logic.Function.Basic

/-!
# The soulbound token

The contract of `contracts/soulbound_token/src`: an issuer gives badges with a text on them, of
which nobody holds more than one, and no holder passes one on. A badge is a balance of one and an
entry for its text; an abstract registry has just the texts of the badges by their holders, and the
contract refines it. The lifetime of the storage is left out. The balances stay at zero and one, so
that no operator overflows.

## Main definitions

* `State`: the entries of the contract
* `receiveBalance`, `spendBalance`, …: the helpers that the entry points share
* `Call`, `entryPoint`: a call of the contract, and its body
* `Badges`: the abstract registry, with `Badges.Enabled` and `Badges.next`
* `Matches b s`: the storage has the badges of the registry
* `badges ls`: the registry after some calls

## Main results

* `returns_entryPoint`: a call returns just when the registry lets it
* `badges_of_run`: after any run the contract answers from the registry
* `badge_kept_or_burned`: without the admin, a holder loses a badge only by giving it up
-/

namespace SoulboundToken

open Soroban Machine Function

inductive Error
  | alreadyInitialized
  | notInitialized
  | unauthorized
  | alreadyMinted
  | tokenNotFound
  | nonTransferable
deriving DecidableEq

/-- The entries of the contract, by the keys of `DataKey`. -/
structure State (Address : Type) where
  admin : Option Address
  decimals : Option ℕ
  name : Option String
  symbol : Option String
  balance : Address → Option ℤ
  identityMetadata : Address → Option String

/-- The storage before the first call. -/
def State.initial (Address : Type) : State Address where
  admin := none
  decimals := none
  name := none
  symbol := none
  balance := fun _ => none
  identityMetadata := fun _ => none

variable {Address : Type}

abbrev Body (Address α : Type) := Contract (State Address) Error α

/-! ## Helpers -/

def readBalance (s : State Address) (addr : Address) : ℤ := (s.balance addr).getD 0

def readIdentityMetadata (s : State Address) (owner : Address) : String :=
  (s.identityMetadata owner).getD ""

def requireAuth (auth : Address → Bool) (addr : Address) : Body Address Unit :=
  require (auth addr) (.trap "Error(Auth, InvalidAction)")

/-- The first lines of the entry points of the issuer. -/
def requireAdmin (auth : Address → Bool) : Body Address Unit := do
  let s ← get
  let admin ← orFault s.admin (.trap "called `Option::unwrap()` on a `None` value")
  requireAuth auth admin

section Helpers

variable [DecidableEq Address]

def receiveBalance (addr : Address) (amount : ℤ) : Body Address Unit := do
  let s ← get
  let balance := readBalance s addr
  require (¬balance + amount > 1) (.trap "cannot hold more than one soulbound token")
  set { s with balance := update s.balance addr (some (balance + amount)) }

def spendBalance (addr : Address) (amount : ℤ) : Body Address Unit := do
  let s ← get
  let balance := readBalance s addr
  require (¬balance < amount) (.trap "insufficient balance")
  set { s with balance := update s.balance addr (some (balance - amount)) }

def writeIdentityMetadata (owner : Address) (metadata : String) : Body Address Unit := do
  let s ← get
  set { s with identityMetadata := update s.identityMetadata owner (some metadata) }

def removeIdentityMetadata (owner : Address) : Body Address Unit := do
  let s ← get
  set { s with identityMetadata := update s.identityMetadata owner none }

end Helpers

/-! ## Entry points -/

/-- `initialize`. It asks for nobody's authorization. -/
def initializeToken (admin : Address) (decimal : ℕ) (name symbol : String) :
    Body Address Unit := do
  let s ← get
  require s.admin.isNone (.trap "already initialized")
  set { s with
    admin := some admin
    decimals := some decimal
    name := some name
    symbol := some symbol }

def setAdmin (auth : Address → Bool) (newAdmin : Address) : Body Address Unit := do
  requireAdmin auth
  let s ← get
  set { s with admin := some newAdmin }

section EntryPoints

variable [DecidableEq Address] (auth : Address → Bool)

def mintIdentity (recipient : Address) (metadata : String) : Body Address Unit := do
  requireAdmin auth
  receiveBalance recipient 1
  writeIdentityMetadata recipient metadata

/-- A badge with no text. -/
def mint (recipient : Address) : Body Address Unit := do
  requireAdmin auth
  receiveBalance recipient 1
  writeIdentityMetadata recipient ""

def burn (holder : Address) : Body Address Unit := do
  requireAuth auth holder
  spendBalance holder 1
  removeIdentityMetadata holder

def adminTransfer (holder recipient : Address) : Body Address Unit := do
  requireAdmin auth
  let s ← get
  let metadata := readIdentityMetadata s holder
  spendBalance holder 1
  removeIdentityMetadata holder
  receiveBalance recipient 1
  writeIdentityMetadata recipient metadata

def revoke (holder : Address) : Body Address Unit := do
  requireAdmin auth
  let s ← get
  require (¬readBalance s holder = 0) (.trap "no token to revoke")
  spendBalance holder 1
  removeIdentityMetadata holder

def updateMetadata (holder : Address) (metadata : String) : Body Address Unit := do
  requireAdmin auth
  let s ← get
  require (¬readBalance s holder = 0) (.trap "no token to update")
  writeIdentityMetadata holder metadata

end EntryPoints

inductive Call (Address : Type)
  | initializeToken (admin : Address) (decimal : ℕ) (name symbol : String)
  | mint (recipient : Address)
  | mintIdentity (recipient : Address) (metadata : String)
  | setAdmin (newAdmin : Address)
  | transfer (holder recipient : Address) (amount : ℤ)
  | transferFrom (spender holder recipient : Address) (amount : ℤ)
  | burn (holder : Address)
  | adminTransfer (holder recipient : Address)
  | revoke (holder : Address)
  | updateMetadata (holder : Address) (metadata : String)

/-- The body of the called entry point. The two that a standard token has for transfers always
fail. -/
def entryPoint [DecidableEq Address] (auth : Address → Bool) : Call Address → Body Address Unit
  | .initializeToken admin decimal name symbol => initializeToken admin decimal name symbol
  | .mint recipient => mint auth recipient
  | .mintIdentity recipient metadata => mintIdentity auth recipient metadata
  | .setAdmin newAdmin => setAdmin auth newAdmin
  | .transfer _ _ _ => throw (.error .nonTransferable)
  | .transferFrom _ _ _ _ => throw (.error .nonTransferable)
  | .burn holder => burn auth holder
  | .adminTransfer holder recipient => adminTransfer auth holder recipient
  | .revoke holder => revoke auth holder
  | .updateMetadata holder metadata => updateMetadata auth holder metadata

/-- A call of the contract with what it returned. -/
abbrev Event (Address : Type) := Soroban.Event (Address → Bool) (Call Address) Error Unit

/-! ## The registry of badges -/

/-- The texts of the badges, by their holders. -/
abbrev Badges (Address : Type) := Address → Option String

/-- There is an admin, who has authorized the call. -/
def Signed (auth : Address → Bool) (admin : Option Address) : Prop :=
  ∃ a, admin = some a ∧ auth a = true

namespace Badges

variable [DecidableEq Address]

/-- What the registry lets a call do: the issuer gives, moves and takes badges, and holders give up
their own. -/
def Enabled (auth : Address → Bool) (admin : Option Address) (b : Badges Address) :
    Call Address → Prop
  | .initializeToken _ _ _ _ => admin = none
  | .mint recipient => Signed auth admin ∧ b recipient = none
  | .mintIdentity recipient _ => Signed auth admin ∧ b recipient = none
  | .setAdmin _ => Signed auth admin
  | .transfer _ _ _ => False
  | .transferFrom _ _ _ _ => False
  | .burn holder => auth holder = true ∧ b holder ≠ none
  | .adminTransfer holder recipient =>
    Signed auth admin ∧ b holder ≠ none ∧ update b holder none recipient = none
  | .revoke holder => Signed auth admin ∧ b holder ≠ none
  | .updateMetadata holder _ => Signed auth admin ∧ b holder ≠ none

/-- The registry after the call. -/
def next (b : Badges Address) : Call Address → Badges Address
  | .mint recipient => update b recipient (some "")
  | .mintIdentity recipient metadata => update b recipient (some metadata)
  | .burn holder => update b holder none
  | .adminTransfer holder recipient => update (update b holder none) recipient (b holder)
  | .revoke holder => update b holder none
  | .updateMetadata holder metadata => update b holder (some metadata)
  | _ => b

end Badges

/-- The storage has the badges of the registry. -/
structure Matches (b : Badges Address) (s : State Address) : Prop where
  balance_eq : ∀ a, readBalance s a = if (b a).isSome then 1 else 0
  metadata_eq : s.identityMetadata = b

/-- The registry after some calls, of which those that failed have done nothing. -/
def badges [DecidableEq Address] (ls : List (Event Address)) : Badges Address :=
  ls.foldl (fun b l => if l.result.isOk then b.next l.call else b) fun _ => none

/-! ## The contract refines the registry -/

section Spec

variable {auth : Address → Bool} {b : Badges Address} {s t : State Address} {r : Unit}

theorem returns_requireAdmin_bind {f : Unit → Body Address Unit} :
    Returns (requireAdmin auth >>= f) s r t ↔ Signed auth s.admin ∧ Returns (f ()) s r t := by
  simp only [requireAdmin, requireAuth, bind_assoc, returns_get_bind, returns_orFault_bind,
    returns_require_bind]
  constructor
  · rintro ⟨admin, hadmin, hauth, h⟩
    exact ⟨⟨admin, hadmin, hauth⟩, h⟩
  · rintro ⟨⟨admin, hadmin, hauth⟩, h⟩
    exact ⟨admin, hadmin, hauth, h⟩

namespace Matches

theorem balance_le_zero_iff (h : Matches b s) {a : Address} : readBalance s a ≤ 0 ↔ b a = none := by
  rw [h.balance_eq]
  cases b a <;> simp

theorem one_le_balance_iff (h : Matches b s) {a : Address} : 1 ≤ readBalance s a ↔ b a ≠ none := by
  rw [h.balance_eq]
  cases b a <;> simp

theorem balance_eq_zero_iff (h : Matches b s) {a : Address} : readBalance s a = 0 ↔ b a = none := by
  rw [h.balance_eq]
  cases b a <;> simp

theorem balance_eq_one (h : Matches b s) {a : Address} (ha : b a ≠ none) : readBalance s a = 1 := by
  rw [h.balance_eq, if_pos (Option.isSome_iff_ne_none.mpr ha)]

theorem metadata_getD (h : Matches b s) (a : Address) :
    readIdentityMetadata s a = (b a).getD "" := by
  rw [readIdentityMetadata, h.metadata_eq]

end Matches

variable [DecidableEq Address] {a : Address} {metadata : String}

/-- The storage after a badge has been given. -/
def give (s : State Address) (a : Address) (metadata : String) : State Address :=
  { s with
    balance := update s.balance a (some (readBalance s a + 1))
    identityMetadata := update s.identityMetadata a (some metadata) }

/-- The storage after a badge has been taken. -/
def take (s : State Address) (a : Address) : State Address :=
  { s with
    balance := update s.balance a (some (readBalance s a - 1))
    identityMetadata := update s.identityMetadata a none }

theorem returns_give :
    Returns (receiveBalance a 1 >>= fun _ => writeIdentityMetadata a metadata) s r t ↔
      readBalance s a ≤ 0 ∧ t = give s a metadata := by
  simp only [receiveBalance, writeIdentityMetadata, bind_assoc, returns_get_bind,
    returns_require_bind, returns_set_bind, returns_set]
  constructor
  · rintro ⟨hle, rfl⟩
    exact ⟨by omega, rfl⟩
  · rintro ⟨hle, rfl⟩
    exact ⟨by omega, rfl⟩

theorem returns_take_bind {f : Unit → Body Address Unit} :
    Returns (spendBalance a 1 >>= fun _ => removeIdentityMetadata a >>= f) s r t ↔
      1 ≤ readBalance s a ∧ Returns (f ()) (take s a) r t := by
  simp only [spendBalance, removeIdentityMetadata, bind_assoc, returns_get_bind,
    returns_require_bind, returns_set_bind, not_lt]
  rfl

theorem returns_take :
    Returns (spendBalance a 1 >>= fun _ => removeIdentityMetadata a) s r t ↔
      1 ≤ readBalance s a ∧ t = take s a := by
  simp only [spendBalance, removeIdentityMetadata, bind_assoc, returns_get_bind,
    returns_require_bind, returns_set_bind, returns_set, not_lt, eq_comm (a := t)]
  rfl

/-- A badge given to somebody who has none is one more badge of the registry. -/
theorem Matches.give (h : Matches b s) (ha : b a = none) :
    Matches (update b a (some metadata)) (give s a metadata) where
  balance_eq := by
    intro c
    by_cases hc : c = a
    · rw [hc, update_self]
      show (update s.balance a (some (readBalance s a + 1)) a).getD 0 = 1
      rw [update_self, h.balance_eq_zero_iff.mpr ha]
      rfl
    · have hold := h.balance_eq c
      simpa [hc, readBalance, SoulboundToken.give] using hold
  metadata_eq := by rw [SoulboundToken.give, h.metadata_eq]

/-- A badge that is taken is one badge less. -/
theorem Matches.take (h : Matches b s) (ha : b a ≠ none) :
    Matches (update b a none) (take s a) where
  balance_eq := by
    intro c
    by_cases hc : c = a
    · rw [hc, update_self]
      show (update s.balance a (some (readBalance s a - 1)) a).getD 0 = 0
      rw [update_self, h.balance_eq_one ha]
      rfl
    · have hold := h.balance_eq c
      simpa [hc, readBalance, SoulboundToken.take] using hold
  metadata_eq := by rw [SoulboundToken.take, h.metadata_eq]

/-- The storage after a call that returns. -/
def after (s : State Address) : Call Address → State Address
  | .initializeToken admin decimal name symbol =>
    { s with
      admin := some admin
      decimals := some decimal
      name := some name
      symbol := some symbol }
  | .mint recipient => give s recipient ""
  | .mintIdentity recipient metadata => give s recipient metadata
  | .setAdmin newAdmin => { s with admin := some newAdmin }
  | .burn holder => take s holder
  | .adminTransfer holder recipient =>
    give (take s holder) recipient (readIdentityMetadata s holder)
  | .revoke holder => take s holder
  | .updateMetadata holder metadata =>
    { s with identityMetadata := update s.identityMetadata holder (some metadata) }
  | _ => s

variable {call : Call Address}

/-- **A call returns just when the registry lets it**, and then it leaves this storage. -/
theorem returns_entryPoint (h : Matches b s) :
    Returns (entryPoint auth call) s r t ↔ b.Enabled auth s.admin call ∧ t = after s call := by
  cases call with
  | initializeToken admin decimal name symbol =>
    simp only [entryPoint, initializeToken, returns_get_bind, returns_require_bind, returns_set,
      Option.isNone_iff_eq_none, Badges.Enabled, after, eq_comm (a := t)]
  | mint recipient =>
    simp only [entryPoint, mint, returns_requireAdmin_bind, returns_give, Badges.Enabled, after,
      h.balance_le_zero_iff, and_assoc]
  | mintIdentity recipient metadata =>
    simp only [entryPoint, mintIdentity, returns_requireAdmin_bind, returns_give, Badges.Enabled,
      after, h.balance_le_zero_iff, and_assoc]
  | setAdmin newAdmin =>
    simp only [entryPoint, setAdmin, returns_requireAdmin_bind, returns_get_bind, returns_set,
      Badges.Enabled, after, eq_comm (a := t)]
  | transfer holder recipient amount =>
    simp only [entryPoint, not_returns_throw, Badges.Enabled, false_and]
  | transferFrom spender holder recipient amount =>
    simp only [entryPoint, not_returns_throw, Badges.Enabled, false_and]
  | burn holder =>
    simp only [entryPoint, burn, requireAuth, returns_require_bind, returns_take, Badges.Enabled,
      after, h.one_le_balance_iff, and_assoc]
  | adminTransfer holder recipient =>
    simp only [entryPoint, adminTransfer, returns_requireAdmin_bind, returns_get_bind,
      returns_take_bind, returns_give, Badges.Enabled, after, h.one_le_balance_iff]
    constructor
    · rintro ⟨hsigned, hholder, hle, rfl⟩
      exact ⟨⟨hsigned, hholder, (h.take hholder).balance_le_zero_iff.mp hle⟩, rfl⟩
    · rintro ⟨⟨hsigned, hholder, hnone⟩, rfl⟩
      exact ⟨hsigned, hholder, (h.take hholder).balance_le_zero_iff.mpr hnone, rfl⟩
  | revoke holder =>
    simp only [entryPoint, revoke, returns_requireAdmin_bind, returns_get_bind,
      returns_require_bind, returns_take, Badges.Enabled, after, h.one_le_balance_iff,
      h.balance_eq_zero_iff]
    constructor
    · rintro ⟨hsigned, -, hholder, rfl⟩
      exact ⟨⟨hsigned, hholder⟩, rfl⟩
    · rintro ⟨⟨hsigned, hholder⟩, rfl⟩
      exact ⟨hsigned, hholder, hholder, rfl⟩
  | updateMetadata holder metadata =>
    simp only [entryPoint, updateMetadata, writeIdentityMetadata, returns_requireAdmin_bind,
      returns_get_bind, returns_require_bind, returns_set, Badges.Enabled, after,
      h.balance_eq_zero_iff, and_assoc, eq_comm (a := t)]

/-- What the registry lets a call do, the call does to the storage. -/
theorem Matches.after (h : Matches b s) (henabled : b.Enabled auth s.admin call) :
    Matches (b.next call) (after s call) := by
  cases call with
  | initializeToken admin decimal name symbol => exact ⟨h.balance_eq, h.metadata_eq⟩
  | mint recipient => exact h.give henabled.2
  | mintIdentity recipient metadata => exact h.give henabled.2
  | setAdmin newAdmin => exact ⟨h.balance_eq, h.metadata_eq⟩
  | transfer holder recipient amount => exact h
  | transferFrom spender holder recipient amount => exact h
  | burn holder => exact h.take henabled.2
  | adminTransfer holder recipient =>
    obtain ⟨-, hholder, hrecipient⟩ := henabled
    obtain ⟨metadata, hmetadata⟩ := Option.ne_none_iff_exists'.mp hholder
    have hgiven : Matches (update (update b holder none) recipient (some metadata))
        (SoulboundToken.give (SoulboundToken.take s holder) recipient metadata) :=
      (h.take hholder).give hrecipient
    rwa [SoulboundToken.after, Badges.next, h.metadata_getD, hmetadata, Option.getD_some]
  | revoke holder => exact h.take henabled.2
  | updateMetadata holder metadata =>
    obtain ⟨-, hholder⟩ := henabled
    refine ⟨fun c => ?_, by rw [SoulboundToken.after, h.metadata_eq]; rfl⟩
    show readBalance s c = _
    by_cases hc : c = holder
    · simpa [Badges.next, hc] using h.balance_eq_one hholder
    · simpa [Badges.next, hc] using h.balance_eq c

end Spec

/-! ## Runs -/

section Runs

variable [DecidableEq Address] {ls ms : List (Event Address)} {s t : State Address}
  {b : Badges Address}

theorem badges_concat (ls : List (Event Address)) (l : Event Address) :
    badges (ls ++ [l]) = if l.result.isOk then (badges ls).next l.call else badges ls := by
  rw [badges, List.foldl_append]
  rfl

/-- The storage has the badges of the calls that led to it. -/
theorem matches_of_run (h : Run (Step entryPoint) (State.initial Address) ls s) :
    Matches (badges ls) s := by
  refine history_of_returns (P := fun _ _ _ => True) (J := fun ks u => Matches (badges ks) u) ?_ ?_
    (run_unconditional h) ?_
  · intro ks auth call u v w hu hreturns _
    obtain ⟨henabled, rfl⟩ := (returns_entryPoint hu).mp hreturns
    rw [badges_concat]
    exact hu.after henabled
  · intro ks auth call u fault hu
    rw [badges_concat]
    exact hu
  · exact ⟨fun a => rfl, rfl⟩

/-- **The contract answers from the registry** after any run: a balance is one just for those who
hold a badge, its text is that of the badge, and the next call returns just when the registry lets
it. -/
theorem badges_of_run (h : Run (Step entryPoint) (State.initial Address) ls s) :
    (∀ a, readBalance s a = if (badges ls a).isSome then 1 else 0) ∧
      (∀ a, readIdentityMetadata s a = (badges ls a).getD "") ∧
      ∀ auth call, (∃ t, Step entryPoint s ⟨auth, call, .ok ()⟩ t) ↔
        (badges ls).Enabled auth s.admin call := by
  have hmatches := matches_of_run h
  refine ⟨hmatches.balance_eq, hmatches.metadata_getD, fun auth call => ?_⟩
  constructor
  · rintro ⟨t, ht⟩
    exact ((returns_entryPoint hmatches).mp (invoke_eq_ok.mp ht)).1
  · intro henabled
    exact ⟨_, invoke_eq_ok.mpr ((returns_entryPoint hmatches).mpr ⟨henabled, rfl⟩)⟩

/-- A call without the authorization of the admin takes the badge of its holder, if it returns. -/
theorem exists_burn_of_unsigned {auth : Address → Bool} {admin : Address} {call : Call Address}
    (hadmin : s.admin = some admin) (hunsigned : auth admin = false)
    (henabled : b.Enabled auth s.admin call) :
    ∃ holder, call = .burn holder ∧ auth holder = true ∧ b holder ≠ none := by
  have hnot : ¬Signed auth s.admin := by
    rintro ⟨a, ha, hauth⟩
    obtain rfl := Option.some.inj (ha.symm.trans hadmin)
    exact absurd hauth (Bool.eq_false_iff.mp hunsigned)
  cases call with
  | initializeToken _ _ _ _ => exact absurd (hadmin.symm.trans henabled) (Option.some_ne_none _)
  | mint _ => exact absurd henabled.1 hnot
  | mintIdentity _ _ => exact absurd henabled.1 hnot
  | setAdmin _ => exact absurd henabled hnot
  | transfer _ _ _ => exact henabled.elim
  | transferFrom _ _ _ _ => exact henabled.elim
  | burn holder => exact ⟨holder, rfl, henabled⟩
  | adminTransfer _ _ => exact absurd henabled.1 hnot
  | revoke _ => exact absurd henabled.1 hnot
  | updateMetadata _ _ => exact absurd henabled.1 hnot

/-- What a run without the authorization of the admin leaves of a badge. -/
theorem kept_or_burned {admin : Address} (hs : Matches b s) (hadmin : s.admin = some admin)
    (h : Run (Step entryPoint) s ms t) (hunsigned : ∀ l ∈ ms, l.host admin = false)
    (a : Address) :
    (readBalance t a = readBalance s a ∧ readIdentityMetadata t a = readIdentityMetadata s a) ∨
      (readBalance s a = 1 ∧ readBalance t a = 0 ∧ readIdentityMetadata t a = "" ∧
        ∃ l ∈ ms, l.call = .burn a ∧ l.host a = true ∧ l.result = .ok ()) := by
  induction h generalizing b with
  | nil => exact .inl ⟨rfl, rfl⟩
  | @cons s u t l ms hl _ ih =>
    have hrest : ∀ l ∈ ms, l.host admin = false :=
      fun l' hl' => hunsigned l' (List.mem_cons_of_mem _ hl')
    rcases hl.cases with ⟨r, hr, hreturns⟩ | ⟨-, rfl⟩
    · obtain ⟨henabled, rfl⟩ := (returns_entryPoint hs).mp hreturns
      obtain ⟨holder, hcall, hauth, hholder⟩ :=
        exists_burn_of_unsigned hadmin (hunsigned l List.mem_cons_self) henabled
      have hafter := hs.after henabled
      have hkept := ih hafter (by rw [hcall]; exact hadmin) hrest
      rw [hcall] at hafter hkept
      by_cases ha : a = holder
      · -- the badge was given up here, and there is none after that
        subst ha
        have hnone : Badges.next b (.burn a) a = none := update_self ..
        have hone := hs.balance_eq_one hholder
        have hzero := hafter.balance_eq_zero_iff.mpr hnone
        have htext := hafter.metadata_getD a
        rw [hnone, Option.getD_none] at htext
        rcases hkept with ⟨hbalance, hmetadata⟩ | ⟨hbalance, -⟩
        · exact .inr ⟨hone, hbalance.trans hzero, hmetadata.trans htext, l, List.mem_cons_self,
            hcall, hauth, hr⟩
        · rw [hzero] at hbalance
          cases hbalance
      · have hsame : readBalance (after s (.burn holder)) a = readBalance s a ∧
            readIdentityMetadata (after s (.burn holder)) a = readIdentityMetadata s a := by
          simp [after, take, readBalance, readIdentityMetadata, ha]
        rw [hsame.1, hsame.2] at hkept
        refine hkept.imp_right ?_
        rintro ⟨hone, hzero, htext, l', hl', hburned⟩
        exact ⟨hone, hzero, htext, l', List.mem_cons_of_mem _ hl', hburned⟩
    · refine (ih hs hadmin hrest).imp_right ?_
      rintro ⟨hone, hzero, htext, l', hl', hburned⟩
      exact ⟨hone, hzero, htext, l', List.mem_cons_of_mem _ hl', hburned⟩

/-- **Without the admin** a badge stays with its holder as it is, or the holder has given it up, in
any run from any reachable storage; so nobody comes by the badge of another. -/
theorem badge_kept_or_burned {admin : Address}
    (h : Run (Step entryPoint) (State.initial Address) ls s) (hadmin : s.admin = some admin)
    (h' : Run (Step entryPoint) s ms t) (hunsigned : ∀ l ∈ ms, l.host admin = false)
    (a : Address) :
    (readBalance t a = readBalance s a ∧ readIdentityMetadata t a = readIdentityMetadata s a) ∨
      (readBalance s a = 1 ∧ readBalance t a = 0 ∧ readIdentityMetadata t a = "" ∧
        ∃ l ∈ ms, l.call = .burn a ∧ l.host a = true ∧ l.result = .ok ()) :=
  kept_or_burned (matches_of_run h) hadmin h' hunsigned a

end Runs

/-! ## A badge that is given up -/

/-- Two badges that the admin `0` has given. -/
def issuedCalls : List ((ℕ → Bool) × Call ℕ) :=
  [(fun a => a == 0, .initializeToken 0 0 "Badge" "BDG"), (fun a => a == 0, .mint 1),
    (fun a => a == 0, .mintIdentity 2 "member")]

/-- The holder `1` tries to pass a badge on, and gives it up. -/
def burnCalls : List ((ℕ → Bool) × Call ℕ) :=
  [(fun a => a == 1, .transfer 1 3 1), (fun a => a == 1, .burn 1), (fun a => a == 1, .burn 2)]

theorem badges_of_run_issued :
    let ls := (execute entryPoint (State.initial ℕ) issuedCalls).1
    let s := (execute entryPoint (State.initial ℕ) issuedCalls).2
    (∀ a, readBalance s a = if (badges ls a).isSome then 1 else 0) ∧
      (∀ a, readIdentityMetadata s a = (badges ls a).getD "") ∧
      ∀ auth call, (∃ t, Step entryPoint s ⟨auth, call, .ok ()⟩ t) ↔
        (badges ls).Enabled auth s.admin call :=
  badges_of_run (run_execute entryPoint (State.initial ℕ) issuedCalls)

/-- The other badge stays, although its burning was tried. -/
theorem badge_kept_or_burned_issued :
    let s := (execute entryPoint (State.initial ℕ) issuedCalls).2
    let t := (execute entryPoint s burnCalls).2
    (readBalance t 2 = readBalance s 2 ∧ readIdentityMetadata t 2 = readIdentityMetadata s 2) ∨
      (readBalance s 2 = 1 ∧ readBalance t 2 = 0 ∧ readIdentityMetadata t 2 = "" ∧
        ∃ l ∈ (execute entryPoint s burnCalls).1,
          l.call = .burn 2 ∧ l.host 2 = true ∧ l.result = .ok ()) := by
  refine badge_kept_or_burned (run_execute entryPoint (State.initial ℕ) issuedCalls) rfl
    (run_execute entryPoint _ burnCalls) ?_ 2
  intro l hl
  have hhost : l.host ∈ burnCalls.map Prod.fst := by
    have hmap : (execute entryPoint (execute entryPoint (State.initial ℕ) issuedCalls).2
        burnCalls).1.map Event.host = burnCalls.map Prod.fst := rfl
    rw [← hmap]
    exact List.mem_map_of_mem hl
  simp only [burnCalls, List.map_cons, List.map_nil, List.mem_cons, List.not_mem_nil, or_false,
    or_self] at hhost
  rw [hhost]
  rfl

end SoulboundToken
