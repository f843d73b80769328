import SkyMoonScope.Lib.Accounts

/-!
# Token contracts

What other contracts use of token contracts: a transfer of an amount between two holders, and the
balance of a holder. The storage of all token contracts together is a type of states, and the
address of a token contract says which token is meant. A token that keeps to the interface moves
amounts that are not negative between balances that are not negative.

## Main definitions

* `TokenInterface`: the functions of the token contracts
* `Conforming`: they do what the interface says
* `Standard`: they also accept every transfer that is covered
* `Balances`: a record of balances, with transfers that conform

## Main results

* `Conforming.le_balance`: no balance but the source's becomes less by a transfer
* `conforming_balances`, `standard_balances`: the record of balances conforms, and is standard
-/

namespace Soroban

open Accounts

/-- The functions of the token contracts on their storage. The first address is the token. A
transfer that the token refuses has no result. -/
structure TokenInterface (Address Tokens : Type) where
  balance : Address → Tokens → Address → ℤ
  transfer : Address → Address → Address → ℤ → Tokens → Option Tokens

variable {Address Tokens : Type} [DecidableEq Address]

/-- The token contracts keep to their interface: no balance is negative, and a transfer that returns
has moved an amount that is not negative between two balances of that token. -/
structure Conforming (tokens : TokenInterface Address Tokens) : Prop where
  balance_nonneg : ∀ token s holder, 0 ≤ tokens.balance token s holder
  transfer_nonneg : ∀ {token source destination amount s t},
    tokens.transfer token source destination amount s = some t → 0 ≤ amount
  balance_transfer : ∀ {token source destination amount s t},
    tokens.transfer token source destination amount s = some t →
      tokens.balance token t = move (tokens.balance token s) source destination amount
  balance_transfer_of_ne : ∀ {token other source destination amount s t},
    tokens.transfer token source destination amount s = some t → other ≠ token →
      tokens.balance other t = tokens.balance other s

/-- A token that accepts just the transfers of an amount that the balance of the source covers. -/
structure Standard (tokens : TokenInterface Address Tokens) : Prop extends Conforming tokens where
  exists_transfer_iff : ∀ {token source destination amount s},
    (∃ t, tokens.transfer token source destination amount s = some t) ↔
      0 ≤ amount ∧ amount ≤ tokens.balance token s source

/-- A transfer lowers no balance but that of its source. -/
theorem Conforming.le_balance {tokens : TokenInterface Address Tokens} (h : Conforming tokens)
    {token source destination : Address} {amount : ℤ} {s t : Tokens}
    (ht : tokens.transfer token source destination amount s = some t) {holder : Address}
    (hne : holder ≠ source) (other : Address) :
    tokens.balance other s holder ≤ tokens.balance other t holder := by
  by_cases hother : other = token
  · subst hother
    rw [h.balance_transfer ht]
    exact le_move hne (h.transfer_nonneg ht)
  · rw [h.balance_transfer_of_ne ht hother]

/-! ## A record of balances -/

/-- The balances of all holders in all tokens, none of them negative. -/
def Balances (Address : Type) : Type :=
  { b : Address → Address → ℤ // ∀ token holder, 0 ≤ b token holder }

namespace Balances

/-- Everybody holds the same amount of every token. -/
def constant (Address : Type) (n : ℕ) : Balances Address :=
  ⟨fun _ _ => n, fun _ _ => Int.natCast_nonneg n⟩

/-- A transfer of an amount that the balance of the source covers. -/
def transfer (token source destination : Address) (amount : ℤ) (b : Balances Address) :
    Option (Balances Address) :=
  if h : 0 ≤ amount ∧ amount ≤ b.1 token source then
    some ⟨Function.update b.1 token (move (b.1 token) source destination amount), by
      intro other holder
      by_cases hother : other = token
      · subst hother
        rw [Function.update_self]
        by_cases hsource : source = destination
        · rw [hsource, move_self]
          exact b.2 other holder
        · apply (move_nonneg_iff (b.2 other) hsource).mpr
          exact ⟨sub_nonneg.mpr h.2, add_nonneg (b.2 other destination) h.1⟩
      · rw [Function.update_of_ne hother]
        exact b.2 other holder⟩
  else none

/-- The token contracts whose storage is the record of balances. -/
def interface (Address : Type) [DecidableEq Address] :
    TokenInterface Address (Balances Address) where
  balance := fun token b holder => b.1 token holder
  transfer := transfer

/-- What a transfer that returns has written. -/
theorem transfer_eq_some {token source destination : Address} {amount : ℤ}
    {b c : Balances Address} (h : transfer token source destination amount b = some c) :
    0 ≤ amount ∧
      c.1 = Function.update b.1 token (move (b.1 token) source destination amount) := by
  unfold transfer at h
  split at h
  next hamount =>
    obtain rfl := Option.some.inj h
    exact ⟨hamount.1, rfl⟩
  · cases h

/-- A transfer returns just when the balance of the source covers it. -/
theorem exists_transfer_iff {token source destination : Address} {amount : ℤ}
    {b : Balances Address} : (∃ c, transfer token source destination amount b = some c) ↔
      0 ≤ amount ∧ amount ≤ b.1 token source := by
  unfold transfer
  split
  next hamount => exact ⟨fun _ => hamount, fun _ => ⟨_, rfl⟩⟩
  next hamount => exact ⟨fun ⟨c, hc⟩ => (by cases hc), fun h => absurd h hamount⟩

end Balances

theorem conforming_balances : Conforming (Balances.interface Address) where
  balance_nonneg := fun token b holder => b.2 token holder
  transfer_nonneg := fun h => (Balances.transfer_eq_some h).1
  balance_transfer := by
    intro token source destination amount b c h
    show c.1 token = _
    rw [(Balances.transfer_eq_some h).2, Function.update_self]
    rfl
  balance_transfer_of_ne := by
    intro token other source destination amount b c h hother
    show c.1 other = b.1 other
    rw [(Balances.transfer_eq_some h).2, Function.update_of_ne hother]

theorem standard_balances : Standard (Balances.interface Address) where
  toConforming := conforming_balances
  exists_transfer_iff := Balances.exists_transfer_iff

end Soroban
