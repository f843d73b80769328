import SkyMoonScope.TokenContract.Operations

/-!
# The supply of the token

The supply is meant to be the total of the balances. A transfer moves an amount between two balances
and a mint adds it to one and to the supply, but a burn takes its amount from the balance twice and
from the supply once. No operation checks the sign of its amount, so that the account which receives
it may be left with less than nothing.

## Main definitions

* `Ledger.Sound`: the supply is the total of the balances, none of them negative, within its bound
* `Call.BurnsExactly`: a burn takes its amount once from one balance and once from the supply
* `Call.Meets`: no burn of an amount but zero, and no account that receives less than it can cover

## Main results

* `sound_post_iff`: a call keeps the ledger sound just when it meets the condition
* `supply_conserved_iff`: a run conserves the supply just when all its calls meet the condition
* `supply_not_conserved`: a burn of ten takes twenty
-/

namespace TokenContract

open Soroban Machine Accounts Function
open EmergencyGuard (GuardError)

variable {Address : Type}

/-- The supply is the total of the balances, which are not negative, and stays within its bound. -/
structure Ledger.Sound (l : Ledger Address) : Prop where
  finite : l.balance.HasFiniteSupport
  total : ∑ᶠ a, l.balance a = l.totalSupply
  nonneg : ∀ a, 0 ≤ l.balance a
  capped : ∀ maxSupply, l.maxSupply = some maxSupply → l.totalSupply ≤ maxSupply

variable [DecidableEq Address]

/-- A burn takes its amount from one balance and from the supply, and leaves the rest as it is. -/
def Call.BurnsExactly (l l' : Ledger Address) : Call Address → Prop
  | .burn source amount =>
    l' = { l with
      balance := credit l.balance source (-amount)
      totalSupply := l.totalSupply - amount }
  | .burnFrom _ source amount =>
    l' = { l with
      balance := credit l.balance source (-amount)
      totalSupply := l.totalSupply - amount }
  | _ => True

/-- The bound of an initialisation is not below the supply, the account that receives an amount can
cover it where it is negative, and a burn is of nothing. -/
def Call.Meets (l : Ledger Address) : Call Address → Prop
  | .initializeToken _ _ _ _ maxSupply => l.totalSupply ≤ maxSupply
  | .mint destination amount => 0 ≤ l.balance destination + amount
  | .transfer source destination amount => source = destination ∨ 0 ≤ l.balance destination + amount
  | .transferFrom _ source destination amount =>
    source = destination ∨ 0 ≤ l.balance destination + amount
  | .burn _ amount => amount = 0
  | .burnFrom _ _ amount => amount = 0
  | _ => True

section Post

variable {l : Ledger Address} {source destination : Address} {amount : ℤ}

omit [DecidableEq Address] in
theorem sound_initialize_iff (hl : l.Sound) {maxSupply : ℤ} :
    ({ l with maxSupply := some maxSupply } : Ledger Address).Sound ↔
      l.totalSupply ≤ maxSupply := by
  constructor
  · intro h
    exact h.capped maxSupply rfl
  · intro h
    refine ⟨hl.finite, hl.total, hl.nonneg, fun maxSupply' hmax => ?_⟩
    obtain rfl := Option.some.inj hmax
    exact h

theorem sound_mint_iff (hl : l.Sound)
    (hcap : ∃ maxSupply, l.maxSupply = some maxSupply ∧ l.totalSupply + amount ≤ maxSupply) :
    ({ l with
      balance := credit l.balance destination amount
      totalSupply := l.totalSupply + amount } : Ledger Address).Sound ↔
      0 ≤ l.balance destination + amount := by
  rw [← credit_nonneg_iff hl.nonneg]
  constructor
  · exact Ledger.Sound.nonneg
  · intro hnonneg
    refine ⟨hasFiniteSupport_credit hl.finite, ?_, hnonneg, fun maxSupply hmax => ?_⟩
    · rw [finsum_credit hl.finite, hl.total]
    · obtain ⟨maxSupply', hmax', hle⟩ := hcap
      obtain rfl := Option.some.inj (hmax'.symm.trans hmax)
      exact hle

theorem sound_transfer_iff (hl : l.Sound) (hcovered : amount ≤ l.balance source) :
    ({ l with balance := move l.balance source destination amount } : Ledger Address).Sound ↔
      source = destination ∨ 0 ≤ l.balance destination + amount := by
  have hmove : ({ l with balance := move l.balance source destination amount } :
      Ledger Address).Sound ↔ ∀ a, 0 ≤ move l.balance source destination amount a := by
    constructor
    · exact Ledger.Sound.nonneg
    · exact fun hnonneg => ⟨hasFiniteSupport_move hl.finite,
        (finsum_move hl.finite).trans hl.total, hnonneg, hl.capped⟩
  rw [hmove]
  by_cases heq : source = destination
  · subst heq
    rw [move_self]
    exact iff_of_true hl.nonneg (.inl rfl)
  · rw [move_nonneg_iff hl.nonneg heq]
    constructor
    · exact fun h => .inr h.2
    · exact fun h => ⟨sub_nonneg.mpr hcovered, h.resolve_left heq⟩

/-- A burn takes its amount twice, which is right for nothing alone. -/
theorem sound_burned_iff (hl : l.Sound) : (l.burned source amount).Sound ↔ amount = 0 := by
  constructor
  · intro h
    have htotal := h.total
    simp only [Ledger.burned] at htotal
    rw [finsum_credit (hasFiniteSupport_credit hl.finite), finsum_credit hl.finite, hl.total]
      at htotal
    linarith
  · rintro rfl
    have hsame : l.burned source 0 = l := by
      simp [Ledger.burned, credit]
    rwa [hsame]

/-- **One call**: from a sound ledger with the amounts covered, it is sound after the call and a
burn is exact just when the call meets the condition. -/
theorem sound_post_iff {call : Call Address} (hl : l.Sound) (hcovered : call.Covered l) :
    (call.post l).Sound ∧ call.BurnsExactly l (call.post l) ↔ call.Meets l := by
  have hburned : ∀ source amount, ((l.burned source amount).Sound ∧ l.burned source amount =
      { l with
        balance := credit l.balance source (-amount)
        totalSupply := l.totalSupply - amount }) ↔ amount = 0 := by
    intro source amount
    rw [sound_burned_iff hl]
    constructor
    · exact And.left
    · rintro rfl
      exact ⟨rfl, by simp [Ledger.burned, credit]⟩
  cases call with
  | initializeToken admin decimals name symbol maxSupply =>
    exact (and_iff_left trivial).trans (sound_initialize_iff hl)
  | mint destination amount => exact (and_iff_left trivial).trans (sound_mint_iff hl hcovered)
  | transfer source destination amount =>
    exact (and_iff_left trivial).trans (sound_transfer_iff hl hcovered)
  | transferFrom spender source destination amount =>
    exact (and_iff_left trivial).trans (sound_transfer_iff hl hcovered)
  | burn source amount => exact hburned source amount
  | burnFrom spender source amount => exact hburned source amount
  | _ => exact iff_of_true ⟨hl, trivial⟩ trivial

end Post

/-! ## Runs -/

abbrev Event (Address : Type) := Soroban.Event (Env Address) (Call Address) GuardError Unit

omit [DecidableEq Address] in
theorem sound_initial : (State.initial Address).ledger.Sound where
  finite := by simp [State.ledger, State.initial, HasFiniteSupport]
  total := finsum_zero
  nonneg := fun _ => le_rfl
  capped := fun _ hmax => by cases hmax

/-- **The supply is conserved** all along a run (the balances add up to it, none is negative, it
stays within its bound, and every burn takes its amount once) if and only if every call that
returns meets the condition. -/
theorem supply_conserved_iff {ls : List (Event Address)} {s : State Address} :
    Run (fun u l w => Step entryPoint u l w ∧ w.ledger.Sound ∧
        ∀ v, l.result = .ok v → l.call.BurnsExactly u.ledger w.ledger)
        (State.initial Address) ls s ↔
      Run (fun u l w => Step entryPoint u l w ∧ ∀ v, l.result = .ok v → l.call.Meets u.ledger)
        (State.initial Address) ls s := by
  refine Run.and_iff_of_invariant (I := fun u => u.ledger.Sound)
    (fun u l w _ _ hw => hw.1) (fun u l w hu hl => ?_) sound_initial
  rcases hl.cases with ⟨v, hv, hreturns⟩ | ⟨⟨fault, hfault⟩, rfl⟩
  · obtain ⟨hcovered, hpost⟩ := post_of_returns hreturns
    rw [hpost]
    constructor
    · exact fun h _ _ => (sound_post_iff hu hcovered).mp ⟨h.1, h.2 v hv⟩
    · intro h
      obtain ⟨hsound, hexact⟩ := (sound_post_iff hu hcovered).mpr (h v hv)
      exact ⟨hsound, fun _ _ => hexact⟩
  · -- a call that fails has burned nothing and changed nothing
    have hfailed : ∀ {P : Prop} (v : Unit), l.result = .ok v → P := by
      intro P v hv
      cases hfault.symm.trans hv
    exact iff_of_true ⟨hu, fun v hv => hfailed v hv⟩ fun v hv => hfailed v hv

/-- An initialised token, and a hundred minted by its admin. -/
def sampleMint : List (Env ℕ × Call ℕ) :=
  [(⟨1, fun a => a = 1⟩, .initializeToken 1 7 "Token" "TKN" 1000),
   (⟨2, fun a => a = 1⟩, .mint 2 100)]

/-- A burn of ten takes twenty from the balance and ten from the supply. -/
theorem supply_not_conserved :
    ¬ ∀ (ls : List (Event ℕ)) (s : State ℕ), Run (Step entryPoint) (State.initial ℕ) ls s →
      s.ledger.Sound := by
  intro h
  have hminted := h _ _ (run_execute entryPoint (State.initial ℕ) sampleMint)
  have hburned := h _ _ (run_execute entryPoint (State.initial ℕ)
    (sampleMint ++ [(⟨3, fun a => a = 2⟩, .burn 2 10)]))
  have hledger : (execute entryPoint (State.initial ℕ)
      (sampleMint ++ [(⟨3, fun a => a = 2⟩, .burn 2 10)])).2.ledger =
      (execute entryPoint (State.initial ℕ) sampleMint).2.ledger.burned 2 10 := rfl
  rw [hledger, sound_burned_iff hminted] at hburned
  exact absurd hburned (by decide)

end TokenContract
