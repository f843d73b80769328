import SkyMoonScope.Lib.Accounts
import SkyMoonScope.LiquidityPool.Effects

/-!
# Shares are conserved

The book of the shares has a liquid and a staked account for every address, and the two totals that
the contract stores. A call posts one entry to it: it mints shares to an address or burns them,
moves them between two addresses, or moves them between the two accounts of one address. Whatever
the sign of an amount, an entry changes the totals as much as the accounts.

## Main definitions

* `Book`, `Posting`, `Book.post`: the book and the entries posted to it
* `Storage.book`: the book that the storage holds
* `Call.posting`: the entry that a call posts, by what it returned
* `Balanced`: the totals are the sums of the accounts

## Main results

* `book_after`: a call does to the book of the storage what its entry says
* `Balanced.post`: every entry keeps a balanced book balanced
* `shares_conserved`: the sums agree with the totals after every run
-/

namespace LiquidityPool

open Soroban Machine Accounts

variable {Address Tokens : Type}

/-- The accounts of all addresses, and the stored totals. -/
@[ext] structure Book (Address : Type) where
  liquid : Address → ℤ
  staked : Address → ℤ
  totalStaked : ℤ
  totalShares : ℤ

/-- What a call does to the book. Burning is minting of a negative amount, and unstaking is staking
of one. -/
inductive Posting (Address : Type)
  | nothing
  | mint (user : Address) (amount : ℤ)
  | move (source destination : Address) (amount : ℤ)
  | stake (user : Address) (amount : ℤ)

def Book.post [DecidableEq Address] (b : Book Address) : Posting Address → Book Address
  | .nothing => b
  | .mint user amount =>
    { b with liquid := credit b.liquid user amount, totalShares := b.totalShares + amount }
  | .move source destination amount =>
    { b with liquid := Accounts.move b.liquid source destination amount }
  | .stake user amount =>
    { b with
      liquid := credit b.liquid user (-amount)
      staked := credit b.staked user amount
      totalStaked := b.totalStaked + amount }

/-- The entry that a call posts, where it returned. -/
def Call.posting : Call Address → Response Address → Posting Address
  | .deposit user _ _, .amount minted => .mint user minted
  | .withdraw user shareAmount, _ => .mint user (-shareAmount)
  | .burn source amount, _ => .mint source (-amount)
  | .transfer source destination amount, _ => .move source destination amount
  | .transferFrom _ source destination amount, _ => .move source destination amount
  | .stake user amount, _ => .stake user amount
  | .unstake user amount, _ => .stake user (-amount)
  | _, _ => .nothing

/-- The book that the storage holds. -/
def Storage.book (s : Storage Address Tokens) : Book Address :=
  ⟨Token.balance s, getStakedBalance s, getTotalStaked s, totalSupply s⟩

/-- The totals are the sums of the accounts. -/
structure Balanced (b : Book Address) : Prop where
  liquid_finite : b.liquid.HasFiniteSupport
  staked_finite : b.staked.HasFiniteSupport
  shares_eq : ∑ᶠ a, b.liquid a + ∑ᶠ a, b.staked a = b.totalShares
  staked_eq : b.totalStaked = ∑ᶠ a, b.staked a

theorem balanced_initial (tokens : Tokens) :
    Balanced (Storage.initial tokens : Storage Address Tokens).book := by
  have hzero : (fun _ : Address => (0 : ℤ)).HasFiniteSupport := by
    simp [Function.HasFiniteSupport]
  refine ⟨hzero, hzero, ?_, ?_⟩
  · show ∑ᶠ _ : Address, (0 : ℤ) + ∑ᶠ _ : Address, (0 : ℤ) = 0
    simp
  · show (0 : ℤ) = ∑ᶠ _ : Address, (0 : ℤ)
    simp

section

variable [DecidableEq Address] {b : Book Address}

/-- **Every entry keeps a balanced book balanced.** -/
theorem Balanced.post (h : Balanced b) (p : Posting Address) : Balanced (b.post p) := by
  cases p with
  | nothing => exact h
  | mint user amount =>
    refine ⟨hasFiniteSupport_credit h.liquid_finite, h.staked_finite, ?_, h.staked_eq⟩
    simp only [Book.post]
    rw [finsum_credit h.liquid_finite, ← h.shares_eq]
    ring
  | move source destination amount =>
    refine ⟨hasFiniteSupport_move h.liquid_finite, h.staked_finite, ?_, h.staked_eq⟩
    simp only [Book.post]
    rw [finsum_move h.liquid_finite, h.shares_eq]
  | stake user amount =>
    refine ⟨hasFiniteSupport_credit h.liquid_finite, hasFiniteSupport_credit h.staked_finite,
      ?_, ?_⟩
    · -- what leaves the liquid account enters the staked one
      simp only [Book.post]
      rw [finsum_credit h.liquid_finite, finsum_credit h.staked_finite, ← h.shares_eq]
      ring
    · simp only [Book.post]
      rw [finsum_credit h.staked_finite, h.staked_eq]

/-! ## The book of the storage -/

variable {host : Host Address Tokens} {s t : Storage Address Tokens} {call : Call Address}
  {v : Response Address}

/-- Writing one entry of a record, as balances with zero for what is missing. -/
theorem getD_update {record : Address → Option ℤ} {user : Address} {x : ℤ} :
    (fun a => (Function.update record user (some x) a).getD 0) =
      Function.update (fun a => (record a).getD 0) user x := by
  ext a
  by_cases h : a = user
  · subst h
    simp
  · simp [h]

/-- What a transfer writes is a move. -/
theorem getD_moved {balance : Address → Option ℤ} {source destination : Address} {amount : ℤ} :
    (fun a => (moved balance source destination amount a).getD 0) =
      Accounts.move (fun a => (balance a).getD 0) source destination amount := by
  -- the destination is read after the source was written
  have htaken : (fun a =>
      (Function.update balance source (some ((balance source).getD 0 - amount)) a).getD 0) =
      Function.update (fun a => (balance a).getD 0) source ((balance source).getD 0 - amount) :=
    getD_update
  rw [moved, getD_update, htaken, congrFun htaken destination]
  rfl

/-- The book after an operation that mints shares, or burns them. -/
theorem book_mint {user : Address} {amount balance : ℤ} {pool pool' : PoolState Address}
    (hpool : s.pool = some pool) (hbalance : balance = Token.balance s user + amount)
    (hshares : pool'.totalShares = pool.totalShares + amount)
    (ht : t.balance = Function.update s.balance user (some balance))
    (hpool' : t.pool = some pool') (hstaked : t.stakedBalance = s.stakedBalance)
    (htotal : t.totalStaked = s.totalStaked) :
    t.book = s.book.post (.mint user amount) := by
  apply Book.ext
  · show (fun a => (t.balance a).getD 0) = credit (Token.balance s) user amount
    rw [ht, getD_update, hbalance]
    rfl
  · show (fun a => (t.stakedBalance a).getD 0) = fun a => (s.stakedBalance a).getD 0
    rw [hstaked]
  · show t.totalStaked.getD 0 = s.totalStaked.getD 0
    rw [htotal]
  · show totalSupply t = totalSupply s + amount
    rw [totalSupply_eq hpool', totalSupply_eq hpool, hshares]

/-- The book after an operation that stakes shares, or unstakes them. -/
theorem book_stake {user : Address} {amount balance staked total : ℤ}
    (hbalance : balance = Token.balance s user - amount)
    (hstaked : staked = getStakedBalance s user + amount)
    (htotal : total = getTotalStaked s + amount)
    (ht : t.balance = Function.update s.balance user (some balance))
    (ht' : t.stakedBalance = Function.update s.stakedBalance user (some staked))
    (ht'' : t.totalStaked = some total) (hpool : t.pool = s.pool) :
    t.book = s.book.post (.stake user amount) := by
  apply Book.ext
  · show (fun a => (t.balance a).getD 0) = credit (Token.balance s) user (-amount)
    rw [ht, getD_update, hbalance, sub_eq_add_neg]
    rfl
  · show (fun a => (t.stakedBalance a).getD 0) = credit (getStakedBalance s) user amount
    rw [ht', getD_update, hstaked]
    rfl
  · show t.totalStaked.getD 0 = getTotalStaked s + amount
    rw [ht'', htotal, Option.getD_some]
  · show totalSupply t = totalSupply s
    rw [totalSupply, totalSupply, hpool]

/-- **A call does to the book of the storage what its entry says.** -/
theorem book_after (h : Returns (entryPoint host call) s v t) :
    t.book = s.book.post (call.posting v) := by
  cases sharesAfter h with
  | same hcall h =>
    have hnothing : call.posting v = .nothing := by
      cases call <;> first | rfl | cases hcall
    rw [hnothing]
    have hliquid : Token.balance t = Token.balance s := by
      ext a
      rw [Token.balance, h.balance, Token.balance]
    have hstaked : getStakedBalance t = getStakedBalance s := by
      ext a
      rw [getStakedBalance, h.stakedBalance, getStakedBalance]
    have htotal : getTotalStaked t = getTotalStaked s := by
      rw [getTotalStaked, h.totalStaked, getTotalStaked]
    simp only [Storage.book, Book.post, hliquid, hstaked, htotal, h.totalSupply]
  | deposit hpool hauth hnet ht =>
    rw [ht]
    exact book_mint hpool rfl rfl rfl rfl rfl rfl
  | withdraw hpool hauth hpos hcover hearly ha hb ht =>
    rw [ht]
    exact book_mint hpool (sub_eq_add_neg _ _) (sub_eq_add_neg _ _) rfl rfl rfl rfl
  | burn hpool hauth hcover ht =>
    rw [ht]
    exact book_mint hpool (sub_eq_add_neg _ _) (sub_eq_add_neg _ _) rfl rfl rfl rfl
  | transfer hauth hcover ht =>
    rw [ht]
    exact Book.ext getD_moved rfl rfl rfl
  | approve ht =>
    rw [ht]
    rfl
  | transferFrom hspender hauth hallowed hcover ht =>
    rw [ht]
    exact Book.ext getD_moved rfl rfl rfl
  | stake hauth hcover ht =>
    rw [ht]
    exact book_stake rfl rfl rfl rfl rfl rfl rfl
  | unstake hauth hcover ht =>
    rw [ht]
    exact book_stake (sub_neg_eq_add _ _).symm (sub_eq_add_neg _ _) (sub_eq_add_neg _ _) rfl rfl
      rfl rfl
  | claimNothing ht =>
    rw [ht]
    rfl
  | claimRewards hpos hpaid ht =>
    rw [ht]
    rfl

/-! ## Runs -/

/-- A call keeps the book balanced, also where it fails. -/
theorem Balanced.step {l : Event Address Tokens} (hs : Balanced s.book) (h : s.step l t) :
    Balanced t.book := by
  rcases Storage.step_cases h with ⟨v, -, h⟩ | ⟨-, rfl⟩
  · rw [book_after h]
    exact hs.post _
  · exact hs

theorem balanced_of_run {tokens : Tokens} {ls : List (Event Address Tokens)}
    (h : Run Storage.step (Storage.initial tokens) ls s) : Balanced s.book :=
  h.invariant (I := fun u => Balanced u.book) (fun _ _ _ hs hl => hs.step hl)
    (balanced_initial tokens)

/-- **Share conservation.** After every run of calls, whatever their amounts, the liquid and the
staked balances add up to the total of shares, and the staked balances to the stored total of the
stakes. -/
theorem shares_conserved {tokens : Tokens} {ls : List (Event Address Tokens)}
    (h : Run Storage.step (Storage.initial tokens) ls s) :
    ((Token.balance s).HasFiniteSupport ∧ (getStakedBalance s).HasFiniteSupport) ∧
      ∑ᶠ a, Token.balance s a + ∑ᶠ a, getStakedBalance s a = totalSupply s ∧
      getTotalStaked s = ∑ᶠ a, getStakedBalance s a := by
  have hbook := balanced_of_run h
  exact ⟨⟨hbook.liquid_finite, hbook.staked_finite⟩, hbook.shares_eq, hbook.staked_eq⟩

end

/-- Two deposits, a transfer of a negative amount, one to the same address, a stake and a burn. -/
def sampleCalls : List (Host ℕ Unit × Call ℕ) :=
  [(sampleHost 1 [9], .initializePool 9 100 101),
   (sampleHost 1 [1], .deposit 1 10 10),
   (sampleHost 2 [2], .deposit 2 10 10),
   (sampleHost 3 [1], .transfer 1 2 (-4)),
   (sampleHost 3 [1], .transfer 1 1 5),
   (sampleHost 4 [2], .stake 2 3),
   (sampleHost 5 [2], .burn 2 2)]

theorem shares_conserved_sample :
    ∃ s, Run Storage.step (Storage.initial ()) (execute (Storage.initial ()) sampleCalls).1 s ∧
      totalSupply s = 18 ∧ getTotalStaked s = 3 ∧
      ∑ᶠ a, Token.balance s a + ∑ᶠ a, getStakedBalance s a = totalSupply s ∧
      getTotalStaked s = ∑ᶠ a, getStakedBalance s a := by
  have hrun := run_execute (Storage.initial ()) sampleCalls
  exact ⟨_, hrun, rfl, rfl, (shares_conserved hrun).2⟩

end LiquidityPool
