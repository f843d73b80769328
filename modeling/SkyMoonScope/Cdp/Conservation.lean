import SkyMoonScope.Cdp.Accrual
import SkyMoonScope.Lib.Accounts

/-!
# The ledger of the debts and of the collateral balances

The book of the contract has the debt, the collateral and the stable balance of every address, the
five totals that the contract stores, and what it holds of the collateral token. A call posts
entries to it: the interest of one position first, and then what the call itself does. Every entry
changes the totals as much as the accounts, and interest alone adds to the supply and to no balance.

## Main definitions

* `Book`, `Posting`, `Book.post`: the book and the entries posted to it
* `bookOf`: the book that the storage holds
* `Balanced`: the totals agree with the accounts

## Main results

* `Balanced.post`: every entry keeps a balanced book balanced
* `book_after`: a call posts entries to the book of the storage
* `ledger_conserved`: the totals agree with the accounts after every run
-/

namespace Cdp

open Soroban Machine Accounts

variable {Address Tokens : Type}

/-- The accounts of all addresses, the stored totals, and the collateral received less what was paid
out. -/
@[ext] structure Book (Address : Type) where
  debt : Address → ℤ
  collateral : Address → ℤ
  stable : Address → ℤ
  totalDebt : ℤ
  totalCollateral : ℤ
  supply : ℤ
  reserves : ℤ
  badDebt : ℤ
  held : ℤ

/-- What a call does to the book. Withdrawing is depositing of a negative amount, and repaying is
minting of one. A take-over closes a position and leaves a part of its debt as bad debt. -/
inductive Posting (Address : Type)
  | interest (user : Address) (x : ℤ) (nonneg : 0 ≤ x)
  | deposit (user : Address) (x : ℤ)
  | mint (user : Address) (x : ℤ)
  | move (source destination : Address) (x : ℤ)
  | liquidate (liquidator borrower : Address) (repaid seized : ℤ)
  | takeOver (user : Address) (bad : ℤ)

def Book.post [DecidableEq Address] (b : Book Address) : Posting Address → Book Address
  | .interest user x _ =>
    { b with
      debt := credit b.debt user x
      totalDebt := b.totalDebt + x
      supply := b.supply + x }
  | .deposit user x =>
    { b with
      collateral := credit b.collateral user x
      totalCollateral := b.totalCollateral + x
      held := b.held + x }
  | .mint user x =>
    { b with
      debt := credit b.debt user x
      stable := credit b.stable user x
      totalDebt := b.totalDebt + x
      supply := b.supply + x }
  | .move source destination x =>
    { b with stable := Accounts.move b.stable source destination x }
  | .liquidate liquidator borrower repaid seized =>
    { b with
      debt := credit b.debt borrower (-repaid)
      collateral := credit b.collateral borrower (-seized)
      stable := credit b.stable liquidator (-repaid)
      totalDebt := b.totalDebt - repaid
      totalCollateral := b.totalCollateral - seized
      supply := b.supply - repaid
      held := b.held - seized }
  | .takeOver user bad =>
    { b with
      debt := credit b.debt user (-b.debt user)
      collateral := credit b.collateral user (-b.collateral user)
      totalDebt := b.totalDebt - (b.debt user - bad)
      totalCollateral := b.totalCollateral - b.collateral user
      reserves := b.reserves + b.collateral user
      badDebt := b.badDebt + bad }

/-- The totals agree with the accounts, and the contract holds the collateral of the positions and
of the reserves. -/
structure Balanced (b : Book Address) : Prop where
  debt_finite : b.debt.HasFiniteSupport
  collateral_finite : b.collateral.HasFiniteSupport
  stable_finite : b.stable.HasFiniteSupport
  totalDebt_eq : b.totalDebt = ∑ᶠ a, b.debt a + b.badDebt
  totalCollateral_eq : b.totalCollateral = ∑ᶠ a, b.collateral a
  held_eq : b.totalCollateral + b.reserves = b.held
  stable_le : ∑ᶠ a, b.stable a ≤ b.supply

section

variable [DecidableEq Address] {b : Book Address}

/-- **Every entry keeps a balanced book balanced.** -/
theorem Balanced.post (h : Balanced b) (p : Posting Address) : Balanced (b.post p) := by
  obtain ⟨hd, hc, hs, hdebt, hcollateral, hheld, hstable⟩ := h
  cases p with
  | interest user x nonneg =>
    refine ⟨hasFiniteSupport_credit hd, hc, hs, ?_, hcollateral, hheld, ?_⟩
    · simp only [Book.post]
      rw [finsum_credit hd, hdebt]
      ring
    · -- the interest is no one's balance
      simp only [Book.post]
      linarith
  | deposit user x =>
    refine ⟨hd, hasFiniteSupport_credit hc, hs, hdebt, ?_, ?_, hstable⟩
    · simp only [Book.post]
      rw [finsum_credit hc, hcollateral]
    · simp only [Book.post]
      linarith
  | mint user x =>
    refine ⟨hasFiniteSupport_credit hd, hc, hasFiniteSupport_credit hs, ?_, hcollateral, hheld, ?_⟩
    · simp only [Book.post]
      rw [finsum_credit hd, hdebt]
      ring
    · simp only [Book.post]
      rw [finsum_credit hs]
      linarith
  | move source destination x =>
    refine ⟨hd, hc, hasFiniteSupport_move hs, hdebt, hcollateral, hheld, ?_⟩
    simp only [Book.post]
    rwa [finsum_move hs]
  | liquidate liquidator borrower repaid seized =>
    refine ⟨hasFiniteSupport_credit hd, hasFiniteSupport_credit hc, hasFiniteSupport_credit hs,
      ?_, ?_, ?_, ?_⟩
    · simp only [Book.post]
      rw [finsum_credit hd, hdebt]
      ring
    · simp only [Book.post]
      rw [finsum_credit hc, hcollateral]
      ring
    · simp only [Book.post]
      linarith
    · simp only [Book.post]
      rw [finsum_credit hs]
      linarith
  | takeOver user bad =>
    refine ⟨hasFiniteSupport_credit hd, hasFiniteSupport_credit hc, hs, ?_, ?_, ?_, hstable⟩
    · -- what was not repaid of the debt is bad debt from now on
      simp only [Book.post]
      rw [finsum_credit hd, hdebt]
      ring
    · simp only [Book.post]
      rw [finsum_credit hc, hcollateral]
      ring
    · simp only [Book.post]
      linarith

theorem Balanced.posts (h : Balanced b) (ps : List (Posting Address)) :
    Balanced (ps.foldl Book.post b) := by
  induction ps generalizing b with
  | nil => exact h
  | cons p ps ih => exact ih (h.post p)

/-! ## The book of the storage -/

/-- What the contract has received in its transfers of collateral. -/
def received (contract : Address) (transfers : List (Transfer Address)) : ℤ :=
  (transfers.map fun x => if x.destination = contract then x.amount else 0).sum

/-- What the contract has paid out in its transfers of collateral. -/
def paidOut (contract : Address) (transfers : List (Transfer Address)) : ℤ :=
  (transfers.map fun x => if x.source = contract then x.amount else 0).sum

def debtOf (s : State Address Tokens) (user : Address) : ℤ :=
  ((s.position user).map Position.debtAmount).getD 0

def collateralOf (s : State Address Tokens) (user : Address) : ℤ :=
  ((s.position user).map Position.collateralAmount).getD 0

/-- The book that the storage holds. -/
def bookOf (contract : Address) (s : State Address Tokens) : Book Address where
  debt := debtOf s
  collateral := collateralOf s
  stable := readStableBalance s
  totalDebt := totalDebt s
  totalCollateral := totalCollateral s
  supply := totalStableSupply s
  reserves := protocolCollateralReserves s
  badDebt := totalBadDebt s
  held := received contract s.transfers - paidOut contract s.transfers

theorem balanced_initial (contract : Address) (tokens : Tokens) :
    Balanced (bookOf contract (State.initial tokens : State Address Tokens)) := by
  have hzero : (fun _ : Address => (0 : ℤ)).HasFiniteSupport := by
    simp [Function.HasFiniteSupport]
  refine ⟨hzero, hzero, hzero, ?_, ?_, ?_, ?_⟩
  · show (0 : ℤ) = ∑ᶠ _ : Address, (0 : ℤ) + 0
    simp
  · show (0 : ℤ) = ∑ᶠ _ : Address, (0 : ℤ)
    simp
  · show (0 : ℤ) + 0 = 0 - 0
    simp
  · show ∑ᶠ _ : Address, (0 : ℤ) ≤ 0
    simp

variable {host : Host Address Tokens} {env : Env host} {s t : State Address Tokens}
  {user : Address}

omit [DecidableEq Address] in
theorem readPosition_debtAmount {sequence : ℤ} :
    (readPosition sequence s user).debtAmount = debtOf s user := by
  unfold readPosition debtOf
  cases s.position user <;> rfl

omit [DecidableEq Address] in
theorem readPosition_collateralAmount {sequence : ℤ} :
    (readPosition sequence s user).collateralAmount = collateralOf s user := by
  unfold readPosition collateralOf
  cases s.position user <;> rfl

/-- Writing a position credits the debt and the collateral of its owner with the differences. -/
theorem debtOf_update {p : Position} (h : t.position = Function.update s.position user (some p)) :
    debtOf t = credit (debtOf s) user (p.debtAmount - debtOf s user) := by
  ext a
  by_cases ha : a = user
  · subst ha
    simp [debtOf, h]
  · rw [credit_of_ne ha, debtOf, h, Function.update_of_ne ha, debtOf]

theorem collateralOf_update {p : Position}
    (h : t.position = Function.update s.position user (some p)) :
    collateralOf t = credit (collateralOf s) user (p.collateralAmount - collateralOf s user) := by
  ext a
  by_cases ha : a = user
  · subst ha
    simp [collateralOf, h]
  · rw [credit_of_ne ha, collateralOf, h, Function.update_of_ne ha, collateralOf]

/-- A position that keeps its debt keeps all debts. -/
theorem debtOf_update_of_eq {p : Position}
    (h : t.position = Function.update s.position user (some p))
    (hp : p.debtAmount = debtOf s user) : debtOf t = debtOf s := by
  rw [debtOf_update h, hp, sub_self, credit_eq_add, Pi.single_zero, add_zero]

/-- A position that keeps its collateral keeps all collateral. -/
theorem collateralOf_update_of_eq {p : Position}
    (h : t.position = Function.update s.position user (some p))
    (hp : p.collateralAmount = collateralOf s user) : collateralOf t = collateralOf s := by
  rw [collateralOf_update h, hp, sub_self, credit_eq_add, Pi.single_zero, add_zero]

theorem readStableBalance_update {x : ℤ}
    (h : t.stableBalance = Function.update s.stableBalance user (some x)) :
    readStableBalance t = credit (readStableBalance s) user (x - readStableBalance s user) := by
  ext a
  by_cases ha : a = user
  · subst ha
    simp [readStableBalance, h]
  · rw [credit_of_ne ha, readStableBalance, h, Function.update_of_ne ha, readStableBalance]

/-- **An accrual posts interest**, and the position that it returns is the one in the book. -/
theorem book_accrue {p : Position} (h : Returns (accruePosition env user) s p t) :
    (∃ x nonneg, bookOf host.currentContractAddress t =
        (bookOf host.currentContractAddress s).post (.interest user x nonneg)) ∧
      p.debtAmount = debtOf t user ∧ p.collateralAmount = collateralOf t user := by
  obtain ⟨x, haccrued, -⟩ := accruePosition_spec h
  have hdebt := haccrued.debt
  rw [readPosition_debtAmount] at hdebt
  have hcollateral := haccrued.collateral
  rw [readPosition_collateralAmount] at hcollateral
  refine ⟨⟨x, haccrued.booked_nonneg, ?_⟩, ?_, ?_⟩
  · apply Book.ext
    · show debtOf t = credit (debtOf s) user x
      rw [debtOf_update haccrued.position, hdebt, add_sub_cancel_left]
    · show collateralOf t = collateralOf s
      exact collateralOf_update_of_eq haccrued.position hcollateral
    · show readStableBalance t = readStableBalance s
      rw [haccrued.frame]
      rfl
    · exact haccrued.totalDebt
    · show totalCollateral t = totalCollateral s
      rw [haccrued.frame]
      rfl
    · exact haccrued.supply
    · show protocolCollateralReserves t = protocolCollateralReserves s
      rw [haccrued.frame]
      rfl
    · show totalBadDebt t = totalBadDebt s
      rw [haccrued.frame]
      rfl
    · show received _ t.transfers - paidOut _ t.transfers =
        received _ s.transfers - paidOut _ s.transfers
      rw [haccrued.frame]
  · rw [debtOf, haccrued.position, Function.update_self]
    rfl
  · rw [collateralOf, haccrued.position, Function.update_self]
    rfl

/-! ## What the entry points post -/

omit [DecidableEq Address] in
/-- What comes in from another address is held. -/
theorem held_receive [DecidableEq Address] {contract source : Address} {x : ℤ}
    {transfers : List (Transfer Address)} (hsource : source ≠ contract) :
    received contract (⟨source, contract, x⟩ :: transfers) -
        paidOut contract (⟨source, contract, x⟩ :: transfers) =
      received contract transfers - paidOut contract transfers + x := by
  simp only [received, paidOut, List.map_cons, List.sum_cons, if_true, if_neg hsource]
  ring

omit [DecidableEq Address] in
/-- What goes out to another address is held no more. -/
theorem held_pay [DecidableEq Address] {contract destination : Address} {x : ℤ}
    {transfers : List (Transfer Address)} (hdestination : destination ≠ contract) :
    received contract (⟨contract, destination, x⟩ :: transfers) -
        paidOut contract (⟨contract, destination, x⟩ :: transfers) =
      received contract transfers - paidOut contract transfers - x := by
  simp only [received, paidOut, List.map_cons, List.sum_cons, if_true, if_neg hdestination]
  ring

omit [DecidableEq Address] in
/-- Whoever has authorized the call is not the contract. -/
theorem ne_contract_of_auth {addr : Address} (h : env.auth addr = true) :
    addr ≠ host.currentContractAddress := by
  rintro rfl
  cases env.auth_contract.symm.trans h

/-- Entries lead from one storage to another, and the admin stays. -/
structure Posts (contract : Address) (s t : State Address Tokens) : Prop where
  admin : t.admin = s.admin
  book : ∃ ps : List (Posting Address), bookOf contract t = ps.foldl Book.post (bookOf contract s)

theorem Posts.refl (contract : Address) (s : State Address Tokens) : Posts contract s s :=
  ⟨rfl, [], rfl⟩

theorem admin_of_accrue {p : Position} (h : Returns (accruePosition env user) s p t) :
    t.admin = s.admin := by
  obtain ⟨x, haccrued, -⟩ := accruePosition_spec h
  rw [haccrued.frame]

theorem Posts.of_accrue {p : Position} (h : Returns (accruePosition env user) s p t) :
    Posts host.currentContractAddress s t := by
  obtain ⟨⟨x, nonneg, hbook⟩, -⟩ := book_accrue h
  exact ⟨admin_of_accrue h, [.interest user x nonneg], hbook⟩

/-- An accrual, and one entry for what follows it. -/
theorem Posts.accrue_post {p : Position} {u : State Address Tokens} (posting : Posting Address)
    (h : Returns (accruePosition env user) s p u) (hadmin : t.admin = u.admin)
    (ht : bookOf host.currentContractAddress t =
      (bookOf host.currentContractAddress u).post posting) :
    Posts host.currentContractAddress s t := by
  obtain ⟨⟨x, nonneg, hbook⟩, -⟩ := book_accrue h
  refine ⟨hadmin.trans (admin_of_accrue h), [.interest user x nonneg, posting], ?_⟩
  rw [ht, hbook]
  rfl

theorem depositCollateral_posts {amount : ℤ} {p : Position}
    (h : Returns (depositCollateral env user amount) s p t) :
    Posts host.currentContractAddress s t := by
  obtain ⟨hauth, q, u, tokens, haccrue, rfl, rfl⟩ := depositCollateral_spec h
  obtain ⟨-, hdebt, hcollateral⟩ := book_accrue haccrue
  apply Posts.accrue_post (.deposit user amount) haccrue
  · rfl
  apply Book.ext
  · exact debtOf_update_of_eq rfl hdebt
  · refine (collateralOf_update rfl).trans (congrArg (credit (collateralOf u) user) ?_)
    show q.collateralAmount + amount - collateralOf u user = amount
    rw [hcollateral, add_sub_cancel_left]
  · rfl
  · rfl
  · rfl
  · rfl
  · rfl
  · rfl
  · exact held_receive (ne_contract_of_auth hauth)

theorem withdrawCollateral_posts {amount : ℤ} {p : Position}
    (h : Returns (withdrawCollateral env user amount) s p t) :
    Posts host.currentContractAddress s t := by
  obtain ⟨hauth, q, u, tokens, haccrue, -, rfl, -, rfl⟩ := withdrawCollateral_spec h
  obtain ⟨-, hdebt, hcollateral⟩ := book_accrue haccrue
  apply Posts.accrue_post (.deposit user (-amount)) haccrue
  · rfl
  apply Book.ext
  · exact debtOf_update_of_eq rfl hdebt
  · refine (collateralOf_update rfl).trans (congrArg (credit (collateralOf u) user) ?_)
    show q.collateralAmount - amount - collateralOf u user = -amount
    rw [hcollateral]
    ring
  · rfl
  · rfl
  · exact sub_eq_add_neg _ _
  · rfl
  · rfl
  · rfl
  · exact (held_pay (ne_contract_of_auth hauth)).trans (sub_eq_add_neg _ _)

theorem mintStable_posts {amount : ℤ} {p : Position}
    (h : Returns (mintStable env user amount) s p t) :
    Posts host.currentContractAddress s t := by
  obtain ⟨-, -, q, u, haccrue, rfl, -, rfl⟩ := mintStable_spec h
  obtain ⟨-, hdebt, hcollateral⟩ := book_accrue haccrue
  apply Posts.accrue_post (.mint user amount) haccrue
  · rfl
  apply Book.ext
  · refine (debtOf_update rfl).trans (congrArg (credit (debtOf u) user) ?_)
    show q.debtAmount + amount - debtOf u user = amount
    rw [hdebt, add_sub_cancel_left]
  · exact collateralOf_update_of_eq rfl hcollateral
  · refine (readStableBalance_update rfl).trans (congrArg (credit (readStableBalance u) user) ?_)
    exact add_sub_cancel_left _ _
  · rfl
  · rfl
  · rfl
  · rfl
  · rfl
  · rfl

theorem repay_posts {amount : ℤ} {p : Position} (h : Returns (repay env user amount) s p t) :
    Posts host.currentContractAddress s t := by
  -- how much is repaid does not matter here
  obtain ⟨-, q, u, r, haccrue, -, -, rfl, rfl⟩ := repay_spec h
  obtain ⟨-, hdebt, hcollateral⟩ := book_accrue haccrue
  apply Posts.accrue_post (.mint user (-r)) haccrue
  · rfl
  apply Book.ext
  · refine (debtOf_update rfl).trans (congrArg (credit (debtOf u) user) ?_)
    show q.debtAmount - r - debtOf u user = -r
    rw [hdebt]
    ring
  · exact collateralOf_update_of_eq rfl hcollateral
  · refine (readStableBalance_update rfl).trans (congrArg (credit (readStableBalance u) user) ?_)
    show readStableBalance u user - r - readStableBalance u user = -r
    ring
  · exact sub_eq_add_neg _ _
  · rfl
  · exact sub_eq_add_neg _ _
  · rfl
  · rfl
  · rfl

theorem transferStable_posts {source destination : Address} {amount : ℤ}
    (h : Returns (transferStable env source destination amount) s () t) :
    Posts host.currentContractAddress s t := by
  simp only [transferStable, requireAuth, writeStableBalance, bind_assoc, returns_require_bind,
    returns_get_bind, returns_checked_bind, returns_set_bind, returns_set] at h
  obtain ⟨-, -, -, -, -, rfl⟩ := h
  refine ⟨rfl, [.move source destination amount], ?_⟩
  apply Book.ext
  · rfl
  · rfl
  · -- the destination is read after the source was written
    let u : State Address Tokens := { s with
      stableBalance := Function.update s.stableBalance source
        (some (readStableBalance s source - amount)) }
    have hsource : readStableBalance u = credit (readStableBalance s) source (-amount) := by
      refine (readStableBalance_update rfl).trans
        (congrArg (credit (readStableBalance s) source) ?_)
      ring
    refine (readStableBalance_update (s := u) rfl).trans ?_
    show credit (readStableBalance u) destination
        (readStableBalance u destination + amount - readStableBalance u destination) =
      Accounts.move (readStableBalance s) source destination amount
    rw [hsource, Accounts.move, add_sub_cancel_left]
  · rfl
  · rfl
  · rfl
  · rfl
  · rfl
  · rfl

theorem liquidate_posts {liquidator borrower : Address} {requested : ℤ} {quote : LiquidationQuote}
    (h : Returns (liquidate env liquidator borrower requested) s quote t) :
    Posts host.currentContractAddress s t := by
  obtain ⟨hauth, u, tokens, hquote, rfl⟩ := liquidate_spec h
  obtain ⟨p, haccrue, -⟩ := quoteLiquidation_spec hquote
  apply Posts.accrue_post
    (.liquidate liquidator borrower quote.repayAmount quote.collateralToSeize) haccrue
  · rfl
  apply Book.ext
  · -- the debt of the book is the one that the quote has left
    refine (debtOf_update rfl).trans (congrArg (credit (debtOf u) borrower) ?_)
    show (readPosition env.sequence u borrower).debtAmount - quote.repayAmount - debtOf u borrower =
      -quote.repayAmount
    rw [readPosition_debtAmount]
    ring
  · refine (collateralOf_update rfl).trans (congrArg (credit (collateralOf u) borrower) ?_)
    show (readPosition env.sequence u borrower).collateralAmount - quote.collateralToSeize -
      collateralOf u borrower = -quote.collateralToSeize
    rw [readPosition_collateralAmount]
    ring
  · refine (readStableBalance_update rfl).trans
      (congrArg (credit (readStableBalance u) liquidator) ?_)
    show readStableBalance u liquidator - quote.repayAmount - readStableBalance u liquidator =
      -quote.repayAmount
    ring
  · rfl
  · rfl
  · rfl
  · rfl
  · rfl
  · exact held_pay (ne_contract_of_auth hauth)

theorem selfLiquidate_posts {borrower : Address} {p : Position}
    (h : Returns (selfLiquidate env borrower) s p t) :
    Posts host.currentContractAddress s t := by
  obtain ⟨q, u, bad, haccrue, rfl, rfl⟩ := selfLiquidate_spec h
  obtain ⟨-, hdebt, hcollateral⟩ := book_accrue haccrue
  apply Posts.accrue_post (.takeOver borrower bad) haccrue
  · rfl
  apply Book.ext
  · refine (debtOf_update rfl).trans (congrArg (credit (debtOf u) borrower) ?_)
    exact zero_sub _
  · refine (collateralOf_update rfl).trans (congrArg (credit (collateralOf u) borrower) ?_)
    exact zero_sub _
  · rfl
  · -- the bad part of the debt stays in the total
    show totalDebt u - (q.debtAmount - bad) = totalDebt u - (debtOf u borrower - bad)
    rw [hdebt]
  · show totalCollateral u - q.collateralAmount = totalCollateral u - collateralOf u borrower
    rw [hcollateral]
  · rfl
  · show protocolCollateralReserves u + q.collateralAmount =
      protocolCollateralReserves u + collateralOf u borrower
    rw [hcollateral]
  · rfl
  · rfl

/-! ## Before the contract is initialized -/

/-- The storage before `initialize`: nothing is configured, and nothing is owed or held. -/
structure Fresh (s : State Address Tokens) : Prop where
  oracle : s.oracle = none
  collateralToken : s.collateralToken = none
  riskParams : s.riskParams = none
  stable : ∀ a, readStableBalance s a = 0
  totalDebt : Cdp.totalDebt s = 0
  totalCollateral : Cdp.totalCollateral s = 0
  supply : totalStableSupply s = 0
  reserves : protocolCollateralReserves s = 0
  badDebt : totalBadDebt s = 0

/-- An accrual leaves the configuration and the balances as they are. -/
theorem frame_of_accrue {p : Position} (h : Returns (accruePosition env user) s p t) :
    t.oracle = s.oracle ∧ t.riskParams = s.riskParams ∧ t.stableBalance = s.stableBalance := by
  obtain ⟨x, haccrued, -⟩ := accruePosition_spec h
  rw [haccrued.frame]
  exact ⟨rfl, rfl, rfl⟩

/-- A quote needs the risk parameters. -/
theorem riskParams_of_quote {requested : ℤ} {quote : LiquidationQuote}
    (h : Returns (quoteLiquidation env user requested) s quote t) : s.riskParams.isSome := by
  simp only [quoteLiquidation, returns_require_bind] at h
  obtain ⟨-, h⟩ := h
  obtain ⟨p, u, haccrue, h⟩ := returns_bind.mp h
  simp only [readRiskParams, bind_assoc, returns_get_bind, returns_orFault_bind] at h
  obtain ⟨params, hparams, -⟩ := h
  rw [← (frame_of_accrue haccrue).2.1, hparams]
  rfl

/-- Before `initialize` every other call fails, or changes nothing. -/
theorem Fresh.eq_of_returns (hs : Fresh s) (hadmin : s.admin = none) {call : Call Address}
    {v : Response} (h : Returns (entryPoint host env call) s v t)
    (hcall : ∀ admin token oracle params model,
      call ≠ .initializeContract admin token oracle params model) : t = s := by
  cases call with
  | initializeContract admin token oracle params model => exact absurd rfl (hcall _ _ _ _ _)
  | setOracle | setLiquidationThreshold | setLiquidationIncentive =>
    simp only [entryPoint, setOracle, setLiquidationThreshold, setLiquidationIncentive,
      requireAdmin, bind_assoc, returns_get_bind, hadmin, returns_orFault_bind] at h
    obtain ⟨_, hnone, -⟩ := h
    cases hnone
  | getRiskParams =>
    simp only [entryPoint, returns_map] at h
    obtain ⟨_, h, -⟩ := h
    exact (readOnly_readRiskParams _ _ _ h).symm
  | liquidationThresholdBps =>
    exact (ReadOnly.bind readOnly_readRiskParams (fun _ => .pure _) _ _ _ h).symm
  | currentBorrowRateBps =>
    simp only [entryPoint, returns_map] at h
    obtain ⟨_, h, -⟩ := h
    exact (readOnly_currentBorrowRateBps _ _ _ h).symm
  | collateralRatioBps user =>
    simp only [entryPoint, returns_get_bind, returns_bind_of_readOnly readOnly_oraclePrice,
      returns_map] at h
    obtain ⟨_, -, _, h, -⟩ := h
    exact (readOnly_collateralRatioBps _ _ _ h).symm
  | dynamicCollateralFloor =>
    simp only [entryPoint, returns_map] at h
    obtain ⟨_, h, -⟩ := h
    exact (readOnly_dynamicCollateralFloor _ _ _ h).symm
  | currentVolatilityBps =>
    simp only [entryPoint, returns_map] at h
    obtain ⟨_, h, -⟩ := h
    exact (readOnly_oracleVolatilityBps _ _ _ h).symm
  | depositCollateral | withdrawCollateral =>
    simp only [entryPoint, depositCollateral, withdrawCollateral, readCollateralToken, requireAuth,
      bind_assoc, returns_map, returns_require_bind, returns_get_bind, returns_orFault_bind,
      hs.collateralToken] at h
    obtain ⟨_, ⟨-, -, _, hnone, -⟩, -⟩ := h
    cases hnone
  | mintStable user amount =>
    simp only [entryPoint, mintStable, requireAuth, returns_map, returns_require_bind] at h
    obtain ⟨_, ⟨-, -, h⟩, -⟩ := h
    obtain ⟨q, u, haccrue, h⟩ := returns_bind.mp h
    simp only [returns_checked_bind, ensureSafe, oraclePrice, bind_assoc, returns_get_bind,
      returns_orFault_bind, (frame_of_accrue haccrue).1, hs.oracle] at h
    obtain ⟨-, _, hnone, -⟩ := h
    cases hnone
  | repay user amount =>
    simp only [entryPoint, returns_map] at h
    obtain ⟨_, h, -⟩ := h
    obtain ⟨-, q, u, r, haccrue, hbalance, -⟩ := repay_spec h
    have hzero : readStableBalance u user = 0 := by
      rw [readStableBalance, (frame_of_accrue haccrue).2.2]
      exact hs.stable user
    exact absurd hzero hbalance.ne'
  | transferStable source destination amount =>
    simp only [entryPoint, transferStable, requireAuth, bind_assoc, returns_require_bind,
      returns_get_bind, hs.stable] at h
    omega
  | quoteLiquidation borrower requested =>
    simp only [entryPoint, returns_map] at h
    obtain ⟨_, h, -⟩ := h
    have hparams := riskParams_of_quote h
    rw [hs.riskParams] at hparams
    cases hparams
  | liquidate liquidator borrower requested =>
    simp only [entryPoint, returns_map] at h
    obtain ⟨_, h, -⟩ := h
    obtain ⟨-, u, tokens, hquote, -⟩ := liquidate_spec h
    have hparams := riskParams_of_quote hquote
    rw [hs.riskParams] at hparams
    cases hparams
  | selfLiquidate borrower =>
    simp only [entryPoint, selfLiquidate, returns_map] at h
    obtain ⟨_, h, -⟩ := h
    obtain ⟨q, u, haccrue, h⟩ := returns_bind.mp h
    simp only [readRiskParams, bind_assoc, returns_get_bind, returns_orFault_bind,
      (frame_of_accrue haccrue).2.1, hs.riskParams] at h
    obtain ⟨_, hnone, -⟩ := h
    cases hnone
  | view view =>
    simp only [entryPoint, returns_get_bind, returns_pure] at h
    exact h.2.symm

/-! ## Runs -/

/-- The books are balanced, and before `initialize` nothing is configured or owed. -/
structure Sound (contract : Address) (s : State Address Tokens) : Prop where
  balanced : Balanced (bookOf contract s)
  fresh : s.admin = none → Fresh s

/-- **A call posts entries to the book**, and none changes the admin but `initialize`, which finds
the storage fresh. -/
theorem posts_after (hs : Sound host.currentContractAddress s) {call : Call Address} {v : Response}
    (h : Returns (entryPoint host env call) s v t) :
    Posts host.currentContractAddress s t ∨
      t.admin.isSome ∧
        bookOf host.currentContractAddress t = bookOf host.currentContractAddress s := by
  cases call with
  | initializeContract admin token oracle params model =>
    simp only [entryPoint, initializeContract, bind_assoc, returns_get_bind, returns_require_bind,
      returns_set_bind, returns_pure, Option.isNone_iff_eq_none] at h
    obtain ⟨hadmin, -, -, rfl⟩ := h
    obtain ⟨-, -, -, -, hdebt, hcollateral, hsupply, hreserves, hbad⟩ := hs.fresh hadmin
    refine .inr ⟨rfl, ?_⟩
    apply Book.ext
    · rfl
    · rfl
    · rfl
    · exact hdebt.symm
    · exact hcollateral.symm
    · exact hsupply.symm
    · exact hreserves.symm
    · exact hbad.symm
    · rfl
  | setOracle oracle =>
    simp only [entryPoint, setOracle, bind_assoc, returns_bind_of_readOnly readOnly_requireAdmin,
      returns_get_bind, returns_set_bind, returns_pure] at h
    obtain ⟨_, -, -, rfl⟩ := h
    exact .inl ⟨rfl, [], rfl⟩
  | setLiquidationThreshold | setLiquidationIncentive =>
    simp only [entryPoint, setLiquidationThreshold, setLiquidationIncentive, bind_assoc,
      returns_bind_of_readOnly readOnly_requireAdmin,
      returns_bind_of_readOnly readOnly_readRiskParams, returns_require_bind, returns_get_bind,
      returns_set_bind, returns_pure] at h
    obtain ⟨_, -, -, _, -, -, rfl⟩ := h
    exact .inl ⟨rfl, [], rfl⟩
  | getRiskParams =>
    obtain ⟨_, h, -⟩ := returns_map.mp h
    exact .inl (readOnly_readRiskParams _ _ _ h ▸ .refl _ _)
  | liquidationThresholdBps =>
    exact .inl ((ReadOnly.bind readOnly_readRiskParams fun _ => .pure _) _ _ _ h ▸ .refl _ _)
  | currentBorrowRateBps =>
    obtain ⟨_, h, -⟩ := returns_map.mp h
    exact .inl (readOnly_currentBorrowRateBps _ _ _ h ▸ .refl _ _)
  | collateralRatioBps user =>
    simp only [entryPoint, returns_get_bind, returns_bind_of_readOnly readOnly_oraclePrice,
      returns_map] at h
    obtain ⟨_, -, _, h, -⟩ := h
    exact .inl (readOnly_collateralRatioBps _ _ _ h ▸ .refl _ _)
  | dynamicCollateralFloor =>
    obtain ⟨_, h, -⟩ := returns_map.mp h
    exact .inl (readOnly_dynamicCollateralFloor _ _ _ h ▸ .refl _ _)
  | currentVolatilityBps =>
    obtain ⟨_, h, -⟩ := returns_map.mp h
    exact .inl (readOnly_oracleVolatilityBps _ _ _ h ▸ .refl _ _)
  | depositCollateral user amount =>
    obtain ⟨_, h, -⟩ := returns_map.mp h
    exact .inl (depositCollateral_posts h)
  | withdrawCollateral user amount =>
    obtain ⟨_, h, -⟩ := returns_map.mp h
    exact .inl (withdrawCollateral_posts h)
  | mintStable user amount =>
    obtain ⟨_, h, -⟩ := returns_map.mp h
    exact .inl (mintStable_posts h)
  | repay user amount =>
    obtain ⟨_, h, -⟩ := returns_map.mp h
    exact .inl (repay_posts h)
  | transferStable source destination amount =>
    obtain ⟨_, _, hbody, hpure⟩ := returns_bind.mp h
    obtain ⟨-, rfl⟩ := returns_pure.mp hpure
    exact .inl (transferStable_posts hbody)
  | quoteLiquidation borrower requested =>
    obtain ⟨_, h, -⟩ := returns_map.mp h
    obtain ⟨p, haccrue, -⟩ := quoteLiquidation_spec h
    exact .inl (.of_accrue haccrue)
  | liquidate liquidator borrower requested =>
    obtain ⟨_, h, -⟩ := returns_map.mp h
    exact .inl (liquidate_posts h)
  | selfLiquidate borrower =>
    obtain ⟨_, h, -⟩ := returns_map.mp h
    exact .inl (selfLiquidate_posts h)
  | view view =>
    simp only [entryPoint, returns_get_bind, returns_pure] at h
    obtain ⟨-, rfl⟩ := h
    exact .inl (.refl _ _)

theorem Sound.call (hs : Sound host.currentContractAddress s) {call : Call Address} {v : Response}
    (h : Returns (entryPoint host env call) s v t) : Sound host.currentContractAddress t := by
  rcases posts_after hs h with ⟨hadmin, ps, hbook⟩ | ⟨hadmin, hbook⟩
  · refine ⟨hbook ▸ hs.balanced.posts ps, ?_⟩
    intro hnone
    rw [hadmin] at hnone
    have hfresh := hs.fresh hnone
    by_cases hcall : ∃ admin token oracle params model,
        call = .initializeContract admin token oracle params model
    · -- the admin that `initialize` has stored is still there
      obtain ⟨admin, token, oracle, params, model, rfl⟩ := hcall
      simp only [entryPoint, initializeContract, bind_assoc, returns_get_bind,
        returns_require_bind, returns_set_bind, returns_pure] at h
      obtain ⟨-, -, -, rfl⟩ := h
      cases hadmin.trans hnone
    · push Not at hcall
      rw [hfresh.eq_of_returns hnone h hcall]
      exact hfresh
  · refine ⟨hbook ▸ hs.balanced, ?_⟩
    intro hnone
    rw [hnone] at hadmin
    cases hadmin

theorem sound_initial (contract : Address) (tokens : Tokens) :
    Sound contract (State.initial tokens : State Address Tokens) :=
  ⟨balanced_initial contract tokens,
    fun _ => ⟨rfl, rfl, rfl, fun _ => rfl, rfl, rfl, rfl, rfl, rfl⟩⟩

end

/-! ## A run with every kind of entry -/

/-- The contract at address 0, with a token that accepts every transfer. -/
def sampleHost : Host ℕ Unit where
  currentContractAddress := 0
  transfer := fun _ _ _ _ _ => some ()

/-- Everybody else authorizes the call, at a ledger and a price. -/
def sampleEnv (sequence price : ℤ) : Env sampleHost where
  sequence := sequence
  auth := fun addr => addr != 0
  auth_contract := rfl
  latestPrice := fun _ => some price
  volatilityBps := fun _ => some 0

def sampleRiskParams : RiskParams where
  minCollateralRatioBps := 15000
  liquidationIncentiveBps := 500
  volatilityConfig := ⟨100, 1000, 10000, 20000⟩

def sampleModel : InterestRateModel := ⟨200, 800, 2000, 8000⟩

/-- Two positions are opened, the price falls after half a year, one position is liquidated in part,
the other is taken over. -/
def sampleCalls : List (Env sampleHost × Call ℕ) :=
  [(sampleEnv 1 10000000, .initializeContract 9 100 101 sampleRiskParams sampleModel),
   (sampleEnv 1 10000000, .depositCollateral 1 2000000),
   (sampleEnv 1 10000000, .depositCollateral 2 2000000),
   (sampleEnv 1 10000000, .mintStable 1 1000000),
   (sampleEnv 1 10000000, .mintStable 2 1200000),
   (sampleEnv 2 10000000, .transferStable 2 3 500000),
   (sampleEnv 3153601 10000000, .repay 1 100000),
   (sampleEnv 3153602 10000000, .withdrawCollateral 1 10),
   (sampleEnv 3153603 6000000, .liquidate 3 1 400000),
   (sampleEnv 3153604 5000000, .selfLiquidate 2)]

end Cdp
