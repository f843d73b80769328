import SkyMoonScope.Lib.Integers
import SkyMoonScope.Soroban.Calls
import SkyMoonScope.Soroban.Token

/-!
# The Dutch auction

The contract of `contracts/dutch_auction/src/lib.rs`. The price of an asset falls from ledger to
ledger, from a first price to a last one, until somebody buys it or the seller takes it back. The
price falls in a line, as long as the product that it is computed by is an `i128`; after that it is
the last price.

## Main definitions

* `Auction`, `State`: the entries of the contract
* `currentPrice`: the price at a ledger
* `getCurrentPrice`, `buy`, `reclaim`: the entry points
* `Accepted`: what the initialization accepts

## Main results

* `currentPrice_eq`: the line, and where the price leaves it
* `currentPrice_anti`: the price does not go up
* `accepted_of_run`: the auction of every run
* `price_curve`: the price of every run
* `price_off_line`: a run in which the price leaves the line
-/

namespace DutchAuction

open Soroban Machine

structure Auction (Address : Type) where
  seller : Address
  nftContract : Address
  tokenId : ℤ
  paymentToken : Address
  startPrice : ℤ
  endPrice : ℤ
  startLedger : ℕ
  endLedger : ℕ
  sold : Bool

/-- The entries of the contract, which the initialization stores together, and the storage of the
other contracts. -/
structure State (Address Tokens : Type) where
  auction : Option (Auction Address)
  tokens : Tokens

def State.initial {Address Tokens : Type} (tokens : Tokens) : State Address Tokens := ⟨none, tokens⟩

/-- The other contracts, and the address of this one. -/
structure Host (Address Tokens : Type) extends TokenInterface Address Tokens where
  currentContractAddress : Address

/-- What a call takes from its surroundings: who has authorized it, and the ledger. -/
structure Env (Address : Type) where
  auth : Address → Bool
  sequence : ℕ

/-- A contract without errors of its own: its calls return or trap. -/
abbrev Body (Address Tokens α : Type) := Contract (State Address Tokens) Empty α

variable {Address Tokens : Type}

/-! ## The price -/

/-- The price at a ledger. Where the product overflows, it has fallen to the end. -/
def currentPrice (auction : Auction Address) (currentLedger : ℕ) : ℤ :=
  if currentLedger ≥ auction.endLedger then auction.endPrice
  else if currentLedger ≤ auction.startLedger then auction.startPrice
  else
    let totalDuration : ℤ := (auction.endLedger - auction.startLedger : ℕ)
    let elapsed : ℤ := (currentLedger - auction.startLedger : ℕ)
    let priceDrop :=
      max ((IntType.i128.checked (auction.startPrice - auction.endPrice)).getD 0) 0
    let currentDrop := ((IntType.i128.checked (priceDrop * elapsed)).bind fun v =>
      IntType.i128.checkedDiv v totalDuration).getD priceDrop
    let price := (IntType.i128.checked (auction.startPrice - currentDrop)).getD auction.endPrice
    if price < auction.endPrice then auction.endPrice else price

/-! ## The entry points -/

section Functions

variable (host : Host Address Tokens) (env : Env Address)

def requireAuth (addr : Address) : Body Address Tokens Unit :=
  require (env.auth addr) (.trap "Error(Auth, InvalidAction)")

/-- A call of `transfer` of another contract, which fails where that one does. -/
def transfer (token source destination : Address) (amount : ℤ) : Body Address Tokens Unit := do
  let s ← get
  let tokens ← orFault (host.transfer token source destination amount s.tokens)
    (.trap "Error(Contract)")
  set { s with tokens }

def readAuction : Body Address Tokens (Auction Address) := do
  let s ← get
  orFault s.auction (.trap "called `Option::unwrap()` on a `None` value")

/-- The asset is sold, or was taken back. -/
def markSold (auction : Auction Address) : Body Address Tokens Unit := do
  let s ← get
  set { s with auction := some { auction with sold := true } }

def initializeAuction (seller nftContract : Address) (tokenId : ℤ) (paymentToken : Address)
    (startPrice endPrice : ℤ) (durationLedgers : ℕ) : Body Address Tokens Unit := do
  let s ← get
  require (¬s.auction.isSome) (.trap "Already initialized")
  require (¬(startPrice ≤ 0 ∨ endPrice < 0))
    (.trap "prices must be non-negative and start_price must be > 0")
  require (¬endPrice > startPrice) (.trap "end_price (floor) cannot exceed start_price")
  require (¬durationLedgers = 0) (.trap "duration_ledgers must be greater than zero")
  let startLedger := env.sequence
  let endLedger := startLedger + durationLedgers
  require (endLedger < 2 ^ 32) (.trap "attempt to add with overflow")
  set { s with auction := some {
    seller, nftContract, tokenId, paymentToken, startPrice, endPrice, startLedger, endLedger
    sold := false } }

def getCurrentPrice : Body Address Tokens ℤ := do
  let auction ← readAuction
  pure (currentPrice auction env.sequence)

/-- The payment goes through the contract. -/
def buy (buyer : Address) : Body Address Tokens Unit := do
  requireAuth env buyer
  let auction ← readAuction
  require (¬auction.sold) (.trap "Already sold")
  let currentPrice ← getCurrentPrice env
  transfer host auction.paymentToken buyer host.currentContractAddress currentPrice
  transfer host auction.nftContract host.currentContractAddress buyer auction.tokenId
  transfer host auction.paymentToken host.currentContractAddress auction.seller currentPrice
  markSold auction

/-- Where the asset is not sold by the end, the seller takes it back. -/
def reclaim : Body Address Tokens Unit := do
  let auction ← readAuction
  require (¬env.sequence < auction.endLedger) (.trap "Auction not ended")
  require (¬auction.sold) (.trap "Already sold")
  requireAuth env auction.seller
  transfer host auction.nftContract host.currentContractAddress auction.seller auction.tokenId
  markSold auction

end Functions

/-- A call with its arguments. The prices are `i128` values; of the lower one this is checked. -/
inductive Call (Address : Type)
  | initializeAuction (seller nftContract : Address) (tokenId : ℤ) (paymentToken : Address)
      (startPrice : ℤ) (fits : IntType.i128.Fits startPrice) (endPrice : ℤ) (durationLedgers : ℕ)
  | getCurrentPrice
  | buy (buyer : Address)
  | reclaim

/-- The body of a call, with zero for the result of one that returns none. -/
def entryPoint (host : Host Address Tokens) (env : Env Address) :
    Call Address → Body Address Tokens ℤ
  | .initializeAuction seller nftContract tokenId paymentToken startPrice _ endPrice
      durationLedgers =>
    (fun _ => 0) <$> initializeAuction env seller nftContract tokenId paymentToken startPrice
      endPrice durationLedgers
  | .getCurrentPrice => getCurrentPrice env
  | .buy buyer => (fun _ => 0) <$> buy host env buyer
  | .reclaim => (fun _ => 0) <$> reclaim host env

/-- A call of the contract with what it returned. -/
abbrev Event (Address : Type) := Soroban.Event (Env Address) (Call Address) Empty ℤ

/-! ## The line -/

/-- What the initialization accepts: prices that are not negative and do not go up, and a duration
that is not zero. -/
structure Accepted (auction : Auction Address) : Prop where
  endPrice_nonneg : 0 ≤ auction.endPrice
  endPrice_le : auction.endPrice ≤ auction.startPrice
  startPrice_fits : IntType.i128.Fits auction.startPrice
  ledgers_lt : auction.startLedger < auction.endLedger

/-- The product that the price is computed by, without its bounds. -/
def dropTimesElapsed (auction : Auction Address) (ledger : ℕ) : ℤ :=
  (auction.startPrice - auction.endPrice) * (ledger - auction.startLedger : ℕ)

/-- The line between the prices, rounded up. -/
def linearPrice (auction : Auction Address) (ledger : ℕ) : ℤ :=
  auction.startPrice -
    dropTimesElapsed auction ledger / (auction.endLedger - auction.startLedger : ℕ)

section Price

variable {auction : Auction Address} {ledger later : ℕ}

theorem Accepted.drop_nonneg (h : Accepted auction) : 0 ≤ auction.startPrice - auction.endPrice :=
  sub_nonneg.mpr h.endPrice_le

theorem Accepted.duration_pos (h : Accepted auction) :
    (0 : ℤ) < (auction.endLedger - auction.startLedger : ℕ) := by
  have hlt := h.ledgers_lt
  omega

theorem Accepted.product_nonneg (h : Accepted auction) : 0 ≤ dropTimesElapsed auction ledger :=
  mul_nonneg h.drop_nonneg (Int.natCast_nonneg _)

/-- The product does not become less. -/
theorem Accepted.product_mono (h : Accepted auction) (hle : ledger ≤ later) :
    dropTimesElapsed auction ledger ≤ dropTimesElapsed auction later :=
  mul_le_mul_of_nonneg_left (by omega) h.drop_nonneg

/-- The line is between the prices. -/
theorem Accepted.linearPrice_mem (h : Accepted auction) (hledger : ledger ≤ auction.endLedger) :
    auction.endPrice ≤ linearPrice auction ledger ∧
      linearPrice auction ledger ≤ auction.startPrice := by
  -- no more than the whole drop, since no more than the whole time has elapsed
  have hdrop : dropTimesElapsed auction ledger / (auction.endLedger - auction.startLedger : ℕ) ≤
      auction.startPrice - auction.endPrice :=
    Int.ediv_le_of_le_mul h.duration_pos (mul_le_mul_of_nonneg_left (by omega) h.drop_nonneg)
  have hnonneg := Int.ediv_nonneg h.product_nonneg h.duration_pos.le (a := dropTimesElapsed auction
    ledger)
  unfold linearPrice
  constructor <;> linarith

/-- **The price** is on the line while the product is an `i128`, and is the last price after
that. -/
theorem currentPrice_eq (h : Accepted auction) (hstart : auction.startLedger ≤ ledger)
    (hend : ledger < auction.endLedger) :
    currentPrice auction ledger = if dropTimesElapsed auction ledger ≤ 2 ^ 127 - 1 then
      linearPrice auction ledger else auction.endPrice := by
  have hmem := h.linearPrice_mem hend.le
  -- every amount up to the first price is an `i128`
  have hfits : ∀ {x : ℤ}, 0 ≤ x → x ≤ auction.startPrice → IntType.i128.Fits x :=
    fun hx hle => ⟨le_trans (by decide) hx, hle.trans h.startPrice_fits.2⟩
  have hdrop : IntType.i128.checked (auction.startPrice - auction.endPrice) =
      some (auction.startPrice - auction.endPrice) :=
    IntType.checked_eq_some.mpr ⟨hfits h.drop_nonneg (by linarith [h.endPrice_nonneg]), rfl⟩
  unfold currentPrice
  rw [if_neg (not_le.mpr hend)]
  by_cases hfirst : ledger ≤ auction.startLedger
  · -- at the first ledger nothing has elapsed
    obtain rfl := hfirst.antisymm hstart
    have hzero : dropTimesElapsed auction auction.startLedger = 0 := by
      rw [dropTimesElapsed, Nat.sub_self, Nat.cast_zero, mul_zero]
    rw [if_pos le_rfl, linearPrice, hzero, if_pos (by decide), Int.zero_ediv, sub_zero]
  · rw [if_neg hfirst, hdrop, Option.getD_some, max_eq_left h.drop_nonneg]
    dsimp only
    rw [show (auction.startPrice - auction.endPrice) * (ledger - auction.startLedger : ℕ) =
      dropTimesElapsed auction ledger from rfl]
    have hnonneg : 0 ≤ dropTimesElapsed auction ledger := h.product_nonneg
    by_cases hproduct : dropTimesElapsed auction ledger ≤ 2 ^ 127 - 1
    · -- no operation overflows, and the price is not below the last one
      have hquotient : dropTimesElapsed auction ledger / (auction.endLedger -
          auction.startLedger : ℕ) = auction.startPrice - linearPrice auction ledger := by
        unfold linearPrice
        ring
      have hdiv : IntType.i128.checkedDiv (dropTimesElapsed auction ledger)
          (auction.endLedger - auction.startLedger : ℕ) =
            some (auction.startPrice - linearPrice auction ledger) := by
        rw [IntType.checkedDiv_eq_some, Int.tdiv_eq_ediv_of_nonneg hnonneg, hquotient]
        exact ⟨h.duration_pos.ne', hfits (by linarith) (by linarith [h.endPrice_nonneg]), rfl⟩
      rw [if_pos hproduct, IntType.checked_eq_some.mpr
        ⟨⟨le_trans (by decide) hnonneg, hproduct⟩, rfl⟩, Option.bind_some, hdiv, Option.getD_some,
        sub_sub_cancel, IntType.checked_eq_some.mpr
        ⟨hfits (h.endPrice_nonneg.trans hmem.1) hmem.2, rfl⟩, Option.getD_some,
        if_neg (not_lt.mpr hmem.1)]
    · -- the product overflows: the whole drop is taken off
      have hnone : IntType.i128.checked (dropTimesElapsed auction ledger) = none :=
        IntType.checked_eq_none.mpr fun hfits => hproduct hfits.2
      rw [if_neg hproduct, hnone, Option.bind_none, Option.getD_none, sub_sub_cancel,
        IntType.checked_eq_some.mpr ⟨hfits h.endPrice_nonneg h.endPrice_le, rfl⟩,
        Option.getD_some, if_neg (lt_irrefl _)]

theorem currentPrice_of_le (h : Accepted auction) (hledger : ledger ≤ auction.startLedger) :
    currentPrice auction ledger = auction.startPrice := by
  rw [currentPrice, if_neg (not_le.mpr (hledger.trans_lt h.ledgers_lt)), if_pos hledger]

theorem currentPrice_of_ended (hledger : auction.endLedger ≤ ledger) :
    currentPrice auction ledger = auction.endPrice := if_pos hledger

/-- **The price is between the prices** at all ledgers. -/
theorem currentPrice_mem (h : Accepted auction) (ledger : ℕ) :
    auction.endPrice ≤ currentPrice auction ledger ∧
      currentPrice auction ledger ≤ auction.startPrice := by
  rcases le_total ledger auction.startLedger with hstart | hstart
  · rw [currentPrice_of_le h hstart]
    exact ⟨h.endPrice_le, le_rfl⟩
  · rcases le_or_gt auction.endLedger ledger with hend | hend
    · rw [currentPrice_of_ended hend]
      exact ⟨le_rfl, h.endPrice_le⟩
    · rw [currentPrice_eq h hstart hend]
      split
      · exact h.linearPrice_mem hend.le
      · exact ⟨le_rfl, h.endPrice_le⟩

/-- **The price does not go up.** -/
theorem currentPrice_anti (h : Accepted auction) (hle : ledger ≤ later) :
    currentPrice auction later ≤ currentPrice auction ledger := by
  rcases le_total ledger auction.startLedger with hstart | hstart
  · rw [currentPrice_of_le h hstart]
    exact (currentPrice_mem h later).2
  · rcases le_or_gt auction.endLedger later with hend | hend
    · rw [currentPrice_of_ended hend]
      exact (currentPrice_mem h ledger).1
    · rw [currentPrice_eq h hstart (hle.trans_lt hend), currentPrice_eq h (hstart.trans hle) hend]
      have hproduct := h.product_mono hle
      by_cases hlater : dropTimesElapsed auction later ≤ 2 ^ 127 - 1
      · -- both prices are on the line
        rw [if_pos hlater, if_pos (hproduct.trans hlater)]
        exact sub_le_sub_left (Int.ediv_le_ediv h.duration_pos hproduct) _
      · -- the later price is the last one, which no price is below
        rw [if_neg hlater]
        split
        · exact (h.linearPrice_mem (hle.trans hend.le)).1
        · exact le_rfl

end Price

/-! ## Runs -/

section Runs

variable {host : Host Address Tokens} {env : Env Address} {s t : State Address Tokens} {r : Unit}
  {v : ℤ} {auction : Auction Address}

theorem returns_readAuction_bind {α : Type} {a : α} {f : Auction Address → Body Address Tokens α} :
    Returns (readAuction >>= f) s a t ↔
      ∃ auction, s.auction = some auction ∧ Returns (f auction) s a t := by
  simp only [readAuction, bind_assoc, returns_get_bind, returns_orFault_bind]

theorem returns_transfer_bind {α : Type} {a : α} {token source destination : Address} {amount : ℤ}
    {f : Unit → Body Address Tokens α} :
    Returns (transfer host token source destination amount >>= f) s a t ↔
      ∃ tokens, host.transfer token source destination amount s.tokens = some tokens ∧
        Returns (f ()) { s with tokens } a t := by
  simp only [transfer, bind_assoc, returns_get_bind, returns_orFault_bind, returns_set_bind]

theorem returns_markSold : Returns (markSold auction) s r t ↔
    { s with auction := some { auction with sold := true } } = t := by
  rw [markSold, returns_get_bind, returns_set]

theorem returns_getCurrentPrice : Returns (getCurrentPrice env) s v t ↔
    ∃ auction, s.auction = some auction ∧ currentPrice auction env.sequence = v ∧ s = t := by
  simp only [getCurrentPrice, returns_readAuction_bind, returns_pure]

/-- **A purchase** pays the current price to the seller, and gives the asset to the buyer. -/
theorem returns_buy {buyer : Address} (h : Returns (buy host env buyer) s r t) :
    ∃ auction paid given settled, s.auction = some auction ∧ env.auth buyer = true ∧
      auction.sold = false ∧
      host.transfer auction.paymentToken buyer host.currentContractAddress
        (currentPrice auction env.sequence) s.tokens = some paid ∧
      host.transfer auction.nftContract host.currentContractAddress buyer auction.tokenId paid =
        some given ∧
      host.transfer auction.paymentToken host.currentContractAddress auction.seller
        (currentPrice auction env.sequence) given = some settled ∧
      t = ⟨some { auction with sold := true }, settled⟩ := by
  simp only [buy, requireAuth, returns_require_bind, returns_readAuction_bind,
    Bool.not_eq_true] at h
  obtain ⟨hauth, auction, hauction, hsold, h⟩ := h
  obtain ⟨price, u, hprice, h⟩ := returns_bind.mp h
  obtain ⟨auction', hauction', rfl, rfl⟩ := returns_getCurrentPrice.mp hprice
  -- the price is read from the same auction
  obtain rfl := Option.some.inj (hauction.symm.trans hauction')
  simp only [returns_transfer_bind, returns_markSold] at h
  obtain ⟨paid, hpaid, given, hgiven, settled, hsettled, rfl⟩ := h
  exact ⟨auction, paid, given, settled, hauction, hauth, hsold, hpaid, hgiven, hsettled, rfl⟩

/-- **The seller takes the asset back** after the end, where it was not sold. -/
theorem returns_reclaim (h : Returns (reclaim host env) s r t) :
    ∃ auction tokens, s.auction = some auction ∧ auction.endLedger ≤ env.sequence ∧
      auction.sold = false ∧ env.auth auction.seller = true ∧
      host.transfer auction.nftContract host.currentContractAddress auction.seller
        auction.tokenId s.tokens = some tokens ∧
      t = ⟨some { auction with sold := true }, tokens⟩ := by
  simp only [reclaim, requireAuth, returns_readAuction_bind, returns_require_bind,
    returns_transfer_bind, returns_markSold, not_lt, Bool.not_eq_true] at h
  obtain ⟨auction, hauction, hend, hsold, hauth, tokens, htransfer, rfl⟩ := h
  exact ⟨auction, tokens, hauction, hend, hsold, hauth, htransfer, rfl⟩

/-- Being sold does not matter for what was accepted. -/
theorem Accepted.sold (h : Accepted auction) : Accepted { auction with sold := true } :=
  ⟨h.endPrice_nonneg, h.endPrice_le, h.startPrice_fits, h.ledgers_lt⟩

/-- **Every call** that returns keeps what the initialization has accepted. -/
theorem accepted_step {call : Call Address} (hs : ∀ auction, s.auction = some auction →
    Accepted auction) (h : Returns (entryPoint host env call) s v t) :
    ∀ auction, t.auction = some auction → Accepted auction := by
  cases call with
  | initializeAuction seller nftContract tokenId paymentToken startPrice fits endPrice
      durationLedgers =>
    obtain ⟨_, h, -⟩ := returns_map.mp h
    simp only [initializeAuction, returns_get_bind, returns_require_bind, returns_set, not_or,
      not_le, not_lt] at h
    -- the checks of the initialization are what is accepted
    obtain ⟨-, ⟨hpositive, hnonneg⟩, hle, hduration, -, rfl⟩ := h
    intro auction hauction
    obtain rfl := Option.some.inj hauction
    exact ⟨hnonneg, hle, fits, Nat.lt_add_of_pos_right (Nat.pos_of_ne_zero hduration)⟩
  | getCurrentPrice =>
    obtain ⟨_, -, -, rfl⟩ := returns_getCurrentPrice.mp h
    exact hs
  | buy buyer =>
    obtain ⟨_, h, -⟩ := returns_map.mp h
    obtain ⟨auction, -, -, settled, hauction, -, -, -, -, -, rfl⟩ := returns_buy h
    intro auction' hauction'
    obtain rfl := Option.some.inj hauction'
    exact (hs auction hauction).sold
  | reclaim =>
    obtain ⟨_, h, -⟩ := returns_map.mp h
    obtain ⟨auction, tokens, hauction, -, -, -, -, rfl⟩ := returns_reclaim h
    intro auction' hauction'
    obtain rfl := Option.some.inj hauction'
    exact (hs auction hauction).sold

variable {tokens : Tokens} {ls : List (Event Address)}

theorem accepted_of_run (h : Run (Step (entryPoint host)) (State.initial tokens) ls s) :
    ∀ auction, s.auction = some auction → Accepted auction :=
  invariant_of_returns (P := fun _ _ _ => True)
    (I := fun u => ∀ auction, u.auction = some auction → Accepted auction)
    (fun hu hreturns _ => accepted_step hu hreturns) (run_unconditional h) nofun

/-- **The price of every run** is what `currentPrice` computes from the auction. It does not go up
from ledger to ledger, is between the two prices at all of them, and while the auction runs it is on
the line as long as the product is an `i128`, and the last price after that. -/
theorem price_curve (h : Run (Step (entryPoint host)) (State.initial tokens) ls s)
    (hauction : s.auction = some auction) :
    (∀ env, Returns (getCurrentPrice env) s (currentPrice auction env.sequence) s) ∧
      (∀ ledger later, ledger ≤ later →
        currentPrice auction later ≤ currentPrice auction ledger) ∧
      (∀ ledger, auction.endPrice ≤ currentPrice auction ledger ∧
        currentPrice auction ledger ≤ auction.startPrice) ∧
      ∀ ledger, auction.startLedger ≤ ledger → ledger < auction.endLedger →
        currentPrice auction ledger = if dropTimesElapsed auction ledger ≤ 2 ^ 127 - 1 then
          linearPrice auction ledger else auction.endPrice := by
  have haccepted := accepted_of_run h auction hauction
  exact ⟨fun env => returns_getCurrentPrice.mpr ⟨auction, hauction, rfl, rfl⟩,
    fun _ _ hle => currentPrice_anti haccepted hle, currentPrice_mem haccepted,
    fun ledger hstart hend => currentPrice_eq haccepted hstart hend⟩

end Runs

/-! ## Two auctions -/

/-- Balances of all tokens. The contract has the address 0. -/
def market : Host ℕ (Balances ℕ) where
  toTokenInterface := Balances.interface ℕ
  currentContractAddress := 0

/-- An auction that runs from the ledger 100 to the ledger 104. -/
def opened (startPrice : ℤ) (fits : IntType.i128.Fits startPrice) : List (Env ℕ × Call ℕ) :=
  [(⟨fun _ => true, 100⟩, .initializeAuction 1 8 5 9 startPrice fits 0 4)]

/-- The auction that is stored then. -/
def openedAuction (startPrice : ℤ) : Auction ℕ := ⟨1, 8, 5, 9, startPrice, 0, 100, 104, false⟩

theorem price_curve_sample :
    (List.range' 99 6).map (currentPrice (openedAuction 10)) = [10, 10, 8, 5, 3, 0] ∧
      ∀ ledger later, ledger ≤ later →
        currentPrice (openedAuction 10) later ≤ currentPrice (openedAuction 10) ledger :=
  ⟨by decide +kernel, (price_curve (run_execute (entryPoint market)
    (State.initial (Balances.constant ℕ 0)) (opened 10 (by decide))) rfl).2.1⟩

/-- **Off the line.** At half of the time the price is zero, and not half of the first price. -/
theorem price_off_line :
    ¬∀ (ls : List (Event ℕ)) (s : State ℕ (Balances ℕ)) (auction : Auction ℕ),
      Run (Step (entryPoint market)) (State.initial (Balances.constant ℕ 0)) ls s →
        s.auction = some auction → ∀ ledger, auction.startLedger ≤ ledger →
          ledger < auction.endLedger →
            currentPrice auction ledger = linearPrice auction ledger := by
  intro hall
  have hline := hall _ _ (openedAuction (2 ^ 126)) (run_execute (entryPoint market) _
    (opened (2 ^ 126) (by decide))) rfl 102 (by decide) (by decide)
  -- the product is `2 ^ 127` there, one too large
  exact absurd hline (by decide +kernel)

end DutchAuction
