import SkyMoonScope.Soroban.Calls
import SkyMoonScope.Soroban.Token

/-!
# The English auction

The contract of `contracts/english_auction/src/lib.rs`. A seller leaves an asset with the contract.
Every bid pays its amount to the contract, which refunds the bid before it at once. When the
deadline has passed, the asset goes to the highest bidder, or back to the seller. Both the asset and
the payments are moved by a call of `transfer` of their contract. The entry points that only read,
and the lifetime of the storage, are left out.

## Main definitions

* `Auction`, `State`: the entries of the contract
* `Host`, `Env`: the other contracts, and what a call takes from its surroundings
* `bid`, `endAuction`: the entry points
* `Call`, `entryPoint`: a call of the contract, and its body

## Main results

* `returns_bid`, `returns_endAuction`: what a call has checked, and what it writes
-/

namespace EnglishAuction

open Soroban

def antiSnipeWindowLedgers : ℕ := 60

def antiSnipeExtensionLedgers : ℕ := 60

def antiSnipeWindowSeconds : ℕ := 300

def antiSnipeExtensionSeconds : ℕ := 300

def secondsPerLedger : ℕ := 5

structure Bid (Address : Type) where
  bidder : Address
  amount : ℤ

/-- The entries that the initialization stores together. -/
structure Auction (Address : Type) where
  seller : Address
  nftContract : Address
  tokenId : ℤ
  paymentToken : Address
  startingPrice : ℤ
  reservePrice : ℤ
  endLedger : ℕ
  endTimestamp : ℕ
  highestBid : ℤ
  bids : List (Bid Address)

/-- A call of `transfer` of another contract that this one has made. For a payment the last argument
is an amount, and for the asset its number. -/
structure Transfer (Address : Type) where
  token : Address
  source : Address
  destination : Address
  amount : ℤ

/-- The entries of the contract, with a record of the transfers that it has made, and the storage of
the other contracts. It is also recorded by how much others have changed what this contract holds of
a token. -/
structure State (Address Tokens : Type) where
  auction : Option (Auction Address)
  highestBidder : Option Address
  transfers : List (Transfer Address)
  outside : Address → ℤ
  tokens : Tokens

/-- The storage before the first call. -/
def State.initial {Address Tokens : Type} (tokens : Tokens) : State Address Tokens where
  auction := none
  highestBidder := none
  transfers := []
  outside := fun _ => 0
  tokens := tokens

/-- The other contracts, and the address of this one. -/
structure Host (Address Tokens : Type) extends TokenInterface Address Tokens where
  currentContractAddress : Address

/-- What a call takes from its surroundings: who has authorized it, which the contract itself never
has, and the ledger. -/
structure Env {Address Tokens : Type} (host : Host Address Tokens) where
  auth : Address → Bool
  auth_contract : auth host.currentContractAddress = false
  sequence : ℕ
  sequence_lt : sequence < 2 ^ 32
  timestamp : ℕ

/-- A contract without errors of its own: its calls return or trap. -/
abbrev Body (Address Tokens α : Type) := Contract (State Address Tokens) Empty α

variable {Address Tokens : Type}

section Functions

variable {host : Host Address Tokens} (env : Env host)

def requireAuth (addr : Address) : Body Address Tokens Unit :=
  require (env.auth addr) (.trap "Error(Auth, InvalidAction)")

variable (host) in
/-- A call of `transfer` of another contract, which is recorded, and fails where that one does. -/
def transfer (token source destination : Address) (amount : ℤ) : Body Address Tokens Unit := do
  let s ← get
  let tokens ← orFault (host.transfer token source destination amount s.tokens)
    (.trap "Error(Contract)")
  set { s with tokens, transfers := s.transfers ++ [Transfer.mk token source destination amount] }

def readAuction : Body Address Tokens (Auction Address) := do
  let s ← get
  orFault s.auction (.trap "called `Option::unwrap()` on a `None` value")

def readHighestBidder : Body Address Tokens Address := do
  let s ← get
  orFault s.highestBidder (.trap "called `Option::unwrap()` on a `None` value")

/-- The asset is escrowed when everything else is stored. -/
def initializeAuction (seller nftContract : Address) (tokenId : ℤ) (paymentToken : Address)
    (startingPrice reservePrice : ℤ) (durationLedgers : ℕ) : Body Address Tokens Unit := do
  let s ← get
  require (¬s.auction.isSome) (.trap "Already initialized")
  require (¬durationLedgers = 0) (.trap "duration_ledgers must be greater than zero")
  requireAuth env seller
  let endLedger := env.sequence + durationLedgers
  require (endLedger < 2 ^ 32) (.trap "attempt to add with overflow")
  let endTimestamp := env.timestamp + min (durationLedgers * secondsPerLedger) (2 ^ 64 - 1)
  require (endTimestamp < 2 ^ 64) (.trap "attempt to add with overflow")
  let auction := {
    seller, nftContract, tokenId, paymentToken, startingPrice, reservePrice, endLedger, endTimestamp
    highestBid := 0
    bids := [] }
  set { s with auction := some auction }
  transfer host nftContract seller host.currentContractAddress tokenId

variable (host) in
/-- Returns the highest bid to its bidder, if there is one. -/
def refundHighest (auction : Auction Address) : Body Address Tokens Unit := do
  if auction.highestBid > 0 then do
    let prevBidder ← readHighestBidder
    transfer host auction.paymentToken host.currentContractAddress prevBidder auction.highestBid

/-- A bid close to the deadline moves it. -/
def maybeExtendDeadline (auction : Auction Address) : Auction Address :=
  let remainingLedgers := auction.endLedger - env.sequence
  let remainingSeconds := auction.endTimestamp - env.timestamp
  if remainingLedgers ≤ antiSnipeWindowLedgers ∨ remainingSeconds ≤ antiSnipeWindowSeconds then
    { auction with
      endLedger := min (auction.endLedger + antiSnipeExtensionLedgers) (2 ^ 32 - 1)
      endTimestamp := min (auction.endTimestamp + antiSnipeExtensionSeconds) (2 ^ 64 - 1) }
  else auction

def bid (bidder : Address) (amount : ℤ) : Body Address Tokens Unit := do
  requireAuth env bidder
  let auction ← readAuction
  require (¬env.sequence ≥ auction.endLedger) (.trap "Auction ended")
  require (¬amount < auction.startingPrice) (.trap "Bid too low")
  require (¬amount ≤ auction.highestBid) (.trap "Bid not higher than current highest")
  transfer host auction.paymentToken bidder host.currentContractAddress amount
  refundHighest host auction
  let s ← get
  set { s with
    highestBidder := some bidder
    auction := some (maybeExtendDeadline env { auction with
      highestBid := amount
      bids := auction.bids ++ [Bid.mk bidder amount] }) }

def endAuction : Body Address Tokens Unit := do
  let auction ← readAuction
  require (¬env.sequence < auction.endLedger) (.trap "Auction not ended yet")
  if auction.highestBid ≥ auction.reservePrice then do
    let highestBidder ← readHighestBidder
    transfer host auction.nftContract host.currentContractAddress highestBidder auction.tokenId
    transfer host auction.paymentToken host.currentContractAddress auction.seller auction.highestBid
  else do
    refundHighest host auction
    transfer host auction.nftContract host.currentContractAddress auction.seller auction.tokenId

variable (host) in
/-- What others do between the calls, with their effect on what this contract holds. -/
def others (change : Tokens → Tokens) : Body Address Tokens Unit := do
  let s ← get
  set { s with
    outside := fun token => s.outside token +
      (host.balance token (change s.tokens) host.currentContractAddress -
        host.balance token s.tokens host.currentContractAddress)
    tokens := change s.tokens }

end Functions

/-! ## Calls -/

/-- A call with its arguments, or what others do with the tokens. -/
inductive Call (Address Tokens : Type)
  | initializeAuction (seller nftContract : Address) (tokenId : ℤ) (paymentToken : Address)
      (startingPrice reservePrice : ℤ) (durationLedgers : ℕ)
  | bid (bidder : Address) (amount : ℤ)
  | endAuction
  | others (change : Tokens → Tokens)

/-- The body of a call. -/
def entryPoint {host : Host Address Tokens} (env : Env host) :
    Call Address Tokens → Body Address Tokens Unit
  | .initializeAuction seller nftContract tokenId paymentToken startingPrice reservePrice
      durationLedgers =>
    initializeAuction env seller nftContract tokenId paymentToken startingPrice reservePrice
      durationLedgers
  | .bid bidder amount => bid env bidder amount
  | .endAuction => endAuction env
  | .others change => others host change

/-- A call of the contract with what it returned. -/
abbrev Event (host : Host Address Tokens) :=
  Soroban.Event (Env host) (Call Address Tokens) Empty Unit

/-! ## What the entry points check and write -/

section Spec

variable {host : Host Address Tokens} {env : Env host} {s t : State Address Tokens} {r : Unit}
  {auction : Auction Address}

theorem returns_requireAuth_bind {α : Type} {v : α} {addr : Address}
    {f : Unit → Body Address Tokens α} :
    Returns (requireAuth env addr >>= f) s v t ↔ env.auth addr = true ∧ Returns (f ()) s v t := by
  simp only [requireAuth, returns_require_bind]

theorem returns_readAuction_bind {α : Type} {v : α} {f : Auction Address → Body Address Tokens α} :
    Returns (readAuction >>= f) s v t ↔
      ∃ auction, s.auction = some auction ∧ Returns (f auction) s v t := by
  simp only [readAuction, bind_assoc, returns_get_bind, returns_orFault_bind]

theorem returns_readHighestBidder_bind {α : Type} {v : α} {f : Address → Body Address Tokens α} :
    Returns (readHighestBidder >>= f) s v t ↔
      ∃ bidder, s.highestBidder = some bidder ∧ Returns (f bidder) s v t := by
  simp only [readHighestBidder, bind_assoc, returns_get_bind, returns_orFault_bind]

/-- The storage after a transfer. -/
def State.transferred (s : State Address Tokens) (tokens : Tokens) (x : Transfer Address) :
    State Address Tokens :=
  { s with tokens, transfers := s.transfers ++ [x] }

theorem returns_transfer {token source destination : Address} {amount : ℤ} :
    Returns (transfer host token source destination amount) s r t ↔
      ∃ tokens, host.transfer token source destination amount s.tokens = some tokens ∧
        t = s.transferred tokens ⟨token, source, destination, amount⟩ := by
  simp only [transfer, returns_get_bind, returns_orFault_bind, returns_set, State.transferred,
    eq_comm (a := t)]

/-- A transfer that the other contract makes. -/
theorem returns_of_transfer {token source destination : Address} {amount : ℤ} {tokens : Tokens}
    (h : host.transfer token source destination amount s.tokens = some tokens) :
    Returns (transfer host token source destination amount) s ()
      (s.transferred tokens ⟨token, source, destination, amount⟩) :=
  returns_transfer.mpr ⟨tokens, h, rfl⟩

theorem returns_initializeAuction {seller nftContract paymentToken : Address}
    {tokenId startingPrice reservePrice : ℤ} {durationLedgers : ℕ}
    (h : Returns (initializeAuction env seller nftContract tokenId paymentToken startingPrice
      reservePrice durationLedgers) s r t) :
    s.auction = none ∧ env.auth seller = true ∧ ∃ endLedger endTimestamp tokens,
      endLedger < 2 ^ 32 ∧
      host.transfer nftContract seller host.currentContractAddress tokenId s.tokens = some tokens ∧
      t = State.transferred
        { s with auction := some ⟨seller, nftContract, tokenId, paymentToken, startingPrice,
          reservePrice, endLedger, endTimestamp, 0, []⟩ } tokens
        ⟨nftContract, seller, host.currentContractAddress, tokenId⟩ := by
  simp only [initializeAuction, returns_get_bind, returns_require_bind, returns_requireAuth_bind,
    returns_set_bind, returns_transfer, Bool.not_eq_true, Option.isSome_eq_false_iff,
    Option.isNone_iff_eq_none] at h
  obtain ⟨hnone, -, hauth, hend, -, tokens, htransfer, rfl⟩ := h
  exact ⟨hnone, hauth, _, _, tokens, hend, htransfer, rfl⟩

/-- **A refund** pays the highest bid to its bidder, where there is one. -/
theorem returns_refundHighest :
    Returns (refundHighest host auction) s r t ↔
      (auction.highestBid ≤ 0 ∧ t = s) ∨
      (0 < auction.highestBid ∧ ∃ prevBidder tokens, s.highestBidder = some prevBidder ∧
        host.transfer auction.paymentToken host.currentContractAddress prevBidder
          auction.highestBid s.tokens = some tokens ∧
        t = s.transferred tokens ⟨auction.paymentToken, host.currentContractAddress, prevBidder,
          auction.highestBid⟩) := by
  unfold refundHighest
  by_cases hbid : auction.highestBid > 0
  · rw [if_pos hbid, returns_readHighestBidder_bind]
    simp only [returns_transfer]
    constructor
    · rintro ⟨prevBidder, hprev, tokens, htransfer, rfl⟩
      exact .inr ⟨hbid, prevBidder, tokens, hprev, htransfer, rfl⟩
    · rintro (⟨hle, -⟩ | ⟨-, prevBidder, tokens, hprev, htransfer, rfl⟩)
      · exact absurd hbid (not_lt.mpr hle)
      · exact ⟨prevBidder, hprev, tokens, htransfer, rfl⟩
  · rw [if_neg hbid, returns_pure]
    constructor
    · rintro ⟨-, rfl⟩
      exact .inl ⟨not_lt.mp hbid, rfl⟩
    · rintro (⟨-, rfl⟩ | ⟨hlt, -⟩)
      · exact ⟨rfl, rfl⟩
      · exact absurd hlt hbid

theorem returns_refundHighest_of_nonpos (h : auction.highestBid ≤ 0) :
    Returns (refundHighest host auction) s () s :=
  returns_refundHighest.mpr (.inl ⟨h, rfl⟩)

theorem returns_refundHighest_of_pos {prevBidder : Address} {tokens : Tokens}
    (h : 0 < auction.highestBid) (hprev : s.highestBidder = some prevBidder)
    (htransfer : host.transfer auction.paymentToken host.currentContractAddress prevBidder
      auction.highestBid s.tokens = some tokens) :
    Returns (refundHighest host auction) s () (s.transferred tokens
      ⟨auction.paymentToken, host.currentContractAddress, prevBidder, auction.highestBid⟩) :=
  returns_refundHighest.mpr (.inr ⟨h, prevBidder, tokens, hprev, htransfer, rfl⟩)

theorem returns_others {change : Tokens → Tokens} (h : Returns (others host change) s r t) :
    t = { s with
      outside := fun token => s.outside token +
        (host.balance token (change s.tokens) host.currentContractAddress -
          host.balance token s.tokens host.currentContractAddress)
      tokens := change s.tokens } := by
  rw [others, returns_get_bind, returns_set] at h
  exact h.symm

/-- **A bid** is higher than the one before. It is paid to the contract, the one before is refunded,
and the deadline may move. -/
theorem returns_bid {bidder : Address} {amount : ℤ} (h : Returns (bid env bidder amount) s r t) :
    ∃ auction tokens u, s.auction = some auction ∧ env.auth bidder = true ∧
      auction.highestBid < amount ∧
      host.transfer auction.paymentToken bidder host.currentContractAddress amount s.tokens =
        some tokens ∧
      Returns (refundHighest host auction) (s.transferred tokens
        ⟨auction.paymentToken, bidder, host.currentContractAddress, amount⟩) () u ∧
      t = { u with
        highestBidder := some bidder
        auction := some (maybeExtendDeadline env { auction with
          highestBid := amount
          bids := auction.bids ++ [Bid.mk bidder amount] }) } := by
  simp only [bid, returns_requireAuth_bind, returns_readAuction_bind, returns_require_bind] at h
  obtain ⟨hauth, auction, hauction, -, -, hhigher, hrest⟩ := h
  obtain ⟨⟨⟩, u, htransfer, hrest⟩ := returns_bind.mp hrest
  obtain ⟨tokens, htokens, rfl⟩ := returns_transfer.mp htransfer
  obtain ⟨⟨⟩, u, hrefund, hrest⟩ := returns_bind.mp hrest
  rw [returns_get_bind, returns_set] at hrest
  exact ⟨auction, tokens, u, hauction, hauth, not_le.mp hhigher, htokens, hrefund, hrest.symm⟩

/-- **The end** gives the asset to the highest bidder and the bid to the seller, when the reserve is
met, and otherwise returns both. -/
theorem returns_endAuction :
    Returns (endAuction env) s r t ↔
      ∃ auction, s.auction = some auction ∧ auction.endLedger ≤ env.sequence ∧
        ((auction.reservePrice ≤ auction.highestBid ∧ ∃ bidder u, s.highestBidder = some bidder ∧
            Returns (transfer host auction.nftContract host.currentContractAddress bidder
              auction.tokenId) s () u ∧
            Returns (transfer host auction.paymentToken host.currentContractAddress auction.seller
              auction.highestBid) u () t) ∨
          (auction.highestBid < auction.reservePrice ∧ ∃ u,
            Returns (refundHighest host auction) s () u ∧
            Returns (transfer host auction.nftContract host.currentContractAddress auction.seller
              auction.tokenId) u () t)) := by
  simp only [endAuction, returns_readAuction_bind, returns_require_bind, not_lt]
  refine exists_congr fun auction => and_congr_right fun hauction => and_congr_right fun hend => ?_
  by_cases hreserve : auction.highestBid ≥ auction.reservePrice
  · rw [if_pos hreserve, returns_readHighestBidder_bind]
    constructor
    · rintro ⟨bidder, hbidder, hrest⟩
      obtain ⟨⟨⟩, u, hasset, hpay⟩ := returns_bind.mp hrest
      exact .inl ⟨hreserve, bidder, u, hbidder, hasset, hpay⟩
    · rintro (⟨-, bidder, u, hbidder, hasset, hpay⟩ | ⟨hlt, -⟩)
      · exact ⟨bidder, hbidder, returns_bind.mpr ⟨(), u, hasset, hpay⟩⟩
      · exact absurd hreserve (not_le.mpr hlt)
  · rw [if_neg hreserve]
    constructor
    · intro h
      obtain ⟨⟨⟩, u, hrefund, hasset⟩ := returns_bind.mp h
      exact .inr ⟨not_le.mp hreserve, u, hrefund, hasset⟩
    · rintro (⟨hle, -⟩ | ⟨-, u, hrefund, hasset⟩)
      · exact absurd hle hreserve
      · exact returns_bind.mpr ⟨(), u, hrefund, hasset⟩

/-- An extension changes nothing but the deadline, which it does not move back. -/
theorem maybeExtendDeadline_eq (env : Env host) (auction : Auction Address)
    (hlt : auction.endLedger < 2 ^ 32) : ∃ endLedger endTimestamp,
      auction.endLedger ≤ endLedger ∧ endLedger < 2 ^ 32 ∧
      maybeExtendDeadline env auction = { auction with endLedger, endTimestamp } := by
  unfold maybeExtendDeadline
  dsimp only
  split
  · refine ⟨_, _, ?_, ?_, rfl⟩ <;> omega
  · exact ⟨_, _, le_rfl, hlt, rfl⟩

end Spec

end EnglishAuction
