import SkyMoonScope.EnglishAuction.Auction
import SkyMoonScope.Soroban.Arithmetic

/-!
# The escrowed bids

Every accepted bid is higher than the one before, whose amount the contract returns when it has
received the new one. So the contract holds the highest bid and nothing else of the bids, and what
it has paid out are the bids before, one after another, each to its bidder. A bidder is never the
contract itself, which does not authorize a call, so that both payments move an amount also when
somebody outbids himself.

## Main definitions

* `PaymentToken`: what the payments rest on
* `acceptedBids ls`: the bids that a run has accepted
* `Escrow`: the storage and the payments against the bids

## Main results

* `escrow_bid`: a bid keeps the payments in line
* `escrow_exact`: every state before the settlement
-/

namespace EnglishAuction

open Soroban Machine Accounts

variable {Address Tokens : Type} [DecidableEq Address]

/-- A transfer of the token that returns has moved its amount. -/
structure PaymentToken (host : Host Address Tokens) (token : Address) : Prop where
  balance_transfer : ∀ {source destination amount u w},
    host.transfer token source destination amount u = some w →
      host.balance token w = move (host.balance token u) source destination amount

variable {host : Host Address Tokens}

/-- The bid that a call has made. -/
def acceptedBid (l : Event host) : Option (Bid Address) :=
  match l.call, l.result with
  | .bid bidder amount, .ok () => some ⟨bidder, amount⟩
  | _, _ => none

def acceptedBids (ls : List (Event host)) : List (Bid Address) := ls.filterMap acceptedBid

/-- The call has settled the auction. -/
def Settles (l : Event host) : Prop := l.call = .endAuction ∧ l.result = .ok ()

/-- The amount of the last bid, zero where there is none. -/
def highest (bids : List (Bid Address)) : ℤ := (bids.getLast?.map Bid.amount).getD 0

/-- The payment of a bid to the contract. -/
def payment (host : Host Address Tokens) (token : Address) (b : Bid Address) : Transfer Address :=
  ⟨token, b.bidder, host.currentContractAddress, b.amount⟩

/-- The refund of a bid to its bidder. -/
def refund (host : Host Address Tokens) (token : Address) (b : Bid Address) : Transfer Address :=
  ⟨token, host.currentContractAddress, b.bidder, b.amount⟩

/-- What the contract holds of a token, less what others have changed of it. -/
def holding (host : Host Address Tokens) (token : Address) (s : State Address Tokens) : ℤ :=
  host.balance token s.tokens host.currentContractAddress - s.outside token

/-- The bids against the storage, where `first` is the storage after the initialization. -/
structure Escrow (host : Host Address Tokens) (start : Auction Address)
    (first : State Address Tokens) (bids : List (Bid Address)) (s : State Address Tokens) :
    Prop where
  stored : ∃ endLedger endTimestamp, s.auction = some { start with
    endLedger, endTimestamp, highestBid := highest bids, bids } ∧
      start.endLedger ≤ endLedger ∧ endLedger < 2 ^ 32
  highestBidder_eq : s.highestBidder = bids.getLast?.map Bid.bidder
  increasing : (bids.map Bid.amount).Pairwise (· < ·)
  positive : ∀ b ∈ bids, 0 < b.amount
  foreign : ∀ b ∈ bids, b.bidder ≠ host.currentContractAddress
  holding_eq : holding host start.paymentToken s =
    holding host start.paymentToken first + highest bids
  received : s.transfers.filter (fun x => x.destination = host.currentContractAddress) =
    first.transfers.filter (fun x => x.destination = host.currentContractAddress) ++
      bids.map (payment host start.paymentToken)
  refunded : s.transfers.filter (fun x => x.source = host.currentContractAddress) =
    first.transfers.filter (fun x => x.source = host.currentContractAddress) ++
      bids.dropLast.map (refund host start.paymentToken)

section Step

variable {env : Env host} {start : Auction Address} {first s t : State Address Tokens}
  {bids : List (Bid Address)} {b : Bid Address} {r : Unit}

omit [DecidableEq Address] in
theorem highest_concat : highest (bids ++ [b]) = b.amount := by
  rw [highest, List.getLast?_concat]
  rfl

theorem Escrow.highest_nonneg (h : Escrow host start first bids s) : 0 ≤ highest bids := by
  rcases List.eq_nil_or_concat bids with rfl | ⟨before, p, hconcat⟩
  · exact le_rfl
  · rw [List.concat_eq_append] at hconcat
    subst hconcat
    rw [highest_concat]
    exact (h.positive p (List.mem_append_right _ (List.mem_singleton_self p))).le

theorem Escrow.le_highest (h : Escrow host start first bids s) (hb : b ∈ bids) :
    b.amount ≤ highest bids := by
  rcases List.eq_nil_or_concat bids with rfl | ⟨before, p, hconcat⟩
  · cases hb
  · rw [List.concat_eq_append] at hconcat
    subst hconcat
    have hincreasing := h.increasing
    rw [List.map_append, List.pairwise_append] at hincreasing
    rw [highest_concat]
    rcases List.mem_append.mp hb with hb | hb
    · exact (hincreasing.2.2 _ (List.mem_map_of_mem hb) _ (List.mem_singleton_self _)).le
    · rw [List.mem_singleton.mp hb]

/-- **A refund** pays the last bid back, and nothing where there is none. -/
theorem Escrow.refund (htoken : PaymentToken host start.paymentToken)
    (hs : Escrow host start first bids s) {auction : Auction Address}
    {w u : State Address Tokens} (h : Returns (refundHighest host auction) w r u)
    (hbidder : w.highestBidder = s.highestBidder)
    (hpayment : auction.paymentToken = start.paymentToken)
    (hhighest : auction.highestBid = highest bids) :
    u.outside = w.outside ∧
      host.balance start.paymentToken u.tokens host.currentContractAddress =
        host.balance start.paymentToken w.tokens host.currentContractAddress - highest bids ∧
      ∃ paid, u.transfers =
          w.transfers ++ paid.map (EnglishAuction.refund host start.paymentToken) ∧
        bids.dropLast ++ paid = bids := by
  rw [returns_refundHighest, hpayment, hhighest] at h
  rcases List.eq_nil_or_concat bids with rfl | ⟨before, p, hconcat⟩
  · rcases h with ⟨-, rfl⟩ | ⟨hpos, -⟩
    · exact ⟨rfl, (sub_zero _).symm, [], (List.append_nil _).symm, rfl⟩
    · exact absurd hpos (lt_irrefl 0)
  · rw [List.concat_eq_append] at hconcat
    subst hconcat
    have hp : p ∈ before ++ [p] := List.mem_append_right _ (List.mem_singleton_self p)
    have hpos := hs.positive p hp
    rw [highest_concat] at h ⊢
    rcases h with ⟨hle, -⟩ | ⟨-, prevBidder, tokens, hprev, htransfer, rfl⟩
    · omega
    · -- the bidder that is stored is that of the last bid
      rw [hbidder, hs.highestBidder_eq, List.getLast?_concat] at hprev
      obtain rfl : p.bidder = prevBidder := Option.some.inj hprev
      refine ⟨rfl, ?_, [p], rfl, by rw [List.dropLast_concat]⟩
      show host.balance start.paymentToken tokens host.currentContractAddress = _
      rw [htoken.balance_transfer htransfer, move_source (hs.foreign p hp).symm]

/-- **A bid** is paid to the contract, and the one before it is paid back. -/
theorem escrow_bid (htoken : PaymentToken host start.paymentToken)
    (hs : Escrow host start first bids s) (h : Returns (bid env b.bidder b.amount) s r t) :
    Escrow host start first (bids ++ [b]) t := by
  obtain ⟨auction, tokens, u, hauction, hauth, hhigher, htransfer, hrefund, rfl⟩ := returns_bid h
  obtain ⟨endLedger, endTimestamp, hstored, hle, hlt⟩ := hs.stored
  obtain rfl := Option.some.inj (hauction.symm.trans hstored)
  have hne : b.bidder ≠ host.currentContractAddress := by
    intro heq
    rw [heq, env.auth_contract] at hauth
    cases hauth
  obtain ⟨houtside, hbalance, paid, htransfers, hpaid⟩ := hs.refund htoken hrefund rfl rfl rfl
  have hforeign : ∀ x ∈ paid, x.bidder ≠ host.currentContractAddress := fun x hx =>
    hs.foreign x (hpaid ▸ List.mem_append_right _ hx)
  have htransfers' : u.transfers = s.transfers ++ [payment host start.paymentToken b] ++
      paid.map (EnglishAuction.refund host start.paymentToken) := htransfers
  refine ⟨?_, ?_, ?_, ?_, ?_, ?_, ?_, ?_⟩
  · obtain ⟨endLedger', endTimestamp', hle', hlt', hextend⟩ := maybeExtendDeadline_eq env
      { start with endLedger, endTimestamp, highestBid := b.amount, bids := bids ++ [b] } hlt
    refine ⟨endLedger', endTimestamp', ?_, hle.trans hle', hlt'⟩
    rw [highest_concat]
    exact congrArg some hextend
  · rw [List.getLast?_concat]
    rfl
  · rw [List.map_append, List.pairwise_append]
    refine ⟨hs.increasing, List.pairwise_singleton _ _, fun x hx y hy => ?_⟩
    obtain ⟨p, hp, rfl⟩ := List.mem_map.mp hx
    rw [List.mem_singleton.mp hy]
    exact (hs.le_highest hp).trans_lt hhigher
  · intro x hx
    rcases List.mem_append.mp hx with hx | hx
    · exact hs.positive x hx
    · rw [List.mem_singleton.mp hx]
      exact hs.highest_nonneg.trans_lt hhigher
  · intro x hx
    rcases List.mem_append.mp hx with hx | hx
    · exact hs.foreign x hx
    · rw [List.mem_singleton.mp hx]
      exact hne
  · have hpull : host.balance start.paymentToken tokens host.currentContractAddress =
        host.balance start.paymentToken s.tokens host.currentContractAddress + b.amount := by
      rw [htoken.balance_transfer htransfer, move_destination hne]
    have hbefore := hs.holding_eq
    unfold holding at hbefore ⊢
    dsimp only
    rw [houtside, hbalance, highest_concat]
    simp only [State.transferred]
    rw [hpull]
    linarith
  · -- the refund does not go to the contract
    have hnone : (paid.map (EnglishAuction.refund host start.paymentToken)).filter
        (fun x => x.destination = host.currentContractAddress) = [] := by
      rw [List.filter_eq_nil_iff]
      rintro x hx hdestination
      obtain ⟨p, hp, rfl⟩ := List.mem_map.mp hx
      exact hforeign p hp (of_decide_eq_true hdestination)
    dsimp only
    rw [htransfers', List.filter_append, List.filter_append, hs.received, hnone, List.append_nil,
      List.append_assoc, List.map_append]
    congr 2
    simp [payment]
  · have hall : (paid.map (EnglishAuction.refund host start.paymentToken)).filter
        (fun x => x.source = host.currentContractAddress) =
          paid.map (EnglishAuction.refund host start.paymentToken) := by
      rw [List.filter_eq_self]
      rintro x hx
      obtain ⟨p, -, rfl⟩ := List.mem_map.mp hx
      exact decide_eq_true rfl
    have hpayment : [payment host start.paymentToken b].filter
        (fun x => x.source = host.currentContractAddress) = [] := by
      simpa [payment] using hne
    dsimp only
    rw [htransfers', List.filter_append, List.filter_append, hs.refunded, hall, hpayment,
      List.append_nil, List.append_assoc, ← List.map_append, hpaid, List.dropLast_concat]

theorem escrow_others {change : Tokens → Tokens} (hs : Escrow host start first bids s)
    (h : Returns (others host change) s r t) : Escrow host start first bids t := by
  obtain rfl := returns_others h
  refine ⟨hs.stored, hs.highestBidder_eq, hs.increasing, hs.positive, hs.foreign, ?_, hs.received,
    hs.refunded⟩
  have hbefore := hs.holding_eq
  unfold holding at hbefore ⊢
  dsimp only
  linarith

omit [DecidableEq Address] in
theorem acceptedBids_concat {ls : List (Event host)} {l : Event host} :
    acceptedBids (ls ++ [l]) = acceptedBids ls ++ (acceptedBid l).toList := by
  rw [acceptedBids, List.filterMap_append]
  cases hl : acceptedBid l <;> simp [acceptedBids, hl]

/-- **Every step** before the settlement keeps the payments in line with the accepted bids. -/
theorem escrow_step {ls : List (Event host)} {l : Event host}
    (htoken : PaymentToken host start.paymentToken)
    (hs : Escrow host start first (acceptedBids ls) s) (hl : Step entryPoint s l t)
    (hopen : ¬Settles l) : Escrow host start first (acceptedBids (ls ++ [l])) t := by
  obtain ⟨env, call, result⟩ := l
  rw [acceptedBids_concat]
  rcases hl.cases with ⟨⟨⟩, hv, hreturns⟩ | ⟨⟨fault, hfault⟩, rfl⟩
  · obtain rfl : result = .ok () := hv
    cases call with
    | initializeAuction seller nftContract tokenId paymentToken startingPrice reservePrice
        durationLedgers =>
      -- the auction is stored already
      obtain ⟨_, _, hstored, -⟩ := hs.stored
      obtain ⟨hnone, -⟩ := returns_initializeAuction hreturns
      cases hnone.symm.trans hstored
    | bid bidder amount =>
      exact escrow_bid (b := ⟨bidder, amount⟩) htoken hs hreturns
    | endAuction => exact absurd ⟨rfl, rfl⟩ hopen
    | others change =>
      rw [show acceptedBid (⟨env, .others change, .ok ()⟩ : Event host) = none from rfl,
        Option.toList_none, List.append_nil]
      exact escrow_others hs hreturns
  · obtain rfl : result = .error fault := hfault
    have hnone : acceptedBid (⟨env, call, .error fault⟩ : Event host) = none := by
      cases call <;> rfl
    rw [hnone, Option.toList_none, List.append_nil]
    exact hs

omit [DecidableEq Address] in
/-- A transfer changes neither the auction nor its bidder. -/
theorem auction_of_transfer {token source destination : Address} {amount : ℤ}
    (h : Returns (transfer host token source destination amount) s r t) :
    t.auction = s.auction ∧ t.highestBidder = s.highestBidder := by
  obtain ⟨tokens, -, rfl⟩ := returns_transfer.mp h
  exact ⟨rfl, rfl⟩

omit [DecidableEq Address] in
theorem auction_of_refundHighest {auction : Auction Address}
    (h : Returns (refundHighest host auction) s r t) :
    t.auction = s.auction ∧ t.highestBidder = s.highestBidder := by
  rcases returns_refundHighest.mp h with ⟨-, rfl⟩ | ⟨-, prevBidder, tokens, -, -, rfl⟩
  · exact ⟨rfl, rfl⟩
  · exact ⟨rfl, rfl⟩

omit [DecidableEq Address] in
theorem auction_of_endAuction (h : Returns (endAuction env) s r t) :
    t.auction = s.auction ∧ t.highestBidder = s.highestBidder := by
  obtain ⟨auction, -, -, ⟨-, bidder, u, -, hasset, hpay⟩ | ⟨-, u, hrefund, hasset⟩⟩ :=
    returns_endAuction.mp h
  · have hfirst := auction_of_transfer hasset
    have hsecond := auction_of_transfer hpay
    exact ⟨hsecond.1.trans hfirst.1, hsecond.2.trans hfirst.2⟩
  · have hfirst := auction_of_refundHighest hrefund
    have hsecond := auction_of_transfer hasset
    exact ⟨hsecond.1.trans hfirst.1, hsecond.2.trans hfirst.2⟩

end Step

/-! ## Runs -/

section Runs

variable {env : Env host} {seller nftContract paymentToken : Address}
  {tokenId startingPrice reservePrice : ℤ} {durationLedgers : ℕ} {tokens : Tokens}
  {start : Auction Address} {first s : State Address Tokens} {ls : List (Event host)}

/-- The deadline that is stored. -/
def deadline (s : State Address Tokens) : ℕ := (s.auction.map Auction.endLedger).getD 0

/-- The storage after the initialization. -/
theorem escrow_first (h : Returns (entryPoint env (.initializeAuction seller nftContract tokenId
      paymentToken startingPrice reservePrice durationLedgers)) (State.initial tokens) () first) :
    ∃ endLedger endTimestamp,
      first.auction = some ⟨seller, nftContract, tokenId, paymentToken, startingPrice, reservePrice,
        endLedger, endTimestamp, 0, []⟩ ∧
      first.transfers = [⟨nftContract, seller, host.currentContractAddress, tokenId⟩] ∧
      Escrow host ⟨seller, nftContract, tokenId, paymentToken, startingPrice, reservePrice,
        endLedger, endTimestamp, 0, []⟩ first [] first := by
  obtain ⟨-, -, endLedger, endTimestamp, tokens', hlt, -, rfl⟩ := returns_initializeAuction h
  refine ⟨endLedger, endTimestamp, rfl, rfl, ⟨endLedger, endTimestamp, rfl, le_rfl, hlt⟩, rfl,
    ?_, ?_, ?_, ?_, ?_, ?_⟩
  · exact List.Pairwise.nil
  · exact fun b hb => (List.not_mem_nil hb).elim
  · exact fun b hb => (List.not_mem_nil hb).elim
  · exact (add_zero _).symm
  · exact (List.append_nil _).symm
  · exact (List.append_nil _).symm

theorem escrow_of_run (htoken : PaymentToken host start.paymentToken)
    (hfirst : Escrow host start first [] first) (h : Run (Step entryPoint) first ls s)
    (hopen : ∀ l ∈ ls, ¬Settles l) : Escrow host start first (acceptedBids ls) s := by
  refine Run.history (H := fun ks u => (∀ l ∈ ks, ¬Settles l) →
    Escrow host start first (acceptedBids ks) u) ?_ h (fun _ => hfirst) hopen
  intro ks u l w hu hl hks
  have hbefore := hu fun k hk => hks k (List.mem_append_left [l] hk)
  exact escrow_step htoken hbefore hl (hks l (List.mem_append_right _ (List.mem_singleton_self l)))

/-- The deadline does not move back. -/
theorem deadline_step {bids : List (Bid Address)} {l : Event host} {t : State Address Tokens}
    (hs : Escrow host start first bids s) (hl : Step entryPoint s l t) :
    deadline s ≤ deadline t := by
  obtain ⟨endLedger, endTimestamp, hstored, -, hlt⟩ := hs.stored
  obtain ⟨env, call, result⟩ := l
  rcases hl.cases with ⟨⟨⟩, hv, hreturns⟩ | ⟨-, rfl⟩
  · cases call with
    | initializeAuction seller nftContract tokenId paymentToken startingPrice reservePrice
        durationLedgers =>
      obtain ⟨hnone, -⟩ := returns_initializeAuction hreturns
      cases hnone.symm.trans hstored
    | bid bidder amount =>
      obtain ⟨auction, tokens, u, hauction, -, -, -, -, rfl⟩ := returns_bid hreturns
      obtain rfl := Option.some.inj (hauction.symm.trans hstored)
      obtain ⟨endLedger', endTimestamp', hle, -, hextend⟩ := maybeExtendDeadline_eq env { start with
        endLedger, endTimestamp, highestBid := amount, bids := bids ++ [⟨bidder, amount⟩] } hlt
      unfold deadline
      dsimp only
      rw [hstored, hextend]
      exact hle
    | endAuction =>
      unfold deadline
      rw [(auction_of_endAuction hreturns).1]
    | others change =>
      obtain rfl := returns_others hreturns
      exact le_rfl
  · exact le_rfl

/-- **The escrow** in every state before the settlement. What the contract holds of the payment
token has grown by the highest bid, the accepted bids increase, and what was paid out are the bids
before the last one, each to its bidder. No step moves the deadline back. -/
theorem escrow_exact (htoken : PaymentToken host paymentToken)
    (hinit : Returns (entryPoint env (.initializeAuction seller nftContract tokenId paymentToken
      startingPrice reservePrice durationLedgers)) (State.initial tokens) () first)
    (h : Run (Step entryPoint) first ls s) (hopen : ∀ l ∈ ls, ¬Settles l) :
    ∃ endLedger endTimestamp,
      first.auction = some ⟨seller, nftContract, tokenId, paymentToken, startingPrice, reservePrice,
        endLedger, endTimestamp, 0, []⟩ ∧
      first.transfers = [⟨nftContract, seller, host.currentContractAddress, tokenId⟩] ∧
      Escrow host ⟨seller, nftContract, tokenId, paymentToken, startingPrice, reservePrice,
        endLedger, endTimestamp, 0, []⟩ first (acceptedBids ls) s ∧
      ∀ (l : Event host) t, Step entryPoint s l t → deadline s ≤ deadline t := by
  obtain ⟨endLedger, endTimestamp, hauction, htransfers, hfirst⟩ := escrow_first hinit
  have hescrow := escrow_of_run htoken hfirst h hopen
  exact ⟨endLedger, endTimestamp, hauction, htransfers, hescrow,
    fun l t hl => deadline_step hescrow hl⟩

end Runs

/-! ## A market -/

/-- Balances of all tokens but 8, and the holders of the assets of the contract 8. The auction has
the address 0. -/
def market : Host ℕ (Balances ℕ × (ℤ → Option ℕ)) where
  balance := fun token u holder => u.1.1 token holder
  transfer := fun token source destination amount u =>
    if token = 8 then
      if u.2 amount = some source then some (u.1, Function.update u.2 amount (some destination))
      else none
    else (Balances.transfer token source destination amount u.1).map fun b => (b, u.2)
  currentContractAddress := 0

theorem paymentToken_market : PaymentToken market 9 where
  balance_transfer := by
    intro source destination amount u w h
    obtain ⟨b, hb, rfl⟩ := Option.map_eq_some_iff.mp h
    exact conforming_balances.balance_transfer hb

/-- Everybody has 1000 of every token, and the asset 5 belongs to the address 1. -/
def sampleTokens : Balances ℕ × (ℤ → Option ℕ) :=
  (Balances.constant ℕ 1000, fun tokenId => if tokenId = 5 then some 1 else none)

/-- Everybody but the auction has authorized the call. -/
def sampleEnv (sequence : ℕ) : Env market where
  auth := fun a => a ≠ 0
  auth_contract := rfl
  sequence := sequence % 2 ^ 32
  sequence_lt := ledger_lt sequence
  timestamp := 0

/-- The auction of the asset 5 for the token 9, for at least 10, over 100 ledgers. -/
def sampleStart (reservePrice : ℤ) : Call ℕ (Balances ℕ × (ℤ → Option ℕ)) :=
  .initializeAuction 1 8 5 9 10 reservePrice 100

/-- Bids of 20, 60 and 70. The last two are of one bidder. -/
def sampleBids : List (Env market × Call ℕ (Balances ℕ × (ℤ → Option ℕ))) :=
  [(sampleEnv 10, .bid 2 20), (sampleEnv 20, .bid 3 60), (sampleEnv 95, .bid 3 70)]

theorem exists_sampleStart : ∃ first,
    Returns (entryPoint (sampleEnv 1) (sampleStart 50)) (State.initial sampleTokens) () first ∧
      (execute entryPoint first sampleBids).2.transfers.length = 6 := by
  obtain ⟨⟨⟩, h⟩ := exists_returns_of_isOk (show (invoke (entryPoint (sampleEnv 1) (sampleStart 50))
    (State.initial sampleTokens)).1.isOk = true by decide +kernel)
  exact ⟨_, h, by decide +kernel⟩

theorem open_sampleBids (first : State ℕ (Balances ℕ × (ℤ → Option ℕ))) :
    ∀ l ∈ (execute entryPoint first sampleBids).1,
      ∃ bidder amount, l.call = .bid bidder amount := by
  intro l hl
  have hcall := List.mem_map_of_mem (f := Soroban.Event.call) hl
  rw [map_call_execute] at hcall
  simp only [sampleBids, List.map_cons, List.map_nil, List.mem_cons, List.not_mem_nil,
    or_false] at hcall
  rcases hcall with hcall | hcall | hcall
  · exact ⟨2, 20, hcall⟩
  · exact ⟨3, 60, hcall⟩
  · exact ⟨3, 70, hcall⟩

theorem escrow_exact_sample : ∃ first endLedger endTimestamp,
    Escrow market ⟨1, 8, 5, 9, 10, 50, endLedger, endTimestamp, 0, []⟩ first
      (acceptedBids (execute entryPoint first sampleBids).1)
      (execute entryPoint first sampleBids).2 ∧
        (execute entryPoint first sampleBids).2.transfers.length = 6 := by
  obtain ⟨first, hinit, hlength⟩ := exists_sampleStart
  have hopen : ∀ l ∈ (execute entryPoint first sampleBids).1, ¬Settles l := by
    rintro l hl ⟨hcall, -⟩
    obtain ⟨bidder, amount, hbid⟩ := open_sampleBids first l hl
    cases hcall.symm.trans hbid
  obtain ⟨endLedger, endTimestamp, -, -, hescrow, -⟩ :=
    escrow_exact paymentToken_market hinit (run_execute entryPoint first sampleBids) hopen
  exact ⟨first, endLedger, endTimestamp, hescrow, hlength⟩

end EnglishAuction
