import SkyMoonScope.EnglishAuction.Escrow

/-!
# The settlement of the auction

Before the settlement the contract holds the asset and at least the highest bid, so every transfer
of the settlement succeeds. The settlement reads the highest bidder when the highest bid meets the
reserve. Without a bid the highest bid is zero, which meets a reserve that is not positive, and then
there is no bidder to read: the call traps, in every ledger after the deadline. In all other cases
the asset leaves the contract, and a second call fails for as long as nobody gives it back.

## Main definitions

* `Honest`: the two contracts that the auction rests on
* `settlement`, `winner`: the transfers of the settlement, and who gets the asset
* `SettlesOnce`: the settlement succeeds, with these transfers, and only once

## Main results

* `backed_step`: the contract holds what it owes
* `settles_once_iff`: when the settlement succeeds
-/

namespace EnglishAuction

open Soroban Machine Accounts

variable {Address Tokens : Type} [DecidableEq Address]

/-- The payment token moves an amount just when its source has it, and the other contract an asset
just when its source holds it. Neither touches what the other has stored. -/
structure Honest (host : Host Address Tokens) (holder : Tokens → ℤ → Option Address)
    (nftContract paymentToken : Address) : Prop extends PaymentToken host paymentToken where
  balance_nonneg : ∀ u a, 0 ≤ host.balance paymentToken u a
  pays_iff : ∀ source destination amount u,
    (∃ w, host.transfer paymentToken source destination amount u = some w) ↔
      0 ≤ amount ∧ amount ≤ host.balance paymentToken u source
  holder_pays : ∀ {source destination amount u w},
    host.transfer paymentToken source destination amount u = some w → holder w = holder u
  gives_iff : ∀ source destination tokenId u,
    (∃ w, host.transfer nftContract source destination tokenId u = some w) ↔
      holder u tokenId = some source
  holder_gives : ∀ {source destination tokenId u w},
    host.transfer nftContract source destination tokenId u = some w →
      holder w tokenId = some destination
  balance_gives : ∀ {source destination tokenId u w},
    host.transfer nftContract source destination tokenId u = some w →
      host.balance paymentToken w = host.balance paymentToken u

/-- The transfers of the settlement. -/
def settlement (host : Host Address Tokens) (start : Auction Address) (bids : List (Bid Address)) :
    List (Transfer Address) :=
  let give := fun destination => Transfer.mk start.nftContract host.currentContractAddress
    destination start.tokenId
  match bids.getLast? with
  | none => [give start.seller]
  | some b =>
    if start.reservePrice ≤ b.amount then
      [give b.bidder, ⟨start.paymentToken, host.currentContractAddress, start.seller, b.amount⟩]
    else [refund host start.paymentToken b, give start.seller]

/-- Who gets the asset. -/
def winner (start : Auction Address) (bids : List (Bid Address)) : Address :=
  match bids.getLast? with
  | none => start.seller
  | some b => if start.reservePrice ≤ b.amount then b.bidder else start.seller

variable {host : Host Address Tokens} {holder : Tokens → ℤ → Option Address}

/-- Others take nothing from the contract, which has authorized no transfer of theirs. -/
def Spares (host : Host Address Tokens) (holder : Tokens → ℤ → Option Address)
    (paymentToken : Address) (tokenId : ℤ) (l : Event host) : Prop :=
  ∀ change, l.call = .others change → ∀ u,
    host.balance paymentToken u host.currentContractAddress ≤
        host.balance paymentToken (change u) host.currentContractAddress ∧
      (holder u tokenId = some host.currentContractAddress →
        holder (change u) tokenId = some host.currentContractAddress)

/-- Others do not give the asset to the contract. -/
def Retains (host : Host Address Tokens) (holder : Tokens → ℤ → Option Address) (tokenId : ℤ)
    (l : Event host) : Prop :=
  ∀ change, l.call = .others change → ∀ u,
    holder u tokenId ≠ some host.currentContractAddress →
      holder (change u) tokenId ≠ some host.currentContractAddress

/-- After the deadline the settlement succeeds with its transfers. No call of it succeeds again, for
as long as others do not give the asset back to the contract. -/
def SettlesOnce (host : Host Address Tokens) (holder : Tokens → ℤ → Option Address)
    (start : Auction Address) (bids : List (Bid Address)) (s : State Address Tokens) : Prop :=
  ∀ env : Env host, deadline s ≤ env.sequence → ∃ t,
    Returns (entryPoint env .endAuction) s () t ∧
      t.transfers = s.transfers ++ settlement host start bids ∧
      holder t.tokens start.tokenId = some (winner start bids) ∧
      ∀ ms u, Run (Step entryPoint) t ms u → (∀ l ∈ ms, Retains host holder start.tokenId l) →
        ∀ (env' : Env host) r w, ¬Returns (entryPoint env' .endAuction) u r w

/-- The contract holds the asset and the highest bid. -/
structure Backed (host : Host Address Tokens) (holder : Tokens → ℤ → Option Address)
    (start : Auction Address) (bids : List (Bid Address)) (s : State Address Tokens) : Prop where
  asset : holder s.tokens start.tokenId = some host.currentContractAddress
  funds : highest bids ≤ host.balance start.paymentToken s.tokens host.currentContractAddress

section Backed

variable {start : Auction Address} {first s t : State Address Tokens} {bids : List (Bid Address)}
  {b : Bid Address} {env : Env host} {r : Unit}

theorem holder_of_refundHighest {auction : Auction Address}
    (hhonest : Honest host holder start.nftContract start.paymentToken)
    (h : Returns (refundHighest host auction) s r t)
    (hpayment : auction.paymentToken = start.paymentToken) : holder t.tokens = holder s.tokens := by
  rcases returns_refundHighest.mp h with ⟨-, rfl⟩ | ⟨-, prevBidder, tokens, -, htransfer, rfl⟩
  · rfl
  · rw [hpayment] at htransfer
    exact hhonest.holder_pays htransfer

/-- A bid leaves the asset, and at least its amount. -/
theorem backed_bid (hhonest : Honest host holder start.nftContract start.paymentToken)
    (hs : Escrow host start first bids s) (hb : Backed host holder start bids s)
    (h : Returns (bid env b.bidder b.amount) s r t) :
    Backed host holder start (bids ++ [b]) t := by
  obtain ⟨auction, tokens, u, hauction, hauth, -, htransfer, hrefund, rfl⟩ := returns_bid h
  obtain ⟨endLedger, endTimestamp, hstored, -⟩ := hs.stored
  obtain rfl := Option.some.inj (hauction.symm.trans hstored)
  have hne : b.bidder ≠ host.currentContractAddress := by
    intro heq
    rw [heq, env.auth_contract] at hauth
    cases hauth
  obtain ⟨-, hbalance, -⟩ := hs.refund hhonest.toPaymentToken hrefund rfl rfl rfl
  have hpull : host.balance start.paymentToken tokens host.currentContractAddress =
      host.balance start.paymentToken s.tokens host.currentContractAddress + b.amount := by
    rw [hhonest.balance_transfer htransfer, move_destination hne]
  constructor
  · dsimp only
    rw [holder_of_refundHighest hhonest hrefund rfl]
    exact (congrFun (hhonest.holder_pays htransfer) _).trans hb.asset
  · dsimp only
    rw [hbalance, highest_concat]
    simp only [State.transferred]
    have hfunds := hb.funds
    omega

/-- **Every step** before the settlement leaves the contract what it owes. -/
theorem backed_step {ls : List (Event host)} {l : Event host}
    (hhonest : Honest host holder start.nftContract start.paymentToken)
    (hs : Escrow host start first (acceptedBids ls) s)
    (hb : Backed host holder start (acceptedBids ls) s) (hl : Step entryPoint s l t)
    (hopen : ¬Settles l) (hspares : Spares host holder start.paymentToken start.tokenId l) :
    Backed host holder start (acceptedBids (ls ++ [l])) t := by
  obtain ⟨env, call, result⟩ := l
  rw [acceptedBids_concat]
  rcases hl.cases with ⟨⟨⟩, hv, hreturns⟩ | ⟨⟨fault, hfault⟩, rfl⟩
  · obtain rfl : result = .ok () := hv
    cases call with
    | initializeAuction seller nftContract tokenId paymentToken startingPrice reservePrice
        durationLedgers =>
      obtain ⟨_, _, hstored, -⟩ := hs.stored
      obtain ⟨hnone, -⟩ := returns_initializeAuction hreturns
      cases hnone.symm.trans hstored
    | bid bidder amount => exact backed_bid (b := ⟨bidder, amount⟩) hhonest hs hb hreturns
    | endAuction => exact absurd ⟨rfl, rfl⟩ hopen
    | others change =>
      rw [show acceptedBid (⟨env, .others change, .ok ()⟩ : Event host) = none from rfl,
        Option.toList_none, List.append_nil]
      obtain rfl := returns_others hreturns
      obtain ⟨hbalance, hholder⟩ := hspares change rfl s.tokens
      exact ⟨hholder hb.asset, hb.funds.trans hbalance⟩
  · obtain rfl : result = .error fault := hfault
    have hnone : acceptedBid (⟨env, call, .error fault⟩ : Event host) = none := by
      cases call <;> rfl
    rw [hnone, Option.toList_none, List.append_nil]
    exact hb

theorem Escrow.deadline_lt (hs : Escrow host start first bids s) : deadline s < 2 ^ 32 := by
  obtain ⟨endLedger, endTimestamp, hstored, -, hlt⟩ := hs.stored
  unfold deadline
  rw [hstored]
  exact hlt

/-- **Without a bid** the settlement looks for a bidder where the reserve is not positive. -/
theorem Escrow.not_returns (hs : Escrow host start first [] s) (hreserve : start.reservePrice ≤ 0) :
    ¬Returns (endAuction env) s r t := by
  intro h
  obtain ⟨endLedger, endTimestamp, hstored, -⟩ := hs.stored
  obtain ⟨auction, hauction, -, hends⟩ := returns_endAuction.mp h
  obtain rfl := Option.some.inj (hauction.symm.trans hstored)
  rcases hends with ⟨-, bidder, u, hbidder, -⟩ | ⟨hlt, -⟩
  · cases hs.highestBidder_eq.symm.trans hbidder
  · exact absurd hlt (not_lt.mpr hreserve)

/-- Neither the seller nor a bidder is the contract. -/
theorem Escrow.winner_ne (hs : Escrow host start first bids s)
    (hseller : start.seller ≠ host.currentContractAddress) :
    winner start bids ≠ host.currentContractAddress := by
  unfold winner
  cases hlast : bids.getLast? with
  | none => exact hseller
  | some b =>
    dsimp only
    split
    · exact hs.foreign b (List.mem_of_getLast? hlast)
    · exact hseller

/-- **The settlement** succeeds, when there is a bid or the reserve is positive. -/
theorem exists_settlement (hhonest : Honest host holder start.nftContract start.paymentToken)
    (hs : Escrow host start first bids s) (hb : Backed host holder start bids s)
    (hcondition : 0 < start.reservePrice ∨ bids ≠ []) (hend : deadline s ≤ env.sequence) :
    ∃ t, Returns (endAuction env) s () t ∧
      t.transfers = s.transfers ++ settlement host start bids ∧
      holder t.tokens start.tokenId = some (winner start bids) := by
  obtain ⟨endLedger, endTimestamp, hstored, -⟩ := hs.stored
  have hlate : endLedger ≤ env.sequence := by
    unfold deadline at hend
    rwa [hstored] at hend
  rcases List.eq_nil_or_concat bids with rfl | ⟨before, p, hconcat⟩
  · -- nobody has bid, so the reserve is positive
    have hreserve : 0 < start.reservePrice := hcondition.resolve_right fun h => h rfl
    obtain ⟨w, hw⟩ := (hhonest.gives_iff _ start.seller _ _).mpr hb.asset
    have hrefund : Returns (refundHighest host { start with
        endLedger, endTimestamp, highestBid := 0, bids := [] }) s () s :=
      returns_refundHighest_of_nonpos (Int.le_refl 0)
    have hgive := returns_of_transfer hw
    exact ⟨_, returns_endAuction.mpr ⟨_, hstored, hlate, .inr ⟨hreserve, s, hrefund, hgive⟩⟩, rfl,
      hhonest.holder_gives hw⟩
  · rw [List.concat_eq_append] at hconcat
    subst hconcat
    have hp := hs.positive p (List.mem_append_right _ (List.mem_singleton_self p))
    have hbidder := hs.highestBidder_eq
    have hfunds := hb.funds
    have hsettlement : settlement host start (before ++ [p]) =
        if start.reservePrice ≤ p.amount then
          [⟨start.nftContract, host.currentContractAddress, p.bidder, start.tokenId⟩,
            ⟨start.paymentToken, host.currentContractAddress, start.seller, p.amount⟩]
        else [refund host start.paymentToken p,
          ⟨start.nftContract, host.currentContractAddress, start.seller, start.tokenId⟩] := by
      unfold settlement
      rw [List.getLast?_concat]
    have hwinner : winner start (before ++ [p]) =
        if start.reservePrice ≤ p.amount then p.bidder else start.seller := by
      unfold winner
      rw [List.getLast?_concat]
    rw [List.getLast?_concat] at hbidder
    rw [highest_concat] at hstored hfunds
    rw [hsettlement, hwinner]
    by_cases hreserve : start.reservePrice ≤ p.amount
    · -- the asset first, then the payment
      obtain ⟨w, hw⟩ := (hhonest.gives_iff _ p.bidder _ _).mpr hb.asset
      have hbalance := congrFun (hhonest.balance_gives hw) host.currentContractAddress
      obtain ⟨v, hv⟩ := (hhonest.pays_iff host.currentContractAddress start.seller p.amount w).mpr
        ⟨hp.le, by rw [hbalance]; exact hfunds⟩
      have hgive := returns_of_transfer hw
      have hpay := returns_of_transfer (s := s.transferred w ⟨start.nftContract,
        host.currentContractAddress, p.bidder, start.tokenId⟩) hv
      rw [if_pos hreserve, if_pos hreserve]
      refine ⟨_, returns_endAuction.mpr
        ⟨_, hstored, hlate, .inl ⟨hreserve, p.bidder, _, hbidder, hgive, hpay⟩⟩, ?_, ?_⟩
      · simp only [State.transferred, List.append_assoc, List.singleton_append]
      · exact (congrFun (hhonest.holder_pays hv) _).trans (hhonest.holder_gives hw)
    · -- the refund first, then the asset
      obtain ⟨v, hv⟩ := (hhonest.pays_iff host.currentContractAddress p.bidder p.amount
        s.tokens).mpr ⟨hp.le, hfunds⟩
      have hasset : holder v start.tokenId = some host.currentContractAddress :=
        (congrFun (hhonest.holder_pays hv) _).trans hb.asset
      obtain ⟨w, hw⟩ := (hhonest.gives_iff _ start.seller _ _).mpr hasset
      have hrefund : Returns (refundHighest host { start with
          endLedger, endTimestamp, highestBid := p.amount, bids := before ++ [p] }) s () _ :=
        returns_refundHighest_of_pos hp hbidder hv
      have hgive := returns_of_transfer (s := s.transferred v (refund host start.paymentToken p)) hw
      rw [if_neg hreserve, if_neg hreserve]
      refine ⟨_, returns_endAuction.mpr
        ⟨_, hstored, hlate, .inr ⟨not_le.mp hreserve, _, hrefund, hgive⟩⟩, ?_, ?_⟩
      · simp only [State.transferred, List.append_assoc, List.singleton_append]
      · exact hhonest.holder_gives hw

end Backed

/-! ## After the settlement -/

/-- The auction is still stored, and the contract does not hold the asset. -/
structure Released (host : Host Address Tokens) (holder : Tokens → ℤ → Option Address)
    (start : Auction Address) (s : State Address Tokens) : Prop where
  stored : ∃ auction, s.auction = some auction ∧ auction.nftContract = start.nftContract ∧
    auction.tokenId = start.tokenId ∧ auction.paymentToken = start.paymentToken
  gone : holder s.tokens start.tokenId ≠ some host.currentContractAddress

section Released

variable {start : Auction Address} {s t : State Address Tokens} {env : Env host} {r : Unit}

/-- Without the asset the settlement fails. -/
theorem Released.not_returns (hhonest : Honest host holder start.nftContract start.paymentToken)
    (hs : Released host holder start s) : ¬Returns (endAuction env) s r t := by
  intro h
  obtain ⟨auction, hauction, hnft, htoken, hpayment⟩ := hs.stored
  obtain ⟨auction', hauction', -, hends⟩ := returns_endAuction.mp h
  obtain rfl : auction = auction' := Option.some.inj (hauction.symm.trans hauction')
  rcases hends with ⟨-, bidder, u, -, hgive, -⟩ | ⟨-, u, hrefund, hgive⟩
  · obtain ⟨w, hw, -⟩ := returns_transfer.mp hgive
    rw [hnft, htoken] at hw
    exact hs.gone ((hhonest.gives_iff _ _ _ _).mp ⟨w, hw⟩)
  · -- the refund does not bring it back
    obtain ⟨w, hw, -⟩ := returns_transfer.mp hgive
    rw [hnft, htoken] at hw
    have hholder := holder_of_refundHighest hhonest hrefund hpayment
    have hgone := (hhonest.gives_iff _ _ _ _).mp ⟨w, hw⟩
    rw [hholder] at hgone
    exact hs.gone hgone

theorem released_step (hhonest : Honest host holder start.nftContract start.paymentToken)
    (hs : Released host holder start s) {l : Event host} (hl : Step entryPoint s l t)
    (hretains : Retains host holder start.tokenId l) : Released host holder start t := by
  obtain ⟨env, call, result⟩ := l
  rcases hl.cases with ⟨⟨⟩, -, hreturns⟩ | ⟨-, rfl⟩
  · obtain ⟨auction, hauction, hnft, htoken, hpayment⟩ := hs.stored
    cases call with
    | initializeAuction seller nftContract tokenId paymentToken startingPrice reservePrice
        durationLedgers =>
      obtain ⟨hnone, -⟩ := returns_initializeAuction hreturns
      cases hnone.symm.trans hauction
    | bid bidder amount =>
      obtain ⟨auction', tokens, u, hauction', -, -, htransfer, hrefund, rfl⟩ := returns_bid hreturns
      obtain rfl : auction = auction' := Option.some.inj (hauction.symm.trans hauction')
      constructor
      · refine ⟨_, rfl, ?_⟩
        unfold maybeExtendDeadline
        dsimp only
        split
        · exact ⟨hnft, htoken, hpayment⟩
        · exact ⟨hnft, htoken, hpayment⟩
      · dsimp only
        rw [holder_of_refundHighest hhonest hrefund hpayment]
        rw [hpayment] at htransfer
        simp only [State.transferred]
        rw [hhonest.holder_pays htransfer]
        exact hs.gone
    | endAuction => exact absurd hreturns (hs.not_returns hhonest)
    | others change =>
      obtain rfl := returns_others hreturns
      exact ⟨hs.stored, hretains change rfl s.tokens hs.gone⟩
  · exact hs

theorem released_of_run (hhonest : Honest host holder start.nftContract start.paymentToken)
    (hs : Released host holder start s) {ls : List (Event host)} (h : Run (Step entryPoint) s ls t)
    (hretains : ∀ l ∈ ls, Retains host holder start.tokenId l) : Released host holder start t :=
  (Run.and_label_iff.mpr ⟨h, hretains⟩).invariant
    (fun _ _ _ hu hl => released_step hhonest hu hl.1 hl.2) hs

end Released

/-! ## Runs -/

section Runs

variable {env : Env host} {seller nftContract paymentToken : Address}
  {tokenId startingPrice reservePrice : ℤ} {durationLedgers : ℕ} {tokens : Tokens}
  {first s : State Address Tokens} {ls : List (Event host)}

/-- The initialization leaves the asset with the contract. -/
theorem asset_first (hhonest : Honest host holder nftContract paymentToken)
    (hinit : Returns (entryPoint env (.initializeAuction seller nftContract tokenId paymentToken
      startingPrice reservePrice durationLedgers)) (State.initial tokens) () first) :
    env.auth seller = true ∧ holder first.tokens tokenId = some host.currentContractAddress := by
  obtain ⟨-, hauth, _, _, tokens', -, htransfer, rfl⟩ := returns_initializeAuction hinit
  exact ⟨hauth, hhonest.holder_gives htransfer⟩

theorem backed_of_run {start : Auction Address}
    (hhonest : Honest host holder start.nftContract start.paymentToken)
    (hfirst : Escrow host start first [] first) (hb : Backed host holder start [] first)
    (h : Run (Step entryPoint) first ls s) (hopen : ∀ l ∈ ls, ¬Settles l)
    (hspares : ∀ l ∈ ls, Spares host holder start.paymentToken start.tokenId l) :
    Backed host holder start (acceptedBids ls) s := by
  refine (Run.history (H := fun ks u => (∀ l ∈ ks, ¬Settles l ∧
      Spares host holder start.paymentToken start.tokenId l) →
    Escrow host start first (acceptedBids ks) u ∧ Backed host holder start (acceptedBids ks) u)
    ?_ h (fun _ => ⟨hfirst, hb⟩) fun l hl => ⟨hopen l hl, hspares l hl⟩).2
  intro ks u l w hu hl hks
  obtain ⟨hescrow, hbacked⟩ := hu fun k hk => hks k (List.mem_append_left [l] hk)
  obtain ⟨hopen, hspares⟩ := hks l (List.mem_append_right _ (List.mem_singleton_self l))
  exact ⟨escrow_step hhonest.toPaymentToken hescrow hl hopen,
    backed_step hhonest hescrow hbacked hl hopen hspares⟩

/-- **The settlement.** In every state before it, the settlement succeeds in every ledger after the
deadline, gives the asset and the payment to whom they belong, and does not succeed again, just when
the reserve is positive or there is a bid. -/
theorem settles_once_iff (hhonest : Honest host holder nftContract paymentToken)
    (hinit : Returns (entryPoint env (.initializeAuction seller nftContract tokenId paymentToken
      startingPrice reservePrice durationLedgers)) (State.initial tokens) () first)
    (h : Run (Step entryPoint) first ls s) (hopen : ∀ l ∈ ls, ¬Settles l)
    (hspares : ∀ l ∈ ls, Spares host holder paymentToken tokenId l) :
    ∃ start, first.auction = some start ∧ start.seller = seller ∧
      start.nftContract = nftContract ∧ start.tokenId = tokenId ∧
      start.paymentToken = paymentToken ∧ start.reservePrice = reservePrice ∧
      (SettlesOnce host holder start (acceptedBids ls) s ↔
        0 < reservePrice ∨ acceptedBids ls ≠ []) := by
  obtain ⟨endLedger, endTimestamp, hauction, -, hfirst⟩ := escrow_first hinit
  have hescrow := escrow_of_run hhonest.toPaymentToken hfirst h hopen
  obtain ⟨hauth, hasset⟩ := asset_first hhonest hinit
  have hfunds : highest ([] : List (Bid Address)) ≤
      host.balance paymentToken first.tokens host.currentContractAddress :=
    hhonest.balance_nonneg _ _
  have hbacked := backed_of_run hhonest hfirst ⟨hasset, hfunds⟩ h hopen hspares
  have hseller : seller ≠ host.currentContractAddress := by
    intro heq
    rw [heq, env.auth_contract] at hauth
    cases hauth
  refine ⟨_, hauction, rfl, rfl, rfl, rfl, rfl, fun hsettles => ?_, fun hcondition env' hend => ?_⟩
  · by_contra hcondition
    rw [not_or, not_lt, not_not] at hcondition
    obtain ⟨hreserve, hnil⟩ := hcondition
    rw [hnil] at hescrow
    -- a call at the deadline
    obtain ⟨t, hreturns, -⟩ := hsettles { env with
      sequence := deadline s
      sequence_lt := hescrow.deadline_lt } le_rfl
    exact hescrow.not_returns hreserve hreturns
  · obtain ⟨t, hreturns, htransfers, hholder⟩ := exists_settlement hhonest hescrow hbacked
      hcondition hend
    refine ⟨t, hreturns, htransfers, hholder, fun ms u hrun hretains env'' r w => ?_⟩
    have hreleased : Released host holder ⟨seller, nftContract, tokenId, paymentToken,
        startingPrice, reservePrice, endLedger, endTimestamp, 0, []⟩ t := by
      obtain ⟨endLedger', endTimestamp', hstored, -⟩ := hescrow.stored
      refine ⟨⟨_, (auction_of_endAuction hreturns).1.trans hstored, rfl, rfl, rfl⟩, ?_⟩
      rw [hholder]
      exact fun heq => hescrow.winner_ne hseller (Option.some.inj heq)
    exact (released_of_run hhonest hreleased hrun hretains).not_returns hhonest

end Runs

theorem honest_market : Honest market (fun u => u.2) 8 9 where
  toPaymentToken := paymentToken_market
  balance_nonneg := fun u a => u.1.2 9 a
  pays_iff := by
    intro source destination amount u
    have hpays : (∃ c, Balances.transfer 9 source destination amount u.1 = some c) ↔
        0 ≤ amount ∧ amount ≤ u.1.1 9 source := Balances.exists_transfer_iff
    refine Iff.trans ?_ hpays
    constructor
    · rintro ⟨w, hw⟩
      obtain ⟨b, hb, -⟩ := Option.map_eq_some_iff.mp hw
      exact ⟨b, hb⟩
    · rintro ⟨b, hb⟩
      exact ⟨_, Option.map_eq_some_iff.mpr ⟨b, hb, rfl⟩⟩
  holder_pays := by
    intro source destination amount u w h
    obtain ⟨b, -, rfl⟩ := Option.map_eq_some_iff.mp h
    rfl
  gives_iff := by
    intro source destination tokenId u
    show (∃ w, (if u.2 tokenId = some source then
      some (u.1, Function.update u.2 tokenId (some destination)) else none) = some w) ↔ _
    by_cases hholder : u.2 tokenId = some source
    · simp [hholder]
    · simp [hholder]
  holder_gives := by
    intro source destination tokenId u w h
    change (if u.2 tokenId = some source then
      some (u.1, Function.update u.2 tokenId (some destination)) else none) = some w at h
    split at h
    · obtain rfl := Option.some.inj h
      exact Function.update_self ..
    · cases h
  balance_gives := by
    intro source destination tokenId u w h
    change (if u.2 tokenId = some source then
      some (u.1, Function.update u.2 tokenId (some destination)) else none) = some w at h
    split at h
    · obtain rfl := Option.some.inj h
      rfl
    · cases h

theorem settles_once_sample : ∃ first start, first.auction = some start ∧
    (SettlesOnce market (fun u => u.2) start
        (acceptedBids (execute entryPoint first sampleBids).1)
        (execute entryPoint first sampleBids).2 ↔
      (0 : ℤ) < 50 ∨ acceptedBids (execute entryPoint first sampleBids).1 ≠ []) := by
  obtain ⟨first, hinit, -⟩ := exists_sampleStart
  have hopen : ∀ l ∈ (execute entryPoint first sampleBids).1, ¬Settles l := by
    rintro l hl ⟨hcall, -⟩
    obtain ⟨bidder, amount, hbid⟩ := open_sampleBids first l hl
    cases hcall.symm.trans hbid
  have hspares : ∀ l ∈ (execute entryPoint first sampleBids).1,
      Spares market (fun u => u.2) 9 5 l := by
    intro l hl change hcall
    obtain ⟨bidder, amount, hbid⟩ := open_sampleBids first l hl
    cases hcall.symm.trans hbid
  obtain ⟨start, hstart, -, -, -, -, -, hiff⟩ := settles_once_iff honest_market hinit
    (run_execute entryPoint first sampleBids) hopen hspares
  exact ⟨first, start, hstart, hiff⟩

/-- An auction without a reserve, and without a bid. No call settles it. -/
theorem unsold_asset_locked : ∃ first,
    Returns (entryPoint (sampleEnv 1) (sampleStart 0)) (State.initial sampleTokens) () first ∧
      deadline first = 101 ∧
      ∀ (env : Env market) r t, ¬Returns (entryPoint env .endAuction) first r t := by
  obtain ⟨⟨⟩, hinit⟩ := exists_returns_of_isOk (show
    (invoke (entryPoint (sampleEnv 1) (sampleStart 0)) (State.initial sampleTokens)).1.isOk = true
    by decide +kernel)
  obtain ⟨endLedger, endTimestamp, -, -, hfirst⟩ := escrow_first hinit
  exact ⟨_, hinit, by decide +kernel, fun env r t => hfirst.not_returns le_rfl⟩

end EnglishAuction
