import SkyMoonScope.LiquidityPool.Conservation

/-!
# Who may take shares from an address

A transfer, a stake, an unstake and a burn ask for the authorization of the address they name as
the source, and for a balance of at least the amount. Amounts are signed and none of the five
operations asks for their sign, so a negative amount passes both checks, debits the other side, and
mints where it should burn. The operations protect the owners of shares just when the side that is
debited is covered and permits it, which is so for every amount that is not negative.

## Main definitions

* `Call.MovesShares`: the call is one of the five operations
* `Permits`: the address authorized the call, or granted its spender an allowance
* `Protected`: what the owners of shares expect of a call
* `Call.Orderly`: the debited side is covered and permits the call
* `Solvent`: no balance is negative, and the fee is in its range

## Main results

* `solvent_of_run`: orderly calls keep the balances from becoming negative
* `protected_iff`: after orderly calls, the owners are protected by just the orderly ones
* `not_protected`: a transfer of a negative amount takes the shares of an address that permitted
  nothing
-/

namespace LiquidityPool

open Soroban Machine Accounts

variable {Address Tokens : Type}

/-- The call is one of the five operations that move shares or burn them. -/
def Call.MovesShares : Call Address → Prop
  | .transfer .. | .transferFrom .. | .stake .. | .unstake .. | .burn .. => True
  | _ => False

/-- The spender of a call, to whom an allowance was granted. -/
def Call.spender : Call Address → Option Address
  | .transferFrom spender _ _ _ => some spender
  | _ => none

/-- The address authorized the call, or had granted its spender an allowance of the amount. -/
def Permits (host : Host Address Tokens) (call : Call Address) (s : Storage Address Tokens)
    (addr : Address) (amount : ℤ) : Prop :=
  host.auth addr = true ∨
    ∃ spender, call.spender = some spender ∧
      amount ≤ Token.allowance host.sequence s addr spender

/-- What the owners of shares expect of a call. -/
structure Protected (host : Host Address Tokens) (call : Call Address)
    (s t : Storage Address Tokens) : Prop where
  liquid : ∀ a, Token.balance t a < Token.balance s a →
    Permits host call s a (Token.balance s a - Token.balance t a)
  staked : ∀ a, getStakedBalance t a < getStakedBalance s a →
    Permits host call s a (getStakedBalance s a - getStakedBalance t a)
  liquid_nonneg : ∀ a, 0 ≤ Token.balance t a
  staked_nonneg : ∀ a, 0 ≤ getStakedBalance t a
  shares : totalSupply t ≤ totalSupply s

section

variable [DecidableEq Address]

/-- The amount is not negative, or the side that a negative one debits is covered and permits the
call. Nothing burns a negative amount. -/
def Call.Orderly (host : Host Address Tokens) (s : Storage Address Tokens)
    (call : Call Address) : Prop :=
  match call with
  | .transfer source destination amount | .transferFrom _ source destination amount =>
    0 ≤ amount ∨ source = destination ∨
      Permits host call s destination (-amount) ∧ 0 ≤ Token.balance s destination + amount
  | .stake user amount => 0 ≤ getStakedBalance s user + amount
  | .unstake user amount => 0 ≤ Token.balance s user + amount
  | .burn _ amount => 0 ≤ amount
  | _ => True

/-- A call that was orderly, where it returned. -/
def orderlyStep (s : Storage Address Tokens) (l : Event Address Tokens)
    (t : Storage Address Tokens) : Prop :=
  s.step l t ∧ ∀ v, l.result = .ok v → l.call.Orderly l.host s

/-- No balance is negative, and the fee is in its range. -/
structure Solvent (s : Storage Address Tokens) : Prop where
  liquid : ∀ a, 0 ≤ Token.balance s a
  staked : ∀ a, 0 ≤ getStakedBalance s a
  fee : FeeInRange s.toState

variable {host : Host Address Tokens} {s t : Storage Address Tokens} {call : Call Address}
  {v : Response Address} {l : Event Address Tokens}

theorem liquid_after (h : Returns (entryPoint host call) s v t) :
    Token.balance t = (s.book.post (call.posting v)).liquid :=
  congrArg Book.liquid (book_after h)

theorem staked_after (h : Returns (entryPoint host call) s v t) :
    getStakedBalance t = (s.book.post (call.posting v)).staked :=
  congrArg Book.staked (book_after h)

theorem totalSupply_after (h : Returns (entryPoint host call) s v t) :
    totalSupply t = (s.book.post (call.posting v)).totalShares :=
  congrArg Book.totalShares (book_after h)

/-! ## The five operations -/

/-- A transfer debits its source, who permits it, or a destination. -/
theorem protected_move_iff (hs : Solvent s) {source destination : Address} {amount : ℤ}
    (hauth : host.auth source = true) (hcover : amount ≤ Token.balance s source)
    (hliquid : Token.balance t = move (Token.balance s) source destination amount)
    (hstaked : getStakedBalance t = getStakedBalance s) (hshares : totalSupply t = totalSupply s) :
    Protected host call s t ↔ 0 ≤ amount ∨ source = destination ∨
      Permits host call s destination (-amount) ∧ 0 ≤ Token.balance s destination + amount := by
  by_cases hab : source = destination
  · -- a move within one account does nothing
    subst hab
    rw [move_self] at hliquid
    refine iff_of_true ⟨?_, ?_, ?_, ?_, hshares.le⟩ (.inr (.inl rfl))
    · exact fun a hlt => absurd hlt (by rw [hliquid]; exact lt_irrefl _)
    · exact fun a hlt => absurd hlt (by rw [hstaked]; exact lt_irrefl _)
    · exact fun a => hliquid ▸ hs.liquid a
    · exact fun a => hstaked ▸ hs.staked a
  constructor
  · intro h
    by_cases hpos : 0 ≤ amount
    · exact .inl hpos
    · -- the destination is debited
      rw [not_le] at hpos
      have hbalance : Token.balance t destination = Token.balance s destination + amount := by
        rw [hliquid, move_destination hab]
      have hpermits := h.liquid destination (by rw [hbalance]; linarith)
      have hnonneg := h.liquid_nonneg destination
      rw [hbalance] at hpermits hnonneg
      rw [sub_add_cancel_left] at hpermits
      exact .inr (.inr ⟨hpermits, hnonneg⟩)
  · intro h
    refine ⟨?_, ?_, ?_, ?_, hshares.le⟩
    · intro a hlt
      rw [hliquid] at hlt ⊢
      rcases (move_lt_iff hab).mp hlt with ⟨rfl, -⟩ | ⟨rfl, hneg⟩
      · exact .inl hauth
      · rw [move_destination hab, sub_add_cancel_left]
        rcases h with hpos | heq | hpermits
        · exact absurd hpos (not_le.mpr hneg)
        · exact absurd heq hab
        · exact hpermits.1
    · exact fun a hlt => absurd hlt (by rw [hstaked]; exact lt_irrefl _)
    · rw [hliquid, move_nonneg_iff hs.liquid hab]
      refine ⟨sub_nonneg.mpr hcover, ?_⟩
      rcases h with hpos | heq | hpermits
      · exact add_nonneg (hs.liquid destination) hpos
      · exact absurd heq hab
      · exact hpermits.2
    · exact fun a => hstaked ▸ hs.staked a

/-- Staking moves shares between the two accounts of an address that authorized it. -/
theorem protected_stake_iff (hs : Solvent s) {user : Address} {amount : ℤ}
    (hauth : host.auth user = true)
    (hliquid : Token.balance t = credit (Token.balance s) user (-amount))
    (hstaked : getStakedBalance t = credit (getStakedBalance s) user amount)
    (hshares : totalSupply t = totalSupply s) :
    Protected host call s t ↔
      0 ≤ Token.balance s user + -amount ∧ 0 ≤ getStakedBalance s user + amount := by
  constructor
  · intro h
    constructor
    · rw [← credit_nonneg_iff hs.liquid, ← hliquid]
      exact h.liquid_nonneg
    · rw [← credit_nonneg_iff hs.staked, ← hstaked]
      exact h.staked_nonneg
  · rintro ⟨hnonneg, hnonneg'⟩
    refine ⟨?_, ?_, ?_, ?_, hshares.le⟩
    · intro a hlt
      rw [hliquid] at hlt
      obtain ⟨rfl, -⟩ := credit_lt_iff.mp hlt
      exact .inl hauth
    · intro a hlt
      rw [hstaked] at hlt
      obtain ⟨rfl, -⟩ := credit_lt_iff.mp hlt
      exact .inl hauth
    · rw [hliquid]
      exact (credit_nonneg_iff hs.liquid).mpr hnonneg
    · rw [hstaked]
      exact (credit_nonneg_iff hs.staked).mpr hnonneg'

/-- Burning debits an address that authorized it, and mints where the amount is negative. -/
theorem protected_burn_iff (hs : Solvent s) {source : Address} {amount : ℤ}
    (hauth : host.auth source = true) (hcover : amount ≤ Token.balance s source)
    (hliquid : Token.balance t = credit (Token.balance s) source (-amount))
    (hstaked : getStakedBalance t = getStakedBalance s)
    (hshares : totalSupply t = totalSupply s + -amount) :
    Protected host call s t ↔ 0 ≤ amount := by
  constructor
  · intro h
    -- the total, less the amount, is no more than the total
    have hle := h.shares
    linarith
  · intro hpos
    refine ⟨?_, ?_, ?_, ?_, by linarith⟩
    · intro a hlt
      rw [hliquid] at hlt
      obtain ⟨rfl, -⟩ := credit_lt_iff.mp hlt
      exact .inl hauth
    · exact fun a hlt => absurd hlt (by rw [hstaked]; exact lt_irrefl _)
    · rw [hliquid]
      exact (credit_nonneg_iff hs.liquid).mpr (by linarith)
    · exact fun a => hstaked ▸ hs.staked a

/-- **From a solvent storage, a call protects the owners just when it is orderly.** -/
theorem Solvent.protected_iff_orderly (hs : Solvent s) (hcall : call.MovesShares)
    (h : Returns (entryPoint host call) s v t) :
    Protected host call s t ↔ call.Orderly host s := by
  have hliquid := liquid_after h
  have hstaked := staked_after h
  have hshares := totalSupply_after h
  cases sharesAfter h with
  | same hsame => cases call <;> first | exact hcall.elim | cases hsame
  | deposit | withdraw | approve | claimNothing | claimRewards => exact hcall.elim
  | burn hpool hauth hcover => exact protected_burn_iff hs hauth hcover hliquid hstaked hshares
  | transfer hauth hcover => exact protected_move_iff hs hauth hcover hliquid hstaked hshares
  | transferFrom hspender hauth hallowed hcover =>
    exact protected_move_iff hs hauth hcover hliquid hstaked hshares
  | stake hauth hcover =>
    rw [protected_stake_iff hs hauth hliquid hstaked hshares]
    exact and_iff_right (by linarith)
  | unstake hauth hcover =>
    rw [protected_stake_iff hs hauth hliquid hstaked hshares, neg_neg]
    exact and_iff_left (by linarith)

/-! ## Runs -/

/-- No call takes the fee out of its range. -/
theorem feeInRange_after (h : Returns (entryPoint host call) s v t)
    (hs : FeeInRange s.toState) : FeeInRange t.toState := by
  cases hcall : call.onShares with
  | false => exact (sameShares_after hcall h).fee hs
  | true =>
    rw [FeeInRange, getLpFeeBps_congr (sameSettings_after hcall h).lpFeeBps]
    exact hs

/-- A deposit credits, a withdrawal is covered, and the five operations protect the balances. -/
theorem Solvent.of_returns (hs : Solvent s) (h : Returns (entryPoint host call) s v t)
    (horderly : call.Orderly host s) : Solvent t := by
  have hfee := feeInRange_after h hs.fee
  by_cases hcall : call.MovesShares
  · have hprotected := (hs.protected_iff_orderly hcall h).mpr horderly
    exact ⟨hprotected.liquid_nonneg, hprotected.staked_nonneg, hfee⟩
  · have hliquid := liquid_after h
    have hstaked := staked_after h
    cases sharesAfter h with
    | same hsame h =>
      refine ⟨fun a => ?_, fun a => ?_, hfee⟩
      · rw [Token.balance, h.balance]
        exact hs.liquid a
      · rw [getStakedBalance, h.stakedBalance]
        exact hs.staked a
    | deposit hpool hauth hnet ht =>
      -- the fee leaves the depositor no fewer shares than before
      refine ⟨?_, fun a => hstaked ▸ hs.staked a, hfee⟩
      rw [hliquid]
      exact (credit_nonneg_iff hs.liquid).mpr (add_nonneg (hs.liquid _) (hnet hs.fee))
    | withdraw hpool hauth hpos hcover hearly ha hb ht =>
      -- the shares redeemed are covered by the balance
      refine ⟨?_, fun a => hstaked ▸ hs.staked a, hfee⟩
      rw [hliquid]
      refine (credit_nonneg_iff hs.liquid).mpr ?_
      show 0 ≤ Token.balance s _ + -_
      linarith
    | approve | claimNothing | claimRewards =>
      exact ⟨fun a => hliquid ▸ hs.liquid a, fun a => hstaked ▸ hs.staked a, hfee⟩
    | burn | transfer | transferFrom | stake | unstake => exact absurd trivial hcall

/-- **Orderly calls keep the balances from becoming negative.** -/
theorem solvent_of_run {tokens : Tokens} {ls : List (Event Address Tokens)}
    (h : Run orderlyStep (Storage.initial tokens) ls s) : Solvent s := by
  apply invariant_of_returns (I := Solvent) (fun hu => hu.of_returns) h
  refine ⟨fun _ => le_refl 0, fun _ => le_refl 0, ?_, ?_⟩
  · show 0 ≤ defaultLpFeeBps
    decide
  · show defaultLpFeeBps ≤ maxLpFeeBps
    decide

omit [DecidableEq Address] in
/-- A call that changes nothing takes nothing. -/
theorem Solvent.protected_self (hs : Solvent s) : Protected host call s s :=
  ⟨fun _ h => absurd h (lt_irrefl _), fun _ h => absurd h (lt_irrefl _), hs.liquid, hs.staked,
    le_refl _⟩

/-- **Share ownership.** After every run of orderly calls, each of the five operations protects the
owners of shares exactly when it is orderly, and always where it fails. -/
theorem protected_iff {tokens : Tokens} {ls : List (Event Address Tokens)}
    (hrun : Run orderlyStep (Storage.initial tokens) ls s) (hcall : call.MovesShares)
    {result : Except (Fault Failure) (Response Address)} (h : s.step ⟨host, call, result⟩ t) :
    (∀ v, result = .ok v → (Protected host call s t ↔ call.Orderly host s)) ∧
      ∀ fault, result = .error fault → Protected host call s t := by
  have hs := solvent_of_run hrun
  apply Storage.step_split h
  · exact fun v hreturns => hs.protected_iff_orderly hcall hreturns
  · rintro rfl
    exact hs.protected_self

end

/-- Two deposits of ten shares each. -/
def sampleDeposits : List (Host ℕ Unit × Call ℕ) :=
  [(sampleHost 1 [9], .initializePool 9 100 101),
   (sampleHost 1 [1], .deposit 1 10 10),
   (sampleHost 2 [2], .deposit 2 10 10)]

theorem protected_iff_sample :
    ∃ ls s t, Run orderlyStep (Storage.initial ()) ls s ∧
      s.step ⟨sampleHost 3 [1], .transfer 1 2 4, .ok .unit⟩ t ∧ Token.balance t 2 = 14 ∧
      Protected (sampleHost 3 [1]) (.transfer 1 2 4) s t := by
  have hrun := run_execute_of (P := fun u l => ∀ v, l.result = .ok v → l.call.Orderly l.host u)
    (Storage.initial ()) sampleDeposits (by
      intro c hc u result v _
      simp only [sampleDeposits, List.mem_cons, List.not_mem_nil, or_false] at hc
      rcases hc with rfl | rfl | rfl <;> exact trivial)
  have hstep : Storage.step _ ⟨sampleHost 3 [1], .transfer 1 2 4, .ok .unit⟩ _ :=
    Storage.step_invoke (execute (Storage.initial ()) sampleDeposits).2 _ _ rfl
  have hcall : (Call.transfer 1 2 4 : Call ℕ).MovesShares := trivial
  refine ⟨_, _, _, hrun, hstep, rfl, ?_⟩
  exact ((protected_iff hrun hcall hstep).1 .unit rfl).mpr (.inl (by decide))

/-- A transfer of a negative amount takes the shares of its destination, who permitted nothing. -/
theorem not_protected :
    ¬ ∀ (ls : List (Event ℕ Unit)) (s t : Storage ℕ Unit) (host : Host ℕ Unit) (call : Call ℕ)
      (result : Except (Fault Failure) (Response ℕ)),
      Run Storage.step (Storage.initial ()) ls s → call.MovesShares →
      s.step ⟨host, call, result⟩ t → Protected host call s t := by
  intro h
  have hrun := run_execute (Storage.initial ()) sampleDeposits
  have hprotected := h _ _ _ (sampleHost 3 [1]) (.transfer 1 2 (-10)) (.ok .unit) hrun trivial
    (Storage.step_invoke _ _ _ rfl)
  rcases hprotected.liquid 2 (by decide) with hauth | ⟨spender, hspender, -⟩
  · exact absurd hauth (by decide)
  · cases hspender

end LiquidityPool
