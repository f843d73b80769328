import SkyMoonScope.LiquidityPool.Effects

/-!
# The holding period

A withdrawal within the holding period of a position pays a penalty. The period is recorded by
address, at the last deposit of the address, and shares that are transferred leave it behind: they
can be redeemed by an address with an older record, or with none, as soon as they arrive. The
penalty cannot be avoided as long as nobody within the holding period gives shares to an address
with an older record.

## Main definitions

* `Call.Passes`: the call gives shares from one address to another
* `Carries`: the shares of an address may come from a deposit in a ledger
* `Call.KeepsHolding`: the call leaves no holding period behind
* `Held`: the invariant, that a holding period that is not over is on record where the shares are

## Main results

* `penalized_of_carries`: shares are not redeemed before the end of the holding period without the
  penalty when no call leaves one behind
* `not_penalized`: shares that were transferred are redeemed without it
-/

namespace LiquidityPool

open Soroban Machine

variable {Address Tokens : Type}

/-- The address that deposits in the call. -/
def Call.depositor : Call Address → Option Address
  | .deposit user _ _ => some user
  | _ => none

/-- The call gives shares of `giver` to `receiver`: a transfer of a negative amount takes them from
its destination. -/
def Call.Passes (giver receiver : Address) : Call Address → Prop
  | .transfer source destination amount | .transferFrom _ source destination amount =>
    0 < amount ∧ giver = source ∧ receiver = destination ∨
      amount < 0 ∧ giver = destination ∧ receiver = source
  | _ => False

/-- What the addresses carry after a call: a deposit gives the depositor shares of its ledger, and
whoever receives shares may receive any that the giver carries. -/
def Event.carry (held : Address → ℤ → Prop) (l : Event Address Tokens) (user : Address) (d : ℤ) :
    Prop :=
  held user d ∨ ∃ v, l.result = .ok v ∧
    (l.call.depositor = some user ∧ d = l.ledger ∨
      ∃ giver, l.call.Passes giver user ∧ held giver d)

/-- After the calls `ls`, the shares of an address may come from a deposit in the ledger `d`. -/
def Carries (ls : List (Event Address Tokens)) : Address → ℤ → Prop :=
  ls.foldl Event.carry fun _ _ => False

/-- The ledger of the last deposit, zero where there was none. -/
def depositLedgerOf (s : Storage Address Tokens) (user : Address) : ℤ :=
  (s.depositLedger user).getD 0

/-- The call leaves no holding period behind: a deposit is made in a ledger that can be told from
none, and shares are given by an address whose holding period is over, or to one whose last deposit
was no earlier. -/
def Call.KeepsHolding (sequence : ℤ) (s : Storage Address Tokens) (call : Call Address) : Prop :=
  (∀ user, call.depositor = some user → 0 < sequence) ∧
    ∀ giver receiver, call.Passes giver receiver →
      depositLedgerOf s giver + minHoldingPeriod ≤ sequence ∨
        depositLedgerOf s giver ≤ depositLedgerOf s receiver

/-- Whatever an address carries was deposited before, and is not held any longer or on record. -/
def Held (ls : List (Event Address Tokens)) (now : ℤ) (s : Storage Address Tokens) : Prop :=
  ∀ user d, Carries ls user d → 0 < d ∧ d ≤ now ∧
    (d + minHoldingPeriod ≤ now ∨ d ≤ depositLedgerOf s user)

theorem carries_append {ls : List (Event Address Tokens)} {l : Event Address Tokens} :
    Carries (ls ++ [l]) = Event.carry (Carries ls) l := by
  rw [Carries, List.foldl_append, List.foldl_cons, List.foldl_nil, Carries]

/-- Whoever passes shares on makes no deposit in the same call. -/
theorem Call.Passes.depositor_eq {giver receiver : Address} {call : Call Address}
    (h : call.Passes giver receiver) :
    call.depositor = none := by
  cases call <;> first | rfl | exact h.elim

section

variable [DecidableEq Address] {host : Host Address Tokens} {s t : Storage Address Tokens}
  {call : Call Address} {v : Response Address} {l : Event Address Tokens}
  {ls : List (Event Address Tokens)} {now : ℤ}

/-- A call that left no holding period behind, where it returned. -/
def holdingStep (s : Storage Address Tokens) (l : Event Address Tokens)
    (t : Storage Address Tokens) : Prop :=
  s.step l t ∧ ∀ v, l.result = .ok v → l.call.KeepsHolding l.ledger s

/-- A deposit records its ledger, and no other call changes the records. -/
theorem depositLedgerOf_after (h : Returns (entryPoint host call) s v t) (user : Address) :
    depositLedgerOf t user =
      if call.depositor = some user then host.sequence else depositLedgerOf s user := by
  have hsame : t.depositLedger = s.depositLedger → call.depositor = none →
      depositLedgerOf t user =
        if call.depositor = some user then host.sequence else depositLedgerOf s user := by
    intro hledger hnone
    rw [hnone, if_neg (by rintro ⟨⟩), depositLedgerOf, hledger, depositLedgerOf]
  cases sharesAfter h with
  | @deposit depositor _ _ _ _ _ hpool hauth hnet ht =>
    have hledger : t.depositLedger =
        Function.update s.depositLedger depositor (some host.sequence) := by
      rw [ht]
    rw [depositLedgerOf, hledger, depositLedgerOf, Call.depositor]
    by_cases huser : depositor = user
    · rw [huser, Function.update_self, if_pos rfl, Option.getD_some]
    · rw [Function.update_of_ne (Ne.symm huser), if_neg (fun h => huser (Option.some.inj h))]
  | same hcall h =>
    refine hsame h.depositLedger ?_
    cases call <;> first | rfl | cases hcall
  | withdraw hpool hauth hpos hcover hearly ha hb ht => exact hsame (by rw [ht]) rfl
  | burn hpool hauth hcover ht => exact hsame (by rw [ht]) rfl
  | transfer hauth hcover ht => exact hsame (by rw [ht]) rfl
  | approve ht => exact hsame (by rw [ht]) rfl
  | transferFrom hspender hauth hallowed hcover ht => exact hsame (by rw [ht]) rfl
  | stake hauth hcover ht => exact hsame (by rw [ht]; rfl) rfl
  | unstake hauth hcover ht => exact hsame (by rw [ht]; rfl) rfl
  | claimNothing ht => exact hsame (by rw [ht]; rfl) rfl
  | claimRewards hpos hpaid ht => exact hsame (by rw [ht]; rfl) rfl

/-- **A call that leaves no holding period behind** keeps those that are not over on record. -/
theorem Held.step (h : Held ls now s) (hnow : now ≤ l.ledger) (hl : holdingStep s l t) :
    Held (ls ++ [l]) l.ledger t := by
  obtain ⟨hstep, hkeeps⟩ := hl
  intro user d hcarries
  rw [carries_append] at hcarries
  rcases Storage.step_cases hstep with ⟨v, hv, hreturns⟩ | ⟨⟨fault, hfault⟩, rfl⟩
  · obtain ⟨hdeposit, hpasses⟩ := hkeeps v hv
    rw [depositLedgerOf_after hreturns]
    rcases hcarries with hheld | ⟨_, -, ⟨hdepositor, rfl⟩ | ⟨giver, hgiver, hheld⟩⟩
    · -- carried before: a deposit of the address itself only moves its record forward
      obtain ⟨hpos, hle, hover⟩ := h user d hheld
      refine ⟨hpos, hle.trans hnow, hover.imp (fun h => h.trans hnow) fun hrecord => ?_⟩
      split
      · exact hle.trans hnow
      · exact hrecord
    · -- just deposited
      rw [if_pos hdepositor]
      exact ⟨hdeposit user hdepositor, le_refl _, .inr (le_refl _)⟩
    · -- received from an address that carried it
      obtain ⟨hpos, hle, hover⟩ := h giver d hheld
      rw [hgiver.depositor_eq, if_neg (by rintro ⟨⟩)]
      refine ⟨hpos, hle.trans hnow, ?_⟩
      rcases hover with hover | hrecord
      · exact .inl (hover.trans hnow)
      · rcases hpasses giver user hgiver with hseasoned | hyounger
        · exact .inl (by linarith)
        · exact .inr (hrecord.trans hyounger)
  · -- a call that fails passes nothing
    rcases hcarries with hheld | ⟨v, hv, -⟩
    · obtain ⟨hpos, hle, hover⟩ := h user d hheld
      exact ⟨hpos, hle.trans hnow, hover.imp_left fun h => h.trans hnow⟩
    · rw [hfault] at hv
      cases hv

/-- **Just-in-time protection.** In every run at ledgers that do not decrease where no call leaves a
holding period behind, an address that carries shares of a deposit redeems none before the end of
the holding period without the penalty. -/
theorem penalized_of_carries {tokens : Tokens} {start d shareAmount : ℤ} {user : Address}
    (hrun : Run (timed Event.ledger holdingStep) (start, Storage.initial tokens) ls (now, s))
    (hcarries : Carries ls user d) (hnow : now ≤ host.sequence)
    (hearly : host.sequence < d + minHoldingPeriod)
    (h : s.step ⟨host, .withdraw user shareAmount, .ok v⟩ t) :
    ∃ pool, s.pool = some pool ∧
      v = .amounts
        (payout true shareAmount pool.reserveA pool.totalShares (getLpFeeBps s.toState))
        (payout true shareAmount pool.reserveB pool.totalShares (getLpFeeBps s.toState)) := by
  have hheld : Held ls now s := by
    refine hrun.history (H := fun ls p => Held ls p.1 p.2) ?_ fun _ _ h => h.elim
    rintro ls ⟨now, u⟩ l ⟨now', w⟩ hu ⟨hnow, rfl, hstep⟩
    exact hu.step hnow hstep
  obtain ⟨hpos, -, hover⟩ := hheld user d hcarries
  have hrecord : d ≤ depositLedgerOf s user := by
    apply hover.resolve_left
    linarith
  rcases Storage.step_cases h with ⟨_, ⟨⟩, hreturns⟩ | ⟨⟨_, ⟨⟩⟩, -⟩
  cases sharesAfter hreturns with
  | same hcall => cases hcall
  | withdraw hpool hauth hpos' hcover hwithin ha hb ht =>
    -- the record is one of a deposit within the holding period
    rw [decide_eq_true (by
      show 0 < depositLedgerOf s user ∧
        host.sequence < depositLedgerOf s user + minHoldingPeriod
      constructor <;> linarith)] at hwithin
    subst hwithin
    exact ⟨_, hpool, by rw [ha, hb]⟩

end

/-- A deposit of a thousand shares in ledger 5. -/
def sampleDeposit : List (Host ℕ Unit × Call ℕ) :=
  [(sampleHost 1 [9], .initializePool 9 100 101),
   (sampleHost 5 [1], .deposit 1 1000 1000)]

/-- Nine ledgers later, the penalty is ten of a thousand. -/
theorem penalized_of_carries_sample :
    ∃ (ls : List (Event ℕ Unit)) (s t : Storage ℕ Unit),
      Run (timed Event.ledger holdingStep) (0, Storage.initial ()) ls (5, s) ∧ Carries ls 1 5 ∧
      s.step ⟨sampleHost 14 [1], .withdraw 1 1000, .ok (.amounts 990 990)⟩ t ∧
      ∃ pool, s.pool = some pool ∧
        (Response.amounts 990 990 : Response ℕ) = .amounts
          (payout true 1000 pool.reserveA pool.totalShares (getLpFeeBps s.toState))
          (payout true 1000 pool.reserveB pool.totalShares (getLpFeeBps s.toState)) := by
  have hrun := run_execute_of
    (P := fun u l => ∀ v, l.result = .ok v → l.call.KeepsHolding l.ledger u)
    (Storage.initial ()) sampleDeposit (by
      intro c hc u result v _
      simp only [sampleDeposit, List.mem_cons, List.not_mem_nil, or_false] at hc
      rcases hc with rfl | rfl
      · exact ⟨by rintro user ⟨⟩, fun _ _ h => h.elim⟩
      · exact ⟨fun _ _ => (by decide : (0 : ℤ) < 5), fun _ _ h => h.elim⟩)
  have htimed : Run (timed Event.ledger holdingStep) (0, Storage.initial ()) _ (5, _) :=
    hrun.timed (by decide)
  have hcarries : Carries (execute (Storage.initial ()) sampleDeposit).1 1 5 :=
    .inr ⟨.amount 1000, rfl, .inl ⟨rfl, rfl⟩⟩
  have hstep : Storage.step _ ⟨sampleHost 14 [1], .withdraw 1 1000, .ok (.amounts 990 990)⟩ _ :=
    Storage.step_invoke (execute (Storage.initial ()) sampleDeposit).2 _ _ rfl
  exact ⟨_, _, _, htimed, hcarries, hstep,
    penalized_of_carries htimed hcarries (by decide) (by decide) hstep⟩

/-- Shares that were transferred are redeemed in the ledger of their deposit without the penalty. -/
theorem not_penalized :
    ¬ ∀ (start now d shareAmount : ℤ) (ls : List (Event ℕ Unit)) (s t : Storage ℕ Unit)
      (host : Host ℕ Unit) (user : ℕ) (v : Response ℕ),
      Run (timed Event.ledger Storage.step) (start, Storage.initial ()) ls (now, s) →
      Carries ls user d → now ≤ host.sequence → host.sequence < d + minHoldingPeriod →
      s.step ⟨host, .withdraw user shareAmount, .ok v⟩ t →
      ∃ pool, s.pool = some pool ∧
        v = .amounts
          (payout true shareAmount pool.reserveA pool.totalShares (getLpFeeBps s.toState))
          (payout true shareAmount pool.reserveB pool.totalShares (getLpFeeBps s.toState)) := by
  intro h
  have hrun := run_execute (Storage.initial ())
    (sampleDeposit ++ [(sampleHost 5 [1], .transfer 1 3 1000)])
  have hcarries : Carries (execute (Storage.initial ())
      (sampleDeposit ++ [(sampleHost 5 [1], .transfer 1 3 1000)])).1 3 5 :=
    .inr ⟨.unit, rfl, .inr ⟨1, .inl ⟨by decide, rfl, rfl⟩,
      .inr ⟨.amount 1000, rfl, .inl ⟨rfl, rfl⟩⟩⟩⟩
  obtain ⟨pool, hpool, hv⟩ := h 0 _ 5 1000 _ _ _ (sampleHost 5 [3]) 3 (.amounts 1000 1000)
    (hrun.timed (by decide)) hcarries (by decide) (by decide) (Storage.step_invoke _ _ _ rfl)
  obtain rfl := Option.some.inj hpool
  exact absurd hv (by decide)

end LiquidityPool
