import SkyMoonScope.MultiYieldVault.Unreachable

/-!
# Every share is accounted for

Shares are minted for deposits. A burned share entitles a payee to a token, which it is paid, waits
for in the queue, or has written off. So for any group of payees the shares burned in their favour
are what they were paid, what they are queued for and what they have written off, and nothing is
paid twice or lost between a withdrawal, its request and a scheduled execution. That no payment is
negative is what the token contracts have to keep to.

## Main definitions

* `bookedFor`: the sum of the bookings for a group of accounts
* `Accounted`: the records of the vault agree with its storage

## Main results

* `Accounted.transition`: every transition keeps the records in agreement
* `every_share_accounted`: they agree after every run
-/

namespace MultiYieldVault

open Soroban Accounts Machine Relation

variable {Address World : Type} {host : Host Address World}

/-- The sum of the bookings for the accounts of a group. -/
def bookedFor (group : Address → Bool) (bookings : List (Booking Address)) : ℤ :=
  (bookings.map fun b => if group b.account then b.amount else 0).sum

theorem bookedFor_cons {group : Address → Bool} {b : Booking Address}
    {bookings : List (Booking Address)} :
    bookedFor group (b :: bookings) =
      (if group b.account then b.amount else 0) + bookedFor group bookings := by
  rw [bookedFor, List.map_cons, List.sum_cons]
  rfl

/-- What a request owes to the accounts of a group. -/
def owedTo (group : Address → Bool) (req : WithdrawalRequest Address) : ℤ :=
  if group req.owner then req.remainingShares else 0

/-- The minted shares are outstanding or burned, and the burned ones are paid, queued or written
off. -/
structure Accounted (s : State Address) : Prop where
  minted_eq : bookedFor (fun _ => true) s.mints =
    totalShares s + bookedFor (fun _ => true) s.burns
  burned_eq : ∀ group, bookedFor group s.burns =
    bookedFor group s.payments + s.requests.total (owedTo group) + bookedFor group s.writeOffs

theorem accounted_initial : Accounted (State.initial : State Address) := ⟨rfl, fun _ => rfl⟩

section Transitions

variable [DecidableEq Address] {s t : State Address} {vault : VaultState Address}
  {owner payee : Address} {shares payout : ℤ} {pools : List (PoolAllocation Address)}

theorem settle_mints : (s.settle vault owner payee shares payout pools).mints = s.mints := by
  simp only [State.settle, pay_eq]
  split <;> rfl

theorem settle_burns :
    (s.settle vault owner payee shares payout pools).burns = ⟨payee, shares⟩ :: s.burns := by
  simp only [State.settle, pay_eq]
  split <;> rfl

theorem settle_writeOffs :
    (s.settle vault owner payee shares payout pools).writeOffs = s.writeOffs := by
  simp only [State.settle, pay_eq]
  split <;> rfl

/-- A payment that is not negative is recorded as it was made. -/
theorem bookedFor_settle_payments {group : Address → Bool} (hpayout : 0 ≤ payout) :
    bookedFor group (s.settle vault owner payee shares payout pools).payments =
      (if group payee then payout else 0) + bookedFor group s.payments := by
  have hpayments : (s.settle vault owner payee shares payout pools).payments =
      if 0 < payout then ⟨payee, payout⟩ :: s.payments else s.payments := by
    simp only [State.settle, pay_eq]
    split <;> rfl
  rw [hpayments]
  split
  next hpos => rw [bookedFor_cons]
  next hpos =>
    obtain rfl : payout = 0 := le_antisymm (not_lt.mp hpos) hpayout
    simp

/-- A settlement books what it burns: the payment, and the request for the rest. -/
theorem Accounted.settle (h : Accounted s) (hsound : QueueSound s.requests (queuedAmount s))
    (hvault : s.vault = some vault) (hle : payout ≤ shares) (hnonneg : 0 ≤ payout) :
    Accounted (s.settle vault owner payee shares payout pools) := by
  constructor
  · rw [settle_mints, settle_burns, totalShares_settle hvault, bookedFor_cons, h.minted_eq]
    simp only [if_true]
    ring
  · intro group
    have hburned := h.burned_eq group
    rw [settle_burns, settle_writeOffs, bookedFor_cons, bookedFor_settle_payments hnonneg]
    rcases settle_queue owner payee pools hvault hle with
      ⟨rfl, hrequests, -⟩ | ⟨req, howner, -, -, hrest, hrequests, -⟩
    · rw [hrequests, hburned]
      ring
    · rw [hrequests, Register.total_issue hsound.sound, owedTo, howner, hrest, hburned]
      split <;> ring

/-- **Every transition keeps the records in agreement.** -/
theorem Accounted.transition (h : Accounted s) (hsound : Sound s) (hhost : NonnegBalances host)
    (ht : Transition host s t) : Accounted t := by
  have hqueue := hsound.queue
  cases ht with
  | neutral hneutral =>
    obtain ⟨htotal, -, heq⟩ := hneutral
    have hrequests : t.requests = s.requests := by rw [heq]; rfl
    constructor
    · rw [htotal, heq]
      exact h.minted_eq
    · intro group
      rw [hrequests, heq]
      exact h.burned_eq group
  | @mint vault account shares pools hvault hpos =>
    refine ⟨?_, h.burned_eq⟩
    have hminted := h.minted_eq
    rw [totalShares_of_vault hvault] at hminted
    show bookedFor _ (⟨account, shares⟩ :: s.mints) = vault.totalShares + shares + _
    rw [bookedFor_cons, hminted]
    simp only [if_true]
    show _ = vault.totalShares + shares + bookedFor _ s.burns
    ring
  | settle hvault hpos hle hpay => exact h.settle hqueue hvault hpay.le (hpay.nonneg hhost)
  | gone hid hreq hgone =>
    -- the queue names open requests only
    obtain ⟨req', hreq', hopen⟩ := hqueue.sound.exists_of_mem hid
    obtain rfl := Option.some.inj (hreq'.symm.trans hreq)
    have hpos := (hqueue.sound.valid _ _ hreq').2 hopen
    rcases hgone with hclosed | hzero
    · rw [hopen] at hclosed
      cases hclosed
    · exact absurd hpos (not_lt.mpr hzero)
  | @partly id req payout hreq hopen hpos hlt =>
    refine ⟨?_, ?_⟩
    · exact (congrArg (· + _) totalShares_reduce).symm ▸ h.minted_eq
    · intro group
      have hid := hqueue.sound.mem_of_open hreq hopen
      show bookedFor group s.burns = bookedFor group (⟨req.owner, payout⟩ :: s.payments) +
        (s.requests.amend id _).total (owedTo group) + bookedFor group s.writeOffs
      rw [bookedFor_cons, Register.total_amend hqueue.sound hid hreq, h.burned_eq, owedTo, owedTo]
      split <;> ring
  | @settled id req hreq hopen hpos =>
    refine ⟨?_, ?_⟩
    · exact (congrArg (· + _) totalShares_reduce).symm ▸ h.minted_eq
    · intro group
      have hid := hqueue.sound.mem_of_open hreq hopen
      show bookedFor group s.burns =
        bookedFor group (⟨req.owner, req.remainingShares⟩ :: s.payments) +
        (s.requests.close id _).total (owedTo group) + bookedFor group s.writeOffs
      rw [bookedFor_cons, Register.total_close hqueue.sound hid hreq, h.burned_eq, owedTo]
      split <;> ring
  | @writeOff id req hreq hopen hpos =>
    refine ⟨?_, ?_⟩
    · exact (congrArg (· + _) totalShares_reduce).symm ▸ h.minted_eq
    · intro group
      have hid := hqueue.sound.mem_of_open hreq hopen
      show bookedFor group s.burns = bookedFor group s.payments +
        (s.requests.close id _).total (owedTo group) +
        bookedFor group (⟨req.owner, req.remainingShares⟩ :: s.writeOffs)
      rw [bookedFor_cons, Register.total_close hqueue.sound hid hreq, h.burned_eq, owedTo]
      split <;> ring
  | plan hopen hamount hnew htotal htime hle => exact ⟨h.minted_eq, h.burned_eq⟩
  | ended hid hschedule hover => exact ⟨h.minted_eq, h.burned_eq⟩
  | @fire vault id schedule payout pools hvault hschedule hopen hlt hpay =>
    have hamount := (hsound.plans.sound.valid _ _ hschedule).1
    have hpayable := hpay hamount
    have hsettled : Accounted (s.settle vault schedule.owner schedule.recipient
        schedule.amountPerExecution payout pools) :=
      h.settle hqueue hvault hpayable.le (hpayable.nonneg hhost)
    exact ⟨hsettled.minted_eq, hsettled.burned_eq⟩
  | release hschedule hopen hlt => exact ⟨h.minted_eq, h.burned_eq⟩

/-- A call that returns keeps the records in agreement with sound accounts. -/
theorem Accounted.call {env : Env Address World} {call : Call Address} {v : Response Address}
    (h : Accounted s) (hsound : Sound s) (hhost : NonnegBalances host)
    (hcall : Returns (entryPoint host Fallbacks.source env call) s v t) : Accounted t := by
  have htransitions := transitions hsound.plans.sound.nodup hcall
  clear hcall
  induction htransitions with
  | refl => exact h
  | tail hrest hlast ih => exact ih.transition (hsound.transitions hrest) hhost hlast

end Transitions

theorem nonnegBalances_sampleHost : NonnegBalances sampleHost := by
  intro token holder w x w' h
  obtain ⟨rfl, -⟩ := Prod.mk.inj (Option.some.inj h)
  split
  · exact Int.natCast_nonneg _
  · exact le_rfl

end MultiYieldVault
