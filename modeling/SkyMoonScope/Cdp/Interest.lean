import Mathlib.Data.List.Chain
import SkyMoonScope.Cdp.Conservation

/-!
# What extra accruals cost

Every accrual rounds the interest down to whole units and starts the next interval, so that the
fraction of a unit that it drops is not made up for later. Accruing more often compounds, which
raises the debt, and drops more fractions, which lowers it. The debt after several accruals at one
rate is at least the debt after a single one over the whole interval, less one unit for every extra
accrual.

## Main definitions

* `accrueOnce`: the debt and the mark of a position after an accrual at a rate
* `Accruals`: accruals of one position at one rate, with anything in between that leaves its debt

## Main results

* `accruals_foldl`: the contract computes `accrueOnce`, accrual by accrual
* `single_le_foldl`: the bound, for accruals at any ledgers
* `single_le_accruals`: the bound for the positions of the contract
* `accruals_lose_interest`: two quotes in the place of one lose a unit
-/

namespace Cdp

open Soroban

variable {Address Tokens : Type} [DecidableEq Address] {host : Host Address Tokens}
  {env : Env host} {s t u v : State Address Tokens} {user : Address} {rate : ℤ} {ls : List ℤ}
  {l : ℤ}

/-! ## The interest of an interval -/

/-- The units of debt, basis points and ledgers that one unit of interest takes. -/
def unitOfInterest : ℤ := bps * ledgersPerYear

/-- The debt and the mark of a position after an accrual: interest is rounded down, and there is
none at a negative rate. -/
def accrueOnce (rate : ℤ) (p : ℤ × ℤ) (now : ℤ) : ℤ × ℤ :=
  (p.1 + p.1 * max rate 0 * (now - p.2) / unitOfInterest, now)

/-- The two truncating divisions round down once. -/
theorem interest_eq {debt elapsed : ℤ} (hdebt : 0 ≤ debt) (helapsed : 0 ≤ elapsed) :
    max (interest debt rate elapsed) 0 = debt * max rate 0 * elapsed / unitOfInterest := by
  unfold interest
  rcases le_total 0 rate with hrate | hrate
  · have hproduct : 0 ≤ debt * rate * elapsed := mul_nonneg (mul_nonneg hdebt hrate) helapsed
    have hinner : 0 ≤ debt * rate * elapsed / bps := Int.ediv_nonneg hproduct (by decide)
    rw [max_eq_left hrate, Int.tdiv_eq_ediv_of_nonneg hproduct, Int.tdiv_eq_ediv_of_nonneg hinner,
      Int.ediv_ediv_of_nonneg (by decide), max_eq_left (Int.ediv_nonneg hproduct (by decide))]
    rfl
  · -- at a negative rate nothing is booked
    have hproduct : 0 ≤ -(debt * rate * elapsed) := by
      have h := mul_nonneg (mul_nonneg hdebt (neg_nonneg.mpr hrate)) helapsed
      linarith
    have hinterest : ((debt * rate * elapsed).tdiv bps).tdiv ledgersPerYear ≤ 0 := by
      have hinner : 0 ≤ (-(debt * rate * elapsed)).tdiv bps := Int.tdiv_nonneg hproduct (by decide)
      have houter := Int.tdiv_nonneg hinner (show 0 ≤ ledgersPerYear by decide)
      rw [Int.neg_tdiv, Int.neg_tdiv] at houter
      linarith
    rw [max_eq_right hinterest, max_eq_right hrate]
    simp

/-- The debt after the accruals at the ledgers `ls` is not less than before. -/
theorem le_foldl {p : ℤ × ℤ} (hdebt : 0 ≤ p.1) (hls : (p.2 :: ls).IsChain (· ≤ ·)) :
    p.1 ≤ (ls.foldl (accrueOnce rate) p).1 := by
  induction ls generalizing p with
  | nil => exact le_rfl
  | cons now ls ih =>
    obtain ⟨hnow, hls⟩ := List.isChain_cons_cons.mp hls
    have hinterest : 0 ≤ p.1 * max rate 0 * (now - p.2) / unitOfInterest :=
      Int.ediv_nonneg (mul_nonneg (mul_nonneg hdebt (le_max_right _ _)) (sub_nonneg.mpr hnow))
        (by decide)
    have hstep : p.1 ≤ (accrueOnce rate p now).1 := le_add_of_nonneg_right hinterest
    exact hstep.trans (ih (p := accrueOnce rate p now) (hdebt.trans hstep) hls)

/-- Dividing a sum rounds down once instead of twice. -/
theorem add_ediv_le {a b : ℤ} :
    (a + b) / unitOfInterest ≤ a / unitOfInterest + b / unitOfInterest + 1 := by
  show (a + b) / 63072000000 ≤ a / 63072000000 + b / 63072000000 + 1
  omega

theorem le_getLastD {a : ℤ} (h : (a :: ls).IsChain (· ≤ ·)) : a ≤ ls.getLastD a := by
  cases ls with
  | nil => exact le_rfl
  | cons b ls =>
    have hpairwise := List.isChain_iff_pairwise.mp h
    apply List.rel_of_pairwise_cons hpairwise
    rw [List.getLastD_cons, ← List.getLast_eq_getLastD (List.cons_ne_nil b ls)]
    exact List.getLast_mem _

/-- **The bound.** Accruals at the ledgers `ls` leave at least the debt that a single accrual at the
last of them leaves, less one unit for every accrual but one. -/
theorem single_le_foldl {p : ℤ × ℤ} (hdebt : 0 ≤ p.1) (hls : (p.2 :: ls).IsChain (· ≤ ·)) :
    (accrueOnce rate p (ls.getLastD p.2)).1 ≤
      (ls.foldl (accrueOnce rate) p).1 + (ls.length - 1 : ℕ) := by
  induction ls generalizing p with
  | nil => simp [accrueOnce]
  | cons now ls ih =>
    obtain ⟨hnow, hls⟩ := List.isChain_cons_cons.mp hls
    cases ls with
    | nil => exact le_add_of_nonneg_right (by simp)
    | cons next ls =>
      let q := accrueOnce rate p now
      let last := (next :: ls).getLastD now
      have hstep : p.1 ≤ ([now].foldl (accrueOnce rate) p).1 :=
        le_foldl hdebt (by simpa using hnow)
      have hlast : now ≤ last := le_getLastD hls
      have hrest : q.1 + q.1 * max rate 0 * (last - now) / unitOfInterest ≤
          ((next :: ls).foldl (accrueOnce rate) q).1 + ((next :: ls).length - 1 : ℕ) :=
        ih (p := q) (hdebt.trans hstep) hls
      -- the rest of the interval is accrued on a debt that is not smaller
      have hcompound : p.1 * max rate 0 * (last - now) / unitOfInterest ≤
          q.1 * max rate 0 * (last - now) / unitOfInterest := by
        apply Int.ediv_le_ediv (by decide)
        apply mul_le_mul_of_nonneg_right _ (sub_nonneg.mpr hlast)
        exact mul_le_mul_of_nonneg_right hstep (le_max_right _ _)
      have hsplit : p.1 * max rate 0 * (last - p.2) =
          p.1 * max rate 0 * (now - p.2) + p.1 * max rate 0 * (last - now) := by ring
      calc (accrueOnce rate p last).1
          = p.1 + p.1 * max rate 0 * (last - p.2) / unitOfInterest := rfl
        _ ≤ p.1 + (p.1 * max rate 0 * (now - p.2) / unitOfInterest +
              p.1 * max rate 0 * (last - now) / unitOfInterest + 1) := by
            rw [hsplit]
            exact add_le_add_right add_ediv_le p.1
        _ = q.1 + p.1 * max rate 0 * (last - now) / unitOfInterest + 1 := by
            show _ = p.1 + p.1 * max rate 0 * (now - p.2) / unitOfInterest + _ + 1
            ring
        _ ≤ q.1 + q.1 * max rate 0 * (last - now) / unitOfInterest + 1 := by linarith
        _ ≤ ((next :: ls).foldl (accrueOnce rate) q).1 + ((next :: ls).length - 1 : ℕ) + 1 := by
            exact add_le_add_left hrest 1
        _ = ((now :: next :: ls).foldl (accrueOnce rate) p).1 +
              ((now :: next :: ls).length - 1 : ℕ) := by
            rw [add_assoc]
            rfl

/-! ## The accruals of the contract -/

/-- The ledger up to which a position is accrued. -/
def markOf (s : State Address Tokens) (user : Address) : ℤ :=
  ((s.position user).map Position.lastAccrualLedger).getD 0

/-- From `s` to `t` the position of `user` is accrued at the ledgers `ls`, whenever the borrow rate
is `rate`. Between the accruals anything may happen that leaves the debt and the mark of the
position. -/
inductive Accruals (host : Host Address Tokens) (user : Address) (rate : ℤ) :
    State Address Tokens → List ℤ → State Address Tokens → Prop
  | nil (s : State Address Tokens) : Accruals host user rate s [] s
  | accrue {env : Env host} {p : Position} {s t u : State Address Tokens} {ls : List ℤ} :
      Returns (accruePosition env user) s p t →
      (∀ r, Returns (currentBorrowRateBps env) s r s → r = rate) →
      Accruals host user rate t ls u → Accruals host user rate s (env.sequence :: ls) u
  | other {s t u : State Address Tokens} {ls : List ℤ} :
      debtOf t user = debtOf s user → markOf t user = markOf s user →
      Accruals host user rate t ls u → Accruals host user rate s ls u

/-- A quote of a liquidation is an accrual, whoever asks for it. -/
theorem Accruals.of_quote {requested : ℤ} {quote : LiquidationQuote}
    (h : Returns (quoteLiquidation env user requested) s quote t)
    (hrate : ∀ r, Returns (currentBorrowRateBps env) s r s → r = rate)
    (ht : Accruals host user rate t ls u) : Accruals host user rate s (env.sequence :: ls) u := by
  obtain ⟨p, haccrue, -⟩ := quoteLiquidation_spec h
  exact .accrue haccrue hrate ht

/-- **An accrual of the contract** of a positive debt, at a ledger that is not before the mark. -/
theorem accrue_eq {p : Position} (h : Returns (accruePosition env user) s p t)
    (hrate : ∀ r, Returns (currentBorrowRateBps env) s r s → r = rate)
    (hdebt : 0 < debtOf s user) (hmark : markOf s user ≤ env.sequence) :
    (debtOf t user, markOf t user) =
      accrueOnce rate (debtOf s user, markOf s user) env.sequence := by
  obtain ⟨booked, haccrued, hidle, hactive⟩ := accruePosition_spec h
  -- a position with a debt is stored
  obtain ⟨old, hold⟩ : ∃ old, s.position user = some old := by
    apply Option.isSome_iff_exists.mp
    by_contra hnone
    rw [Bool.not_eq_true, Option.isSome_eq_false_iff, Option.isNone_iff_eq_none] at hnone
    simp [debtOf, hnone] at hdebt
  have hread : readPosition env.sequence s user = old := by rw [readPosition, hold]; rfl
  have hdebtOf : debtOf s user = old.debtAmount := by rw [debtOf, hold]; rfl
  have hmarkOf : markOf s user = old.lastAccrualLedger := by rw [markOf, hold]; rfl
  have hdebt' : debtOf t user = p.debtAmount := by
    rw [debtOf, haccrued.position, Function.update_self]
    rfl
  have hmark' : markOf t user = p.lastAccrualLedger := by
    rw [markOf, haccrued.position, Function.update_self]
    rfl
  rw [hread] at haccrued hidle hactive
  rw [hdebt', hmark', haccrued.debt, haccrued.ledger, hdebtOf, hmarkOf]
  rw [hdebtOf] at hdebt
  rw [hmarkOf] at hmark
  have hbooked : booked =
      old.debtAmount * max rate 0 * (env.sequence - old.lastAccrualLedger) / unitOfInterest := by
    rcases hmark.eq_or_lt with hnow | hnow
    · rw [hidle (.inr hnow.ge), hnow, sub_self, mul_zero, Int.zero_ediv]
    · obtain ⟨r, hr, hbooked⟩ := hactive hdebt hnow
      rw [hbooked, hrate r hr, interest_eq hdebt.le (sub_nonneg.mpr hnow.le)]
  rw [hbooked, accrueOnce]

/-- The contract computes `accrueOnce`, accrual by accrual. -/
theorem accruals_foldl (h : Accruals host user rate s ls t) (hdebt : 0 < debtOf s user)
    (hls : (markOf s user :: ls).IsChain (· ≤ ·)) :
    (debtOf t user, markOf t user) =
      ls.foldl (accrueOnce rate) (debtOf s user, markOf s user) := by
  induction h with
  | nil s => rfl
  | @accrue env p s t u ls haccrue hrate _ ih =>
    obtain ⟨hmark, hls⟩ := List.isChain_cons_cons.mp hls
    have hstep := accrue_eq haccrue hrate hdebt hmark
    have hgrow : debtOf s user ≤ debtOf t user := by
      have hchain : (markOf s user :: [env.sequence]).IsChain (· ≤ ·) := by simpa using hmark
      have hle : debtOf s user ≤
          ([env.sequence].foldl (accrueOnce rate) (debtOf s user, markOf s user)).1 :=
        le_foldl hdebt.le hchain
      rwa [List.foldl_cons, List.foldl_nil, ← hstep] at hle
    have hmark' : markOf t user = env.sequence := congrArg Prod.snd hstep
    rw [List.foldl_cons, ← hstep]
    apply ih (hdebt.trans_le hgrow)
    rwa [hmark']
  | other hdebtOf hmarkOf _ ih =>
    rw [← hdebtOf] at hdebt ⊢
    rw [← hmarkOf] at hls ⊢
    exact ih hdebt hls

/-- **Extra accruals cost at most one unit each.** A position with a debt that is accrued at the
ledgers `ls` has at least the debt that a single accrual at the last of them would leave, less one
unit for every accrual but one, whenever the borrow rate is the same at all of them. -/
theorem single_le_accruals (hextra : Accruals host user rate s ls t)
    (hsingle : Accruals host user rate s [ls.getLastD (markOf s user)] u)
    (hdebt : 0 < debtOf s user) (hls : (markOf s user :: ls).IsChain (· ≤ ·)) :
    debtOf u user ≤ debtOf t user + (ls.length - 1 : ℕ) := by
  have hlast : (markOf s user :: [ls.getLastD (markOf s user)]).IsChain (· ≤ ·) := by
    simpa using le_getLastD hls
  have hu := congrArg Prod.fst (accruals_foldl hsingle hdebt hlast)
  have ht := congrArg Prod.fst (accruals_foldl hextra hdebt hls)
  have hbound : (accrueOnce rate (debtOf s user, markOf s user) (ls.getLastD (markOf s user))).1 ≤
      (ls.foldl (accrueOnce rate) (debtOf s user, markOf s user)).1 + (ls.length - 1 : ℕ) :=
    single_le_foldl hdebt.le hls
  rw [← ht] at hbound
  exact hu.trans_le hbound

/-! ## Two quotes in the place of one -/

/-- A position with a debt of 1000000 that a fall of the price has made unhealthy. -/
def sampleDebtor : State ℕ Unit :=
  (execute (entryPoint sampleHost) (State.initial ()) [
    (sampleEnv 1 10000000, .initializeContract 9 100 101 sampleRiskParams sampleModel),
    (sampleEnv 1 10000000, .depositCollateral 1 2000000),
    (sampleEnv 1 10000000, .mintStable 1 1000000)]).2

/-- The storage after a quote for the position, at a ledger. -/
def quoted (sequence : ℤ) (s : State ℕ Unit) : State ℕ Unit :=
  (invoke (quoteLiquidation (sampleEnv sequence 6000000) 1 100000) s).2

def sampleQuote : LiquidationQuote := ⟨100000, 175000, 5000⟩

theorem quoted_returns {sequence : ℤ} {s : State ℕ Unit}
    (h : (invoke (quoteLiquidation (sampleEnv sequence 6000000) 1 100000) s).1 = .ok sampleQuote) :
    Returns (quoteLiquidation (sampleEnv sequence 6000000) 1 100000) s sampleQuote
      (quoted sequence s) :=
  invoke_eq_ok.mp (Prod.ext h rfl)

/-- The borrow rate that a computation has returned is the only one. -/
theorem rate_eq {env : Env sampleHost} {s : State ℕ Unit} {rate : ℤ}
    (h : (invoke (currentBorrowRateBps env) s).1 = .ok rate) (r : ℤ)
    (hr : Returns (currentBorrowRateBps env) s r s) : r = rate := by
  rw [invoke_eq_ok.mpr hr] at h
  exact Except.ok.inj h

theorem sample_twice :
    Accruals sampleHost 1 1333 sampleDebtor [48, 95] (quoted 95 (quoted 48 sampleDebtor)) :=
  .of_quote (quoted_returns (by decide +kernel))
    (rate_eq (by decide +kernel)) <|
  .of_quote (quoted_returns (by decide +kernel))
    (rate_eq (by decide +kernel)) (.nil _)

theorem sample_once : Accruals sampleHost 1 1333 sampleDebtor [95] (quoted 95 sampleDebtor) :=
  .of_quote (quoted_returns (by decide +kernel))
    (rate_eq (by decide +kernel)) (.nil _)

/-- A quote in the middle of the interval loses the interest of both halves. -/
theorem accruals_lose_interest :
    ¬ ∀ (s t u : State ℕ Unit) (user : ℕ) (rate : ℤ) (ls : List ℤ), 0 < debtOf s user →
      (markOf s user :: ls).IsChain (· ≤ ·) → Accruals sampleHost user rate s ls t →
      Accruals sampleHost user rate s [ls.getLastD (markOf s user)] u →
        debtOf u user ≤ debtOf t user := by
  intro h
  have hle := h sampleDebtor _ _ 1 1333 [48, 95] (by decide +kernel) (by decide +kernel)
    sample_twice sample_once
  exact absurd hle (by decide +kernel)

theorem single_le_accruals_sample :
    debtOf (quoted 95 sampleDebtor) 1 = 1000001 ∧
      debtOf (quoted 95 (quoted 48 sampleDebtor)) 1 = 1000000 ∧
      debtOf (quoted 95 sampleDebtor) 1 ≤ debtOf (quoted 95 (quoted 48 sampleDebtor)) 1 + 1 :=
  ⟨by decide +kernel, by decide +kernel,
    single_le_accruals sample_twice sample_once (by decide +kernel) (by decide +kernel)⟩

end Cdp
