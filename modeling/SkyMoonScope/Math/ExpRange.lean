import SkyMoonScope.Math.Fixed
import Mathlib.Analysis.Complex.Exponential
import Mathlib.Tactic.NormNum

/-!
# Where the exponential is right

`exp` refuses exponents above 88, and shifts its series by up to 126 bits. The power of 46.59 is
already no `i128`. From there on, the shift drops high bits, and what is left is less than the power
of the greatest exponent that fits, so that neither the order of the powers is kept nor an error
returned.

## Main definitions

* `trueExp`: the power of a real number, scaled
* `ExpSound`: what `exp` should do with an exponent

## Main results

* `exp_mono`: up to the greatest exponent that fits, the powers keep the order
* `trueExp_lt`: up to there, the true power fits
* `exp_lt_of_wrapped`: beyond it, a power is too small
* `expSound_iff`: the exponents for which `exp` does what it should
-/

namespace Math

/-- The exponential of a fixed point number, scaled. -/
noncomputable def trueExp (y : ℤ) : ℝ := scale * Real.exp (y / scale)

/-- The power of `y` is not less than those of the smaller exponents, all of them at least one, and
where the true one does not fit there is an error. -/
structure ExpSound (y : ℤ) : Prop where
  mono : ∀ x, 0 ≤ x → x ≤ y → ∀ u v, Fixed.exp x = some u → Fixed.exp y = some v →
    Fixed.one ≤ u ∧ u ≤ v
  overflows : 2 ^ 127 ≤ trueExp y → Fixed.exp y = none

section Series

variable {r v x y : ℤ} {i rounds : ℕ}

/-- The terms of the series are at most one, so that no sum overflows. -/
theorem exists_seriesLoop {term result : ℤ} (hr : 0 ≤ r) (hr' : r ≤ scale) (hterm : 0 ≤ term)
    (hterm' : term ≤ scale) (hresult : 0 ≤ result) (hi : 0 < i) (hlast : i + rounds ≤ 25)
    (hfits : result + rounds * scale ≤ 2 ^ 126) :
    ∃ v, seriesLoop r rounds i term result = some v := by
  induction rounds generalizing i term result with
  | zero => exact ⟨result, rfl⟩
  | succ rounds ih =>
    -- a term is the one before times the remainder, which is at most one, divided by its number
    have hd : (0 : ℤ) < i * scale := mul_pos (by omega) (by decide)
    have hnext0 : 0 ≤ term * r / (i * scale) := Int.ediv_nonneg (mul_nonneg hterm hr) hd.le
    have hnext : term * r / (i * scale) ≤ scale := by
      apply Int.ediv_le_of_le_mul hd
      have hi' : (1 : ℤ) ≤ i := by exact_mod_cast hi
      exact mul_le_mul hterm' (hr'.trans (le_mul_of_one_le_left (by decide) hi')) hr (by decide)
    have hvalue : mulDiv term r (i * scale) = some (term * r / (i * scale)) := by
      rw [mulDiv_eq_some hterm hr hd (divisor_le (by omega))]
      exact ⟨rfl, hnext.trans (by decide)⟩
    have hsum : IntType.i128.checked (result + term * r / (i * scale)) =
        some (result + term * r / (i * scale)) := by
      rw [IntType.checked_eq_some]
      refine ⟨⟨le_trans (by decide) (add_nonneg hresult hnext0), ?_⟩, rfl⟩
      show _ ≤ (2 : ℤ) ^ 127 - 1
      have hrest : 0 ≤ (rounds : ℤ) * scale := mul_nonneg (Int.natCast_nonneg _) (by decide)
      push_cast at hfits
      linarith
    rw [seriesLoop, hvalue]
    show ∃ v, (if _ = 0 then some result else _) = some v
    split
    · exact ⟨result, rfl⟩
    · rw [hsum]
      apply ih hnext0 hnext (add_nonneg hresult hnext0) (Nat.succ_pos i) (by omega)
      push_cast at hfits
      linarith

/-- The series of every remainder has a value, between one and two. -/
theorem exists_series (hr : 0 ≤ r) (hr' : r ≤ ln2) :
    ∃ v, series r = some v ∧ scale ≤ v ∧ v ≤ 1999999999999999990 := by
  obtain ⟨v, hv⟩ : ∃ v, series r = some v :=
    exists_seriesLoop hr (hr'.trans (by decide)) (by decide) (by decide) (by decide) (by decide)
      (by decide) (by decide)
  exact ⟨v, hv, scale_le_series hr hv, series_mono hr hr' hv series_ln2⟩

end Series

section Exp

variable {x y u v : ℤ}

/-- The quotient and the remainder of an exponent. -/
theorem ln2_mul_add (x : ℤ) : ln2 * (x / ln2) + x % ln2 = x ∧ 0 ≤ x % ln2 ∧ x % ln2 < ln2 :=
  ⟨Int.mul_ediv_add_emod x ln2, Int.emod_nonneg x (by decide), Int.emod_lt_of_pos x (by decide)⟩

/-- The power of an exponent that is not refused: the series of the remainder, shifted. -/
theorem exp_eq (hx : 0 < x) (hx' : x ≤ 88 * scale) :
    ∃ n : ℕ, ∃ s, x / ln2 = n ∧ n < 127 ∧ series (x % ln2) = some s ∧ scale ≤ s ∧
      s ≤ 1999999999999999990 ∧ Fixed.exp x = some ((s * 2 ^ n).bmod (2 ^ 128)) := by
  obtain ⟨hsplit, hr, hr'⟩ := ln2_mul_add x
  obtain ⟨s, hs, hscale, htwo⟩ := exists_series hr hr'.le
  obtain ⟨n, hn⟩ := Int.eq_ofNat_of_zero_le (Int.ediv_nonneg hx.le (by decide : 0 ≤ ln2))
  have hn' : n < 127 := by
    rw [hn] at hsplit
    unfold ln2 at hsplit hr
    unfold scale at hx'
    omega
  refine ⟨n, s, hn, hn', hs, hscale, htwo, ?_⟩
  have hlow : ¬x < -42 * scale := not_lt.mpr (le_trans (by decide) hx.le)
  unfold Fixed.exp
  rw [if_neg hx.ne', if_neg hlow, if_neg (not_lt.mpr hx'), Int.tmod_eq_emod_of_nonneg hx.le,
    Int.tdiv_eq_ediv_of_nonneg hx.le, hn]
  dsimp only
  rw [hs, Option.bind_eq_bind, Option.bind_some, if_pos (Int.natCast_nonneg n),
    Int.toNat_natCast, checkedShl, if_pos (by omega)]

/-- A power that fits keeps all bits. -/
theorem exp_eq_of_le (hx : 0 < x) (hmax : x ≤ maxExponent) :
    ∃ n : ℕ, ∃ s, x / ln2 = n ∧ series (x % ln2) = some s ∧ scale ≤ s ∧
      s ≤ 1999999999999999990 ∧ Fixed.exp x = some (s * 2 ^ n) := by
  obtain ⟨n, s, hn, -, hs, hscale, htwo, hexp⟩ := exp_eq hx (hmax.trans (by decide))
  have hfits := (series_shift_lt_iff hx.le hs).mpr hmax
  rw [hn, Int.toNat_natCast] at hfits
  have hpos : 0 ≤ s * 2 ^ n := mul_nonneg (le_trans (by decide) hscale) (by positivity)
  rw [Int.bmod_eq_of_le (by omega) (by omega)] at hexp
  exact ⟨n, s, hn, hs, hscale, htwo, hexp⟩

/-- **The powers keep the order** as long as they fit. -/
theorem exp_mono (hx : 0 ≤ x) (hxy : x ≤ y) (hmax : y ≤ maxExponent)
    (hu : Fixed.exp x = some u) (hv : Fixed.exp y = some v) : u ≤ v := by
  rcases hx.eq_or_lt with rfl | hx
  · -- the power of zero is one
    have hone : Fixed.exp 0 = some scale := rfl
    obtain rfl : scale = u := Option.some.inj (hone.symm.trans hu)
    exact scale_le_exp hxy hmax hv
  obtain ⟨n, s, hn, hs, hscale, htwo, hexp⟩ := exp_eq_of_le hx (hxy.trans hmax)
  obtain ⟨m, s', hm, hs', hscale', -, hexp'⟩ := exp_eq_of_le (hx.trans_le hxy) hmax
  obtain rfl := Option.some.inj (hexp.symm.trans hu)
  obtain rfl := Option.some.inj (hexp'.symm.trans hv)
  have hquotient : n ≤ m := by
    have := Int.ediv_le_ediv (by decide : 0 < ln2) hxy
    omega
  rcases hquotient.eq_or_lt with rfl | hlt
  · -- with one quotient, the remainders keep the order
    have hrem : x % ln2 ≤ y % ln2 := by
      have hsplit := (ln2_mul_add x).1
      have hsplit' := (ln2_mul_add y).1
      rw [hn] at hsplit
      rw [hm] at hsplit'
      linarith
    have hseries := series_mono (ln2_mul_add x).2.1 hrem hs hs'
    exact mul_le_mul_of_nonneg_right hseries (by positivity)
  · -- the next power of two is above every series
    have hpow : (2 : ℤ) ^ (n + 1) ≤ 2 ^ m := pow_le_pow_right₀ (by decide) hlt
    calc s * 2 ^ n ≤ (2 * scale) * 2 ^ n :=
          mul_le_mul_of_nonneg_right (htwo.trans (by decide)) (by positivity)
      _ = scale * 2 ^ (n + 1) := by ring
      _ ≤ s' * 2 ^ m := mul_le_mul hscale' hpow (by positivity) (le_trans (by decide) hscale')

/-- The greatest power that fits. -/
theorem exp_maxExponent : Fixed.exp maxExponent = some ((2 ^ 60 - 1) * 2 ^ 67) := by
  decide +kernel

/-- **Beyond the greatest exponent that fits**, a power is less than the one of this exponent. -/
theorem exp_lt_of_wrapped (hy : maxExponent < y) (hy' : y ≤ 88 * scale) :
    ∃ v, Fixed.exp y = some v ∧ v < (2 ^ 60 - 1) * 2 ^ 67 := by
  have hpos : 0 < y := lt_trans (by decide) hy
  obtain ⟨n, s, hn, hn', hs, hscale, htwo, hexp⟩ := exp_eq hpos hy'
  have hwrap := mt (series_shift_lt_iff hpos.le hs).mp (not_le.mpr hy)
  rw [hn, Int.toNat_natCast, not_lt] at hwrap
  refine ⟨_, hexp, ?_⟩
  -- the series is shifted by 67 bits at least
  have hshift : 67 ≤ n := by
    by_contra hlt
    have hpow : (2 : ℤ) ^ n ≤ 2 ^ 66 := pow_le_pow_right₀ (by decide) (by omega)
    have hle : s * 2 ^ n ≤ 1999999999999999990 * 2 ^ 66 :=
      mul_le_mul htwo hpow (by positivity) (by decide)
    omega
  obtain ⟨k, rfl⟩ := Nat.exists_eq_add_of_le hshift
  have hsplit := Int.bmod_add_bdiv (s * 2 ^ (67 + k)) (2 ^ 128)
  have hlt := Int.bmod_lt (x := s * 2 ^ (67 + k)) (m := 2 ^ 128) (by decide)
  have hmul : s * 2 ^ (67 + k) = 2 ^ 67 * (s * 2 ^ k) := by
    rw [pow_add]
    ring
  rw [hmul] at hsplit hlt hwrap ⊢
  generalize (2 ^ 67 * (s * 2 ^ k)).bmod (2 ^ 128) = wrapped at hsplit hlt ⊢
  generalize (2 ^ 67 * (s * 2 ^ k)).bdiv (2 ^ 128) = q at hsplit
  push_cast at hsplit hlt
  by_contra hge
  -- no multiple of the least bit is between the two
  have hodd : s * 2 ^ k = 2 ^ 61 * q + (2 ^ 60 - 1) := by omega
  cases k with
  | zero =>
    rw [pow_zero, mul_one] at hodd hwrap
    omega
  | succ k =>
    rw [pow_succ, ← mul_assoc] at hodd
    omega

end Exp

/-! ## The true powers -/

section True

variable {y : ℤ}

/-- A lower bound of the logarithm of two. -/
theorem exp_lt_two : Real.exp (6931471805599453093 / 10 ^ 19) < 2 := by
  refine (Real.exp_bound' (by norm_num) (by norm_num) (by norm_num : 0 < 25)).trans_lt ?_
  norm_num [Finset.sum_range_succ, Nat.factorial]

/-- What is left of the greatest exponent after 67 of these. -/
theorem exp_rest_lt : Real.exp (1422991597038962359 / 10 ^ 19) < 2 ^ 60 / 10 ^ 18 := by
  refine (Real.exp_bound' (by norm_num) (by norm_num) (by norm_num : 0 < 20)).trans_lt ?_
  norm_num [Finset.sum_range_succ, Nat.factorial]

/-- **The true power fits** up to the greatest exponent. -/
theorem trueExp_lt (hy : y ≤ maxExponent) : trueExp y < 2 ^ 127 := by
  have hscale : (0 : ℝ) < scale := by norm_num [scale]
  -- the exponent is 67 times a lower bound of the logarithm of two, and a rest
  have hle : (y : ℝ) / scale ≤
      67 * (6931471805599453093 / 10 ^ 19) + 1422991597038962359 / 10 ^ 19 := by
    rw [div_le_iff₀ hscale]
    have hmax : (y : ℝ) ≤ maxExponent := by exact_mod_cast hy
    refine hmax.trans ?_
    norm_num [maxExponent, scale]
  have hpow : Real.exp (67 * (6931471805599453093 / 10 ^ 19)) < 2 ^ 67 := by
    rw [show (67 : ℝ) * (6931471805599453093 / 10 ^ 19) =
      ((67 : ℕ) : ℝ) * (6931471805599453093 / 10 ^ 19) by norm_num, Real.exp_nat_mul]
    exact pow_lt_pow_left₀ exp_lt_two (Real.exp_pos _).le (by decide)
  calc trueExp y
      ≤ scale * Real.exp (67 * (6931471805599453093 / 10 ^ 19) +
          1422991597038962359 / 10 ^ 19) :=
        mul_le_mul_of_nonneg_left (Real.exp_le_exp.mpr hle) hscale.le
    _ = scale * (Real.exp (67 * (6931471805599453093 / 10 ^ 19)) *
          Real.exp (1422991597038962359 / 10 ^ 19)) := by rw [Real.exp_add]
    _ < scale * (2 ^ 67 * (2 ^ 60 / 10 ^ 18)) := by
        apply mul_lt_mul_of_pos_left _ hscale
        exact mul_lt_mul'' hpow exp_rest_lt (Real.exp_pos _).le (Real.exp_pos _).le
    _ = 2 ^ 127 := by norm_num [scale]

end True

/-- **The exponential does what it should** for the exponents whose power fits and for those that
are refused, and for no other one. -/
theorem expSound_iff (y : ℤ) : ExpSound y ↔ y ≤ maxExponent ∨ 88 * scale < y := by
  constructor
  · intro h
    by_contra hy
    obtain ⟨hmax, hrefused⟩ := not_or.mp hy
    rw [not_le] at hmax
    obtain ⟨v, hv, hlt⟩ := exp_lt_of_wrapped hmax (not_lt.mp hrefused)
    have hle := (h.mono maxExponent (by decide) hmax.le _ _ exp_maxExponent hv).2
    exact absurd hlt (not_lt.mpr hle)
  · rintro (hy | hy)
    · refine ⟨fun x hx hxy u v hu hv => ?_, fun htrue => ?_⟩
      · exact ⟨scale_le_exp hx (hxy.trans hy) hu, exp_mono hx hxy hy hu hv⟩
      · exact absurd (trueExp_lt hy) (not_lt.mpr htrue)
    · -- the exponent is refused
      have hpos : 0 < y := lt_trans (by decide) hy
      have hnone : Fixed.exp y = none := by
        have hlow : ¬y < -42 * scale := not_lt.mpr (le_trans (by decide) hpos.le)
        rw [Fixed.exp, if_neg hpos.ne', if_neg hlow, if_pos hy]
      refine ⟨fun x _ _ u v _ hv => ?_, fun _ => hnone⟩
      rw [hnone] at hv
      cases hv

/-- **The power of 47 is negative**, which is less than the one of zero. -/
theorem exp_unsound :
    ¬ ∀ x y u v : ℤ, 0 ≤ x → x ≤ y → Fixed.exp x = some u → Fixed.exp y = some v →
      Fixed.one ≤ u ∧ u ≤ v := by
  intro h
  have hexp : Fixed.exp (47 * scale) = some (-82151078301931717902810754159891972096) := by
    decide +kernel
  have hle := (h 0 (47 * scale) scale _ le_rfl (by decide) rfl hexp).2
  exact absurd hle (by decide)

end Math
