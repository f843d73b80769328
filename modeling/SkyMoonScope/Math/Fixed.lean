import SkyMoonScope.Lib.Integers
import SkyMoonScope.Lib.LongDivision

/-!
# Fixed point numbers

The part of `contracts/math/src/lib.rs` that other contracts use: `i128` values with 18 decimals,
their product and the exponential. A function has no value where the source returns the error
`Overflow`. The product is divided with an intermediate result of 256 bits, so it is rounded once.
The exponential is a series on the remainder of a division by the logarithm of two, shifted by the
quotient; the shift checks the quotient only, and not whether the result fits.

## Main definitions

* `mulDivU128`, `mulDiv`: a product divided
* `Fixed.mul`, `Fixed.exp`: the product and the exponential
* `series r`: the exponential of a remainder
* `maxExponent`: the greatest exponent whose power fits

## Main results

* `mulDivU128_eq`, `mulDiv_eq`: the quotient is exact
* `series_mono`: the series increases with the remainder
* `series_shift_lt_iff`: the shift loses no bit just up to `maxExponent`
* `scale_le_exp`: up to there the exponential of what is not negative is not less than one
-/

namespace Math

def scale : ℤ := 1000000000000000000

/-- The logarithm of two. -/
def ln2 : ℤ := 693147180559945309

/-- The quotient, and whether it overflows. -/
def mulDivU128 (a b d : ℕ) : ℕ × Bool :=
  if a * b < 2 ^ 128 then (a * b / d, false)
  else
    let aLow := a &&& 0xFFFFFFFFFFFFFFFF
    let aHigh := a >>> 64
    let bLow := b &&& 0xFFFFFFFFFFFFFFFF
    let bHigh := b >>> 64
    let p0 := aLow * bLow
    let p1 := aLow * bHigh
    let p2 := aHigh * bLow
    let p3 := aHigh * bHigh
    let mid := (p1 &&& 0xFFFFFFFFFFFFFFFF) + (p2 &&& 0xFFFFFFFFFFFFFFFF) + p0 >>> 64
    let high := p3 + p1 >>> 64 + p2 >>> 64 + mid >>> 64
    let low := (mid <<< 64) % 2 ^ 128 ||| (p0 &&& 0xFFFFFFFFFFFFFFFF)
    if high ≥ d then (0, true)
    else (LongDivision.divLoop 128 low d 128 high 0, false)

/-- A product divided, where the quotient is an `i128`. -/
def mulDiv (a b d : ℤ) : Option ℤ :=
  if d = 0 then none
  else
    let (resAbs, overflow) := mulDivU128 a.natAbs b.natAbs d.natAbs
    if overflow ∨ resAbs > 2 ^ 127 - 1 then none
    else if xor (xor (a < 0) (b < 0)) (d < 0) then some (-resAbs)
    else some resAbs

namespace Fixed

def one : ℤ := scale

def fromInt (v : ℤ) : Option ℤ := IntType.i128.checked (v * scale)

def sub (x y : ℤ) : Option ℤ := IntType.i128.checked (x - y)

def mul (x y : ℤ) : Option ℤ := mulDiv x y scale

end Fixed

/-- The rounds of the series from the term of the number `i`. A term that is zero ends them. -/
def seriesLoop (r : ℤ) : ℕ → ℕ → ℤ → ℤ → Option ℤ
  | 0, _, _, result => some result
  | rounds + 1, i, term, result => do
    let term ← mulDiv term r (i * scale)
    if term = 0 then some result
    else do
      let result ← IntType.i128.checked (result + term)
      seriesLoop r rounds (i + 1) term result

/-- The exponential of a remainder, by the terms up to the number 24. -/
def series (r : ℤ) : Option ℤ := seriesLoop r 24 1 scale scale

/-- `checked_shl`: a shift to the left by less than the width, with the bits that are left in the
type. -/
def checkedShl (x : ℤ) (n : ℕ) : Option ℤ :=
  if n < 128 then some ((x * 2 ^ n).bmod (2 ^ 128)) else none

def Fixed.exp (x : ℤ) : Option ℤ :=
  if x = 0 then some Fixed.one
  else if x < -42 * scale then some 0
  else if x > 88 * scale then none
  else do
    let n := x.tdiv ln2
    let r := x.tmod ln2
    let result ← series r
    if n ≥ 0 then checkedShl result n.toNat
    else some (result >>> (-n).toNat)

/-- The greatest exponent whose power is an `i128`, which is about 46.58. -/
def maxExponent : ℤ := 46583160257220231959

/-! ## The quotient -/

section Quotient

variable {a b d : ℕ}

/-- **The quotient is exact**, and overflows just when it is no `u128`. -/
theorem mulDivU128_eq (hd : 0 < d) (hd' : d ≤ 2 ^ 127) :
    mulDivU128 a b d = if a * b / d < 2 ^ 128 then (a * b / d, false) else (0, true) := by
  unfold mulDivU128
  split
  next hprod =>
    rw [if_pos ((Nat.div_le_self _ _).trans_lt hprod)]
  next hprod =>
    -- the product does not fit, so it is divided word by word
    obtain ⟨hwords, hlow⟩ := LongDivision.words_of_mul a b 64
    exact LongDivision.div_words (fun q => (q, false)) (0, true) hwords hlow hd (by omega)

end Quotient

/-- The quotient of the absolute values, with the sign of the result. -/
theorem tdiv_eq_sign (a b d : ℤ) :
    (if xor (xor (a < 0) (b < 0)) (d < 0) then -((a.natAbs * b.natAbs / d.natAbs : ℕ) : ℤ)
      else ((a.natAbs * b.natAbs / d.natAbs : ℕ) : ℤ)) = (a * b).tdiv d := by
  have habs : ((a.natAbs * b.natAbs / d.natAbs : ℕ) : ℤ) = (|a| * |b|).tdiv |d| := by
    rw [Int.tdiv_eq_ediv_of_nonneg (by positivity)]
    push_cast
    rfl
  rw [habs]
  rcases lt_or_ge a 0 with ha | ha <;> rcases lt_or_ge b 0 with hb | hb <;>
    rcases lt_or_ge d 0 with hd | hd <;>
    simp [abs_of_neg, abs_of_nonneg, ha, hb, hd, not_lt.mpr, Int.neg_tdiv, Int.tdiv_neg]

/-- **A product divided** is truncated, and has a value when its absolute value is an `i128`. -/
theorem mulDiv_eq {a b d : ℤ} (hd : d ≠ 0) (hd' : |d| ≤ 2 ^ 127) :
    mulDiv a b d = if |(a * b).tdiv d| ≤ 2 ^ 127 - 1 then some ((a * b).tdiv d) else none := by
  have hpos : 0 < d.natAbs := Int.natAbs_pos.mpr hd
  have hle : d.natAbs ≤ 2 ^ 127 := by
    rw [Int.abs_eq_natAbs] at hd'
    exact_mod_cast hd'
  unfold mulDiv
  rw [if_neg hd, mulDivU128_eq hpos hle, ← tdiv_eq_sign]
  generalize a.natAbs * b.natAbs / d.natAbs = q
  generalize (decide (a < 0) ^^ decide (b < 0) ^^ decide (d < 0)) = sign
  -- the sign does not matter for the bound
  have habs : |if sign = true then -(q : ℤ) else q| = q := by
    split
    · rw [abs_neg, Nat.abs_cast]
    · exact Nat.abs_cast q
  rw [habs]
  by_cases hq : q < 2 ^ 128
  · rw [if_pos hq]
    by_cases hmax : (q : ℤ) ≤ 2 ^ 127 - 1
    · rw [if_pos hmax]
      have hfits : ¬(false = true ∨ q > 2 ^ 127 - 1) :=
        not_or.mpr ⟨Bool.false_ne_true, by omega⟩
      simp only [if_neg hfits]
      cases sign <;> rfl
    · rw [if_neg hmax]
      exact if_pos (Or.inr (by omega))
  · rw [if_neg hq, if_neg (by omega)]
    exact if_pos (Or.inl rfl)

/-- The quotient of values that are not negative. -/
theorem mulDiv_eq_some {a b d r : ℤ} (ha : 0 ≤ a) (hb : 0 ≤ b) (hd : 0 < d) (hd' : d ≤ 2 ^ 127) :
    mulDiv a b d = some r ↔ a * b / d = r ∧ r ≤ 2 ^ 127 - 1 := by
  have hab : 0 ≤ a * b := mul_nonneg ha hb
  rw [mulDiv_eq hd.ne' (by rwa [abs_of_pos hd]), Int.tdiv_eq_ediv_of_nonneg hab,
    abs_of_nonneg (Int.ediv_nonneg hab hd.le)]
  constructor
  · intro h
    split at h
    next hle =>
      obtain rfl := Option.some.inj h
      exact ⟨rfl, hle⟩
    · cases h
  · rintro ⟨rfl, hle⟩
    exact if_pos hle

section Product

variable {x y z : ℤ}

theorem mul_eq_some (hx : 0 ≤ x) (hy : 0 ≤ y) :
    Fixed.mul x y = some z ↔ x * y / scale = z ∧ z ≤ 2 ^ 127 - 1 :=
  mulDiv_eq_some hx hy (by decide) (by decide)

/-- A product with at least one is not less. -/
theorem le_mul (hx : 0 ≤ x) (hy : scale ≤ y) (h : Fixed.mul x y = some z) : x ≤ z := by
  obtain ⟨rfl, -⟩ := (mul_eq_some hx (le_trans (by decide) hy)).mp h
  exact (Int.le_ediv_iff_mul_le (by decide)).mpr (mul_le_mul_of_nonneg_left hy hx)

/-- A product with at most one is not greater, and not negative. -/
theorem mul_le (hx : 0 ≤ x) (hy : 0 ≤ y) (hy' : y ≤ scale) (h : Fixed.mul x y = some z) :
    0 ≤ z ∧ z ≤ x := by
  obtain ⟨rfl, -⟩ := (mul_eq_some hx hy).mp h
  refine ⟨Int.ediv_nonneg (mul_nonneg hx hy) (by decide), ?_⟩
  apply Int.ediv_le_of_le_mul (by decide)
  exact mul_le_mul_of_nonneg_left hy' hx

/-- A product with a whole number. -/
theorem mul_fromInt {n v : ℤ} (hx : 0 ≤ x) (hn : 0 ≤ n) (hv : Fixed.fromInt n = some v)
    (h : Fixed.mul x v = some z) : z = x * n := by
  obtain ⟨-, rfl⟩ := IntType.checked_eq_some.mp hv
  obtain ⟨rfl, -⟩ := (mul_eq_some hx (mul_nonneg hn (by decide))).mp h
  rw [← mul_assoc, Int.mul_ediv_cancel _ (by decide)]

end Product

/-! ## The exponential -/

section Exp

variable {r r' term term' result result' v v' : ℤ} {i rounds : ℕ}

/-- A divisor of the series. -/
theorem divisor_le (hi : i ≤ 24) : (i : ℤ) * scale ≤ 2 ^ 127 := by
  unfold scale
  omega

/-- The series does not become less. -/
theorem le_seriesLoop (hr : 0 ≤ r) (hterm : 0 ≤ term) (hi : 0 < i) (hlast : i + rounds ≤ 25)
    (h : seriesLoop r rounds i term result = some v) : result ≤ v := by
  induction rounds generalizing i term result with
  | zero => exact (Option.some.inj h).le
  | succ rounds ih =>
    obtain ⟨next, hnext, h⟩ := Option.bind_eq_some_iff.mp h
    have hd : (0 : ℤ) < i * scale := mul_pos (by omega) (by decide)
    obtain ⟨rfl, -⟩ := (mulDiv_eq_some hterm hr hd (divisor_le (by omega))).mp hnext
    have hnext0 : 0 ≤ term * r / (i * scale) := Int.ediv_nonneg (mul_nonneg hterm hr) hd.le
    split at h
    · exact (Option.some.inj h).le
    · obtain ⟨sum, hsum, h⟩ := Option.bind_eq_some_iff.mp h
      obtain ⟨-, rfl⟩ := IntType.checked_eq_some.mp hsum
      have := ih hnext0 (Nat.succ_pos i) (by omega) h
      omega

theorem scale_le_series (hr : 0 ≤ r) (h : series r = some v) : scale ≤ v :=
  le_seriesLoop hr (by decide) (by decide) (by decide) h

/-- The series increases with the remainder. -/
theorem seriesLoop_mono (hr : 0 ≤ r) (hle : r ≤ r') (hterm : 0 ≤ term) (hterms : term ≤ term')
    (hresult : result ≤ result') (hi : 0 < i) (hlast : i + rounds ≤ 25)
    (h : seriesLoop r rounds i term result = some v)
    (h' : seriesLoop r' rounds i term' result' = some v') : v ≤ v' := by
  induction rounds generalizing i term term' result result' with
  | zero =>
    obtain rfl := Option.some.inj h
    obtain rfl := Option.some.inj h'
    exact hresult
  | succ rounds ih =>
    have hd : (0 : ℤ) < i * scale := mul_pos (by omega) (by decide)
    obtain ⟨next, hnext, hloop⟩ := Option.bind_eq_some_iff.mp h
    obtain ⟨next', hnext', hloop'⟩ := Option.bind_eq_some_iff.mp h'
    obtain ⟨rfl, -⟩ := (mulDiv_eq_some hterm hr hd (divisor_le (by omega))).mp hnext
    obtain ⟨rfl, -⟩ := (mulDiv_eq_some (hterm.trans hterms) (hr.trans hle) hd
      (divisor_le (by omega))).mp hnext'
    have hnext0 : 0 ≤ term * r / (i * scale) := Int.ediv_nonneg (mul_nonneg hterm hr) hd.le
    have hnexts : term * r / (i * scale) ≤ term' * r' / (i * scale) :=
      Int.ediv_le_ediv hd (mul_le_mul hterms hle hr (hterm.trans hterms))
    split at hloop
    · obtain rfl := Option.some.inj hloop
      exact hresult.trans (le_seriesLoop (hr.trans hle) (hterm.trans hterms) hi hlast h')
    next hne =>
      rw [if_neg (by omega)] at hloop'
      obtain ⟨sum, hsum, hloop⟩ := Option.bind_eq_some_iff.mp hloop
      obtain ⟨sum', hsum', hloop'⟩ := Option.bind_eq_some_iff.mp hloop'
      obtain ⟨-, rfl⟩ := IntType.checked_eq_some.mp hsum
      obtain ⟨-, rfl⟩ := IntType.checked_eq_some.mp hsum'
      exact ih hnext0 hnexts (by omega) (Nat.succ_pos i) (by omega) hloop hloop'

theorem series_mono (hr : 0 ≤ r) (hle : r ≤ r') (h : series r = some v) (h' : series r' = some v') :
    v ≤ v' :=
  seriesLoop_mono hr hle (by decide) le_rfl le_rfl (by decide) (by decide) h h'

theorem series_ln2 : series ln2 = some 1999999999999999990 := by decide +kernel

/-- The remainders between which the series reaches a power of two. -/
theorem series_remainder : series 142299159703896256 = some 1152921504606846975 ∧
    series 142299159703896257 = some 1152921504606846977 := by decide +kernel

/-- **The shift** loses no bit just up to the greatest exponent whose power fits. -/
theorem series_shift_lt_iff {x : ℤ} (hx : 0 ≤ x) (h : series (x % ln2) = some v) :
    v * 2 ^ (x / ln2).toNat < 2 ^ 127 ↔ x ≤ maxExponent := by
  have hdivmod : ln2 * (x / ln2) + x % ln2 = x := Int.mul_ediv_add_emod x ln2
  have hr : 0 ≤ x % ln2 := Int.emod_nonneg x (by decide)
  have hr' : x % ln2 < ln2 := Int.emod_lt_of_pos x (by decide)
  have hn : 0 ≤ x / ln2 := Int.ediv_nonneg hx (by decide)
  have hscale := scale_le_series hr h
  have hle := series_mono hr hr'.le h series_ln2
  obtain ⟨n, hquotient⟩ := Int.eq_ofNat_of_zero_le hn
  rw [hquotient] at hdivmod ⊢
  rw [Int.toNat_natCast]
  unfold maxExponent
  unfold scale at hscale
  rcases Nat.lt_trichotomy n 67 with hlt | rfl | hgt
  · -- the greatest value of the series still fits
    have hpow : (2 : ℤ) ^ n ≤ 2 ^ 66 := pow_le_pow_right₀ (by decide) (by omega)
    have hfits : v * 2 ^ n ≤ 1999999999999999990 * 2 ^ 66 :=
      mul_le_mul hle hpow (by positivity) (by decide)
    unfold ln2 at hdivmod hr'
    exact ⟨fun _ => by omega, fun _ => by omega⟩
  · -- it depends on the remainder
    constructor
    · intro hfits
      by_contra hx'
      have hlarge : 142299159703896257 ≤ x % ln2 := by
        unfold ln2 at hdivmod ⊢
        omega
      have := series_mono (by decide) hlarge series_remainder.2 h
      omega
    · intro hx'
      have hsmall : x % ln2 ≤ 142299159703896256 := by
        unfold ln2 at hdivmod ⊢
        omega
      have := series_mono hr hsmall h series_remainder.1
      omega
  · have hpow : (2 : ℤ) ^ 68 ≤ 2 ^ n := pow_le_pow_right₀ (by decide) hgt
    have hlarge : 1000000000000000000 * 2 ^ 68 ≤ v * 2 ^ n :=
      mul_le_mul hscale hpow (by positivity) (by omega)
    unfold ln2 at hdivmod hr
    exact ⟨fun _ => by omega, fun _ => by omega⟩

/-- **The exponential** is not less than one, as long as the shift loses no bit. -/
theorem scale_le_exp {x y : ℤ} (hx : 0 ≤ x) (hmax : x ≤ maxExponent) (h : Fixed.exp x = some y) :
    scale ≤ y := by
  unfold Fixed.exp at h
  split at h
  · exact (Option.some.inj h).le
  · have hlow : ¬x < -42 * scale := by
      unfold scale
      omega
    rw [if_neg hlow] at h
    split at h
    · cases h
    · obtain ⟨v, hseries, hshift⟩ := Option.bind_eq_some_iff.mp h
      rw [Int.tmod_eq_emod_of_nonneg hx] at hseries
      rw [Int.tdiv_eq_ediv_of_nonneg hx, if_pos (Int.ediv_nonneg hx (by decide))] at hshift
      have hscale := scale_le_series (Int.emod_nonneg x (by decide)) hseries
      have hfits := (series_shift_lt_iff hx hseries).mpr hmax
      unfold checkedShl at hshift
      split at hshift
      · obtain rfl := Option.some.inj hshift
        have hpow : (1 : ℤ) ≤ 2 ^ (x / ln2).toNat := one_le_pow₀ (by decide)
        have hle : v ≤ v * 2 ^ (x / ln2).toNat :=
          le_mul_of_one_le_right (le_trans (by decide) hscale) hpow
        rw [Int.bmod_eq_of_le (by unfold scale at hscale; omega) (by omega)]
        exact hscale.trans hle
      · cases hshift

end Exp

end Math
