import Mathlib.Data.Nat.Bitwise
import Mathlib.Tactic.Linarith
import Mathlib.Tactic.Ring

/-!
# Products of two words, and their division

The product of two words does not fit into a word. It is put together from the products of their
halves, as a high and a low word. Such a pair is divided bit by bit: every round shifts one more bit
into the remainder and subtracts the divisor where it can. A shift loses no bit as long as the
divisor is not greater than half of the words.

## Main definitions

* `divLoop w low d n remainder quotient`: the rounds for the `n` lowest bits of the low word
* `divLoopChecked`: the same, with every shift checked

## Main results

* `wide_mul`, `words_of_mul`: the two words of a product
* `divLoop_eq_iff`, `divLoop_eq`: the rounds compute the quotient, just when no shift loses a bit
* `divLoopChecked_eq`: no round loses a bit
* `div_words_iff`, `div_words`: the quotient of two words, where it is one word
-/

namespace LongDivision

/-- The rounds for the bits below `n`, on words of `w` bits. -/
def divLoop (w low d : ℕ) : ℕ → ℕ → ℕ → ℕ
  | 0, _, quotient => quotient
  | i + 1, remainder, quotient =>
    let shifted := (remainder <<< 1) % 2 ^ w ||| (low >>> i &&& 1)
    if shifted ≥ d then divLoop w low d i (shifted - d) (quotient ||| 1 <<< i)
    else divLoop w low d i shifted quotient

/-- The same rounds, which fail where a shift loses a bit. -/
def divLoopChecked (w low d : ℕ) : ℕ → ℕ → ℕ → Option ℕ
  | 0, _, quotient => some quotient
  | i + 1, remainder, quotient =>
    if remainder <<< 1 < 2 ^ w then
      let shifted := remainder <<< 1 ||| (low >>> i &&& 1)
      if shifted ≥ d then divLoopChecked w low d i (shifted - d) (quotient ||| 1 <<< i)
      else divLoopChecked w low d i shifted quotient
    else none

variable {w h low d n r q : ℕ}

/-- A shift that loses nothing, and the next bit. -/
theorem shift_or_bit (hr : 2 * r < 2 ^ w) :
    (r <<< 1) % 2 ^ w ||| (low >>> n &&& 1) = 2 * r + low / 2 ^ n % 2 := by
  have hbit : low / 2 ^ n % 2 < 2 ^ 1 := Nat.mod_lt _ (by decide)
  have hor := Nat.two_pow_add_eq_or_of_lt hbit r
  rw [Nat.shiftLeft_eq, Nat.mod_eq_of_lt (by omega), Nat.and_one_is_mod, Nat.shiftRight_eq_div_pow,
    Nat.mul_comm r, ← hor, pow_one]

/-- A shift that loses the highest bit, and the next bit. -/
theorem shift_or_bit_of_lost (hr : 2 ^ w ≤ 2 * r) (hr' : r < 2 ^ w) :
    (r <<< 1) % 2 ^ w ||| (low >>> n &&& 1) = 2 * r + low / 2 ^ n % 2 - 2 ^ w := by
  obtain ⟨v, rfl⟩ : ∃ v, w = v + 1 := Nat.exists_eq_succ_of_ne_zero (by rintro rfl; omega)
  have hbit : low / 2 ^ n % 2 < 2 ^ 1 := Nat.mod_lt _ (by decide)
  have hor := Nat.two_pow_add_eq_or_of_lt hbit (r - 2 ^ v)
  have hpow : 2 ^ (v + 1) = 2 * 2 ^ v := by rw [pow_succ, Nat.mul_comm]
  have hmod : (r <<< 1) % 2 ^ (v + 1) = 2 ^ 1 * (r - 2 ^ v) := by
    rw [Nat.shiftLeft_eq, Nat.mod_eq_sub_mod (by omega), Nat.mod_eq_of_lt (by omega)]
    omega
  rw [hmod, Nat.and_one_is_mod, Nat.shiftRight_eq_div_pow, ← hor]
  omega

/-- A bit set in the quotient, which is a multiple of the bits that are still to come. -/
theorem quotient_or_bit : 2 ^ (n + 1) * q ||| 1 <<< n = 2 ^ n * (2 * q + 1) := by
  rw [Nat.one_shiftLeft, ← Nat.two_pow_add_eq_or_of_lt
    (Nat.pow_lt_pow_right (by decide) (Nat.lt_succ_self n)) q, pow_succ]
  ring

/-- A quotient without the next bit. -/
theorem quotient_next : 2 ^ (n + 1) * q = 2 ^ n * (2 * q) := by
  rw [pow_succ]
  ring

/-- **A round that loses no bit** divides the remainder with one more bit. -/
theorem divLoop_round (hkept : 2 * r < 2 ^ w) (hr : r < d) :
    divLoop w low d (n + 1) r (2 ^ (n + 1) * q) =
      divLoop w low d n ((2 * r + low / 2 ^ n % 2) % d)
        (2 ^ n * (2 * q + (2 * r + low / 2 ^ n % 2) / d)) := by
  have hbit : low / 2 ^ n % 2 < 2 := Nat.mod_lt _ (by decide)
  rw [divLoop, shift_or_bit hkept]
  generalize low / 2 ^ n % 2 = bit at hbit ⊢
  split
  next hge =>
    -- twice a remainder and a bit is less than twice the divisor
    have hone : (2 * r + bit) / d = 1 := Nat.div_eq_of_lt_le (by omega) (by omega)
    rw [hone, quotient_or_bit, Nat.mod_eq_sub_mod hge, Nat.mod_eq_of_lt (by omega)]
  next hlt =>
    rw [Nat.mod_eq_of_lt (by omega), Nat.div_eq_of_lt (by omega), quotient_next, Nat.add_zero]

/-- The rounds set bits of the quotient below those that it has. -/
theorem divLoop_lt : divLoop w low d n r (2 ^ n * q) < 2 ^ n * (q + 1) := by
  induction n generalizing r q with
  | zero =>
    rw [divLoop, pow_zero]
    omega
  | succ n ih =>
    have hsucc : 2 ^ (n + 1) * (q + 1) = 2 ^ n * (2 * q + 1 + 1) := by
      rw [pow_succ]
      ring
    rw [divLoop, hsucc]
    split
    · rw [quotient_or_bit]
      exact ih
    · rw [quotient_next]
      exact ih.trans_le (Nat.mul_le_mul_left _ (Nat.le_succ _))

/-- **The rounds compute the quotient** of what is left just when no remainder has the highest bit,
which the next shift would lose. A round that loses it leaves out a bit of the quotient, and the
bits below cannot make up for it. -/
theorem divLoop_eq_iff (hd : d ≤ 2 ^ w) (hr : r < d) :
    divLoop w low d n r (2 ^ n * q) = 2 ^ n * q + (2 ^ n * r + low % 2 ^ n) / d ↔
      ∀ i < n, 2 * ((2 ^ n * r + low % 2 ^ n) / 2 ^ (i + 1) % d) < 2 ^ w := by
  induction n generalizing r q with
  | zero =>
    rw [divLoop, pow_zero, Nat.mod_one, one_mul, one_mul, Nat.add_zero, Nat.div_eq_of_lt hr,
      Nat.add_zero]
    exact iff_of_true rfl fun i hi => absurd hi (Nat.not_lt_zero i)
  | succ n ih =>
    have hpos : 0 < d := by omega
    have hlow : low % 2 ^ (n + 1) < 2 ^ (n + 1) := Nat.mod_lt _ (Nat.two_pow_pos _)
    -- the first remainder is the one that there is
    have hfirst : (2 ^ (n + 1) * r + low % 2 ^ (n + 1)) / 2 ^ (n + 1) % d = r := by
      rw [Nat.mul_add_div (Nat.two_pow_pos _), Nat.div_eq_of_lt hlow, Nat.add_zero,
        Nat.mod_eq_of_lt hr]
    -- what is left to be divided, in terms of the remainder with the next bit
    have hleft : 2 ^ (n + 1) * r + low % 2 ^ (n + 1) =
        2 ^ n * (2 * r + low / 2 ^ n % 2) + low % 2 ^ n := by
      rw [Nat.mod_pow_succ, pow_succ]
      ring
    rcases lt_or_ge (2 * r) (2 ^ w) with hkept | hlost
    · -- no bit is lost in this round, and the rounds to come decide
      rw [divLoop_round hkept hr]
      have hnext := ih (Nat.mod_lt (2 * r + low / 2 ^ n % 2) hpos)
        (q := 2 * q + (2 * r + low / 2 ^ n % 2) / d)
      have hsplit : 2 ^ n * (2 * r + low / 2 ^ n % 2) + low % 2 ^ n =
          2 ^ n * ((2 * r + low / 2 ^ n % 2) % d) + low % 2 ^ n +
            2 ^ n * (d * ((2 * r + low / 2 ^ n % 2) / d)) := by
        conv_lhs => rw [← Nat.mod_add_div (2 * r + low / 2 ^ n % 2) d]
        ring
      rw [Nat.forall_lt_succ_right, hfirst, and_iff_left hkept, hleft, hsplit]
      generalize (2 * r + low / 2 ^ n % 2) / d = k at hnext ⊢
      generalize 2 ^ n * ((2 * r + low / 2 ^ n % 2) % d) + low % 2 ^ n = rest at hnext ⊢
      have hquotient : (rest + 2 ^ n * (d * k)) / d = rest / d + 2 ^ n * k := by
        rw [show 2 ^ n * (d * k) = d * (2 ^ n * k) by ring, Nat.add_mul_div_left _ _ hpos]
      have hsum : 2 ^ n * (2 * q + k) + rest / d = 2 ^ (n + 1) * q + (rest / d + 2 ^ n * k) := by
        rw [pow_succ]
        ring
      rw [hquotient, ← hsum, hnext]
      -- multiples of the divisor by the bits to come change no remainder
      refine forall₂_congr fun i hi => ?_
      obtain ⟨j, rfl⟩ := Nat.exists_eq_add_of_lt hi
      rw [show 2 ^ (i + j + 1) * (d * k) = 2 ^ (i + 1) * (d * (2 ^ j * k)) by ring,
        Nat.add_mul_div_left _ _ (Nat.two_pow_pos _), Nat.add_mul_mod_self_left]
    · -- this round loses a bit, and both sides are false
      refine iff_of_false (fun heq => ?_) fun h => ?_
      · -- the bit that is left out
        have hbit : divLoop w low d (n + 1) r (2 ^ (n + 1) * q) < 2 ^ n * (2 * q + 1) := by
          rw [divLoop, shift_or_bit_of_lost hlost (by omega), if_neg (by omega), quotient_next]
          exact divLoop_lt
        have hquotient : 2 ^ n ≤ (2 ^ (n + 1) * r + low % 2 ^ (n + 1)) / d := by
          rw [hleft, Nat.le_div_iff_mul_le hpos]
          exact (Nat.mul_le_mul_left _ (by omega)).trans (Nat.le_add_right _ _)
        have hsum : 2 ^ n * (2 * q + 1) = 2 ^ (n + 1) * q + 2 ^ n := by
          rw [pow_succ]
          ring
        omega
      · have hlast := h n (Nat.lt_succ_self n)
        rw [hfirst] at hlast
        omega

/-- **The rounds** compute the quotient of what is left. The quotient so far is a multiple of the
bits that are still to come. -/
theorem divLoop_eq (hd : 2 * d ≤ 2 ^ w) (hr : r < d) :
    divLoop w low d n r (2 ^ n * q) = 2 ^ n * q + (2 ^ n * r + low % 2 ^ n) / d := by
  rw [divLoop_eq_iff (by omega) hr]
  intro i _
  have hlt := Nat.mod_lt ((2 ^ n * r + low % 2 ^ n) / 2 ^ (i + 1)) (Nat.zero_lt_of_lt hr)
  omega

/-- **No shift loses a bit**: a remainder is less than the divisor, and so less than half of the
words. -/
theorem divLoopChecked_eq (hd : 2 * d ≤ 2 ^ w) (hr : r < d) :
    divLoopChecked w low d n r q = some (divLoop w low d n r q) := by
  induction n generalizing r q with
  | zero => rfl
  | succ i ih =>
    have hfits : r <<< 1 < 2 ^ w := by
      rw [Nat.shiftLeft_eq]
      omega
    have hshift : (r <<< 1) % 2 ^ w ||| (low >>> i &&& 1) = 2 * r + low / 2 ^ i % 2 :=
      shift_or_bit (by omega)
    have hbit : low / 2 ^ i % 2 < 2 := Nat.mod_lt _ (by decide)
    rw [divLoopChecked, divLoop, if_pos hfits, Nat.mod_eq_of_lt hfits]
    rw [Nat.mod_eq_of_lt hfits] at hshift
    dsimp only
    split
    · exact ih (by omega)
    · exact ih (by omega)

/-- **The two words of a product**, from the products of the halves. -/
theorem wide_mul (a b : ℕ) (h : ℕ) :
    let p0 := a % 2 ^ h * (b % 2 ^ h)
    let p1 := a % 2 ^ h * (b / 2 ^ h)
    let p2 := a / 2 ^ h * (b % 2 ^ h)
    let p3 := a / 2 ^ h * (b / 2 ^ h)
    let mid := p1 % 2 ^ h + p2 % 2 ^ h + p0 / 2 ^ h
    a * b = 2 ^ (2 * h) * (p3 + p1 / 2 ^ h + p2 / 2 ^ h + mid / 2 ^ h) +
      (2 ^ h * (mid % 2 ^ h) + p0 % 2 ^ h) := by
  intro p0 p1 p2 p3 mid
  have ha := Nat.div_add_mod a (2 ^ h)
  have hb := Nat.div_add_mod b (2 ^ h)
  have h0 := Nat.div_add_mod p0 (2 ^ h)
  have h1 := Nat.div_add_mod p1 (2 ^ h)
  have h2 := Nat.div_add_mod p2 (2 ^ h)
  have hmid := Nat.div_add_mod mid (2 ^ h)
  calc a * b
      = (2 ^ h * (a / 2 ^ h) + a % 2 ^ h) * (2 ^ h * (b / 2 ^ h) + b % 2 ^ h) := by rw [ha, hb]
    _ = 2 ^ (2 * h) * p3 + 2 ^ h * p2 + 2 ^ h * p1 + p0 := by
      rw [two_mul, pow_add]
      ring
    _ = 2 ^ (2 * h) * p3 + 2 ^ h * (2 ^ h * (p2 / 2 ^ h) + p2 % 2 ^ h) +
          2 ^ h * (2 ^ h * (p1 / 2 ^ h) + p1 % 2 ^ h) + (2 ^ h * (p0 / 2 ^ h) + p0 % 2 ^ h) := by
      rw [h0, h1, h2]
    _ = 2 ^ (2 * h) * (p3 + p1 / 2 ^ h + p2 / 2 ^ h) + 2 ^ h * mid + p0 % 2 ^ h := by
      rw [two_mul, pow_add]
      ring
    _ = 2 ^ (2 * h) * (p3 + p1 / 2 ^ h + p2 / 2 ^ h) +
          2 ^ h * (2 ^ h * (mid / 2 ^ h) + mid % 2 ^ h) + p0 % 2 ^ h := by rw [hmid]
    _ = 2 ^ (2 * h) * (p3 + p1 / 2 ^ h + p2 / 2 ^ h + mid / 2 ^ h) +
          (2 ^ h * (mid % 2 ^ h) + p0 % 2 ^ h) := by
      rw [two_mul, pow_add]
      ring

/-- The low word of a product fits. -/
theorem low_lt (x y : ℕ) (h : ℕ) : 2 ^ h * (x % 2 ^ h) + y % 2 ^ h < 2 ^ (2 * h) := by
  have hx : x % 2 ^ h < 2 ^ h := Nat.mod_lt _ (Nat.two_pow_pos h)
  have hy : y % 2 ^ h < 2 ^ h := Nat.mod_lt _ (Nat.two_pow_pos h)
  calc 2 ^ h * (x % 2 ^ h) + y % 2 ^ h
      < 2 ^ h * (x % 2 ^ h) + 2 ^ h := by omega
    _ = 2 ^ h * (x % 2 ^ h + 1) := by ring
    _ ≤ 2 ^ h * 2 ^ h := Nat.mul_le_mul_left _ hx
    _ = 2 ^ (2 * h) := by rw [two_mul, pow_add]

/-- The low half of a word, put below the low half of another. -/
theorem shift_or_half (x y h : ℕ) :
    (x <<< h) % 2 ^ (2 * h) ||| y % 2 ^ h = 2 ^ h * (x % 2 ^ h) + y % 2 ^ h := by
  have hshift : (x <<< h) % 2 ^ (2 * h) = 2 ^ h * (x % 2 ^ h) := by
    rw [Nat.shiftLeft_eq, Nat.mul_comm, two_mul, pow_add, Nat.mul_mod_mul_left]
  rw [hshift, ← Nat.two_pow_add_eq_or_of_lt (Nat.mod_lt y (Nat.two_pow_pos h))]

/-- **The two words of a product**, by shifts and masks. -/
theorem words_of_mul (a b h : ℕ) :
    let p0 := (a &&& 2 ^ h - 1) * (b &&& 2 ^ h - 1)
    let p1 := (a &&& 2 ^ h - 1) * (b >>> h)
    let p2 := a >>> h * (b &&& 2 ^ h - 1)
    let p3 := a >>> h * (b >>> h)
    let mid := (p1 &&& 2 ^ h - 1) + (p2 &&& 2 ^ h - 1) + p0 >>> h
    let low := (mid <<< h) % 2 ^ (2 * h) ||| (p0 &&& 2 ^ h - 1)
    a * b = 2 ^ (2 * h) * (p3 + p1 >>> h + p2 >>> h + mid >>> h) + low ∧ low < 2 ^ (2 * h) := by
  simp only [Nat.and_two_pow_sub_one_eq_mod, Nat.shiftRight_eq_div_pow, shift_or_half]
  exact ⟨wide_mul a b h, low_lt _ _ h⟩

/-- **The quotient of two words**, which is one word just when the high word is less than the
divisor, is exact just when no remainder has the highest bit. -/
theorem div_words_iff {α : Type} {x high low d w : ℕ} (f : ℕ → α) (hf : f.Injective) (overflow : α)
    (hx : x = 2 ^ w * high + low) (hlow : low < 2 ^ w) (hd : 0 < d) (hd' : d ≤ 2 ^ w) :
    (if high ≥ d then overflow else f (divLoop w low d w high 0)) =
        (if x / d < 2 ^ w then f (x / d) else overflow) ↔
      2 ^ w * d ≤ x ∨ ∀ i < w, 2 * (x / 2 ^ (i + 1) % d) < 2 ^ w := by
  have hhigh : high ≥ d ↔ 2 ^ w * d ≤ x := by
    rw [hx]
    constructor
    · intro hge
      exact (Nat.mul_le_mul_left _ hge).trans (Nat.le_add_right _ _)
    · intro hle
      by_contra hlt
      have hsucc : 2 ^ w * (high + 1) ≤ 2 ^ w * d := Nat.mul_le_mul_left _ (not_le.mp hlt)
      linarith
  have hquotient : x / d < 2 ^ w ↔ ¬high ≥ d := by
    rw [hhigh, not_le]
    exact Nat.div_lt_iff_lt_mul hd
  by_cases hge : high ≥ d
  · rw [if_pos hge, if_neg (mt hquotient.mp (not_not.mpr hge))]
    exact iff_of_true rfl (.inl (hhigh.mp hge))
  · rw [if_neg hge, if_pos (hquotient.mpr hge), hf.eq_iff, ← hhigh, or_iff_right hge]
    -- the rounds start with no bit of the quotient
    have hloop : divLoop w low d w high (2 ^ w * 0) =
        2 ^ w * 0 + (2 ^ w * high + low % 2 ^ w) / d ↔ _ := divLoop_eq_iff hd' (not_le.mp hge)
    rwa [Nat.mul_zero, Nat.zero_add, Nat.mod_eq_of_lt hlow, ← hx] at hloop

/-- **The quotient of two words**, which is one word just when the high word is less than the
divisor. -/
theorem div_words {α : Type} {x high low d w : ℕ} (f : ℕ → α) (overflow : α)
    (hx : x = 2 ^ w * high + low) (hlow : low < 2 ^ w) (hd : 0 < d) (hd' : 2 * d ≤ 2 ^ w) :
    (if high ≥ d then overflow else f (divLoop w low d w high 0)) =
      if x / d < 2 ^ w then f (x / d) else overflow := by
  rw [hx]
  split
  next hge =>
    have hquotient : 2 ^ w ≤ (2 ^ w * high + low) / d :=
      (Nat.le_div_iff_mul_le hd).mpr
        ((Nat.mul_le_mul_left _ hge).trans (Nat.le_add_right _ _))
    rw [if_neg (Nat.not_lt.mpr hquotient)]
  next hlt =>
    have hquotient : (2 ^ w * high + low) / d < 2 ^ w := by
      apply Nat.div_lt_of_lt_mul
      have hsucc : 2 ^ w * (high + 1) ≤ 2 ^ w * d :=
        Nat.mul_le_mul_left _ (Nat.lt_of_not_le hlt)
      linarith
    -- the rounds start with no bit of the quotient
    have hloop : divLoop w low d w high (2 ^ w * 0) =
        2 ^ w * 0 + (2 ^ w * high + low % 2 ^ w) / d :=
      divLoop_eq hd' (Nat.lt_of_not_le hlt)
    rw [Nat.mul_zero, Nat.zero_add, Nat.mod_eq_of_lt hlow] at hloop
    rw [if_pos hquotient, hloop]

end LongDivision
