import Mathlib.Algebra.BigOperators.Group.Finset.Piecewise
import Mathlib.Data.Int.Order.Basic
import Mathlib.Data.Nat.Bitwise
import Mathlib.Logic.Function.Basic

/-!
# Bitmaps of 64-bit words

A set of integers is kept as words of 64 bits under integer indices: the number `c` is bit
`c mod 64` of word `⌊c / 64⌋`. A word is flipped in one bit by an exclusive or, and searched in one
direction by masking the bits of the other.

## Main definitions

* `Bitmap.mem w c`: the bit of the number `c`
* `Bitmap.flip w c`: the words after the bit of `c` was flipped
* `leadingZeros`, `trailingZeros`: the zero bits of a word before the first and after the last
* `maskLte`, `maskGte`: the bits up to one, and from one on
* `lastUpTo w c`, `firstFrom w c`: the searches from `c` on within its word

## Main results

* `mem_flip`: a flip changes one bit and no other
* `lastUpTo_eq_some`, `firstFrom_eq_some`: what a search within one word finds
* `lastUpTo_eq_none`, `firstFrom_eq_none`: when it finds nothing
-/

namespace Bitmap

/-- The bit of the number `c`. -/
def mem (w : ℤ → ℕ) (c : ℤ) : Bool := (w (c / 64)).testBit (c % 64).toNat

/-- The words after the bit of the number `c` was flipped. -/
def flip (w : ℤ → ℕ) (c : ℤ) : ℤ → ℕ :=
  Function.update w (c / 64) (w (c / 64) ^^^ 1 <<< (c % 64).toNat)

/-- The zero bits above the highest one of a word of 64 bits. -/
def leadingZeros (x : ℕ) : ℕ := if x = 0 then 64 else 63 - x.log2

/-- The zero bits below the lowest one of a word of 64 bits. -/
def trailingZeros (x : ℕ) : ℕ := ((List.range 64).find? fun i => x.testBit i).getD 64

/-- The bits up to the bit `b`. -/
def maskLte (b : ℕ) : ℕ := 1 <<< b - 1 + 1 <<< b

/-- The bits from the bit `b` on. -/
def maskGte (b : ℕ) : ℕ := (2 ^ 64 - 1) ^^^ (1 <<< b - 1)

variable {w : ℤ → ℕ} {c d : ℤ} {b i x : ℕ}

/-- A number is its word and its bit. -/
theorem eq_iff : c = d ↔ c / 64 = d / 64 ∧ (c % 64).toNat = (d % 64).toNat := by omega

/-- **A flip changes one bit and no other.** -/
theorem mem_flip : mem (flip w c) d = if d = c then !mem w d else mem w d := by
  unfold mem flip
  by_cases hword : d / 64 = c / 64
  · rw [hword, Function.update_self, Nat.testBit_xor, Nat.one_shiftLeft, Nat.testBit_two_pow]
    by_cases hbit : (c % 64).toNat = (d % 64).toNat
    · have hdc : d = c := eq_iff.mpr ⟨hword, hbit.symm⟩
      simp [hdc]
    · have hdc : d ≠ c := fun h => hbit (h ▸ rfl)
      simp [hbit, hdc]
  · have hdc : d ≠ c := fun h => hword (h ▸ rfl)
    rw [Function.update_of_ne hword, if_neg hdc]

theorem testBit_maskLte : (maskLte b).testBit i = decide (i ≤ b) := by
  have hmask : maskLte b = 2 ^ (b + 1) - 1 := by
    have hpos : 0 < 2 ^ b := Nat.two_pow_pos b
    rw [maskLte, Nat.one_shiftLeft, pow_succ]
    omega
  rw [hmask, Nat.testBit_two_pow_sub_one]
  simp [Nat.lt_succ_iff]

theorem testBit_maskGte : (maskGte b).testBit i = (decide (i < 64) ^^ decide (i < b)) := by
  rw [maskGte, Nat.testBit_xor, Nat.testBit_two_pow_sub_one, Nat.one_shiftLeft,
    Nat.testBit_two_pow_sub_one]

theorem maskGte_lt (hb : b < 64) : maskGte b < 2 ^ 64 := by
  apply Nat.lt_pow_two_of_testBit
  intro j hj
  rw [testBit_maskGte, decide_eq_false (by omega), decide_eq_false (by omega)]
  rfl

/-- The highest bit of a word that is not zero: it is set, and none above it is. -/
theorem highest_of_ne_zero (hx : x ≠ 0) (hlt : x < 2 ^ 64) :
    x.testBit (63 - leadingZeros x) = true ∧
      ∀ j, 63 - leadingZeros x < j → x.testBit j = false := by
  have hlog : x.log2 < 64 := (Nat.log2_lt hx).mpr hlt
  have hbit : 63 - leadingZeros x = x.log2 := by
    rw [leadingZeros, if_neg hx]
    omega
  rw [hbit]
  refine ⟨Nat.testBit_log2 hx, ?_⟩
  intro j hj
  apply Nat.testBit_lt_two_pow
  exact ((Nat.log2_lt hx).mp hj)

/-- The lowest bit of a word that is not zero: it is set, and none below it is. -/
theorem lowest_of_ne_zero (hx : x ≠ 0) (hlt : x < 2 ^ 64) :
    x.testBit (trailingZeros x) = true ∧ ∀ j, j < trailingZeros x → x.testBit j = false := by
  unfold trailingZeros
  cases hfind : (List.range 64).find? fun i => x.testBit i with
  | none =>
    -- a word without a bit below 64 is zero
    exfalso
    apply hx
    apply Nat.zero_of_testBit_eq_false
    intro j
    by_cases hj : j < 64
    · have hnone := List.find?_eq_none.mp hfind j (List.mem_range.mpr hj)
      exact Bool.eq_false_of_not_eq_true hnone
    · apply Nat.testBit_lt_two_pow
      exact hlt.trans_le (Nat.pow_le_pow_right (by decide) (not_lt.mp hj))
  | some k =>
    rw [Option.getD_some]
    have hk := List.find?_range_eq_some.mp hfind
    refine ⟨hk.1, ?_⟩
    intro j hj
    simpa using hk.2.2 j hj

/-- A bit of a word that is set is one of its 64. -/
theorem lt_of_testBit (hlt : x < 2 ^ 64) (hbit : x.testBit i = true) : i < 64 := by
  by_contra hge
  have hpow : x < 2 ^ i := hlt.trans_le (Nat.pow_le_pow_right (by decide) (not_lt.mp hge))
  rw [Nat.testBit_lt_two_pow hpow] at hbit
  cases hbit

/-! ## Searches within one word -/

/-- The highest number of the bitmap up to `c`, when the word of `c` has one. -/
def lastUpTo (w : ℤ → ℕ) (c : ℤ) : Option ℤ :=
  let masked := w (c / 64) &&& maskLte (c % 64).toNat
  if masked = 0 then none else some (c / 64 * 64 + (63 - leadingZeros masked : ℕ))

/-- The lowest number of the bitmap from `c` on, when the word of `c` has one. -/
def firstFrom (w : ℤ → ℕ) (c : ℤ) : Option ℤ :=
  let masked := w (c / 64) &&& maskGte (c % 64).toNat
  if masked = 0 then none else some (c / 64 * 64 + (trailingZeros masked : ℕ))

/-- The bit of a number that is given by a word and a bit. -/
theorem mem_word {k : ℤ} (hi : i < 64) : mem w (k * 64 + i) = (w k).testBit i := by
  have hword : (k * 64 + i) / 64 = k := by omega
  have hbit : ((k * 64 + i) % 64).toNat = i := by omega
  rw [mem, hword, hbit]

/-- **The search down.** What is found is a number of the bitmap, and none between it and the start
is. -/
theorem lastUpTo_eq_some (h : lastUpTo w c = some d) :
    mem w d = true ∧ d ≤ c ∧ ∀ e, d < e → e ≤ c → mem w e = false := by
  unfold lastUpTo at h
  dsimp only at h
  split at h
  · cases h
  next hne =>
    obtain rfl := Option.some.inj h
    have hlt : (w (c / 64) &&& maskLte (c % 64).toNat) < 2 ^ 64 := by
      have hmask : maskLte (c % 64).toNat < 2 ^ 64 := by
        apply Nat.lt_pow_two_of_testBit
        intro j hj
        rw [testBit_maskLte, decide_eq_false_iff_not]
        omega
      exact lt_of_le_of_lt Nat.and_le_right hmask
    obtain ⟨hset, hnone⟩ := highest_of_ne_zero hne hlt
    generalize 63 - leadingZeros (w (c / 64) &&& maskLte (c % 64).toNat) = k at hset hnone
    rw [Nat.testBit_and, testBit_maskLte, Bool.and_eq_true, decide_eq_true_eq] at hset
    obtain ⟨hbit, hk⟩ := hset
    refine ⟨?_, ?_, ?_⟩
    · rw [mem_word (by omega)]
      exact hbit
    · omega
    · intro e hde hec
      -- the bits between are in the same word and under the mask
      have hword : e / 64 = c / 64 := by omega
      have hbetween := hnone (e % 64).toNat (by omega)
      rw [Nat.testBit_and, testBit_maskLte, decide_eq_true (by omega), Bool.and_true] at hbetween
      rw [mem, hword, hbetween]

/-- **The search up.** What is found is a number of the bitmap, and none from the start to it is. -/
theorem firstFrom_eq_some (h : firstFrom w c = some d) :
    mem w d = true ∧ c ≤ d ∧ ∀ e, c ≤ e → e < d → mem w e = false := by
  unfold firstFrom at h
  dsimp only at h
  split at h
  · cases h
  next hne =>
    obtain rfl := Option.some.inj h
    have hlt : (w (c / 64) &&& maskGte (c % 64).toNat) < 2 ^ 64 :=
      lt_of_le_of_lt Nat.and_le_right (maskGte_lt (by omega))
    obtain ⟨hset, hnone⟩ := lowest_of_ne_zero hne hlt
    generalize trailingZeros (w (c / 64) &&& maskGte (c % 64).toNat) = k at hset hnone
    rw [Nat.testBit_and, testBit_maskGte, Bool.and_eq_true] at hset
    obtain ⟨hbit, hk⟩ := hset
    have hk64 : k < 64 := by
      by_contra hge
      rw [decide_eq_false hge, decide_eq_false (by omega)] at hk
      cases hk
    have hck : (c % 64).toNat ≤ k := by
      by_contra hlt
      rw [decide_eq_true hk64, decide_eq_true (by omega)] at hk
      cases hk
    refine ⟨?_, ?_, ?_⟩
    · rw [mem_word hk64]
      exact hbit
    · omega
    · intro e hce hed
      have hword : e / 64 = c / 64 := by omega
      have hbetween := hnone (e % 64).toNat (by omega)
      rw [Nat.testBit_and, testBit_maskGte, decide_eq_true (by omega), decide_eq_false (by omega),
        Bool.xor_false, Bool.and_true] at hbetween
      rw [mem, hword, hbetween]

/-- What is found is in the word of the start. -/
theorem lastUpTo_word (h : lastUpTo w c = some d) : d / 64 = c / 64 := by
  unfold lastUpTo at h
  dsimp only at h
  split at h
  · cases h
  · obtain rfl := Option.some.inj h
    omega

theorem firstFrom_word (h : firstFrom w c = some d) : d / 64 = c / 64 := by
  unfold firstFrom at h
  dsimp only at h
  split at h
  · cases h
  next hne =>
    obtain rfl := Option.some.inj h
    have hlt : (w (c / 64) &&& maskGte (c % 64).toNat) < 2 ^ 64 :=
      lt_of_le_of_lt Nat.and_le_right (maskGte_lt (by omega))
    have hbit := lt_of_testBit hlt (lowest_of_ne_zero hne hlt).1
    omega

/-- **The search down finds nothing** only when no number of the word up to the start is in the
bitmap. -/
theorem lastUpTo_eq_none (h : lastUpTo w c = none) (hword : d / 64 = c / 64) (hle : d ≤ c) :
    mem w d = false := by
  unfold lastUpTo at h
  dsimp only at h
  split at h
  next hzero =>
    have hbit : (w (c / 64) &&& maskLte (c % 64).toNat).testBit (d % 64).toNat = false := by
      rw [hzero, Nat.zero_testBit]
    rw [Nat.testBit_and, testBit_maskLte, decide_eq_true (by omega), Bool.and_true] at hbit
    rw [mem, hword, hbit]
  · cases h

/-- **The search up finds nothing** only when no number of the word from the start on is in the
bitmap. -/
theorem firstFrom_eq_none (h : firstFrom w c = none) (hword : d / 64 = c / 64) (hle : c ≤ d) :
    mem w d = false := by
  unfold firstFrom at h
  dsimp only at h
  split at h
  next hzero =>
    have hbit : (w (c / 64) &&& maskGte (c % 64).toNat).testBit (d % 64).toNat = false := by
      rw [hzero, Nat.zero_testBit]
    rw [Nat.testBit_and, testBit_maskGte, decide_eq_true (by omega), decide_eq_false (by omega),
      Bool.xor_false, Bool.and_true] at hbit
    rw [mem, hword, hbit]
  · cases h

end Bitmap

/-!
# Sets of small numbers in a word

A word is a set of numbers below its width: a number is in the set when its bit is set. The mask of
a number tells whether it is there and puts it there, and the numbers are counted by shifting the
word until nothing is left of it.

## Main definitions

* `mask i`: the word with the bit `i` alone
* `countBits k n`: the bits of a word, counted in at most `k` rounds

## Main results

* `and_mask_eq_zero`, `testBit_or_mask`: the two uses of a mask
* `countBits_eq_card`: the count is the size of the set
-/

namespace Bits

/-- The word with the bit `i` alone. -/
def mask (i : ℕ) : ℕ := 1 <<< i

/-- The loop that counts the bits of `n`, for at most `k` rounds. -/
def countLoop : ℕ → ℕ → ℕ → ℕ
  | 0, _, count => count
  | k + 1, n, count => if n = 0 then count else countLoop k (n >>> 1) (count + (n &&& 1))

/-- The bits of a word of the width `k`, counted. -/
def countBits (k n : ℕ) : ℕ := countLoop k n 0

variable {n i j k count : ℕ}

theorem testBit_mask : (mask i).testBit j = decide (i = j) := by
  rw [mask, Nat.one_shiftLeft, Nat.testBit_two_pow]

theorem and_mask_eq_zero : n &&& mask i = 0 ↔ n.testBit i = false := by
  constructor
  · intro h
    have hbit := congrArg (fun x => x.testBit i) h
    simpa [testBit_mask] using hbit
  · intro h
    apply Nat.eq_of_testBit_eq
    intro j
    rw [Nat.testBit_and, testBit_mask, Nat.zero_testBit]
    by_cases hij : i = j
    · rw [← hij, h, Bool.false_and]
    · simp [hij]

theorem testBit_or_mask : (n ||| mask i).testBit j = (n.testBit j || decide (i = j)) := by
  rw [Nat.testBit_or, testBit_mask]

/-- The numbers below `k + 1` in a word are its lowest bit, and those below `k` in its half. -/
theorem card_bits_succ :
    ((Finset.range (k + 1)).filter fun i => n.testBit i).card =
      n % 2 + ((Finset.range k).filter fun i => (n / 2).testBit i).card := by
  rw [Finset.card_filter, Finset.card_filter, Finset.sum_range_succ', add_comm]
  congr 1
  · rw [Nat.testBit_zero]
    rcases Nat.mod_two_eq_zero_or_one n with h | h <;> simp [h]
  · simp only [Nat.testBit_succ]

theorem countLoop_eq :
    countLoop k n count = count + ((Finset.range k).filter fun i => n.testBit i).card := by
  induction k generalizing n count with
  | zero => simp [countLoop]
  | succ k ih =>
    rw [countLoop]
    split
    next h =>
      subst h
      simp
    next h => rw [ih, card_bits_succ, Nat.and_one_is_mod, Nat.shiftRight_one, add_assoc]

/-- **The count is the size of the set.** -/
theorem countBits_eq_card :
    countBits k n = ((Finset.range k).filter fun i => n.testBit i).card := by
  rw [countBits, countLoop_eq, zero_add]

end Bits
