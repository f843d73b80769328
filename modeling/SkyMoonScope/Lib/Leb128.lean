import Mathlib.Algebra.Order.Ring.Nat
import Mathlib.Data.Nat.Bits
import Mathlib.Data.UInt
import Mathlib.Tactic.Ring

/-!
# LEB128

An integer is written in groups of seven bits, least significant first; every byte but the last has
its high bit set. Encodings need not be the shortest, but those of the integers of `w` bits take no
more than `⌈w / 7⌉` bytes.

## Main definitions

* `Leb128.value`, `Leb128.signedValue`: what the groups of a byte string add up to
* `Leb128.Encoded`: the byte strings that are one encoding
* `Leb128.Unsigned w`, `Leb128.Signed w`: the encodings of integers of `w` bits

## Main results

* `Leb128.Encoded.ne_nil`, `Leb128.value_lt`: encodings are not empty, and bound their values
* `Leb128.Encoded.eq_of_prefix`: no encoding is the beginning of another one
* `Leb128.lor_group`: a group is added to lower ones by a bitwise or
-/

/-- What holds of all 256 bytes holds of every byte. -/
theorem UInt8.forall_of_fin {p : UInt8 → Prop} (h : ∀ n : Fin 256, p (UInt8.ofFin n)) (b : UInt8) :
    p b := h b.toFin

namespace Leb128

/-- The value of groups of seven bits, least significant first. -/
def value : List UInt8 → ℕ
  | [] => 0
  | b :: bs => b.toNat % 128 + 128 * value bs

/-- The value in two's complement: the high bit of the last group is the sign. -/
def signedValue (bs : List UInt8) : ℤ :=
  if (bs.getLast?.getD 0).toNat % 128 < 64 then value bs else value bs - 2 ^ (7 * bs.length)

/-- The byte strings that are one encoding: the first byte without the high bit is the last. -/
def Encoded : List UInt8 → Prop
  | [] => False
  | b :: bs => if b < 128 then bs = [] else Encoded bs

instance decidableEncoded : (bs : List UInt8) → Decidable (Encoded bs)
  | [] => inferInstanceAs (Decidable False)
  | b :: bs =>
    have := decidableEncoded bs
    inferInstanceAs (Decidable (if b < 128 then bs = [] else Encoded bs))

/-- The encodings of the natural numbers below `2 ^ w`. -/
structure Unsigned (w : ℕ) where
  bytes : List UInt8
  encoded : Encoded bytes
  length_lt : 7 * bytes.length < w + 7
  value_lt : value bytes < 2 ^ w

/-- The encodings of the integers of `w` bits. -/
structure Signed (w : ℕ) where
  bytes : List UInt8
  encoded : Encoded bytes
  length_lt : 7 * bytes.length < w + 7
  le_value : -2 ^ (w - 1) ≤ signedValue bytes
  value_lt : signedValue bytes < 2 ^ (w - 1)

/-- The number that is encoded. -/
def Unsigned.toNat {w : ℕ} (n : Unsigned w) : ℕ := value n.bytes

variable {b : UInt8} {bs : List UInt8}

theorem encoded_cons_of_lt (hb : b < 128) : Encoded (b :: bs) ↔ bs = [] := by
  simp only [Encoded, if_pos hb]

theorem encoded_cons_of_not_lt (hb : ¬b < 128) : Encoded (b :: bs) ↔ Encoded bs := by
  simp only [Encoded, if_neg hb]

theorem Encoded.ne_nil (h : Encoded bs) : bs ≠ [] := by
  rintro rfl
  exact h

theorem Encoded.length_pos (h : Encoded bs) : 0 < bs.length := List.length_pos_of_ne_nil h.ne_nil

/-- **No encoding is the beginning of another one.** -/
theorem Encoded.eq_of_prefix {cs l : List UInt8} (hb : Encoded bs) (hc : Encoded cs)
    (hbl : bs <+: l) (hcl : cs <+: l) : bs = cs := by
  induction bs generalizing cs l with
  | nil => exact absurd rfl hb.ne_nil
  | cons b bs ih =>
    obtain ⟨tail, rfl⟩ := hbl
    cases cs with
    | nil => exact absurd rfl hc.ne_nil
    | cons c cs =>
      rw [List.cons_append, List.cons_prefix_cons] at hcl
      obtain ⟨rfl, hcl⟩ := hcl
      by_cases hlast : c < 128
      · rw [(encoded_cons_of_lt hlast).mp hb, (encoded_cons_of_lt hlast).mp hc]
      · rw [ih ((encoded_cons_of_not_lt hlast).mp hb) ((encoded_cons_of_not_lt hlast).mp hc)
          (List.prefix_append bs tail) hcl]

theorem value_lt (bs : List UInt8) : value bs < 128 ^ bs.length := by
  induction bs with
  | nil => exact Nat.one_pos
  | cons b bs ih =>
    have hb : b.toNat % 128 < 128 := Nat.mod_lt _ (by decide)
    -- the first group is below 128, and the others count 128 times
    have hmul : 128 * (value bs + 1) ≤ 128 * 128 ^ bs.length := Nat.mul_le_mul_left 128 ih
    rw [List.length_cons, pow_succ', value]
    omega

/-! ## Reading a group -/

/-- The high bit of a byte says that it is not the last. -/
theorem and_0x80_eq_zero_iff (b : UInt8) : b &&& 0x80 = 0 ↔ b < 128 :=
  UInt8.forall_of_fin (p := fun b => b &&& 0x80 = 0 ↔ b < 128) (by decide +kernel) b

theorem toNat_and_0x7F (b : UInt8) : (b &&& 0x7F).toNat = b.toNat % 128 := by
  rw [UInt8.toNat_and]
  exact Nat.and_two_pow_sub_one_eq_mod b.toNat 7

/-- A group is added to lower ones by a bitwise or. -/
theorem lor_group {r k : ℕ} (hr : r < 2 ^ k) (g : ℕ) : r ||| g <<< k = r + 2 ^ k * g := by
  rw [Nat.or_comm, ← Nat.shiftLeft_add_eq_or_of_lt hr, Nat.shiftLeft_eq]
  ring

end Leb128
