import Mathlib.Algebra.Order.Group.Nat
import SkyMoonScope.Lib.Bytes

/-!
# The order of XDR texts

XDR writes a text as its length, its bytes, and zeros up to a multiple of four. As byte strings,
texts that are written so are ordered by their lengths first: the order of the texts themselves is
that of those of one length only.

## Main definitions

* `Xdr.encodeText`: the bytes of a text

## Main results

* `beBytes_lt_iff`: big-endian integers are ordered as byte strings
* `Xdr.encodeText_lt_iff`: the order of the bytes of texts
-/

section

variable {α : Type*} [LT α] [Std.Irrefl (α := α) (· < ·)] {a b c d : List α}

/-- Strings of one length decide the order before what follows them. -/
theorem append_lt_append_iff (h : a.length = b.length) :
    a ++ c < b ++ d ↔ a < b ∨ a = b ∧ c < d := by
  induction a generalizing b with
  | nil =>
    obtain rfl := List.length_eq_zero_iff.mp h.symm
    simp [List.lt_irrefl]
  | cons x a ih =>
    cases b with
    | nil => cases h
    | cons y b =>
      rw [List.cons_append, List.cons_append, List.cons_lt_cons_iff, List.cons_lt_cons_iff,
        ih (Nat.succ.inj h), List.cons.injEq]
      tauto

end

/-- **Big-endian integers are ordered as byte strings.** -/
theorem beBytes_lt_iff {k v w : ℕ} (hv : v < 256 ^ k) (hw : w < 256 ^ k) :
    beBytes k v < beBytes k w ↔ v < w := by
  induction k generalizing v w with
  | zero => simp [beBytes, List.lt_irrefl, show v = 0 by omega, show w = 0 by omega]
  | succ k ih =>
    have hpos : 0 < 256 ^ k := Nat.pow_pos (by omega)
    have hv' : v / 256 ^ k < 256 := Nat.div_lt_of_lt_mul (by rwa [← Nat.pow_succ])
    have hw' : w / 256 ^ k < 256 := Nat.div_lt_of_lt_mul (by rwa [← Nat.pow_succ])
    have hlow := ih (Nat.mod_lt v hpos) (Nat.mod_lt w hpos)
    rw [beBytes_mod, beBytes_mod] at hlow
    have hhigh : UInt8.ofNat (v / 256 ^ k) < UInt8.ofNat (w / 256 ^ k) ↔
        v / 256 ^ k < w / 256 ^ k := by
      rw [UInt8.lt_iff_toNat_lt, UInt8.toNat_ofNat_of_lt' hv', UInt8.toNat_ofNat_of_lt' hw']
    have heq : UInt8.ofNat (v / 256 ^ k) = UInt8.ofNat (w / 256 ^ k) ↔
        v / 256 ^ k = w / 256 ^ k := by
      rw [← UInt8.toNat_inj, UInt8.toNat_ofNat_of_lt' hv', UInt8.toNat_ofNat_of_lt' hw']
    rw [beBytes, beBytes, List.cons_lt_cons_iff, hlow, hhigh, heq]
    -- the first byte decides, and the low ones where it is the same
    have hvsplit := Nat.div_add_mod v (256 ^ k)
    have hwsplit := Nat.div_add_mod w (256 ^ k)
    have hvlow := Nat.mod_lt v hpos
    have hwlow := Nat.mod_lt w hpos
    constructor
    · rintro (hlt | ⟨heq, hlt⟩)
      · have hmul := Nat.mul_le_mul_left (256 ^ k) (Nat.succ_le_of_lt hlt)
        rw [Nat.mul_succ] at hmul
        omega
      · rw [heq] at hvsplit
        omega
    · intro hlt
      rcases Nat.lt_or_ge (v / 256 ^ k) (w / 256 ^ k) with hdiv | hdiv
      · exact .inl hdiv
      · have heq := Nat.le_antisymm (Nat.div_le_div_right (Nat.le_of_lt hlt)) hdiv
        rw [heq] at hvsplit
        exact .inr ⟨heq, by omega⟩

namespace Xdr

/-- How many zeros there are behind a text. -/
def padding (n : ℕ) : ℕ := (4 - n % 4) % 4

/-- The bytes of a text: its length, the text and zeros. -/
def encodeText (bs : List UInt8) : List UInt8 :=
  beBytes 4 bs.length ++ (bs ++ List.replicate (padding bs.length) 0)

/-- **The bytes of texts are ordered by the lengths first.** -/
theorem encodeText_lt_iff {a b : List UInt8} (ha : a.length < 2 ^ 32) (hb : b.length < 2 ^ 32) :
    encodeText a < encodeText b ↔ a.length < b.length ∨ a.length = b.length ∧ a < b := by
  have hlength : (beBytes 4 a.length).length = (beBytes 4 b.length).length := by
    rw [length_beBytes, length_beBytes]
  rw [encodeText, encodeText, append_lt_append_iff hlength, beBytes_lt_iff ha hb]
  refine or_congr_right ?_
  constructor
  · rintro ⟨heq, hlt⟩
    have hlen := beBytes_inj ha hb heq
    rw [append_lt_append_iff hlen, hlen] at hlt
    rcases hlt with hlt | ⟨-, hlt⟩
    · exact ⟨hlen, hlt⟩
    · exact absurd hlt (List.lt_irrefl _)
  · rintro ⟨hlen, hlt⟩
    rw [append_lt_append_iff hlen, hlen]
    exact ⟨rfl, .inl hlt⟩

example : encodeText [1, 2, 3, 4, 5] = [0, 0, 0, 5, 1, 2, 3, 4, 5, 0, 0, 0] := by decide

end Xdr
