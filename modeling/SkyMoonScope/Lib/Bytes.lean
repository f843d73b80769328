import Mathlib.Data.List.Basic
import Mathlib.Data.List.Lex
import Mathlib.Data.UInt

/-!
# Byte strings

Fixed-length byte strings carry their length, and are compared lexicographically, as Rust compares
byte arrays. Integers are encoded in big-endian order at a fixed width.

## Main definitions

* `BytesN n`: the byte strings of length `n`, ordered lexicographically
* `beBytes k v`: the `k` low bytes of `v`, most significant first

## Main results

* `beBytes_inj`: values that fit are told apart by their bytes
-/

/-- The byte strings of length `n`. -/
structure BytesN (n : ℕ) where
  toList : List UInt8
  length_toList : toList.length = n
deriving DecidableEq

namespace BytesN

variable {n : ℕ}

attribute [simp] length_toList

@[ext] theorem ext {a b : BytesN n} (h : a.toList = b.toList) : a = b := by
  cases a; cases b; cases h; rfl

/-- The lexicographic order of the bytes. -/
instance : LinearOrder (BytesN n) :=
  LinearOrder.lift' (fun a => a.toList.map UInt8.toNat) fun _ _ h =>
    ext (List.map_injective_iff.mpr (fun _ _ => UInt8.toNat_inj.mp) h)

/-- The byte string of `n` copies of `b`. -/
def replicate (n : ℕ) (b : UInt8) : BytesN n := ⟨List.replicate n b, by simp⟩

/-- Concatenations of two strings of one length agree only part by part. -/
theorem append_inj {a b c d : BytesN n} (h : a.toList ++ b.toList = c.toList ++ d.toList) :
    a = c ∧ b = d := by
  obtain ⟨h₁, h₂⟩ := List.append_inj h (by simp)
  exact ⟨ext h₁, ext h₂⟩

end BytesN

/-- The `k` low bytes of `v`, most significant first. -/
def beBytes : ℕ → ℕ → List UInt8
  | 0, _ => []
  | k + 1, v => UInt8.ofNat (v / 256 ^ k) :: beBytes k v

@[simp] theorem length_beBytes (k v : ℕ) : (beBytes k v).length = k := by
  induction k with
  | zero => rfl
  | succ k ih => simp [beBytes, ih]

/-- Only the `k` low bytes matter. -/
theorem beBytes_mod (k v : ℕ) : beBytes k (v % 256 ^ k) = beBytes k v := by
  -- for the tail the value is reduced further, to fewer bytes
  have hreduce : ∀ (j : ℕ), j ≤ k → beBytes j (v % 256 ^ k) = beBytes j v := by
    intro j hj
    induction j with
    | zero => rfl
    | succ j ih =>
      obtain ⟨i, rfl⟩ : ∃ i, k = j + 1 + i := ⟨k - (j + 1), by omega⟩
      have hdigit : v % 256 ^ (j + 1 + i) / 256 ^ j % 256 = v / 256 ^ j % 256 := by
        rw [Nat.add_assoc, Nat.pow_add, Nat.mod_mul_right_div_self, Nat.pow_add, Nat.pow_one,
          Nat.mod_mul_right_mod]
      rw [beBytes, beBytes, ih (by omega)]
      congr 1
      apply UInt8.toNat_inj.mp
      simpa using hdigit
  exact hreduce k (Nat.le_refl k)

/-- **The encoding is injective** on the values that have `k` bytes. -/
theorem beBytes_inj {k v w : ℕ} (hv : v < 256 ^ k) (hw : w < 256 ^ k)
    (h : beBytes k v = beBytes k w) : v = w := by
  induction k generalizing v w with
  | zero => omega
  | succ k ih =>
    obtain ⟨hhead, htail⟩ := List.cons.inj h
    have hpos : 0 < 256 ^ k := Nat.pow_pos (by omega)
    -- the low bytes agree, and so does the first byte
    have hlow : v % 256 ^ k = w % 256 ^ k :=
      ih (Nat.mod_lt _ hpos) (Nat.mod_lt _ hpos) (by rw [beBytes_mod, beBytes_mod, htail])
    have hhigh : v / 256 ^ k = w / 256 ^ k := by
      have hv' : v / 256 ^ k < 256 := Nat.div_lt_of_lt_mul (by rwa [← Nat.pow_succ])
      have hw' : w / 256 ^ k < 256 := Nat.div_lt_of_lt_mul (by rwa [← Nat.pow_succ])
      have hmod := congrArg UInt8.toNat hhead
      simpa [Nat.mod_eq_of_lt hv', Nat.mod_eq_of_lt hw'] using hmod
    rw [← Nat.div_add_mod v (256 ^ k), ← Nat.div_add_mod w (256 ^ k), hlow, hhigh]

example : (⟨[1, 2], rfl⟩ : BytesN 2) < ⟨[1, 3], rfl⟩ := by decide

example : beBytes 4 0x01020304 = [1, 2, 3, 4] := by decide

/-!
# UTF-8 with replacements

Text is written as bytes, and bytes are read as text whatever they are: where they are no
characters, replacement characters stand for them, one for each maximal part of a character.

## Main definitions

* `Utf8.encode`: the bytes of a text
* `Utf8.decodeLossy`: the text of bytes, with replacements

## Main results

* `decodeLossy_encode`: what is written is read back
-/

namespace Utf8

def encode (s : List Char) : List UInt8 := s.flatMap String.utf8EncodeChar

/-- How many bytes a character has that begins with this byte. -/
def width (b : UInt8) : ℕ :=
  if b < 0x80 then 1
  else if b < 0xC2 then 0
  else if b < 0xE0 then 2
  else if b < 0xF0 then 3
  else if b < 0xF5 then 4
  else 0

/-- The range of the second byte of a character that begins with this one. -/
def second (b : UInt8) : UInt8 × UInt8 :=
  if b = 0xE0 then (0xA0, 0xBF)
  else if b = 0xED then (0x80, 0x9F)
  else if b = 0xF0 then (0x90, 0xBF)
  else if b = 0xF4 then (0x80, 0x8F)
  else (0x80, 0xBF)

/-- How many bytes one replacement stands for: those that a character could have begun with. -/
def maximalPart : List UInt8 → ℕ
  | b :: c :: bs =>
    if 2 ≤ width b ∧ (second b).1 ≤ c ∧ c ≤ (second b).2 then
      2 + ((bs.take (width b - 2)).takeWhile fun d => 0x80 ≤ d && d ≤ 0xBF).length
    else 1
  | _ => 1

def replacement : Char := Char.ofNat 0xFFFD

/-- At most as many characters as there are bytes. -/
def decodeWithin : ℕ → List UInt8 → List Char
  | 0, _ => []
  | _, [] => []
  | n + 1, b :: bs =>
    match (b :: bs).toByteArray.utf8DecodeChar? 0 with
    | some c => c :: decodeWithin n ((b :: bs).drop c.utf8Size)
    | none => replacement :: decodeWithin n ((b :: bs).drop (maximalPart (b :: bs)))

/-- `String::from_utf8_lossy`. -/
def decodeLossy (bs : List UInt8) : List Char := decodeWithin bs.length bs

theorem encode_cons (c : Char) (s : List Char) :
    encode (c :: s) = String.utf8EncodeChar c ++ encode s := List.flatMap_cons

/-- The first character is read, and its bytes are left behind. -/
theorem decodeWithin_append {n : ℕ} (c : Char) (bs : List UInt8) :
    decodeWithin (n + 1) (String.utf8EncodeChar c ++ bs) = c :: decodeWithin n bs := by
  have hlength := String.length_utf8EncodeChar c
  have hread : (String.utf8EncodeChar c ++ bs).toByteArray.utf8DecodeChar? 0 = some c := by
    rw [List.toByteArray_append']
    exact ByteArray.utf8DecodeChar?_utf8EncodeChar_append
  have hdrop : (String.utf8EncodeChar c ++ bs).drop c.utf8Size = bs := by
    rw [← hlength, List.drop_left]
  cases hbytes : String.utf8EncodeChar c ++ bs with
  | nil =>
    rw [List.append_eq_nil_iff] at hbytes
    rw [hbytes.1, List.length_nil] at hlength
    exact absurd hlength c.utf8Size_pos.ne
  | cons b rest =>
    rw [hbytes] at hread hdrop
    rw [decodeWithin, hread]
    exact congrArg _ (congrArg _ hdrop)

theorem decodeWithin_encode {n : ℕ} (s : List Char) (hn : s.length ≤ n) :
    decodeWithin n (encode s) = s := by
  induction s generalizing n with
  | nil => cases n <;> rfl
  | cons c s ih =>
    obtain ⟨m, rfl⟩ := Nat.exists_eq_succ_of_ne_zero (Nat.ne_of_gt (Nat.lt_of_lt_of_le
      (Nat.succ_pos _) hn))
    rw [encode_cons, decodeWithin_append, ih (Nat.le_of_succ_le_succ hn)]

theorem length_le_length_encode (s : List Char) : s.length ≤ (encode s).length := by
  induction s with
  | nil => exact Nat.le_refl _
  | cons c s ih =>
    have hpos := c.utf8Size_pos
    rw [encode_cons, List.length_append, String.length_utf8EncodeChar, List.length_cons]
    omega

/-- **What is written is read back.** -/
theorem decodeLossy_encode (s : List Char) : decodeLossy (encode s) = s :=
  decodeWithin_encode s (length_le_length_encode s)

example : decodeLossy [0x61, 0xE2, 0x82, 0x62, 0xFF] = ['a', replacement, 'b', replacement] := by
  decide +kernel

end Utf8
