import SkyMoonScope.Lib.Leb128

/-!
# The integers of contract metadata

Section sizes and name lengths are LEB128 integers of at most five bytes. The last of these may
carry bits beyond the 32 that are kept; they are lost.

## Main definitions

* `readLeb128U32`: the integer at an offset, and the bytes it takes
* `LastFits bytes offset`: the fifth byte of an integer carries no bits beyond the 32

## Main results

* `readLeb128U32_eq_some_iff`: what is read is the value of an encoding, modulo `2 ^ 32`
* `exact_iff`: the integers that are read are those of 32 bits where the fifth byte fits
-/

namespace Core.SorobanMeta

open Leb128

/-- The loop of `readLeb128U32`; after five rounds `shift` is 35, and it gives up. -/
def readLeb128U32From (bytes : List UInt8) : ℕ → ℕ → ℕ → ℕ → Option (ℕ × ℕ)
  | 0, _, _, _ => none
  | rounds + 1, result, shift, offset =>
    match bytes[offset]? with
    | none => none
    | some byte =>
      let result := result ||| ((byte &&& 0x7F).toNat <<< shift) % 2 ^ 32
      if byte &&& 0x80 = 0 then some (result, offset + 1)
      else if 28 < shift + 7 then none
      else readLeb128U32From bytes rounds result (shift + 7) (offset + 1)

/-- The integer at an offset, and the bytes it takes. -/
def readLeb128U32 (bytes : List UInt8) (offset : ℕ) : Option (ℕ × ℕ) :=
  (readLeb128U32From bytes 5 0 0 offset).map fun p => (p.1, p.2 - offset)

variable {bytes bs tail : List UInt8} {offset : ℕ}

theorem getElem?_of_drop_cons {b : UInt8} (h : bytes.drop offset = b :: tail) :
    bytes[offset]? = some b := by
  rw [← Nat.add_zero offset, ← List.getElem?_drop, h, List.getElem?_cons_zero]

theorem drop_succ_of_drop_cons {b : UInt8} (h : bytes.drop offset = b :: tail) :
    bytes.drop (offset + 1) = tail := by
  rw [← List.drop_drop, h, List.drop_succ_cons, List.drop_zero]

/-- A group is added to lower ones, and the bits beyond the 32 are lost. -/
theorem lor_group_mod {r shift : ℕ} (hr : r < 2 ^ shift) (hshift : shift ≤ 28) (g : ℕ) :
    r ||| (g <<< shift) % 2 ^ 32 = (r + 2 ^ shift * g) % 2 ^ 32 := by
  have hpow : 2 ^ 32 = 2 ^ shift * 2 ^ (32 - shift) := by
    rw [← pow_add, Nat.add_sub_cancel' (by omega)]
  -- the bits of the group that stay
  have hgroup : (g <<< shift) % 2 ^ 32 = (g % 2 ^ (32 - shift)) <<< shift := by
    rw [Nat.shiftLeft_eq, Nat.shiftLeft_eq, Nat.mul_comm g, Nat.mul_comm (g % _), hpow,
      Nat.mul_mod_mul_left]
  have hfit : r + 2 ^ shift * (g % 2 ^ (32 - shift)) < 2 ^ 32 := by
    have hmod : g % 2 ^ (32 - shift) + 1 ≤ 2 ^ (32 - shift) := Nat.mod_lt _ (Nat.two_pow_pos _)
    calc r + 2 ^ shift * (g % 2 ^ (32 - shift))
        < 2 ^ shift * (g % 2 ^ (32 - shift) + 1) := by
          rw [Nat.mul_succ]
          omega
      _ ≤ 2 ^ shift * 2 ^ (32 - shift) := Nat.mul_le_mul_left _ hmod
      _ = 2 ^ 32 := hpow.symm
  have hsplit : r + 2 ^ shift * g =
      r + 2 ^ shift * (g % 2 ^ (32 - shift)) + 2 ^ 32 * (g / 2 ^ (32 - shift)) := by
    rw [hpow, Nat.mul_assoc, Nat.add_assoc, ← Nat.mul_add, Nat.mod_add_div]
  rw [hgroup, lor_group hr, hsplit, Nat.add_mul_mod_self_left, Nat.mod_eq_of_lt hfit]

/-- The groups that are read so far make up `r`. -/
theorem readLeb128U32From_of_drop {n r shift : ℕ} (hbs : Encoded bs)
    (h : bytes.drop offset = bs ++ tail) (hn : bs.length ≤ n) (hr : r < 2 ^ shift)
    (hshift : shift + 7 * bs.length ≤ 35) :
    readLeb128U32From bytes n r shift offset =
      some ((r + 2 ^ shift * value bs) % 2 ^ 32, offset + bs.length) := by
  induction bs generalizing n r shift offset with
  | nil => exact absurd rfl hbs.ne_nil
  | cons b bs ih =>
    obtain ⟨m, rfl⟩ := Nat.exists_eq_succ_of_ne_zero (Nat.ne_of_gt (Nat.lt_of_lt_of_le
      (Nat.succ_pos _) hn))
    rw [List.length_cons] at hshift hn
    -- the first group is added below the others
    have hsplit : r + 2 ^ shift * value (b :: bs) =
        r + 2 ^ shift * (b.toNat % 128) + 2 ^ (shift + 7) * value bs := by
      rw [value, pow_add]
      ring
    rw [readLeb128U32From, getElem?_of_drop_cons h]
    simp only [lor_group_mod hr (by omega), toNat_and_0x7F, and_0x80_eq_zero_iff]
    by_cases hb : b < 128
    · -- the last byte
      obtain rfl := (encoded_cons_of_lt hb).mp hbs
      rw [if_pos hb, hsplit]
      rfl
    · have hbs' := (encoded_cons_of_not_lt hb).mp hbs
      have hpos := hbs'.length_pos
      have hr' : r + 2 ^ shift * (b.toNat % 128) < 2 ^ (shift + 7) := by
        have hmod : b.toNat % 128 + 1 ≤ 128 := Nat.mod_lt _ (by decide)
        calc r + 2 ^ shift * (b.toNat % 128) < 2 ^ shift * (b.toNat % 128 + 1) := by
              rw [Nat.mul_succ]
              omega
          _ ≤ 2 ^ shift * 128 := Nat.mul_le_mul_left _ hmod
          _ = 2 ^ (shift + 7) := (pow_add 2 shift 7).symm
      have hpow : 2 ^ (shift + 7) ≤ 2 ^ 32 := Nat.pow_le_pow_right (by decide) (by omega)
      rw [if_neg hb, if_neg (by omega), Nat.mod_eq_of_lt (Nat.lt_of_lt_of_le hr' hpow),
        ih hbs' (drop_succ_of_drop_cons h) (by omega) hr' (by omega), ← hsplit, List.length_cons,
        Nat.add_assoc, Nat.add_comm 1]

/-- Where something is read, an encoding is ahead. -/
theorem exists_encoded_of_readLeb128U32From {n r shift v e : ℕ}
    (h : readLeb128U32From bytes n r shift offset = some (v, e)) :
    ∃ bs, Encoded bs ∧ bs.length ≤ n ∧ bs <+: bytes.drop offset := by
  induction n generalizing r shift offset with
  | zero => cases h
  | succ n ih =>
    rw [readLeb128U32From] at h
    split at h
    · cases h
    · rename_i b hget
      have hdrop : bytes.drop offset = b :: bytes.drop (offset + 1) := by
        obtain ⟨hlt, rfl⟩ := List.getElem?_eq_some_iff.mp hget
        exact List.drop_eq_getElem_cons hlt
      simp only [and_0x80_eq_zero_iff] at h
      by_cases hb : b < 128
      · refine ⟨[b], (encoded_cons_of_lt hb).mpr rfl, by simp, ?_⟩
        rw [hdrop]
        exact List.prefix_append [b] _
      · rw [if_neg hb] at h
        split at h
        · cases h
        · obtain ⟨bs, hbs, hlen, hpre⟩ := ih h
          refine ⟨b :: bs, (encoded_cons_of_not_lt hb).mpr hbs, Nat.succ_le_succ hlen, ?_⟩
          rw [hdrop, List.cons_prefix_cons]
          exact ⟨rfl, hpre⟩

/-- An encoding of at most five bytes is read, modulo `2 ^ 32`. -/
theorem readLeb128U32_of_starts (hbs : Encoded bs) (hlen : bs.length ≤ 5)
    (h : bs <+: bytes.drop offset) :
    readLeb128U32 bytes offset = some (value bs % 2 ^ 32, bs.length) := by
  obtain ⟨tail, h⟩ := h
  rw [readLeb128U32, readLeb128U32From_of_drop hbs h.symm hlen Nat.one_pos (by omega)]
  simp only [Option.map_some, Nat.pow_zero, Nat.one_mul, Nat.zero_add, Nat.add_sub_cancel_left]

/-- What is read is the value of an encoding, modulo `2 ^ 32`. -/
theorem readLeb128U32_eq_some_iff {v n : ℕ} :
    readLeb128U32 bytes offset = some (v, n) ↔
      ∃ bs, Encoded bs ∧ bs.length ≤ 5 ∧ bs <+: bytes.drop offset ∧ value bs % 2 ^ 32 = v ∧
        bs.length = n := by
  constructor
  · intro h
    obtain ⟨p, hp, -⟩ := Option.map_eq_some_iff.mp h
    obtain ⟨bs, hbs, hlen, hpre⟩ := exists_encoded_of_readLeb128U32From hp
    rw [readLeb128U32_of_starts hbs hlen hpre, Option.some.injEq, Prod.mk.injEq] at h
    exact ⟨bs, hbs, hlen, hpre, h⟩
  · rintro ⟨bs, hbs, hlen, hpre, rfl, rfl⟩
    exact readLeb128U32_of_starts hbs hlen hpre

/-- An integer of 32 bits is read exactly. -/
theorem readLeb128U32_of_drop (u : Unsigned 32) (h : bytes.drop offset = u.bytes ++ tail) :
    readLeb128U32 bytes offset = some (u.toNat, u.bytes.length) := by
  have hlen := u.length_lt
  rw [readLeb128U32_of_starts u.encoded (by omega) ⟨tail, h.symm⟩, Nat.mod_eq_of_lt u.value_lt,
    Unsigned.toNat]

/-- What is read are the integers of 32 bits and their lengths, and nothing else. -/
def Exact (bytes : List UInt8) (offset : ℕ) : Prop :=
  ∀ v n, readLeb128U32 bytes offset = some (v, n) ↔
    ∃ u : Unsigned 32, u.bytes <+: bytes.drop offset ∧ u.toNat = v ∧ u.bytes.length = n

/-- The fifth byte of an integer carries no bits beyond the 32. -/
def LastFits (bytes : List UInt8) (offset : ℕ) : Prop :=
  ∀ a b c d e : UInt8, [a, b, c, d, e] <+: bytes.drop offset →
    128 ≤ a → 128 ≤ b → 128 ≤ c → 128 ≤ d → e < 128 → e < 16

/-- Five bytes that are one encoding: the fifth is the only one without the high bit. -/
theorem encoded_five_iff {a b c d e : UInt8} :
    Encoded [a, b, c, d, e] ↔ 128 ≤ a ∧ 128 ≤ b ∧ 128 ≤ c ∧ 128 ≤ d ∧ e < 128 := by
  simp only [Encoded, ← UInt8.not_lt]
  split_ifs <;> simp [*]

theorem value_five_lt_iff {a b c d e : UInt8} (he : e < 128) :
    value [a, b, c, d, e] < 2 ^ 32 ↔ e < 16 := by
  have he' : e.toNat < 128 := UInt8.lt_iff_toNat_lt.mp he
  have hlt : e < 16 ↔ e.toNat < 16 := UInt8.lt_iff_toNat_lt
  simp only [value, hlt]
  omega

/-- The integer at an offset is of 32 bits, whatever it is. -/
theorem lastFits_iff :
    LastFits bytes offset ↔
      ∀ bs, Encoded bs → bs.length ≤ 5 → bs <+: bytes.drop offset → value bs < 2 ^ 32 := by
  constructor
  · intro hfits bs hbs hlen hpre
    rcases Nat.lt_or_ge bs.length 5 with hlt | hge
    · -- four groups have 28 bits
      calc value bs < 128 ^ bs.length := value_lt bs
        _ ≤ 128 ^ 4 := Nat.pow_le_pow_right (by decide) (by omega)
        _ ≤ 2 ^ 32 := by decide
    · obtain ⟨a, b, c, d, e, rfl⟩ : ∃ a b c d e, bs = [a, b, c, d, e] := by
        match bs, Nat.le_antisymm hlen hge with
        | [a, b, c, d, e], _ => exact ⟨a, b, c, d, e, rfl⟩
      obtain ⟨ha, hb, hc, hd, he⟩ := encoded_five_iff.mp hbs
      exact (value_five_lt_iff he).mpr (hfits a b c d e hpre ha hb hc hd he)
  · intro h a b c d e hpre ha hb hc hd he
    exact (value_five_lt_iff he).mp
      (h _ (encoded_five_iff.mpr ⟨ha, hb, hc, hd, he⟩) (Nat.le_refl 5) hpre)

theorem lastFits_of_exact (h : Exact bytes offset) : LastFits bytes offset := by
  rw [lastFits_iff]
  -- an encoding is read, so that it is the one of an integer of 32 bits
  intro bs hbs hlen hpre
  obtain ⟨u, hu, -⟩ := (h _ _).mp (readLeb128U32_of_starts hbs hlen hpre)
  rw [hbs.eq_of_prefix u.encoded hpre hu]
  exact u.value_lt

/-- **The integers that are read are those of 32 bits just where the fifth byte fits.** -/
theorem exact_iff (bytes : List UInt8) (offset : ℕ) :
    Exact bytes offset ↔ LastFits bytes offset := by
  refine ⟨lastFits_of_exact, fun hfits v n => ?_⟩
  rw [lastFits_iff] at hfits
  rw [readLeb128U32_eq_some_iff]
  constructor
  · rintro ⟨bs, hbs, hlen, hpre, rfl, rfl⟩
    have hlt := hfits bs hbs hlen hpre
    exact ⟨⟨bs, hbs, by omega, hlt⟩, hpre, (Nat.mod_eq_of_lt hlt).symm, rfl⟩
  · rintro ⟨u, hpre, rfl, rfl⟩
    have hlen := u.length_lt
    exact ⟨u.bytes, u.encoded, by omega, hpre, Nat.mod_eq_of_lt u.value_lt, rfl⟩

/-- The fifth byte of `2 ^ 32` carries a bit beyond the 32, and zero is read. -/
theorem not_exact_two_pow : ¬Exact [0x80, 0x80, 0x80, 0x80, 0x10] 0 := by
  intro h
  exact absurd (lastFits_of_exact h 0x80 0x80 0x80 0x80 0x10 (List.prefix_refl _) (by decide)
    (by decide) (by decide) (by decide) (by decide)) (by decide)

end Core.SorobanMeta
