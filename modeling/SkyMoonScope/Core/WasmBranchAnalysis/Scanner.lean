import Mathlib.Tactic.SplitIfs
import SkyMoonScope.Lib.Leb128
import SkyMoonScope.Lib.Rounds

/-!
# The scanner of the branch analysis

A cursor over the bytes of a function body, and what the two passes of the analysis share: they skip
the locals, and then go from opcode to opcode for as long as there are bytes.

## Main definitions

* `Scanner`: the cursor, with `readByte`, `readLeb128U32`, `skip` and `skipLeb128`
* `skipInstructionImmediates`: the immediates of an instruction without control flow
* `Pass`, `Pass.run`, `Pass.rounds`: a pass over a body, and the states at which it reads an opcode

## Main results

* `Scanner.skipLeb128_of_rest`, `Scanner.readLeb128U32_of_rest`: an encoding is read exactly
* `Scanner.remaining_skipLeb128_le`, …: the cursor never goes back
-/

namespace Core.WasmBranchAnalysis

open Leb128

/-- A cursor over a byte string. -/
structure Scanner where
  data : List UInt8
  pos : ℕ

namespace Scanner

def new (data : List UInt8) : Scanner := ⟨data, 0⟩

def remaining (s : Scanner) : ℕ := s.data.length - s.pos

def readByte (s : Scanner) : Option UInt8 × Scanner :=
  match s.data[s.pos]? with
  | none => (none, s)
  | some b => (some b, { s with pos := s.pos + 1 })

/-- The loop of `readLeb128U64`; after ten rounds `shift` is 70, and it gives up. -/
def readLeb128U64From : ℕ → ℕ → ℕ → Scanner → Option ℕ × Scanner
  | 0, _, _, s => (none, s)
  | rounds + 1, result, shift, s =>
    match s.readByte with
    | (none, s) => (none, s)
    | (some byte, s) =>
      let result := result ||| ((byte &&& 0x7F).toNat <<< shift) % 2 ^ 64
      if byte &&& 0x80 = 0 then (some result, s)
      else if 70 ≤ shift + 7 then (none, s)
      else readLeb128U64From rounds result (shift + 7) s

def readLeb128U64 (s : Scanner) : Option ℕ × Scanner := s.readLeb128U64From 10 0 0

def readLeb128U32 (s : Scanner) : Option ℕ × Scanner :=
  let (v, s) := s.readLeb128U64
  (v.map (· % 2 ^ 32), s)

def skip (n : ℕ) (s : Scanner) : Scanner := { s with pos := min (s.pos + n) s.data.length }

/-- The loop of `skipLeb128`; every round reads a byte. -/
def skipLeb128From : ℕ → Scanner → Scanner
  | 0, s => s
  | rounds + 1, s =>
    match s.readByte with
    | (some b, s) => if b &&& 0x80 ≠ 0 then skipLeb128From rounds s else s
    | (none, s) => s

def skipLeb128 (s : Scanner) : Scanner := s.skipLeb128From s.remaining

/-! ## Reading what is ahead -/

/-- The bytes ahead. -/
def rest (s : Scanner) : List UInt8 := s.data.drop s.pos

/-- The cursor, moved over some bytes that are ahead. -/
def advance (n : ℕ) (s : Scanner) : Scanner := { s with pos := s.pos + n }

variable {s : Scanner} {b : UInt8} {bs tail : List UInt8}

@[simp] theorem rest_new (data : List UInt8) : (new data).rest = data := rfl

@[simp] theorem pos_new (data : List UInt8) : (new data).pos = 0 := rfl

@[simp] theorem pos_advance (n : ℕ) (s : Scanner) : (s.advance n).pos = s.pos + n := rfl

@[simp] theorem advance_zero (s : Scanner) : s.advance 0 = s := rfl

@[simp] theorem advance_advance (m n : ℕ) (s : Scanner) :
    (s.advance m).advance n = s.advance (m + n) := by
  simp only [advance, Nat.add_assoc]

theorem remaining_eq (s : Scanner) : s.remaining = s.rest.length := by
  rw [remaining, rest, List.length_drop]

theorem remaining_advance (n : ℕ) (s : Scanner) : (s.advance n).remaining = s.remaining - n :=
  Nat.sub_add_eq _ _ _

theorem rest_advance (h : s.rest = bs ++ tail) : (s.advance bs.length).rest = tail := by
  rw [rest, advance, ← List.drop_drop, ← rest, h, List.drop_left]

theorem rest_advance_one (h : s.rest = b :: tail) : (s.advance 1).rest = tail := by
  have h' : s.rest = [b] ++ tail := h
  exact rest_advance h'

theorem readByte_of_rest (h : s.rest = b :: tail) : s.readByte = (some b, s.advance 1) := by
  have hget : s.data[s.pos]? = some b := by
    rw [← Nat.add_zero s.pos, ← List.getElem?_drop, ← rest, h, List.getElem?_cons_zero]
  rw [readByte, hget]
  rfl

theorem skip_of_rest (h : s.rest = bs ++ tail) (hbs : 0 < bs.length) :
    s.skip bs.length = s.advance bs.length := by
  have hle : s.data.length - s.pos = bs.length + tail.length := by
    rw [← List.length_drop, ← rest, h, List.length_append]
  rw [skip, advance, Nat.min_eq_left (by omega)]

theorem skipLeb128From_of_rest {n : ℕ} (hbs : Encoded bs) (h : s.rest = bs ++ tail)
    (hn : bs.length ≤ n) : s.skipLeb128From n = s.advance bs.length := by
  induction bs generalizing s n with
  | nil => exact absurd rfl hbs.ne_nil
  | cons b bs ih =>
    obtain ⟨m, rfl⟩ := Nat.exists_eq_succ_of_ne_zero (Nat.ne_of_gt (Nat.lt_of_lt_of_le
      (Nat.succ_pos _) hn))
    rw [skipLeb128From, readByte_of_rest h]
    simp only [ne_eq, and_0x80_eq_zero_iff]
    by_cases hb : b < 128
    · -- the last byte
      obtain rfl := (encoded_cons_of_lt hb).mp hbs
      rw [if_neg (not_not.mpr hb)]
      rfl
    · have hrest : (s.advance 1).rest = bs ++ tail := rest_advance_one h
      rw [if_pos hb, ih ((encoded_cons_of_not_lt hb).mp hbs) hrest (Nat.le_of_succ_le_succ hn),
        advance_advance, List.length_cons, Nat.add_comm]

/-- An encoding is skipped exactly. -/
theorem skipLeb128_of_rest (hbs : Encoded bs) (h : s.rest = bs ++ tail) :
    s.skipLeb128 = s.advance bs.length :=
  skipLeb128From_of_rest hbs h (by
    rw [remaining_eq, h, List.length_append]
    exact Nat.le_add_right _ _)

/-- An opcode with one integer. -/
theorem skipLeb128_advance_one (hbs : Encoded bs) (h : s.rest = b :: bs ++ tail) :
    (s.advance 1).skipLeb128 = s.advance (b :: bs).length := by
  rw [skipLeb128_of_rest hbs (rest_advance_one h), advance_advance, List.length_cons, Nat.add_comm]

/-- Several integers are skipped one by one. -/
theorem iterate_skipLeb128_of_rest (ns : List (Unsigned 32))
    (h : s.rest = ns.flatMap (·.bytes) ++ tail) :
    skipLeb128^[ns.length] s = s.advance (ns.flatMap (·.bytes)).length := by
  induction ns generalizing s with
  | nil => rfl
  | cons n ns ih =>
    rw [List.flatMap_cons, List.append_assoc] at h
    rw [List.length_cons, Function.iterate_succ_apply, skipLeb128_of_rest n.encoded h,
      ih (rest_advance h), advance_advance, List.flatMap_cons, List.length_append]

/-- The groups that are read so far make up `r`. -/
theorem readLeb128U64From_of_rest {n r shift : ℕ} (hbs : Encoded bs) (h : s.rest = bs ++ tail)
    (hn : bs.length ≤ n) (hr : r < 2 ^ shift) (hshift : shift + 7 * bs.length ≤ 70)
    (hfit : r + 2 ^ shift * value bs < 2 ^ 64) :
    s.readLeb128U64From n r shift = (some (r + 2 ^ shift * value bs), s.advance bs.length) := by
  induction bs generalizing s n r shift with
  | nil => exact absurd rfl hbs.ne_nil
  | cons b bs ih =>
    obtain ⟨m, rfl⟩ := Nat.exists_eq_succ_of_ne_zero (Nat.ne_of_gt (Nat.lt_of_lt_of_le
      (Nat.succ_pos _) hn))
    -- the first group is added below the others
    have hsplit : r + 2 ^ shift * value (b :: bs) =
        r + 2 ^ shift * (b.toNat % 128) + 2 ^ (shift + 7) * value bs := by
      rw [value, pow_add]
      ring
    -- no bit is lost, since the whole value fits
    have hgroup : r ||| ((b &&& 0x7F).toNat <<< shift) % 2 ^ 64 =
        r + 2 ^ shift * (b.toNat % 128) := by
      rw [toNat_and_0x7F, Nat.mod_eq_of_lt, lor_group hr]
      rw [Nat.shiftLeft_eq, Nat.mul_comm]
      omega
    rw [readLeb128U64From, readByte_of_rest h]
    simp only [hgroup, and_0x80_eq_zero_iff]
    by_cases hb : b < 128
    · -- the last byte
      obtain rfl := (encoded_cons_of_lt hb).mp hbs
      rw [if_pos hb, hsplit]
      rfl
    · have hbs' := (encoded_cons_of_not_lt hb).mp hbs
      have hpos := hbs'.length_pos
      rw [List.length_cons] at hshift hn
      have hr' : r + 2 ^ shift * (b.toNat % 128) < 2 ^ (shift + 7) := by
        have hmod : b.toNat % 128 + 1 ≤ 128 := Nat.mod_lt _ (by decide)
        calc r + 2 ^ shift * (b.toNat % 128) < 2 ^ shift * (b.toNat % 128 + 1) := by
              rw [Nat.mul_succ]
              omega
          _ ≤ 2 ^ shift * 128 := Nat.mul_le_mul_left _ hmod
          _ = 2 ^ (shift + 7) := (pow_add 2 shift 7).symm
      rw [if_neg hb, if_neg (by omega), ih hbs' (rest_advance_one h) (by omega) hr' (by omega)
        (by rw [← hsplit]; exact hfit), ← hsplit, advance_advance, List.length_cons,
        Nat.add_comm 1]

/-- An integer of 32 bits is read exactly. -/
theorem readLeb128U32_of_rest (n : Unsigned 32) (h : s.rest = n.bytes ++ tail) :
    s.readLeb128U32 = (some n.toNat, s.advance n.bytes.length) := by
  have hlen := n.length_lt
  have hlt := n.value_lt
  rw [readLeb128U32, readLeb128U64, readLeb128U64From_of_rest n.encoded h (by omega) Nat.one_pos
    (by omega) (by omega)]
  simp only [Option.map_some, Unsigned.toNat, Nat.pow_zero, Nat.one_mul, Nat.zero_add,
    Nat.mod_eq_of_lt hlt]

/-! ## The cursor never goes back -/

theorem remaining_readByte_le (s : Scanner) : s.readByte.2.remaining ≤ s.remaining := by
  unfold readByte remaining
  split
  · exact Nat.le_refl _
  · exact Nat.sub_le_sub_left (Nat.le_succ _) _

theorem exists_readByte (h : 0 < s.remaining) :
    ∃ b, s.readByte = (some b, s.advance 1) ∧ (s.advance 1).remaining < s.remaining := by
  rw [remaining_eq] at h
  obtain ⟨b, tail, hb⟩ := List.exists_cons_of_ne_nil (List.ne_nil_of_length_pos h)
  refine ⟨b, readByte_of_rest hb, ?_⟩
  rw [remaining_eq, remaining_eq, rest_advance_one hb, hb]
  exact Nat.lt_succ_self _

theorem remaining_skip_le (n : ℕ) (s : Scanner) : (s.skip n).remaining ≤ s.remaining := by
  have hmin : s.data.length - min (s.pos + n) s.data.length ≤ s.data.length - s.pos := by omega
  exact hmin

theorem remaining_skipLeb128From_le (n : ℕ) (s : Scanner) :
    (s.skipLeb128From n).remaining ≤ s.remaining := by
  induction n generalizing s with
  | zero => exact Nat.le_refl _
  | succ n ih =>
    have hread := s.remaining_readByte_le
    rw [skipLeb128From]
    split
    · rename_i b s' h
      rw [h] at hread
      split
      · exact Nat.le_trans (ih s') hread
      · exact hread
    · rename_i s' h
      rw [h] at hread
      exact hread

theorem remaining_skipLeb128_le (s : Scanner) : s.skipLeb128.remaining ≤ s.remaining :=
  s.remaining_skipLeb128From_le _

theorem remaining_iterate_skipLeb128_le (n : ℕ) (s : Scanner) :
    (skipLeb128^[n] s).remaining ≤ s.remaining := by
  induction n generalizing s with
  | zero => exact Nat.le_refl _
  | succ n ih => exact Nat.le_trans (ih s.skipLeb128) s.remaining_skipLeb128_le

theorem remaining_readLeb128U64From_le (n r shift : ℕ) (s : Scanner) :
    (s.readLeb128U64From n r shift).2.remaining ≤ s.remaining := by
  induction n generalizing r shift s with
  | zero => exact Nat.le_refl _
  | succ n ih =>
    have hread := s.remaining_readByte_le
    rw [readLeb128U64From]
    split
    · rename_i s' h
      rw [h] at hread
      exact hread
    · rename_i b s' h
      rw [h] at hread
      dsimp only
      split_ifs
      · exact hread
      · exact hread
      · exact Nat.le_trans (ih _ _ s') hread

theorem remaining_readLeb128U32_le (s : Scanner) : s.readLeb128U32.2.remaining ≤ s.remaining :=
  s.remaining_readLeb128U64From_le 10 0 0

theorem remaining_ite_le {p : Prop} [Decidable p] {s t : Scanner} {n : ℕ} (hs : s.remaining ≤ n)
    (ht : t.remaining ≤ n) : (if p then s else t).remaining ≤ n := by
  split
  · exact hs
  · exact ht

end Scanner

/-! ## Opcodes -/

def opBlock : UInt8 := 0x02
def opLoop : UInt8 := 0x03
def opIf : UInt8 := 0x04
def opElse : UInt8 := 0x05
def opEnd : UInt8 := 0x0B
def opBr : UInt8 := 0x0C
def opBrIf : UInt8 := 0x0D
def opBrTable : UInt8 := 0x0E
def opReturn : UInt8 := 0x0F
def opCall : UInt8 := 0x10
def opCallIndirect : UInt8 := 0x11

/-- Skips the immediates of an instruction without control flow; for any other opcode there is
nothing to do. -/
def skipInstructionImmediates (opcode : UInt8) (s : Scanner) : Scanner :=
  if opcode = opCall then s.skipLeb128
  else if opcode = opCallIndirect then s.skipLeb128.skipLeb128
  else if opcode = 0x25 ∨ opcode = 0x26 then s.skipLeb128
  else if 0x20 ≤ opcode ∧ opcode ≤ 0x24 then s.skipLeb128
  else if 0x28 ≤ opcode ∧ opcode ≤ 0x3E then s.skipLeb128.skipLeb128
  else if opcode = 0x3F ∨ opcode = 0x40 then s.skipLeb128
  else if opcode = 0x41 then s.skipLeb128
  else if opcode = 0x42 then s.skipLeb128
  else if opcode = 0x43 then s.skip 4
  else if opcode = 0x44 then s.skip 8
  else if opcode = 0xFC then
    let (sub, s) := s.readLeb128U32
    let sub := sub.getD 0
    if sub = 8 ∨ sub = 10 ∨ sub = 12 then s.skipLeb128.skipLeb128
    else if sub = 9 ∨ sub = 11 ∨ 13 ≤ sub ∧ sub ≤ 17 then s.skipLeb128
    else s
  else if opcode = 0xFD then s.skipLeb128
  else s

theorem remaining_skipInstructionImmediates_le (opcode : UInt8) (s : Scanner) :
    (skipInstructionImmediates opcode s).remaining ≤ s.remaining := by
  have hone := s.remaining_skipLeb128_le
  have htwo := Nat.le_trans s.skipLeb128.remaining_skipLeb128_le hone
  have hread := s.remaining_readLeb128U32_le
  have hone' := Nat.le_trans s.readLeb128U32.2.remaining_skipLeb128_le hread
  have htwo' := Nat.le_trans s.readLeb128U32.2.skipLeb128.remaining_skipLeb128_le hone'
  -- calls, references, variables
  refine Scanner.remaining_ite_le hone (Scanner.remaining_ite_le htwo ?_)
  refine Scanner.remaining_ite_le hone (Scanner.remaining_ite_le hone ?_)
  -- memory
  refine Scanner.remaining_ite_le htwo (Scanner.remaining_ite_le hone ?_)
  -- constants
  refine Scanner.remaining_ite_le hone (Scanner.remaining_ite_le hone ?_)
  refine Scanner.remaining_ite_le (s.remaining_skip_le 4) ?_
  refine Scanner.remaining_ite_le (s.remaining_skip_le 8) ?_
  -- prefixes
  refine Scanner.remaining_ite_le ?_ (Scanner.remaining_ite_le hone (Nat.le_refl _))
  exact Scanner.remaining_ite_le htwo' (Scanner.remaining_ite_le hone' hread)

/-! ## Passes -/

/-- Skips the local declarations: a count, and as many pairs of a count and a type. -/
def skipLocals (s : Scanner) : Scanner :=
  let (localGroups, s) := s.readLeb128U32
  (fun s => s.skipLeb128.skip 1)^[localGroups.getD 0] s

/-- A pass over the instructions of a body: what is done after an opcode. -/
structure Pass (X : Type) where
  instruction : UInt8 → Scanner → X → Scanner × X
  remaining_le : ∀ opcode s x, (instruction opcode s x).1.remaining ≤ s.remaining

theorem remaining_fst_ite_le {X : Type} {p : Prop} [Decidable p] {a b : Scanner × X} {n : ℕ}
    (ha : a.1.remaining ≤ n) (hb : b.1.remaining ≤ n) :
    (if p then a else b).1.remaining ≤ n := by
  split
  · exact ha
  · exact hb

namespace Pass

variable {X : Type} (P : Pass X)

/-- One round of the loop; it is only entered when there is a byte. -/
def round (st : Scanner × X) : Scanner × X :=
  match st.1.readByte with
  | (none, s) => (s, st.2)
  | (some opcode, s) => P.instruction opcode s st.2

/-- The loop over the instructions. -/
def loop : Loop (Scanner × X) where
  left st := st.1.remaining
  round := P.round
  left_round_lt := by
    rintro ⟨s, x⟩ h
    obtain ⟨b, hread, hlt⟩ := Scanner.exists_readByte h
    simp only [round, hread]
    exact Nat.lt_of_le_of_lt (P.remaining_le b _ x) hlt

/-- The state after a pass over a body. -/
def run (body : List UInt8) (x : X) : X := (P.loop.final (skipLocals (Scanner.new body), x)).2

/-- The states at which an opcode is read. -/
def rounds (body : List UInt8) (x : X) : List (Scanner × X) :=
  P.loop.starts (skipLocals (Scanner.new body), x)

end Pass

end Core.WasmBranchAnalysis
