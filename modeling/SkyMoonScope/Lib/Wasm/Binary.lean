import Mathlib.Tactic.SplitIfs
import SkyMoonScope.Lib.Leb128

/-!
# The binary format of WebAssembly function bodies

The instructions of the core language with sign extension, saturating conversions, bulk memory,
reference types and vectors. Control instructions are explicit; any other instruction is its opcode
with immediates, the forms of which are given by its opcode. Structured code is a tree, written as
a sequence of tokens.

## Main definitions

* `Form`, `Opcode.forms`: the forms of immediates, and those after each opcode
* `Plain`, `Instr`: instructions without control flow, and instructions that are no blocks
* `Code`, `Code.tokens`: structured code, and the tokens it is written in
* `placed`: where the tokens of a sequence are
* `Func`: function bodies

## Main results

* `Plain.length_immediates_pos`: where there are immediates, they take up space
* `placed_append`: sequences are placed one behind the other
-/

namespace Wasm.Binary

open Leb128

abbrev U32 := Unsigned 32

theorem ofNat_mod_lt (n : ℕ) : UInt8.ofNat (n % 128) < 128 := by
  have hlt : n % 128 < 128 := Nat.mod_lt n (by decide)
  rw [UInt8.lt_iff_toNat_lt, UInt8.toNat_ofNat_of_lt' (hlt.trans (by decide))]
  exact hlt

/-- The lowest seven bits of an integer take one byte. -/
def U32.ofBits (n : ℕ) : U32 where
  bytes := [.ofNat (n % 128)]
  encoded := (encoded_cons_of_lt (ofNat_mod_lt n)).mpr rfl
  length_lt := show 7 * 1 < 32 + 7 by decide
  value_lt := Nat.lt_of_lt_of_le (Leb128.value_lt [_]) (show 128 ^ 1 ≤ 2 ^ 32 by decide)

/-! ## Immediates -/

/-- The value types: numbers, vectors and references. -/
def valTypes : List UInt8 := [0x7F, 0x7E, 0x7D, 0x7C, 0x7B, 0x70, 0x6F]

def refTypes : List UInt8 := [0x70, 0x6F]

/-- The forms of immediates: indices, alignments and offsets; the one memory; signed constants; raw
bytes; a reference type; and vectors of value types. -/
inductive Form
  | u32
  | memory
  | signed (w : ℕ)
  | bytes (n : ℕ)
  | refType
  | valTypes
deriving DecidableEq

/-- The encodings of a form. -/
def Form.Accepts : Form → List UInt8 → Prop
  | u32, bs => ∃ n : U32, bs = n.bytes
  | memory, bs => bs = [0x00]
  | signed w, bs => ∃ n : Signed w, bs = n.bytes
  | bytes n, bs => bs.length = n
  | refType, bs => ∃ t ∈ refTypes, bs = [t]
  | valTypes, bs => ∃ (n : U32) (ts : List UInt8), n.toNat = ts.length ∧
      (∀ t ∈ ts, t ∈ Binary.valTypes) ∧ bs = n.bytes ++ ts

theorem Form.Accepts.length_pos {f : Form} {bs : List UInt8} (h : f.Accepts bs)
    (hf : f ≠ .bytes 0) : 0 < bs.length := by
  cases f with
  | u32 => obtain ⟨n, rfl⟩ := h; exact n.encoded.length_pos
  | memory => rw [show bs = [0x00] from h]; exact Nat.one_pos
  | signed w => obtain ⟨n, rfl⟩ := h; exact n.encoded.length_pos
  | bytes n =>
    have hn : bs.length = n := h
    exact Nat.pos_of_ne_zero fun h0 => hf (by rw [← hn, h0])
  | refType => obtain ⟨t, -, rfl⟩ := h; exact Nat.one_pos
  | valTypes =>
    obtain ⟨n, ts, -, -, rfl⟩ := h
    rw [List.length_append]
    exact Nat.add_pos_left n.encoded.length_pos _

/-! ## Opcodes -/

/-- The opcodes of one byte, control instructions apart, and the forms of their immediates. -/
def coreForms (b : UInt8) : Option (List Form) :=
  -- `unreachable`, `nop`
  if b ≤ 0x01 then some []
  -- `call`, `call_indirect`
  else if b = 0x10 then some [.u32]
  else if b = 0x11 then some [.u32, .u32]
  -- `drop`, `select`, and `select` with its types
  else if b = 0x1A ∨ b = 0x1B then some []
  else if b = 0x1C then some [.valTypes]
  -- `local.get` to `global.set`, `table.get`, `table.set`
  else if 0x20 ≤ b ∧ b ≤ 0x26 then some [.u32]
  -- loads and stores
  else if 0x28 ≤ b ∧ b ≤ 0x3E then some [.u32, .u32]
  -- `memory.size`, `memory.grow`
  else if b = 0x3F ∨ b = 0x40 then some [.memory]
  -- constants
  else if b = 0x41 then some [.signed 32]
  else if b = 0x42 then some [.signed 64]
  else if b = 0x43 then some [.bytes 4]
  else if b = 0x44 then some [.bytes 8]
  -- comparisons, arithmetic and conversions, with sign extension
  else if 0x45 ≤ b ∧ b ≤ 0xC4 then some []
  -- `ref.null`, `ref.is_null`, `ref.func`
  else if b = 0xD0 then some [.refType]
  else if b = 0xD1 then some []
  else if b = 0xD2 then some [.u32]
  else none

/-- The opcodes after `0xFC`. -/
def miscForms (n : ℕ) : Option (List Form) :=
  -- saturating conversions
  if n ≤ 7 then some []
  -- `memory.init`, `data.drop`, `memory.copy`, `memory.fill`
  else if n = 8 then some [.u32, .memory]
  else if n = 9 then some [.u32]
  else if n = 10 then some [.memory, .memory]
  else if n = 11 then some [.memory]
  -- `table.init`, `elem.drop`, `table.copy`, `table.grow`, `table.size`, `table.fill`
  else if n = 12 then some [.u32, .u32]
  else if n = 13 then some [.u32]
  else if n = 14 then some [.u32, .u32]
  else if 15 ≤ n ∧ n ≤ 17 then some [.u32]
  else none

/-- The numbers below 256 that are no vector instruction. -/
def reservedSimd : List ℕ :=
  [154, 162, 165, 166, 175, 176, 178, 179, 180, 187, 194, 197, 198, 207, 208, 210, 211, 212, 226,
    238]

/-- The opcodes after `0xFD`. -/
def simdForms (n : ℕ) : Option (List Form) :=
  -- `v128.load` to `v128.store`, `v128.load32_zero`, `v128.load64_zero`
  if n ≤ 11 ∨ n = 92 ∨ n = 93 then some [.u32, .u32]
  -- `v128.const`, `i8x16.shuffle`
  else if n = 12 ∨ n = 13 then some [.bytes 16]
  -- extracting and replacing a lane
  else if 21 ≤ n ∧ n ≤ 34 then some [.bytes 1]
  -- loading and storing a lane
  else if 84 ≤ n ∧ n ≤ 91 then some [.u32, .u32, .bytes 1]
  else if n ≤ 255 ∧ n ∉ reservedSimd then some []
  else none

/-- Opcodes, control instructions apart. -/
inductive Opcode
  | core (b : UInt8)
  | misc (n : U32)
  | simd (n : U32)

namespace Opcode

/-- The first byte; the numbers of other than core instructions come after it. -/
def first : Opcode → UInt8
  | core b => b
  | misc _ => 0xFC
  | simd _ => 0xFD

def sub : Opcode → List UInt8
  | core _ => []
  | misc n => n.bytes
  | simd n => n.bytes

/-- The forms of the immediates, where the opcode is defined. -/
def forms : Opcode → Option (List Form)
  | core b => coreForms b
  | misc n => miscForms n.toNat
  | simd n => simdForms n.toNat

/-- No immediate is empty. -/
theorem ne_bytes_zero {o : Opcode} {fs : List Form} (h : o.forms = some fs) :
    ∀ f ∈ fs, f ≠ .bytes 0 := by
  have hall : o.forms.all (fun fs => fs.all (· ≠ .bytes 0)) = true := by
    cases o with
    | core b =>
      exact UInt8.forall_of_fin (p := fun b => (coreForms b).all (fun fs => fs.all (· ≠ .bytes 0)))
        (by decide +kernel) b
    | misc n => simp only [forms, miscForms]; split_ifs <;> rfl
    | simd n => simp only [forms, simdForms]; split_ifs <;> rfl
  simpa [h] using hall

end Opcode

/-! ## Instructions -/

/-- An instruction without control flow: a defined opcode, with the immediates it asks for. -/
structure Plain where
  opcode : Opcode
  immediates : List (List UInt8)
  wellFormed : ∃ fs, opcode.forms = some fs ∧ List.Forall₂ Form.Accepts fs immediates

namespace Plain

def bytes (p : Plain) : List UInt8 := p.opcode.first :: (p.opcode.sub ++ p.immediates.flatten)

/-- Where there are immediates, they take up space. -/
theorem length_immediates_pos {p : Plain} {f : Form} {fs : List Form}
    (h : p.opcode.forms = some (f :: fs)) : 0 < p.immediates.flatten.length := by
  obtain ⟨gs, hgs, hacc⟩ := p.wellFormed
  obtain rfl : f :: fs = gs := Option.some.inj (h.symm.trans hgs)
  obtain ⟨bs, bss, hf, -, hp⟩ := List.forall₂_cons_left_iff.mp hacc
  have hne := Opcode.ne_bytes_zero h f List.mem_cons_self
  rw [hp, List.flatten_cons, List.length_append]
  exact Nat.add_pos_left (hf.length_pos hne) _

end Plain

/-- Block types: no result, one result, or the index of a function type. -/
structure BlockType where
  bytes : List UInt8
  wellFormed : bytes = [0x40] ∨ (∃ t ∈ valTypes, bytes = [t]) ∨
    ∃ n : Signed 33, 0 ≤ signedValue n.bytes ∧ bytes = n.bytes

/-- All block types are signed integers. -/
theorem BlockType.encoded (bt : BlockType) : Encoded bt.bytes := by
  rcases bt.wellFormed with h | ⟨t, ht, h⟩ | ⟨n, -, h⟩
  · rw [h]; decide
  · have hall : valTypes.all (fun t => decide (t < 128)) = true := rfl
    have hlt : t < 128 := of_decide_eq_true (List.all_eq_true.mp hall t ht)
    exact h ▸ (encoded_cons_of_lt hlt).mpr rfl
  · exact h ▸ n.encoded

/-- The labels of a `br_table`: a vector, and a default. -/
structure Table where
  count : U32
  labels : List U32
  default : U32
  count_eq : count.toNat = labels.length

def Table.targets (t : Table) : List U32 := t.labels ++ [t.default]

theorem Table.length_targets (t : Table) : t.targets.length = t.count.toNat + 1 := by
  rw [targets, List.length_append, t.count_eq, List.length_singleton]

/-- The instructions that are no blocks. -/
inductive Instr
  | plain (p : Plain)
  | br (l : U32)
  | brIf (l : U32)
  | brTable (t : Table)
  | ret

def Instr.bytes : Instr → List UInt8
  | plain p => p.bytes
  | br l => 0x0C :: l.bytes
  | brIf l => 0x0D :: l.bytes
  | brTable t => 0x0E :: (t.count.bytes ++ t.targets.flatMap (·.bytes))
  | ret => [0x0F]

/-! ## Tokens -/

/-- What structured code is written in. -/
inductive Token
  | blockOp (bt : BlockType)
  | loopOp (bt : BlockType)
  | ifOp (bt : BlockType)
  | elseOp
  | endOp
  | instr (i : Instr)

namespace Token

def bytes : Token → List UInt8
  | blockOp bt => 0x02 :: bt.bytes
  | loopOp bt => 0x03 :: bt.bytes
  | ifOp bt => 0x04 :: bt.bytes
  | elseOp => [0x05]
  | endOp => [0x0B]
  | instr i => i.bytes

theorem length_bytes_pos (t : Token) : 0 < t.bytes.length := by
  cases t with
  | instr i =>
    cases i with
    | plain p => exact Nat.succ_pos _
    | br l => exact Nat.succ_pos _
    | brIf l => exact Nat.succ_pos _
    | brTable t => exact Nat.succ_pos _
    | ret => exact Nat.one_pos
  | blockOp bt => exact Nat.succ_pos _
  | loopOp bt => exact Nat.succ_pos _
  | ifOp bt => exact Nat.succ_pos _
  | elseOp => exact Nat.one_pos
  | endOp => exact Nat.one_pos

@[simp] def isLoop : Token → Bool
  | loopOp _ => true
  | _ => false

@[simp] def isIf : Token → Bool
  | ifOp _ => true
  | _ => false

@[simp] def isBrIf : Token → Bool
  | instr (.brIf _) => true
  | _ => false

@[simp] def isBrTable : Token → Bool
  | instr (.brTable _) => true
  | _ => false

@[simp] def isReturn : Token → Bool
  | instr .ret => true
  | _ => false

/-- The opcode of an instruction without control flow. -/
def opcode? : Token → Option Opcode
  | instr (.plain p) => some p.opcode
  | _ => none

end Token

def bytesOf (ts : List Token) : List UInt8 := ts.flatMap Token.bytes

@[simp] theorem bytesOf_nil : bytesOf [] = [] := rfl

@[simp] theorem bytesOf_cons (t : Token) (ts : List Token) :
    bytesOf (t :: ts) = t.bytes ++ bytesOf ts := rfl

@[simp] theorem bytesOf_append (ts us : List Token) :
    bytesOf (ts ++ us) = bytesOf ts ++ bytesOf us := List.flatMap_append

/-- Tokens with their offsets, when the first is at the given one. -/
def placed (o : ℕ) : List Token → List (ℕ × Token)
  | [] => []
  | t :: ts => (o, t) :: placed (o + t.bytes.length) ts

/-- Sequences are placed one behind the other. -/
theorem placed_append (o : ℕ) (ts us : List Token) :
    placed o (ts ++ us) = placed o ts ++ placed (o + (bytesOf ts).length) us := by
  induction ts generalizing o with
  | nil => rfl
  | cons t ts ih =>
    simp only [List.cons_append, placed, ih, bytesOf_cons, List.length_append, Nat.add_assoc]

/-! ## Structured code -/

/-- Structured code; what follows an instruction is part of the tree. -/
inductive Code
  | done
  | instr (i : Instr) (rest : Code)
  | block (bt : BlockType) (body rest : Code)
  | loop (bt : BlockType) (body rest : Code)
  | ifThen (bt : BlockType) (thenArm rest : Code)
  | ifElse (bt : BlockType) (thenArm elseArm rest : Code)

namespace Code

def tokens : Code → List Token
  | done => []
  | instr i rest => .instr i :: rest.tokens
  | block bt body rest => .blockOp bt :: (body.tokens ++ .endOp :: rest.tokens)
  | loop bt body rest => .loopOp bt :: (body.tokens ++ .endOp :: rest.tokens)
  | ifThen bt thenArm rest => .ifOp bt :: (thenArm.tokens ++ .endOp :: rest.tokens)
  | ifElse bt thenArm elseArm rest =>
    .ifOp bt :: (thenArm.tokens ++ .elseOp :: (elseArm.tokens ++ .endOp :: rest.tokens))

/-- How often tokens of a kind occur. -/
def count (kind : Token → Bool) (c : Code) : ℕ := c.tokens.countP kind

@[simp] theorem count_done (kind : Token → Bool) : done.count kind = 0 := rfl

@[simp] theorem count_instr (kind : Token → Bool) (i : Instr) (rest : Code) :
    (instr i rest).count kind = rest.count kind + (kind (.instr i)).toNat := by
  rw [count, tokens, List.countP_cons, count]
  cases kind (.instr i) <;> rfl

theorem countP_enclosed (kind : Token → Bool) (ts us : List Token) (t u : Token) :
    (t :: (ts ++ u :: us)).countP kind =
      (kind t).toNat + ts.countP kind + (kind u).toNat + us.countP kind := by
  rw [List.countP_cons, List.countP_append, List.countP_cons]
  cases kind t <;> cases kind u <;> simp only [Bool.toNat_true, Bool.toNat_false, if_true,
    Bool.false_eq_true, if_false] <;> omega

@[simp] theorem count_block (kind : Token → Bool) (bt : BlockType) (body rest : Code) :
    (block bt body rest).count kind = (kind (.blockOp bt)).toNat + body.count kind +
      (kind .endOp).toNat + rest.count kind := countP_enclosed kind _ _ _ _

@[simp] theorem count_loop (kind : Token → Bool) (bt : BlockType) (body rest : Code) :
    (loop bt body rest).count kind = (kind (.loopOp bt)).toNat + body.count kind +
      (kind .endOp).toNat + rest.count kind := countP_enclosed kind _ _ _ _

@[simp] theorem count_ifThen (kind : Token → Bool) (bt : BlockType) (thenArm rest : Code) :
    (ifThen bt thenArm rest).count kind = (kind (.ifOp bt)).toNat + thenArm.count kind +
      (kind .endOp).toNat + rest.count kind := countP_enclosed kind _ _ _ _

@[simp] theorem count_ifElse (kind : Token → Bool) (bt : BlockType)
    (thenArm elseArm rest : Code) : (ifElse bt thenArm elseArm rest).count kind =
      (kind (.ifOp bt)).toNat + thenArm.count kind + (kind .elseOp).toNat +
        (elseArm.count kind + (kind .endOp).toNat + rest.count kind) := by
  rw [count, tokens, countP_enclosed, List.countP_append, List.countP_cons, count, count, count]
  cases kind .endOp <;> simp only [Bool.toNat_true, Bool.toNat_false, if_true, Bool.false_eq_true,
    if_false] <;> omega

/-- The `return` instructions inside of a block. -/
@[simp] def nestedReturns : Code → ℕ
  | done => 0
  | instr _ rest => rest.nestedReturns
  | block _ body rest => body.count Token.isReturn + rest.nestedReturns
  | loop _ body rest => body.count Token.isReturn + rest.nestedReturns
  | ifThen _ thenArm rest => thenArm.count Token.isReturn + rest.nestedReturns
  | ifElse _ thenArm elseArm rest =>
    thenArm.count Token.isReturn + elseArm.count Token.isReturn + rest.nestedReturns

end Code

/-! ## Function bodies -/

/-- A group of locals of one type. -/
structure LocalGroup where
  count : U32
  valType : UInt8
  valid : valType ∈ valTypes

def LocalGroup.bytes (g : LocalGroup) : List UInt8 := g.count.bytes ++ [g.valType]

/-- A function body: groups of locals, and code with a final `end`. Its size is an integer of 32
bits. -/
structure Func where
  groups : U32
  locals : List LocalGroup
  code : Code
  groups_eq : groups.toNat = locals.length
  size_lt : (groups.bytes ++ locals.flatMap (·.bytes) ++ bytesOf (code.tokens ++ [.endOp])).length <
    2 ^ 32

namespace Func

def header (f : Func) : List UInt8 := f.groups.bytes ++ f.locals.flatMap (·.bytes)

def tokens (f : Func) : List Token := f.code.tokens ++ [.endOp]

def bytes (f : Func) : List UInt8 := f.header ++ bytesOf f.tokens

/-- The opcodes of the instructions without control flow. -/
def opcodes (f : Func) : List Opcode := f.tokens.filterMap Token.opcode?

/-- The tokens with their offsets in the body. -/
def placedTokens (f : Func) : List (ℕ × Token) := placed f.header.length f.tokens

/-- A body without locals. -/
def ofCode (code : Code) (h : (bytesOf (code.tokens ++ [.endOp])).length < 1000) : Func where
  groups := .ofBits 0
  locals := []
  code := code
  groups_eq := rfl
  size_lt := by
    rw [List.flatMap_nil, List.append_nil, List.length_append]
    exact Nat.lt_trans (Nat.add_lt_add_left h 1) (by decide)

end Func

end Wasm.Binary
