import SkyMoonScope.Core.WasmBranchAnalysis.Sync

/-!
# The branches of a function body

One pass over a function body lists its branches, with their depths, and counts them by kind. The
counts are right, and the pass reads its opcodes where the instructions begin, exactly in the bodies
in which no instruction is misread.

## Main definitions

* `ScanAccumulator`, `ScanState`: what is found, and the state of the pass
* `scanInstruction`, `scanFunctionBody`: what is done at an opcode, and the pass over a body
* `InSync`: the counts are those of the body, and so are the offsets

## Main results

* `scan_follows`: the pass reads tokens
* `counted`: what a pass over structured code adds to the counts
* `inSync_iff`: the pass is right exactly in the bodies without misread instructions
-/

namespace Core.WasmBranchAnalysis

open Wasm.Binary

inductive BranchType
  | conditional
  | loop
  | branchIf
  | branchTable
  | earlyReturn

structure BranchInfo where
  branchId : ℕ
  branchType : BranchType
  nestingDepth : ℕ
  description : String

@[ext] structure BranchTypeBreakdown where
  conditionals : ℕ
  loops : ℕ
  branchIfs : ℕ
  branchTables : ℕ
  earlyReturns : ℕ

/-- One more branch of a kind. -/
def BranchTypeBreakdown.add (b : BranchTypeBreakdown) : BranchType → BranchTypeBreakdown
  | .conditional => { b with conditionals := b.conditionals + 1 }
  | .loop => { b with loops := b.loops + 1 }
  | .branchIf => { b with branchIfs := b.branchIfs + 1 }
  | .branchTable => { b with branchTables := b.branchTables + 1 }
  | .earlyReturn => { b with earlyReturns := b.earlyReturns + 1 }

structure ScanAccumulator where
  branches : List BranchInfo
  maxDepth : ℕ
  breakdown : BranchTypeBreakdown

def ScanAccumulator.default : ScanAccumulator := ⟨[], 0, ⟨0, 0, 0, 0, 0⟩⟩

/-- The state of the pass. -/
structure ScanState where
  acc : ScanAccumulator
  depth : ℕ
  branchId : ℕ

namespace ScanState

/-- At the beginning of a block. -/
def enter (x : ScanState) : ScanState :=
  { x with
    depth := x.depth + 1
    acc := { x.acc with maxDepth := max x.acc.maxDepth (x.depth + 1) } }

/-- At an `end`. -/
def leave (x : ScanState) : ScanState := { x with depth := x.depth - 1 }

/-- A branch is found. -/
def found (x : ScanState) (branchType : BranchType) (description : String) : ScanState :=
  { x with
    acc := { x.acc with
      branches := x.acc.branches ++ [⟨x.branchId, branchType, x.depth, description⟩]
      breakdown := x.acc.breakdown.add branchType }
    branchId := x.branchId + 1 }

def foundLoop (x : ScanState) : ScanState :=
  x.found .loop ("loop block at depth " ++ toString x.depth)

def foundIf (x : ScanState) : ScanState :=
  x.found .conditional ("if/else conditional at depth " ++ toString x.depth)

def foundBrIf (x : ScanState) : ScanState :=
  x.found .branchIf ("conditional jump (br_if) at depth " ++ toString x.depth)

/-- The number of targets in the text is an integer of 32 bits. -/
def foundBrTable (x : ScanState) (n : ℕ) : ScanState :=
  x.found .branchTable
    ("br_table (" ++ toString ((n + 1) % 2 ^ 32) ++ " targets) at depth " ++ toString x.depth)

/-- Only a `return` inside of a block is early. -/
def foundReturn (x : ScanState) : ScanState :=
  if 0 < x.depth then x.found .earlyReturn ("early return at depth " ++ toString x.depth) else x

end ScanState

/-- What is done after an opcode. The immediates of an instruction without control flow are skipped
as `skipInstructionImmediates` does it. -/
def scanInstruction (opcode : UInt8) (s : Scanner) (x : ScanState) : Scanner × ScanState :=
  if opcode = opBlock then (s.skipLeb128, x.enter)
  else if opcode = opLoop then (s.skipLeb128, x.enter.foundLoop)
  else if opcode = opIf then (s.skipLeb128, x.enter.foundIf)
  else if opcode = opElse then (s, x)
  else if opcode = opEnd then (s, x.leave)
  else if opcode = opBr then (s.skipLeb128, x)
  else if opcode = opBrIf then (s.skipLeb128, x.foundBrIf)
  else if opcode = opBrTable then
    let (n, s) := s.readLeb128U32
    (Scanner.skipLeb128^[n.getD 0 + 1] s, x.foundBrTable (n.getD 0))
  else if opcode = opReturn then (s, x.foundReturn)
  else (skipInstructionImmediates opcode s, x)

/-- The pass over the instructions. -/
def scan : Pass ScanState where
  instruction := scanInstruction
  remaining_le opcode s x := by
    have hone := s.remaining_skipLeb128_le
    have htable := Nat.le_trans
      (s.readLeb128U32.2.remaining_iterate_skipLeb128_le (s.readLeb128U32.1.getD 0 + 1))
      s.remaining_readLeb128U32_le
    refine remaining_fst_ite_le hone (remaining_fst_ite_le hone (remaining_fst_ite_le hone ?_))
    refine remaining_fst_ite_le (Nat.le_refl _) (remaining_fst_ite_le (Nat.le_refl _) ?_)
    refine remaining_fst_ite_le hone (remaining_fst_ite_le hone (remaining_fst_ite_le htable ?_))
    exact remaining_fst_ite_le (Nat.le_refl _) (remaining_skipInstructionImmediates_le opcode s)

def ScanState.start : ScanState := ⟨.default, 0, 0⟩

def scanFunctionBody (body : List UInt8) : ScanAccumulator := (scan.run body .start).acc

/-- The offsets at which opcodes are read. -/
def opcodePositions (body : List UInt8) : List ℕ :=
  (scan.rounds body .start).map fun st => st.1.pos

/-! ## Tokens -/

/-- What a token does to the state. -/
def ScanState.token (x : ScanState) : Token → ScanState
  | .blockOp _ => x.enter
  | .loopOp _ => x.enter.foundLoop
  | .ifOp _ => x.enter.foundIf
  | .elseOp => x
  | .endOp => x.leave
  | .instr (.br _) => x
  | .instr (.brIf _) => x.foundBrIf
  | .instr (.brTable t) => x.foundBrTable t.count.toNat
  | .instr .ret => x.foundReturn
  | .instr (.plain _) => x

theorem scanInstruction_first (p : Plain) (s : Scanner) (x : ScanState) :
    scanInstruction p.opcode.first s x = (skipInstructionImmediates p.opcode.first s, x) := by
  have hne : ∀ b ∈ controlOps, p.opcode.first ≠ b :=
    first_ne_of_mem_controlOps p
  simp only [controlOps, List.forall_mem_cons] at hne
  obtain ⟨h1, h2, h3, h4, h5, h6, h7, h8, h9, -⟩ := hne
  rw [scanInstruction, if_neg h1, if_neg h2, if_neg h3, if_neg h4, if_neg h5, if_neg h6, if_neg h7,
    if_neg h8, if_neg h9]

/-- The pass reads tokens. -/
theorem scan_follows : Follows scan ScanState.token where
  plain p s x := congrArg Prod.fst (scanInstruction_first p s x)
  round := by
    intro t s x tail ht h
    cases t with
    | blockOp bt =>
      exact (round_of_rest h x).trans
        (congrArg (·, x.enter) (Scanner.skipLeb128_advance_one bt.encoded h))
    | loopOp bt =>
      exact (round_of_rest h x).trans
        (congrArg (·, x.enter.foundLoop) (Scanner.skipLeb128_advance_one bt.encoded h))
    | ifOp bt =>
      exact (round_of_rest h x).trans
        (congrArg (·, x.enter.foundIf) (Scanner.skipLeb128_advance_one bt.encoded h))
    | elseOp => exact round_of_rest h x
    | endOp => exact round_of_rest h x
    | instr i =>
      cases i with
      -- the labels of `br` and `br_if` are skipped, those of `br_table` one by one
      | br l =>
        exact (round_of_rest h x).trans
          (congrArg (·, x) (Scanner.skipLeb128_advance_one l.encoded h))
      | brIf l =>
        exact (round_of_rest h x).trans
          (congrArg (·, x.foundBrIf) (Scanner.skipLeb128_advance_one l.encoded h))
      | ret => exact round_of_rest h x
      | plain p => exact round_plain (scanInstruction_first p) ht h x
      | brTable t =>
        obtain ⟨hopcode, hlabels, hend⟩ := rest_brTable h
        have hinstr : scan.instruction 0x0E (s.advance 1) x =
            (Scanner.skipLeb128^[(s.advance 1).readLeb128U32.1.getD 0 + 1]
              (s.advance 1).readLeb128U32.2,
              x.foundBrTable ((s.advance 1).readLeb128U32.1.getD 0)) := rfl
        rw [round_of_rest h x, hinstr, Scanner.readLeb128U32_of_rest t.count hopcode,
          Option.getD_some, ← t.length_targets,
          Scanner.iterate_skipLeb128_of_rest t.targets hlabels, hend]
        rfl

/-! ## Counts -/

namespace ScanState

variable (x : ScanState)

@[simp] theorem depth_enter : x.enter.depth = x.depth + 1 := rfl

@[simp] theorem depth_leave : x.leave.depth = x.depth - 1 := rfl

@[simp] theorem depth_found (branchType : BranchType) (description : String) :
    (x.found branchType description).depth = x.depth := rfl

@[simp] theorem breakdown_enter : x.enter.acc.breakdown = x.acc.breakdown := rfl

@[simp] theorem breakdown_leave : x.leave.acc.breakdown = x.acc.breakdown := rfl

@[simp] theorem breakdown_found (branchType : BranchType) (description : String) :
    (x.found branchType description).acc.breakdown = x.acc.breakdown.add branchType := rfl

end ScanState

instance : Add BranchTypeBreakdown where
  add a b := ⟨a.conditionals + b.conditionals, a.loops + b.loops, a.branchIfs + b.branchIfs,
    a.branchTables + b.branchTables, a.earlyReturns + b.earlyReturns⟩

namespace BranchTypeBreakdown

def zero : BranchTypeBreakdown := ⟨0, 0, 0, 0, 0⟩

theorem add_assoc (a b c : BranchTypeBreakdown) : a + b + c = a + (b + c) := by
  ext <;> exact Nat.add_assoc _ _ _

@[simp] theorem zero_add (a : BranchTypeBreakdown) : zero + a = a := by
  ext <;> exact Nat.zero_add _

@[simp] theorem add_zero (a : BranchTypeBreakdown) : a + zero = a := rfl

theorem add_eq (a : BranchTypeBreakdown) (branchType : BranchType) :
    a.add branchType = a + zero.add branchType := by
  cases branchType <;> rfl

end BranchTypeBreakdown

/-- The numbers of the instructions of each kind; a `return` counts where it is nested. -/
def breakdownOf (nested : Bool) (c : Code) : BranchTypeBreakdown where
  conditionals := c.count Token.isIf
  loops := c.count Token.isLoop
  branchIfs := c.count Token.isBrIf
  branchTables := c.count Token.isBrTable
  earlyReturns := if nested then c.count Token.isReturn else c.nestedReturns

/-- The branch that an instruction is. -/
def branchOf (nested : Bool) : Instr → BranchTypeBreakdown
  | .brIf _ => BranchTypeBreakdown.zero.add .branchIf
  | .brTable _ => BranchTypeBreakdown.zero.add .branchTable
  | .ret => if nested then BranchTypeBreakdown.zero.add .earlyReturn else .zero
  | .br _ => .zero
  | .plain _ => .zero

section Breakdown

open BranchTypeBreakdown

variable (nested : Bool) (bt : BlockType)

theorem add_def (a b : BranchTypeBreakdown) :
    a + b = ⟨a.conditionals + b.conditionals, a.loops + b.loops, a.branchIfs + b.branchIfs,
      a.branchTables + b.branchTables, a.earlyReturns + b.earlyReturns⟩ := rfl

theorem breakdownOf_done : breakdownOf nested .done = zero := by cases nested <;> rfl

theorem breakdownOf_instr (i : Instr) (rest : Code) :
    breakdownOf nested (.instr i rest) = branchOf nested i + breakdownOf nested rest := by
  cases i <;> cases nested <;> ext <;>
    simp [breakdownOf, branchOf, add, zero, add_def, Nat.add_comm]

theorem breakdownOf_block (body rest : Code) : breakdownOf nested (.block bt body rest) =
    breakdownOf true body + breakdownOf nested rest := by
  cases nested <;> ext <;> simp [breakdownOf, add_def]

theorem breakdownOf_loop (body rest : Code) : breakdownOf nested (.loop bt body rest) =
    zero.add .loop + breakdownOf true body + breakdownOf nested rest := by
  cases nested <;> ext <;> simp [breakdownOf, add, zero, add_def]

theorem breakdownOf_ifThen (thenArm rest : Code) : breakdownOf nested (.ifThen bt thenArm rest) =
    zero.add .conditional + breakdownOf true thenArm + breakdownOf nested rest := by
  cases nested <;> ext <;> simp [breakdownOf, add, zero, add_def]

theorem breakdownOf_ifElse (thenArm elseArm rest : Code) :
    breakdownOf nested (.ifElse bt thenArm elseArm rest) = zero.add .conditional +
      breakdownOf true thenArm + breakdownOf true elseArm + breakdownOf nested rest := by
  cases nested <;> ext <;> simp [breakdownOf, add, zero, add_def, Nat.add_assoc]

end Breakdown

/-- Tokens that keep the depth and add to the counts, in or outside of blocks. -/
def Counts (nested : Bool) (ts : List Token) (b : BranchTypeBreakdown) : Prop :=
  ∀ x : ScanState, decide (0 < x.depth) = nested →
    (ts.foldl ScanState.token x).depth = x.depth ∧
      (ts.foldl ScanState.token x).acc.breakdown = x.acc.breakdown + b

namespace Counts

variable {nested : Bool} {ts us : List Token} {a b c : BranchTypeBreakdown}

theorem nil : Counts nested [] .zero := fun _ _ => ⟨rfl, rfl⟩

theorem append (hts : Counts nested ts b) (hus : Counts nested us c) :
    Counts nested (ts ++ us) (b + c) := by
  intro x hx
  obtain ⟨hdepth, hbreakdown⟩ := hts x hx
  obtain ⟨hdepth', hbreakdown'⟩ := hus (ts.foldl ScanState.token x) (by rw [hdepth]; exact hx)
  rw [List.foldl_append]
  exact ⟨hdepth'.trans hdepth, by
    rw [hbreakdown', hbreakdown, BranchTypeBreakdown.add_assoc]⟩

theorem instr (i : Instr) : Counts nested [.instr i] (branchOf nested i) := by
  rintro x rfl
  cases i with
  | plain p => exact ⟨rfl, rfl⟩
  | br l => exact ⟨rfl, rfl⟩
  | brIf l => exact ⟨rfl, x.acc.breakdown.add_eq .branchIf⟩
  | brTable t => exact ⟨rfl, x.acc.breakdown.add_eq .branchTable⟩
  | ret =>
    have htoken : [Token.instr .ret].foldl ScanState.token x = x.foundReturn := rfl
    rw [htoken, ScanState.foundReturn, branchOf]
    -- a `return` outside of blocks is not counted on either side
    by_cases hx : 0 < x.depth
    · rw [if_pos hx, if_pos (decide_eq_true hx)]
      exact ⟨rfl, x.acc.breakdown.add_eq .earlyReturn⟩
    · rw [if_neg hx, if_neg (by simpa using hx)]
      exact ⟨rfl, rfl⟩

/-- In a block everything is nested, and behind its `end` the depth is as before. -/
theorem enclosed {t : Token} (ht : ∀ x : ScanState, (x.token t).depth = x.depth + 1 ∧
    (x.token t).acc.breakdown = x.acc.breakdown + a) (hts : Counts true ts b)
    (hus : Counts nested us c) : Counts nested (t :: (ts ++ .endOp :: us)) (a + b + c) := by
  intro x hx
  obtain ⟨hdepth, hbreakdown⟩ := ht x
  obtain ⟨hdepth', hbreakdown'⟩ := hts (x.token t) (by rw [hdepth]; simp)
  -- the depth is positive in the block, so that nothing is lost at its `end`
  have hleave : (ts.foldl ScanState.token (x.token t)).leave.depth = x.depth := by
    rw [ScanState.depth_leave, hdepth', hdepth, Nat.add_sub_cancel]
  obtain ⟨hdepth'', hbreakdown''⟩ := hus _ (by rw [hleave]; exact hx)
  rw [List.foldl_cons, List.foldl_append, List.foldl_cons]
  refine ⟨hdepth''.trans hleave, hbreakdown''.trans ?_⟩
  rw [ScanState.breakdown_leave, hbreakdown', hbreakdown, BranchTypeBreakdown.add_assoc,
    BranchTypeBreakdown.add_assoc, BranchTypeBreakdown.add_assoc]

theorem elseOp : Counts nested [.elseOp] .zero := fun _ _ => ⟨rfl, rfl⟩

/-- The final `end` of a body leaves no block. -/
theorem finalEnd : Counts false [.endOp] .zero := by
  intro x hx
  have hdepth : x.depth = 0 := by simpa using hx
  refine ⟨?_, rfl⟩
  -- the depth does not go below zero
  rw [List.foldl_cons, List.foldl_nil, ScanState.token, ScanState.depth_leave, hdepth]

end Counts

/-- What a pass over structured code adds to the counts. -/
theorem counted (nested : Bool) (c : Code) : Counts nested c.tokens (breakdownOf nested c) := by
  -- the tokens that begin a block
  have hblock : ∀ bt (x : ScanState), (x.token (.blockOp bt)).depth = x.depth + 1 ∧
      (x.token (.blockOp bt)).acc.breakdown = x.acc.breakdown + .zero := fun _ _ => ⟨rfl, rfl⟩
  have hloop : ∀ bt (x : ScanState), (x.token (.loopOp bt)).depth = x.depth + 1 ∧
      (x.token (.loopOp bt)).acc.breakdown = x.acc.breakdown + .add .zero .loop :=
    fun _ x => ⟨rfl, x.acc.breakdown.add_eq .loop⟩
  have hif : ∀ bt (x : ScanState), (x.token (.ifOp bt)).depth = x.depth + 1 ∧
      (x.token (.ifOp bt)).acc.breakdown = x.acc.breakdown + .add .zero .conditional :=
    fun _ x => ⟨rfl, x.acc.breakdown.add_eq .conditional⟩
  induction c generalizing nested with
  | done => exact breakdownOf_done nested ▸ .nil
  | instr i rest ih =>
    rw [breakdownOf_instr]
    exact (Counts.instr i).append (ih nested)
  | block bt body rest ihb ihr =>
    have h := (ihb true).enclosed (hblock bt) (ihr nested)
    rwa [BranchTypeBreakdown.zero_add, ← breakdownOf_block nested bt] at h
  | loop bt body rest ihb ihr =>
    rw [breakdownOf_loop]
    exact (ihb true).enclosed (hloop bt) (ihr nested)
  | ifThen bt thenArm rest iht ihr =>
    rw [breakdownOf_ifThen]
    exact (iht true).enclosed (hif bt) (ihr nested)
  | ifElse bt thenArm elseArm rest iht ihe ihr =>
    -- the `else` counts nothing, and both arms are nested
    have harms := (iht true).append (Counts.elseOp.append (ihe true))
    have h := harms.enclosed (hif bt) (ihr nested)
    rw [BranchTypeBreakdown.zero_add, ← BranchTypeBreakdown.add_assoc, List.append_assoc] at h
    rw [breakdownOf_ifElse]
    exact h

/-- The counts and the offsets of a pass are those of the body: the instructions of each kind, the
nested ones for `return`, are counted, and an opcode is read where each token begins, and nowhere
else. -/
structure InSync (f : Func) : Prop where
  breakdown : (scanFunctionBody f.bytes).breakdown = breakdownOf false f.code
  positions : opcodePositions f.bytes = f.placedTokens.map Prod.fst

/-- **The pass is right exactly in the bodies in which no instruction is misread**: those without
`select` with its types, `ref.null`, `ref.func`, `table.copy`, and vector instructions with
immediates. -/
theorem inSync_iff (f : Func) : InSync f ↔ ∀ o ∈ f.opcodes, ¬Misread o := by
  rw [← forall_read_iff]
  constructor
  · -- with a misread instruction, even the offsets differ
    intro hsync
    by_contra hf
    exact scan_follows.positions_ne hf _ hsync.positions
  · intro hf
    refine ⟨?_, ?_⟩
    · have hcounts : Counts false f.tokens (breakdownOf false f.code) :=
        (counted false f.code).append .finalEnd
      rw [scanFunctionBody, scan_follows.run_eq hf]
      exact (hcounts ScanState.start rfl).2.trans (BranchTypeBreakdown.zero_add _)
    · have hrounds := congrArg (List.map Prod.fst) (scan_follows.rounds_eq hf ScanState.start)
      rw [List.map_map, map_fst_trace] at hrounds
      exact hrounds

/-- `ref.func 4`, and `drop`. -/
def refFuncBody : Func :=
  .ofCode (.instr (.plain ⟨.core 0xD2, [[0x04]], [.u32], rfl, .cons ⟨.ofBits 4, rfl⟩ .nil⟩) <|
    .instr (.plain ⟨.core 0x1A, [], [], rfl, .nil⟩) .done) (by decide)

/-- The index of the function is read as an `if`. -/
theorem not_inSync_refFunc : ¬InSync refFuncBody := by
  intro h
  have hifs := congrArg BranchTypeBreakdown.conditionals h.breakdown
  revert hifs
  decide +kernel

end Core.WasmBranchAnalysis
