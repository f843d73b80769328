import SkyMoonScope.Core.WasmBranchAnalysis.Sync

/-!
# The estimate of the number of paths

A pass over a function body keeps track of whether the code at hand can be reached, with a stack of
the blocks that are open, and counts the branches that can be reached. The estimate is the power of
two with that exponent, up to a cap.

## Main definitions

* `DataflowFrame`, `DataflowState`: an open block, and the state of the pass
* `markBranchTarget`: a branch makes the code behind its target reachable
* `dataflowInstruction`, `estimatePathsViaDataflow`: what is done at an opcode, and the estimate

## Main results

* `dataflow_follows`: the pass reads tokens
-/

namespace Core.WasmBranchAnalysis

open Wasm.Binary

inductive FrameKind
  | block
  | loop
  | if
deriving DecidableEq

structure DataflowFrame where
  kind : FrameKind
  reachableEntry : Bool
  afterReachable : Bool

/-- A branch to a loop goes to its beginning. -/
def DataflowFrame.target (frame : DataflowFrame) : DataflowFrame :=
  if frame.kind ≠ .loop then { frame with afterReachable := true } else frame

/-- The innermost block is the first of the stack, so that a label is an index. -/
def markBranchTarget (stack : List DataflowFrame) (depth : ℕ) : List DataflowFrame :=
  if stack.length ≤ depth then stack else stack.modify depth DataflowFrame.target

/-- The state of the pass. -/
structure DataflowState where
  stack : List DataflowFrame
  reachable : Bool
  reachableBranches : ℕ

namespace DataflowState

/-- A branch counts if it can be reached. -/
def count (x : DataflowState) : DataflowState :=
  if x.reachable then { x with reachableBranches := x.reachableBranches + 1 } else x

def push (x : DataflowState) (kind : FrameKind) : DataflowState :=
  { x with stack := ⟨kind, x.reachable, false⟩ :: x.stack }

/-- At an `else`; outside of an `if` it is ignored. -/
def elseArm (x : DataflowState) : DataflowState :=
  match x.stack with
  | [] => x
  | frame :: stack =>
    if frame.kind = .if then
      { x with
        stack := { frame with afterReachable := frame.afterReachable || x.reachable } :: stack
        reachable := frame.reachableEntry }
    else x

/-- At an `end`, either of a block or of the function. -/
def leave (x : DataflowState) : DataflowState :=
  match x.stack with
  | frame :: stack =>
    { x with
      stack := stack
      -- the way around an `if` without `else` is not taken into account
      reachable := (frame.reachableEntry && x.reachable) || frame.afterReachable }
  | [] => { x with reachable := false }

/-- A target counts if the branch can be reached. -/
def mark (x : DataflowState) (depth : ℕ) : DataflowState :=
  if x.reachable then { x with stack := markBranchTarget x.stack depth } else x

def stop (x : DataflowState) : DataflowState := { x with reachable := false }

end DataflowState

/-- One target of a `br_table`. -/
def readTarget (st : Scanner × List DataflowFrame) : Scanner × List DataflowFrame :=
  match st.1.readLeb128U32 with
  | (some depth, s) => (s, markBranchTarget st.2 depth)
  | (none, s) => (s, st.2)

/-- What is done after an opcode. -/
def dataflowInstruction (opcode : UInt8) (s : Scanner) (x : DataflowState) :
    Scanner × DataflowState :=
  if opcode = opBlock then (s.skipLeb128, x.push .block)
  else if opcode = opLoop then (s.skipLeb128, x.count.push .loop)
  else if opcode = opIf then (s.skipLeb128, x.count.push .if)
  else if opcode = opElse then (s, x.elseArm)
  else if opcode = opEnd then (s, x.leave)
  else if opcode = opBr then
    let (depth, s) := s.readLeb128U32
    (s, (x.mark (depth.getD 0)).stop)
  else if opcode = opBrIf then
    let (depth, s) := s.readLeb128U32
    (s, (x.mark (depth.getD 0)).count)
  else if opcode = opBrTable then
    let (n, s) := s.readLeb128U32
    -- the targets are read, and marked, only where control can arrive
    if x.reachable then
      let (s, stack) := readTarget^[n.getD 0 + 1] (s, x.stack)
      (s, { x with stack := stack }.count.stop)
    else (Scanner.skipLeb128^[n.getD 0 + 1] s, x.stop)
  else if opcode = opReturn then (s, x.count.stop)
  else (skipInstructionImmediates opcode s, x)

theorem remaining_readTarget_le (st : Scanner × List DataflowFrame) :
    (readTarget st).1.remaining ≤ st.1.remaining := by
  have hread := st.1.remaining_readLeb128U32_le
  unfold readTarget
  split
  · rename_i depth s h
    rw [h] at hread
    exact hread
  · rename_i s h
    rw [h] at hread
    exact hread

theorem remaining_iterate_readTarget_le (n : ℕ) (st : Scanner × List DataflowFrame) :
    (readTarget^[n] st).1.remaining ≤ st.1.remaining := by
  induction n generalizing st with
  | zero => exact Nat.le_refl _
  | succ n ih => exact Nat.le_trans (ih (readTarget st)) (remaining_readTarget_le st)

/-- The pass over the instructions. -/
def dataflow : Pass DataflowState where
  instruction := dataflowInstruction
  remaining_le opcode s x := by
    have hone := s.remaining_skipLeb128_le
    have hread := s.remaining_readLeb128U32_le
    -- no immediate is read backwards
    have htargets := Nat.le_trans (remaining_iterate_readTarget_le (s.readLeb128U32.1.getD 0 + 1)
      (s.readLeb128U32.2, x.stack)) hread
    have htable := Nat.le_trans
      (s.readLeb128U32.2.remaining_iterate_skipLeb128_le (s.readLeb128U32.1.getD 0 + 1)) hread
    refine remaining_fst_ite_le hone (remaining_fst_ite_le hone (remaining_fst_ite_le hone ?_))
    refine remaining_fst_ite_le (Nat.le_refl _) (remaining_fst_ite_le (Nat.le_refl _) ?_)
    refine remaining_fst_ite_le hread (remaining_fst_ite_le hread (remaining_fst_ite_le ?_ ?_))
    · exact remaining_fst_ite_le htargets htable
    · exact remaining_fst_ite_le (Nat.le_refl _) (remaining_skipInstructionImmediates_le opcode s)

def DataflowState.start : DataflowState := ⟨[], true, 0⟩

def maxEstimatedPaths : ℕ := 64

def estimatePathsViaDataflow (body : List UInt8) : ℕ :=
  let reachableBranches := (dataflow.run body .start).reachableBranches
  if reachableBranches = 0 then 1 else min (2 ^ min reachableBranches 6) maxEstimatedPaths

/-! ## Tokens -/

/-- What a token does to the state. -/
def DataflowState.token (x : DataflowState) : Token → DataflowState
  | .blockOp _ => x.push .block
  | .loopOp _ => x.count.push .loop
  | .ifOp _ => x.count.push .if
  | .elseOp => x.elseArm
  | .endOp => x.leave
  | .instr (.br l) => (x.mark l.toNat).stop
  | .instr (.brIf l) => (x.mark l.toNat).count
  | .instr (.brTable t) => ((t.targets.map (·.toNat)).foldl DataflowState.mark x).count.stop
  | .instr .ret => x.count.stop
  | .instr (.plain _) => x

theorem dataflowInstruction_first (p : Plain) (s : Scanner) (x : DataflowState) :
    dataflowInstruction p.opcode.first s x =
      (skipInstructionImmediates p.opcode.first s, x) := by
  have hne : ∀ b ∈ controlOps, p.opcode.first ≠ b := first_ne_of_mem_controlOps p
  simp only [controlOps, List.forall_mem_cons] at hne
  obtain ⟨h1, h2, h3, h4, h5, h6, h7, h8, h9, -⟩ := hne
  rw [dataflowInstruction, if_neg h1, if_neg h2, if_neg h3, if_neg h4, if_neg h5, if_neg h6,
    if_neg h7, if_neg h8, if_neg h9]

/-! ## The targets of a `br_table` -/

namespace DataflowState

@[simp] theorem reachable_mark (x : DataflowState) (depth : ℕ) :
    (x.mark depth).reachable = x.reachable := by
  unfold mark
  split <;> rfl

theorem mark_of_reachable {x : DataflowState} (hx : x.reachable = true) (depth : ℕ) :
    x.mark depth = { x with stack := markBranchTarget x.stack depth } := by rw [mark, if_pos hx]

theorem foldl_mark_of_reachable {x : DataflowState} (hx : x.reachable = true) (depths : List ℕ) :
    depths.foldl mark x = { x with stack := depths.foldl markBranchTarget x.stack } := by
  induction depths generalizing x with
  | nil => rfl
  | cons depth depths ih =>
    rw [List.foldl_cons, ih ((x.reachable_mark depth).trans hx), mark_of_reachable hx,
      List.foldl_cons]

theorem foldl_mark_of_not_reachable {x : DataflowState} (hx : x.reachable ≠ true)
    (depths : List ℕ) : depths.foldl mark x = x := by
  induction depths with
  | nil => rfl
  | cons depth depths ih =>
    have hmark : x.mark depth = x := if_neg hx
    rw [List.foldl_cons, hmark, ih]

end DataflowState

/-- The labels are read one by one. -/
theorem iterate_readTarget_of_rest {s : Scanner} {tail : List UInt8} (ls : List U32)
    (stack : List DataflowFrame) (h : s.rest = ls.flatMap (·.bytes) ++ tail) :
    readTarget^[ls.length] (s, stack) = (s.advance (ls.flatMap (·.bytes)).length,
      (ls.map (·.toNat)).foldl markBranchTarget stack) := by
  induction ls generalizing s stack with
  | nil => rfl
  | cons l ls ih =>
    rw [List.flatMap_cons, List.append_assoc] at h
    have hread : readTarget (s, stack) =
        (s.advance l.bytes.length, markBranchTarget stack l.toNat) := by
      rw [readTarget, Scanner.readLeb128U32_of_rest l h]
    rw [List.length_cons, Function.iterate_succ_apply, hread, ih _ (Scanner.rest_advance h),
      Scanner.advance_advance, List.flatMap_cons, List.length_append, List.map_cons,
      List.foldl_cons]

/-- The pass reads tokens. -/
theorem dataflow_follows : Follows dataflow DataflowState.token where
  plain p s x := congrArg Prod.fst (dataflowInstruction_first p s x)
  round := by
    intro t s x tail ht h
    cases t with
    | blockOp bt =>
      exact (round_of_rest h x).trans
        (congrArg (·, x.push .block) (Scanner.skipLeb128_advance_one bt.encoded h))
    | loopOp bt =>
      exact (round_of_rest h x).trans
        (congrArg (·, x.count.push .loop) (Scanner.skipLeb128_advance_one bt.encoded h))
    | ifOp bt =>
      exact (round_of_rest h x).trans
        (congrArg (·, x.count.push .if) (Scanner.skipLeb128_advance_one bt.encoded h))
    | elseOp => exact round_of_rest h x
    | endOp => exact round_of_rest h x
    | instr i =>
      cases i with
      | br l =>
        have hlabel := Scanner.readLeb128U32_of_rest l (Scanner.rest_advance_one h)
        -- the label is read and marked, and what follows is not reached
        have hinstr : dataflow.instruction 0x0C (s.advance 1) x =
            ((s.advance 1).readLeb128U32.2,
              (x.mark ((s.advance 1).readLeb128U32.1.getD 0)).stop) := rfl
        rw [round_of_rest h x, hinstr, hlabel, Scanner.advance_advance, Nat.add_comm]
        rfl
      | brIf l =>
        have hlabel := Scanner.readLeb128U32_of_rest l (Scanner.rest_advance_one h)
        -- the label is read and marked, and control may also go on
        have hinstr : dataflow.instruction 0x0D (s.advance 1) x =
            ((s.advance 1).readLeb128U32.2,
              (x.mark ((s.advance 1).readLeb128U32.1.getD 0)).count) := rfl
        rw [round_of_rest h x, hinstr, hlabel, Scanner.advance_advance, Nat.add_comm]
        rfl
      | ret => exact round_of_rest h x
      | plain p => exact round_plain (dataflowInstruction_first p) ht h x
      | brTable t =>
        obtain ⟨hopcode, hlabels, hend⟩ := rest_brTable h
        have hinstr : dataflow.instruction 0x0E (s.advance 1) x =
            if x.reachable then
              ((readTarget^[(s.advance 1).readLeb128U32.1.getD 0 + 1]
                ((s.advance 1).readLeb128U32.2, x.stack)).1,
                { x with stack := (readTarget^[(s.advance 1).readLeb128U32.1.getD 0 + 1]
                  ((s.advance 1).readLeb128U32.2, x.stack)).2 }.count.stop)
            else (Scanner.skipLeb128^[(s.advance 1).readLeb128U32.1.getD 0 + 1]
              (s.advance 1).readLeb128U32.2, x.stop) := rfl
        rw [round_of_rest h x, hinstr, Scanner.readLeb128U32_of_rest t.count hopcode,
          Option.getD_some, ← t.length_targets, DataflowState.token]
        by_cases hx : x.reachable = true
        · rw [if_pos hx, iterate_readTarget_of_rest t.targets x.stack hlabels, hend,
            DataflowState.foldl_mark_of_reachable hx]
        · -- the labels are skipped, and nothing is marked or counted
          have hcount : x.count = x := if_neg hx
          rw [if_neg hx, Scanner.iterate_skipLeb128_of_rest t.targets hlabels, hend,
            DataflowState.foldl_mark_of_not_reachable hx, hcount]

end Core.WasmBranchAnalysis
