import Mathlib.Algebra.Order.BigOperators.Group.List
import Mathlib.Algebra.Order.Ring.Nat
import Mathlib.Data.List.Dedup
import SkyMoonScope.Lib.Wasm.Binary

/-!
# Execution paths through structured code

A path is the sequence of the tokens that control arrives at, by their offsets. The paths of code
come with the way control leaves it: at its end, by a branch to a label, or out of the function.

## Main definitions

* `Outcome`: how control leaves code
* `paths`: the paths through code that never go back to the beginning of a loop; in code without
  loops, these are all
* `leaves`: how control may leave code, if traps are passed over
* `Func.paths`: the paths through a function body

## Main results

* `snd_mem_leaves`: paths leave code in one of the ways
* `length_flatMap_through_le`: how many paths there are through a block and what follows it
-/

namespace Wasm.Binary

/-- How control leaves code. -/
inductive Outcome
  | fall
  | branch (l : ℕ)
  | exit
deriving DecidableEq

/-- Tokens that control arrives at, and how it leaves. -/
abbrev Path := List ℕ × Outcome

/-! ## Instructions -/

namespace Instr

def isUnreachable : Instr → Bool
  | plain ⟨.core b, _, _⟩ => b = 0x00
  | _ => false

/-- The jumps that an instruction may make. Entries of a `br_table` with the same label are one
jump. -/
def jumps : Instr → List Outcome
  | br l => [.branch l.toNat]
  | brIf l => [.branch l.toNat]
  | brTable t => (t.targets.map (·.toNat)).dedup.map .branch
  | ret => [.exit]
  | plain p => if (plain p).isUnreachable then [.exit] else []

/-- The instructions after which control may go on. -/
def continues : Instr → Bool
  | brIf _ => true
  | plain p => !(plain p).isUnreachable
  | _ => false

/-- The same, when `unreachable` is passed over. -/
def passes : Instr → Bool
  | brIf _ => true
  | plain _ => true
  | _ => false

theorem passes_of_continues {i : Instr} (h : i.continues = true) : i.passes = true := by
  cases i with
  | plain p => rfl
  | brIf l => rfl
  | br l => cases h
  | brTable t => cases h
  | ret => cases h

end Instr

/-! ## Paths -/

/-- Control arrives at a token first. -/
def visit (o : ℕ) (p : Path) : Path := (o :: p.1, p.2)

/-- The ways on from inside of a block, with its `end` at `e`: at its end, and by a branch to its
label, control goes on behind the block. -/
def through (e : ℕ) (after : List Path) : Path → List Path
  | (p, .fall) => after.map fun q => (p ++ e :: q.1, q.2)
  | (p, .branch 0) => after.map fun q => (p ++ q.1, q.2)
  | (p, .branch (l + 1)) => [(p, .branch l)]
  | (p, .exit) => [(p, .exit)]

/-- At the `else`, control goes on behind the `end`. -/
def Outcome.skipElse : Outcome → Outcome
  | .fall => .branch 0
  | out => out

def skipElse (o : ℕ) (p : Path) : Path :=
  (if p.2 = .fall then p.1 ++ [o] else p.1, p.2.skipElse)

/-- The paths through code whose first token is at `o`. -/
def paths : ℕ → Code → List Path
  | _, .done => [([], .fall)]
  | o, .instr i rest =>
    i.jumps.map (fun out => ([o], out)) ++
      if i.continues then (paths (o + i.bytes.length) rest).map (visit o) else []
  | o, .block bt body rest =>
    let s := o + (Token.blockOp bt).bytes.length
    let e := s + (bytesOf body.tokens).length
    ((paths s body).flatMap (through e (paths (e + 1) rest))).map (visit o)
  | o, .loop bt body rest =>
    let s := o + (Token.loopOp bt).bytes.length
    let e := s + (bytesOf body.tokens).length
    -- a branch to the label of a loop goes back
    (((paths s body).filter fun p => p.2 ≠ .branch 0).flatMap
      (through e (paths (e + 1) rest))).map (visit o)
  | o, .ifThen bt thenArm rest =>
    let s := o + (Token.ifOp bt).bytes.length
    let e := s + (bytesOf thenArm.tokens).length
    -- the arm may be skipped
    ((([], .branch 0) :: paths s thenArm).flatMap (through e (paths (e + 1) rest))).map (visit o)
  | o, .ifElse bt thenArm elseArm rest =>
    let s := o + (Token.ifOp bt).bytes.length
    let m := s + (bytesOf thenArm.tokens).length
    let e := m + 1 + (bytesOf elseArm.tokens).length
    (((paths s thenArm).map (skipElse m) ++ paths (m + 1) elseArm).flatMap
      (through e (paths (e + 1) rest))).map (visit o)

/-- The paths through a function body, up to its final `end` or to where they leave the function. -/
def Func.paths (f : Func) : List (List ℕ) :=
  (Binary.paths f.header.length f.code).map fun p =>
    if p.2 = .fall then p.1 ++ [f.header.length + (bytesOf f.code.tokens).length] else p.1

/-! ## Leaving code -/

/-- How control leaves a block and what follows it. -/
def past (after : List Outcome) : Outcome → List Outcome
  | .fall => after
  | .branch 0 => after
  | .branch (l + 1) => [.branch l]
  | .exit => [.exit]

/-- How control may leave code, when `unreachable` is passed over. -/
def leaves : Code → List Outcome
  | .done => [.fall]
  | .instr i rest => i.jumps ++ if i.passes then leaves rest else []
  | .block _ body rest => (leaves body).flatMap (past (leaves rest))
  | .loop _ body rest => ((leaves body).filter (· ≠ .branch 0)).flatMap (past (leaves rest))
  | .ifThen _ thenArm rest => (.branch 0 :: leaves thenArm).flatMap (past (leaves rest))
  | .ifElse _ thenArm elseArm rest =>
    ((leaves thenArm).map Outcome.skipElse ++ leaves elseArm).flatMap (past (leaves rest))

/-- The end of a block is arrived at. -/
def Arrives (ls : List Outcome) : Prop := .fall ∈ ls ∨ .branch 0 ∈ ls

instance (ls : List Outcome) : Decidable (Arrives ls) :=
  inferInstanceAs (Decidable (.fall ∈ ls ∨ .branch 0 ∈ ls))

/-! ## A block and what follows it -/

variable {e o : ℕ} {after ps : List Path} {p q : Path}

theorem through_of_not_arrives (h : ¬Arrives [q.2]) : (through e after q).length = 1 := by
  obtain ⟨os, out⟩ := q
  match out, h with
  | .fall, h => exact absurd (.inl (List.mem_singleton.mpr rfl)) h
  | .branch 0, h => exact absurd (.inr (List.mem_singleton.mpr rfl)) h
  | .branch (l + 1), _ => rfl
  | .exit, _ => rfl

theorem through_of_arrives (h : Arrives [q.2]) : (through e after q).length = after.length := by
  obtain ⟨os, out⟩ := q
  match out, h with
  | .fall, _ => exact List.length_map _
  | .branch 0, _ => exact List.length_map _
  | .branch (l + 1), h => simp [Arrives] at h
  | .exit, h => simp [Arrives] at h

theorem Arrives.of_mem {ls : List Outcome} {out : Outcome} (h : Arrives [out]) (hout : out ∈ ls) :
    Arrives ls := by
  rcases h with h | h
  · exact .inl (List.mem_singleton.mp h ▸ hout)
  · exact .inr (List.mem_singleton.mp h ▸ hout)

theorem arrives_of_skipElse {ls ls' : List Outcome}
    (h : Arrives (ls.map Outcome.skipElse ++ ls')) : Arrives (ls ++ ls') := by
  rcases h with h | h
  · rcases List.mem_append.mp h with h | h
    · obtain ⟨out, -, hskip⟩ := List.mem_map.mp h
      cases out <;> cases hskip
    · exact .inl (List.mem_append_right _ h)
  · rcases List.mem_append.mp h with h | h
    · obtain ⟨out, hout, hskip⟩ := List.mem_map.mp h
      cases out with
      | fall => exact .inl (List.mem_append_left _ hout)
      | branch l => exact .inr (List.mem_append_left _ (hskip ▸ hout))
      | exit => cases hskip
    · exact .inr (List.mem_append_right _ h)

/-- How many paths there are through a block and what follows it. -/
theorem length_flatMap_through_le {m n : ℕ} {ls : List Outcome} (hps : ps.length ≤ m)
    (hls : ∀ q ∈ ps, q.2 ∈ ls) (hafter : Arrives ls → after.length ≤ n) (hn : 1 ≤ n) :
    (ps.flatMap (through e after)).length ≤ m * n := by
  have hone : ∀ k ∈ ps.map fun q => (through e after q).length, k ≤ n := by
    intro k hk
    obtain ⟨q, hq, rfl⟩ := List.mem_map.mp hk
    -- a way that arrives goes on along every path, and any other is one path
    by_cases harr : Arrives [q.2]
    · exact (through_of_arrives harr).trans_le (hafter (harr.of_mem (hls q hq)))
    · exact (through_of_not_arrives harr).trans_le hn
  calc (ps.flatMap (through e after)).length
      = (ps.map fun q => (through e after q).length).sum := List.length_flatMap
    _ ≤ (ps.map fun q => (through e after q).length).length • n := List.sum_le_card_nsmul _ n hone
    _ = ps.length * n := by rw [List.length_map]; rfl
    _ ≤ m * n := Nat.mul_le_mul_right n hps

/-- Control leaves a block, or goes on behind it. -/
theorem snd_through {ls : List Outcome} (hafter : ∀ r ∈ after, r.2 ∈ ls)
    (hp : p ∈ through e after q) : p.2 ∈ past ls q.2 := by
  obtain ⟨os, out⟩ := q
  match out with
  | .fall =>
    obtain ⟨r, hr, rfl⟩ := List.mem_map.mp hp
    exact hafter r hr
  | .branch 0 =>
    obtain ⟨r, hr, rfl⟩ := List.mem_map.mp hp
    exact hafter r hr
  | .branch (l + 1) =>
    obtain rfl := List.mem_singleton.mp hp
    exact List.mem_singleton.mpr rfl
  | .exit =>
    obtain rfl := List.mem_singleton.mp hp
    exact List.mem_singleton.mpr rfl

theorem mem_past {ls : List Outcome} {out out' : Outcome} (h : out' ∈ past ls out) :
    Arrives [out] ∧ out' ∈ ls ∨ (∃ l, out = .branch (l + 1) ∧ out' = .branch l) ∨
      out' = .exit := by
  match out with
  | .fall => exact .inl ⟨.inl (List.mem_singleton.mpr rfl), h⟩
  | .branch 0 => exact .inl ⟨.inr (List.mem_singleton.mpr rfl), h⟩
  | .branch (l + 1) => exact .inr (.inl ⟨l, rfl, List.mem_singleton.mp h⟩)
  | .exit => exact .inr (.inr (List.mem_singleton.mp h))

/-- What control arrives at is in the block, or is its `end`, or is behind it. -/
theorem mem_of_through (hp : p ∈ through e after q) (ho : o ∈ p.1) :
    o ∈ q.1 ∨ q.2 = .fall ∧ o = e ∨ Arrives [q.2] ∧ ∃ r ∈ after, o ∈ r.1 := by
  obtain ⟨os, out⟩ := q
  match out with
  | .fall =>
    obtain ⟨r, hr, rfl⟩ := List.mem_map.mp hp
    rcases List.mem_append.mp ho with ho | ho
    · exact .inl ho
    rcases List.mem_cons.mp ho with ho | ho
    · exact .inr (.inl ⟨rfl, ho⟩)
    · exact .inr (.inr ⟨.inl (List.mem_singleton.mpr rfl), r, hr, ho⟩)
  | .branch 0 =>
    obtain ⟨r, hr, rfl⟩ := List.mem_map.mp hp
    rcases List.mem_append.mp ho with ho | ho
    · exact .inl ho
    · exact .inr (.inr ⟨.inr (List.mem_singleton.mpr rfl), r, hr, ho⟩)
  | .branch (l + 1) =>
    obtain rfl := List.mem_singleton.mp hp
    exact .inl ho
  | .exit =>
    obtain rfl := List.mem_singleton.mp hp
    exact .inl ho

theorem snd_flatMap_through {ls ls' : List Outcome} (hps : ∀ q ∈ ps, q.2 ∈ ls)
    (hafter : ∀ r ∈ after, r.2 ∈ ls') (hp : p ∈ (ps.flatMap (through e after)).map (visit o)) :
    p.2 ∈ ls.flatMap (past ls') := by
  obtain ⟨r, hr, rfl⟩ := List.mem_map.mp hp
  obtain ⟨q, hq, hr⟩ := List.mem_flatMap.mp hr
  have hsnd : r.2 ∈ past ls' q.2 := snd_through hafter hr
  exact List.mem_flatMap.mpr ⟨q.2, hps q hq, hsnd⟩

/-- Paths leave code in one of the ways. -/
theorem snd_mem_leaves (c : Code) (o : ℕ) : ∀ p ∈ paths o c, p.2 ∈ leaves c := by
  induction c generalizing o with
  | done =>
    intro p hp
    obtain rfl := List.mem_singleton.mp hp
    exact List.mem_singleton.mpr rfl
  | instr i rest ih =>
    intro p hp
    rw [leaves, List.mem_append]
    rcases List.mem_append.mp hp with hp | hp
    · obtain ⟨out, hout, rfl⟩ := List.mem_map.mp hp
      exact .inl hout
    · split at hp
      · rename_i hgo
        obtain ⟨q, hq, rfl⟩ := List.mem_map.mp hp
        rw [if_pos (Instr.passes_of_continues hgo)]
        exact .inr (ih _ q hq)
      · exact absurd hp List.not_mem_nil
  | block bt body rest ihb ihr => exact fun p => snd_flatMap_through (ihb _) (ihr _)
  | loop bt body rest ihb ihr =>
    -- what does not go back is left in both
    refine fun p => snd_flatMap_through (fun q hq => ?_) (ihr _)
    rw [List.mem_filter] at hq ⊢
    exact ⟨ihb _ q hq.1, hq.2⟩
  | ifThen bt thenArm rest iht ihr =>
    refine fun p => snd_flatMap_through (fun q hq => ?_) (ihr _)
    rcases List.mem_cons.mp hq with rfl | hq
    · exact List.mem_cons_self
    · exact List.mem_cons_of_mem _ (iht _ q hq)
  | ifElse bt thenArm elseArm rest iht ihe ihr =>
    refine fun p => snd_flatMap_through (fun q hq => ?_) (ihr _)
    rw [List.mem_append]
    rcases List.mem_append.mp hq with hq | hq
    · obtain ⟨r, hr, rfl⟩ := List.mem_map.mp hq
      exact .inl (List.mem_map_of_mem (iht _ r hr))
    · exact .inr (ihe _ q hq)

end Wasm.Binary
