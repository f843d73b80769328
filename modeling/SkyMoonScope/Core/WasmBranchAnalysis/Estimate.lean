import Mathlib.Tactic.Set
import SkyMoonScope.Core.WasmBranchAnalysis.Dataflow
import SkyMoonScope.Lib.Wasm.Paths

/-!
# The estimate as an upper bound

In tame code, what the pass takes for unreachable is so, and it counts a branch wherever the paths
may part in two. The induction is over the code: behind a block, control arrives if it falls through
to the `end`, or if a branch to the label has marked the block.

## Main definitions

* `Grows`, `Advances`: what happens to the open blocks, and to the count
* `Marked`: the code behind the target of a label is known to be reachable
* `Sound`, `Inside`: a pass over code, and over a block, that can be reached
* `Tame`: code in which the pass goes right
* `EstimateSound`: the estimate is an upper bound, and reachable branches are treated as such

## Main results

* `advances_code`: a pass over structured code closes the blocks that it opens
* `Inside.sound`, `sound_instr`, `sound_code`: a pass over tame code is sound
* `estimate_sound`: the estimate of a body with tame code and without misread instructions
-/

namespace Core.WasmBranchAnalysis

open Wasm.Binary

/-! ## Stacks -/

/-- What happens to an open block: the code behind it may become reachable. -/
def DataflowFrame.Grows (f g : DataflowFrame) : Prop :=
  g.kind = f.kind ∧ g.reachableEntry = f.reachableEntry ∧
    (f.afterReachable = true → g.afterReachable = true)

theorem DataflowFrame.Grows.refl (f : DataflowFrame) : f.Grows f := ⟨rfl, rfl, id⟩

theorem DataflowFrame.Grows.trans {f g h : DataflowFrame} (hfg : f.Grows g) (hgh : g.Grows h) :
    f.Grows h :=
  ⟨hgh.1.trans hfg.1, hgh.2.1.trans hfg.2.1, hgh.2.2 ∘ hfg.2.2⟩

theorem DataflowFrame.grows_target (f : DataflowFrame) : f.Grows f.target := by
  unfold target
  split
  · exact ⟨rfl, rfl, fun _ => rfl⟩
  · exact .refl f

/-- What happens to the open blocks. -/
def Grows (s t : List DataflowFrame) : Prop := List.Forall₂ DataflowFrame.Grows s t

theorem Grows.refl (s : List DataflowFrame) : Grows s s :=
  List.forall₂_same.mpr fun f _ => .refl f

theorem Grows.trans {s t u : List DataflowFrame} (hst : Grows s t) (htu : Grows t u) :
    Grows s u := by
  induction hst generalizing u with
  | nil => exact htu
  | cons hfg _ ih =>
    rcases htu with _ | ⟨hgh, htu⟩
    exact .cons (hfg.trans hgh) (ih htu)

theorem grows_modify (s : List DataflowFrame) (depth : ℕ) :
    Grows s (s.modify depth DataflowFrame.target) := by
  induction s generalizing depth with
  | nil => cases depth <;> exact .refl []
  | cons f s ih =>
    cases depth with
    | zero => exact .cons f.grows_target (Grows.refl s)
    | succ depth => exact .cons (.refl f) (ih depth)

theorem grows_markBranchTarget (s : List DataflowFrame) (depth : ℕ) :
    Grows s (markBranchTarget s depth) := by
  unfold markBranchTarget
  split
  · exact .refl s
  · exact grows_modify s depth

/-- The code behind the target of a label is reachable, unless a branch to it goes back or leaves
the function. -/
def Marked (l : ℕ) (s : List DataflowFrame) : Prop :=
  ∀ f, s[l]? = some f → f.kind ≠ .loop → f.afterReachable = true

theorem Marked.grows {l : ℕ} {s t : List DataflowFrame} (h : Marked l s) (hst : Grows s t) :
    Marked l t := by
  induction hst generalizing l with
  | nil => exact h
  | @cons f g s t hfg _ ih =>
    cases l with
    | zero =>
      intro g' hg' hkind
      obtain rfl : g = g' := Option.some.inj hg'
      exact hfg.2.2 (h f rfl (hfg.1 ▸ hkind))
    | succ l =>
      have hs : Marked l s := fun f' hf' => h f' hf'
      exact ih hs

theorem marked_markBranchTarget (s : List DataflowFrame) (depth : ℕ) :
    Marked depth (markBranchTarget s depth) := by
  intro f hf hkind
  unfold markBranchTarget at hf
  split at hf
  · rename_i hle
    rw [List.getElem?_eq_none hle] at hf
    cases hf
  · rw [List.getElem?_modify_eq] at hf
    obtain ⟨g, -, rfl⟩ := Option.map_eq_some_iff.mp hf
    unfold DataflowFrame.target at hkind ⊢
    split
    · rfl
    · rename_i hloop
      rw [if_neg hloop] at hkind
      exact absurd hkind hloop

/-! ## States -/

/-- The open blocks are the same, and no branch is forgotten. -/
structure Advances (x y : DataflowState) : Prop where
  grows : Grows x.stack y.stack
  le : x.reachableBranches ≤ y.reachableBranches

namespace Advances

variable {x y z : DataflowState}

theorem refl (x : DataflowState) : Advances x x := ⟨.refl _, Nat.le_refl _⟩

theorem trans (hxy : Advances x y) (hyz : Advances y z) : Advances x z :=
  ⟨hxy.grows.trans hyz.grows, Nat.le_trans hxy.le hyz.le⟩

theorem count (x : DataflowState) : Advances x x.count := by
  unfold DataflowState.count
  split
  · exact ⟨.refl _, Nat.le_succ _⟩
  · exact .refl x

theorem mark (x : DataflowState) (depth : ℕ) : Advances x (x.mark depth) := by
  unfold DataflowState.mark
  split
  · exact ⟨grows_markBranchTarget _ _, Nat.le_refl _⟩
  · exact .refl x

theorem marks (x : DataflowState) (depths : List ℕ) :
    Advances x (depths.foldl DataflowState.mark x) := by
  induction depths generalizing x with
  | nil => exact .refl x
  | cons depth depths ih => exact (mark x depth).trans (ih (x.mark depth))

theorem stop (x : DataflowState) : Advances x x.stop := ⟨.refl _, Nat.le_refl _⟩

theorem elseArm (x : DataflowState) : Advances x x.elseArm := by
  unfold DataflowState.elseArm
  split
  · exact .refl x
  · rename_i f s hstack
    split
    · have htop : f.Grows { f with afterReachable := f.afterReachable || x.reachable } :=
        ⟨rfl, rfl, fun h => by rw [h, Bool.true_or]⟩
      refine ⟨?_, Nat.le_refl _⟩
      rw [hstack]
      exact .cons htop (Grows.refl s)
    · exact .refl x

theorem instr (x : DataflowState) (i : Instr) : Advances x (x.token (.instr i)) := by
  cases i with
  | plain p => exact .refl x
  | br l => exact (mark x l.toNat).trans (stop _)
  | brIf l => exact (mark x l.toNat).trans (count _)
  | brTable t => exact ((marks x _).trans (count _)).trans (stop _)
  | ret => exact (count x).trans (stop _)

/-- The innermost block at its `end`. -/
theorem of_cons {f : DataflowFrame} {s : List DataflowFrame} (h : Advances x y)
    (hstack : x.stack = f :: s) : ∃ g t, y.stack = g :: t ∧ f.Grows g ∧ Grows s t := by
  have hgrows := h.grows
  rw [hstack] at hgrows
  obtain ⟨g, t, hfg, hst, hy⟩ := List.forall₂_cons_left_iff.mp hgrows
  exact ⟨g, t, hy, hfg, hst⟩

/-- At the `end` of a block the others are as after it. -/
theorem leave {f : DataflowFrame} (h : Advances x y) (hstack : x.stack = f :: z.stack)
    (hle : z.reachableBranches ≤ x.reachableBranches) : Advances z y.leave := by
  obtain ⟨g, t, hy, -, hst⟩ := h.of_cons hstack
  unfold DataflowState.leave
  rw [hy]
  exact ⟨hst, Nat.le_trans hle h.le⟩

end Advances

/-- A pass over structured code closes all the blocks that it opens. -/
theorem advances_code (c : Code) (x : DataflowState) :
    Advances x (c.tokens.foldl DataflowState.token x) := by
  induction c generalizing x with
  | done => exact .refl x
  | instr i rest ih => exact (Advances.instr x i).trans (ih _)
  | block bt body rest ihb ihr =>
    rw [Code.tokens, List.foldl_cons, List.foldl_append, List.foldl_cons]
    exact ((ihb (x.push .block)).leave rfl (Nat.le_refl _)).trans (ihr _)
  | loop bt body rest ihb ihr =>
    rw [Code.tokens, List.foldl_cons, List.foldl_append, List.foldl_cons]
    have hcount := Advances.count x
    exact (hcount.trans ((ihb (x.count.push .loop)).leave rfl (Nat.le_refl _))).trans (ihr _)
  | ifThen bt thenArm rest iht ihr =>
    rw [Code.tokens, List.foldl_cons, List.foldl_append, List.foldl_cons]
    have hcount := Advances.count x
    exact (hcount.trans ((iht (x.count.push .if)).leave rfl (Nat.le_refl _))).trans (ihr _)
  | ifElse bt thenArm elseArm rest iht ihe ihr =>
    rw [Code.tokens, List.foldl_cons, List.foldl_append, List.foldl_cons, List.foldl_append,
      List.foldl_cons]
    have hcount := Advances.count x
    have harms := ((iht (x.count.push .if)).trans (.elseArm _)).trans (ihe _)
    exact (hcount.trans (harms.leave rfl (Nat.le_refl _))).trans (ihr _)

/-! ## Soundness -/

/-- The state after a pass over code. -/
def after (c : Code) (x : DataflowState) : DataflowState := c.tokens.foldl DataflowState.token x

/-- Among tokens from `o` on, the one at `k` is read in a state in which it can be reached. -/
def Seen (o : ℕ) (x : DataflowState) (ts : List Token) (k : ℕ) : Prop :=
  ∃ y, (k, y) ∈ trace DataflowState.token o x ts ∧ y.reachable = true

namespace Seen

variable {o k : ℕ} {x : DataflowState} {t : Token} {ts us : List Token}

theorem head (hx : x.reachable = true) : Seen o x (t :: ts) o := ⟨x, List.mem_cons_self, hx⟩

theorem cons (h : Seen (o + t.bytes.length) (x.token t) ts k) : Seen o x (t :: ts) k := by
  obtain ⟨y, hy, hreach⟩ := h
  exact ⟨y, List.mem_cons_of_mem _ hy, hreach⟩

theorem append_left (h : Seen o x ts k) (us : List Token) : Seen o x (ts ++ us) k := by
  obtain ⟨y, hy, hreach⟩ := h
  exact ⟨y, by rw [trace_append]; exact List.mem_append_left _ hy, hreach⟩

theorem append_right
    (h : Seen (o + (bytesOf ts).length) (ts.foldl DataflowState.token x) us k) :
    Seen o x (ts ++ us) k := by
  obtain ⟨y, hy, hreach⟩ := h
  exact ⟨y, by rw [trace_append]; exact List.mem_append_right _ hy, hreach⟩

end Seen

/-- A pass over code that can be reached: it finds where control may arrive, it counts the paths,
and it reads what they arrive at in states in which this can be reached. -/
structure Sound (o : ℕ) (c : Code) (x : DataflowState) : Prop where
  fall : .fall ∈ leaves c → (after c x).reachable = true
  branch : ∀ l, .branch l ∈ leaves c → Marked l (after c x).stack
  bound : ∃ d, (after c x).reachableBranches = x.reachableBranches + d ∧
    (paths o c).length ≤ 2 ^ d
  seen : ∀ p ∈ paths o c, ∀ k ∈ p.1, Seen o x c.tokens k

/-- The same for the tokens of a block, with the paths and the ways to leave inside of it. -/
structure Inside (o e : ℕ) (ts : List Token) (x : DataflowState) (ps : List Path)
    (ls : List Outcome) : Prop where
  size : o + (bytesOf ts).length = e + 1
  snd : ∀ p ∈ ps, p.2 ∈ ls
  arrives : Arrives ls → (ts.foldl DataflowState.token x).reachable = true
  branch : ∀ l, .branch (l + 1) ∈ ls → Marked l (ts.foldl DataflowState.token x).stack
  bound : ∃ d, (ts.foldl DataflowState.token x).reachableBranches = x.reachableBranches + d ∧
    ps.length ≤ 2 ^ d
  start : Seen o x ts o
  seen : ∀ p ∈ ps, ∀ k ∈ p.1, Seen o x ts k
  ending : ∀ p ∈ ps, p.2 = .fall → Seen o x ts e

/-- A block, and the code behind it. -/
theorem Inside.sound {o e : ℕ} {ts : List Token} {x : DataflowState} {ps : List Path}
    {ls : List Outcome} {c rest : Code} (h : Inside o e ts x ps ls)
    (htokens : c.tokens = ts ++ rest.tokens)
    (hpaths : paths o c = (ps.flatMap (through e (paths (e + 1) rest))).map (visit o))
    (hleaves : leaves c = ls.flatMap (past (leaves rest)))
    (hrest : Arrives ls → Sound (e + 1) rest (ts.foldl DataflowState.token x)) :
    Sound o c x := by
  have hafter : after c x = after rest (ts.foldl DataflowState.token x) := by
    rw [after, htokens, List.foldl_append, after]
  have hadvances := advances_code rest (ts.foldl DataflowState.token x)
  refine ⟨?_, ?_, ?_, ?_⟩
  · intro hfall
    rw [hleaves] at hfall
    obtain ⟨out, hout, hfall⟩ := List.mem_flatMap.mp hfall
    rcases mem_past hfall with ⟨harr, hmem⟩ | ⟨l, -, hl⟩ | hexit
    · exact hafter ▸ (hrest (harr.of_mem hout)).fall hmem
    · cases hl
    · cases hexit
  · intro l hbranch
    rw [hleaves] at hbranch
    obtain ⟨out, hout, hbranch⟩ := List.mem_flatMap.mp hbranch
    rcases mem_past hbranch with ⟨harr, hmem⟩ | ⟨l', rfl, hl⟩ | hexit
    · exact hafter ▸ (hrest (harr.of_mem hout)).branch l hmem
    · obtain rfl : l = l' := by simpa using hl
      exact hafter ▸ (h.branch l hout).grows hadvances.grows
    · cases hexit
  · obtain ⟨d, hd, hps⟩ := h.bound
    -- the paths behind the block count if there are any
    obtain ⟨d', hd', hlen⟩ : ∃ d', (after c x).reachableBranches =
        (ts.foldl DataflowState.token x).reachableBranches + d' ∧
        (Arrives ls → (paths (e + 1) rest).length ≤ 2 ^ d') := by
      rw [hafter]
      by_cases harr : Arrives ls
      · obtain ⟨d', hd', hlen⟩ := (hrest harr).bound
        exact ⟨d', hd', fun _ => hlen⟩
      · exact ⟨_, (Nat.add_sub_cancel' hadvances.le).symm, fun h => absurd h harr⟩
    refine ⟨d + d', by rw [hd', hd, Nat.add_assoc], ?_⟩
    rw [hpaths, List.length_map, Nat.pow_add]
    exact length_flatMap_through_le hps h.snd hlen Nat.one_le_two_pow
  · intro p hp k hk
    rw [hpaths] at hp
    obtain ⟨r, hr, rfl⟩ := List.mem_map.mp hp
    obtain ⟨q, hq, hr⟩ := List.mem_flatMap.mp hr
    rw [htokens]
    rcases List.mem_cons.mp hk with rfl | hk
    · exact h.start.append_left _
    rcases mem_of_through hr hk with hk | ⟨hfall, rfl⟩ | ⟨harr, r', hr', hk⟩
    · exact (h.seen q hq k hk).append_left _
    · exact (h.ending q hq hfall).append_left _
    · have hseen := (hrest (harr.of_mem (h.snd q hq))).seen r' hr' k hk
      exact .append_right (h.size ▸ hseen)

/-! ## The end of a block -/

section Leave

variable {x y : DataflowState} {g : DataflowFrame} {t : List DataflowFrame}

theorem reachable_leave_of_reachable (hstack : y.stack = g :: t) (hentry : g.reachableEntry = true)
    (hy : y.reachable = true) : y.leave.reachable = true := by
  unfold DataflowState.leave
  rw [hstack]
  simp only [hentry, hy, Bool.and_self, Bool.true_or]

theorem reachable_leave_of_marked (hstack : y.stack = g :: t) (hkind : g.kind ≠ .loop)
    (hmarked : Marked 0 y.stack) : y.leave.reachable = true := by
  have hafter : g.afterReachable = true := hmarked g (by rw [hstack]; rfl) hkind
  unfold DataflowState.leave
  rw [hstack]
  simp only [hafter, Bool.or_true]

theorem marked_leave {l : ℕ} (hmarked : Marked (l + 1) y.stack) : Marked l y.leave.stack := by
  unfold DataflowState.leave
  split
  · rename_i f s hstack
    rw [hstack] at hmarked
    exact fun f' hf' => hmarked f' hf'
  · rename_i hstack
    intro f hf
    rw [hstack] at hf
    cases hf

theorem reachableBranches_leave (y : DataflowState) :
    y.leave.reachableBranches = y.reachableBranches := by
  unfold DataflowState.leave
  split <;> rfl

end Leave

/-- What is left out of a count, or is one way more, is made up for by a branch. -/
theorem two_pow_add_le (d k : ℕ) : 2 ^ d + k ≤ 2 ^ (d + k) := by
  have hk : k + 1 ≤ 2 ^ k := Nat.lt_two_pow_self
  have hd : 1 ≤ 2 ^ d := Nat.one_le_two_pow
  calc 2 ^ d + k ≤ 2 ^ d + 2 ^ d * k := Nat.add_le_add_left (Nat.le_mul_of_pos_left k hd) _
    _ = 2 ^ d * (k + 1) := by rw [Nat.mul_succ, Nat.add_comm]
    _ ≤ 2 ^ d * 2 ^ k := Nat.mul_le_mul_left _ hk
    _ = 2 ^ (d + k) := (Nat.pow_add 2 d k).symm

/-- Two arms count as one more branch. -/
theorem two_pow_add_two_pow_le (d d' : ℕ) : 2 ^ d + 2 ^ d' ≤ 2 ^ (1 + d + d') := by
  have hle : 2 ^ d ≤ 2 ^ d * 2 ^ d' := Nat.le_mul_of_pos_right _ (Nat.two_pow_pos d')
  have hle' : 2 ^ d' ≤ 2 ^ d * 2 ^ d' := Nat.le_mul_of_pos_left _ (Nat.two_pow_pos d)
  calc 2 ^ d + 2 ^ d' ≤ 2 * (2 ^ d * 2 ^ d') := by omega
    _ = 2 ^ (1 + d + d') := by rw [Nat.pow_add, Nat.pow_add, Nat.pow_one, Nat.mul_assoc]

/-- A block with one body. The paths inside are those of the body, some of which may be left out,
and maybe one that skips it. -/
theorem Sound.inside {o k : ℕ} {x : DataflowState} {t : Token} {f : DataflowFrame} {body : Code}
    (ps : List Path) (ls : List Outcome)
    (h : Sound (o + t.bytes.length) body (x.token t)) (hx : x.reachable = true)
    (hstack : (x.token t).stack = f :: x.stack) (hentry : f.reachableEntry = true)
    (hbranches : (x.token t).reachableBranches = x.reachableBranches + k)
    (hps : ∀ p ∈ ps, p = ([], .branch 0) ∨ p ∈ paths (o + t.bytes.length) body)
    (hlength : ps.length ≤ (paths (o + t.bytes.length) body).length + k)
    (hsnd : ∀ p ∈ ps, p.2 ∈ ls) (hls : ∀ l, .branch (l + 1) ∈ ls → .branch (l + 1) ∈ leaves body)
    (harrives : Arrives ls →
      .fall ∈ leaves body ∨ .branch 0 ∈ leaves body ∧ f.kind ≠ .loop) :
    Inside o (o + t.bytes.length + (bytesOf body.tokens).length)
      (t :: (body.tokens ++ [.endOp])) x ps ls := by
  have hstate : (t :: (body.tokens ++ [.endOp])).foldl DataflowState.token x =
      (after body (x.token t)).leave := by
    rw [List.foldl_cons, List.foldl_append]
    rfl
  -- at the end of the body, `g` is the frame of this block
  obtain ⟨g, u, hg, hfg, -⟩ := (advances_code body (x.token t)).of_cons hstack
  refine ⟨?_, hsnd, ?_, ?_, ?_, .head hx, ?_, ?_⟩
  · rw [bytesOf_cons, bytesOf_append, List.length_append, List.length_append, ← Nat.add_assoc,
      ← Nat.add_assoc]
    rfl
  · intro harr
    rw [hstate]
    rcases harrives harr with hfall | ⟨hbranch, hkind⟩
    · exact reachable_leave_of_reachable hg (hfg.2.1.trans hentry) (h.fall hfall)
    · exact reachable_leave_of_marked hg (hfg.1 ▸ hkind) (h.branch 0 hbranch)
  · intro l hl
    rw [hstate]
    exact marked_leave (h.branch (l + 1) (hls l hl))
  · obtain ⟨d, hd, hlen⟩ := h.bound
    refine ⟨d + k, ?_, ?_⟩
    · rw [hstate, reachableBranches_leave, hd, hbranches]
      omega
    · exact (hlength.trans (Nat.add_le_add_right hlen k)).trans (two_pow_add_le d k)
  · intro p hp j hj
    rcases hps p hp with rfl | hp
    · exact absurd hj List.not_mem_nil
    · exact .cons ((h.seen p hp j hj).append_left _)
  · intro p hp hfall
    rcases hps p hp with rfl | hp
    · cases hfall
    · have hreach := h.fall (hfall ▸ snd_mem_leaves body _ p hp)
      exact .cons (.append_right (.head hreach))

/-- At the `else` of an `if` that can be reached. -/
theorem elseArm_of_cons {y : DataflowState} {g : DataflowFrame} {u : List DataflowFrame}
    (hstack : y.stack = g :: u) (hkind : g.kind = .if) (hentry : g.reachableEntry = true) :
    y.elseArm = { y with
      stack := { g with afterReachable := g.afterReachable || y.reachable } :: u
      reachable := true } := by
  rw [DataflowState.elseArm, hstack]
  simp only [if_pos hkind, hentry]

/-- A block with two arms. The first goes on behind the second. -/
theorem Sound.insideArms {o : ℕ} {x : DataflowState} {bt : BlockType} {thenArm elseArm : Code}
    (hthen : Sound (o + (Token.ifOp bt).bytes.length) thenArm (x.count.push .if))
    (helse : ∀ y : DataflowState, y.reachable = true →
      Sound (o + (Token.ifOp bt).bytes.length + (bytesOf thenArm.tokens).length + 1) elseArm y)
    (hx : x.reachable = true) :
    Inside o (o + (Token.ifOp bt).bytes.length + (bytesOf thenArm.tokens).length + 1 +
        (bytesOf elseArm.tokens).length)
      (.ifOp bt :: (thenArm.tokens ++ .elseOp :: (elseArm.tokens ++ [.endOp]))) x
      ((paths (o + (Token.ifOp bt).bytes.length) thenArm).map
          (skipElse (o + (Token.ifOp bt).bytes.length + (bytesOf thenArm.tokens).length)) ++
        paths (o + (Token.ifOp bt).bytes.length + (bytesOf thenArm.tokens).length + 1) elseArm)
      ((leaves thenArm).map Outcome.skipElse ++ leaves elseArm) := by
  set y := after thenArm (x.count.push .if) with hy
  set z := after elseArm y.elseArm with hz
  have hcount : x.count = { x with reachableBranches := x.reachableBranches + 1 } := if_pos hx
  have hstate : (Token.ifOp bt :: (thenArm.tokens ++ .elseOp ::
      (elseArm.tokens ++ [.endOp]))).foldl DataflowState.token x = z.leave := by
    rw [List.foldl_cons, List.foldl_append, List.foldl_cons, List.foldl_append]
    rfl
  -- at the end of the first arm, `g` is the frame of this block, and at that of the second, `g'`
  obtain ⟨g, u, hg, hfg, -⟩ := (advances_code thenArm (x.count.push .if)).of_cons rfl
  have hentry : g.reachableEntry = true := hfg.2.1.trans (by rw [hcount]; exact hx)
  have helseOp := elseArm_of_cons (y := y) hg hfg.1 hentry
  have hsound := helse y.elseArm (by rw [helseOp])
  have hadvances : Advances y.elseArm z := advances_code elseArm y.elseArm
  obtain ⟨g', u', hg', hgg', -⟩ := hadvances.of_cons (by rw [helseOp])
  -- what is marked in the first arm stays so in the second, and its end marks the block
  have hmarked : ∀ l, Marked l y.stack → Marked l z.stack := fun l hl =>
    (hl.grows (Advances.elseArm y).grows).grows hadvances.grows
  have hfall : y.reachable = true → Marked 0 z.stack := by
    intro hreach
    refine Marked.grows ?_ hadvances.grows
    rw [helseOp]
    intro f hf _
    obtain rfl := Option.some.inj hf
    simp only [hreach, Bool.or_true]
  have hend : Marked 0 z.stack → z.leave.reachable = true :=
    reachable_leave_of_marked hg' (by rw [hgg'.1, hfg.1]; simp)
  refine ⟨?_, ?_, ?_, ?_, ?_, .head hx, ?_, ?_⟩
  · simp only [bytesOf_cons, bytesOf_append, List.length_append]
    have hone : Token.elseOp.bytes.length = 1 ∧ Token.endOp.bytes.length = 1 := ⟨rfl, rfl⟩
    simp only [bytesOf_nil, List.length_nil, hone]
    omega
  · intro p hp
    rcases List.mem_append.mp hp with hp | hp
    · obtain ⟨q, hq, rfl⟩ := List.mem_map.mp hp
      exact List.mem_append_left _ (List.mem_map_of_mem (snd_mem_leaves _ _ q hq))
    · exact List.mem_append_right _ (snd_mem_leaves _ _ p hp)
  · rw [hstate]
    rintro (hout | hout)
    · rcases List.mem_append.mp hout with hout | hout
      · -- the first arm never falls through to the `end`
        obtain ⟨out, -, hskip⟩ := List.mem_map.mp hout
        cases out <;> cases hskip
      · exact reachable_leave_of_reachable hg' (by rw [hgg'.2.1]; exact hentry) (hsound.fall hout)
    · rcases List.mem_append.mp hout with hout | hout
      · obtain ⟨out, hout, hskip⟩ := List.mem_map.mp hout
        cases out with
        | fall => exact hend (hfall (hthen.fall hout))
        | branch l =>
          obtain rfl : l = 0 := by simpa [Outcome.skipElse] using hskip
          exact hend (hmarked 0 (hthen.branch 0 hout))
        | exit => cases hskip
      · exact hend (hsound.branch 0 hout)
  · intro l hl
    rw [hstate]
    rcases List.mem_append.mp hl with hl | hl
    · obtain ⟨out, hout, hskip⟩ := List.mem_map.mp hl
      cases out with
      | fall => cases hskip
      | branch l' =>
        obtain rfl : l' = l + 1 := by simpa [Outcome.skipElse] using hskip
        exact marked_leave (hmarked _ (hthen.branch _ hout))
      | exit => cases hskip
    · exact marked_leave (hsound.branch (l + 1) hl)
  · obtain ⟨d, hd, hlen⟩ := hthen.bound
    obtain ⟨d', hd', hlen'⟩ := hsound.bound
    refine ⟨1 + d + d', ?_, ?_⟩
    · have hbranches : y.elseArm.reachableBranches = y.reachableBranches := by rw [helseOp]
      rw [hstate, reachableBranches_leave, hd', hbranches, hd, hcount]
      simp only [DataflowState.push]
      omega
    · rw [List.length_append, List.length_map]
      exact (Nat.add_le_add hlen hlen').trans (two_pow_add_two_pow_le d d')
  · intro p hp j hj
    rcases List.mem_append.mp hp with hp | hp
    · obtain ⟨q, hq, rfl⟩ := List.mem_map.mp hp
      have hseen := fun hj => (hthen.seen q hq j hj).append_left
      simp only [skipElse] at hj
      split at hj
      · rename_i hout
        rcases List.mem_append.mp hj with hj | hj
        · exact .cons (hseen hj _)
        · -- the `else` itself
          obtain rfl := List.mem_singleton.mp hj
          have hreach : y.reachable = true := hthen.fall (hout ▸ snd_mem_leaves _ _ q hq)
          exact .cons (.append_right (.head hreach))
      · exact .cons (hseen hj _)
    · -- a token of the second arm
      have hseen := (hsound.seen p hp j hj).append_left [.endOp]
      exact .cons (.append_right (.cons hseen))
  · intro p hp hout
    rcases List.mem_append.mp hp with hp | hp
    · obtain ⟨q, -, rfl⟩ := List.mem_map.mp hp
      have hne : q.2.skipElse ≠ .fall := by cases q.2 <;> simp [Outcome.skipElse]
      exact absurd hout hne
    · have hreach : z.reachable = true := hsound.fall (hout ▸ snd_mem_leaves _ _ p hp)
      exact .cons (.append_right (.cons (.append_right (.head hreach))))

/-- Code in which, an `unreachable` being passed over, no `br_table` that control arrives at has
more than two targets, and no `if` without `else` has an arm that always leaves for elsewhere. -/
def Tame : Code → Prop
  | .done => True
  | .instr i rest => i.jumps.length ≤ 2 ∧ (i.passes = true → Tame rest)
  | .block _ body rest => Tame body ∧ (Arrives (leaves body) → Tame rest)
  | .loop _ body rest => Tame body ∧ (.fall ∈ leaves body → Tame rest)
  | .ifThen _ thenArm rest => Tame thenArm ∧ Arrives (leaves thenArm) ∧ Tame rest
  | .ifElse _ thenArm elseArm rest => Tame thenArm ∧ Tame elseArm ∧
      (Arrives (leaves thenArm ++ leaves elseArm) → Tame rest)

theorem count_of_reachable {x : DataflowState} (hx : x.reachable = true) :
    x.count = { x with reachableBranches := x.reachableBranches + 1 } := if_pos hx

/-- Where control may pass an instruction, the pass knows it. -/
theorem reachable_token {x : DataflowState} {i : Instr} (hx : x.reachable = true)
    (hi : i.passes = true) : (x.token (.instr i)).reachable = true := by
  cases i with
  | plain p => exact hx
  | brIf l =>
    have hmark : (x.mark l.toNat).reachable = true := (x.reachable_mark _).trans hx
    rw [DataflowState.token, count_of_reachable hmark]
    exact hmark
  | br l => cases hi
  | brTable t => cases hi
  | ret => cases hi

theorem marked_mark {x : DataflowState} (hx : x.reachable = true) (l : ℕ) :
    Marked l (x.mark l).stack := by
  rw [DataflowState.mark_of_reachable hx]
  exact marked_markBranchTarget x.stack l

theorem marked_marks {x : DataflowState} (hx : x.reachable = true) {l : ℕ} {ls : List ℕ}
    (hl : l ∈ ls) : Marked l (ls.foldl DataflowState.mark x).stack := by
  induction ls generalizing x with
  | nil => exact absurd hl List.not_mem_nil
  | cons k ls ih =>
    rw [List.foldl_cons]
    rcases List.mem_cons.mp hl with rfl | hl
    · exact (marked_mark hx l).grows (Advances.marks _ ls).grows
    · exact ih ((x.reachable_mark k).trans hx) hl

/-- The targets of an instruction are marked. -/
theorem marked_token {x : DataflowState} {i : Instr} (hx : x.reachable = true) {l : ℕ}
    (hl : .branch l ∈ i.jumps) : Marked l (x.token (.instr i)).stack := by
  cases i with
  | plain p =>
    simp only [Instr.jumps] at hl
    split at hl
    · cases List.mem_singleton.mp hl
    · exact absurd hl List.not_mem_nil
  | br k =>
    cases List.mem_singleton.mp hl
    exact marked_mark hx _
  | brIf k =>
    cases List.mem_singleton.mp hl
    exact (marked_mark hx _).grows (Advances.count _).grows
  | brTable t =>
    obtain ⟨k, hk, hkl⟩ := List.mem_map.mp hl
    obtain rfl : k = l := by simpa using hkl
    exact (marked_marks hx (List.mem_dedup.mp hk)).grows (Advances.count _).grows
  | ret => cases List.mem_singleton.mp hl

/-- The ways on from an instruction are no more than the pass counts. -/
theorem length_jumps_le {x : DataflowState} {i : Instr} (hx : x.reachable = true)
    (hi : i.jumps.length ≤ 2) : ∃ d, (x.token (.instr i)).reachableBranches =
      x.reachableBranches + d ∧ i.jumps.length + i.continues.toNat ≤ 2 ^ d := by
  cases i with
  | plain p =>
    refine ⟨0, rfl, ?_⟩
    simp only [Instr.jumps, Instr.continues]
    cases (Instr.plain p).isUnreachable <;> decide
  | br l => exact ⟨0, by rw [DataflowState.token, DataflowState.mark_of_reachable hx]; rfl, le_rfl⟩
  | brIf l =>
    have hmark : (x.mark l.toNat).reachable = true := (x.reachable_mark _).trans hx
    refine ⟨1, ?_, Nat.le_refl _⟩
    rw [DataflowState.token, count_of_reachable hmark, DataflowState.mark_of_reachable hx]
  | brTable t =>
    have hmarks : ((t.targets.map (·.toNat)).foldl DataflowState.mark x).reachable = true := by
      rw [DataflowState.foldl_mark_of_reachable hx]
      exact hx
    refine ⟨1, ?_, hi⟩
    rw [DataflowState.token, count_of_reachable hmarks, DataflowState.foldl_mark_of_reachable hx]
    rfl
  | ret => exact ⟨1, by rw [DataflowState.token, count_of_reachable hx]; rfl, by decide⟩

/-- An instruction, and the code behind it. -/
theorem sound_instr {o : ℕ} {x : DataflowState} {i : Instr} {rest : Code}
    (hi : i.jumps.length ≤ 2) (hx : x.reachable = true)
    (hrest : i.passes = true → Sound (o + i.bytes.length) rest (x.token (.instr i))) :
    Sound o (.instr i rest) x := by
  have hadvances := advances_code rest (x.token (.instr i))
  have hfall : .fall ∉ i.jumps := by
    cases i with
    | plain p => simp only [Instr.jumps]; split <;> simp
    | br l => simp [Instr.jumps]
    | brIf l => simp [Instr.jumps]
    | brTable t => simp [Instr.jumps]
    | ret => simp [Instr.jumps]
  refine ⟨?_, ?_, ?_, ?_⟩
  · intro hmem
    rcases List.mem_append.mp hmem with hmem | hmem
    · exact absurd hmem hfall
    · split at hmem
      · rename_i hpasses
        exact (hrest hpasses).fall hmem
      · exact absurd hmem List.not_mem_nil
  · intro l hmem
    rcases List.mem_append.mp hmem with hmem | hmem
    · exact (marked_token hx hmem).grows hadvances.grows
    · split at hmem
      · rename_i hpasses
        exact (hrest hpasses).branch l hmem
      · exact absurd hmem List.not_mem_nil
  · obtain ⟨d, hd, hjumps⟩ := length_jumps_le hx hi
    -- the paths behind the instruction count if it is passed
    obtain ⟨d', hd', hlen⟩ : ∃ d', (after rest (x.token (.instr i))).reachableBranches =
        (x.token (.instr i)).reachableBranches + d' ∧
        (i.continues = true → (paths (o + i.bytes.length) rest).length ≤ 2 ^ d') := by
      by_cases hpasses : i.passes = true
      · obtain ⟨d', hd', hlen⟩ := (hrest hpasses).bound
        exact ⟨d', hd', fun _ => hlen⟩
      · exact ⟨_, (Nat.add_sub_cancel' hadvances.le).symm,
          fun h => absurd (Instr.passes_of_continues h) hpasses⟩
    refine ⟨d + d', hd'.trans (by rw [hd, Nat.add_assoc]), ?_⟩
    have hpow : 1 ≤ 2 ^ d' := Nat.one_le_two_pow
    rw [paths, List.length_append, List.length_map, Nat.pow_add]
    by_cases hgo : i.continues = true
    · rw [hgo, Bool.toNat_true] at hjumps
      rw [if_pos hgo, List.length_map]
      calc i.jumps.length + (paths (o + i.bytes.length) rest).length
          ≤ i.jumps.length * 2 ^ d' + 2 ^ d' :=
            Nat.add_le_add (Nat.le_mul_of_pos_right _ hpow) (hlen hgo)
        _ = (i.jumps.length + 1) * 2 ^ d' := (Nat.succ_mul _ _).symm
        _ ≤ 2 ^ d * 2 ^ d' := Nat.mul_le_mul_right _ hjumps
    · rw [if_neg hgo, List.length_nil, Nat.add_zero]
      calc i.jumps.length ≤ 2 ^ d := Nat.le_trans (Nat.le_add_right _ _) hjumps
        _ ≤ 2 ^ d * 2 ^ d' := Nat.le_mul_of_pos_right _ hpow
  · intro p hp k hk
    rcases List.mem_append.mp hp with hp | hp
    · obtain ⟨out, -, rfl⟩ := List.mem_map.mp hp
      obtain rfl := List.mem_singleton.mp hk
      exact .head hx
    · split at hp
      · rename_i hgo
        obtain ⟨q, hq, rfl⟩ := List.mem_map.mp hp
        rcases List.mem_cons.mp hk with rfl | hk
        · exact .head hx
        · exact .cons ((hrest (Instr.passes_of_continues hgo)).seen q hq k hk)
      · exact absurd hp List.not_mem_nil

section Openings

variable {x : DataflowState} (bt : BlockType)

theorem token_blockOp (hx : x.reachable = true) :
    x.token (.blockOp bt) = ⟨⟨.block, true, false⟩ :: x.stack, true, x.reachableBranches⟩ := by
  rw [DataflowState.token, DataflowState.push, hx]

theorem token_loopOp (hx : x.reachable = true) :
    x.token (.loopOp bt) = ⟨⟨.loop, true, false⟩ :: x.stack, true, x.reachableBranches + 1⟩ := by
  rw [DataflowState.token, count_of_reachable hx, DataflowState.push, hx]

theorem token_ifOp (hx : x.reachable = true) :
    x.token (.ifOp bt) = ⟨⟨.if, true, false⟩ :: x.stack, true, x.reachableBranches + 1⟩ := by
  rw [DataflowState.token, count_of_reachable hx, DataflowState.push, hx]

end Openings

/-- **A pass over tame code that can be reached is sound.** -/
theorem sound_code {c : Code} (hc : Tame c) (o : ℕ) {x : DataflowState} (hx : x.reachable = true) :
    Sound o c x := by
  induction c generalizing o x with
  | done =>
    refine ⟨fun _ => hx, ?_, ⟨0, rfl, Nat.le_refl _⟩, ?_⟩
    · intro l hl
      cases List.mem_singleton.mp hl
    · intro p hp k hk
      obtain rfl := List.mem_singleton.mp hp
      exact absurd hk List.not_mem_nil
  | instr i rest ih =>
    exact sound_instr hc.1 hx fun hpasses => ih (hc.2 hpasses) _ (reachable_token hx hpasses)
  | block bt body rest ihb ihr =>
    have hopen := token_blockOp bt hx
    have hbody := ihb hc.1 (o + (Token.blockOp bt).bytes.length)
      (show (x.token (.blockOp bt)).reachable = true by rw [hopen])
    have hinside := hbody.inside (k := 0) (f := ⟨.block, true, false⟩) _ (leaves body) hx
      (by rw [hopen]) rfl (by rw [hopen]; rfl) (fun p hp => .inr hp) (Nat.le_refl _)
      (snd_mem_leaves body _) (fun l hl => hl) fun harr => harr.imp_right fun h => ⟨h, by decide⟩
    exact hinside.sound (by simp [Code.tokens]) rfl rfl fun harr =>
      ihr (hc.2 harr) _ (hinside.arrives harr)
  | loop bt body rest ihb ihr =>
    have hopen := token_loopOp bt hx
    have hbody := ihb hc.1 (o + (Token.loopOp bt).bytes.length)
      (show (x.token (.loopOp bt)).reachable = true by rw [hopen])
    have hfall : Arrives ((leaves body).filter (· ≠ .branch 0)) → .fall ∈ leaves body := by
      rintro (h | h)
      · exact List.mem_of_mem_filter h
      · simp at h
    -- what goes back to the beginning does not arrive behind the loop
    have hinside := hbody.inside (k := 1) (f := ⟨.loop, true, false⟩)
      ((paths (o + (Token.loopOp bt).bytes.length) body).filter fun p => p.2 ≠ .branch 0)
      ((leaves body).filter (· ≠ .branch 0)) hx (by rw [hopen]) rfl (by rw [hopen])
      (fun p hp => .inr (List.mem_of_mem_filter hp))
      (Nat.le_succ_of_le (List.length_filter_le _ _)) (by
        intro p hp
        rw [List.mem_filter] at hp ⊢
        exact ⟨snd_mem_leaves body _ p hp.1, hp.2⟩)
      (fun l hl => List.mem_of_mem_filter hl) fun harr => .inl (hfall harr)
    exact hinside.sound (by simp [Code.tokens]) rfl rfl fun harr =>
      ihr (hc.2 (hfall harr)) _ (hinside.arrives harr)
  | ifThen bt thenArm rest iht ihr =>
    have hopen := token_ifOp bt hx
    have harm := iht hc.1 (o + (Token.ifOp bt).bytes.length)
      (show (x.token (.ifOp bt)).reachable = true by rw [hopen])
    have hinside := harm.inside (k := 1) (f := ⟨.if, true, false⟩)
      (([], .branch 0) :: paths (o + (Token.ifOp bt).bytes.length) thenArm)
      (.branch 0 :: leaves thenArm) hx (by rw [hopen]) rfl (by rw [hopen])
      (fun p hp => List.mem_cons.mp hp) (Nat.le_refl _) (by
        intro p hp
        rcases List.mem_cons.mp hp with rfl | hp
        · exact List.mem_cons_self
        · exact List.mem_cons_of_mem _ (snd_mem_leaves thenArm _ p hp))
      (fun l hl => by simpa using hl)
      -- the analysis does not see that the arm may be skipped
      fun _ => hc.2.1.imp_right fun h => ⟨h, by decide⟩
    exact hinside.sound (by simp [Code.tokens]) rfl rfl fun harr =>
      ihr hc.2.2 _ (hinside.arrives harr)
  | ifElse bt thenArm elseArm rest iht ihe ihr =>
    have harm := iht hc.1 (o + (Token.ifOp bt).bytes.length)
      (show (x.count.push .if).reachable = true by rw [count_of_reachable hx]; exact hx)
    have hinside := harm.insideArms (fun y hy => ihe hc.2.1 _ hy) hx
    refine hinside.sound (by simp [Code.tokens]) rfl rfl fun harr => ?_
    exact ihr (hc.2.2 (arrives_of_skipElse harr)) _ (hinside.arrives harr)

/-! ## The estimate -/

def isBranch : Token → Bool
  | .loopOp _ => true
  | .ifOp _ => true
  | .instr (.plain _) => false
  | .instr _ => true
  | _ => false

/-- The offsets of the branch instructions of a body. -/
def branchOffsets (f : Func) : List ℕ := (f.placedTokens.filter fun p => isBranch p.2).map Prod.fst

/-- The estimate is an upper bound, and the branch instructions that control arrives at on some path
are read in states in which they can be reached. -/
structure EstimateSound (f : Func) : Prop where
  bound : f.paths.toFinset.card ≤ estimatePathsViaDataflow f.bytes ∨
    estimatePathsViaDataflow f.bytes = maxEstimatedPaths
  reachable : ∀ p ∈ f.paths, ∀ o ∈ p, o ∈ branchOffsets f →
    ∃ st ∈ dataflow.rounds f.bytes .start, st.1.pos = o ∧ st.2.reachable = true

/-- The estimate is a power of two, unless it is the cap. -/
theorem le_estimate {n k : ℕ} {body : List UInt8}
    (hn : (dataflow.run body .start).reachableBranches = n) (hk : k ≤ 2 ^ n) :
    k ≤ estimatePathsViaDataflow body ∨ estimatePathsViaDataflow body = maxEstimatedPaths := by
  rw [estimatePathsViaDataflow, hn]
  rcases Nat.lt_or_ge n 6 with hlt | hge
  · have hpow : 2 ^ n ≤ 2 ^ 6 := Nat.pow_le_pow_right (by decide) hlt.le
    refine .inl ?_
    split
    · rename_i h0
      rwa [h0] at hk
    · rw [Nat.min_eq_left hlt.le]
      exact Nat.le_min.mpr ⟨hk, Nat.le_trans hk hpow⟩
  · refine .inr ?_
    simp only [if_neg (show ¬n = 0 by omega), Nat.min_eq_right hge]
    rfl

/-- **The estimate is an upper bound, and reachable branches are treated as such**, in bodies with
tame code and no misread instruction. -/
theorem estimate_sound {f : Func} (hread : ∀ o ∈ f.opcodes, ¬Misread o) (htame : Tame f.code) :
    EstimateSound f := by
  have hsound : Sound f.header.length f.code .start := sound_code htame _ rfl
  have hrun := dataflow_follows.run_eq ((forall_read_iff f).mpr hread) .start
  have hrounds := dataflow_follows.rounds_eq ((forall_read_iff f).mpr hread) .start
  constructor
  · -- the final `end` counts nothing
    obtain ⟨d, hd, hlen⟩ := hsound.bound
    have hbranches : (dataflow.run f.bytes .start).reachableBranches = d := by
      rw [hrun, Func.tokens, List.foldl_append]
      exact (reachableBranches_leave _).trans (hd.trans (Nat.zero_add d))
    refine le_estimate hbranches (f.paths.toFinset_card_le.trans ?_)
    rw [Func.paths, List.length_map]
    exact hlen
  · intro p hp o ho _
    have hseen : Seen f.header.length .start f.tokens o := by
      obtain ⟨q, hq, rfl⟩ := List.mem_map.mp hp
      split at ho
      · rename_i hfall
        rcases List.mem_append.mp ho with ho | ho
        · exact (hsound.seen q hq o ho).append_left _
        · -- the final `end`
          obtain rfl := List.mem_singleton.mp ho
          exact .append_right (.head (hsound.fall (hfall ▸ snd_mem_leaves _ _ q hq)))
      · exact (hsound.seen q hq o ho).append_left _
    obtain ⟨y, hy, hreach⟩ := hseen
    rw [← hrounds] at hy
    obtain ⟨st, hst, hreading⟩ := List.mem_map.mp hy
    obtain ⟨rfl, rfl⟩ := Prod.mk.inj hreading
    exact ⟨st, hst, rfl, hreach⟩

/-- Blocks of no parameters and no results. -/
def emptyType : BlockType := ⟨[0x40], .inl rfl⟩

/-- `local.get 0`. -/
def getParam : Instr :=
  .plain ⟨.core 0x20, [[0x00]], [.u32], rfl, .cons ⟨.ofBits 0, rfl⟩ .nil⟩

def unreachable : Instr := .plain ⟨.core 0x00, [], [], rfl, .nil⟩

/-- An `if` whose arm is left by a trap, and a block that is left by a `br_if` or by a `return`. -/
def guardedBody : Func :=
  .ofCode (.instr getParam <| .ifThen emptyType (.instr unreachable .done) <|
    .block emptyType
      (.instr getParam <| .instr (.brIf (.ofBits 0)) <| .instr .ret .done) .done)
    (by decide)

theorem estimate_sound_guarded : EstimateSound guardedBody :=
  estimate_sound (by decide) (by simp [guardedBody, Func.ofCode, Tame]; decide)

/-- An `if` whose arm returns, and two more. -/
def returningBody : Func :=
  .ofCode (.instr getParam <| .ifThen emptyType (.instr .ret .done) <|
    .instr getParam <| .ifThen emptyType .done <| .instr getParam <| .ifThen emptyType .done .done)
    (by decide)

/-- Three blocks, and a `br_table` with a way behind each. -/
def switchBody : Func :=
  .ofCode (.block emptyType (.block emptyType (.block emptyType (.instr getParam <|
    .instr (.brTable ⟨.ofBits 2, [.ofBits 0, .ofBits 1],
      .ofBits 2, rfl⟩) .done) .done) .done) .done) (by decide)

/-- There are five paths through the one and three through the other; four and two are expected. -/
theorem not_estimateSound : ¬EstimateSound returningBody ∧ ¬EstimateSound switchBody := by
  constructor
  · intro h
    have hbound := h.bound
    revert hbound
    decide +kernel
  · intro h
    have hbound := h.bound
    revert hbound
    decide +kernel

end Core.WasmBranchAnalysis
