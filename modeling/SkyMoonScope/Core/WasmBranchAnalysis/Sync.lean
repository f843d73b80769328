import SkyMoonScope.Core.WasmBranchAnalysis.Scanner
import SkyMoonScope.Lib.Wasm.Binary

/-!
# Passes that stay in step with the instructions

A pass over a function body reads its opcodes where the tokens of the body begin, and does to its
state what each token stands for, up to the first instruction whose immediates are not skipped.

## Main definitions

* `Misread`: the opcodes whose immediates are not skipped, or not all of them
* `Follows P effect`: at a token, the pass `P` does `effect`
* `trace`: the states before each of a sequence of tokens, with its offset

## Main results

* `skipInstructionImmediates_plain`, `skipInstructionImmediates_of_misread`: the immediates are
  skipped exactly when the opcode is not misread
* `Follows.run_eq`, `Follows.rounds_eq`: a pass over a body without misread instructions
* `rounds_of_misread`: after a misread instruction, an opcode is read within it
-/

namespace Core.WasmBranchAnalysis

open Wasm.Binary

/-- The opcodes whose immediates are not all skipped: `select` with its types, `ref.null` and
`ref.func`, `table.copy`, and the vector instructions with immediates. -/
def Misread : Opcode → Prop
  | .core b => b = 0x1C ∨ b = 0xD0 ∨ b = 0xD2
  | .misc n => n.toNat = 14
  | .simd n => simdForms n.toNat ≠ some []

instance : DecidablePred Misread := fun o =>
  match o with
  | .core b => inferInstanceAs (Decidable (b = 0x1C ∨ b = 0xD0 ∨ b = 0xD2))
  | .misc n => inferInstanceAs (Decidable (n.toNat = 14))
  | .simd n => inferInstanceAs (Decidable (simdForms n.toNat ≠ some []))

/-! ## Immediates -/

/-- The two ways to skip an immediate. -/
inductive Skip
  | leb
  | bytes (n : ℕ)
deriving DecidableEq

def Skip.run : Skip → Scanner → Scanner
  | leb, s => s.skipLeb128
  | bytes n, s => s.skip n

def runSkips (ks : List Skip) (s : Scanner) : Scanner := ks.foldl (fun s k => k.run s) s

/-- How an immediate of a form is skipped. -/
def skipOf : Form → Option Skip
  | .u32 => some .leb
  | .memory => some .leb
  | .signed _ => some .leb
  | .bytes n => some (.bytes n)
  | .refType => none
  | .valTypes => none

/-- What is skipped after an opcode of one byte. -/
def coreSkips (opcode : UInt8) : List Skip :=
  if opcode = opCall then [.leb]
  else if opcode = opCallIndirect then [.leb, .leb]
  else if opcode = 0x25 ∨ opcode = 0x26 then [.leb]
  else if 0x20 ≤ opcode ∧ opcode ≤ 0x24 then [.leb]
  else if 0x28 ≤ opcode ∧ opcode ≤ 0x3E then [.leb, .leb]
  else if opcode = 0x3F ∨ opcode = 0x40 then [.leb]
  else if opcode = 0x41 then [.leb]
  else if opcode = 0x42 then [.leb]
  else if opcode = 0x43 then [.bytes 4]
  else if opcode = 0x44 then [.bytes 8]
  else []

/-- What is skipped after an opcode of `0xFC`. -/
def miscSkips (sub : ℕ) : List Skip :=
  if sub = 8 ∨ sub = 10 ∨ sub = 12 then [.leb, .leb]
  else if sub = 9 ∨ sub = 11 ∨ 13 ≤ sub ∧ sub ≤ 17 then [.leb]
  else []

theorem skipInstructionImmediates_core {b : UInt8} (hmisc : b ≠ 0xFC) (hsimd : b ≠ 0xFD)
    (s : Scanner) : skipInstructionImmediates b s = runSkips (coreSkips b) s := by
  rw [skipInstructionImmediates, coreSkips, if_neg hmisc, if_neg hsimd]
  simp only [apply_ite (runSkips · s)]
  rfl

theorem skipInstructionImmediates_misc (s : Scanner) : skipInstructionImmediates 0xFC s =
    runSkips (miscSkips (s.readLeb128U32.1.getD 0)) s.readLeb128U32.2 := by
  rw [miscSkips]
  simp only [apply_ite (runSkips · s.readLeb128U32.2)]
  rfl

theorem skipInstructionImmediates_simd (s : Scanner) :
    skipInstructionImmediates 0xFD s = s.skipLeb128 := rfl

/-- The core opcodes that are not misread skip an immediate for each form. -/
theorem map_skipOf_coreForms {b : UInt8} {fs : List Form} (h : coreForms b = some fs)
    (hb : ¬Misread (.core b)) : fs.map skipOf = (coreSkips b).map some := by
  have hall : Misread (.core b) ∨
      (coreForms b).all (fun fs => fs.map skipOf = (coreSkips b).map some) = true :=
    UInt8.forall_of_fin
      (p := fun b => Misread (.core b) ∨
        (coreForms b).all (fun fs => fs.map skipOf = (coreSkips b).map some) = true)
      (by decide +kernel) b
  simpa [h, hb] using hall

theorem map_skipOf_miscForms {n : ℕ} {fs : List Form} (h : miscForms n = some fs) (hn : n ≠ 14) :
    fs.map skipOf = (miscSkips n).map some := by
  have hle : n ≤ 17 := by
    by_contra hlt
    rw [miscForms] at h
    repeat rw [if_neg (by omega)] at h
    cases h
  have hall : ∀ n : Fin 18, n.val = 14 ∨
      (miscForms n.val).all (fun fs => fs.map skipOf = (miscSkips n.val).map some) = true := by
    decide +kernel
  simpa [h, hn] using hall ⟨n, by omega⟩

/-- One immediate is skipped exactly. -/
theorem run_of_accepts {f : Form} {k : Skip} {s : Scanner} {bs tail : List UInt8}
    (hf : f.Accepts bs) (hne : f ≠ .bytes 0) (hk : skipOf f = some k)
    (h : s.rest = bs ++ tail) : k.run s = s.advance bs.length := by
  have hpos := hf.length_pos hne
  cases f with
  | u32 =>
    obtain ⟨n, rfl⟩ := hf
    cases hk
    exact Scanner.skipLeb128_of_rest n.encoded h
  | memory =>
    obtain rfl : bs = [0x00] := hf
    cases hk
    exact Scanner.skipLeb128_of_rest (by decide) h
  | signed w =>
    obtain ⟨n, rfl⟩ := hf
    cases hk
    exact Scanner.skipLeb128_of_rest n.encoded h
  | bytes n =>
    obtain rfl : bs.length = n := hf
    cases hk
    exact Scanner.skip_of_rest h hpos
  | refType => cases hk
  | valTypes => cases hk

/-- Immediates are skipped one by one. -/
theorem runSkips_of_accepts {fs : List Form} {bss : List (List UInt8)} {ks : List Skip}
    {s : Scanner} {tail : List UInt8} (hacc : List.Forall₂ Form.Accepts fs bss)
    (hne : ∀ f ∈ fs, f ≠ .bytes 0) (hks : fs.map skipOf = ks.map some)
    (h : s.rest = bss.flatten ++ tail) : runSkips ks s = s.advance bss.flatten.length := by
  induction hacc generalizing ks s with
  | nil =>
    obtain rfl : ks = [] := by simpa using hks.symm
    rfl
  | @cons f bs fs bss hf _ ih =>
    cases ks with
    | nil => simp at hks
    | cons k ks =>
      rw [List.map_cons, List.map_cons, List.cons.injEq] at hks
      rw [List.flatten_cons, List.append_assoc] at h
      have hrun := run_of_accepts hf (hne f List.mem_cons_self) hks.1 h
      calc runSkips (k :: ks) s = runSkips ks (s.advance bs.length) := by
            rw [runSkips, List.foldl_cons, hrun, runSkips]
        _ = (s.advance bs.length).advance bss.flatten.length :=
            ih (fun g hg => hne g (List.mem_cons_of_mem f hg)) hks.2 (Scanner.rest_advance h)
        _ = s.advance (bs :: bss).flatten.length := by
            rw [Scanner.advance_advance, List.flatten_cons, List.length_append]

/-- The opcodes that the passes handle themselves. -/
def controlOps : List UInt8 :=
  [opBlock, opLoop, opIf, opElse, opEnd, opBr, opBrIf, opBrTable, opReturn]

theorem first_ne_of_mem_controlOps (p : Plain) : ∀ b ∈ controlOps, p.opcode.first ≠ b := by
  obtain ⟨fs, hfs, -⟩ := p.wellFormed
  have hcontrol : ∀ b ∈ controlOps, coreForms b = none ∧ 0xFC ≠ b ∧ 0xFD ≠ b := by decide +kernel
  intro b hb
  obtain ⟨hnone, hmisc, hsimd⟩ := hcontrol b hb
  cases hop : p.opcode with
  | core c =>
    rw [hop] at hfs
    rintro rfl
    exact Option.some_ne_none fs (hfs.symm.trans hnone)
  | misc n => exact hmisc
  | simd n => exact hsimd

/-- The immediates of an instruction that is not misread are skipped exactly. -/
theorem skipInstructionImmediates_plain {p : Plain} {s : Scanner} {tail : List UInt8}
    (hp : ¬Misread p.opcode) (h : s.rest = p.opcode.sub ++ p.immediates.flatten ++ tail) :
    skipInstructionImmediates p.opcode.first s =
      s.advance (p.opcode.sub ++ p.immediates.flatten).length := by
  obtain ⟨fs, hfs, hacc⟩ := p.wellFormed
  have hne := Opcode.ne_bytes_zero hfs
  rw [List.append_assoc] at h
  rw [List.length_append, ← Scanner.advance_advance]
  cases hop : p.opcode with
  | core b =>
    rw [hop] at hfs hp h
    -- the prefixes are no core opcodes
    have hmisc : b ≠ 0xFC := by rintro rfl; cases hfs
    have hsimd : b ≠ 0xFD := by rintro rfl; cases hfs
    exact (skipInstructionImmediates_core hmisc hsimd s).trans
      (runSkips_of_accepts hacc hne (map_skipOf_coreForms hfs hp) h)
  | misc n =>
    rw [hop] at hfs hp h
    have hread := Scanner.readLeb128U32_of_rest n h
    rw [Opcode.first, skipInstructionImmediates_misc, hread]
    exact runSkips_of_accepts hacc hne (map_skipOf_miscForms hfs hp) (Scanner.rest_advance h)
  | simd n =>
    rw [hop] at hfs hp h
    -- vector instructions without immediates
    obtain rfl : fs = [] := Option.some.inj (hfs.symm.trans (not_not.mp hp))
    rw [List.forall₂_nil_left_iff.mp hacc]
    exact Scanner.skipLeb128_of_rest n.encoded h

/-- After a misread instruction the cursor is still within it. -/
theorem skipInstructionImmediates_of_misread {p : Plain} {s : Scanner} {tail : List UInt8}
    (hp : Misread p.opcode) (h : s.rest = p.opcode.sub ++ p.immediates.flatten ++ tail) :
    ∃ k < (p.opcode.sub ++ p.immediates.flatten).length,
      skipInstructionImmediates p.opcode.first s = s.advance k := by
  obtain ⟨fs, hfs, hacc⟩ := p.wellFormed
  have hpos : ∀ {f fs}, p.opcode.forms = some (f :: fs) → 0 < p.immediates.flatten.length :=
    Plain.length_immediates_pos
  rw [List.append_assoc] at h
  rw [List.length_append]
  cases hop : p.opcode with
  | core b =>
    rw [hop] at hfs hp h hpos
    -- nothing is skipped, and there are immediates
    rcases hp with rfl | rfl | rfl
    · exact ⟨0, Nat.add_pos_right _ (hpos rfl), rfl⟩
    · exact ⟨0, Nat.add_pos_right _ (hpos rfl), rfl⟩
    · exact ⟨0, Nat.add_pos_right _ (hpos rfl), rfl⟩
  | misc n =>
    -- `table.copy`: the second of its tables is not skipped
    rw [hop] at hfs hp h
    have hn : n.toNat = 14 := hp
    have hforms : fs = [.u32, .u32] := by
      rw [Opcode.forms, hn] at hfs
      exact (Option.some.inj hfs).symm
    obtain ⟨bs, bss, hbs, hbss, himm⟩ := List.forall₂_cons_left_iff.mp (hforms ▸ hacc)
    obtain ⟨bs', _, hbs', hnil, rfl⟩ := List.forall₂_cons_left_iff.mp hbss
    obtain rfl := List.forall₂_nil_left_iff.mp hnil
    obtain ⟨m, rfl⟩ := hbs
    have hread := Scanner.readLeb128U32_of_rest n h
    have hrest := Scanner.rest_advance h
    rw [himm, List.flatten_cons, List.append_assoc] at hrest
    refine ⟨n.bytes.length + m.bytes.length, ?_, ?_⟩
    · have hlt := hbs'.length_pos (by decide)
      simp only [himm, Opcode.sub, List.flatten_cons, List.flatten_nil, List.append_nil,
        List.length_append]
      omega
    · rw [Opcode.first, skipInstructionImmediates_misc, hread, Option.getD_some, hn,
        ← Scanner.advance_advance]
      exact Scanner.skipLeb128_of_rest m.encoded hrest
  | simd n =>
    rw [hop] at hfs hp h hpos
    -- only the number of the instruction is skipped
    cases fs with
    | nil => exact absurd hfs hp
    | cons f fs =>
      exact ⟨n.bytes.length, Nat.lt_add_of_pos_right (hpos hfs),
        Scanner.skipLeb128_of_rest n.encoded h⟩

/-! ## Tokens -/

/-- The tokens that are not misread. -/
def Read : Token → Prop
  | .instr (.plain p) => ¬Misread p.opcode
  | _ => True

theorem exists_misread_of_not_read {t : Token} (h : ¬Read t) :
    ∃ p, t = .instr (.plain p) ∧ Misread p.opcode := by
  cases t with
  | instr i =>
    cases i with
    | plain p => exact ⟨p, rfl, not_not.mp h⟩
    | br l => exact absurd trivial h
    | brIf l => exact absurd trivial h
    | brTable t => exact absurd trivial h
    | ret => exact absurd trivial h
  | blockOp bt => exact absurd trivial h
  | loopOp bt => exact absurd trivial h
  | ifOp bt => exact absurd trivial h
  | elseOp => exact absurd trivial h
  | endOp => exact absurd trivial h

/-- A body whose tokens are read is one without misread instructions. -/
theorem forall_read_iff (f : Func) :
    (∀ t ∈ f.tokens, Read t) ↔ ∀ o ∈ f.opcodes, ¬Misread o := by
  constructor
  · intro h o ho
    obtain ⟨t, ht, hto⟩ := List.mem_filterMap.mp ho
    have hread := h t ht
    unfold Token.opcode? at hto
    split at hto
    · obtain rfl := Option.some.inj hto
      exact hread
    · cases hto
  · intro h t ht
    by_contra hnot
    obtain ⟨p, rfl, hp⟩ := exists_misread_of_not_read hnot
    exact h p.opcode (List.mem_filterMap.mpr ⟨_, ht, rfl⟩) hp

/-- The first misread instruction of a sequence. -/
theorem exists_first_misread {ts : List Token} (h : ¬∀ t ∈ ts, Read t) :
    ∃ us p vs, ts = us ++ .instr (.plain p) :: vs ∧ (∀ t ∈ us, Read t) ∧ Misread p.opcode := by
  induction ts with
  | nil => exact absurd (fun t ht => absurd ht List.not_mem_nil) h
  | cons t ts ih =>
    by_cases ht : Read t
    · have htail : ¬∀ u ∈ ts, Read u := fun hall => h (List.forall_mem_cons.mpr ⟨ht, hall⟩)
      obtain ⟨us, p, vs, rfl, hus, hp⟩ := ih htail
      exact ⟨t :: us, p, vs, rfl, List.forall_mem_cons.mpr ⟨ht, hus⟩, hp⟩
    · obtain ⟨p, rfl, hp⟩ := exists_misread_of_not_read ht
      exact ⟨[], p, ts, rfl, fun u hu => absurd hu List.not_mem_nil, hp⟩

/-- At a token that is not misread, the pass reads it exactly, and has the effect on its state; at
any other it skips immediates. -/
structure Follows {X : Type} (P : Pass X) (effect : X → Token → X) : Prop where
  round : ∀ {t s x tail}, Read t → s.rest = t.bytes ++ tail →
    P.round (s, x) = (s.advance t.bytes.length, effect x t)
  plain : ∀ (p : Plain) s x,
    (P.instruction p.opcode.first s x).1 = skipInstructionImmediates p.opcode.first s

/-- The states before each of a sequence of tokens, with the offsets of these. -/
def trace {X : Type} (effect : X → Token → X) : ℕ → X → List Token → List (ℕ × X)
  | _, _, [] => []
  | o, x, t :: ts => (o, x) :: trace effect (o + t.bytes.length) (effect x t) ts

theorem map_fst_trace {X : Type} (effect : X → Token → X) (o : ℕ) (x : X) (ts : List Token) :
    (trace effect o x ts).map Prod.fst = (placed o ts).map Prod.fst := by
  induction ts generalizing o x with
  | nil => rfl
  | cons t ts ih => rw [trace, placed, List.map_cons, List.map_cons, ih]

theorem trace_append {X : Type} (effect : X → Token → X) (o : ℕ) (x : X) (ts us : List Token) :
    trace effect o x (ts ++ us) =
      trace effect o x ts ++ trace effect (o + (bytesOf ts).length) (ts.foldl effect x) us := by
  induction ts generalizing o x with
  | nil => rfl
  | cons t ts ih =>
    simp only [List.cons_append, trace, ih, bytesOf_cons, List.length_append, Nat.add_assoc,
      List.foldl_cons]

/-- Where an opcode is read, and in which state. -/
def reading {X : Type} (st : Scanner × X) : ℕ × X := (st.1.pos, st.2)

theorem left_pos_of_rest {X : Type} {P : Pass X} {t : Token} {s : Scanner} {tail : List UInt8}
    (h : s.rest = t.bytes ++ tail) (x : X) : 0 < P.loop.left (s, x) := by
  have hpos := t.length_bytes_pos
  have hleft : P.loop.left (s, x) = s.remaining := rfl
  rw [hleft, Scanner.remaining_eq, h, List.length_append]
  omega

theorem round_of_rest {X : Type} {P : Pass X} {b : UInt8} {s : Scanner} {tail : List UInt8}
    (h : s.rest = b :: tail) (x : X) : P.round (s, x) = P.instruction b (s.advance 1) x := by
  have hread : s.readByte = (some b, s.advance 1) := Scanner.readByte_of_rest h
  rw [Pass.round, hread]

/-- A pass that skips the immediates of an instruction, and does nothing else. -/
theorem round_plain {X : Type} {P : Pass X} {p : Plain} {s : Scanner} {tail : List UInt8}
    (hP : ∀ s x, P.instruction p.opcode.first s x = (skipInstructionImmediates p.opcode.first s, x))
    (hp : ¬Misread p.opcode) (h : s.rest = p.bytes ++ tail) (x : X) :
    P.round (s, x) = (s.advance p.bytes.length, x) := by
  have himm := skipInstructionImmediates_plain hp (Scanner.rest_advance_one h)
  rw [round_of_rest h x, hP, himm, Scanner.advance_advance, Plain.bytes, List.length_cons,
    Nat.add_comm]

/-- The count of a `br_table`, and then the labels with the default. -/
theorem rest_brTable {t : Table} {s : Scanner} {tail : List UInt8}
    (h : s.rest = (Token.instr (.brTable t)).bytes ++ tail) :
    (s.advance 1).rest = t.count.bytes ++ (t.targets.flatMap (·.bytes) ++ tail) ∧
      ((s.advance 1).advance t.count.bytes.length).rest =
        t.targets.flatMap (·.bytes) ++ tail ∧
      ((s.advance 1).advance t.count.bytes.length).advance
          (t.targets.flatMap (·.bytes)).length =
        s.advance (Token.instr (.brTable t)).bytes.length := by
  rw [Token.bytes, Instr.bytes, List.cons_append, List.append_assoc] at h
  have hopcode := Scanner.rest_advance_one h
  refine ⟨hopcode, Scanner.rest_advance hopcode, ?_⟩
  rw [Scanner.advance_advance, Scanner.advance_advance, Token.bytes, Instr.bytes, List.length_cons,
    List.length_append, Nat.add_comm _ 1]

namespace Follows

variable {X : Type} {P : Pass X} {effect : X → Token → X} {ts : List Token} {s : Scanner} {x : X}
  {tail : List UInt8}

/-- A pass over tokens that are not misread. -/
theorem final_eq (hP : Follows P effect) (hts : ∀ t ∈ ts, Read t)
    (h : s.rest = bytesOf ts ++ tail) : P.loop.final (s, x) =
      P.loop.final (s.advance (bytesOf ts).length, ts.foldl effect x) := by
  induction ts generalizing s x with
  | nil => rfl
  | cons t ts ih =>
    rw [bytesOf_cons, List.append_assoc] at h
    have hround : P.loop.round (s, x) = (s.advance t.bytes.length, effect x t) :=
      hP.round (hts t List.mem_cons_self) h
    rw [Loop.final_of_pos (left_pos_of_rest h x), hround,
      ih (fun u hu => hts u (List.mem_cons_of_mem t hu)) (Scanner.rest_advance h),
      Scanner.advance_advance, bytesOf_cons, List.length_append, List.foldl_cons]

theorem starts_eq (hP : Follows P effect) (hts : ∀ t ∈ ts, Read t)
    (h : s.rest = bytesOf ts ++ tail) : (P.loop.starts (s, x)).map reading =
      trace effect s.pos x ts ++
        (P.loop.starts (s.advance (bytesOf ts).length, ts.foldl effect x)).map reading := by
  induction ts generalizing s x with
  | nil => rfl
  | cons t ts ih =>
    rw [bytesOf_cons, List.append_assoc] at h
    have hround : P.loop.round (s, x) = (s.advance t.bytes.length, effect x t) :=
      hP.round (hts t List.mem_cons_self) h
    rw [Loop.starts_of_pos (left_pos_of_rest h x), List.map_cons, hround,
      ih (fun u hu => hts u (List.mem_cons_of_mem t hu)) (Scanner.rest_advance h),
      Scanner.advance_advance, bytesOf_cons, List.length_append, List.foldl_cons]
    rfl

end Follows

/-! ## Bodies -/

theorem skipLocals_func (f : Func) :
    skipLocals (Scanner.new f.bytes) = (Scanner.new f.bytes).advance f.header.length := by
  have hgroups : ∀ (gs : List LocalGroup) (s : Scanner) (tail : List UInt8),
      s.rest = gs.flatMap (·.bytes) ++ tail →
      (fun s : Scanner => s.skipLeb128.skip 1)^[gs.length] s =
        s.advance (gs.flatMap (·.bytes)).length := by
    intro gs
    induction gs with
    | nil => exact fun s tail h => rfl
    | cons g gs ih =>
      intro s tail h
      rw [List.flatMap_cons, LocalGroup.bytes, List.append_assoc, List.append_assoc] at h
      have hcount := Scanner.rest_advance h
      have htype : (s.advance g.count.bytes.length).skip 1 =
          (s.advance g.count.bytes.length).advance 1 := Scanner.skip_of_rest hcount Nat.one_pos
      rw [List.length_cons, Function.iterate_succ_apply,
        Scanner.skipLeb128_of_rest g.count.encoded h, htype,
        ih _ tail (Scanner.rest_advance_one hcount)]
      simp only [Scanner.advance_advance, List.flatMap_cons, LocalGroup.bytes, List.length_append,
        List.length_singleton]
  have hrest : (Scanner.new f.bytes).rest =
      f.groups.bytes ++ (f.locals.flatMap (·.bytes) ++ bytesOf f.tokens) := by
    rw [Scanner.rest_new, Func.bytes, Func.header, List.append_assoc]
  rw [skipLocals, Scanner.readLeb128U32_of_rest f.groups hrest]
  simp only [Option.getD_some, f.groups_eq]
  rw [hgroups f.locals _ _ (Scanner.rest_advance hrest), Scanner.advance_advance, Func.header,
    List.length_append]

theorem rest_skipLocals_func (f : Func) :
    (skipLocals (Scanner.new f.bytes)).rest = bytesOf f.tokens := by
  rw [skipLocals_func]
  exact Scanner.rest_advance rfl

theorem pos_skipLocals_func (f : Func) :
    (skipLocals (Scanner.new f.bytes)).pos = f.header.length := by
  rw [skipLocals_func, Scanner.pos_advance, Scanner.pos_new, Nat.zero_add]

/-- Behind the tokens of a body there is nothing. -/
theorem left_end {X : Type} {P : Pass X} (f : Func) (x : X) : P.loop.left
    ((skipLocals (Scanner.new f.bytes)).advance (bytesOf f.tokens).length, x) = 0 := by
  have hrest : (skipLocals (Scanner.new f.bytes)).rest = bytesOf f.tokens ++ [] := by
    rw [rest_skipLocals_func, List.append_nil]
  have hnil := Scanner.rest_advance hrest
  exact (Scanner.remaining_eq _).trans (congrArg List.length hnil)

namespace Follows

variable {X : Type} {P : Pass X} {effect : X → Token → X}

/-- A pass over a body without misread instructions. -/
theorem run_eq (hP : Follows P effect) {f : Func} (hf : ∀ t ∈ f.tokens, Read t) (x : X) :
    P.run f.bytes x = f.tokens.foldl effect x := by
  have hrest : (skipLocals (Scanner.new f.bytes)).rest = bytesOf f.tokens ++ [] := by
    rw [rest_skipLocals_func, List.append_nil]
  rw [Pass.run, hP.final_eq hf hrest, Loop.final_of_left_eq_zero (left_end f _)]

theorem rounds_eq (hP : Follows P effect) {f : Func} (hf : ∀ t ∈ f.tokens, Read t) (x : X) :
    (P.rounds f.bytes x).map reading = trace effect f.header.length x f.tokens := by
  have hrest : (skipLocals (Scanner.new f.bytes)).rest = bytesOf f.tokens ++ [] := by
    rw [rest_skipLocals_func, List.append_nil]
  rw [Pass.rounds, hP.starts_eq hf hrest, Loop.starts_of_left_eq_zero (left_end f _),
    List.map_nil, List.append_nil, pos_skipLocals_func]

/-- After a misread instruction, an opcode is read within it. -/
theorem exists_round_within (hP : Follows P effect) {p : Plain} {s : Scanner} {tail : List UInt8}
    (hp : Misread p.opcode) (h : s.rest = p.bytes ++ tail) (x : X) :
    ∃ k < p.bytes.length, (P.loop.round (s, x)).1 = s.advance k := by
  have hround : P.loop.round (s, x) = P.instruction p.opcode.first (s.advance 1) x :=
    round_of_rest h x
  obtain ⟨k, hk, hskip⟩ := skipInstructionImmediates_of_misread hp (Scanner.rest_advance_one h)
  refine ⟨1 + k, ?_, ?_⟩
  · rw [Plain.bytes, List.length_cons]
    omega
  · rw [hround, hP.plain, hskip, Scanner.advance_advance]

/-- In a body with a misread instruction, the opcodes are not read where the tokens begin. -/
theorem positions_ne (hP : Follows P effect) {f : Func} (hf : ¬∀ t ∈ f.tokens, Read t) (x : X) :
    (P.rounds f.bytes x).map (fun st => st.1.pos) ≠ f.placedTokens.map Prod.fst := by
  obtain ⟨us, p, vs, hsplit, hus, hp⟩ := exists_first_misread hf
  -- it is not the final `end`
  obtain ⟨v, vs, rfl⟩ : ∃ v vs', vs = v :: vs' := by
    cases vs with
    | nil =>
      have hlast := congrArg List.getLast? hsplit
      simp [Func.tokens] at hlast
    | cons v vs => exact ⟨v, vs, rfl⟩
  have hrest : (skipLocals (Scanner.new f.bytes)).rest =
      bytesOf us ++ (p.bytes ++ bytesOf (v :: vs)) := by
    rw [rest_skipLocals_func, hsplit, bytesOf_append, bytesOf_cons]
    rfl
  have hafter := Scanner.rest_advance hrest
  obtain ⟨k, hk, hround⟩ := hP.exists_round_within hp hafter (us.foldl effect x)
  have hleft : 0 < P.loop.left ((skipLocals (Scanner.new f.bytes)).advance (bytesOf us).length,
      us.foldl effect x) := left_pos_of_rest (t := .instr (.plain p)) hafter _
  -- the cursor is still in the immediates when the next opcode is read
  have hleft' : 0 < P.loop.left (P.loop.round
      ((skipLocals (Scanner.new f.bytes)).advance (bytesOf us).length, us.foldl effect x)) := by
    have hremaining : ∀ st : Scanner × X, P.loop.left st = st.1.remaining := fun st => rfl
    rw [hremaining, hround, Scanner.remaining_advance, Scanner.remaining_eq, hafter,
      List.length_append]
    omega
  have hreads : (P.rounds f.bytes x).map (fun st => st.1.pos) =
      ((P.rounds f.bytes x).map reading).map Prod.fst := by
    rw [List.map_map]
    rfl
  intro heq
  -- up to the misread instruction both lists agree; compare the next offset
  rw [hreads, Pass.rounds, hP.starts_eq hus hrest, Loop.starts_of_pos hleft,
    Loop.starts_of_pos hleft', List.map_append, map_fst_trace, pos_skipLocals_func,
    Func.placedTokens, hsplit, placed_append, List.map_append] at heq
  have htails := List.append_cancel_left heq
  simp only [placed, List.map_cons, reading, hround, Scanner.pos_advance, pos_skipLocals_func,
    List.cons.injEq, true_and] at htails
  have hpos : k = p.bytes.length := Nat.add_left_cancel htails.1
  omega

end Follows

end Core.WasmBranchAnalysis
