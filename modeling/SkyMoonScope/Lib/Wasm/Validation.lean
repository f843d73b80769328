import Mathlib.Algebra.Ring.Nat
import SkyMoonScope.Lib.Wasm.Module

/-!
# Validation of WebAssembly modules

Bodies are validated by the algorithm of the standard: a stack of value types, where a type may be
unknown in unreachable code, and a stack of control frames. What the algorithm does for the other
instructions, and what makes the other parts of a module valid, belongs to a `Language`.

## Main definitions

* `Context`: what validation looks up, and `Context.Extends`: more of it
* `Language`: the rules that are left open, and `Language.Lawful`: they only look things up
* `Language.step`, `BodyValid`: the validation of bodies
* `Valid`: valid modules

## Main results

* `Valid.exists_externType`: every export of a valid module has a type
* `Lawful.bodyValid_mono`: a body stays valid in a larger context
-/

namespace Wasm

variable {S : Signature}

/-! ## Contexts -/

/-- What the parts of a module are validated against. -/
structure Context (S : Signature) where
  types : List (TypeDef S)
  imports : List (Import S)
  funcs : List ℕ
  globals : List (GlobalType S)
  inits : List (ConstExpr S)
  exports : List (Export S)
  others : List (SectionId × S.Foreign)

def Module.context (m : Module S) : Context S where
  types := m.types
  imports := m.imports
  funcs := m.funcs
  globals := m.globalTypes
  inits := m.globals.map (·.init)
  exports := m.exports
  others := m.others

/-- The type of a function. -/
def Context.typeOf (C : Context S) (f : ℕ) : Option (FuncType S) :=
  C.funcs[f]?.bind (typeAt C.types)

/-- The type of an export. What exports of other kinds have is among the imports and the other
sections. -/
inductive ExternType (S : Signature)
  | func (t : FuncType S)
  | global (t : GlobalType S)
  | other (x : S.Foreign) (imports : List (Import S)) (others : List (SectionId × S.Foreign))

def Context.externType (C : Context S) : ExportDesc S → Option (ExternType S)
  | .func i => (C.typeOf i).map .func
  | .global i => C.globals[i]?.map .global
  | .other x => some (.other x C.imports C.others)

/-- The second context has more types, functions, globals and exports, after those of the first. -/
structure Context.Extends (C C' : Context S) : Prop where
  types : C.types <+: C'.types
  imports : C.imports = C'.imports
  funcs : C.funcs <+: C'.funcs
  globals : C.globals <+: C'.globals
  inits : C.inits <+: C'.inits
  exports : C.exports <+: C'.exports
  others : C.others = C'.others

/-! ## Rules -/

/-- A control frame: what the open rules keep of it, the types at its end, the height of the stack
at its start, and whether its code is unreachable from here on. -/
structure Ctrl (S : Signature) where
  block : S.Block
  endTypes : List (ValType S)
  height : ℕ
  unreachable : Bool

/-- The state of the algorithm: the types on the stack, `none` for an unknown one, and the control
frames, the top first. -/
structure VState (S : Signature) where
  vals : List (Option (ValType S))
  ctrls : List (Ctrl S)

/-- The rules that are left open. -/
structure Language (S : Signature) where
  refSub : List (TypeDef S) → S.Ref → S.Ref → Bool
  refValid : List (TypeDef S) → S.Ref → Prop
  gcValid : List (TypeDef S) → List (Option (FuncType S) × S.Foreign) → Prop
  importValid : Context S → S.Foreign → Prop
  exportValid : Context S → S.Foreign → Prop
  otherValid : Context S → SectionId → S.Foreign → Prop
  initValid : Context S → ValType S → S.Foreign → Prop
  /-- The control frame of a function. -/
  entry : S.Block
  /-- An instruction, given the types of the locals. -/
  opStep : Context S → List (ValType S) → S.Op → VState S → Option (VState S)

namespace Language

variable (L : Language S)

/-- The open rules look up what they need by its index: what is appended to a context changes no
verdict of theirs. -/
structure Lawful : Prop where
  refSub {ts ts' : List (TypeDef S)} : ts <+: ts' → ∀ a b, L.refSub ts a b = true →
    L.refSub ts' a b = true
  refValid {ts ts' : List (TypeDef S)} : ts <+: ts' → ∀ a, L.refValid ts a → L.refValid ts' a
  importValid {C C' : Context S} : C.Extends C' → ∀ x, L.importValid C x → L.importValid C' x
  exportValid {C C' : Context S} : C.Extends C' → ∀ x, L.exportValid C x → L.exportValid C' x
  otherValid {C C' : Context S} : C.Extends C' → ∀ id x, L.otherValid C id x →
    L.otherValid C' id x
  initValid {C C' : Context S} : C.Extends C' → ∀ t x, L.initValid C t x → L.initValid C' t x
  opStep {C C' : Context S} : C.Extends C' → ∀ locals o s s', L.opStep C locals o s = some s' →
    L.opStep C' locals o s = some s'

/-- One value type may stand for the other. -/
def sub (types : List (TypeDef S)) : ValType S → ValType S → Bool
  | .i32, .i32 => true
  | .i64, .i64 => true
  | .f32, .f32 => true
  | .f64, .f64 => true
  | .v128, .v128 => true
  | .ref a, .ref b => L.refSub types a b
  | _, _ => false

def ValTypeValid (types : List (TypeDef S)) : ValType S → Prop
  | .ref r => L.refValid types r
  | _ => True

end Language

namespace VState

def push (s : VState S) (t : ValType S) : VState S := { s with vals := some t :: s.vals }

/-- Push types, the last one to the top. -/
def pushAll (s : VState S) (ts : List (ValType S)) : VState S :=
  { s with vals := ts.reverse.map some ++ s.vals }

/-- Take the top type, which must belong to the top frame. -/
def pop (s : VState S) : Option (Option (ValType S) × VState S) :=
  match s.ctrls with
  | [] => none
  | c :: _ =>
    if s.vals.length = c.height then
      if c.unreachable then some (none, s) else none
    else
      match s.vals with
      | [] => none
      | v :: vals => some (v, { s with vals := vals })

end VState

namespace Language

variable (L : Language S)

def popExpect (types : List (TypeDef S)) (s : VState S) (t : ValType S) : Option (VState S) :=
  match s.pop with
  | some (none, s') => some s'
  | some (some t', s') => if L.sub types t' t then some s' else none
  | none => none

/-- Take types, the last one from the top. -/
def popAll (types : List (TypeDef S)) (s : VState S) (ts : List (ValType S)) :
    Option (VState S) :=
  ts.reverse.foldlM (L.popExpect types) s

/-- An operation on two `i64` with an `i64` as its result. -/
def binary (types : List (TypeDef S)) (s : VState S) : Option (VState S) :=
  (L.popAll types s [.i64, .i64]).map (·.push .i64)

/-- The validation of one instruction; none may follow the end of the function. -/
def step (C : Context S) (locals : List (ValType S)) (s : VState S) (i : Instr S) :
    Option (VState S) :=
  match s.ctrls with
  | [] => none
  | c :: ctrls =>
    match i with
    | .globalGet x => C.globals[x]?.map fun g => s.push g.valType
    | .globalSet x =>
      match C.globals[x]? with
      | some g => if g.isMutable then L.popExpect C.types s g.valType else none
      | none => none
    | .i64Const _ => some (s.push .i64)
    | .i64Add | .i64Shl | .i64Or => L.binary C.types s
    | .drop => s.pop.map (·.2)
    | .call f =>
      match C.typeOf f with
      | some t => (L.popAll C.types s t.params).map (·.pushAll t.results)
      | none => none
    | .endBlock =>
      match L.popAll C.types s c.endTypes with
      | some s' =>
        if s'.vals.length = c.height then
          some (VState.pushAll { s' with ctrls := ctrls } c.endTypes)
        else none
      | none => none
    | .op o => L.opStep C locals o s

end Language

/-! ## Modules -/

/-- The types of the locals a body declares. -/
def Body.localTypes (b : Body S) : List (ValType S) :=
  b.locals.flatMap fun l => List.replicate l.1 l.2

variable (L : Language S)

/-- The state at the start of a body. -/
def Language.start (t : FuncType S) : VState S := ⟨[], [⟨L.entry, t.results, 0, false⟩]⟩

/-- A body is valid when its code ends where the function does. -/
def BodyValid (C : Context S) (t : FuncType S) (b : Body S) : Prop :=
  (∀ l ∈ b.locals, L.ValTypeValid C.types l.2) ∧
    ∃ s, b.code.foldlM (L.step C (t.params ++ b.localTypes)) (L.start t) = some s ∧ s.ctrls = []

def TypeDefValid (types : List (TypeDef S)) : TypeDef S → Prop
  | .func t => ∀ v ∈ t.params ++ t.results, L.ValTypeValid types v
  | .gc members => L.gcValid types members

def ImportValid (C : Context S) (i : Import S) : Prop :=
  match i.desc with
  | .func typeIdx => (typeAt C.types typeIdx).isSome
  | .global t => L.ValTypeValid C.types t.valType
  | .other x => L.importValid C x

def GlobalValid (C : Context S) (g : Global S) : Prop :=
  L.ValTypeValid C.types g.type.valType ∧
    match g.init with
    | .i64Const _ => L.sub C.types .i64 g.type.valType = true
    | .other x => L.initValid C g.type.valType x

def ExportValid (C : Context S) (e : Export S) : Prop :=
  match e.desc with
  | .func i => i < C.funcs.length
  | .global i => i < C.globals.length
  | .other x => L.exportValid C x

/-- The context of a global: the globals before it. -/
def Module.globalContext (m : Module S) (i : ℕ) : Context S :=
  { m.context with
    globals := m.globalTypes.take (m.importedGlobals.length + i)
    inits := (m.globals.take i).map (·.init) }

/-- The sizes that indices of 32 bits allow. -/
structure Module.Sized (m : Module S) : Prop where
  types : m.types.length < 2 ^ 32
  funcs : m.funcs.length < 2 ^ 32
  globals : m.globalTypes.length < 2 ^ 32
  exports : m.exports.length < 2 ^ 32

/-- Valid modules. -/
structure Valid (m : Module S) : Prop where
  ordered : Ordered m.sections
  types : ∀ (i : ℕ) t, m.types[i]? = some t → TypeDefValid L (m.types.take (i + 1)) t
  imports : ∀ i ∈ m.imports, ImportValid L m.context i
  functions : ∀ f ∈ m.functions, (typeAt m.types f).isSome
  length_codes : m.codes.length = m.functions.length
  bodies : ∀ (i f : ℕ) t b, m.functions[i]? = some f → typeAt m.types f = some t →
    m.codes[i]? = some b → BodyValid L m.context t b
  globals : ∀ (i : ℕ) g, m.globals[i]? = some g → GlobalValid L (m.globalContext i) g
  exports : ∀ e ∈ m.exports, ExportValid L m.context e
  names : (m.exports.map (·.name)).Nodup
  others : ∀ o ∈ m.others, L.otherValid m.context o.1 o.2
  sized : m.Sized

/-! ## Larger contexts -/

section Mono

variable {L} {C C' : Context S} {types types' : List (TypeDef S)} {s s' : VState S}

theorem foldlM_mono {α σ : Type*} {f g : σ → α → Option σ}
    (h : ∀ s a s', f s a = some s' → g s a = some s') {s s' : σ} {l : List α}
    (hl : l.foldlM f s = some s') : l.foldlM g s = some s' := by
  induction l generalizing s with
  | nil => exact hl
  | cons a l ih =>
    obtain ⟨u, hu, hrest⟩ : ∃ u, f s a = some u ∧ l.foldlM f u = some s' := by
      simpa [List.foldlM_cons, Option.bind_eq_some_iff] using hl
    simp [List.foldlM_cons, h s a u hu, ih hrest]

theorem getElem?_mono {α : Type*} {l l' : List α} (h : l <+: l') {i : ℕ} {a : α}
    (hi : l[i]? = some a) : l'[i]? = some a := by
  obtain ⟨hlt, rfl⟩ := List.getElem?_eq_some_iff.mp hi
  exact List.prefix_iff_getElem?.mp h i hlt

theorem Context.Extends.typeOf (h : C.Extends C') {f : ℕ} {t : FuncType S}
    (ht : C.typeOf f = some t) : C'.typeOf f = some t := by
  obtain ⟨i, hi, hti⟩ := Option.bind_eq_some_iff.mp ht
  exact Option.bind_eq_some_iff.mpr
    ⟨i, getElem?_mono h.funcs hi, typeAt_mono h.types hti⟩

theorem Context.Extends.externType (h : C.Extends C') {d : ExportDesc S} {t : ExternType S}
    (ht : C.externType d = some t) : C'.externType d = some t := by
  cases d with
  | func i =>
    obtain ⟨t, htype, rfl⟩ := Option.map_eq_some_iff.mp ht
    exact Option.map_eq_some_iff.mpr ⟨t, h.typeOf htype, rfl⟩
  | global i =>
    obtain ⟨t, htype, rfl⟩ := Option.map_eq_some_iff.mp ht
    exact Option.map_eq_some_iff.mpr ⟨t, getElem?_mono h.globals htype, rfl⟩
  | other x =>
    rw [Context.externType, h.imports, h.others] at ht
    exact ht

/-- Every function of a valid module has a type. -/
theorem Valid.exists_typeOf {m : Module S} (hm : Valid L m) {i : ℕ} (hi : i < m.funcs.length) :
    ∃ t, m.context.typeOf i = some t := by
  have hsome : (typeAt m.types m.funcs[i]).isSome := by
    rcases List.mem_append.mp (List.getElem_mem hi) with hf | hf
    · -- an imported function has the type of its import
      obtain ⟨imp, himp, hdesc⟩ := List.mem_filterMap.mp hf
      have hvalid := hm.imports imp himp
      unfold Module.importedFunc at hdesc
      unfold ImportValid at hvalid
      cases hd : imp.desc with
      | func typeIdx =>
        obtain rfl : typeIdx = m.funcs[i] := by simpa [hd] using hdesc
        simp only [hd] at hvalid
        exact hvalid
      | global t => simp [hd] at hdesc
      | other x => simp [hd] at hdesc
    · exact hm.functions _ hf
  obtain ⟨t, ht⟩ := Option.isSome_iff_exists.mp hsome
  exact ⟨t, Option.bind_eq_some_iff.mpr ⟨_, List.getElem?_eq_getElem hi, ht⟩⟩

theorem Valid.exists_externType {m : Module S} (hm : Valid L m) {e : Export S}
    (he : e ∈ m.exports) : ∃ t, m.context.externType e.desc = some t := by
  have hvalid := hm.exports e he
  unfold ExportValid at hvalid
  cases hd : e.desc with
  | func i =>
    simp only [hd] at hvalid
    obtain ⟨t, ht⟩ := hm.exists_typeOf hvalid
    exact ⟨_, Option.map_eq_some_iff.mpr ⟨t, ht, rfl⟩⟩
  | global i =>
    simp only [hd] at hvalid
    exact ⟨_, Option.map_eq_some_iff.mpr ⟨_, List.getElem?_eq_getElem hvalid, rfl⟩⟩
  | other x => exact ⟨_, rfl⟩

namespace Language.Lawful

theorem sub_mono (hL : L.Lawful) (h : types <+: types') {a b : ValType S}
    (hab : L.sub types a b = true) : L.sub types' a b = true := by
  cases a <;> cases b <;> first | exact hab | skip
  case ref.ref a b => exact hL.refSub h a b hab

theorem valTypeValid_mono (hL : L.Lawful) (h : types <+: types') {t : ValType S}
    (ht : L.ValTypeValid types t) : L.ValTypeValid types' t := by
  cases t with
  | ref r => exact hL.refValid h r ht
  | _ => trivial

theorem popExpect_mono (hL : L.Lawful) (h : types <+: types') {t : ValType S}
    (hs : L.popExpect types s t = some s') : L.popExpect types' s t = some s' := by
  unfold popExpect at hs ⊢
  cases hp : s.pop with
  | none => simp [hp] at hs
  | some p =>
    rcases p with ⟨_ | t', u⟩
    · simpa [hp] using hs
    · obtain ⟨hsub, hu⟩ : L.sub types t' t = true ∧ u = s' := by simpa [hp] using hs
      simp [hL.sub_mono h hsub, hu]

theorem popAll_mono (hL : L.Lawful) (h : types <+: types') {ts : List (ValType S)}
    (hs : L.popAll types s ts = some s') : L.popAll types' s ts = some s' :=
  foldlM_mono (fun _ _ _ => hL.popExpect_mono h) hs

theorem binary_mono (hL : L.Lawful) (h : types <+: types')
    (hs : L.binary types s = some s') : L.binary types' s = some s' := by
  obtain ⟨u, hu, rfl⟩ := Option.map_eq_some_iff.mp hs
  exact Option.map_eq_some_iff.mpr ⟨u, hL.popAll_mono h hu, rfl⟩

/-- An instruction that is valid stays so, with the same effect, in a larger context. -/
theorem step_mono (hL : L.Lawful) (h : C.Extends C') {locals : List (ValType S)} {i : Instr S}
    (hs : L.step C locals s i = some s') : L.step C' locals s i = some s' := by
  unfold step at hs ⊢
  cases hc : s.ctrls with
  | nil => simp [hc] at hs
  | cons c ctrls =>
    simp only [hc] at hs ⊢
    cases i with
    | globalGet x =>
      obtain ⟨g, hg, hs⟩ := Option.map_eq_some_iff.mp hs
      exact Option.map_eq_some_iff.mpr ⟨g, getElem?_mono h.globals hg, hs⟩
    | globalSet x =>
      cases hg : C.globals[x]? with
      | none => simp [hg] at hs
      | some g =>
        obtain ⟨hmut, hs⟩ : g.isMutable = true ∧ L.popExpect C.types s g.valType = some s' := by
          simpa [hg] using hs
        simp [getElem?_mono h.globals hg, hmut, hL.popExpect_mono h.types hs]
    | i64Const c => exact hs
    | i64Add => exact hL.binary_mono h.types hs
    | i64Shl => exact hL.binary_mono h.types hs
    | i64Or => exact hL.binary_mono h.types hs
    | drop => exact hs
    | call f =>
      cases ht : C.typeOf f with
      | none => simp [ht] at hs
      | some t =>
        obtain ⟨u, hu, hs⟩ : ∃ u, L.popAll C.types s t.params = some u ∧
            u.pushAll t.results = s' := by simpa [ht] using hs
        simp [h.typeOf ht, hL.popAll_mono h.types hu, hs]
    | endBlock =>
      cases hu : L.popAll C.types s c.endTypes with
      | none => simp [hu] at hs
      | some u => simpa [hL.popAll_mono h.types hu, hu] using hs
    | op o => exact hL.opStep h locals o s s' hs

/-- **A body stays valid in a larger context.** -/
theorem bodyValid_mono (hL : L.Lawful) (h : C.Extends C') {t : FuncType S} {b : Body S}
    (hb : BodyValid L C t b) : BodyValid L C' t b := by
  obtain ⟨hlocals, s, hs, hend⟩ := hb
  refine ⟨fun l hl => hL.valTypeValid_mono h.types (hlocals l hl), s, ?_, hend⟩
  exact foldlM_mono (fun _ _ _ => hL.step_mono h) hs

theorem importValid_mono (hL : L.Lawful) (h : C.Extends C') {i : Import S}
    (hi : ImportValid L C i) : ImportValid L C' i := by
  unfold ImportValid at hi ⊢
  cases hd : i.desc with
  | func typeIdx =>
    obtain ⟨t, ht⟩ := Option.isSome_iff_exists.mp (by simpa only [hd] using hi)
    exact Option.isSome_iff_exists.mpr ⟨t, typeAt_mono h.types ht⟩
  | global t => exact hL.valTypeValid_mono h.types (by simpa only [hd] using hi)
  | other x => exact hL.importValid h x (by simpa only [hd] using hi)

theorem exportValid_mono (hL : L.Lawful) (h : C.Extends C') {e : Export S}
    (he : ExportValid L C e) : ExportValid L C' e := by
  unfold ExportValid at he ⊢
  cases hd : e.desc with
  | func i => exact Nat.lt_of_lt_of_le (by simpa only [hd] using he) h.funcs.length_le
  | global i => exact Nat.lt_of_lt_of_le (by simpa only [hd] using he) h.globals.length_le
  | other x => exact hL.exportValid h x (by simpa only [hd] using he)

theorem globalValid_mono (hL : L.Lawful) (h : C.Extends C') {g : Global S}
    (hg : GlobalValid L C g) : GlobalValid L C' g := by
  obtain ⟨htype, hinit⟩ := hg
  refine ⟨hL.valTypeValid_mono h.types htype, ?_⟩
  cases hi : g.init with
  | i64Const c => exact hL.sub_mono h.types (by simpa only [hi] using hinit)
  | other x => exact hL.initValid h _ x (by simpa only [hi] using hinit)

end Language.Lawful

end Mono

end Wasm
