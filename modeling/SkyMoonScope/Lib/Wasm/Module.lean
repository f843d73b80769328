import Mathlib.Data.List.Basic

/-!
# WebAssembly modules

A module is a list of sections. What concerns functions, globals, exports and code is explicit; all
else (other instructions, reference types, tables, memories, segments) belongs to a signature, over
which everything is stated.

## Main definitions

* `Signature`: the parts of the language that are left open
* `Instr`, `Body`, `Section`, `Module`: instructions, function bodies, sections, and modules
* `Module.types`, `Module.imports`, …: the contents of the sections of one kind
* `Section.rank`, `Ordered`: the order of the sections

## Main results

* `Ordered.above`, `contents_eq_nil`: what a section rules out after it
* `typeAt_mono`: types may be appended
* `typeAt_eq_some_iff`: the function types of a module that has no others
-/

namespace Wasm

/-- The parts of the language that are left open: reference types, instructions, contents of
modules, what validation keeps of a block, values, labels, the states of code outside of the module,
and the rest of the store. -/
structure Signature where
  Ref : Type
  Op : Type
  Foreign : Type
  Block : Type
  Val : Type
  Label : Type
  Host : Type
  Rest : Type

variable {S : Signature}

inductive ValType (S : Signature)
  | i32
  | i64
  | f32
  | f64
  | v128
  | ref (r : S.Ref)

structure FuncType (S : Signature) where
  params : List (ValType S)
  results : List (ValType S)

/-- An entry of the type section: a function type, or a group of other types; some of these may be
function types too. -/
inductive TypeDef (S : Signature)
  | func (t : FuncType S)
  | gc (members : List (Option (FuncType S) × S.Foreign))

/-- The types that an entry defines, of which each has its index. -/
def TypeDef.members : TypeDef S → List (Option (FuncType S))
  | func t => [some t]
  | gc members => members.map Prod.fst

/-- The function type at an index of the type section. -/
def typeAt (types : List (TypeDef S)) (i : ℕ) : Option (FuncType S) :=
  (types.flatMap (·.members))[i]?.join

inductive Instr (S : Signature)
  | globalGet (i : ℕ)
  | globalSet (i : ℕ)
  | i64Const (c : BitVec 64)
  | i64Add
  | i64Shl
  | i64Or
  | drop
  | call (f : ℕ)
  | endBlock
  | op (o : S.Op)

/-- A function body: groups of locals, and the code with its final `end`. -/
structure Body (S : Signature) where
  locals : List (ℕ × ValType S)
  code : List (Instr S)

structure GlobalType (S : Signature) where
  valType : ValType S
  isMutable : Bool

inductive ConstExpr (S : Signature)
  | i64Const (c : BitVec 64)
  | other (x : S.Foreign)

structure Global (S : Signature) where
  type : GlobalType S
  init : ConstExpr S

inductive ImportDesc (S : Signature)
  | func (typeIdx : ℕ)
  | global (t : GlobalType S)
  | other (x : S.Foreign)

structure Import (S : Signature) where
  moduleName : String
  name : String
  desc : ImportDesc S

inductive ExportDesc (S : Signature)
  | func (i : ℕ)
  | global (i : ℕ)
  | other (x : S.Foreign)

structure Export (S : Signature) where
  name : String
  desc : ExportDesc S

/-- The sections that are passed through. -/
inductive SectionId
  | table
  | memory
  | tag
  | start
  | element
  | dataCount
  | data
deriving DecidableEq

/-- Where a section stands among all others. -/
def SectionId.rank : SectionId → ℕ
  | table => 4
  | memory => 5
  | tag => 6
  | start => 9
  | element => 10
  | dataCount => 11
  | data => 13

inductive Section (S : Signature)
  | types (ts : List (TypeDef S))
  | imports (is : List (Import S))
  | functions (fs : List ℕ)
  | globals (gs : List (Global S))
  | exports (es : List (Export S))
  | codes (bs : List (Body S))
  | other (id : SectionId) (x : S.Foreign)
  | custom (name : String) (x : S.Foreign)

structure Module (S : Signature) where
  sections : List (Section S)

/-! ## Contents -/

namespace Section

def typesOf : Section S → List (TypeDef S)
  | types ts => ts
  | _ => []

def importsOf : Section S → List (Import S)
  | imports is => is
  | _ => []

def functionsOf : Section S → List ℕ
  | functions fs => fs
  | _ => []

def globalsOf : Section S → List (Global S)
  | globals gs => gs
  | _ => []

def exportsOf : Section S → List (Export S)
  | exports es => es
  | _ => []

def codesOf : Section S → List (Body S)
  | codes bs => bs
  | _ => []

def othersOf : Section S → List (SectionId × S.Foreign)
  | other id x => [(id, x)]
  | _ => []

/-- The place of a section; custom sections may stand anywhere. -/
def rank : Section S → Option ℕ
  | types _ => some 1
  | imports _ => some 2
  | functions _ => some 3
  | globals _ => some 7
  | exports _ => some 8
  | codes _ => some 12
  | other id _ => some id.rank
  | custom _ _ => none

variable {s : Section S}

theorem typesOf_eq_nil (h : s.rank ≠ some 1) : s.typesOf = [] := by
  cases s with
  | types ts => exact absurd rfl h
  | _ => rfl

theorem functionsOf_eq_nil (h : s.rank ≠ some 3) : s.functionsOf = [] := by
  cases s with
  | functions fs => exact absurd rfl h
  | _ => rfl

theorem globalsOf_eq_nil (h : s.rank ≠ some 7) : s.globalsOf = [] := by
  cases s with
  | globals gs => exact absurd rfl h
  | _ => rfl

theorem exportsOf_eq_nil (h : s.rank ≠ some 8) : s.exportsOf = [] := by
  cases s with
  | exports es => exact absurd rfl h
  | _ => rfl

theorem codesOf_eq_nil (h : s.rank ≠ some 12) : s.codesOf = [] := by
  cases s with
  | codes bs => exact absurd rfl h
  | _ => rfl

/-- A place among those of sections with contents is that of one kind. -/
theorem eq_types_of_rank (h : s.rank = some 1) : ∃ ts, s = types ts := by
  cases s with
  | types ts => exact ⟨ts, rfl⟩
  | other id x => cases id <;> simp [rank, SectionId.rank] at h
  | _ => simp [rank] at h

theorem eq_functions_of_rank (h : s.rank = some 3) : ∃ fs, s = functions fs := by
  cases s with
  | functions fs => exact ⟨fs, rfl⟩
  | other id x => cases id <;> simp [rank, SectionId.rank] at h
  | _ => simp [rank] at h

theorem eq_exports_of_rank (h : s.rank = some 8) : ∃ es, s = exports es := by
  cases s with
  | exports es => exact ⟨es, rfl⟩
  | other id x => cases id <;> simp [rank, SectionId.rank] at h
  | _ => simp [rank] at h

theorem eq_codes_of_rank (h : s.rank = some 12) : ∃ bs, s = codes bs := by
  cases s with
  | codes bs => exact ⟨bs, rfl⟩
  | other id x => cases id <;> simp [rank, SectionId.rank] at h
  | _ => simp [rank] at h

end Section

namespace Module

def types (m : Module S) : List (TypeDef S) := m.sections.flatMap (·.typesOf)

def imports (m : Module S) : List (Import S) := m.sections.flatMap (·.importsOf)

def functions (m : Module S) : List ℕ := m.sections.flatMap (·.functionsOf)

def globals (m : Module S) : List (Global S) := m.sections.flatMap (·.globalsOf)

def exports (m : Module S) : List (Export S) := m.sections.flatMap (·.exportsOf)

def codes (m : Module S) : List (Body S) := m.sections.flatMap (·.codesOf)

def others (m : Module S) : List (SectionId × S.Foreign) := m.sections.flatMap (·.othersOf)

/-- The type index of an imported function. -/
def importedFunc (i : Import S) : Option ℕ :=
  match i.desc with
  | .func typeIdx => some typeIdx
  | _ => none

def importedGlobal (i : Import S) : Option (GlobalType S) :=
  match i.desc with
  | .global t => some t
  | _ => none

def importedFuncs (m : Module S) : List ℕ := m.imports.filterMap importedFunc

def importedGlobals (m : Module S) : List (GlobalType S) := m.imports.filterMap importedGlobal

/-- The type indices of all functions, the imported ones first. -/
def funcs (m : Module S) : List ℕ := m.importedFuncs ++ m.functions

/-- The types of all globals, the imported ones first. -/
def globalTypes (m : Module S) : List (GlobalType S) :=
  m.importedGlobals ++ m.globals.map (·.type)

end Module

theorem typeAt_mono {types types' : List (TypeDef S)} (h : types <+: types') {i : ℕ}
    {t : FuncType S} (ht : typeAt types i = some t) : typeAt types' i = some t := by
  obtain ⟨more, rfl⟩ := h
  have hi : (types.flatMap (·.members))[i]? = some (some t) := by
    simpa [typeAt, Option.join_eq_some_iff] using ht
  have hlt := (List.getElem?_eq_some_iff.mp hi).1
  rw [typeAt, List.flatMap_append, List.getElem?_append_left hlt, hi]
  rfl

/-- Where all entries are function types, an index is that of the entry. -/
theorem typeAt_eq_some_iff {types : List (TypeDef S)} (h : ∀ d ∈ types, ∃ f, d = .func f) {i : ℕ}
    {t : FuncType S} : typeAt types i = some t ↔ types[i]? = some (.func t) := by
  have hflat : types.flatMap (·.members) = types.map fun d => d.members.head?.join := by
    induction types with
    | nil => rfl
    | cons d types ih =>
      obtain ⟨f, rfl⟩ := h d List.mem_cons_self
      rw [List.map_cons, List.flatMap_cons, ih fun d hd => h d (List.mem_cons_of_mem _ hd)]
      rfl
  rw [typeAt, hflat, List.getElem?_map]
  cases hd : types[i]? with
  | none => simp
  | some d =>
    obtain ⟨f, rfl⟩ := h d (List.mem_of_getElem? hd)
    simp [TypeDef.members]

/-! ## The order of sections -/

/-- The sections stand in their order, and no two of them in one place. -/
def Ordered (sections : List (Section S)) : Prop :=
  (sections.filterMap (·.rank)).Pairwise (· < ·)

/-- The sections that have a place have it after `k`. -/
def Above (k : ℕ) (sections : List (Section S)) : Prop :=
  ∀ s ∈ sections, ∀ r ∈ s.rank, k < r

variable {s : Section S} {sections : List (Section S)} {k : ℕ}

theorem Above.tail (h : Above k (s :: sections)) : Above k sections :=
  fun s' hs' => h s' (List.mem_cons_of_mem s hs')

theorem Above.mono {j : ℕ} (h : Above k sections) (hjk : j ≤ k) : Above j sections :=
  fun s' hs' r hr => Nat.lt_of_le_of_lt hjk (h s' hs' r hr)

theorem Ordered.tail (h : Ordered (s :: sections)) : Ordered sections := by
  cases hr : s.rank with
  | none => simpa only [Ordered, List.filterMap_cons, hr] using h
  | some r =>
    rw [Ordered, List.filterMap_cons, hr] at h
    exact (List.pairwise_cons.mp h).2

theorem Ordered.above (h : Ordered (s :: sections)) (hk : s.rank = some k) :
    Above k sections := by
  rw [Ordered, List.filterMap_cons, hk] at h
  intro s' hs' r hr
  exact (List.pairwise_cons.mp h).1 r (List.mem_filterMap.mpr ⟨s', hs', hr⟩)

theorem Above.rank_ne (h : Above k sections) : ∀ s ∈ sections, s.rank ≠ some k :=
  fun s hs hr => Nat.lt_irrefl k (h s hs k hr)

/-- Without a section of a place there are no contents that only its sections have. -/
theorem contents_eq_nil {β : Type*} {content : Section S → List β}
    (hc : ∀ s : Section S, s.rank ≠ some k → content s = [])
    (h : ∀ s ∈ sections, s.rank ≠ some k) : sections.flatMap content = [] :=
  List.flatMap_eq_nil_iff.mpr fun s hs => hc s (h s hs)

end Wasm
