import SkyMoonScope.Core.Simulation.Failover
import SkyMoonScope.Lib.Dict
import SkyMoonScope.Lib.Wasm.Module

/-!
# The WASM instrumenter

A first pass over the sections of a module collects counts and types. The second writes the module
again: a counter is added for every defined function, code that increments it to the function, and a
wrapper with an export that calls the function and returns the counter. Sections that the module
does not have are written where the pass first sees that they are missing.

## Main definitions

* `WasmInstrumenter.new`: the instrumenter built from a module
* `collect`: the first pass
* `Encoder`, `reencode`: the second pass
* `WasmInstrumenter.instrument`: both
-/

namespace Core.Simulation

open Wasm (Signature FuncType TypeDef Instr Global Import Export Section Module)

variable {S : Signature}

/-- `WasmInstrumenter`: the names of the defined functions, and the exported functions. -/
structure WasmInstrumenter where
  funcNames : List String
  exportMap : Dict String ℕ

namespace WasmInstrumenter

/-! ## Building an instrumenter -/

/-- What `new` has counted so far. -/
structure Names where
  importFuncCount : ℕ
  definedFuncCount : ℕ
  exportNames : Dict ℕ String

def Names.addExport (names : Names) (e : Export S) : Names :=
  match e.desc with
  | .func index => { names with exportNames := names.exportNames.insert index e.name }
  | _ => names

def Names.addSection (names : Names) : Section S → Names
  | .imports is =>
    { names with
      importFuncCount := names.importFuncCount + (is.filterMap Module.importedFunc).length }
  | .functions fs => { names with definedFuncCount := fs.length }
  | .exports es => es.foldl Names.addExport names
  | _ => names

def new (m : Module S) : WasmInstrumenter :=
  let names := m.sections.foldl Names.addSection ⟨0, 0, Dict.empty⟩
  { funcNames := (List.range names.definedFuncCount).map fun i =>
      (names.exportNames.get? (names.importFuncCount + i)).getD ("func[" ++ toString i ++ "]")
    exportMap := names.exportNames.entries.foldl (fun d p => d.insert p.2 p.1) Dict.empty }

/-! ## The first pass -/

structure Metadata where
  existingGlobalCount : ℕ
  importFuncCount : ℕ
  existingTypeCount : ℕ
  funcTypeIndices : List ℕ
  typeReturns : List ℕ

/-- The number of results of a type; the reader of the types gives up, in words of its own, on
other types than function types. -/
def typeReturn (readerError : TypeDef S → String) : TypeDef S → Except SimulationError ℕ
  | .func t => .ok t.results.length
  | t => .error (.invalidContract ("Type parse error: " ++ readerError t))

def Metadata.addSection (readerError : TypeDef S → String) (md : Metadata) :
    Section S → Except SimulationError Metadata
  | .types ts => do
    let returns ← ts.mapM (typeReturn readerError)
    .ok { md with existingTypeCount := ts.length, typeReturns := md.typeReturns ++ returns }
  | .imports is =>
    .ok { md with
      importFuncCount := md.importFuncCount + (is.filterMap Module.importedFunc).length
      existingGlobalCount :=
        md.existingGlobalCount + (is.filterMap Module.importedGlobal).length }
  | .functions fs => .ok { md with funcTypeIndices := md.funcTypeIndices ++ fs }
  | .globals gs => .ok { md with existingGlobalCount := md.existingGlobalCount + gs.length }
  | _ => .ok md

def collect (readerError : TypeDef S → String) (md : Metadata) (sections : List (Section S)) :
    Except SimulationError Metadata :=
  sections.foldlM (Metadata.addSection readerError) md

/-! ## The second pass -/

/-- The type `() -> i64` of the wrappers. -/
def wrapperType : FuncType S := ⟨[], [.i64]⟩

/-- A mutable `i64`, at first 0. -/
def counterGlobal : Global S := ⟨⟨.i64, true⟩, .i64Const 0⟩

def countName (i : ℕ) : String := "sky_moon_scope_count_" ++ toString i

/-- The increment of a counter. -/
def countInstrs (counterGlobalIdx : ℕ) : List (Instr S) :=
  [.globalGet counterGlobalIdx, .i64Const 1, .i64Add, .globalSet counterGlobalIdx]

def instrumentBody (counterGlobalIdx : ℕ) (b : Wasm.Body S) : Wasm.Body S :=
  { b with code := countInstrs counterGlobalIdx ++ b.code }

namespace Metadata

variable (md : Metadata)

/-- The number of values the defined function `i` returns. -/
def retCount (i : ℕ) : ℕ := (md.funcTypeIndices[i]?.bind (md.typeReturns[·]?)).getD 0

/-- The wrapper of the defined function `i`: call it, drop what it returns, and encode the counter
as an `I64Small`. -/
def wrapperBody (i : ℕ) : Wasm.Body S where
  locals := []
  code :=
    .call (md.importFuncCount + i) :: List.replicate (md.retCount i) .drop ++
      [.globalGet (md.existingGlobalCount + i), .i64Const 8, .i64Shl, .i64Const 6, .i64Or,
        .endBlock]

end Metadata

/-- The state of the second pass. -/
structure Encoder where
  definedFuncIdx : ℕ
  totalFuncCount : ℕ
  sawTypeSection : Bool
  sawGlobalSection : Bool
  sawExportSection : Bool
  sawCodeSection : Bool

def counterGlobals (n : ℕ) : List (Global S) := List.replicate n counterGlobal

def counterExports (totalFuncCount n : ℕ) : List (Export S) :=
  (List.range n).map fun i => ⟨countName i, .func (totalFuncCount + i)⟩

def wrapperBodies (md : Metadata) (n : ℕ) : List (Wasm.Body S) :=
  (List.range n).map md.wrapperBody

namespace Encoder

variable (md : Metadata) (n : ℕ) (e : Encoder)

/-- The counters, if no section has them yet. -/
def injectGlobals : List (Section S) :=
  if !e.sawGlobalSection && decide (0 < n) then [.globals (counterGlobals n)] else []

/-- The exports of the wrappers, if no section has them yet. -/
def injectExports : List (Section S) :=
  if !e.sawExportSection && decide (0 < n) then [.exports (counterExports e.totalFuncCount n)]
  else []

/-- What is written for one section, and the state after it. -/
def addSection : Section S → List (Section S) × Encoder
  | .types ts => ([.types (ts ++ [.func wrapperType])], { e with sawTypeSection := true })
  | .functions fs =>
    ([.functions (fs ++ List.replicate n md.existingTypeCount)],
      { e with totalFuncCount := md.importFuncCount + fs.length })
  | .globals gs => ([.globals (gs ++ counterGlobals n)], { e with sawGlobalSection := true })
  | .exports es =>
    (e.injectGlobals n ++ [.exports (es ++ counterExports e.totalFuncCount n)],
      { e with
        sawGlobalSection := e.sawGlobalSection || decide (0 < n)
        sawExportSection := true })
  | .codes bs =>
    (e.injectGlobals n ++ e.injectExports n ++
        [.codes (bs.mapIdx (fun i b =>
          instrumentBody (md.existingGlobalCount + (e.definedFuncIdx + i)) b) ++
            wrapperBodies md n)],
      { e with
        definedFuncIdx := e.definedFuncIdx + bs.length
        sawGlobalSection := e.sawGlobalSection || decide (0 < n)
        sawExportSection := e.sawExportSection || decide (0 < n)
        sawCodeSection := true })
  | s => ([s], e)

/-- What is written at the end of the module. -/
def finish : List (Section S) :=
  e.injectGlobals n ++ e.injectExports n ++
    if !e.sawCodeSection && decide (0 < n) then [.codes (wrapperBodies md n)] else []

end Encoder

def reencode (md : Metadata) (n : ℕ) (e : Encoder) : List (Section S) → List (Section S)
  | [] => e.finish md n
  | s :: sections =>
    (e.addSection md n s).1 ++ reencode md n (e.addSection md n s).2 sections

/-- `instrument`, for the instrumenter itself and a module. -/
def instrument (readerError : TypeDef S → String) (self : WasmInstrumenter) (m : Module S) :
    Except SimulationError (Module S) := do
  let md ← collect readerError ⟨0, 0, 0, [], []⟩ m.sections
  .ok ⟨reencode md self.funcNames.length ⟨0, md.importFuncCount, false, false, false, false⟩
    m.sections⟩

end WasmInstrumenter

end Core.Simulation
