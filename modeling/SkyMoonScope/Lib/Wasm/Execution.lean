import SkyMoonScope.Lib.Behaviour
import SkyMoonScope.Lib.Wasm.Validation

/-!
# Execution of WebAssembly modules

An instance of a module runs together with the code around it: the embedder, which is the lowest
activation, and the functions that the module imports. This code holds the exports of the module
under their names, may call them at any time, even while the module waits for it, and may read and
write exported globals. What it does, and what the other instructions do, belongs to a `Semantics`.

## Main definitions

* `Config`: the globals, the rest of the store, and the activations
* `Semantics`: what is left open; `Action`, `Reply`, `Effect`: how it takes part
* `step`: one step of an instance
* `Config.initial`: a new instance

## Main results

* `Semantics.length_initGlobals`: every global has an initial value
-/

namespace Wasm

variable {S : Signature}

inductive Value (S : Signature)
  | i64 (x : BitVec 64)
  | other (v : S.Val)

/-- A function of the module at work: the code that is left, the stack with its top first, the
locals, and the labels of the blocks around. -/
structure Frame (S : Signature) where
  code : List (Instr S)
  stack : List (Value S)
  locals : List (Value S)
  labels : List S.Label

inductive Activation (S : Signature)
  | wasm (f : Frame S)
  | host (h : S.Host)

/-- What code outside of the module is told when it goes on: results, the top first, that the call
trapped, or that there is no such export. -/
inductive Reply (S : Signature)
  | values (vs : List (Value S))
  | trapped
  | missing

/-- What code outside of the module does next. -/
inductive Action (S : Signature)
  | next (h : S.Host) (rest : S.Rest)
  | call (name : String) (args : List (Value S)) (h : S.Host)
  | invoke (f : ℕ) (args : List (Value S)) (h : S.Host)
  | getGlobal (name : String) (h : S.Host)
  | setGlobal (name : String) (v : Value S) (h : S.Host)
  | ret (vs : List (Value S))
  | trap

/-- What an instruction does to the activations and the rest of the store. -/
inductive Effect (S : Signature)
  | next (as : List (Activation S)) (rest : S.Rest)
  | call (f : ℕ) (args : List (Value S)) (as : List (Activation S)) (rest : S.Rest)
  | trap (rest : S.Rest)

/-- What is left open: default values of locals, constant expressions over the globals before, the
other instructions, and the code outside of the module. -/
structure Semantics (S : Signature) where
  default : ValType S → Value S
  constant : List (Value S) → S.Foreign → Value S
  exec : S.Op → Frame S → List (Activation S) → S.Rest → Effect S
  /-- The imported function of an index, called with arguments. -/
  enter : ℕ → List (Value S) → S.Host
  reply : S.Host → Reply S → S.Host
  act : S.Host → S.Rest → Action S

/-- A state of an instance; the activation at work comes first. -/
structure Config (S : Signature) where
  globals : List (Value S)
  rest : S.Rest
  activations : List (Activation S)

/-- How the embedder ends. -/
inductive Outcome (S : Signature)
  | returned (vs : List (Value S)) (rest : S.Rest)
  | trapped (rest : S.Rest)

/-- The export of a name, as far as the code around the module holds it. -/
def Module.exported (m : Module S) (names : List String) (name : String) :
    Option (ExportDesc S) :=
  if name ∈ names then (m.exports.find? (·.name = name)).map (·.desc) else none

namespace Semantics

variable (sem : Semantics S)

/-- Call a function of a module; arguments come with the last one first. -/
def call (m : Module S) (f : ℕ) (args : List (Value S)) (as : List (Activation S)) :
    Option (List (Activation S)) :=
  if f < m.importedFuncs.length then some (.host (sem.enter f args) :: as)
  else
    m.codes[f - m.importedFuncs.length]?.map fun b =>
      .wasm ⟨b.code, [], args.reverse ++ b.localTypes.map sem.default, []⟩ :: as

/-- Hand results to the activation that waits for them. -/
def deliver (vs : List (Value S)) : List (Activation S) → Option (List (Activation S))
  | [] => none
  | .wasm f :: as => some (.wasm { f with stack := vs ++ f.stack } :: as)
  | .host h :: as => some (.host (sem.reply h (.values vs)) :: as)

/-- A trap ends every activation up to code outside of the module, which is told. -/
def unwind : List (Activation S) → Option (List (Activation S))
  | [] => none
  | .wasm _ :: as => unwind as
  | .host h :: as => some (.host (sem.reply h .trapped) :: as)

end Semantics

/-- Go on with new activations, if there are any. -/
def Config.resume (c : Config S) (as : Option (List (Activation S))) :
    Behaviour.Step (Config S) (Outcome S) :=
  match as with
  | some as => .running { c with activations := as }
  | none => .wrong

def Config.trap (sem : Semantics S) (c : Config S) (as : List (Activation S)) :
    Behaviour.Step (Config S) (Outcome S) :=
  match sem.unwind as with
  | some as => .running { c with activations := as }
  | none => .done (.trapped c.rest)

section Step

variable (sem : Semantics S) (m : Module S) (names : List String)

/-- One step of the code outside of the module. -/
def hostStep (c : Config S) (h : S.Host) (as : List (Activation S)) :
    Behaviour.Step (Config S) (Outcome S) :=
  match sem.act h c.rest with
  | .next h rest => .running { c with rest, activations := .host h :: as }
  | .call name args h =>
    match m.exported names name with
    | some (.func f) => c.resume (sem.call m f args (.host h :: as))
    | _ => c.resume (some (.host (sem.reply h .missing) :: as))
  | .invoke f args h => c.resume (sem.call m f args (.host h :: as))
  | .getGlobal name h =>
    match m.exported names name with
    | some (.global i) =>
      match c.globals[i]? with
      | some v => c.resume (some (.host (sem.reply h (.values [v])) :: as))
      | none => .wrong
    | _ => c.resume (some (.host (sem.reply h .missing) :: as))
  | .setGlobal name v h =>
    match m.exported names name with
    | some (.global i) =>
      if i < c.globals.length then
        .running { c with
          globals := c.globals.set i v
          activations := .host (sem.reply h (.values [])) :: as }
      else .wrong
    | _ => c.resume (some (.host (sem.reply h .missing) :: as))
  | .ret vs =>
    match as with
    | [] => .done (.returned vs c.rest)
    | as => c.resume (sem.deliver vs as)
  | .trap => c.trap sem as

/-- An operation on the two `i64` at the top of the stack; the top is the second operand. -/
def Frame.binary (f : Frame S) (op : BitVec 64 → BitVec 64 → BitVec 64) : Option (Frame S) :=
  match f.stack with
  | .i64 y :: .i64 x :: stack => some { f with stack := .i64 (op x y) :: stack }
  | _ => none

/-- One instruction of the module, taken from the code of the frame. -/
def instrStep (c : Config S) (f : Frame S) (as : List (Activation S)) :
    Instr S → Behaviour.Step (Config S) (Outcome S)
  | .globalGet x =>
    match c.globals[x]? with
    | some v => c.resume (some (.wasm { f with stack := v :: f.stack } :: as))
    | none => .wrong
  | .globalSet x =>
    match f.stack with
    | v :: stack =>
      if x < c.globals.length then
        .running { c with
          globals := c.globals.set x v
          activations := .wasm { f with stack } :: as }
      else .wrong
    | [] => .wrong
  | .i64Const a => c.resume (some (.wasm { f with stack := .i64 a :: f.stack } :: as))
  | .i64Add => c.resume ((f.binary fun x y => x + y).map (.wasm · :: as))
  | .i64Shl => c.resume ((f.binary fun x y => x <<< (y.toNat % 64)).map (.wasm · :: as))
  | .i64Or => c.resume ((f.binary fun x y => x ||| y).map (.wasm · :: as))
  | .drop =>
    match f.stack with
    | _ :: stack => c.resume (some (.wasm { f with stack } :: as))
    | [] => .wrong
  | .call i =>
    match m.context.typeOf i with
    | some t =>
      if t.params.length ≤ f.stack.length then
        c.resume (sem.call m i (f.stack.take t.params.length)
          (.wasm { f with stack := f.stack.drop t.params.length } :: as))
      else .wrong
    | none => .wrong
  | .endBlock =>
    match f.labels with
    | _ :: labels => c.resume (some (.wasm { f with labels } :: as))
    | [] => c.resume (sem.deliver f.stack as)
  | .op o =>
    match sem.exec o f as c.rest with
    | .next as rest => .running { c with rest, activations := as }
    | .call i args as rest => { c with rest : Config S }.resume (sem.call m i args as)
    | .trap rest => { c with rest : Config S }.trap sem as

/-- One step of an instance. -/
def step (c : Config S) : Behaviour.Step (Config S) (Outcome S) :=
  match c.activations with
  | [] => .wrong
  | .host h :: as => hostStep sem m names c h as
  | .wasm f :: as =>
    match f.code with
    | [] => .wrong
    | i :: code => instrStep sem m c { f with code } as i

end Step

/-! ## New instances -/

/-- The initial value of a global, after those before it. -/
def Semantics.initValue (sem : Semantics S) (before : List (Value S)) (g : Global S) : Value S :=
  match g.init with
  | .i64Const x => .i64 x
  | .other x => sem.constant before x

def Semantics.initGlobals (sem : Semantics S) (before : List (Value S)) (gs : List (Global S)) :
    List (Value S) :=
  gs.foldl (fun vs g => vs ++ [sem.initValue vs g]) before

theorem Semantics.initGlobals_append {sem : Semantics S} {before : List (Value S)}
    {gs gs' : List (Global S)} :
    sem.initGlobals before (gs ++ gs') = sem.initGlobals (sem.initGlobals before gs) gs' :=
  List.foldl_append

theorem Semantics.length_initGlobals {sem : Semantics S} {before : List (Value S)}
    {gs : List (Global S)} : (sem.initGlobals before gs).length = before.length + gs.length := by
  induction gs generalizing before with
  | nil => rfl
  | cons g gs ih =>
    calc
      (sem.initGlobals before (g :: gs)).length
          = (before ++ [sem.initValue before g]).length + gs.length := ih
      _ = before.length + (g :: gs).length := by simp [Nat.add_assoc, Nat.add_comm 1]

/-- A new instance: the imported globals have the values given, and the embedder is about to begin,
first with what instantiation asks of it. -/
def Config.initial (sem : Semantics S) (m : Module S) (imported : List (Value S)) (rest : S.Rest)
    (embedder : S.Host) : Config S where
  globals := sem.initGlobals imported m.globals
  rest
  activations := [.host embedder]

end Wasm
