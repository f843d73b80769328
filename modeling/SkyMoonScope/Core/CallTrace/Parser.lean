import SkyMoonScope.Lib.Bytes
import Mathlib.Data.List.MinMax

/-!
# Call traces

The host emits a diagnostic event when a contract function is entered and one when it exits. The
tree of the calls is rebuilt from them with a stack of the calls that are still open.

## Main definitions

* `CallNode`, `CallGraph`: a tree of calls, with `countNodes` and `nodeDepth`
* `DiagnosticEvent`: what is read of an event
* `Decoders`: the decoding of events, and the text of a contract address
* `traceEvent`: what an event does to the stack and the root
* `parseCallTrace`, `extractCallGraph`: the tree of a list of events, from the trace parser and from
  the simulation engine
-/

namespace Core.CallTrace

/-! ## Trees of calls -/

/-- A call, with the calls it made in their order. -/
structure CallNode where
  contractId : String
  function : String
  children : List CallNode

structure CallGraph where
  root : CallNode

/-- Induction over a tree: what holds of a call if it holds of the calls it made. -/
theorem CallNode.induction {P : CallNode → Prop}
    (h : ∀ contractId function children, (∀ t ∈ children, P t) → P ⟨contractId, function, children⟩)
    (t : CallNode) : P t := by
  obtain ⟨contractId, function, children⟩ := t
  exact h contractId function children fun t _ => CallNode.induction h t

def countNodes : CallNode → ℕ
  | ⟨_, _, children⟩ => 1 + (children.map countNodes).sum

def nodeDepth : CallNode → ℕ
  | ⟨_, _, children⟩ =>
    if children.isEmpty then 1 else 1 + (children.map nodeDepth).max?.getD 0

/-- The depth as the simulation engine computes it. -/
def simulationNodeDepth : CallNode → ℕ
  | ⟨_, _, children⟩ => 1 + (children.map simulationNodeDepth).max?.getD 0

namespace CallGraph

def totalCalls (g : CallGraph) : ℕ := countNodes g.root

def maxDepth (g : CallGraph) : ℕ := nodeDepth g.root

def simulationMaxDepth (g : CallGraph) : ℕ := simulationNodeDepth g.root

end CallGraph

/-! ## Events -/

/-- A topic: a symbol, by its text, or a value of another type. -/
inductive ScVal
  | symbol (text : String)
  | other

structure DiagnosticEvent where
  inSuccessfulContractCall : Bool
  contractId : Option (BytesN 32)
  topics : List ScVal

/-- The decoding of an event, from base64 and from XDR, and the text of a contract address. -/
structure Decoders where
  base64 : String → Option (List UInt8)
  fromXdr : List UInt8 → Option DiagnosticEvent
  strkey : BytesN 32 → String

namespace Decoders

def decode (D : Decoders) (event : String) : Option DiagnosticEvent :=
  (D.base64 event).bind D.fromXdr

/-- The contract of an event, which is the host's when there is none. -/
def contractText (D : Decoders) : Option (BytesN 32) → String
  | some hash => D.strkey hash
  | none => "Host"

end Decoders

/-! ## The parser -/

/-- The calls that are open, the innermost first, and the last call that was closed outside of any
other. -/
structure TraceState where
  stack : List CallNode
  root : Option CallNode

namespace TraceState

/-- Enter a call. -/
def push (st : TraceState) (contractId function : String) : TraceState :=
  { st with stack := ⟨contractId, function, []⟩ :: st.stack }

/-- Return from the innermost call: it is the last one that its caller made. -/
def pop (st : TraceState) : TraceState :=
  match st.stack with
  | [] => st
  | [finished] => { stack := [], root := some finished }
  | finished :: parent :: stack =>
    { st with stack := { parent with children := parent.children ++ [finished] } :: stack }

end TraceState

/-- The body of both loops over the events. An event that cannot be decoded, or that is not of a
successful call, is skipped. -/
def traceEvent (D : Decoders) (st : TraceState) (event : String) : TraceState :=
  match D.decode event with
  | none => st
  | some e =>
    if !e.inSuccessfulContractCall then st
    else
      match e.topics with
      | .symbol topic0 :: _ =>
        if topic0 = "fn_call" ∧ 3 ≤ e.topics.length then
          let function := match (e.topics[2]? : Option ScVal) with
            | some (.symbol s) => s
            | _ => "unknown"
          st.push (D.contractText e.contractId) function
        else if topic0 = "fn_return" then st.pop
        else st
      | _ => st

/-- The tree of a trace. When no outermost call was closed, it is the one entered first. -/
def parseCallTrace (D : Decoders) (events : List String) : Option CallGraph :=
  let st := events.foldl (traceEvent D) ⟨[], none⟩
  let root := match st.root with
    | none => st.stack.getLast?
    | some root => some root
  root.map fun root => ⟨root⟩

/-- The simulation engine has no tree when no outermost call was closed. -/
def extractCallGraph (D : Decoders) (events : List String) : Option CallGraph :=
  let st := events.foldl (traceEvent D) ⟨[], none⟩
  st.root.map fun root => ⟨root⟩

end Core.CallTrace
