import SkyMoonScope.Core.CallTrace.Parser

/-!
# Round trip of call traces

A tree of calls is written as a balanced sequence of events: a call, the sequences of the calls it
made, and its return. Whatever else is emitted in between, both parsers read the tree back.

## Main definitions

* `CallNode.nodes`, `CallNode.Occurs`: the nodes of a tree, and their depths
* `IsCall`, `IsReturn`, `noise`: the events that enter and leave a call, and those that do neither
* `Trace`: the sequences of events of a list of trees

## Main results

* `foldl_trace`: the events of the calls that an open call made append them to it
* `parse_trace`: both parsers read a tree back from its events, and count it right
-/

namespace Core.CallTrace

/-! ## Nodes and depths -/

/-- The nodes of a tree, every call before those it made. -/
def CallNode.nodes : CallNode → List CallNode
  | ⟨contractId, function, children⟩ =>
    ⟨contractId, function, children⟩ :: (children.map nodes).flatten

/-- A node of a tree, and its depth: the root is at depth one. -/
inductive CallNode.Occurs : CallNode → ℕ → CallNode → Prop
  | root (t : CallNode) : Occurs t 1 t
  | child {t s u : CallNode} {d : ℕ} : s ∈ t.children → Occurs s d u → Occurs t (d + 1) u

theorem countNodes_eq (t : CallNode) : countNodes t = t.nodes.length := by
  induction t using CallNode.induction with
  | h contractId function children ih =>
    have hlengths : children.map countNodes = (children.map CallNode.nodes).map List.length := by
      rw [List.map_map]
      exact List.map_congr_left ih
    rw [countNodes, CallNode.nodes, List.length_cons, List.length_flatten, hlengths, add_comm]

/-- Without children, the check of the parser changes nothing. -/
theorem nodeDepth_eq (t : CallNode) : nodeDepth t = simulationNodeDepth t := by
  induction t using CallNode.induction with
  | h contractId function children ih =>
    have hdepths : children.map nodeDepth = children.map simulationNodeDepth :=
      List.map_congr_left ih
    rw [nodeDepth, simulationNodeDepth, hdepths]
    split
    case isTrue hempty =>
      rw [List.isEmpty_iff.mp hempty]
      rfl
    case isFalse => rfl

/-- The greatest of some depths is at least each of them, and one of them if there are any. -/
theorem isGreatest_max?_getD (ds : List ℕ) :
    (∀ d ∈ ds, d ≤ ds.max?.getD 0) ∧ (ds ≠ [] → ds.max?.getD 0 ∈ ds) := by
  cases hmax : ds.max? with
  | none =>
    rw [List.max?_eq_none_iff] at hmax
    subst hmax
    simp
  | some m =>
    obtain ⟨hmem, hle⟩ := List.max?_eq_some_iff.mp hmax
    exact ⟨hle, fun _ => hmem⟩

/-- **The depth of a tree** is the greatest depth of a node. -/
theorem isGreatest_simulationNodeDepth (t : CallNode) :
    IsGreatest {d | ∃ u, t.Occurs d u} (simulationNodeDepth t) := by
  induction t using CallNode.induction with
  | h contractId function children ih =>
    obtain ⟨hle, hmem⟩ := isGreatest_max?_getD (children.map simulationNodeDepth)
    rw [simulationNodeDepth]
    constructor
    · by_cases hnil : children = []
      · subst hnil
        exact ⟨_, .root _⟩
      · obtain ⟨s, hs, heq⟩ := List.mem_map.mp (hmem (by simpa using hnil))
        obtain ⟨u, hu⟩ := (ih s hs).1
        rw [← heq, add_comm]
        exact ⟨u, .child hs hu⟩
    · rintro d ⟨u, hu⟩
      cases hu with
      | root => omega
      | child hs hu =>
        have hd := (ih _ hs).2 ⟨u, hu⟩
        have hmax := hle _ (List.mem_map_of_mem hs)
        omega

/-! ## Events of a tree -/

/-- The event enters a function of a contract. -/
def IsCall (D : Decoders) (event contractId function : String) : Prop :=
  ∃ e, D.decode event = some e ∧ e.inSuccessfulContractCall = true ∧
    D.contractText e.contractId = contractId ∧
    ∃ address rest, e.topics = .symbol "fn_call" :: address :: .symbol function :: rest

/-- The event leaves a function. -/
def IsReturn (D : Decoders) (event : String) : Prop :=
  ∃ e, D.decode event = some e ∧ e.inSuccessfulContractCall = true ∧
    ∃ rest, e.topics = .symbol "fn_return" :: rest

/-- The event cannot be decoded, or is not of a successful call, or its topic is another. -/
def noise (D : Decoders) (event : String) : Bool :=
  match D.decode event with
  | none => true
  | some e =>
    !e.inSuccessfulContractCall ||
      match e.topics.head? with
      | some (.symbol topic0) => topic0 ≠ "fn_call" && topic0 ≠ "fn_return"
      | _ => true

/-- The sequences of events of a list of trees. -/
inductive Trace (D : Decoders) : List CallNode → List String → Prop
  | nil : Trace D [] []
  | cons {contractId function call ret : String} {children siblings : List CallNode}
      {inner outer : List String} : IsCall D call contractId function → Trace D children inner →
      IsReturn D ret → Trace D siblings outer →
      Trace D (⟨contractId, function, children⟩ :: siblings) (call :: inner ++ ret :: outer)

variable {D : Decoders}

theorem traceEvent_of_isCall {event contractId function : String}
    (h : IsCall D event contractId function) (st : TraceState) :
    traceEvent D st event = st.push contractId function := by
  obtain ⟨e, hdecode, hsuccess, hcontract, address, rest, htopics⟩ := h
  simp [traceEvent, hdecode, hsuccess, htopics, hcontract]

theorem traceEvent_of_isReturn {event : String} (h : IsReturn D event) (st : TraceState) :
    traceEvent D st event = st.pop := by
  obtain ⟨e, hdecode, hsuccess, rest, htopics⟩ := h
  simp [traceEvent, hdecode, hsuccess, htopics]

theorem traceEvent_of_noise {event : String} (h : noise D event = true) (st : TraceState) :
    traceEvent D st event = st := by
  unfold noise at h
  unfold traceEvent
  split
  case h_1 => rfl
  case h_2 e hdecode =>
    simp only [hdecode, Bool.or_eq_true, Bool.not_eq_true'] at h
    rcases h with hfailed | htopic
    · simp [hfailed]
    · split
      · rfl
      · split
        case h_1 topic0 rest htopics =>
          simp only [htopics, List.head?_cons, Bool.and_eq_true, decide_eq_true_eq] at htopic
          rw [if_neg (fun h => htopic.1 h.1), if_neg htopic.2]
        case h_2 => rfl

/-- Noise may be left out. -/
theorem foldl_filter_noise (events : List String) (st : TraceState) :
    events.foldl (traceEvent D) st =
      (events.filter fun e => !noise D e).foldl (traceEvent D) st := by
  rw [List.foldl_filter]
  congr
  funext st event
  cases h : noise D event with
  | false => rfl
  | true => exact traceEvent_of_noise h st

/-- **The calls that an open call made**, once their events are read, are appended to it. -/
theorem foldl_trace {calls : List CallNode} {events : List String} (h : Trace D calls events)
    (parent : CallNode) (stack : List CallNode) (root : Option CallNode) :
    events.foldl (traceEvent D) ⟨parent :: stack, root⟩ =
      ⟨{ parent with children := parent.children ++ calls } :: stack, root⟩ := by
  induction h generalizing parent stack with
  | nil =>
    cases parent
    simp
  | @cons contractId function call ret children siblings inner outer hcall _ hret _ ihin ihout =>
    rw [List.foldl_append, List.foldl_cons, List.foldl_cons, traceEvent_of_isCall hcall,
      TraceState.push, ihin, List.nil_append, traceEvent_of_isReturn hret, TraceState.pop, ihout,
      List.append_assoc, List.singleton_append]

theorem foldl_trace_root {tree : CallNode} {events : List String} (h : Trace D [tree] events) :
    events.foldl (traceEvent D) ⟨[], none⟩ = ⟨[], some tree⟩ := by
  cases h with
  | cons hcall hin hret hout =>
    cases hout with
    | nil =>
      rw [List.foldl_append, List.foldl_cons, List.foldl_cons, traceEvent_of_isCall hcall,
        TraceState.push, foldl_trace hin, List.nil_append, traceEvent_of_isReturn hret]
      rfl

/-- **Round trip.** From the events of a tree, with any noise, both parsers read the tree, and
count its nodes and its depth. -/
theorem parse_trace (D : Decoders) (tree : CallNode) (events : List String)
    (h : Trace D [tree] (events.filter fun e => !noise D e)) :
    parseCallTrace D events = some ⟨tree⟩ ∧ extractCallGraph D events = some ⟨tree⟩ ∧
      (CallGraph.mk tree).totalCalls = tree.nodes.length ∧
      IsGreatest {d | ∃ u, tree.Occurs d u} (CallGraph.mk tree).maxDepth ∧
      IsGreatest {d | ∃ u, tree.Occurs d u} (CallGraph.mk tree).simulationMaxDepth := by
  have hfold : events.foldl (traceEvent D) ⟨[], none⟩ = ⟨[], some tree⟩ := by
    rw [foldl_filter_noise]
    exact foldl_trace_root h
  have hdepth := isGreatest_simulationNodeDepth tree
  refine ⟨?_, ?_, countNodes_eq tree, ?_, hdepth⟩
  · simp only [parseCallTrace, hfold, Option.map_some]
  · simp only [extractCallGraph, hfold, Option.map_some]
  · rw [CallGraph.maxDepth, nodeDepth_eq]
    exact hdepth

/-- The event that enters the function `f`. -/
def callEvent : String :=
  "AAAAAQAAAAAAAAAAAAAAAgAAAAAAAAADAAAADwAAAAdmbl9jYWxsAAAAAAEAAAAPAAAAAWYAAAAAAAAB"

/-- The event that leaves the function `f`. -/
def returnEvent : String :=
  "AAAAAQAAAAAAAAAAAAAAAgAAAAAAAAACAAAADwAAAAlmbl9yZXR1cm4AAAAAAAAPAAAAAWYAAAAAAAAB"

def callBytes : List UInt8 :=
  [0, 0, 0, 1, 0, 0, 0, 0, 0, 0, 0, 0, 0, 0, 0, 2, 0, 0, 0, 0, 0, 0, 0, 3, 0, 0, 0, 15, 0, 0, 0,
   7, 102, 110, 95, 99, 97, 108, 108, 0, 0, 0, 0, 1, 0, 0, 0, 15, 0, 0, 0, 1, 102, 0, 0, 0, 0, 0,
   0, 1]

def returnBytes : List UInt8 :=
  [0, 0, 0, 1, 0, 0, 0, 0, 0, 0, 0, 0, 0, 0, 0, 2, 0, 0, 0, 0, 0, 0, 0, 2, 0, 0, 0, 15, 0, 0, 0,
   9, 102, 110, 95, 114, 101, 116, 117, 114, 110, 0, 0, 0, 0, 0, 0, 15, 0, 0, 0, 1, 102, 0, 0, 0,
   0, 0, 0, 1]

/-- The decoding of these two events. -/
def twoDecoders : Decoders where
  base64 event :=
    if event = callEvent then some callBytes
    else if event = returnEvent then some returnBytes
    else none
  fromXdr bytes :=
    if bytes = callBytes then some ⟨true, none, [.symbol "fn_call", .other, .symbol "f"]⟩
    else if bytes = returnBytes then some ⟨true, none, [.symbol "fn_return", .symbol "f"]⟩
    else none
  strkey _ := "CAAAAAAAAAAAAAAAAAAAAAAAAAAAAAAAAAAAAAAAAAAAAAAAAAAAD2KM"

/-- A function that calls itself once, with an event in between that is not base64. -/
theorem parse_trace_nested :
    let tree : CallNode := ⟨"Host", "f", [⟨"Host", "f", []⟩]⟩
    let events := [callEvent, callEvent, "not-valid-base64!!", returnEvent, returnEvent]
    parseCallTrace twoDecoders events = some ⟨tree⟩ ∧
      extractCallGraph twoDecoders events = some ⟨tree⟩ ∧
      (CallGraph.mk tree).totalCalls = tree.nodes.length ∧
      IsGreatest {d | ∃ u, tree.Occurs d u} (CallGraph.mk tree).maxDepth ∧
      IsGreatest {d | ∃ u, tree.Occurs d u} (CallGraph.mk tree).simulationMaxDepth := by
  have hcall : IsCall twoDecoders callEvent "Host" "f" :=
    ⟨_, rfl, rfl, rfl, .other, [], rfl⟩
  have hret : IsReturn twoDecoders returnEvent := ⟨_, rfl, rfl, [.symbol "f"], rfl⟩
  have hinner : Trace twoDecoders [⟨"Host", "f", []⟩] [callEvent, returnEvent] :=
    .cons hcall .nil hret .nil
  have hquiet : [callEvent, callEvent, "not-valid-base64!!", returnEvent, returnEvent].filter
      (fun e => !noise twoDecoders e) = [callEvent, callEvent, returnEvent, returnEvent] := rfl
  refine parse_trace twoDecoders _ _ ?_
  rw [hquiet]
  exact .cons hcall hinner hret .nil

end Core.CallTrace
