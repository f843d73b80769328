import SkyMoonScope.Core.CallTrace.RoundTrip
import Mathlib.Order.Interval.Set.Nat

/-!
# Traces that stop early

The events of a transaction that traps, or of a stream that is cut, are a prefix of the events of a
call tree. The calls that are still open at its end are on the stack of the parser. Of these the
parser makes the outermost one the root, without the others: they are attached to their callers only
when they return. So no call is lost as long as at most one is open.

The calls of a trace are numbered in their order, and a record of a call has the number of its
caller. The parser is compared with a log that keeps the record of every call: as long as the
outermost call is open, the stack is the log.

## Main definitions

* `CallEvent`, `readEvent`: what the parser reads of an event
* `CallNode.events`: the events of a call tree
* `callLog`: the calls of a list of events with their callers, and the calls that are open
* `CallNode.records`: the nodes of a tree, with their callers
* `Complete D events`: the nodes of the graph are the calls of the events
* `Reading D events st`: the events are calls that have returned, and then the calls of a stack

## Main results

* `run_log`: the stack of the parser has all calls of the log
* `openCalls_ne_nil`: until the last event of a tree a call is open
* `complete_iff`: no call is lost just when at most one is open
* `exists_unique_reading`: what both parsers make of any events at all
-/

namespace Core.CallTrace

/-! ## The events of a tree -/

/-- What is read of an event: a call that is entered, or the return from one. -/
inductive CallEvent
  | fnCall (contractId function : String)
  | fnReturn

/-- What is read of an event, if it is not noise. -/
def readEvent (D : Decoders) (event : String) : Option CallEvent :=
  (D.decode event).bind fun e =>
    if !e.inSuccessfulContractCall then none
    else
      match e.topics with
      | .symbol topic0 :: _ =>
        if topic0 = "fn_call" ∧ 3 ≤ e.topics.length then
          let function := match (e.topics[2]? : Option ScVal) with
            | some (.symbol s) => s
            | _ => "unknown"
          some (.fnCall (D.contractText e.contractId) function)
        else if topic0 = "fn_return" then some .fnReturn
        else none
      | _ => none

def TraceState.apply (st : TraceState) : CallEvent → TraceState
  | .fnCall contractId function => st.push contractId function
  | .fnReturn => st.pop

/-- The events of a call: it is entered, makes its calls, and returns. -/
def CallNode.events : CallNode → List CallEvent
  | ⟨contractId, function, children⟩ =>
    .fnCall contractId function :: (children.map events).flatten ++ [.fnReturn]

variable {D : Decoders}

theorem traceEvent_eq (st : TraceState) (event : String) :
    traceEvent D st event = (readEvent D event).elim st st.apply := by
  unfold traceEvent readEvent
  cases D.decode event with
  | none => rfl
  | some e =>
    obtain ⟨successful, contractId, topics⟩ := e
    cases successful with
    | false => rfl
    | true =>
      rcases topics with - | ⟨topic0 | -, rest⟩
      · rfl
      · simp only [Option.bind_some, Bool.not_true, Bool.false_eq_true, if_false]
        by_cases hcall : topic0 = "fn_call" ∧ 3 ≤ (ScVal.symbol topic0 :: rest).length
        · rw [if_pos hcall, if_pos hcall]
          rfl
        · rw [if_neg hcall, if_neg hcall]
          split_ifs <;> rfl
      · rfl

/-- The parser goes over what it reads of the events. -/
theorem foldl_traceEvent (events : List String) (st : TraceState) :
    events.foldl (traceEvent D) st =
      (events.filterMap (readEvent D)).foldl TraceState.apply st := by
  rw [List.foldl_filterMap]
  congr
  funext st event
  rw [traceEvent_eq]
  cases readEvent D event <;> rfl

theorem readEvent_of_isCall {event contractId function : String}
    (h : IsCall D event contractId function) :
    readEvent D event = some (.fnCall contractId function) := by
  obtain ⟨e, hdecode, hsuccess, hcontract, address, rest, htopics⟩ := h
  simp [readEvent, hdecode, hsuccess, htopics, hcontract]

theorem readEvent_of_isReturn {event : String} (h : IsReturn D event) :
    readEvent D event = some .fnReturn := by
  obtain ⟨e, hdecode, hsuccess, rest, htopics⟩ := h
  simp [readEvent, hdecode, hsuccess, htopics]

/-- What is read of the events of some trees. -/
theorem Trace.filterMap_readEvent {trees : List CallNode} {events : List String}
    (h : Trace D trees events) :
    events.filterMap (readEvent D) = (trees.map CallNode.events).flatten := by
  induction h with
  | nil => rfl
  | cons hcall _ hret _ ihin ihout =>
    simp [CallNode.events, readEvent_of_isCall hcall, readEvent_of_isReturn hret, ihin, ihout]

theorem Trace.prefix_events {tree : CallNode} {events full : List String}
    (h : Trace D [tree] full) (hevents : events <+: full) :
    events.filterMap (readEvent D) <+: tree.events := by
  have := hevents.filterMap (readEvent D)
  rwa [h.filterMap_readEvent, List.map_singleton, List.flatten_singleton] at this

/-! ## The calls and their callers -/

/-- A call, and the number of the call that made it. -/
structure CallRecord where
  contractId : String
  function : String
  caller : Option ℕ

/-- The calls so far, and the numbers of the ones that are open, the innermost first. -/
structure CallLog where
  records : List CallRecord
  openCalls : List ℕ

namespace CallLog

/-- The caller of a call is the innermost one that is open. -/
def apply (log : CallLog) : CallEvent → CallLog
  | .fnCall contractId function =>
    { records := log.records ++ [⟨contractId, function, log.openCalls.head?⟩]
      openCalls := log.records.length :: log.openCalls }
  | .fnReturn => { log with openCalls := log.openCalls.tail }

@[simp] theorem openCalls_apply_fnCall (log : CallLog) (contractId function : String) :
    (log.apply (.fnCall contractId function)).openCalls = log.records.length :: log.openCalls := rfl

@[simp] theorem openCalls_apply_fnReturn (log : CallLog) :
    (log.apply .fnReturn).openCalls = log.openCalls.tail := rfl

end CallLog

def callLog (events : List CallEvent) : CallLog := events.foldl CallLog.apply ⟨[], []⟩

mutual

/-- The nodes of a tree in their order, numbered from `n`. -/
def CallNode.records : CallNode → ℕ → Option ℕ → List CallRecord
  | ⟨contractId, function, children⟩, n, caller =>
    ⟨contractId, function, caller⟩ :: childRecords children (n + 1) n

/-- The nodes of the calls that the call `caller` made. -/
def childRecords : List CallNode → ℕ → ℕ → List CallRecord
  | [], _, _ => []
  | t :: ts, n, caller =>
    let records := t.records n (some caller)
    records ++ childRecords ts (n + records.length) caller

end

/-- The calls and the nodes are the same, up to their numbers. -/
def SameCalls (calls nodes : List CallRecord) : Prop :=
  ∃ φ : ℕ → ℕ, Set.BijOn φ (Set.Iio calls.length) (Set.Iio nodes.length) ∧
    ∀ i r, calls[i]? = some r → nodes[φ i]? = some { r with caller := r.caller.map φ }

/-- The parser has a graph, and its nodes are just the calls of the events, each under the call that
was open when it was entered. -/
def Complete (D : Decoders) (events : List String) : Prop :=
  ∃ graph, parseCallTrace D events = some graph ∧
    SameCalls (callLog (events.filterMap (readEvent D))).records (graph.root.records 0 none)

theorem sameCalls_refl (records : List CallRecord) : SameCalls records records :=
  ⟨id, Set.bijOn_id _, fun i r h => by simpa using h⟩

theorem SameCalls.length_eq {calls nodes : List CallRecord} (h : SameCalls calls nodes) :
    calls.length = nodes.length := by
  obtain ⟨φ, hφ, -⟩ := h
  have hcard := hφ.ncard_eq
  rwa [Set.ncard_Iio_nat, Set.ncard_Iio_nat] at hcard

/-! ## The stack of the parser -/

mutual

theorem CallNode.length_records (t : CallNode) (n m : ℕ) (caller caller' : Option ℕ) :
    (t.records n caller).length = (t.records m caller').length := by
  obtain ⟨contractId, function, children⟩ := t
  simp only [CallNode.records, List.length_cons, length_childRecords children (n + 1) (m + 1) n m]

theorem length_childRecords (ts : List CallNode) (n m caller caller' : ℕ) :
    (childRecords ts n caller).length = (childRecords ts m caller').length := by
  cases ts with
  | nil => rfl
  | cons t ts =>
    simp only [childRecords, List.length_append,
      t.length_records n m (some caller) (some caller'),
      length_childRecords ts _ (m + (t.records m (some caller')).length) caller caller']

end

/-- The records of another call that a caller made come last. -/
theorem childRecords_concat (ts : List CallNode) (t : CallNode) (n caller : ℕ) :
    childRecords (ts ++ [t]) n caller =
      childRecords ts n caller ++
        t.records (n + (childRecords ts n caller).length) (some caller) := by
  induction ts generalizing n with
  | nil => simp [childRecords]
  | cons u ts ih => simp [childRecords, ih, add_assoc]

theorem CallNode.records_concat (p t : CallNode) (n : ℕ) (caller : Option ℕ) :
    ({ p with children := p.children ++ [t] } : CallNode).records n caller =
      p.records n caller ++ t.records (n + (p.records n caller).length) (some n) := by
  obtain ⟨contractId, function, children⟩ := p
  simp [CallNode.records, childRecords_concat, add_assoc, add_comm 1]

/-- The calls on the stack, with the calls they made that have returned. -/
def stackLog : List CallNode → CallLog
  | [] => ⟨[], []⟩
  | t :: stack =>
    let log := stackLog stack
    { records := log.records ++ t.records log.records.length log.openCalls.head?
      openCalls := log.records.length :: log.openCalls }

theorem length_openCalls_stackLog (stack : List CallNode) :
    (stackLog stack).openCalls.length = stack.length := by
  induction stack with
  | nil => rfl
  | cons t stack ih => simp [stackLog, ih]

/-- A call has a record, besides those of the calls it made. -/
theorem CallNode.records_ne_nil (t : CallNode) (n : ℕ) (caller : Option ℕ) :
    t.records n caller ≠ [] := by
  obtain ⟨contractId, function, children⟩ := t
  simp [CallNode.records]

theorem stackLog_push (st : TraceState) (contractId function : String) :
    stackLog (st.push contractId function).stack =
      (stackLog st.stack).apply (.fnCall contractId function) := by
  simp [TraceState.push, stackLog, CallLog.apply, CallNode.records, childRecords]

/-- A return to a caller leaves the records as they are. -/
theorem stackLog_pop {st : TraceState} (h : 2 ≤ st.stack.length) :
    stackLog st.pop.stack = (stackLog st.stack).apply .fnReturn := by
  obtain ⟨stack, root⟩ := st
  rcases stack with - | ⟨finished, - | ⟨parent, stack⟩⟩
  · simp at h
  · simp at h
  · simp [TraceState.pop, stackLog, CallLog.apply, CallNode.records_concat]

theorem root_pop {st : TraceState} (h : 2 ≤ st.stack.length) : st.pop.root = st.root := by
  obtain ⟨stack, root⟩ := st
  rcases stack with - | ⟨finished, - | ⟨parent, stack⟩⟩
  · simp at h
  · simp at h
  · rfl

/-- **The stack has the calls of the log**, as long as after the first event a call is open. -/
theorem run_log (events : List CallEvent)
    (h : ∀ p, p <+: events → p ≠ [] → (callLog p).openCalls ≠ []) :
    (events.foldl TraceState.apply ⟨[], none⟩).root = none ∧
      stackLog (events.foldl TraceState.apply ⟨[], none⟩).stack = callLog events := by
  induction events using List.reverseRecOn with
  | nil => exact ⟨rfl, rfl⟩
  | append_singleton events event ih =>
    obtain ⟨hroot, hlog⟩ := ih fun p hp => h p (hp.trans (List.prefix_append _ _))
    have hopen := h _ List.prefix_rfl (by simp)
    simp only [callLog, List.foldl_append, List.foldl_cons, List.foldl_nil] at hlog hopen ⊢
    rw [← hlog] at hopen ⊢
    cases event with
    | fnCall contractId function => exact ⟨hroot, stackLog_push _ contractId function⟩
    | fnReturn =>
      -- a call is left open, so that the one that returns has a caller
      have htwo : 2 ≤ (events.foldl TraceState.apply ⟨[], none⟩).stack.length := by
        have hpos := List.length_pos_iff.mpr hopen
        rw [CallLog.openCalls_apply_fnReturn, List.length_tail, length_openCalls_stackLog] at hpos
        omega
      exact ⟨(root_pop htwo).trans hroot, stackLog_pop htwo⟩

/-! ## Prefixes of the events of a tree -/

/-- The events of some trees leave no call open, if those of each of them do not. -/
theorem openCalls_flatten {ts : List CallNode}
    (h : ∀ t ∈ ts, ∀ log : CallLog, (t.events.foldl CallLog.apply log).openCalls = log.openCalls)
    (log : CallLog) :
    ((ts.map CallNode.events).flatten.foldl CallLog.apply log).openCalls = log.openCalls := by
  induction ts generalizing log with
  | nil => rfl
  | cons t ts ih =>
    rw [List.map_cons, List.flatten_cons, List.foldl_append,
      ih fun u hu => h u (List.mem_cons_of_mem _ hu), h t List.mem_cons_self]

theorem openCalls_events (t : CallNode) (log : CallLog) :
    (t.events.foldl CallLog.apply log).openCalls = log.openCalls := by
  induction t using CallNode.induction generalizing log with
  | h contractId function children ih =>
    rw [CallNode.events, List.foldl_append, List.foldl_cons, List.foldl_cons, List.foldl_nil,
      CallLog.openCalls_apply_fnReturn, openCalls_flatten ih, CallLog.openCalls_apply_fnCall,
      List.tail_cons]

/-- A prefix of the events of some trees returns only from calls that it has entered. -/
theorem openCalls_prefix_flatten {ts : List CallNode}
    (h : ∀ t ∈ ts, ∀ q, q <+: t.events → ∀ log : CallLog,
      ∃ inner, (q.foldl CallLog.apply log).openCalls = inner ++ log.openCalls)
    {q : List CallEvent} (hq : q <+: (ts.map CallNode.events).flatten) (log : CallLog) :
    ∃ inner, (q.foldl CallLog.apply log).openCalls = inner ++ log.openCalls := by
  induction ts generalizing q log with
  | nil =>
    rw [List.map_nil, List.flatten_nil, List.prefix_nil] at hq
    subst hq
    exact ⟨[], rfl⟩
  | cons t ts ih =>
    obtain ⟨suffix, hsuffix⟩ := hq
    rw [List.map_cons, List.flatten_cons, List.append_eq_append_iff] at hsuffix
    rcases hsuffix with ⟨rest, ht, -⟩ | ⟨later, rfl, hts⟩
    · exact h t List.mem_cons_self q ⟨rest, ht.symm⟩ log
    · -- the events of the first tree are over, and have left no call open
      rw [List.foldl_append, ← openCalls_events t log]
      exact ih (fun u hu => h u (List.mem_cons_of_mem _ hu)) ⟨suffix, hts.symm⟩ _

/-- Within the events of a tree its outermost call is open. -/
theorem openCalls_prefix (t : CallNode) {q : List CallEvent} (hq : q <+: t.events)
    (log : CallLog) :
    ∃ inner, (q.foldl CallLog.apply log).openCalls = inner ++ log.openCalls ∧
      (inner = [] → q = [] ∨ q = t.events) := by
  induction t using CallNode.induction generalizing q log with
  | h contractId function children ih =>
    have hevents : CallNode.events ⟨contractId, function, children⟩ =
        .fnCall contractId function :: ((children.map CallNode.events).flatten ++ [.fnReturn]) := by
      rw [CallNode.events, List.cons_append]
    cases q with
    | nil => exact ⟨[], rfl, fun _ => .inl rfl⟩
    | cons event q =>
      rw [hevents, List.cons_prefix_cons, List.prefix_concat_iff] at hq
      obtain ⟨rfl, rfl | hq⟩ := hq
      · refine ⟨[], ?_, fun _ => .inr hevents.symm⟩
        rw [← hevents, openCalls_events, List.nil_append]
      · have hchildren : ∀ u ∈ children, ∀ p, p <+: u.events → ∀ log : CallLog,
            ∃ inner, (p.foldl CallLog.apply log).openCalls = inner ++ log.openCalls := by
          intro u hu p hp log
          obtain ⟨inner, hinner, -⟩ := ih u hu hp log
          exact ⟨inner, hinner⟩
        obtain ⟨inner, hinner⟩ := openCalls_prefix_flatten hchildren hq
          (log.apply (.fnCall contractId function))
        refine ⟨inner ++ [log.records.length], ?_, fun hnil => ?_⟩
        · rw [List.foldl_cons, hinner, CallLog.openCalls_apply_fnCall, List.append_assoc,
            List.singleton_append]
        · simp at hnil

theorem openCalls_ne_nil {t : CallNode} {q : List CallEvent} (hq : q <+: t.events)
    (hne : q ≠ []) (hlast : q ≠ t.events) : (callLog q).openCalls ≠ [] := by
  obtain ⟨inner, hinner, hend⟩ := openCalls_prefix t hq ⟨[], []⟩
  intro hnil
  rw [callLog, hinner, List.append_nil] at hnil
  rcases hend hnil with h | h
  · exact hne h
  · exact hlast h

/-! ## The graph -/

/-- The root is the outermost call that was closed, or else the outermost one that is open. -/
theorem parseCallTrace_eq (events : List String) :
    parseCallTrace D events =
      let st := (events.filterMap (readEvent D)).foldl TraceState.apply ⟨[], none⟩
      (st.root.or st.stack.getLast?).map fun root => ⟨root⟩ := by
  rw [parseCallTrace, foldl_traceEvent]
  dsimp only
  cases ((events.filterMap (readEvent D)).foldl TraceState.apply ⟨[], none⟩).root <;> rfl

/-- The outermost call on the stack has the first records. -/
theorem records_stackLog_getLast {stack : List CallNode} {t : CallNode}
    (h : stack.getLast? = some t) :
    ∃ inner, (stackLog stack).records = t.records 0 none ++ inner ∧
      (inner = [] ↔ stack.length ≤ 1) := by
  induction stack with
  | nil => simp at h
  | cons u stack ih =>
    cases stack with
    | nil =>
      obtain rfl : u = t := by simpa using h
      exact ⟨[], by simp [stackLog], by simp⟩
    | cons v stack =>
      rw [List.getLast?_cons_cons] at h
      obtain ⟨inner, hinner, -⟩ := ih h
      set log := stackLog (v :: stack) with hlog
      refine ⟨inner ++ u.records log.records.length log.openCalls.head?, ?_, ?_⟩
      · rw [stackLog, ← hlog, hinner, List.append_assoc]
      · simp [CallNode.records_ne_nil]

variable {tree : CallNode} {q : List CallEvent}

/-- As long as the outermost call is open, the stack has the calls of the log. -/
theorem run_prefix (hq : q <+: tree.events) (hlast : q ≠ tree.events) :
    (q.foldl TraceState.apply ⟨[], none⟩).root = none ∧
      stackLog (q.foldl TraceState.apply ⟨[], none⟩).stack = callLog q := by
  refine run_log q fun p hp hne => openCalls_ne_nil (hp.trans hq) hne ?_
  rintro rfl
  exact hlast (hq.eq_of_length_le hp.length_le)

/-- After the last event of a tree the graph has all its calls. -/
theorem exists_root_events (tree : CallNode) :
    ∃ root, tree.events.foldl TraceState.apply ⟨[], none⟩ = ⟨[], some root⟩ ∧
      callLog tree.events = ⟨root.records 0 none, []⟩ := by
  obtain ⟨contractId, function, children⟩ := tree
  obtain ⟨init, hinit⟩ : ∃ init : List CallEvent,
      init = .fnCall contractId function :: (children.map CallNode.events).flatten := ⟨_, rfl⟩
  have hevents : CallNode.events ⟨contractId, function, children⟩ = init ++ [.fnReturn] := by
    rw [CallNode.events, hinit]
  have hpre : init <+: CallNode.events ⟨contractId, function, children⟩ :=
    hevents ▸ List.prefix_append init _
  have hshort : init ≠ CallNode.events ⟨contractId, function, children⟩ := by
    rw [hevents]
    simp
  obtain ⟨hroot, hlog⟩ := run_prefix hpre hshort
  have hopen : (callLog init).openCalls = [0] := by
    rw [hinit, callLog, List.foldl_cons, openCalls_flatten fun t _ => openCalls_events t]
    rfl
  rw [hevents, List.foldl_append, List.foldl_cons, List.foldl_nil, callLog, List.foldl_append,
    List.foldl_cons, List.foldl_nil, ← callLog, ← hlog]
  -- the outermost call is alone on the stack when its return is read
  have hlength := length_openCalls_stackLog (init.foldl TraceState.apply ⟨[], none⟩).stack
  rw [hlog, hopen, List.length_singleton] at hlength
  obtain ⟨root, hstack⟩ := List.length_eq_one_iff.mp hlength.symm
  refine ⟨root, ?_, ?_⟩
  · rw [TraceState.apply, TraceState.pop, hstack]
  · simp [hstack, stackLog, CallLog.apply]

/-- The graph has the first of the calls, and all of them just when at most one is open. -/
theorem exists_graph (hq : q <+: tree.events) (hne : q ≠ []) :
    ∃ root inner, (q.foldl TraceState.apply ⟨[], none⟩).root.or
        (q.foldl TraceState.apply ⟨[], none⟩).stack.getLast? = some root ∧
      (callLog q).records = root.records 0 none ++ inner ∧
      (inner = [] ↔ (callLog q).openCalls.length ≤ 1) := by
  by_cases hlast : q = tree.events
  · subst hlast
    obtain ⟨root, hrun, hlog⟩ := exists_root_events tree
    exact ⟨root, [], by rw [hrun]; rfl, by rw [hlog, List.append_nil], by simp [hlog]⟩
  · obtain ⟨hroot, hlog⟩ := run_prefix hq hlast
    have hopen := openCalls_ne_nil hq hne hlast
    set st := q.foldl TraceState.apply ⟨[], none⟩
    have hlength : st.stack.length = (callLog q).openCalls.length := by
      rw [← hlog, length_openCalls_stackLog]
    cases houter : st.stack.getLast? with
    | none =>
      rw [List.getLast?_eq_none_iff] at houter
      rw [← hlog, houter] at hopen
      exact absurd rfl hopen
    | some root =>
      obtain ⟨inner, hinner, hone⟩ := records_stackLog_getLast houter
      refine ⟨root, inner, by rw [hroot]; rfl, by rw [← hlog, hinner], ?_⟩
      rw [hone, hlength]

/-- **A trace that stops early** is complete just when at most one call is open at its end. -/
theorem complete_iff (D : Decoders) (tree : CallNode) (events : List String)
    (hpre : events.filterMap (readEvent D) <+: tree.events)
    (hne : events.filterMap (readEvent D) ≠ []) :
    Complete D events ↔ (callLog (events.filterMap (readEvent D))).openCalls.length ≤ 1 := by
  obtain ⟨root, inner, hroot, hrecords, hone⟩ := exists_graph hpre hne
  have hgraph : parseCallTrace D events = some ⟨root⟩ := by
    rw [parseCallTrace_eq]
    simp only [hroot, Option.map_some]
  rw [← hone, Complete]
  constructor
  · -- there are not enough nodes for the calls that are attached to no caller
    rintro ⟨graph, hparse, hsame⟩
    obtain rfl : ⟨root⟩ = graph := Option.some.inj (hgraph.symm.trans hparse)
    have hlength : (root.records 0 none ++ inner).length = (root.records 0 none).length :=
      hrecords ▸ hsame.length_eq
    rw [List.length_append] at hlength
    exact List.length_eq_zero_iff.mp (by omega)
  · rintro rfl
    rw [List.append_nil] at hrecords
    exact ⟨⟨root⟩, hgraph, hrecords ▸ sameCalls_refl _⟩

/-- A function that calls itself and has not returned yet, after the inner call has. -/
theorem complete_iff_nested :
    let events := [callEvent, callEvent, returnEvent]
    Complete twoDecoders events ↔
      (callLog (events.filterMap (readEvent twoDecoders))).openCalls.length ≤ 1 := by
  have hread : [callEvent, callEvent, returnEvent].filterMap (readEvent twoDecoders) =
      [.fnCall "Host" "f", .fnCall "Host" "f", .fnReturn] := rfl
  exact complete_iff twoDecoders ⟨"Host", "f", [⟨"Host", "f", []⟩]⟩ _
    (by rw [hread]; exact ⟨[.fnReturn], by simp [CallNode.events]⟩) (by rw [hread]; simp)

/-- A function that has called itself, and the inner call has not returned: it is lost. -/
theorem not_complete_nested :
    ¬ ∀ (D : Decoders) (tree : CallNode) (events : List String),
      events.filterMap (readEvent D) <+: tree.events → events.filterMap (readEvent D) ≠ [] →
      Complete D events := by
  intro h
  have hread : [callEvent, callEvent].filterMap (readEvent twoDecoders) =
      [.fnCall "Host" "f", .fnCall "Host" "f"] := rfl
  have hgraph : parseCallTrace twoDecoders [callEvent, callEvent] =
      some ⟨"Host", "f", []⟩ := rfl
  obtain ⟨graph, hparse, hsame⟩ := h twoDecoders ⟨"Host", "f", [⟨"Host", "f", []⟩]⟩
    [callEvent, callEvent]
    (by rw [hread]; exact ⟨[.fnReturn, .fnReturn], by simp [CallNode.events]⟩)
    (by rw [hread]; simp)
  obtain rfl : ⟨⟨"Host", "f", []⟩⟩ = graph := Option.some.inj (hgraph.symm.trans hparse)
  have hlength := hsame.length_eq
  rw [hread] at hlength
  simp [callLog, CallLog.apply, CallNode.records, childRecords] at hlength

/-! ## All traces

Whatever the events are, they are read in one way only: as outermost calls that have returned, with
returns from no call among them, and then the calls that are still open.
-/

/-- The events of the calls on the stack: each was entered, and the calls it made have returned. -/
def pendingEvents : List CallNode → List CallEvent
  | [] => []
  | t :: stack =>
    pendingEvents stack ++ .fnCall t.contractId t.function ::
      (t.children.map CallNode.events).flatten

/-- Outermost calls that have returned, the last of them `root`, and returns from no call. -/
inductive Returned : List CallEvent → Option CallNode → Prop
  | nil : Returned [] none
  | call {past : List CallEvent} {root : Option CallNode} (t : CallNode) :
    Returned past root → Returned (past ++ t.events) (some t)
  | stray {past : List CallEvent} {root : Option CallNode} :
    Returned past root → Returned (past ++ [.fnReturn]) root

/-- What is read of the events: the last outermost call that has returned, and those still open. -/
def Reading (D : Decoders) (events : List String) (st : TraceState) : Prop :=
  ∃ past, Returned past st.root ∧
    events.filterMap (readEvent D) = past ++ pendingEvents st.stack

/-- The trees that an open call made become its last calls. -/
theorem foldl_flatten_events {ts : List CallNode}
    (h : ∀ t ∈ ts, ∀ st : TraceState,
      t.events.foldl TraceState.apply st = TraceState.pop { st with stack := t :: st.stack })
    (contractId function : String) (made stack : List CallNode) (root : Option CallNode) :
    (ts.map CallNode.events).flatten.foldl TraceState.apply
        ⟨⟨contractId, function, made⟩ :: stack, root⟩ =
      ⟨⟨contractId, function, made ++ ts⟩ :: stack, root⟩ := by
  induction ts generalizing made with
  | nil => simp
  | cons t ts ih =>
    rw [List.map_cons, List.flatten_cons, List.foldl_append, h t List.mem_cons_self]
    simp only [TraceState.pop]
    rw [ih fun u hu => h u (List.mem_cons_of_mem _ hu), List.append_assoc, List.singleton_append]

/-- The events of a tree leave it with its caller, or as the root. -/
theorem foldl_events (t : CallNode) (st : TraceState) :
    t.events.foldl TraceState.apply st = TraceState.pop { st with stack := t :: st.stack } := by
  induction t using CallNode.induction generalizing st with
  | h contractId function children ih =>
    obtain ⟨stack, root⟩ := st
    rw [CallNode.events, List.foldl_append, List.foldl_cons, List.foldl_cons, List.foldl_nil,
      TraceState.apply, TraceState.apply, TraceState.push, foldl_flatten_events ih,
      List.nil_append]

/-- The calls that have returned leave the last of them. -/
theorem Returned.foldl_eq {past : List CallEvent} {root : Option CallNode}
    (h : Returned past root) : past.foldl TraceState.apply ⟨[], none⟩ = ⟨[], root⟩ := by
  induction h with
  | nil => rfl
  | call t _ ih =>
    rw [List.foldl_append, ih, foldl_events]
    rfl
  | stray _ ih =>
    rw [List.foldl_append, ih]
    rfl

/-- The calls that are open leave themselves. -/
theorem foldl_pendingEvents (stack : List CallNode) (root : Option CallNode) :
    (pendingEvents stack).foldl TraceState.apply ⟨[], root⟩ = ⟨stack, root⟩ := by
  induction stack with
  | nil => rfl
  | cons t stack ih =>
    obtain ⟨contractId, function, children⟩ := t
    rw [pendingEvents, List.foldl_append, ih, List.foldl_cons, TraceState.apply, TraceState.push,
      foldl_flatten_events fun t _ => foldl_events t, List.nil_append]

theorem Reading.foldl_eq {events : List String} {st : TraceState} (h : Reading D events st) :
    (events.filterMap (readEvent D)).foldl TraceState.apply ⟨[], none⟩ = st := by
  obtain ⟨past, hpast, hreads⟩ := h
  rw [hreads, List.foldl_append, hpast.foldl_eq, foldl_pendingEvents]

/-- One more event is read as a call that is entered, as the return from the innermost call, or as
a return from no call. -/
theorem exists_reading (reads : List CallEvent) :
    ∃ past, Returned past (reads.foldl TraceState.apply ⟨[], none⟩).root ∧
      reads = past ++ pendingEvents (reads.foldl TraceState.apply ⟨[], none⟩).stack := by
  induction reads using List.reverseRecOn with
  | nil => exact ⟨[], .nil, rfl⟩
  | append_singleton reads event ih =>
    obtain ⟨past, hpast, hreads⟩ := ih
    rw [List.foldl_append, List.foldl_cons, List.foldl_nil]
    generalize reads.foldl TraceState.apply ⟨[], none⟩ = st at hpast hreads ⊢
    obtain ⟨stack, root⟩ := st
    rw [hreads]
    cases event with
    | fnCall contractId function =>
      exact ⟨past, hpast, by simp [TraceState.apply, TraceState.push, pendingEvents]⟩
    | fnReturn =>
      rcases stack with - | ⟨⟨contractId, function, children⟩, - | ⟨parent, stack⟩⟩
      · exact ⟨past ++ [.fnReturn], hpast.stray,
          by simp [TraceState.apply, TraceState.pop, pendingEvents]⟩
      · -- the outermost call returns: it is the root from now on
        refine ⟨_, hpast.call ⟨contractId, function, children⟩, ?_⟩
        simp [TraceState.apply, TraceState.pop, pendingEvents, CallNode.events]
      · refine ⟨past, hpast, ?_⟩
        simp [TraceState.apply, TraceState.pop, pendingEvents, CallNode.events]

/-- **All traces are read in one way**, and the graph of either parser is made of what is read: the
last outermost call that has returned or, for the trace parser alone, the outermost one that is
still open. -/
theorem exists_unique_reading (D : Decoders) (events : List String) :
    ∃ st, (∀ st', Reading D events st' ↔ st' = st) ∧
      extractCallGraph D events = st.root.map (fun root => ⟨root⟩) ∧
      parseCallTrace D events = (st.root.or st.stack.getLast?).map fun root => ⟨root⟩ := by
  refine ⟨(events.filterMap (readEvent D)).foldl TraceState.apply ⟨[], none⟩, fun st' => ?_, ?_,
    parseCallTrace_eq events⟩
  · constructor
    · rintro h
      exact h.foldl_eq.symm
    · rintro rfl
      exact exists_reading _
  · rw [extractCallGraph, foldl_traceEvent]

end Core.CallTrace
