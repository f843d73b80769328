import SkyMoonScope.Core.CallTrace.Unwinding
import SkyMoonScope.Lib.Text

/-!
# Charts of call graphs

A call graph is shown as a Mermaid chart: a node for each call, numbered in the order of the calls,
and an edge to it from the node of its caller. Both renderers go over the tree and count the nodes
as they write them. The text is one piece for each record of the tree, and the tree can be read back
from it, as long as no name runs into the text around it.

## Main definitions

* `appendMermaidNodes`, `simulationAppendMermaidNodes`: the two renderers
* `CallGraph.toMermaid`, `CallGraph.simulationToMermaid`: the text of a chart
* `recordsText`: the text of a list of records
* `Legible separator t`: the names of the tree end where the text around them begins

## Main results

* `append_mermaid_nodes`: a renderer writes the text of the records of its tree
* `toMermaid_eq_iff`: two graphs have the same chart only if they are the same
-/

namespace Core.CallTrace

/-! ## The renderers -/

/-- The line of a node. Between the names of the contract and of the function stands `separator`. -/
def nodeLine (separator : String) (currentId : ℕ) (contractId function : String) : String :=
  "    n" ++ toString currentId ++ "[\"" ++ contractId ++ separator ++ function ++ "\"]\n"

def edgeLine (currentId childId : ℕ) : String :=
  "    n" ++ toString currentId ++ " --> n" ++ toString childId ++ "\n"

mutual

/-- What both renderers do: they append to the text, and count the nodes. -/
def appendMermaid (separator : String) : CallNode → String → ℕ → String × ℕ
  | ⟨contractId, function, children⟩, mermaid, currentId =>
    appendMermaidChildren separator currentId children
      (mermaid ++ nodeLine separator currentId contractId function) currentId

def appendMermaidChildren (separator : String) (currentId : ℕ) :
    List CallNode → String → ℕ → String × ℕ
  | [], mermaid, idGen => (mermaid, idGen)
  | child :: children, mermaid, idGen =>
    let childId := idGen + 1
    let (mermaid, idGen) :=
      appendMermaid separator child (mermaid ++ edgeLine currentId childId) childId
    appendMermaidChildren separator currentId children mermaid idGen

end

/-- The renderer of the trace parser breaks the line between the names, by the escape that the chart
has for it. -/
def appendMermaidNodes : CallNode → String → ℕ → String × ℕ := appendMermaid "\\n"

/-- The renderer of the simulation engine. -/
def simulationAppendMermaidNodes : CallNode → String → ℕ → String × ℕ := appendMermaid ":"

namespace CallGraph

def toMermaid (g : CallGraph) : String := (appendMermaidNodes g.root "graph TD\n" 0).1

def simulationToMermaid (g : CallGraph) : String :=
  (simulationAppendMermaidNodes g.root "graph TD\n" 0).1

end CallGraph

/-! ## The text of the records -/

/-- The text of the `n`-th record: the edge from its caller, and its node. -/
def CallRecord.text (separator : String) (n : ℕ) (r : CallRecord) : String :=
  r.caller.elim "" (edgeLine · n) ++ nodeLine separator n r.contractId r.function

/-- The text of some records, numbered from `n`. -/
def recordsText (separator : String) : ℕ → List CallRecord → String
  | _, [] => ""
  | n, r :: rs => r.text separator n ++ recordsText separator (n + 1) rs

variable {separator : String}

theorem recordsText_append (n : ℕ) (rs ss : List CallRecord) :
    recordsText separator n (rs ++ ss) =
      recordsText separator n rs ++ recordsText separator (n + rs.length) ss := by
  induction rs generalizing n with
  | nil => simp [recordsText]
  | cons r rs ih =>
    rw [List.cons_append, recordsText, recordsText, ih, String.append_assoc, List.length_cons,
      Nat.add_comm rs.length 1, Nat.add_assoc]

/-- The text of a tree that another call made starts with the edge from its caller. -/
theorem recordsText_records (t : CallNode) (n caller : ℕ) :
    recordsText separator n (t.records n (some caller)) =
      edgeLine caller n ++ recordsText separator n (t.records n none) := by
  obtain ⟨contractId, function, children⟩ := t
  simp [CallNode.records, recordsText, CallRecord.text, String.append_assoc]

mutual

/-- **What a renderer writes** are the records of its tree, without the edge to its root. The count
is the number of the last node that it wrote. -/
theorem append_mermaid (t : CallNode) (mermaid : String) (n : ℕ) :
    appendMermaid separator t mermaid n =
      (mermaid ++ recordsText separator n (t.records n none),
        n + (t.records n none).length - 1) := by
  obtain ⟨contractId, function, children⟩ := t
  rw [appendMermaid, append_mermaid_children children, CallNode.records]
  simp [recordsText, CallRecord.text, String.append_assoc]

theorem append_mermaid_children (ts : List CallNode) (mermaid : String) (n caller : ℕ) :
    appendMermaidChildren separator caller ts mermaid n =
      (mermaid ++ recordsText separator (n + 1) (childRecords ts (n + 1) caller),
        n + (childRecords ts (n + 1) caller).length) := by
  cases ts with
  | nil => simp [appendMermaidChildren, childRecords, recordsText]
  | cons t ts =>
    have hlength := t.length_records (n + 1) (n + 1) (some caller) none
    have hpos := List.length_pos_iff.mpr (t.records_ne_nil (n + 1) none)
    have hcount : n + 1 + (t.records (n + 1) none).length - 1 =
        n + (t.records (n + 1) none).length := by omega
    rw [appendMermaidChildren, append_mermaid t]
    dsimp only
    rw [hcount, append_mermaid_children ts, childRecords]
    rw [recordsText_append, recordsText_records, hlength, List.length_append, hlength]
    simp only [String.append_assoc, Nat.add_assoc, Nat.add_comm 1]

end

/-! ## Reading a chart back -/

/-- The names end where the text around them begins: `mark` is where the separator starts. -/
structure CallRecord.Legible (mark : Char) (r : CallRecord) : Prop where
  mark_notMem : mark ∉ r.contractId.toList
  function_line : '\n' ∉ r.function.toList

theorem toList_nodeLine (n : ℕ) (contractId function : String) :
    (nodeLine separator n contractId function).toList =
      "    n".toList ++ (Nat.toDigits 10 n ++ '[' :: '"' :: (contractId.toList ++
        (separator.toList ++ ((function.toList ++ ['"', ']']) ++ ['\n'])))) := by
  simp [nodeLine]

theorem toList_edgeLine (caller n : ℕ) :
    (edgeLine caller n).toList =
      "    n".toList ++ (Nat.toDigits 10 caller ++
        ' ' :: ("--> n".toList ++ (Nat.toDigits 10 n ++ ['\n']))) := by
  simp [edgeLine]

section Legible

variable {mark : Char} {rest : List Char} {r s : CallRecord} {n : ℕ} {x y : List Char}

theorem nodeLine_inj (hseparator : separator.toList = mark :: rest) (hr : r.Legible mark)
    (hs : s.Legible mark)
    (h : (nodeLine separator n r.contractId r.function).toList ++ x =
      (nodeLine separator n s.contractId s.function).toList ++ y) :
    r.contractId = s.contractId ∧ r.function = s.function ∧ x = y := by
  have hmark : ∀ {t : CallRecord}, t.Legible mark → ∀ c ∈ t.contractId.toList, c ≠ mark :=
    fun ht c hc => ne_of_mem_of_not_mem hc ht.mark_notMem
  have hline : ∀ {t : CallRecord}, t.Legible mark →
      ∀ c ∈ t.function.toList ++ ['"', ']'], c ≠ '\n' := by
    intro t ht c hc
    rw [List.mem_append] at hc
    rcases hc with hc | hc
    · exact ne_of_mem_of_not_mem hc ht.function_line
    · rintro rfl
      simp at hc
  rw [toList_nodeLine, toList_nodeLine, hseparator] at h
  simp only [List.append_assoc _ _ x, List.append_assoc _ _ y, List.cons_append,
    List.append_cancel_left_eq, List.cons.injEq, true_and] at h
  -- the name of the contract ends at the separator, and that of the function with the line
  obtain ⟨hcontract, -, h⟩ := Text.append_cons_inj (hmark hr) (hmark hs) (by simp) (by simp) h
  rw [List.append_cancel_left_eq] at h
  obtain ⟨hfunction, -, h⟩ := Text.append_cons_inj (hline hr) (hline hs) (by simp) (by simp) h
  exact ⟨String.toList_inj.mp hcontract, String.toList_inj.mp (List.append_cancel_right hfunction),
    h⟩

/-- **The text of a record** is not the beginning of that of another one. -/
theorem text_inj (hseparator : separator.toList = mark :: rest) (hr : r.Legible mark)
    (hs : s.Legible mark)
    (h : (r.text separator n).toList ++ x = (s.text separator n).toList ++ y) : r = s ∧ x = y := by
  have hnode := @nodeLine_inj separator mark rest r s n x y hseparator hr hs
  obtain ⟨contractId, function, caller⟩ := r
  obtain ⟨contractId', function', caller'⟩ := s
  dsimp only at hnode
  cases caller with
  | none =>
    cases caller' with
    | none =>
      rw [CallRecord.text, CallRecord.text] at h
      obtain ⟨rfl, rfl, hrest⟩ := hnode (by simpa using h)
      exact ⟨rfl, hrest⟩
    | some caller' =>
      -- after its number a node has a bracket, and an edge a blank
      simp only [CallRecord.text, Option.elim, String.toList_append, toList_nodeLine,
        toList_edgeLine, List.append_assoc, List.cons_append, List.append_cancel_left_eq,
        String.toList_empty, List.nil_append] at h
      obtain ⟨-, habsurd, -⟩ := Text.toDigits_append_cons_inj (by simp) (by simp) h
      simp at habsurd
  | some caller =>
    cases caller' with
    | none =>
      simp only [CallRecord.text, Option.elim, String.toList_append, toList_nodeLine,
        toList_edgeLine, List.append_assoc, List.cons_append, List.append_cancel_left_eq,
        String.toList_empty, List.nil_append] at h
      obtain ⟨-, habsurd, -⟩ := Text.toDigits_append_cons_inj (by simp) (by simp) h
      simp at habsurd
    | some caller' =>
      simp only [CallRecord.text, Option.elim, String.toList_append, toList_edgeLine,
        List.append_assoc, List.cons_append, List.append_cancel_left_eq] at h
      obtain ⟨rfl, -, h⟩ := Text.toDigits_append_cons_inj (by simp) (by simp) h
      simp only [List.append_cancel_left_eq, List.cons.injEq, true_and] at h
      obtain ⟨rfl, rfl, hrest⟩ := hnode h
      exact ⟨rfl, hrest⟩

/-- **The records can be read back** from their text. -/
theorem recordsText_inj (hseparator : separator.toList = mark :: rest) {rs ss : List CallRecord}
    (hrs : ∀ r ∈ rs, r.Legible mark) (hss : ∀ s ∈ ss, s.Legible mark)
    (h : (recordsText separator n rs).toList = (recordsText separator n ss).toList) : rs = ss := by
  have hne : ∀ (r : CallRecord) (n : ℕ) (x : List Char), (r.text separator n).toList ++ x ≠ [] := by
    intro r n x
    simp [CallRecord.text, toList_nodeLine]
  induction rs generalizing ss n with
  | nil =>
    cases ss with
    | nil => rfl
    | cons s ss =>
      rw [recordsText, recordsText, String.toList_append] at h
      exact absurd h.symm (hne s n _)
  | cons r rs ih =>
    cases ss with
    | nil =>
      rw [recordsText, recordsText, String.toList_append] at h
      exact absurd h (hne r n _)
    | cons s ss =>
      rw [recordsText, recordsText, String.toList_append, String.toList_append] at h
      obtain ⟨rfl, hrest⟩ := text_inj hseparator (hrs r List.mem_cons_self)
        (hss s List.mem_cons_self) h
      rw [ih (fun t ht => hrs t (List.mem_cons_of_mem _ ht))
        (fun t ht => hss t (List.mem_cons_of_mem _ ht)) hrest]

end Legible

/-! ## Reading a tree back -/

/-- The next record, if there is one, is not of a call that the call `n` or a later one made. -/
def Outside (n : ℕ) (rs : List CallRecord) : Prop :=
  ∀ r ∈ rs.head?, ∀ caller, r.caller = some caller → caller < n

theorem outside_nil (n : ℕ) : Outside n [] := by simp [Outside]

theorem Outside.mono {m n : ℕ} {rs : List CallRecord} (h : Outside m rs) (hmn : m ≤ n) :
    Outside n rs :=
  fun r hr caller hcaller => (h r hr caller hcaller).trans_le hmn

/-- The siblings that come after a call are outside of it. -/
theorem outside_childRecords {ts : List CallNode} {n m caller : ℕ} {rs : List CallRecord}
    (hcaller : caller < m) (h : Outside m rs) : Outside m (childRecords ts n caller ++ rs) := by
  cases ts with
  | nil => exact h
  | cons t ts =>
    obtain ⟨contractId, function, children⟩ := t
    intro r hr c hc
    simp only [childRecords, CallNode.records, List.cons_append, List.head?_cons,
      Option.mem_def, Option.some.injEq] at hr
    subst hr
    cases hc
    exact hcaller

/-- The same of the calls that a call made: where they end, the tree goes on outside of the call. -/
theorem childRecords_append_inj {ts us : List CallNode} {n caller : ℕ} {rs ss : List CallRecord}
    (ih : ∀ t ∈ ts, ∀ {u : CallNode} {n : ℕ} {c : Option ℕ} {rs ss : List CallRecord},
      Outside n rs → Outside n ss → t.records n c ++ rs = u.records n c ++ ss → t = u ∧ rs = ss)
    (hcaller : caller < n) (hrs : Outside caller rs) (hss : Outside caller ss)
    (h : childRecords ts n caller ++ rs = childRecords us n caller ++ ss) : ts = us ∧ rs = ss := by
  induction ts generalizing us n with
  | nil =>
    cases us with
    | nil => exact ⟨rfl, h⟩
    | cons u us =>
      obtain ⟨contractId, function, children⟩ := u
      subst h
      exact absurd (hrs _ rfl caller rfl) (lt_irrefl caller)
  | cons t ts ihts =>
    cases us with
    | nil =>
      obtain ⟨contractId, function, children⟩ := t
      subst h
      exact absurd (hss _ rfl caller rfl) (lt_irrefl caller)
    | cons u us =>
      simp only [childRecords, List.append_assoc] at h
      obtain ⟨rfl, hrest⟩ := ih t List.mem_cons_self
        (outside_childRecords hcaller (hrs.mono hcaller.le))
        (outside_childRecords hcaller (hss.mono hcaller.le)) h
      obtain ⟨rfl, rfl⟩ := ihts (fun v hv => ih v (List.mem_cons_of_mem _ hv))
        (hcaller.trans_le (Nat.le_add_right _ _)) hrest
      exact ⟨rfl, rfl⟩

/-- **A tree can be read back** from its records, and where it ends. -/
theorem records_append_inj (t : CallNode) {u : CallNode} {n : ℕ} {caller : Option ℕ}
    {rs ss : List CallRecord} (hrs : Outside n rs) (hss : Outside n ss)
    (h : t.records n caller ++ rs = u.records n caller ++ ss) : t = u ∧ rs = ss := by
  induction t using CallNode.induction generalizing u n caller rs ss with
  | h contractId function children ih =>
    obtain ⟨contractId', function', children'⟩ := u
    simp only [CallNode.records, List.cons_append, List.cons.injEq, CallRecord.mk.injEq] at h
    obtain ⟨⟨rfl, rfl, -⟩, h⟩ := h
    obtain ⟨rfl, hrest⟩ := childRecords_append_inj (fun t ht => ih t ht) n.lt_succ_self hrs hss h
    exact ⟨rfl, hrest⟩

mutual

/-- The records have the names of the nodes. -/
theorem CallNode.exists_node_of_mem_records (t : CallNode) {n : ℕ} {caller : Option ℕ}
    {r : CallRecord} (h : r ∈ t.records n caller) :
    ∃ u ∈ t.nodes, u.contractId = r.contractId ∧ u.function = r.function := by
  obtain ⟨contractId, function, children⟩ := t
  rw [CallNode.records, List.mem_cons] at h
  rw [CallNode.nodes]
  rcases h with rfl | h
  · exact ⟨_, List.mem_cons_self, rfl, rfl⟩
  · obtain ⟨t, ht, u, hu, hnames⟩ := exists_node_of_mem_childRecords children h
    exact ⟨u, List.mem_cons_of_mem _ (List.mem_flatten.mpr ⟨_, List.mem_map_of_mem ht, hu⟩),
      hnames⟩

theorem exists_node_of_mem_childRecords (ts : List CallNode) {n caller : ℕ} {r : CallRecord}
    (h : r ∈ childRecords ts n caller) :
    ∃ t ∈ ts, ∃ u ∈ t.nodes, u.contractId = r.contractId ∧ u.function = r.function := by
  cases ts with
  | nil => simp [childRecords] at h
  | cons t ts =>
    rw [childRecords, List.mem_append] at h
    rcases h with h | h
    · exact ⟨t, List.mem_cons_self, t.exists_node_of_mem_records h⟩
    · obtain ⟨u, hu, hnode⟩ := exists_node_of_mem_childRecords ts h
      exact ⟨u, List.mem_cons_of_mem _ hu, hnode⟩

end

/-- Every name of the graph ends where the text of a chart goes on after it: no contract has the
character `mark` in its name, and no function a line break. -/
def CallGraph.Legible (mark : Char) (g : CallGraph) : Prop :=
  ∀ t ∈ g.root.nodes, mark ∉ t.contractId.toList ∧ '\n' ∉ t.function.toList

theorem CallGraph.Legible.records {mark : Char} {g : CallGraph} (h : g.Legible mark)
    {r : CallRecord} (hr : r ∈ g.root.records 0 none) : r.Legible mark := by
  obtain ⟨t, ht, hcontract, hfunction⟩ := g.root.exists_node_of_mem_records hr
  obtain ⟨hmark, hline⟩ := h t ht
  exact ⟨hcontract ▸ hmark, hfunction ▸ hline⟩

/-- A chart of a renderer determines the tree. -/
theorem appendMermaid_inj {mark : Char} {rest : List Char}
    (hseparator : separator.toList = mark :: rest) {g h : CallGraph} (hg : g.Legible mark)
    (hh : h.Legible mark) {header : String}
    (heq : (appendMermaid separator g.root header 0).1 =
      (appendMermaid separator h.root header 0).1) : g = h := by
  rw [append_mermaid, append_mermaid] at heq
  have htext := congrArg String.toList heq
  rw [String.toList_append, String.toList_append, List.append_cancel_left_eq] at htext
  have hrecords := recordsText_inj hseparator (fun r => hg.records) (fun r => hh.records) htext
  obtain ⟨root⟩ := g
  obtain ⟨root'⟩ := h
  obtain ⟨rfl, -⟩ := records_append_inj root (outside_nil 0) (outside_nil 0)
    (congrArg (· ++ []) hrecords)
  rfl

/-- **The chart of a graph** determines it, from both renderers: the separator of the trace parser
starts with a backslash, and that of the simulation engine is a colon. -/
theorem toMermaid_eq_iff (g h : CallGraph) :
    (g.Legible '\\' → h.Legible '\\' → (g.toMermaid = h.toMermaid ↔ g = h)) ∧
      (g.Legible ':' → h.Legible ':' →
        (g.simulationToMermaid = h.simulationToMermaid ↔ g = h)) := by
  constructor
  · intro hg hh
    have hseparator : ("\\n" : String).toList = '\\' :: ['n'] := rfl
    exact ⟨fun heq => appendMermaid_inj hseparator hg hh heq, fun heq => heq ▸ rfl⟩
  · intro hg hh
    have hseparator : (":" : String).toList = ':' :: [] := rfl
    exact ⟨fun heq => appendMermaid_inj hseparator hg hh heq, fun heq => heq ▸ rfl⟩

/-- A token that calls the host twice, and the chart with the second call below the first. -/
theorem toMermaid_eq_iff_transfer :
    (⟨⟨"CA", "transfer", [⟨"Host", "get", []⟩, ⟨"Host", "put", []⟩]⟩⟩ : CallGraph).toMermaid ≠
      (⟨⟨"CA", "transfer", [⟨"Host", "get", [⟨"Host", "put", []⟩]⟩]⟩⟩ : CallGraph).toMermaid := by
  rw [Ne, (toMermaid_eq_iff _ _).1]
  · simp
  · simp [CallGraph.Legible, CallNode.nodes]
  · simp [CallGraph.Legible, CallNode.nodes]

end Core.CallTrace
