import SkyMoonScope.Lib.Machine
import Mathlib.Algebra.Ring.Parity
import Mathlib.Logic.Function.Basic

/-!
# System alarms

The monitor samples the processor and the memory. A resource that crosses the threshold causes an
alert, unless the last one for it is less than the deduplication window ago: then the edge is
suppressed, and nothing emits it later.

## Main definitions

* `BreachDetector`, `AlertDeduper`: the edges of a resource, and the suppression of alerts
* `Monitor`: the state of the loop, with the alerts it has emitted
* `Tracked`: besides, when each resource last changed, and its edges suppressed since its last alert
* `Tracked.Step`: a sample of both resources

## Main results

* `observe_cases`: what the sample of a resource may do
* `ResourceInv.observe`: the suppressed edges lie in the window after the last alert, and lead from
  the state it reported to the present one
* `reported_eq_iff`: the last alert reports the present state exactly when an even number of edges
  was suppressed since, and after a window without change the next edge is emitted
-/

namespace Core.SysAlarms

open Machine Function

/-! ## Edges and suppression -/

inductive BreachState
  | below
  | above
deriving DecidableEq

inductive Transition
  | triggered
  | resolved
  | noChange
deriving DecidableEq

structure BreachDetector where
  state : BreachState

variable {V : Type}

namespace BreachDetector

def new : BreachDetector := ⟨.below⟩

def currentlyAbove (d : BreachDetector) : Bool := d.state = .above

-- the comparison is all that is needed of a reading
variable [LE V] [DecidableLE V]

def observe (d : BreachDetector) (value threshold : V) : Transition × BreachDetector :=
  let newState : BreachState := if threshold ≤ value then .above else .below
  match d.state, newState with
  | .below, .above => (.triggered, ⟨.above⟩)
  | .above, .below => (.resolved, ⟨.below⟩)
  | _, _ => (.noChange, d)

end BreachDetector

inductive Resource
  | cpu
  | memory
deriving DecidableEq

structure SysAlarmEvaluator where
  cpu : BreachDetector
  memory : BreachDetector

namespace SysAlarmEvaluator

def new : SysAlarmEvaluator := ⟨.new, .new⟩

def detector (e : SysAlarmEvaluator) : Resource → BreachDetector
  | .cpu => e.cpu
  | .memory => e.memory

variable [LE V] [DecidableLE V]

def observeCpu (e : SysAlarmEvaluator) (cpuPercent threshold : V) :
    Transition × SysAlarmEvaluator :=
  let (transition, cpu) := e.cpu.observe cpuPercent threshold
  (transition, { e with cpu })

def observeMemory (e : SysAlarmEvaluator) (memPercent threshold : V) :
    Transition × SysAlarmEvaluator :=
  let (transition, memory) := e.memory.observe memPercent threshold
  (transition, { e with memory })

def observe (e : SysAlarmEvaluator) : Resource → V → V → Transition × SysAlarmEvaluator
  | .cpu => e.observeCpu
  | .memory => e.observeMemory

end SysAlarmEvaluator

/-- When an alert was last emitted for a resource. -/
structure AlertDeduper where
  lastEmitted : Resource → Option ℕ

namespace AlertDeduper

def new : AlertDeduper := ⟨fun _ => none⟩

/-- Record an alert. -/
def insert (d : AlertDeduper) (r : Resource) (now : ℕ) : AlertDeduper :=
  ⟨update d.lastEmitted r (some now)⟩

theorem lastEmitted_insert_self (d : AlertDeduper) (r : Resource) (now : ℕ) :
    (d.insert r now).lastEmitted r = some now := update_self ..

theorem lastEmitted_insert_of_ne (d : AlertDeduper) {r r' : Resource} (h : r' ≠ r) (now : ℕ) :
    (d.insert r now).lastEmitted r' = d.lastEmitted r' := update_of_ne h ..

/-- Whether an alert should be emitted, which is then recorded. A window of zero admits all. -/
def shouldEmit (d : AlertDeduper) (r : Resource) (now window : ℕ) : Bool × AlertDeduper :=
  if window = 0 then (true, d.insert r now)
  else
    match d.lastEmitted r with
    | some last => if now - last < window then (false, d) else (true, d.insert r now)
    | none => (true, d.insert r now)

end AlertDeduper

/-! ## The monitor -/

structure SysAlarmConfig (V : Type) where
  thresholdPercent : V
  dedupWindow : ℕ

structure SysAlarmEvent (V : Type) where
  event : String
  resource : Resource
  valuePercent : V
  thresholdPercent : V

/-- The state of the loop, with the alerts emitted so far, the last one first. -/
structure Monitor (V : Type) where
  evaluator : SysAlarmEvaluator
  deduper : AlertDeduper
  alerts : List (SysAlarmEvent V)

/-- One sample of both resources, and when each of them is evaluated. -/
structure Sample (V : Type) where
  cpuPercent : V
  cpuTime : ℕ
  memPercent : V
  memTime : ℕ

namespace Monitor

def new : Monitor V := ⟨.new, .new, []⟩

/-- The breached or recovered state of a resource. -/
def state (m : Monitor V) (r : Resource) : BreachState := (m.evaluator.detector r).state

/-- The state that the last alert for a resource reported; without any, it is not breached. -/
def reported (m : Monitor V) (r : Resource) : BreachState :=
  match m.alerts.find? fun a => a.resource = r with
  | some a => if a.event = "threshold_breach" then .above else .below
  | none => .below

def fireAlert (config : SysAlarmConfig V) (m : Monitor V) (r : Resource) (valuePercent : V)
    (currentlyAbove : Bool) : Monitor V :=
  let event := if currentlyAbove then "threshold_breach" else "threshold_recovered"
  { m with alerts := ⟨event, r, valuePercent, config.thresholdPercent⟩ :: m.alerts }

variable [LE V] [DecidableLE V]

/-- Evaluate one resource of a sample. -/
def observe (config : SysAlarmConfig V) (m : Monitor V) (r : Resource) (value : V) (now : ℕ) :
    Monitor V :=
  let (transition, evaluator) := m.evaluator.observe r value config.thresholdPercent
  let m := { m with evaluator }
  if transition = .noChange then m
  else
    let (emit, deduper) := m.deduper.shouldEmit r now config.dedupWindow
    let m := { m with deduper }
    if emit then m.fireAlert config r value (evaluator.detector r).currentlyAbove else m

end Monitor

/-! ## Runs -/

/-- The monitor with the time, when each resource last changed its state, and how many of its
changes were suppressed since its last alert. -/
structure Tracked (V : Type) where
  monitor : Monitor V
  time : ℕ
  changedAt : Resource → Option ℕ
  suppressed : Resource → ℕ

namespace Tracked

def start : Tracked V := ⟨.new, 0, fun _ => none, fun _ => 0⟩

variable [LE V] [DecidableLE V]

def observe (config : SysAlarmConfig V) (t : Tracked V) (r : Resource) (value : V) (now : ℕ) :
    Tracked V :=
  let m := t.monitor.observe config r value now
  if m.state r = t.monitor.state r then { t with monitor := m, time := now }
  else
    { monitor := m
      time := now
      changedAt := update t.changedAt r (some now)
      suppressed := update t.suppressed r
        (if m.alerts.length = t.monitor.alerts.length then t.suppressed r + 1 else 0) }

/-- A sample: first the processor, and then the memory. -/
def next (config : SysAlarmConfig V) (t : Tracked V) (s : Sample V) : Tracked V :=
  (t.observe config .cpu s.cpuPercent s.cpuTime).observe config .memory s.memPercent s.memTime

/-- A sample at a time that is not before the last one. -/
def Step (config : SysAlarmConfig V) (t : Tracked V) (s : Sample V) (t' : Tracked V) : Prop :=
  t.time ≤ s.cpuTime ∧ s.cpuTime ≤ s.memTime ∧ t.next config s = t'

end Tracked

/-! ## What a sample does -/

/-- The other state. -/
def BreachState.flip : BreachState → BreachState
  | .below => .above
  | .above => .below

theorem BreachState.flip_involutive : Involutive BreachState.flip := by
  rintro (_ | _) <;> rfl

theorem BreachState.flip_ne (b : BreachState) : b.flip ≠ b := by
  cases b <;> simp [flip]

variable [LE V] [DecidableLE V] in
theorem BreachDetector.observe_cases (d : BreachDetector) (value threshold : V) :
    ((d.observe value threshold).1 = .noChange ∧ (d.observe value threshold).2 = d) ∨
    ((d.observe value threshold).1 ≠ .noChange ∧
      (d.observe value threshold).2.state = d.state.flip) := by
  obtain ⟨state⟩ := d
  unfold observe
  split_ifs <;> cases state <;> simp [BreachState.flip]

variable [LE V] [DecidableLE V] in
theorem SysAlarmEvaluator.observe_cases (e : SysAlarmEvaluator) (r : Resource)
    (value threshold : V) :
    ((e.observe r value threshold).1 = .noChange ∧ (e.observe r value threshold).2 = e) ∨
    ((e.observe r value threshold).1 ≠ .noChange ∧
      ∀ r', ((e.observe r value threshold).2.detector r').state =
        update (fun r' => (e.detector r').state) r (e.detector r).state.flip r') := by
  cases r with
  | cpu =>
    rcases e.cpu.observe_cases value threshold with ⟨h, hd⟩ | ⟨h, hd⟩
    · exact .inl ⟨h, by simp only [observe, observeCpu, hd]⟩
    · refine .inr ⟨h, ?_⟩
      rintro (_ | _)
      · simpa [observe, observeCpu, detector] using hd
      · simp [observe, observeCpu, detector]
  | memory =>
    rcases e.memory.observe_cases value threshold with ⟨h, hd⟩ | ⟨h, hd⟩
    · exact .inl ⟨h, by simp only [observe, observeMemory, hd]⟩
    · refine .inr ⟨h, ?_⟩
      rintro (_ | _)
      · simp [observe, observeMemory, detector]
      · simpa [observe, observeMemory, detector] using hd

theorem AlertDeduper.shouldEmit_cases (d : AlertDeduper) (r : Resource) (now window : ℕ) :
    d.shouldEmit r now window = (true, d.insert r now) ∨
    d.shouldEmit r now window = (false, d) ∧
      ∃ last, d.lastEmitted r = some last ∧ now < last + window := by
  unfold shouldEmit
  split_ifs with hzero
  · exact .inl rfl
  · split
    case h_1 last hlast =>
      split_ifs with hwindow
      · exact .inr ⟨rfl, last, hlast, by omega⟩
      · exact .inl rfl
    case h_2 => exact .inl rfl

namespace Monitor

theorem reported_congr {m m' : Monitor V} (h : m'.alerts = m.alerts) (r : Resource) :
    m'.reported r = m.reported r := by
  rw [reported, reported, h]

/-- An alert is the last one for its resource. -/
theorem reported_cons {m m' : Monitor V} {a : SysAlarmEvent V} (h : m'.alerts = a :: m.alerts)
    (r : Resource) :
    m'.reported r =
      if a.resource = r then if a.event = "threshold_breach" then .above else .below
      else m.reported r := by
  rw [reported, h]
  by_cases hr : a.resource = r
  · rw [List.find?_cons_of_pos (by simpa using hr), if_pos hr]
  · rw [List.find?_cons_of_neg (by simpa using hr), if_neg hr, reported]

variable [LE V] [DecidableLE V] (config : SysAlarmConfig V) (m : Monitor V) (r : Resource)
  (value : V) (now : ℕ)

/-- **What the sample of a resource does**: nothing, an edge that is suppressed within the window
after the last alert, or an edge with its alert. Other resources are left alone. -/
theorem observe_cases :
    ((m.observe config r value now).state = m.state ∧
      (m.observe config r value now).deduper = m.deduper ∧
      (m.observe config r value now).alerts = m.alerts) ∨
    (m.observe config r value now).state = update m.state r (m.state r).flip ∧
      ((m.observe config r value now).deduper = m.deduper ∧
          (m.observe config r value now).alerts = m.alerts ∧
          (∃ last, m.deduper.lastEmitted r = some last ∧ now < last + config.dedupWindow) ∨
        (m.observe config r value now).deduper = m.deduper.insert r now ∧
          ∃ a, (m.observe config r value now).alerts = a :: m.alerts ∧ a.resource = r ∧
            (if a.event = "threshold_breach" then BreachState.above else .below) =
              (m.state r).flip) := by
  have hevaluator := m.evaluator.observe_cases r value config.thresholdPercent
  unfold observe
  generalize m.evaluator.observe r value config.thresholdPercent = p at hevaluator
  obtain ⟨transition, evaluator⟩ := p
  rcases hevaluator with ⟨htransition, hstate⟩ | ⟨htransition, hstate⟩
  · obtain rfl : evaluator = m.evaluator := hstate
    obtain rfl : transition = .noChange := htransition
    exact .inl ⟨rfl, rfl, rfl⟩
  · right
    have hflip : (evaluator.detector r).state = (m.state r).flip := by
      rw [hstate r, update_self]
      rfl
    simp only [if_neg htransition]
    rcases m.deduper.shouldEmit_cases r now config.dedupWindow with hemit | ⟨hemit, hlast⟩
    · simp only [hemit, if_true]
      refine ⟨funext hstate, .inr ⟨rfl, _, rfl, rfl, ?_⟩⟩
      rw [← hflip, BreachDetector.currentlyAbove]
      cases (evaluator.detector r).state <;> rfl
    · simp only [hemit, Bool.false_eq_true, if_false]
      refine ⟨funext hstate, .inl ?_⟩
      simpa using hlast

end Monitor

/-! ## Invariants -/

namespace Tracked

/-- What holds of a resource: its suppressed changes lead from the state that was reported to the
present one, and the last of them is within the window after the last alert. -/
structure ResourceInv (config : SysAlarmConfig V) (t : Tracked V) (r : Resource) : Prop where
  state_eq : t.monitor.state r = BreachState.flip^[t.suppressed r] (t.monitor.reported r)
  window : t.suppressed r ≠ 0 → ∃ last changed, t.monitor.deduper.lastEmitted r = some last ∧
    t.changedAt r = some changed ∧ changed < last + config.dedupWindow
  last_le : ∀ last, t.monitor.deduper.lastEmitted r = some last →
    ∃ changed, t.changedAt r = some changed ∧ last ≤ changed
  changed_le : ∀ changed, t.changedAt r = some changed → changed ≤ t.time

variable {config : SysAlarmConfig V} {t : Tracked V}

theorem resourceInv_start (r : Resource) : (start : Tracked V).ResourceInv config r where
  state_eq := by cases r <;> rfl
  window := fun h => absurd rfl h
  last_le := by simp [start, Monitor.new, AlertDeduper.new]
  changed_le := by simp [start]

/-- What is kept of a resource. -/
structure Frame (t t' : Tracked V) (r : Resource) : Prop where
  state_eq : t'.monitor.state r = t.monitor.state r
  reported_eq : t'.monitor.reported r = t.monitor.reported r
  last_eq : t'.monitor.deduper.lastEmitted r = t.monitor.deduper.lastEmitted r
  changed_eq : t'.changedAt r = t.changedAt r
  suppressed_eq : t'.suppressed r = t.suppressed r

theorem ResourceInv.frame {r : Resource} (h : t.ResourceInv config r) {t' : Tracked V}
    (hf : Frame t t' r) (htime : t.time ≤ t'.time) : t'.ResourceInv config r where
  state_eq := by rw [hf.state_eq, hf.suppressed_eq, hf.reported_eq, h.state_eq]
  window := by
    rw [hf.suppressed_eq, hf.last_eq, hf.changed_eq]
    exact h.window
  last_le := by
    rw [hf.last_eq, hf.changed_eq]
    exact h.last_le
  changed_le := by
    rw [hf.changed_eq]
    exact fun changed hc => (h.changed_le changed hc).trans htime

variable [LE V] [DecidableLE V] (r : Resource) (value : V)

theorem time_observe (now : ℕ) : (t.observe config r value now).time = now := by
  simp only [Tracked.observe]
  split <;> rfl

theorem monitor_observe (now : ℕ) :
    (t.observe config r value now).monitor = t.monitor.observe config r value now := by
  simp only [Tracked.observe]
  split <;> rfl

/-- The sample of a resource that causes no change. -/
theorem frame_observe_self {now : ℕ}
    (h : (t.observe config r value now).monitor.state r = t.monitor.state r) :
    Frame t (t.observe config r value now) r := by
  have hcases := t.monitor.observe_cases config r value now
  rw [monitor_observe] at h
  unfold Tracked.observe
  rcases hcases with ⟨-, hdeduper, halerts⟩ | ⟨hstate, -⟩
  · rw [if_pos h]
    exact ⟨h, Monitor.reported_congr halerts r, by rw [hdeduper], rfl, rfl⟩
  · rw [hstate, update_self] at h
    exact absurd h (BreachState.flip_ne _)

/-- The sample of a resource leaves the other one alone. -/
theorem frame_observe_of_ne {r' : Resource} (hr : r' ≠ r) (now : ℕ) :
    Frame t (t.observe config r value now) r' := by
  have hcases := t.monitor.observe_cases config r value now
  unfold Tracked.observe
  generalize t.monitor.observe config r value now = m at hcases
  rcases hcases with ⟨hstate, hdeduper, halerts⟩ | ⟨hstate, hcases⟩
  · rw [if_pos (congrFun hstate r)]
    exact ⟨congrFun hstate r', Monitor.reported_congr halerts r', by rw [hdeduper], rfl, rfl⟩
  · have hne : m.state r ≠ t.monitor.state r := by
      rw [hstate, update_self]
      exact BreachState.flip_ne _
    rw [if_neg hne]
    refine ⟨by rw [hstate, update_of_ne hr], ?_, ?_, update_of_ne hr .., update_of_ne hr ..⟩
    · rcases hcases with ⟨-, halerts, -⟩ | ⟨-, a, halerts, hresource, -⟩
      · exact Monitor.reported_congr halerts r'
      · rw [Monitor.reported_cons halerts, if_neg (by rw [hresource]; exact hr.symm)]
    · rcases hcases with ⟨hdeduper, -, -⟩ | ⟨hdeduper, -⟩
      · rw [hdeduper]
      · rw [hdeduper, AlertDeduper.lastEmitted_insert_of_ne _ hr]

/-- A change is suppressed, within the window after the last alert, or it is reported. -/
theorem observe_of_changed {now : ℕ}
    (h : (t.observe config r value now).monitor.state r ≠ t.monitor.state r) :
    let t' := t.observe config r value now
    t'.monitor.state r = (t.monitor.state r).flip ∧ t'.changedAt r = some now ∧
      (t'.suppressed r = t.suppressed r + 1 ∧ t'.monitor.reported r = t.monitor.reported r ∧
          (∃ last, t.monitor.deduper.lastEmitted r = some last ∧
            t'.monitor.deduper.lastEmitted r = some last ∧ now < last + config.dedupWindow) ∨
        t'.suppressed r = 0 ∧ t'.monitor.reported r = t'.monitor.state r ∧
          t'.monitor.deduper.lastEmitted r = some now) := by
  have hcases := t.monitor.observe_cases config r value now
  unfold Tracked.observe at h ⊢
  generalize t.monitor.observe config r value now = m at h hcases
  rcases hcases with ⟨hstate, -, -⟩ | ⟨hstate, hcases⟩
  · rw [if_pos (congrFun hstate r)] at h
    exact absurd (congrFun hstate r) h
  · have hflip : m.state r = (t.monitor.state r).flip := by rw [hstate, update_self]
    have hne : m.state r ≠ t.monitor.state r := by
      rw [hflip]
      exact BreachState.flip_ne _
    simp only [if_neg hne, update_self]
    refine ⟨hflip, trivial, ?_⟩
    rcases hcases with ⟨hdeduper, halerts, last, hlast, hwindow⟩ |
      ⟨hdeduper, a, halerts, hresource, hevent⟩
    · refine .inl ⟨by rw [if_pos (by rw [halerts])], Monitor.reported_congr halerts r, last, hlast,
        by rw [hdeduper, hlast], hwindow⟩
    · refine .inr ⟨by rw [if_neg (by simp [halerts])], ?_, ?_⟩
      · rw [hflip, Monitor.reported_cons halerts, if_pos hresource, hevent]
      · rw [hdeduper, AlertDeduper.lastEmitted_insert_self]

/-- The sample of a resource keeps what holds of each of them. -/
theorem ResourceInv.observe (h : ∀ r, t.ResourceInv config r) {now : ℕ} (hnow : t.time ≤ now)
    (r' : Resource) : (t.observe config r value now).ResourceInv config r' := by
  have htime : t.time ≤ (t.observe config r value now).time := by rwa [time_observe]
  by_cases hr : r' = r
  · subst hr
    by_cases hsame : (t.observe config r' value now).monitor.state r' = t.monitor.state r'
    · exact (h r').frame (frame_observe_self r' value hsame) htime
    · obtain ⟨hflip, hchanged, hcases⟩ := observe_of_changed r' value hsame
      have hchanged_le : ∀ changed, (t.observe config r' value now).changedAt r' = some changed →
          changed ≤ (t.observe config r' value now).time := by
        intro changed hc
        rw [hchanged] at hc
        obtain rfl := Option.some.inj hc
        rw [time_observe]
      rcases hcases with ⟨hsuppressed, hreported, last, hold, hlast, hwindow⟩ |
        ⟨hsuppressed, hreported, hlast⟩
      · refine ⟨?_, fun _ => ⟨last, now, hlast, hchanged, hwindow⟩, ?_, hchanged_le⟩
        · rw [hflip, hsuppressed, hreported, iterate_succ_apply', (h r').state_eq]
        · intro last' hlast'
          obtain rfl : last = last' := Option.some.inj (hlast.symm.trans hlast')
          obtain ⟨changed, hc, hle⟩ := (h r').last_le last hold
          have := (h r').changed_le changed hc
          exact ⟨now, hchanged, by omega⟩
      · refine ⟨?_, fun hne => absurd hsuppressed hne, ?_, hchanged_le⟩
        · rw [hsuppressed, hreported, iterate_zero, id]
        · intro last hlast'
          obtain rfl : now = last := Option.some.inj (hlast.symm.trans hlast')
          exact ⟨now, hchanged, le_rfl⟩
  · exact (h r').frame (frame_observe_of_ne r value hr now) htime

theorem ResourceInv.step {t' : Tracked V} {s : Sample V} (h : ∀ r, t.ResourceInv config r)
    (hstep : t.Step config s t') : ∀ r, t'.ResourceInv config r := by
  obtain ⟨hcpu, hmem, rfl⟩ := hstep
  have hfirst := ResourceInv.observe .cpu s.cpuPercent h hcpu
  exact ResourceInv.observe .memory s.memPercent hfirst (by rwa [time_observe])

/-- After a window without change, a change is reported. -/
theorem reported_observe (h : t.ResourceInv config r)
    (hunchanged : ∀ changed, t.changedAt r = some changed → changed + config.dedupWindow ≤ t.time)
    {now : ℕ} (hnow : t.time ≤ now)
    (hne : (t.observe config r value now).monitor.state r ≠ t.monitor.state r) :
    (t.observe config r value now).monitor.reported r =
      (t.observe config r value now).monitor.state r := by
  obtain ⟨-, -, ⟨-, -, last, hlast, -, hwindow⟩ | ⟨-, hreported, -⟩⟩ :=
    observe_of_changed r value hne
  · -- the last alert is not after the last change
    obtain ⟨changed, hchanged, hle⟩ := h.last_le last hlast
    have := hunchanged changed hchanged
    omega
  · exact hreported

/-- After a window without change, a sample with a change is reported. -/
theorem reported_step {t' : Tracked V} {s : Sample V} (h : t.ResourceInv config r)
    (hunchanged : ∀ changed, t.changedAt r = some changed → changed + config.dedupWindow ≤ t.time)
    (hstep : t.Step config s t') (hne : t'.monitor.state r ≠ t.monitor.state r) :
    t'.monitor.reported r = t'.monitor.state r := by
  obtain ⟨hcpu, hmem, rfl⟩ := hstep
  cases r with
  | cpu =>
    have hframe : Frame (t.observe config .cpu s.cpuPercent s.cpuTime) (t.next config s) .cpu :=
      frame_observe_of_ne .memory s.memPercent (by simp) s.memTime
    rw [hframe.state_eq] at hne ⊢
    rw [hframe.reported_eq]
    exact reported_observe .cpu s.cpuPercent h hunchanged hcpu hne
  | memory =>
    have hframe : Frame t (t.observe config .cpu s.cpuPercent s.cpuTime) .memory :=
      frame_observe_of_ne .cpu s.cpuPercent (by simp) s.cpuTime
    have htime : (t.observe config .cpu s.cpuPercent s.cpuTime).time = s.cpuTime :=
      time_observe .cpu s.cpuPercent s.cpuTime
    refine reported_observe .memory s.memPercent (h.frame hframe (by rwa [htime])) ?_
      (by rwa [htime]) (by rwa [hframe.state_eq])
    intro changed hchanged
    rw [hframe.changed_eq] at hchanged
    have := hunchanged changed hchanged
    rw [htime]
    omega

/-- **Convergence.** When the state of a resource has been unchanged for the window, the last alert
reports it exactly if an even number of edges was suppressed since, all of them within the window
after that alert; and in any case the next edge is reported. -/
theorem reported_eq_iff (config : SysAlarmConfig V) (ls : List (Sample V)) (t : Tracked V)
    (hrun : Run (Step config) start ls t) (r : Resource)
    (hunchanged : ∀ changed, t.changedAt r = some changed →
      changed + config.dedupWindow ≤ t.time) :
    (t.monitor.reported r = t.monitor.state r ↔ Even (t.suppressed r)) ∧
    (t.suppressed r ≠ 0 → ∃ last changed, t.monitor.deduper.lastEmitted r = some last ∧
      t.changedAt r = some changed ∧ last ≤ changed ∧ changed < last + config.dedupWindow) ∧
    ∀ s t', t.Step config s t' → t'.monitor.state r ≠ t.monitor.state r →
      t'.monitor.reported r = t'.monitor.state r := by
  have hinv : ∀ r, t.ResourceInv config r :=
    hrun.invariant (I := fun t => ∀ r, t.ResourceInv config r)
      (fun _ _ _ h hstep => ResourceInv.step h hstep) resourceInv_start
  refine ⟨?_, ?_, fun s t' hstep hne => reported_step r (hinv r) hunchanged hstep hne⟩
  · rw [(hinv r).state_eq]
    constructor
    · intro heq
      by_contra hodd
      rw [BreachState.flip_involutive.iterate_odd (Nat.not_even_iff_odd.mp hodd)] at heq
      exact BreachState.flip_ne _ heq.symm
    · intro heven
      rw [BreachState.flip_involutive.iterate_even heven, id]
  · intro hne
    obtain ⟨last, changed, hlast, hchanged, hwindow⟩ := (hinv r).window hne
    obtain ⟨changed', hchanged', hle⟩ := (hinv r).last_le last hlast
    obtain rfl : changed = changed' := Option.some.inj (hchanged.symm.trans hchanged')
    exact ⟨last, changed, hlast, hchanged, hle, hwindow⟩

/-- A threshold of 85 and a window of 60. -/
def defaultConfig : SysAlarmConfig ℕ := ⟨85, 60⟩

/-- The processor is breached at 10 and recovers at 20, and still has at 80. -/
def flap : List (Sample ℕ) :=
  [⟨90, 10, 0, 10⟩, ⟨50, 20, 0, 20⟩, ⟨50, 80, 0, 80⟩]

theorem run_flap : Run (Step defaultConfig) start flap (flap.foldl (next defaultConfig) start) :=
  .cons ⟨by decide, by decide, rfl⟩ (.cons ⟨by decide, by decide, rfl⟩
    (.single ⟨by decide, by decide, rfl⟩))

theorem reported_eq_iff_flap :
    let t : Tracked ℕ := flap.foldl (next defaultConfig) start
    (t.monitor.reported .cpu = t.monitor.state .cpu ↔ Even (t.suppressed .cpu)) ∧
    (t.suppressed .cpu ≠ 0 → ∃ last changed, t.monitor.deduper.lastEmitted .cpu = some last ∧
      t.changedAt .cpu = some changed ∧ last ≤ changed ∧
        changed < last + defaultConfig.dedupWindow) ∧
    ∀ s t', t.Step defaultConfig s t' → t'.monitor.state .cpu ≠ t.monitor.state .cpu →
      t'.monitor.reported .cpu = t'.monitor.state .cpu := by
  refine reported_eq_iff defaultConfig flap _ run_flap .cpu ?_
  intro changed hchanged
  obtain rfl : 20 = changed := Option.some.inj hchanged
  decide

/-- **A recovery is lost**: it comes within the window after the breach, and when the window is
over, the last alert still reports the breach. -/
theorem not_converges :
    ¬ ∀ (config : SysAlarmConfig ℕ) (ls : List (Sample ℕ)) (t : Tracked ℕ),
      Run (Step config) start ls t → ∀ r,
      (∀ changed, t.changedAt r = some changed → changed + config.dedupWindow ≤ t.time) →
        t.monitor.reported r = t.monitor.state r := by
  intro h
  have hreported := h defaultConfig flap _ run_flap .cpu (by
    intro changed hchanged
    obtain rfl : 20 = changed := Option.some.inj hchanged
    decide)
  exact absurd hreported (by decide)

end Tracked

end Core.SysAlarms
