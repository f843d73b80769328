import Mathlib.Data.List.Nodup
import Mathlib.Data.Set.Basic
import Mathlib.Order.Basic

/-!
# Runs of a labelled transition system

A system is a step relation `step s l t` on states, where the label `l` says what the step did and
what an observer saw of it. A run is a list of consecutive steps. Conditions on the steps of a run
are expressed by restricting the step relation: a run all of whose steps meet a condition is a run
of the restricted relation.

## Main definitions

* `Run step s ls t`: the steps labelled `ls` lead from `s` to `t`
* `timed clock step`: the same system, whose state carries the time of its last step
* `recorded step`: the same system, whose state carries the labels of the steps so far
* `exec next s ls`: the execution of a list of labels by a partial step function
* `Consumes used s ks t`: the keys `ks` are pairwise different, fresh at `s`, and the keys newly
  used at `t`

## Main results

* `Run.invariant`: what every step preserves, every run preserves
* `Run.forall_iff`: two step conditions that agree on every step agree on every run
* `Run.and_iff_of_invariant`: the same, where they agree only on the steps from an invariant
* `Run.and_label_iff`: a condition on labels holds along a run when it holds of all its labels
* `Run.history`: a relation between a state and the labels that led to it, when every step keeps it
* `Run.consumes`: if every step consumes the keys its label shows, a run consumes them one by one
-/

namespace Machine

variable {σ ι κ : Type*}

/-- The steps labelled `ls`, one after another, lead from the first state to the last. -/
inductive Run (step : σ → ι → σ → Prop) : σ → List ι → σ → Prop
  | nil (s : σ) : Run step s [] s
  | cons {s t u : σ} {l : ι} {ls : List ι} :
      step s l t → Run step t ls u → Run step s (l :: ls) u

namespace Run

variable {step step' : σ → ι → σ → Prop} {s t u : σ} {l : ι} {ls ms : List ι}

theorem single (h : step s l t) : Run step s [l] t := cons h (nil t)

theorem append (h : Run step s ls t) (h' : Run step t ms u) : Run step s (ls ++ ms) u := by
  induction h with
  | nil => exact h'
  | cons hl _ ih => exact cons hl (ih h')

theorem of_cons (h : Run step s (l :: ls) u) : ∃ t, step s l t ∧ Run step t ls u := by
  cases h with
  | cons hl h => exact ⟨_, hl, h⟩

/-- A run of two lists of labels passes through a state between them. -/
theorem of_append (h : Run step s (ls ++ ms) u) : ∃ t, Run step s ls t ∧ Run step t ms u := by
  induction ls generalizing s with
  | nil => exact ⟨s, nil s, h⟩
  | cons l ls ih =>
    obtain ⟨t, hl, h⟩ := of_cons h
    obtain ⟨w, hw, h⟩ := ih h
    exact ⟨w, cons hl hw, h⟩

theorem mono (hss : ∀ s l t, step s l t → step' s l t) (h : Run step s ls t) :
    Run step' s ls t := by
  induction h with
  | nil s => exact nil s
  | cons hl _ ih => exact cons (hss _ _ _ hl) ih

/-- **Invariants.** What every step preserves, every run preserves. -/
theorem invariant {I : σ → Prop} (hI : ∀ s l t, I s → step s l t → I t)
    (h : Run step s ls t) (hs : I s) : I t := by
  induction h with
  | nil => exact hs
  | cons hl _ ih => exact ih (hI _ _ _ hs hl)

/-- Along a run an invariant may be used to show that its steps are steps of another system. -/
theorem mono_of_invariant {I : σ → Prop}
    (hI : ∀ s l t, I s → step s l t → I t ∧ step' s l t) (h : Run step s ls t) (hs : I s) :
    Run step' s ls t := by
  induction h with
  | nil s => exact nil s
  | cons hl _ ih =>
    obtain ⟨ht, hl'⟩ := hI _ _ _ hs hl
    exact cons hl' (ih ht)

/-- Two conditions that agree on every step hold along the same runs. -/
theorem forall_iff {P Q : σ → ι → σ → Prop} (h : ∀ s l t, step s l t → (P s l t ↔ Q s l t)) :
    Run (fun s l t => step s l t ∧ P s l t) s ls t ↔
      Run (fun s l t => step s l t ∧ Q s l t) s ls t :=
  ⟨mono fun s l t hs => ⟨hs.1, (h s l t hs.1).mp hs.2⟩,
    mono fun s l t hs => ⟨hs.1, (h s l t hs.1).mpr hs.2⟩⟩

/-- Two conditions hold along the same runs when they agree on every step from a state with an
invariant, and the steps that meet the first keep the invariant. -/
theorem and_iff_of_invariant {I : σ → Prop} {P Q : σ → ι → σ → Prop}
    (hI : ∀ s l t, I s → step s l t → P s l t → I t)
    (h : ∀ s l t, I s → step s l t → (P s l t ↔ Q s l t)) (hs : I s) :
    Run (fun s l t => step s l t ∧ P s l t) s ls t ↔
      Run (fun s l t => step s l t ∧ Q s l t) s ls t := by
  constructor
  · intro hrun
    exact hrun.mono_of_invariant
      (fun s l t hs hl => ⟨hI s l t hs hl.1 hl.2, hl.1, (h s l t hs hl.1).mp hl.2⟩) hs
  · intro hrun
    refine hrun.mono_of_invariant (fun s l t hs hl => ?_) hs
    have hP := (h s l t hs hl.1).mpr hl.2
    exact ⟨hI s l t hs hl.1 hP, hl.1, hP⟩

/-- A condition on labels alone holds along a run when it holds of all its labels. -/
theorem and_label_iff {P : ι → Prop} :
    Run (fun s l t => step s l t ∧ P l) s ls t ↔ Run step s ls t ∧ ∀ l ∈ ls, P l := by
  constructor
  · intro h
    induction h with
    | nil s => exact ⟨nil s, by simp⟩
    | cons hl _ ih => exact ⟨cons hl.1 ih.1, List.forall_mem_cons.mpr ⟨hl.2, ih.2⟩⟩
  · rintro ⟨h, hls⟩
    induction h with
    | nil s => exact nil s
    | cons hl _ ih =>
      obtain ⟨hP, hls⟩ := List.forall_mem_cons.mp hls
      exact cons ⟨hl, hP⟩ (ih hls)

end Run

/-! ## Time -/

section Timed

variable {τ : Type*} [LE τ]

/-- The steps of a system at times that do not decrease. The state carries the time of the last
step. -/
def timed (clock : ι → τ) (step : σ → ι → σ → Prop) (p : τ × σ) (l : ι) (q : τ × σ) : Prop :=
  p.1 ≤ clock l ∧ q.1 = clock l ∧ step p.2 l q.2

variable {clock : ι → τ} {step : σ → ι → σ → Prop} {s t : σ} {ls : List ι}

/-- A run is timed when the times of its labels do not decrease. -/
theorem Run.timed {start : τ} (h : Run step s ls t)
    (hls : (start :: ls.map clock).IsChain (· ≤ ·)) :
    Run (Machine.timed clock step) (start, s) ls ((ls.map clock).getLastD start, t) := by
  induction h generalizing start with
  | nil s => exact .nil _
  | cons hl _ ih =>
    rw [List.map_cons, List.isChain_cons_cons] at hls
    rw [List.map_cons, List.getLastD_cons]
    exact .cons ⟨hls.1, rfl, hl⟩ (ih hls.2)

end Timed

/-! ## The labels so far -/

section Recorded

/-- The steps of a system whose state keeps the labels of the steps so far. -/
def recorded (step : σ → ι → σ → Prop) (p : List ι × σ) (l : ι) (q : List ι × σ) : Prop :=
  q.1 = p.1 ++ [l] ∧ step p.2 l q.2

variable {step : σ → ι → σ → Prop} {s t : σ} {ls : List ι}

theorem Run.recorded (h : Run step s ls t) (ks : List ι) :
    Run (Machine.recorded step) (ks, s) ls (ks ++ ls, t) := by
  induction h generalizing ks with
  | nil s =>
    rw [List.append_nil]
    exact nil _
  | cons hl _ ih =>
    rw [List.append_cons]
    exact cons ⟨rfl, hl⟩ (ih _)

/-- **Histories.** What relates a state to the labels that led to it relates the last state of a run
to all its labels, when every step keeps the relation. -/
theorem Run.history {H : List ι → σ → Prop}
    (hstep : ∀ ls s l t, H ls s → step s l t → H (ls ++ [l]) t) (h : Run step s ls t)
    (hs : H [] s) : H ls t := by
  -- the relation is an invariant of the states that keep their labels
  apply (h.recorded []).invariant (I := fun p => H p.1 p.2) ?_ hs
  rintro ⟨ks, u⟩ l ⟨_, w⟩ hks ⟨rfl, hl⟩
  exact hstep ks u l w hks hl

end Recorded

/-! ## Executing a list of labels -/

/-- The state a list of labels leads to, when every step is enabled. -/
def exec (next : σ → ι → Option σ) (s : σ) : List ι → Option σ
  | [] => some s
  | l :: ls => (next s l).bind fun t => exec next t ls

theorem run_of_exec {next : σ → ι → Option σ} {s t : σ} {ls : List ι}
    (h : exec next s ls = some t) : Run (fun s l t => next s l = some t) s ls t := by
  induction ls generalizing s with
  | nil =>
    obtain rfl : s = t := by simpa [exec] using h
    exact .nil s
  | cons l ls ih =>
    obtain ⟨u, hu, hr⟩ : ∃ u, next s l = some u ∧ exec next u ls = some t := by
      simpa [exec, Option.bind_eq_some_iff] using h
    exact .cons hu (ih hr)

/-- A list of labels whose execution ends in a state that passes a test is a run to such a state. -/
theorem exists_run_of_exec {next : σ → ι → Option σ} {s : σ} {ls : List ι} {p : σ → Bool}
    (h : (exec next s ls).any p = true) :
    ∃ t, Run (fun s l t => next s l = some t) s ls t ∧ p t = true := by
  exact ⟨_, run_of_exec (Option.some_get (Option.isSome_of_any h)).symm,
    Option.get_of_any_eq_true p _ h⟩

/-! ## Keys that are used once -/

/-- The keys `ks` are pairwise different, unused at `s`, and exactly the keys newly used at `t`. -/
structure Consumes (used : σ → Set κ) (s : σ) (ks : List κ) (t : σ) : Prop where
  nodup : ks.Nodup
  fresh : ∀ k ∈ ks, k ∉ used s
  used_iff : ∀ k, k ∈ used t ↔ k ∈ used s ∨ k ∈ ks

namespace Consumes

variable {used : σ → Set κ} {s t u : σ} {ks ms : List κ}

/-- A step that leaves the used keys alone consumes nothing. -/
theorem of_eq (h : used t = used s) : Consumes used s [] t :=
  ⟨List.nodup_nil, by simp, by simp [h]⟩

theorem singleton {k : κ} (hk : k ∉ used s) (ht : ∀ m, m ∈ used t ↔ m ∈ used s ∨ m = k) :
    Consumes used s [k] t :=
  ⟨List.nodup_singleton k, by simpa using hk, by simpa using ht⟩

theorem append (h : Consumes used s ks t) (h' : Consumes used t ms u) :
    Consumes used s (ks ++ ms) u := by
  refine ⟨?_, ?_, ?_⟩
  · -- a key consumed first is used when the others are consumed fresh
    refine List.Nodup.append h.nodup h'.nodup fun k hk hm => ?_
    exact h'.fresh k hm ((h.used_iff k).mpr (.inr hk))
  · intro k hk hs
    rcases List.mem_append.mp hk with hk | hk
    · exact h.fresh k hk hs
    · exact h'.fresh k hk ((h.used_iff k).mpr (.inl hs))
  · intro k
    rw [h'.used_iff, h.used_iff, List.mem_append, or_assoc]

end Consumes

/-- **Keys are used at most once along a run**, when every step from a state with the invariant
`I` keeps it and consumes the keys its label shows. -/
theorem Run.consumes {step : σ → ι → σ → Prop} {used : σ → Set κ} {shown : ι → List κ}
    {I : σ → Prop}
    (hstep : ∀ s l t, I s → step s l t → I t ∧ Consumes used s (shown l) t)
    {s t : σ} {ls : List ι} (h : Run step s ls t) (hs : I s) :
    I t ∧ Consumes used s (ls.flatMap shown) t := by
  induction h with
  | nil s => exact ⟨hs, Consumes.of_eq rfl⟩
  | cons hl _ ih =>
    obtain ⟨hI, hc⟩ := hstep _ _ _ hs hl
    obtain ⟨hI', hc'⟩ := ih hI
    rw [List.flatMap_cons]
    exact ⟨hI', hc.append hc'⟩

end Machine

/-!
# Counters that are used up

Every key has a counter, which no step turns back. A step may use a ticket of a key: the ticket is
the value that the counter has before the step, and the step moves the counter beyond it. Then along
a run no ticket is used twice, and none that the counter has passed is used at all, whether it was
used before or the counter has skipped it.

## Main definitions

* `UsesUp step counter ticket`: the steps treat the counters in this way

## Main results

* `Run.le_of_ticket`: the tickets of a run are not below the counter at its start
* `Run.nodup_tickets`: they are pairwise different
-/

namespace Machine

variable {σ ι κ τ : Type*} [Preorder τ]

/-- No step turns a counter back, and one that uses a ticket finds it at the counter and moves the
counter beyond it. -/
structure UsesUp (step : σ → ι → σ → Prop) (counter : σ → κ → τ) (ticket : ι → Option (κ × τ)) :
    Prop where
  le : ∀ {s l t}, step s l t → ∀ k, counter s k ≤ counter t k
  eq_counter : ∀ {s l t k x}, step s l t → ticket l = some (k, x) → x = counter s k
  lt_counter : ∀ {s l t k x}, step s l t → ticket l = some (k, x) → x < counter t k

namespace Run

variable {step : σ → ι → σ → Prop} {counter : σ → κ → τ} {ticket : ι → Option (κ × τ)} {s t : σ}
  {ls : List ι} {k : κ} {x : τ}

/-- **No ticket that the counter has passed** is used afterwards. -/
theorem le_of_ticket (h : UsesUp step counter ticket) (hrun : Run step s ls t)
    (hx : (k, x) ∈ ls.filterMap ticket) : counter s k ≤ x := by
  induction hrun with
  | nil => cases hx
  | @cons s t u l ls hl _ ih =>
    rw [List.filterMap_cons] at hx
    have hrest : (k, x) ∈ ls.filterMap ticket → counter s k ≤ x :=
      fun hx => (h.le hl k).trans (ih hx)
    cases hticket : ticket l with
    | none =>
      rw [hticket] at hx
      exact hrest hx
    | some p =>
      rw [hticket] at hx
      rcases List.mem_cons.mp hx with rfl | hx
      · exact (h.eq_counter hl hticket).ge
      · exact hrest hx

/-- **No ticket is used twice.** -/
theorem nodup_tickets (h : UsesUp step counter ticket) (hrun : Run step s ls t) :
    (ls.filterMap ticket).Nodup := by
  induction hrun with
  | nil => exact List.nodup_nil
  | @cons s t u l ls hl hrun ih =>
    rw [List.filterMap_cons]
    cases hticket : ticket l with
    | none => exact ih
    | some p =>
      obtain ⟨k, x⟩ := p
      -- the counter is beyond the ticket after the step
      refine List.nodup_cons.mpr ⟨fun hmem => ?_, ih⟩
      exact ((h.lt_counter hl hticket).trans_le (hrun.le_of_ticket h hmem)).false

end Run

end Machine
