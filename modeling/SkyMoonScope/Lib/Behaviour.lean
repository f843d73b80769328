import Mathlib.Data.Nat.Notation

/-!
# Behaviours of deterministic machines

A machine takes one step at a time until it ends with an outcome, or goes wrong: no step is defined.
A run that does neither diverges.

## Main definitions

* `Step`: what one step leads to
* `run`: a number of steps
* `Reaches`, `GoesWrong`: the behaviours of a state

## Main results

* `Simulates.reaches_iff`: a machine that simulates another, with one step or more for each of
  its steps, has the same outcomes wherever the other does not go wrong
-/

namespace Behaviour

/-- What a step leads to. -/
inductive Step (σ ο : Type*)
  | running (s : σ)
  | done (o : ο)
  | wrong

variable {σ τ ο : Type*}

/-- What a number of steps leads to; a machine that has ended stays as it is. -/
def run (step : σ → Step σ ο) : ℕ → σ → Step σ ο
  | 0, s => .running s
  | k + 1, s =>
    match step s with
    | .running t => run step k t
    | r => r

def Reaches (step : σ → Step σ ο) (s : σ) (o : ο) : Prop := ∃ k, run step k s = .done o

def GoesWrong (step : σ → Step σ ο) (s : σ) : Prop := ∃ k, run step k s = .wrong

section Runs

variable {step : σ → Step σ ο} {s t : σ} {o : ο} {j k : ℕ}

theorem run_succ_of_running (h : step s = .running t) : run step (k + 1) s = run step k t := by
  simp only [run, h]

theorem run_succ_of_done (h : step s = .done o) : run step (k + 1) s = .done o := by
  simp only [run, h]

theorem run_succ_of_wrong (h : step s = .wrong) : run step (k + 1) s = .wrong := by
  simp only [run, h]

/-- Steps may be taken in two parts. -/
theorem run_add (h : run step j s = .running t) : run step (j + k) s = run step k t := by
  induction j generalizing s with
  | zero =>
    obtain rfl : s = t := by simpa [run] using h
    rw [Nat.zero_add]
  | succ j ih =>
    rw [Nat.add_right_comm]
    cases hs : step s with
    | running u =>
      rw [run_succ_of_running hs] at h ⊢
      exact ih h
    | done o => simp [run_succ_of_done hs] at h
    | wrong => simp [run_succ_of_wrong hs] at h

/-- What has ended after some steps has ended so after more. -/
theorem run_done_of_le (h : run step j s = .done o) (hjk : j ≤ k) : run step k s = .done o := by
  induction j generalizing s k with
  | zero => simp [run] at h
  | succ j ih =>
    obtain ⟨k, rfl⟩ : ∃ i, k = i + 1 := ⟨k - 1, by omega⟩
    cases hs : step s with
    | running u =>
      rw [run_succ_of_running hs] at h ⊢
      exact ih h (by omega)
    | done o' =>
      rw [run_succ_of_done hs] at h ⊢
      exact h
    | wrong => simp [run_succ_of_wrong hs] at h

/-- A run that ends later than at a state passes through it: the rest is shorter. -/
theorem run_done_of_run_running (h : run step k s = .done o) (ht : run step j s = .running t) :
    j < k ∧ run step (k - j) t = .done o := by
  rcases Nat.lt_or_ge j k with hjk | hkj
  · refine ⟨hjk, ?_⟩
    rw [← run_add ht, Nat.add_sub_cancel' (Nat.le_of_lt hjk)]
    exact h
  · rw [run_done_of_le h hkj] at ht
    nomatch ht

theorem GoesWrong.of_running (ht : step s = .running t) (h : GoesWrong step t) :
    GoesWrong step s := by
  obtain ⟨k, hk⟩ := h
  exact ⟨k + 1, by rw [run_succ_of_running ht, hk]⟩

end Runs

/-! ## Simulation -/

/-- Every step of the first machine is one step or more of the second, and an end is the same end,
between states that the relation connects. -/
structure Simulates (step : σ → Step σ ο) (step' : τ → Step τ ο) (R : σ → τ → Prop) : Prop where
  running : ∀ {a b a'}, R a b → step a = .running a' →
    ∃ k b', run step' (k + 1) b = .running b' ∧ R a' b'
  done : ∀ {a b o}, R a b → step a = .done o → step' b = .done o

namespace Simulates

variable {step : σ → Step σ ο} {step' : τ → Step τ ο} {R : σ → τ → Prop} {a : σ} {b : τ} {o : ο}

theorem reaches (h : Simulates step step' R) (hR : R a b) (ha : Reaches step a o) :
    Reaches step' b o := by
  obtain ⟨k, hk⟩ := ha
  induction k generalizing a b with
  | zero => simp [run] at hk
  | succ k ih =>
    cases hs : step a with
    | running a' =>
      rw [run_succ_of_running hs] at hk
      obtain ⟨j, b', hb', hR'⟩ := h.running hR hs
      obtain ⟨i, hi⟩ := ih hR' hk
      exact ⟨j + 1 + i, by rw [run_add hb', hi]⟩
    | done o' =>
      obtain rfl : o' = o := by simpa [run_succ_of_done hs] using hk
      exact ⟨1, run_succ_of_done (h.done hR hs)⟩
    | wrong => simp [run_succ_of_wrong hs] at hk

/-- What the second machine reaches the first one reaches, or it goes wrong: it cannot diverge,
since each of its steps shortens the run of the second. -/
theorem reaches_of_reaches (h : Simulates step step' R) (hR : R a b)
    (ha : ¬ GoesWrong step a) (hb : Reaches step' b o) : Reaches step a o := by
  obtain ⟨k, hk⟩ := hb
  induction k using Nat.strongRecOn generalizing a b with
  | ind k ih =>
    cases hs : step a with
    | running a' =>
      obtain ⟨j, b', hb', hR'⟩ := h.running hR hs
      obtain ⟨hjk, hrest⟩ := run_done_of_run_running hk hb'
      obtain ⟨i, hi⟩ := ih (k - (j + 1)) (by omega) hR' (fun hw => ha (hw.of_running hs)) hrest
      exact ⟨i + 1, by rw [run_succ_of_running hs, hi]⟩
    | done o' =>
      -- the second machine is done at once, and with this outcome
      have hend := run_done_of_le (k := k + 1) hk (by omega)
      rw [run_succ_of_done (h.done hR hs)] at hend
      obtain rfl : o' = o := by simpa using hend
      exact ⟨1, run_succ_of_done hs⟩
    | wrong => exact absurd ⟨1, run_succ_of_wrong hs⟩ ha

/-- **Same outcomes**, wherever the first machine does not go wrong. -/
theorem reaches_iff (h : Simulates step step' R) (hR : R a b) (ha : ¬ GoesWrong step a) :
    Reaches step a o ↔ Reaches step' b o :=
  ⟨h.reaches hR, h.reaches_of_reaches hR ha⟩

end Simulates

end Behaviour

/-!
# Programs that call back

A contract that calls another contract hands over control. What the other contract does then is a
program: it makes moves of its own in the world, looks at the world, and calls the first contract
again, which may hand over control once more, to any program. Every call is atomic, and a program
that panics leaves the world as it found it.

## Main definitions

* `Program`: what a contract does that was given control
* `Semantics`: the moves, and the calls of the first contract with the programs it hands control to
* `Program.run`: the world after a program, unless it panics

## Main results

* `Program.run_preserves`: what the moves preserve, and the calls with callbacks that preserve it,
  every program preserves
-/

namespace Reentry

variable {W M C R A : Type}

/-- A program in the world `W`, with moves `M`, and calls `C` that return `R` and hand over control
with arguments `A`. What it does next may depend on all it has seen. -/
inductive Program (W M C R A : Type)
  | finish (success : Bool)
  | observe (next : W → Program W M C R A)
  | move (m : M) (next : Bool → Program W M C R A)
  | call (c : C) (callback : A → Program W M C R A) (next : R → Program W M C R A)

/-- What moves and calls do. A move may be refused. A call is given what the programs do that it
hands control to, and always ends with a result. -/
structure Semantics (W M C R A : Type) where
  move : M → W → Option W
  call : C → (A → W → Option W) → W → R × W

/-- The world after a program, unless it panics. A refused move is seen by the program. -/
def Program.run (S : Semantics W M C R A) : Program W M C R A → W → Option W
  | finish success, w => if success then some w else none
  | observe next, w => (next w).run S w
  | move m next, w =>
    match S.move m w with
    | some w' => (next true).run S w'
    | none => (next false).run S w
  | call c callback next, w =>
    let (r, w') := S.call c (fun a u => (callback a).run S u) w
    (next r).run S w'

/-- What moves and calls preserve, **every program preserves**. Of a call it may be assumed that
the programs it hands control to preserve it. -/
theorem Program.run_preserves {S : Semantics W M C R A} {J : W → Prop}
    (hmove : ∀ m w w', J w → S.move m w = some w' → J w')
    (hcall : ∀ c f w, (∀ a u u', J u → f a u = some u' → J u') → J w → J (S.call c f w).2)
    {p : Program W M C R A} {w w' : W} (h : p.run S w = some w') (hw : J w) : J w' := by
  induction p generalizing w w' with
  | finish success =>
    unfold Program.run at h
    split at h
    · cases h
      exact hw
    · cases h
  | observe next ih => exact ih w h hw
  | move m next ih =>
    unfold Program.run at h
    split at h
    next u hu => exact ih true h (hmove m w u hw hu)
    next => exact ih false h hw
  | call c callback next ihcallback ihnext =>
    apply ihnext _ h
    exact hcall c _ w (fun a u u' hu hrun => ihcallback a hrun hu) hw

end Reentry
