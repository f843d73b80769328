import SkyMoonScope.Lib.Machine
import SkyMoonScope.Soroban.Contract

/-!
# Calls made one after another

A contract is a family of entry points. What a call takes from its environment is given to it with
its arguments, and the host reverts a call that fails. The steps of a contract are its calls, each
labelled with its environment, its arguments and what it returned or failed with.

## Main definitions

* `Event`: a call with its environment and its result
* `Step entryPoint`: a call as a step of the storage
* `execute entryPoint s calls`: calls made one after another
* `CallsMeet entryPoint P s calls`: each of them meets a condition

## Main results

* `Step.cases`: a step is a call that returned, or one that failed and changed nothing
* `invariant_of_returns`: what calls that return preserve, a run preserves
* `history_of_returns`: the same for a relation between the storage and the calls so far
* `run_unique`: the calls and their results decide the storage
* `run_execute`, `run_execute_meeting`: calls made one after another are a run
-/

namespace Soroban

open Machine

variable {σ H C ε α : Type}

/-- A call with what its environment provided and what it returned or failed with. -/
structure Event (H C ε α : Type) where
  host : H
  call : C
  result : Except (Fault ε) α

/-- A call as a step of the storage; one that fails is reverted. -/
def Step (entryPoint : H → C → Contract σ ε α) (s : σ) (l : Event H C ε α) (t : σ) : Prop :=
  invoke (entryPoint l.host l.call) s = (l.result, t)

/-- The events of calls made one after another, and the storage after them. -/
def execute (entryPoint : H → C → Contract σ ε α) (s : σ) :
    List (H × C) → List (Event H C ε α) × σ
  | [] => ([], s)
  | (host, call) :: calls =>
    let (result, t) := invoke (entryPoint host call) s
    let (events, u) := execute entryPoint t calls
    (⟨host, call, result⟩ :: events, u)

/-- Calls made one after another, each of which meets a condition where it returns. -/
def CallsMeet (entryPoint : H → C → Contract σ ε α) (P : σ → H → C → Prop) (s : σ) :
    List (H × C) → Prop
  | [] => True
  | (host, call) :: calls =>
    (∀ v, (invoke (entryPoint host call) s).1 = .ok v → P s host call) ∧
      CallsMeet entryPoint P (invoke (entryPoint host call) s).2 calls

section

variable {entryPoint : H → C → Contract σ ε α} {s t : σ} {l : Event H C ε α}
  {ls : List (Event H C ε α)}

/-- A step is a call that returned, or one that failed and changed nothing. -/
theorem Step.cases (h : Step entryPoint s l t) :
    (∃ v, l.result = .ok v ∧ Returns (entryPoint l.host l.call) s v t) ∨
      (∃ fault, l.result = .error fault) ∧ t = s := by
  unfold Step at h
  cases hresult : l.result with
  | ok v =>
    rw [hresult] at h
    exact .inl ⟨v, rfl, invoke_eq_ok.mp h⟩
  | error fault =>
    rw [hresult] at h
    exact .inr ⟨⟨fault, rfl⟩, eq_of_invoke_error h⟩

/-- A step whose body returns is a call that returned just this. -/
theorem Step.of_returns {v : α} {u : σ} (h : Step entryPoint s l t)
    (hu : Returns (entryPoint l.host l.call) s v u) : l.result = .ok v ∧ t = u := by
  have heq := h.symm.trans (invoke_eq_ok.mpr hu)
  exact ⟨congrArg Prod.fst heq, congrArg Prod.snd heq⟩

/-- A run of the same calls with the same results ends in the same storage. -/
theorem run_unique {u : σ} (h : Run (Step entryPoint) s ls t)
    (h' : Run (Step entryPoint) s ls u) : t = u := by
  induction h with
  | nil =>
    cases h'
    rfl
  | cons hl _ ih =>
    obtain ⟨w, hw, hrest⟩ := h'.of_cons
    obtain rfl := congrArg Prod.snd (hl.symm.trans hw)
    exact ih hrest

/-- **Invariants of the storage.** What a call that returns preserves when it meets a condition, a
run preserves whose returning calls meet the condition. -/
theorem invariant_of_returns {P : σ → H → C → Prop} {I : σ → Prop}
    (hI : ∀ {host call u v w}, I u → Returns (entryPoint host call) u v w → P u host call → I w)
    (h : Run (fun u l w => Step entryPoint u l w ∧ ∀ v, l.result = .ok v → P u l.host l.call)
      s ls t) (hs : I s) : I t := by
  apply h.invariant (I := I) ?_ hs
  rintro u l w hu ⟨hstep, hcondition⟩
  rcases hstep.cases with ⟨v, hv, hreturns⟩ | ⟨-, rfl⟩
  · exact hI hu hreturns (hcondition v hv)
  · -- a call that fails changes nothing
    exact hu

/-- **Histories of the storage.** What relates the storage to the calls that led to it, when a call
that returns keeps the relation and a call that fails adds nothing to it. -/
theorem history_of_returns {P : σ → H → C → Prop} {J : List (Event H C ε α) → σ → Prop}
    (hJ : ∀ {ks host call u v w}, J ks u → Returns (entryPoint host call) u v w →
      P u host call → J (ks ++ [⟨host, call, .ok v⟩]) w)
    (hfail : ∀ {ks host call u fault}, J ks u → J (ks ++ [⟨host, call, .error fault⟩]) u)
    (h : Run (fun u l w => Step entryPoint u l w ∧ ∀ v, l.result = .ok v → P u l.host l.call)
      s ls t) (hs : J [] s) : J ls t := by
  apply h.history (H := J) ?_ hs
  rintro ks u ⟨host, call, result⟩ w hu ⟨hstep, hcondition⟩
  rcases hstep.cases with ⟨v, hv, hreturns⟩ | ⟨⟨fault, hfault⟩, rfl⟩
  · obtain rfl : result = .ok v := hv
    exact hJ hu hreturns (hcondition v rfl)
  · obtain rfl : result = .error fault := hfault
    exact hfail hu

/-- A run without a condition on its calls. -/
theorem run_unconditional (h : Run (Step entryPoint) s ls t) :
    Run (fun u l w => Step entryPoint u l w ∧ ∀ v, l.result = .ok v → True) s ls t :=
  h.mono fun _ _ _ hl => ⟨hl, fun _ _ => trivial⟩

theorem run_execute (entryPoint : H → C → Contract σ ε α) (s : σ) (calls : List (H × C)) :
    Run (Step entryPoint) s (execute entryPoint s calls).1 (execute entryPoint s calls).2 := by
  induction calls generalizing s with
  | nil => exact .nil s
  | cons c calls ih => exact .cons rfl (ih _)

/-- The events of two lists of calls, one after the other. -/
theorem execute_append (entryPoint : H → C → Contract σ ε α) (s : σ) (calls calls' : List (H × C)) :
    (execute entryPoint s (calls ++ calls')).1 = (execute entryPoint s calls).1 ++
      (execute entryPoint (execute entryPoint s calls).2 calls').1 := by
  induction calls generalizing s with
  | nil => rfl
  | cons c calls ih => exact congrArg (List.cons _) (ih _)

/-- The events have the calls that were made. -/
theorem map_call_execute (entryPoint : H → C → Contract σ ε α) (s : σ) (calls : List (H × C)) :
    (execute entryPoint s calls).1.map Event.call = calls.map Prod.snd := by
  induction calls generalizing s with
  | nil => rfl
  | cons c calls ih => exact congrArg (List.cons _) (ih _)

/-- Calls that meet a condition are a run of calls that do. -/
theorem run_execute_meeting {P : σ → H → C → Prop} {s : σ} {calls : List (H × C)}
    (h : CallsMeet entryPoint P s calls) :
    Run (fun u l w => Step entryPoint u l w ∧ ∀ v, l.result = .ok v → P u l.host l.call) s
      (execute entryPoint s calls).1 (execute entryPoint s calls).2 := by
  induction calls generalizing s with
  | nil => exact .nil s
  | cons c calls ih => exact .cons ⟨rfl, h.1⟩ (ih h.2)

end

end Soroban
