import Mathlib.Algebra.Order.BigOperators.GroupWithZero.List
import Mathlib.Algebra.Order.Ring.Nat
import Mathlib.Data.List.Nodup
import Mathlib.Tactic.Ring

/-!
# Products that are built up to a cap

The choices of one value from each of several lists are built list by list: every partial choice is
continued by every value, until there are as many as a cap allows. When the cap is reached, the
lists that are left are not looked at, and the choices stay partial.

## Main definitions

* `choices`: all choices, the first values varying slowest
* `extend`: the partial choices, continued by the values of one list
* `combine`: list by list, until the cap is reached

## Main results

* `extend_eq`: the continued choices are the first ones of all of them
* `combine_eq`: where the cap is not reached before the last list, these are the first choices
* `length_of_mem_combine`: where it is, all of them are too short
-/

namespace CappedProduct

variable {α : Type*}

/-- All choices of one value from each list, the first values varying slowest. -/
def choices : List (List α) → List (List α)
  | [] => [[]]
  | values :: rest => values.flatMap fun a => (choices rest).map (a :: ·)

/-- One partial choice continued by one value after another, and whether the cap was reached. -/
def extendOne (cap : ℕ) (existing : List α) : List α → List (List α) → List (List α) × Bool
  | [], next => (next, false)
  | a :: values, next =>
    if cap ≤ (next ++ [existing ++ [a]]).length then (next ++ [existing ++ [a]], true)
    else extendOne cap existing values (next ++ [existing ++ [a]])

/-- The partial choices, each continued by every value, until the cap is reached. -/
def extend (cap : ℕ) (values : List α) : List (List α) → List (List α) → List (List α)
  | [], next => next
  | existing :: partials, next =>
    match extendOne cap existing values next with
    | (next, true) => next
    | (next, false) => extend cap values partials next

/-- List by list, until the cap is reached. -/
def combine (cap : ℕ) : List (List α) → List (List α) → List (List α)
  | [], partials => partials
  | values :: rest, partials =>
    let partials := extend cap values partials []
    if cap ≤ partials.length then partials.take cap else combine cap rest partials

variable {cap : ℕ} {values existing v : List α} {next partials : List (List α)}
  {rest : List (List α)}

/-! ## All choices -/

theorem length_of_mem_choices (hv : v ∈ choices rest) : v.length = rest.length := by
  induction rest generalizing v with
  | nil =>
    rw [List.mem_singleton.mp hv]
    rfl
  | cons values rest ih =>
    obtain ⟨a, -, hv⟩ := List.mem_flatMap.mp hv
    obtain ⟨w, hw, rfl⟩ := List.mem_map.mp hv
    rw [List.length_cons, List.length_cons, ih hw]

theorem nodup_choices (h : ∀ values ∈ rest, values.Nodup) : (choices rest).Nodup := by
  induction rest with
  | nil => exact List.nodup_singleton _
  | cons values rest ih =>
    obtain ⟨hvalues, hrest⟩ := List.forall_mem_cons.mp h
    refine List.nodup_flatMap.mpr ⟨fun a _ => (ih hrest).map (List.cons_injective), ?_⟩
    -- choices with different first values are different
    refine hvalues.imp fun hab v hv hv' => hab ?_
    obtain ⟨w, -, rfl⟩ := List.mem_map.mp hv
    obtain ⟨w', -, heq⟩ := List.mem_map.mp hv'
    exact (List.cons.inj heq).1.symm

theorem head?_choices {heads : List α} (h : rest.map List.head? = heads.map some) :
    (choices rest).head? = some heads := by
  induction rest generalizing heads with
  | nil =>
    obtain rfl := List.map_eq_nil_iff.mp h.symm
    rfl
  | cons values rest ih =>
    cases heads with
    | nil => cases h
    | cons a heads =>
      obtain ⟨hvalues, hrest⟩ := List.cons.inj h
      cases values with
      | nil => cases hvalues
      | cons b values =>
        obtain rfl := Option.some.inj hvalues
        have hfirst := ih hrest
        unfold choices
        rw [List.flatMap_cons, List.head?_append, List.head?_map, hfirst]
        rfl

/-! ## One list -/

/-- The continued choices are the first ones of all of them. -/
theorem extendOne_eq (hnext : next.length < cap) :
    extendOne cap existing values next =
      ((next ++ values.map fun a => existing ++ [a]).take cap,
        decide (cap ≤ next.length + values.length)) := by
  induction values generalizing next with
  | nil =>
    rw [extendOne, List.map_nil, List.append_nil, List.take_of_length_le hnext.le]
    exact congrArg _ (decide_eq_false (not_le.mpr hnext)).symm
  | cons a values ih =>
    have hlength : (next ++ [existing ++ [a]]).length = next.length + 1 := by
      rw [List.length_append, List.length_singleton]
    have happend : next ++ (a :: values).map (fun a => existing ++ [a]) =
        (next ++ [existing ++ [a]]) ++ values.map fun a => existing ++ [a] := by
      rw [List.map_cons, List.append_assoc, List.singleton_append]
    rw [extendOne, happend, List.length_cons, hlength]
    split
    next hle =>
      -- the cap is reached with this value
      rw [List.take_append_of_le_length (by omega), List.take_of_length_le (by omega),
        decide_eq_true (by omega)]
    next hlt => rw [ih (by omega), hlength, Nat.add_assoc, Nat.add_comm 1]

theorem extend_append (hnext : next.length < cap) : extend cap values partials next =
    (next ++ partials.flatMap fun existing => values.map fun a => existing ++ [a]).take cap := by
  induction partials generalizing next with
  | nil =>
    rw [extend, List.flatMap_nil, List.append_nil, List.take_of_length_le hnext.le]
  | cons existing partials ih =>
    have hlength : (next ++ values.map fun a => existing ++ [a]).length =
        next.length + values.length := by rw [List.length_append, List.length_map]
    rw [extend, extendOne_eq hnext, List.flatMap_cons, ← List.append_assoc]
    by_cases hcap : cap ≤ next.length + values.length
    · rw [decide_eq_true hcap]
      exact (List.take_append_of_le_length (by omega)).symm
    · rw [decide_eq_false hcap, List.take_of_length_le (by omega)]
      exact ih (by omega)

/-- **The continued choices** are the first ones of all of them. -/
theorem extend_eq (hcap : 0 < cap) : extend cap values partials [] =
    (partials.flatMap fun existing => values.map fun a => existing ++ [a]).take cap :=
  extend_append hcap

theorem length_flatMap_map (values : List α) (partials : List (List α)) :
    (partials.flatMap fun existing => values.map fun a => existing ++ [a]).length =
      partials.length * values.length := by
  induction partials with
  | nil => rw [List.flatMap_nil, List.length_nil, Nat.zero_mul]
  | cons existing partials ih =>
    rw [List.flatMap_cons, List.length_append, List.length_map, ih, List.length_cons]
    ring

theorem length_extend (hcap : 0 < cap) : (extend cap values partials []).length =
    min cap (partials.length * values.length) := by
  rw [extend_eq hcap, List.length_take, length_flatMap_map]

/-! ## All lists -/

/-- How many choices there are before the last list. -/
def before (rest : List (List α)) : ℕ := (rest.dropLast.map List.length).prod

theorem before_pos (h : ∀ values ∈ rest, values ≠ []) : 0 < before rest := by
  refine List.prod_pos fun n hn => ?_
  obtain ⟨values, hvalues, rfl⟩ := List.mem_map.mp hn
  exact List.length_pos_of_ne_nil (h values ((List.dropLast_sublist rest).mem hvalues))

theorem before_cons_cons (values values' : List α) (rest : List (List α)) :
    before (values :: values' :: rest) = values.length * before (values' :: rest) := by
  rw [before, List.dropLast_cons_cons, List.map_cons, List.prod_cons, before]

/-- The choices from the lists that are left, each behind a partial one. -/
theorem flatMap_choices_cons (values : List α) (rest partials : List (List α)) :
    (partials.flatMap fun existing => values.map fun a => existing ++ [a]).flatMap
        (fun existing => (choices rest).map (existing ++ ·)) =
      partials.flatMap fun existing => (choices (values :: rest)).map (existing ++ ·) := by
  rw [List.flatMap_assoc]
  congr 1
  funext existing
  rw [choices, List.map_flatMap, List.flatMap_map]
  congr 1
  funext a
  rw [List.map_map]
  exact List.map_congr_left fun v _ => List.append_cons existing a v ▸ rfl

/-- **Where the cap is not reached before the last list**, the first choices are built. -/
theorem combine_eq (hcap : 0 < cap) (hne : ∀ values ∈ rest, values ≠ [])
    (hpartials : partials.length ≤ cap) (h : partials.length * before rest < cap ∨ rest = []) :
    combine cap rest partials =
      (partials.flatMap fun existing => (choices rest).map (existing ++ ·)).take cap := by
  induction rest generalizing partials with
  | nil =>
    have hall : (partials.flatMap fun existing => (choices []).map (existing ++ ·)) = partials := by
      simp [choices]
    rw [combine, hall, List.take_of_length_le hpartials]
  | cons values rest ih =>
    obtain ⟨hvalues, hrest⟩ := List.forall_mem_cons.mp hne
    have h := h.resolve_right (List.cons_ne_nil _ _)
    have hlength := @length_extend _ cap values partials hcap
    rw [combine]
    cases rest with
    | nil =>
      -- the last list: what is built is cut, and nothing is left
      have hlast : combine cap [] (extend cap values partials []) = extend cap values partials [] :=
        rfl
      rw [hlast, List.take_of_length_le (by omega), ite_self, extend_eq hcap,
        ← flatMap_choices_cons]
      simp [choices]
    | cons values' rest =>
      -- the next lists have at least one value each, so that the cap is not reached here
      rw [before_cons_cons] at h
      have hbefore := before_pos hrest
      have hlt : partials.length * values.length < cap := by
        refine lt_of_le_of_lt ?_ h
        rw [← Nat.mul_assoc]
        exact Nat.le_mul_of_pos_right _ hbefore
      have hall : extend cap values partials [] =
          partials.flatMap fun existing => values.map fun a => existing ++ [a] := by
        rw [extend_eq hcap, List.take_of_length_le (by rw [length_flatMap_map]; exact hlt.le)]
      have hleft : (extend cap values partials []).length * before (values' :: rest) < cap := by
        rwa [hlength, min_eq_right hlt.le, Nat.mul_assoc]
      rw [if_neg (by omega), ih hrest (by omega) (.inl hleft), hall, flatMap_choices_cons]

/-- **Where it is**, all of the choices are too short. -/
theorem length_of_mem_combine {k : ℕ} (hcap : 0 < cap) (hpartials : partials.length < cap)
    (hk : ∀ v ∈ partials, v.length = k) (h : cap ≤ partials.length * before rest)
    (hv : v ∈ combine cap rest partials) : v.length < k + rest.length := by
  induction rest generalizing partials k with
  | nil =>
    have hone : before ([] : List (List α)) = 1 := rfl
    rw [hone] at h
    omega
  | cons values rest ih =>
    have hlength := @length_extend _ cap values partials hcap
    have hextended : ∀ w ∈ extend cap values partials [], w.length = k + 1 := by
      intro w hw
      rw [extend_eq hcap] at hw
      obtain ⟨existing, hexisting, hw⟩ := List.mem_flatMap.mp (List.mem_of_mem_take hw)
      obtain ⟨a, -, rfl⟩ := List.mem_map.mp hw
      rw [List.length_append, hk existing hexisting, List.length_singleton]
    cases rest with
    | nil =>
      have hone : before [values] = 1 := rfl
      rw [hone] at h
      omega
    | cons values' rest =>
      rw [combine] at hv
      rw [before_cons_cons, ← Nat.mul_assoc] at h
      split at hv
      · -- the lists that are left are not looked at
        have hw := hextended v (List.mem_of_mem_take hv)
        rw [hw, List.length_cons, List.length_cons]
        omega
      next hlt =>
        have hfull : (extend cap values partials []).length = partials.length * values.length := by
          omega
        have hshort := ih (not_le.mp hlt) hextended (by rwa [hfull]) hv
        rw [List.length_cons]
        omega

/-- There always are choices, when every list has a value. -/
theorem combine_ne_nil (hcap : 0 < cap) (hne : ∀ values ∈ rest, values ≠ [])
    (hpartials : partials ≠ []) : combine cap rest partials ≠ [] := by
  induction rest generalizing partials with
  | nil => exact hpartials
  | cons values rest ih =>
    obtain ⟨hvalues, hrest⟩ := List.forall_mem_cons.mp hne
    have hextended : extend cap values partials [] ≠ [] := by
      refine List.ne_nil_of_length_pos ?_
      rw [length_extend hcap]
      exact lt_min hcap (Nat.mul_pos (List.length_pos_of_ne_nil hpartials)
        (List.length_pos_of_ne_nil hvalues))
    rw [combine]
    split
    · rw [ne_eq, List.take_eq_nil_iff, not_or]
      exact ⟨hcap.ne', hextended⟩
    · exact ih hrest hextended

end CappedProduct
