import SkyMoonScope.Lib.CappedProduct
import SkyMoonScope.Lib.Text

/-!
# Variations of the arguments

The branch analysis runs a contract with variations of its arguments: for each of them a few
interesting values are tried, in all combinations, but no more of these than a cap allows. The
combinations are built argument by argument, and when the cap is reached, the arguments that are
left are not looked at.

## Main definitions

* `candidates`: the values that are tried for an argument
* `generateArgVariations`: the variations
* `WellFormed`: as many values as there are arguments, the arguments themselves first, and no
  variation twice

## Main results

* `nodup_candidates`: no value is tried twice
* `wellFormed_iff`: the variations are well formed just when the cap is not reached before the last
  argument
* `not_wellFormed_digits`: five numbers
-/

namespace Core.WasmBranchAnalysis

open CappedProduct

def maxPermutations : ℕ := 24

def i64Probes : List ℤ := [0, 1, -1, 2 ^ 63 - 1, -2 ^ 63]

def u64Probes : List ℤ := [0, 1, (2 ^ 64 - 1) / 2, 2 ^ 64 - 1]

/-- The probes that are not the value itself, as text. -/
def otherProbes (probes : List ℤ) (n : ℤ) : List String := (probes.filter (· ≠ n)).map toString

/-- The values that are tried for an argument. -/
def candidates (arg : String) : List String :=
  let t := Text.trim arg.toList
  if t = "true".toList ∨ t = "false".toList then
    [arg, if t = "true".toList then "false" else "true"]
  else
    match Text.parseSigned (2 ^ 63) t with
    | some n => arg :: otherProbes i64Probes n
    | none =>
      match Text.parseUnsigned (2 ^ 64) t with
      | some n => arg :: otherProbes u64Probes n
      | none => [arg]

def generateArgVariations (args : List String) : List (List String) :=
  if args = [] then [[]] else combine maxPermutations (args.map candidates) [[]]

/-! ## The values of one argument -/

/-- No probe has blanks around it, and each is read as what it is. -/
theorem parseSigned_probe : ∀ p ∈ i64Probes,
    Text.parseSigned (2 ^ 63) (Text.trim (toString p).toList) = some p := by decide +kernel

theorem parseUnsigned_probe : ∀ p ∈ u64Probes,
    Text.parseUnsigned (2 ^ 64) (Text.trim (toString p).toList) = some p.toNat ∧ 0 ≤ p := by
  decide +kernel

theorem nodup_otherProbes {probes : List ℤ} (h : (probes.map toString).Nodup) (n : ℤ) :
    (otherProbes probes n).Nodup :=
  h.sublist (List.filter_sublist.map _)

/-- An argument is not among the probes that are not its value. -/
theorem notMem_otherProbes {probes : List ℤ} {arg : String} {n : ℤ}
    (h : ∀ p ∈ probes, arg = toString p → p = n) : arg ∉ otherProbes probes n := by
  intro harg
  obtain ⟨p, hp, hparg⟩ := List.mem_map.mp harg
  obtain ⟨hmem, hne⟩ := List.mem_filter.mp hp
  exact of_decide_eq_true hne (h p hmem hparg.symm)

/-- **No value is tried twice.** -/
theorem nodup_candidates (arg : String) : (candidates arg).Nodup := by
  unfold candidates
  dsimp only
  split
  next hbool =>
    refine List.nodup_cons.mpr ⟨?_, List.nodup_singleton _⟩
    rw [List.mem_singleton]
    -- the opposite value without its blanks is another one
    split
    next htrue =>
      rintro rfl
      exact absurd htrue (by decide)
    next hfalse =>
      rintro rfl
      exact hfalse (by decide)
  next =>
    split
    next n hn =>
      refine List.nodup_cons.mpr ⟨notMem_otherProbes ?_, nodup_otherProbes (by decide +kernel) n⟩
      rintro p hp rfl
      exact Option.some.inj ((parseSigned_probe p hp).symm.trans hn)
    next =>
      split
      next n hn =>
        refine List.nodup_cons.mpr ⟨notMem_otherProbes ?_, nodup_otherProbes (by decide +kernel) n⟩
        rintro p hp rfl
        obtain ⟨hparse, hnonneg⟩ := parseUnsigned_probe p hp
        have hvalue := Option.some.inj (hparse.symm.trans hn)
        omega
      next => exact List.nodup_singleton _

/-- The argument itself is tried first. -/
theorem head?_candidates (arg : String) : (candidates arg).head? = some arg := by
  unfold candidates
  dsimp only
  split
  · rfl
  · split
    · rfl
    · split <;> rfl

theorem candidates_ne_nil (arg : String) : candidates arg ≠ [] := by
  intro hnil
  have hhead := head?_candidates arg
  rw [hnil] at hhead
  cases hhead

/-! ## Combinations -/

/-- As many values as there are arguments, the arguments themselves first, no variation twice, and
no more of them than the cap allows. -/
structure WellFormed (args : List String) (variations : List (List String)) : Prop where
  length_eq : ∀ v ∈ variations, v.length = args.length
  head?_eq : variations.head? = some args
  nodup : variations.Nodup
  length_le : variations.length ≤ maxPermutations

theorem generateArgVariations_eq (args : List String) :
    generateArgVariations args = combine maxPermutations (args.map candidates) [[]] := by
  unfold generateArgVariations
  split
  next hnil => rw [hnil]; rfl
  next => rfl

theorem forall_candidates_ne_nil (args : List String) :
    ∀ values ∈ args.map candidates, values ≠ [] :=
  List.forall_mem_map.mpr fun arg _ => candidates_ne_nil arg

/-- The first of all choices, up to the cap, are well formed. -/
theorem wellFormed_take_choices (args : List String) :
    WellFormed args ((choices (args.map candidates)).take maxPermutations) where
  length_eq v hv := by
    rw [length_of_mem_choices (List.mem_of_mem_take hv), List.length_map]
  head?_eq := by
    have hheads : (args.map candidates).map List.head? = args.map some := by
      rw [List.map_map]
      exact List.map_congr_left fun arg _ => head?_candidates arg
    rw [List.head?_take, if_neg (by decide), head?_choices hheads]
  nodup := (nodup_choices (List.forall_mem_map.mpr fun arg _ => nodup_candidates arg)).sublist
    (List.take_sublist _ _)
  length_le := List.length_take_le _ _

/-- **The variations are well formed** just when there are less combinations of the arguments before
the last one than the cap allows. -/
theorem wellFormed_iff (args : List String) : WellFormed args (generateArgVariations args) ↔
    before (args.map candidates) < maxPermutations := by
  have hcap : 0 < maxPermutations := by decide
  have hone : ([[]] : List (List String)).length * before (args.map candidates) =
      before (args.map candidates) := Nat.one_mul _
  rw [generateArgVariations_eq]
  constructor
  · -- where the cap is reached before the last argument, there are variations, and they are short
    intro hwell
    by_contra hreached
    have hne := combine_ne_nil hcap (forall_candidates_ne_nil args) (List.cons_ne_nil [] [])
    obtain ⟨v, hv⟩ := List.exists_mem_of_ne_nil _ hne
    have hshort : v.length < 0 + (args.map candidates).length :=
      length_of_mem_combine hcap (by decide) (fun w hw => by rw [List.mem_singleton.mp hw]; rfl)
        (by rw [hone]; exact not_lt.mp hreached) hv
    rw [Nat.zero_add, List.length_map, hwell.length_eq v hv] at hshort
    exact lt_irrefl _ hshort
  · intro hlt
    have hfirst : combine maxPermutations (args.map candidates) [[]] = _ :=
      combine_eq hcap (forall_candidates_ne_nil args) (by decide) (.inl (by rwa [hone]))
    have hall : ([[]] : List (List String)).flatMap (fun existing =>
        (choices (args.map candidates)).map (existing ++ ·)) = choices (args.map candidates) := by
      simp
    rw [hfirst, hall]
    exact wellFormed_take_choices args

/-- **Five numbers** have combinations of two of them only. -/
theorem not_wellFormed_digits : ¬∀ args, WellFormed args (generateArgVariations args) := by
  intro hall
  exact absurd ((wellFormed_iff _).mp (hall ["0", "1", "2", "3", "4"])) (by decide +kernel)

end Core.WasmBranchAnalysis
