import SkyMoonScope.Lib.Accounts

/-!
# Tallies of credits

Voters spend credits on the two sides of a question, in any number of ballots. A side gets the sum,
over the voters, of a function of all the credits that each of them spent on it. A ballot moves this
sum by the difference that its credits make to its voter alone, and the sum does not depend on how a
voter's credits are divided among ballots.

## Main definitions

* `Ballot`: what a voter spends at once
* `spent ballots support voter`: what a voter has spent on a side
* `tally f ballots support`: the votes of a side

## Main results

* `tally_concat`: what a ballot adds to its side
* `tally_congr`: the tally depends on the credits of each voter alone
-/

namespace Tally

open Accounts

variable {V : Type*} {f : ℤ → ℤ}

/-- What a voter spends on a side at once. -/
structure Ballot (V : Type*) where
  voter : V
  support : Bool
  credits : ℤ
deriving DecidableEq

variable {ballots ballots' : List (Ballot V)} {ballot : Ballot V} {support : Bool}

section Spent

variable [DecidableEq V]

/-- What a voter has spent on a side. -/
def spent (ballots : List (Ballot V)) (support : Bool) (voter : V) : ℤ :=
  ((ballots.filter fun b => b.voter = voter ∧ b.support = support).map Ballot.credits).sum

@[simp] theorem spent_nil : spent ([] : List (Ballot V)) support = 0 := rfl

/-- A ballot is one more credit of its voter, on its side. -/
theorem spent_concat :
    spent (ballots ++ [ballot]) ballot.support =
      credit (spent ballots ballot.support) ballot.voter ballot.credits := by
  ext voter
  unfold spent
  rw [List.filter_append, List.map_append, List.sum_append]
  by_cases h : voter = ballot.voter
  · subst h
    simp
  · rw [credit_of_ne h]
    simp [Ne.symm h]

theorem spent_concat_of_ne (h : ballot.support ≠ support) :
    spent (ballots ++ [ballot]) support = spent ballots support := by
  ext voter
  unfold spent
  rw [List.filter_append, List.map_append, List.sum_append]
  simp [h]

theorem hasFiniteSupport_spent : (spent ballots support).HasFiniteSupport := by
  induction ballots using List.reverseRecOn with
  | nil => simp [Function.HasFiniteSupport]
  | append_singleton ballots ballot ih =>
    by_cases h : ballot.support = support
    · subst h
      rw [spent_concat]
      exact hasFiniteSupport_credit ih
    · rwa [spent_concat_of_ne h]

end Spent

section Sum

variable [DecidableEq V]

/-- The votes of a side: the sum over the voters of `f` of what each has spent on it. -/
noncomputable def tally (f : ℤ → ℤ) (ballots : List (Ballot V)) (support : Bool) : ℤ :=
  ∑ᶠ voter, f (spent ballots support voter)

theorem tally_nil (hf : f 0 = 0) : tally f ([] : List (Ballot V)) support = 0 := by
  simp [tally, hf]

/-- A ballot adds to its side what its credits add to the value of its voter's. -/
theorem tally_concat (hf : f 0 = 0) :
    tally f (ballots ++ [ballot]) ballot.support =
      tally f ballots ballot.support +
        (f (spent ballots ballot.support ballot.voter + ballot.credits) -
          f (spent ballots ballot.support ballot.voter)) := by
  have hfinite : (fun voter => f (spent ballots ballot.support voter)).HasFiniteSupport := by
    have hspent := @hasFiniteSupport_spent _ ballots ballot.support _
    refine hspent.subset fun voter hvoter => ?_
    rw [Function.mem_support] at hvoter ⊢
    rintro hzero
    exact hvoter ((congrArg f hzero).trans hf)
  have hcredit : (fun voter => f (spent (ballots ++ [ballot]) ballot.support voter)) =
      credit (fun voter => f (spent ballots ballot.support voter)) ballot.voter
        (f (spent ballots ballot.support ballot.voter + ballot.credits) -
          f (spent ballots ballot.support ballot.voter)) := by
    ext voter
    rw [spent_concat]
    by_cases h : voter = ballot.voter
    · subst h
      rw [credit_self, credit_self, add_sub_cancel]
    · rw [credit_of_ne h, credit_of_ne h]
  unfold tally
  rw [hcredit, finsum_credit hfinite]

theorem tally_concat_of_ne (h : ballot.support ≠ support) :
    tally f (ballots ++ [ballot]) support = tally f ballots support := by
  unfold tally
  rw [spent_concat_of_ne h]

/-- **The division of credits among ballots does not matter.** -/
theorem tally_congr (h : ∀ voter, spent ballots support voter = spent ballots' support voter) :
    tally f ballots support = tally f ballots' support :=
  finsum_congr fun voter => congrArg f (h voter)

end Sum

end Tally
