import SkyMoonScope.OracleAggregator.Aggregator

/-!
# The order of the sources

A call goes through its list of sources one after the other. What it counts of the answers does not
depend on their order, and the prices are sorted before anything is made of them. So two lists of
the same sources with the same answers have the same price, or the same error, and leave the same
samples.

## Main definitions

* `answers`: the sources of a list, each with its answer

## Main results

* `counts_collect`: what a call counts of the answers
* `sortPrices_eq_of_perm`: the same prices are the same list once they are sorted
* `aggregatePrice_perm`: the same answers in another order make the same call
-/

namespace OracleAggregator

open Soroban

variable {Address : Type}

/-- The sources of a list, each with its answer. -/
def answers (env : Env Address) (sources : List Address) : List (Address × Option OracleRecord) :=
  sources.zipIdx.map fun source => (source.1, env.latestPrice source.2 source.1)

/-- A record that is not stale. -/
def OracleRecord.isFresh (record : OracleRecord) (now maxAgeSeconds : ℕ) : Bool :=
  now - record.timestamp ≤ maxAgeSeconds

section Order

variable {env env' : Env Address} {maxAgeSeconds : ℕ} {sources sources' : List Address}

/-- **What a call counts** of the answers. -/
theorem counts_collect (env : Env Address) (maxAgeSeconds : ℕ) (l : List (Address × ℕ))
    (feeds : Feeds) :
    (l.foldl (collect env maxAgeSeconds) feeds).freshCount = feeds.freshCount +
        (l.map fun source => env.latestPrice source.2 source.1).countP
          (Option.any (·.isFresh env.timestamp maxAgeSeconds)) ∧
      (l.foldl (collect env maxAgeSeconds) feeds).staleCount = feeds.staleCount +
        (l.map fun source => env.latestPrice source.2 source.1).countP
          (Option.any (!·.isFresh env.timestamp maxAgeSeconds)) := by
  induction l generalizing feeds with
  | nil => exact ⟨rfl, rfl⟩
  | cons source l ih =>
    obtain ⟨hfresh, hstale⟩ := ih (collect env maxAgeSeconds feeds source)
    rw [List.foldl_cons, hfresh, hstale, List.map_cons, List.countP_cons, List.countP_cons]
    unfold collect
    -- a source that does not answer is counted neither way
    cases env.latestPrice source.2 source.1 with
    | none => exact ⟨by simp, by simp⟩
    | some record =>
      by_cases hold : env.timestamp - record.timestamp > maxAgeSeconds
      · have hnot : record.isFresh env.timestamp maxAgeSeconds = false :=
          decide_eq_false (Nat.not_le.mpr hold)
        dsimp only
        rw [if_pos hold, Option.any_some, Option.any_some, hnot]
        exact ⟨rfl, Nat.add_right_comm _ 1 _⟩
      · have hnot : record.isFresh env.timestamp maxAgeSeconds = true :=
          decide_eq_true (Nat.le_of_not_lt hold)
        dsimp only
        rw [if_neg hold, Option.any_some, Option.any_some, hnot]
        exact ⟨Nat.add_right_comm _ 1 _, rfl⟩

/-- The answers decide which prices there are. -/
theorem givenPrices_eq : givenPrices env maxAgeSeconds sources =
    (answers env sources).filterMap fun answer => answer.2.bind fun record =>
      if env.timestamp - record.timestamp ≤ maxAgeSeconds ∧ 0 < record.price then some record.price
      else none := by
  rw [givenPrices, quotes, answers, List.map_filterMap, List.filterMap_map]
  -- source by source: a price is used if the answer is fresh and positive
  refine List.filterMap_congr fun source _ => ?_
  unfold freshPrice
  dsimp only [Function.comp]
  cases env.latestPrice source.2 source.1 with
  | none => rfl
  | some record =>
    dsimp only
    split
    · next h => rw [Option.bind_some, if_pos h]; rfl
    · next h => rw [Option.bind_some, if_neg h]; rfl

/-- **The same prices** are the same list once they are sorted. -/
theorem sortPrices_eq_of_perm {l l' : List ℤ} (h : l.Perm l') : sortPrices l = sortPrices l' :=
  List.Perm.eq_of_pairwise (fun _ _ _ _ => le_antisymm) (sortPrices_sorted l)
    (sortPrices_sorted l') ((sortPrices_perm l).trans (h.trans (sortPrices_perm l').symm))

variable (h : (answers env sources).Perm (answers env' sources'))
  (htimestamp : env.timestamp = env'.timestamp)

include h in
theorem length_eq_of_perm : sources.length = sources'.length := by
  -- the answers are as many as the sources
  have hlength := h.length_eq
  simpa only [answers, List.length_map, List.length_zipIdx] using hlength

include h htimestamp in
theorem givenPrices_perm (maxAgeSeconds : ℕ) :
    (givenPrices env maxAgeSeconds sources).Perm (givenPrices env' maxAgeSeconds sources') := by
  rw [givenPrices_eq, givenPrices_eq, htimestamp]
  exact h.filterMap _

include h htimestamp in
/-- The same answers are counted alike. -/
theorem counts_perm (maxAgeSeconds : ℕ) :
    let feeds := sources.zipIdx.foldl (collect env maxAgeSeconds) ⟨0, 0, []⟩
    let feeds' := sources'.zipIdx.foldl (collect env' maxAgeSeconds) ⟨0, 0, []⟩
    feeds.freshCount = feeds'.freshCount ∧ feeds.staleCount = feeds'.staleCount := by
  -- the answers alone, without the addresses
  have hrecords : (sources.zipIdx.map fun source => env.latestPrice source.2 source.1).Perm
      (sources'.zipIdx.map fun source => env'.latestPrice source.2 source.1) := by
    have hmap := h.map Prod.snd
    simpa only [answers, List.map_map, Function.comp_def] using hmap
  intro feeds feeds'
  obtain ⟨hfresh, hstale⟩ := counts_collect env maxAgeSeconds sources.zipIdx ⟨0, 0, []⟩
  obtain ⟨hfresh', hstale'⟩ := counts_collect env' maxAgeSeconds sources'.zipIdx ⟨0, 0, []⟩
  exact ⟨by rw [hfresh, hfresh', hrecords.countP_eq, htimestamp],
    by rw [hstale, hstale', hrecords.countP_eq, htimestamp]⟩

end Order

/-- **The same answers in another order** make the same call: the price or the error is the same,
and so are the samples that are left. -/
theorem aggregatePrice_perm {env env' : Env Address} {sources sources' : List Address}
    (h : (answers env sources).Perm (answers env' sources'))
    (htimestamp : env.timestamp = env'.timestamp) (maxAgeSeconds : ℕ) (s : State) :
    invoke (aggregatePrice env sources maxAgeSeconds) s =
      invoke (aggregatePrice env' sources' maxAgeSeconds) s := by
  obtain ⟨hfresh, hstale⟩ := counts_perm h htimestamp maxAgeSeconds
  -- only the sorted prices and the two counts matter from here on
  have hprices := givenPrices_perm h htimestamp maxAgeSeconds
  have hsorted := sortPrices_eq_of_perm hprices
  have hlength := hprices.length_eq
  have hrecord : recordSample env = recordSample env' := by
    unfold recordSample
    rw [htimestamp]
  unfold aggregatePrice
  dsimp only at hfresh hstale ⊢
  rw [length_eq_of_perm h, hfresh, hstale, prices_collect, prices_collect, hlength, hsorted,
    hrecord]

/-- A small amount, as a record of the time 0. -/
def postedRecord (n : ℕ) : OracleRecord := ⟨(n % 1000 : ℕ), 0, fits_mod n⟩

/-- Sources that answer with small amounts, wherever they are on the list. -/
def posted (amounts : ℕ → ℕ) : Env ℕ where
  timestamp := 7
  latestPrice := fun _ source => some (postedRecord (amounts source))

theorem aggregatePrice_perm_sample :
    let env := posted fun source => 100 + source
    (invoke (aggregatePrice env [1, 2, 3, 4] 10) ⟨none, none⟩).1.toOption = some 102 ∧
      invoke (aggregatePrice env [1, 2, 3, 4] 10) ⟨none, none⟩ =
        invoke (aggregatePrice env [2, 1, 3, 4] 10) ⟨none, none⟩ := by
  intro env
  have hperm : (answers env [1, 2, 3, 4]).Perm (answers env [2, 1, 3, 4]) := .swap _ _ _
  exact ⟨by decide +kernel, aggregatePrice_perm hperm rfl 10 ⟨none, none⟩⟩

end OracleAggregator
