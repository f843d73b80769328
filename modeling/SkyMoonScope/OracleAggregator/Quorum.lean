import SkyMoonScope.OracleAggregator.Aggregator

/-!
# The quorum of sources

A call counts the answers, and not the addresses that gave them. When no address is on the list
twice, three answers are those of three sources. When one is, its answers count as often as it is on
the list, and with one more answer they are enough for a price.

## Main definitions

* `Sound`: three addresses gave a price, and the price returned is between two of the prices

## Main results

* `kept_between`: the price returned is between two prices that sources gave
* `sound_iff`: for which lists every price is that of a quorum
-/

namespace OracleAggregator

open Soroban

variable {Address : Type}

/-- The price comes from fresh and positive answers of at least three addresses, and lies between
two of these answers. -/
structure Sound (env : Env Address) (maxAgeSeconds : ℕ) (sources : List Address) (price : ℤ) :
    Prop where
  quorum : ∃ answered : List Address, answered.Nodup ∧ 3 ≤ answered.length ∧
    ∀ source ∈ answered, ∃ p, (source, p) ∈ quotes env maxAgeSeconds sources
  le_price : ∃ quote ∈ quotes env maxAgeSeconds sources, quote.2 ≤ price
  price_le : ∃ quote ∈ quotes env maxAgeSeconds sources, price ≤ quote.2

section Kept

variable {env : Env Address} {maxAgeSeconds : ℕ} {sources : List Address} {s t : State}
  {center r : ℤ} {kept : List ℤ}

/-- The prices that are kept are some of those that were given, in their order. -/
theorem kept_sublist
    (h : Returns (filterOutliers (sortPrices (givenPrices env maxAgeSeconds sources)) center) s
      kept t) :
    kept.Sublist (sortPrices (givenPrices env maxAgeSeconds sources)) := by
  rw [(returns_filterOutliers h).1]
  exact List.filter_sublist

theorem exists_quote_of_mem_sorted {p : ℤ}
    (h : p ∈ sortPrices (givenPrices env maxAgeSeconds sources)) :
    ∃ quote ∈ quotes env maxAgeSeconds sources, quote.2 = p :=
  List.mem_map.mp ((sortPrices_perm _).mem_iff.mp h)

theorem sorted_positive {p : ℤ} (h : p ∈ sortPrices (givenPrices env maxAgeSeconds sources)) :
    0 < p := by
  obtain ⟨quote, hquote, rfl⟩ := exists_quote_of_mem_sorted h
  exact (of_mem_quotes hquote).1

/-- **The median of the kept prices** is between two prices that sources gave. -/
theorem kept_between (hkept : kept.Sublist (sortPrices (givenPrices env maxAgeSeconds sources)))
    (h : Returns (median kept) s r t) :
    (∃ quote ∈ quotes env maxAgeSeconds sources, quote.2 ≤ r) ∧
      ∃ quote ∈ quotes env maxAgeSeconds sources, r ≤ quote.2 := by
  have hsorted := (sortPrices_sorted (givenPrices env maxAgeSeconds sources)).sublist hkept
  obtain ⟨-, i, j, hi, hj, -, -, hle, hge⟩ :=
    returns_median hsorted (fun p hp => sorted_positive (hkept.subset hp)) h
  obtain ⟨low, hlow, hlow'⟩ := exists_quote_of_mem_sorted (hkept.subset (List.getElem_mem hi))
  obtain ⟨high, hhigh, hhigh'⟩ := exists_quote_of_mem_sorted (hkept.subset (List.getElem_mem hj))
  exact ⟨⟨low, hlow, hlow' ▸ hle⟩, high, hhigh, hhigh' ▸ hge⟩

end Kept

/-! ## A list with an address twice -/

section Duplicate

variable {sources : List Address} {i j k : ℕ}

theorem fits_one : IntType.i128.Fits 1 := by decide

/-- Sources that answer at three positions of the list only, all with one price. -/
def answersAt (Address : Type) (i j k : ℕ) : Env Address where
  timestamp := 0
  latestPrice := fun n _ => if n ∈ [i, j, k] then some ⟨1, 0, fits_one⟩ else none

theorem freshPrice_answersAt (source : Address × ℕ) :
    freshPrice (answersAt Address i j k) 0 source =
      if source.2 ∈ [i, j, k] then some 1 else none := by
  unfold freshPrice answersAt
  dsimp only
  split
  next hanswer =>
    split at hanswer
    · cases hanswer
    next hmem => rw [if_neg hmem]
  next record hanswer =>
    split at hanswer
    next hmem =>
      obtain rfl := Option.some.inj hanswer
      rw [if_pos hmem]
      rfl
    · cases hanswer

/-- The three positions give three prices. -/
theorem prices_answersAt (hi : i < sources.length) (hj : j < sources.length)
    (hk : k < sources.length) (hnodup : [i, j, k].Nodup) :
    givenPrices (answersAt Address i j k) 0 sources = [1, 1, 1] := by
  have hprices : givenPrices (answersAt Address i j k) 0 sources =
      sources.zipIdx.filterMap (freshPrice (answersAt Address i j k) 0) := by
    rw [givenPrices, quotes, List.map_filterMap]
    refine List.filterMap_congr fun source _ => ?_
    cases freshPrice (answersAt Address i j k) 0 source <;> rfl
  have hone : ∀ p ∈ givenPrices (answersAt Address i j k) 0 sources, p = 1 := by
    intro p hp
    rw [hprices] at hp
    obtain ⟨source, -, hsource⟩ := List.mem_filterMap.mp hp
    rw [freshPrice_answersAt] at hsource
    split at hsource
    · exact (Option.some.inj hsource).symm
    · cases hsource
  have hlength : (givenPrices (answersAt Address i j k) 0 sources).length = 3 := by
    have hisSome : (fun source : Address × ℕ =>
        (freshPrice (answersAt Address i j k) 0 source).isSome) =
          (fun n => decide (n ∈ [i, j, k])) ∘ Prod.snd := by
      funext source
      rw [freshPrice_answersAt, Function.comp_apply]
      split <;> simp_all
    rw [hprices, List.length_filterMap_eq_countP, hisSome, ← List.countP_map, List.zipIdx_map_snd,
      List.countP_eq_length_filter]
    have hperm : ((List.range' 0 sources.length).filter fun n => decide (n ∈ [i, j, k])).Perm
        [i, j, k] := by
      refine (List.perm_ext_iff_of_nodup ((List.nodup_range' 1).filter _) hnodup).mpr fun n => ?_
      rw [List.mem_filter, decide_eq_true_eq, List.mem_range'_1]
      refine ⟨fun h => h.2, fun h => ⟨?_, h⟩⟩
      simp only [List.mem_cons, List.not_mem_nil, or_false] at h
      omega
    exact hperm.length_eq
  exact List.eq_replicate_iff.mpr ⟨hlength, hone⟩

/-- Three answers are enough for a price, whoever gave them. -/
theorem exists_returns_answersAt (hi : i < sources.length) (hj : j < sources.length)
    (hk : k < sources.length) (hnodup : [i, j, k].Nodup) (s : State) :
    ∃ t, Returns (aggregatePrice (answersAt Address i j k) sources 0) s 1 t := by
  have hprices := prices_answersAt hi hj hk hnodup
  have hfresh : (givenPrices (answersAt Address i j k) 0 sources).length ≤
      (sources.zipIdx.foldl (collect (answersAt Address i j k) 0) ⟨0, 0, []⟩).freshCount := by
    rw [givenPrices, ← prices_collect]
    exact length_prices_le_freshCount (Nat.le_refl 0)
  rw [hprices] at hfresh
  have hthree : 3 ≤ sources.length := by
    simp only [List.nodup_cons, List.mem_cons, List.not_mem_nil, or_false, not_or] at hnodup
    omega
  obtain ⟨t, ht⟩ : ∃ t, Returns (recordSample (answersAt Address i j k) 1) s () t := ⟨_, rfl⟩
  refine ⟨t, ?_⟩
  rw [givenPrices] at hprices
  simp only [aggregatePrice, returns_require_bind, prices_collect, hprices, not_lt]
  refine ⟨hthree, hfresh, le_rfl, ?_⟩
  have hsort : sortPrices [1, 1, 1] = [1, 1, 1] := by decide
  have hmedian : Returns (median [1, 1, 1]) s 1 s := rfl
  have hkept : Returns (filterOutliers [1, 1, 1] 1) s [1, 1, 1] s := rfl
  rw [hsort]
  refine returns_bind.mpr ⟨1, s, hmedian, returns_bind.mpr ⟨_, s, hkept, ?_⟩⟩
  rw [returns_require_bind]
  exact ⟨by decide, returns_bind.mpr ⟨1, s, hmedian, returns_bind.mpr ⟨(), t, ht, rfl⟩⟩⟩

/-- The addresses of the three answers. -/
theorem mem_of_mem_quotes_answersAt {source : Address} {p : ℤ}
    (h : (source, p) ∈ quotes (answersAt Address i j k) 0 sources) :
    ∃ n ∈ [i, j, k], sources[n]? = some source := by
  obtain ⟨⟨source', n⟩, hmem, hquote⟩ := List.mem_filterMap.mp h
  obtain ⟨price, hprice, heq⟩ := Option.map_eq_some_iff.mp hquote
  obtain rfl : source' = source := (Prod.mk.inj heq).1
  rw [freshPrice_answersAt] at hprice
  split at hprice
  next hn => exact ⟨n, hn, List.mk_mem_zipIdx_iff_getElem?.mp hmem⟩
  · cases hprice

end Duplicate

/-! ## Lists of sources -/

/-- **The quorum.** Every price that a call returns, whatever the sources answer, is that of three
addresses and between their prices, just when the list is too short for a price or has no address
twice. -/
theorem sound_iff (sources : List Address) :
    (∀ env maxAgeSeconds s price t, Returns (aggregatePrice env sources maxAgeSeconds) s price t →
      Sound env maxAgeSeconds sources price) ↔ sources.length < 3 ∨ sources.Nodup := by
  constructor
  · intro hsound
    by_contra hcondition
    rw [not_or, not_lt] at hcondition
    obtain ⟨hthree, hduplicate⟩ := hcondition
    -- an address at two positions, and one more position
    rw [List.Nodup, List.pairwise_iff_getElem] at hduplicate
    push Not at hduplicate
    obtain ⟨i, j, hi, hj, hij, hsame⟩ := hduplicate
    obtain ⟨k, hk, hki, hkj⟩ : ∃ k < 3, k ≠ i ∧ k ≠ j := by
      by_contra hnone
      push Not at hnone
      have h0 := hnone 0 (by omega)
      have h1 := hnone 1 (by omega)
      have h2 := hnone 2 (by omega)
      omega
    have hk : k < sources.length := by omega
    have hpositions : [i, j, k].Nodup := by
      simp only [List.nodup_cons, List.mem_cons, List.not_mem_nil, or_false, not_or,
        not_false_eq_true, List.nodup_nil, and_true]
      omega
    obtain ⟨t, hreturns⟩ := exists_returns_answersAt hi hj hk hpositions ⟨none, none⟩
    obtain ⟨answered, hnodup, hlength, hanswered⟩ := (hsound _ _ _ _ _ hreturns).quorum
    -- the three positions have two addresses
    have hsubset : answered ⊆ [sources[i], sources[k]] := by
      intro source hsource
      obtain ⟨p, hquote⟩ := hanswered source hsource
      obtain ⟨n, hn, hget⟩ := mem_of_mem_quotes_answersAt hquote
      obtain ⟨hlt, rfl⟩ := List.getElem?_eq_some_iff.mp hget
      simp only [List.mem_cons, List.not_mem_nil, or_false] at hn ⊢
      rcases hn with rfl | rfl | rfl
      · exact .inl rfl
      · exact .inl hsame.symm
      · exact .inr rfl
    have htwo := (List.subperm_of_subset hnodup hsubset).length_le
    rw [List.length_cons, List.length_singleton] at htwo
    omega
  · rintro hcondition env maxAgeSeconds s price t h
    obtain ⟨hthree, center, kept, -, hkept, hlength, hmedian⟩ := returns_aggregatePrice h
    have hnodup : sources.Nodup := hcondition.resolve_left (not_lt.mpr hthree)
    have hsublist := kept_sublist hkept
    obtain ⟨hle, hge⟩ := kept_between hsublist hmedian
    refine ⟨⟨(quotes env maxAgeSeconds sources).map Prod.fst, ?_, ?_, fun source hsource => ?_⟩,
      hle, hge⟩
    · exact hnodup.sublist map_fst_quotes_sublist
    · have hquotes := (sortPrices_perm (givenPrices env maxAgeSeconds sources)).length_eq
      rw [givenPrices, List.length_map] at hquotes
      rw [List.length_map, ← hquotes]
      exact hlength.trans hsublist.length_le
    · obtain ⟨quote, hquote, rfl⟩ := List.mem_map.mp hsource
      exact ⟨quote.2, hquote⟩

/-- One address three times on the list. -/
theorem one_source : ∃ t,
    Returns (aggregatePrice (answersAt ℕ 0 1 2) [7, 7, 7] 0) ⟨none, none⟩ 1 t ∧
      ¬Sound (answersAt ℕ 0 1 2) 0 [7, 7, 7] 1 := by
  have hreturns : ∃ t, Returns (aggregatePrice (answersAt ℕ 0 1 2) [7, 7, 7] 0) ⟨none, none⟩ 1 t :=
    exists_returns_answersAt (by decide) (by decide) (by decide) (by decide) ⟨none, none⟩
  obtain ⟨t, ht⟩ := hreturns
  refine ⟨t, ht, fun hsound => ?_⟩
  obtain ⟨answered, hnodup, hlength, hanswered⟩ := hsound.quorum
  have hsubset : answered ⊆ [7] := by
    intro source hsource
    obtain ⟨p, hquote⟩ := hanswered source hsource
    have hmem : source ∈ [7, 7, 7] :=
      map_fst_quotes_sublist.subset (List.mem_map_of_mem (f := Prod.fst) hquote)
    simpa using hmem
  have hone := (List.subperm_of_subset hnodup hsubset).length_le
  rw [List.length_singleton] at hone
  omega

end OracleAggregator
