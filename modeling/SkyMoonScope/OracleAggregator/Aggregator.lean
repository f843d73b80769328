import SkyMoonScope.Lib.BubbleSort
import SkyMoonScope.Lib.SortedLists
import SkyMoonScope.Soroban.Arithmetic

/-!
# The aggregator of oracle prices

The contract of `contracts/oracle_aggregator/src/lib.rs`. A call asks every address of its list for
a record of a price. It leaves out records that are missing, stale or not positive, sorts the
prices, drops those that lie too far from the median, and returns the median of the rest. The time
weighted average of the samples is a view, and is left out.

## Main definitions

* `Env`: the time of the ledger, and the answers of the sources
* `collect`: the prices of the sources that are fresh and positive
* `filterOutliers`: the prices near the median
* `aggregatePrice`: the whole call

## Main results

* `returns_median`: the median is between two prices of the list, and moves with the majority
* `returns_filterOutliers`: the prices that the filter keeps
* `returns_aggregatePrice`: what a call that returns has computed
-/

namespace OracleAggregator

open Soroban

/-- The least share of the standard deviation that a dropped price is away from the median. -/
def stddevMultiplier : ℤ := 2

/-- The greatest share of the median, in percent, that a kept price is away from it. -/
def maxDeviationPercent : ℤ := 5

def defaultTwapWindowSeconds : ℕ := 3600

inductive Error
  | notEnoughSources
  | notEnoughValidPrices
  | notEnoughReliableSources
  | invalidPrice
  | oracleStaleness
  | invalidWindow
  | invalidOraclePrice
  | stalePriceFeed
deriving DecidableEq

/-- The answer of a source. Its price is an `i128`. -/
structure OracleRecord where
  price : ℤ
  timestamp : ℕ
  fits : IntType.i128.Fits price

structure TwapSample where
  price : ℤ
  timestamp : ℕ

/-- The entries of the contract. -/
structure State where
  twapWindowSeconds : Option ℕ
  twapSamples : Option (List TwapSample)

/-- What a call takes from its surroundings: the time of the ledger, and the answer to the call of
an address at a position of the list. A call that fails has no answer. -/
structure Env (Address : Type) where
  timestamp : ℕ
  latestPrice : ℕ → Address → Option OracleRecord

abbrev Body (α : Type) := Contract State Error α

/-- The records so far, counted, and the prices among them that are positive. -/
structure Feeds where
  freshCount : ℕ
  staleCount : ℕ
  prices : List ℤ

variable {Address : Type}

/-- Asks the source at a position of the list. -/
def collect (env : Env Address) (maxAgeSeconds : ℕ) (feeds : Feeds) (source : Address × ℕ) :
    Feeds :=
  match env.latestPrice source.2 source.1 with
  | none => feeds
  | some record =>
    if env.timestamp - record.timestamp > maxAgeSeconds then
      { feeds with staleCount := feeds.staleCount + 1 }
    else
      { feeds with
        freshCount := feeds.freshCount + 1
        prices := if record.price > 0 then feeds.prices ++ [record.price] else feeds.prices }

/-! ## The prices -/

def sortPrices (prices : List ℤ) : List ℤ := BubbleSort.bubbleSort prices

def median (prices : List ℤ) : Body ℤ := do
  let mid := prices.length / 2
  if prices.length % 2 = 1 then
    orFault prices[mid]? (.trap "called `Option::unwrap()` on a `None` value")
  else do
    let low ← orFault prices[mid - 1]? (.trap "called `Option::unwrap()` on a `None` value")
    let high ← orFault prices[mid]? (.trap "called `Option::unwrap()` on a `None` value")
    let sum ← plainI128 (low + high)
    divideI128 sum 2

def absDiff (left right : ℤ) : Body ℤ :=
  if left > right then plainI128 (left - right) else plainI128 (right - left)

def isqrt (n : ℤ) : Body ℤ := if n ≤ 0 then pure 0 else newtonSqrt n

/-- The sum of the squares of the distances to the center, saturated at every price. -/
def varSum (center : ℤ) (prices : List ℤ) : Body ℤ :=
  prices.foldlM (fun sum price => do
    let diff ← absDiff price center
    pure (IntType.i128.saturate (sum + IntType.i128.saturate (diff * diff)))) 0

def stddev (prices : List ℤ) (center : ℤ) : Body ℤ := do
  if prices.length = 0 then
    pure 0
  else do
    let sum ← varSum center prices
    let variance ← divideI128 sum prices.length
    isqrt variance

/-- The price is too far from the median: by at least twice a standard deviation that is positive,
or by more than the share of the median. -/
def exceeds (std diff median : ℤ) : Bool :=
  std > 0 ∧ diff ≥ IntType.i128.saturate (std * stddevMultiplier) ∨
    IntType.i128.saturate (diff * 100) > IntType.i128.saturate (median * maxDeviationPercent)

def filterOutliers (prices : List ℤ) (median : ℤ) : Body (List ℤ) := do
  let std ← stddev prices median
  prices.foldlM (fun filtered price => do
    let diff ← absDiff price median
    pure (if exceeds std diff median then filtered else filtered ++ [price])) []

/-! ## The samples -/

/-- The samples of the window, and the last one before it. -/
def pruneSamples (samples : List TwapSample) (now window : ℕ) : List TwapSample :=
  let windowStart := now - window
  let (pruned, lastBefore) := samples.foldl
    (fun (pruned, lastBefore) sample =>
      if sample.timestamp < windowStart then (pruned, some sample)
      else (pruned ++ lastBefore.toList ++ [sample], none))
    (([], none) : List TwapSample × Option TwapSample)
  if pruned.isEmpty then pruned ++ lastBefore.toList else pruned

def recordSample (env : Env Address) (price : ℤ) : Body Unit := do
  let s ← get
  let window := s.twapWindowSeconds.getD defaultTwapWindowSeconds
  let samples := s.twapSamples.getD [] ++ [⟨price, env.timestamp⟩]
  set {
    twapSamples := some (pruneSamples samples env.timestamp window)
    twapWindowSeconds := some window : State }

/-! ## The entry points -/

def initializeAggregator (windowSeconds : ℕ) : Body Unit := do
  require (windowSeconds ≠ 0) (.error .invalidWindow)
  set { twapWindowSeconds := some windowSeconds, twapSamples := some [] : State }

def aggregatePrice (env : Env Address) (sources : List Address) (maxAgeSeconds : ℕ) : Body ℤ := do
  require (¬sources.length < 3) (.error .notEnoughSources)
  let feeds := sources.zipIdx.foldl (collect env maxAgeSeconds) ⟨0, 0, []⟩
  require (¬feeds.freshCount < 3)
    (.error (if feeds.staleCount > 0 then .stalePriceFeed else .oracleStaleness))
  require (¬feeds.prices.length < 3) (.error .notEnoughValidPrices)
  let sorted := sortPrices feeds.prices
  let center ← median sorted
  let filtered ← filterOutliers sorted center
  require (¬filtered.length < 3) (.error .notEnoughReliableSources)
  let snapshot ← median filtered
  recordSample env snapshot
  pure snapshot

/-! ## The sources that answered -/

/-- The price of a source that has answered with a record that is fresh and positive. -/
def freshPrice (env : Env Address) (maxAgeSeconds : ℕ) (source : Address × ℕ) : Option ℤ :=
  match env.latestPrice source.2 source.1 with
  | none => none
  | some record =>
    if env.timestamp - record.timestamp ≤ maxAgeSeconds ∧ 0 < record.price then some record.price
    else none

/-- The fresh and positive answers, each with the address that gave it. -/
def quotes (env : Env Address) (maxAgeSeconds : ℕ) (sources : List Address) : List (Address × ℤ) :=
  sources.zipIdx.filterMap fun source =>
    (freshPrice env maxAgeSeconds source).map (Prod.mk source.1)

section Quotes

variable {env : Env Address} {maxAgeSeconds : ℕ} {sources : List Address}

/-- A source adds its price just when the record is fresh and positive. -/
theorem collect_prices (feeds : Feeds) (source : Address × ℕ) :
    (collect env maxAgeSeconds feeds source).prices =
      feeds.prices ++ (freshPrice env maxAgeSeconds source).toList := by
  unfold collect freshPrice
  cases env.latestPrice source.2 source.1 with
  | none => simp
  | some record =>
    dsimp only
    by_cases hstale : env.timestamp - record.timestamp > maxAgeSeconds
    · rw [if_pos hstale, if_neg fun h => absurd h.1 (Nat.not_le.mpr hstale)]
      exact (List.append_nil _).symm
    · rw [if_neg hstale]
      by_cases hprice : 0 < record.price
      · have hboth : env.timestamp - record.timestamp ≤ maxAgeSeconds ∧ 0 < record.price :=
          ⟨Nat.le_of_not_lt hstale, hprice⟩
        rw [if_pos hboth]
        exact if_pos hprice
      · have hnot : ¬(env.timestamp - record.timestamp ≤ maxAgeSeconds ∧ 0 < record.price) :=
          fun h => hprice h.2
        rw [if_neg hnot]
        exact (if_neg hprice).trans (List.append_nil _).symm

/-- The prices of a call are those of the quotes, in their order. -/
theorem prices_collect : (sources.zipIdx.foldl (collect env maxAgeSeconds) ⟨0, 0, []⟩).prices =
    (quotes env maxAgeSeconds sources).map Prod.snd := by
  have hfold : ∀ (l : List (Address × ℕ)) (feeds : Feeds),
      (l.foldl (collect env maxAgeSeconds) feeds).prices =
        feeds.prices ++ l.filterMap (freshPrice env maxAgeSeconds) := by
    intro l
    induction l with
    | nil => simp
    | cons source l ih =>
      intro feeds
      rw [List.foldl_cons, ih, collect_prices]
      cases hprice : freshPrice env maxAgeSeconds source <;> simp [hprice]
  rw [hfold, quotes, List.map_filterMap, List.nil_append]
  refine List.filterMap_congr fun source _ => ?_
  cases freshPrice env maxAgeSeconds source <;> rfl

/-- Every price is that of a fresh record. -/
theorem length_prices_le_freshCount {l : List (Address × ℕ)} {feeds : Feeds}
    (h : feeds.prices.length ≤ feeds.freshCount) :
    (l.foldl (collect env maxAgeSeconds) feeds).prices.length ≤
      (l.foldl (collect env maxAgeSeconds) feeds).freshCount := by
  induction l generalizing feeds with
  | nil => exact h
  | cons source l ih =>
    apply ih
    unfold collect
    split
    · exact h
    · split
      · exact h
      · dsimp only
        split
        · rw [List.length_append]
          exact Nat.succ_le_succ h
        · exact Nat.le_succ_of_le h

theorem map_fst_quotes_sublist :
    ((quotes env maxAgeSeconds sources).map Prod.fst).Sublist sources := by
  have hsublist : ∀ l : List (Address × ℕ), ((l.filterMap fun source =>
      (freshPrice env maxAgeSeconds source).map (Prod.mk source.1)).map Prod.fst).Sublist
        (l.map Prod.fst) := by
    intro l
    induction l with
    | nil => exact .slnil
    | cons source l ih =>
      cases hprice : freshPrice env maxAgeSeconds source with
      | none => simpa [hprice] using ih.cons source.1
      | some price => simpa [hprice] using ih
  simpa [quotes] using hsublist sources.zipIdx

/-- The price of a quote is a positive `i128`. -/
theorem of_mem_quotes {quote : Address × ℤ} (h : quote ∈ quotes env maxAgeSeconds sources) :
    0 < quote.2 ∧ IntType.i128.Fits quote.2 := by
  obtain ⟨source, -, hquote⟩ := List.mem_filterMap.mp h
  obtain ⟨price, hprice, rfl⟩ := Option.map_eq_some_iff.mp hquote
  unfold freshPrice at hprice
  split at hprice
  next => cases hprice
  next record _ =>
    split at hprice
    next hrecord =>
      obtain rfl := Option.some.inj hprice
      exact ⟨hrecord.2, record.fits⟩
    next => cases hprice

theorem length_quotes_le : (quotes env maxAgeSeconds sources).length ≤ sources.length := by
  have hsublist : ((quotes env maxAgeSeconds sources).map Prod.fst).Sublist sources :=
    map_fst_quotes_sublist
  have hle := hsublist.length_le
  rwa [List.length_map] at hle

end Quotes

/-! ## What the computations return -/

section Spec

variable {prices : List ℤ} {center m left right z : ℤ} {s t : State}

theorem returns_absDiff (h : Returns (absDiff left right) s z t) : z = |left - right| ∧ s = t := by
  unfold absDiff at h
  split at h
  next hlt =>
    obtain ⟨-, rfl, hst⟩ := returns_plainI128.mp h
    exact ⟨(abs_of_pos (by linarith)).symm, hst⟩
  next hle =>
    obtain ⟨-, rfl, hst⟩ := returns_plainI128.mp h
    exact ⟨by rw [abs_sub_comm, abs_of_nonneg (by linarith)], hst⟩

theorem readOnly_median (prices : List ℤ) : ReadOnly (median prices) := by
  refine ReadOnly.ite .orFault (.bind .orFault fun low => .bind .orFault fun high => ?_)
  exact ReadOnly.bind .orFault fun sum => .orFault

/-- **The median** of positive prices in order is between a price that at least half of them are not
above, and one that at least half are not below. -/
theorem returns_median (hsorted : prices.Pairwise (· ≤ ·)) (hpositive : ∀ x ∈ prices, 0 < x)
    (h : Returns (median prices) s m t) :
    s = t ∧ ∃ (i j : ℕ) (hi : i < prices.length) (hj : j < prices.length),
      prices.length ≤ 2 * i + 2 ∧ 2 * j ≤ prices.length ∧ prices[i] ≤ m ∧ m ≤ prices[j] := by
  unfold median at h
  dsimp only at h
  split at h
  next hodd =>
    obtain ⟨hprice, hst⟩ := returns_orFault.mp h
    obtain ⟨hmid, rfl⟩ := List.getElem?_eq_some_iff.mp hprice
    exact ⟨hst, _, _, hmid, hmid, by omega, by omega, le_rfl, le_rfl⟩
  next heven =>
    simp only [returns_orFault_bind, returns_plainI128_bind, returns_divideI128] at h
    obtain ⟨low, hlow, high, hhigh, -, -, -, rfl, hst⟩ := h
    obtain ⟨hmid', rfl⟩ := List.getElem?_eq_some_iff.mp hlow
    obtain ⟨hmid, rfl⟩ := List.getElem?_eq_some_iff.mp hhigh
    refine ⟨hst, _, _, hmid', hmid, by omega, by omega, ?_⟩
    have hle : prices[prices.length / 2 - 1] ≤ prices[prices.length / 2] :=
      List.pairwise_iff_getElem.mp hsorted _ _ hmid' hmid (by omega)
    have hpos := hpositive _ (List.getElem_mem hmid')
    rw [Int.tdiv_eq_ediv_of_nonneg (by linarith)]
    omega

theorem returns_isqrt {n : ℤ} (h : Returns (isqrt n) s z t) :
    z = Nat.sqrt n.toNat ∧ s = t := by
  unfold isqrt at h
  split at h
  next hn =>
    obtain ⟨rfl, hst⟩ := returns_pure.mp h
    rw [Int.toNat_of_nonpos hn]
    exact ⟨rfl, hst⟩
  next hn =>
    obtain ⟨-, rfl, hst⟩ := (returns_newtonSqrt (not_le.mp hn)).mp h
    exact ⟨rfl, hst⟩

/-- The sum of the squares of the distances, as it is saturated. -/
def squares (center : ℤ) (prices : List ℤ) : ℤ :=
  prices.foldl (fun sum price => IntType.i128.saturate (sum +
    IntType.i128.saturate (|price - center| * |price - center|))) 0

theorem returns_varSum (h : Returns (varSum center prices) s z t) :
    z = squares center prices ∧ s = t := by
  refine eq_foldl_of_returns ?_ h
  intro sum price s z t hround
  obtain ⟨diff, u, hdiff, hsum⟩ := returns_bind.mp hround
  obtain ⟨rfl, rfl⟩ := returns_absDiff hdiff
  obtain ⟨rfl, hst⟩ := returns_pure.mp hsum
  exact ⟨rfl, hst⟩

theorem returns_stddev (h : Returns (stddev prices center) s z t) :
    z = Nat.sqrt ((squares center prices).tdiv prices.length).toNat ∧ s = t := by
  unfold stddev at h
  split at h
  next hnil =>
    obtain ⟨rfl, hst⟩ := returns_pure.mp h
    rw [hnil]
    exact ⟨by simp, hst⟩
  next hcons =>
    obtain ⟨sum, u, hsum, hrest⟩ := returns_bind.mp h
    obtain ⟨rfl, rfl⟩ := returns_varSum hsum
    rw [returns_divideI128_bind] at hrest
    exact returns_isqrt hrest.2.2

theorem foldl_eq_filter_not {α : Type} (p : α → Bool) (l : List α) :
    l.foldl (fun kept x => if p x then kept else kept ++ [x]) [] = l.filter fun x => !p x := by
  calc l.foldl (fun kept x => if p x then kept else kept ++ [x]) []
      = l.foldl (fun kept x => if !p x then kept ++ [x] else kept) [] := by
        congr
        funext kept x
        cases p x <;> rfl
    _ = (l.filter fun x => !p x).foldl (fun kept x => kept ++ [x]) [] := List.foldl_filter.symm
    _ = l.filter fun x => !p x := by
        rw [List.foldl_append_eq_append, List.nil_append, ← List.flatMap_def,
          List.flatMap_singleton']

/-- A price is dropped for its distance to the center, measured by the deviation of all prices. -/
def dropped (prices : List ℤ) (center price : ℤ) : Bool :=
  exceeds (Nat.sqrt ((squares center prices).tdiv prices.length).toNat) |price - center| center

/-- **The filter** keeps the other prices, in their order. -/
theorem returns_filterOutliers {kept : List ℤ}
    (h : Returns (filterOutliers prices center) s kept t) :
    kept = (prices.filter fun price => !dropped prices center price) ∧ s = t := by
  obtain ⟨std, u, hstd, hfold⟩ := returns_bind.mp h
  obtain ⟨rfl, rfl⟩ := returns_stddev hstd
  rw [← foldl_eq_filter_not]
  refine eq_foldl_of_returns ?_ hfold
  intro filtered price s z t hround
  obtain ⟨diff, u, hdiff, hz⟩ := returns_bind.mp hround
  obtain ⟨rfl, rfl⟩ := returns_absDiff hdiff
  obtain ⟨rfl, hst⟩ := returns_pure.mp hz
  exact ⟨rfl, hst⟩

end Spec

section Call

variable {env : Env Address} {sources : List Address} {maxAgeSeconds : ℕ} {s t : State} {r : ℤ}

/-- The prices that a call sorts. -/
abbrev givenPrices (env : Env Address) (maxAgeSeconds : ℕ) (sources : List Address) : List ℤ :=
  (quotes env maxAgeSeconds sources).map Prod.snd

theorem sortPrices_sorted (l : List ℤ) : (sortPrices l).Pairwise (· ≤ ·) :=
  BubbleSort.bubbleSort_sorted l

theorem sortPrices_perm (l : List ℤ) : (sortPrices l).Perm l := BubbleSort.bubbleSort_perm l

/-- **A call that returns** has at least three prices, keeps at least three of them near their
median, and returns the median of these. -/
theorem returns_aggregatePrice (h : Returns (aggregatePrice env sources maxAgeSeconds) s r t) :
    3 ≤ sources.length ∧ ∃ center kept,
      Returns (median (sortPrices (givenPrices env maxAgeSeconds sources))) s center s ∧
      Returns (filterOutliers (sortPrices (givenPrices env maxAgeSeconds sources)) center) s kept
        s ∧
      3 ≤ kept.length ∧ Returns (median kept) s r s := by
  simp only [aggregatePrice, returns_require_bind, prices_collect, not_lt] at h
  obtain ⟨hsources, -, -, hrest⟩ := h
  obtain ⟨center, u, hcenter, hrest⟩ := returns_bind.mp hrest
  obtain rfl := readOnly_median _ _ _ _ hcenter
  obtain ⟨kept, u, hkept, hrest⟩ := returns_bind.mp hrest
  obtain rfl := (returns_filterOutliers hkept).2
  rw [returns_require_bind, not_lt] at hrest
  obtain ⟨hthree, hrest⟩ := hrest
  obtain ⟨snapshot, u, hsnapshot, hrest⟩ := returns_bind.mp hrest
  obtain rfl := readOnly_median _ _ _ _ hsnapshot
  obtain ⟨-, u, -, hpure⟩ := returns_bind.mp hrest
  obtain ⟨rfl, -⟩ := returns_pure.mp hpure
  exact ⟨hsources, center, kept, hcenter, hkept, hthree, hsnapshot⟩

end Call

end OracleAggregator
