import SkyMoonScope.Core.RpcProvider.CircuitBreaker
import SkyMoonScope.Lib.OrderedMap
import SkyMoonScope.Lib.Rounds
import Mathlib.Data.Rat.Floor
import Mathlib.Tactic.FieldSimp
import Mathlib.Tactic.Linarith

/-!
# Which provider is asked first

The registry keeps an average of the latency of every provider, in whole microseconds. Once all the
providers that are available have enough samples the one with the least average is asked first, and
before that they take turns. The choice is that of `select_provider_index` in
`core/src/routing.rs`, which knows the providers by their numbers.

## Main definitions

* `ProviderView`, `selectProviderIndex`: the providers as the choice sees them, and the choice
* `ProviderRegistry.views`: the providers of a registry as the choice sees them
* `ProviderStats.afterSamples`, `exactAverage`: the average that is kept, and without rounding
* `ProviderRegistry.firsts`: the providers that are asked first in a run

## Main results

* `head?_providersByLatency`: the registry asks the provider first that is chosen
* `emaRttUs_mem_Icc`: the average is between the least and the greatest sample
* `exactAverage_sub_le`: rounding loses at most half of the window
* `count_firsts`: providers that are not warmed up are asked first equally often
-/

namespace Core.Providers

/-! ## The choice -/

structure ProviderView where
  name : String
  isHealthy : Bool
  emaRttUs : ℕ
  sampleCount : ℕ
  deriving DecidableEq

def selectProviderIndex (providers : List ProviderView) (roundRobinCursor : ℕ) : Option ℕ :=
  let healthy := providers.zipIdx.filter fun p => p.1.isHealthy
  if healthy.isEmpty then none
  else if !(healthy.all fun p => minSamplesForEma ≤ p.1.sampleCount) then
    healthy[roundRobinCursor % healthy.length]?.map Prod.snd
  else
    -- the number breaks ties
    (healthy.argmin fun p => toLex (p.1.emaRttUs, p.2)).map Prod.snd

namespace ProviderRegistry

variable {r : ProviderRegistry} {now : ℕ}

/-- A provider as the choice sees it. -/
def view (now : ℕ) (s : ProviderState) : ProviderView where
  name := s.provider.name
  isHealthy := (s.isAvailable now).1
  emaRttUs := s.stats.emaRttUs
  sampleCount := s.stats.sampleCount

def views (r : ProviderRegistry) (now : ℕ) : List ProviderView :=
  r.states.entries.map fun p => view now p.2

/-- The states of the providers, with their numbers, of those that are available. -/
def numbered (r : ProviderRegistry) (now : ℕ) : List (ProviderState × ℕ) :=
  (r.states.entries.map Prod.snd).zipIdx.filter fun p => (p.1.isAvailable now).1

theorem healthy_views : (r.views now).zipIdx.filter (fun p => p.1.isHealthy) =
    (r.numbered now).map fun p => (view now p.1, p.2) := by
  have hviews : r.views now = (r.states.entries.map Prod.snd).map (view now) := by
    rw [views, List.map_map]
    rfl
  rw [hviews, List.zipIdx_map, List.filter_map, numbered]
  rfl

theorem map_fst_numbered :
    (r.numbered now).map Prod.fst =
      (r.states.entries.map Prod.snd).filter fun s => (s.isAvailable now).1 := by
  have hfilter : (r.numbered now).map Prod.fst =
      ((r.states.entries.map Prod.snd).zipIdx.map Prod.fst).filter
        fun s => (s.isAvailable now).1 := by
    rw [List.filter_map]
    rfl
  rw [hfilter, List.zipIdx_map_fst]

theorem numbered_lt : (r.numbered now).Pairwise fun a b => a.2 < b.2 := by
  refine List.Pairwise.filter _ ?_
  rw [← List.pairwise_map (f := Prod.snd) (R := (· < ·)), List.zipIdx_map_snd]
  exact List.pairwise_lt_range'

/-- The number of a provider is its place in the registry. -/
theorem getElem?_of_mem_numbered {p : ProviderState × ℕ} (h : p ∈ r.numbered now) :
    (r.states.entries.map Prod.snd)[p.2]? = some p.1 := by
  have hmem := List.mem_of_mem_filter h
  obtain ⟨s, i⟩ := p
  exact List.mem_zipIdx_iff_getElem?.mp hmem

theorem provider_isAvailable (s : ProviderState) : (s.isAvailable now).2.provider = s.provider := by
  rw [isAvailable_snd]
  exact (frame_isProviderTripped s now).provider_eq

theorem stats_isAvailable (s : ProviderState) : (s.isAvailable now).2.stats = s.stats := by
  rw [isAvailable_snd, ProviderState.isProviderTripped]
  split
  · rfl
  · split <;> rfl

theorem available_eq : (r.available now).1 =
    (r.numbered now).map fun p => (p.1.isAvailable now).2 := by
  rw [available, ← map_fst_numbered, List.map_map]
  rfl

/-- The provider with a number, of those that are available. -/
theorem provider_of_mem_numbered {p : ProviderState × ℕ} (h : p ∈ r.numbered now) :
    r.states.entries[p.2]?.map (fun q => q.2.provider) = some p.1.provider := by
  have hget := getElem?_of_mem_numbered h
  rw [List.getElem?_map] at hget
  obtain ⟨q, hq, hstate⟩ := Option.map_eq_some_iff.mp hget
  rw [hq, Option.map_some, hstate]

/-- **The registry asks the provider first that is chosen**: the choice among the numbered
providers, and the order in which the registry offers them, have the same beginning. -/
theorem head?_providersByLatency (r : ProviderRegistry) (now : ℕ) :
    (r.providersByLatency now).1.head? =
      (selectProviderIndex (r.views now) r.latencyCursor).bind fun i =>
        r.states.entries[i]?.map fun p => p.2.provider := by
  have havailable := @available_eq r now
  have hcursor : (r.available now).2.latencyCursor = r.latencyCursor := rfl
  set N := r.numbered now with hN
  -- whichever of the available providers it is, its number leads back to it
  have hback : ∀ o : Option (ProviderState × ℕ), (∀ p, o = some p → p ∈ N) →
      o.map (fun p => p.1.provider) = (o.map Prod.snd).bind fun i =>
        r.states.entries[i]?.map fun p => p.2.provider := by
    rintro (- | p) h
    · rfl
    · exact (provider_of_mem_numbered (h p rfl)).symm
  unfold selectProviderIndex providersByLatency
  simp only [healthy_views, ← hN, havailable, hcursor, List.isEmpty_map, List.all_map,
    List.length_map]
  split
  · rfl
  · next hne =>
    have hwarm : (N.all ((fun s => s.stats.isWarmed) ∘ fun p => (p.1.isAvailable now).2)) =
        N.all ((fun p : ProviderView × ℕ => decide (minSamplesForEma ≤ p.1.sampleCount)) ∘
          fun p => (view now p.1, p.2)) := by
      refine List.all_congr rfl fun p => ?_
      simp only [Function.comp_apply, stats_isAvailable]
      rfl
    rw [hwarm]
    split
    · next hall =>
      -- the fastest: both sort the same list
      have hsort : (N.map fun p => (p.1.isAvailable now).2).insertionSort
          (fun a b => a.stats.emaRttUs ≤ b.stats.emaRttUs) =
          (N.insertionSort fun a b => a.1.stats.emaRttUs ≤ b.1.stats.emaRttUs).map
            fun p => (p.1.isAvailable now).2 := by
        refine (List.map_insertionSort _ _ _ _ fun a _ b _ => ?_).symm
        rw [stats_isAvailable, stats_isAvailable]
      have hview : (N.map fun p => (view now p.1, p.2)).insertionSort
          (fun a b => a.1.emaRttUs ≤ b.1.emaRttUs) =
          (N.insertionSort fun a b => a.1.stats.emaRttUs ≤ b.1.stats.emaRttUs).map
            fun p => (view now p.1, p.2) := by
        refine (List.map_insertionSort _ _ _ _ fun a _ b _ => ?_).symm
        exact Iff.rfl
      have hlt : (N.map fun p => (view now p.1, p.2)).Pairwise fun a b => a.2 < b.2 :=
        List.pairwise_map.mpr numbered_lt
      rw [if_neg (by simpa using hall), ← head?_insertionSort (fun p => p.1.emaRttUs) hlt, hview,
        hsort, List.head?_map, List.head?_map, List.head?_map, Option.map_map, Option.map_map]
      simp only [Function.comp_def, provider_isAvailable]
      refine hback _ fun p hp => ?_
      exact (List.perm_insertionSort _ N).mem_iff.mp (List.mem_of_head? hp)
    · next hnot =>
      rw [if_pos (by simpa using hnot)]
      have hpos : 0 < N.length := by
        rw [List.length_pos_iff]
        simpa using hne
      have hhead : (N.map fun p => (p.1.isAvailable now).2).rotate
          (r.latencyCursor % N.length) = (N.rotate (r.latencyCursor % N.length)).map
            fun p => (p.1.isAvailable now).2 := (List.map_rotate _ _ _).symm
      rw [hhead, List.head?_map, List.head?_map,
        List.head?_rotate (Nat.mod_lt _ hpos), List.getElem?_map, Option.map_map, Option.map_map]
      simp only [Function.comp_def, provider_isAvailable]
      exact hback _ fun p hp => List.mem_of_getElem? hp

end ProviderRegistry

/-! ## The average -/

namespace ProviderStats

/-- What is kept after some samples. -/
def afterSamples (window : ℕ) (samples : List ℕ) : ProviderStats :=
  samples.foldl record (new window)

variable {s : ProviderStats} {lo hi rttUs : ℕ} {average : ℚ}

theorem record_of_pos (h : 0 < s.sampleCount) : s.record rttUs =
    { s with
      emaRttUs := (rttUs * 2 + s.emaRttUs * (s.window + 1 - 2)) / (s.window + 1)
      sampleCount := s.sampleCount + 1 } := by
  rw [record, if_neg h.ne']

theorem window_record (s : ProviderStats) (rttUs : ℕ) : (s.record rttUs).window = s.window := by
  unfold record
  split <;> rfl

/-- One more sample, between the same bounds. -/
theorem emaRttUs_record (h : lo ≤ rttUs ∧ rttUs ≤ hi)
    (hs : 0 < s.sampleCount → lo ≤ s.emaRttUs ∧ s.emaRttUs ≤ hi) :
    0 < (s.record rttUs).sampleCount ∧
      lo ≤ (s.record rttUs).emaRttUs ∧ (s.record rttUs).emaRttUs ≤ hi := by
  rcases Nat.eq_zero_or_pos s.sampleCount with hzero | hpos
  · rw [record, if_pos hzero]
    exact ⟨Nat.one_pos, h⟩
  · obtain ⟨hlo, hhi⟩ := hs hpos
    -- the weights of the sample and of the average add up to the divisor
    have hweights : 2 + (s.window + 1 - 2) = s.window + 1 := by
      have hwindow := s.one_le_window
      omega
    rw [record_of_pos hpos]
    refine ⟨Nat.succ_pos _, ?_, ?_⟩
    · rw [Nat.le_div_iff_mul_le (Nat.succ_pos _)]
      calc
        lo * (s.window + 1) = lo * 2 + lo * (s.window + 1 - 2) := by rw [← Nat.mul_add, hweights]
        _ ≤ rttUs * 2 + s.emaRttUs * (s.window + 1 - 2) :=
          Nat.add_le_add (Nat.mul_le_mul_right 2 h.1) (Nat.mul_le_mul_right _ hlo)
    · refine Nat.div_le_of_le_mul ?_
      calc
        rttUs * 2 + s.emaRttUs * (s.window + 1 - 2) ≤ hi * 2 + hi * (s.window + 1 - 2) :=
          Nat.add_le_add (Nat.mul_le_mul_right 2 h.2) (Nat.mul_le_mul_right _ hhi)
        _ = (s.window + 1) * hi := by rw [← Nat.mul_add, hweights, Nat.mul_comm]

/-- **The average is between the least and the greatest sample**, so that it fits into the type of
the samples. -/
theorem emaRttUs_mem_Icc (window lo hi : ℕ) (samples : List ℕ) (hne : samples ≠ [])
    (h : ∀ x ∈ samples, lo ≤ x ∧ x ≤ hi) :
    lo ≤ (afterSamples window samples).emaRttUs ∧
      (afterSamples window samples).emaRttUs ≤ hi := by
  suffices hfold : ∀ (s : ProviderStats) (samples : List ℕ), (∀ x ∈ samples, lo ≤ x ∧ x ≤ hi) →
      (0 < s.sampleCount ∨ samples ≠ []) →
      (0 < s.sampleCount → lo ≤ s.emaRttUs ∧ s.emaRttUs ≤ hi) →
      lo ≤ (samples.foldl record s).emaRttUs ∧ (samples.foldl record s).emaRttUs ≤ hi from
    hfold (new window) samples h (.inr hne) (fun hpos => absurd hpos (Nat.lt_irrefl 0))
  intro s samples
  induction samples generalizing s with
  | nil =>
    intro _ hor hs
    exact hs (hor.resolve_right (fun hne => hne rfl))
  | cons x samples ih =>
    intro h _ hs
    obtain ⟨hpos, hbounds⟩ := emaRttUs_record (h x (List.mem_cons_self ..)) hs
    exact ih (s.record x) (fun y hy => h y (List.mem_cons_of_mem x hy)) (.inl hpos)
      fun _ => hbounds

theorem emaRttUs_mem_Icc_two :
    100 ≤ (afterSamples 20 [100, 300]).emaRttUs ∧ (afterSamples 20 [100, 300]).emaRttUs ≤ 300 :=
  emaRttUs_mem_Icc 20 100 300 [100, 300] (by simp) (by simp)

/-- The average with one more sample, without rounding. -/
def exactNext (window : ℕ) (average : ℚ) (rttUs : ℕ) : ℚ :=
  (2 * rttUs + (window - 1) * average) / (window + 1)

/-- The average of some samples, without rounding. -/
def exactAverage (window : ℕ) : List ℕ → ℚ
  | [] => 0
  | first :: rest => rest.foldl (exactNext window) first

/-- What is lost with one more sample. -/
theorem exactNext_sub_record (hpos : 0 < s.sampleCount) (hle : (s.emaRttUs : ℚ) ≤ average)
    (hsub : average - s.emaRttUs ≤ s.window / 2) :
    ((s.record rttUs).emaRttUs : ℚ) ≤ exactNext s.window average rttUs ∧
      exactNext s.window average rttUs - (s.record rttUs).emaRttUs ≤ s.window / 2 := by
  rw [record_of_pos hpos]
  dsimp only
  set n := rttUs * 2 + s.emaRttUs * (s.window + 1 - 2) with hn
  set w := s.window with hw
  have hone : 1 ≤ w := s.one_le_window
  have hwq : (1 : ℚ) ≤ w := by exact_mod_cast hone
  -- what the division leaves
  have hdiv : (n : ℚ) = (w + 1) * (n / (w + 1) : ℕ) + (n % (w + 1) : ℕ) := by
    exact_mod_cast (Nat.div_add_mod n (w + 1)).symm
  have hmod : ((n % (w + 1) : ℕ) : ℚ) ≤ w := by
    exact_mod_cast Nat.lt_succ_iff.mp (Nat.mod_lt n (Nat.succ_pos w))
  have hnonneg : (0 : ℚ) ≤ (n % (w + 1) : ℕ) := Nat.cast_nonneg _
  have hcast : (n : ℚ) = rttUs * 2 + s.emaRttUs * (w - 1) := by
    rw [hn, show w + 1 - 2 = w - 1 by omega]
    push_cast [Nat.cast_sub hone]
    ring
  have hlost : exactNext w average rttUs - (n / (w + 1) : ℕ) =
      ((w - 1) * (average - s.emaRttUs) + (n % (w + 1) : ℕ)) / (w + 1) := by
    rw [exactNext, eq_div_iff (by linarith), sub_mul, div_mul_cancel₀ _ (by linarith)]
    linarith
  have hpart : 0 ≤ (w - 1) * (average - s.emaRttUs) :=
    mul_nonneg (by linarith) (by linarith)
  constructor
  · have hge : 0 ≤ exactNext w average rttUs - (n / (w + 1) : ℕ) := by
      rw [hlost]
      exact div_nonneg (by linarith) (by linarith)
    linarith
  · rw [hlost, div_le_iff₀ (by linarith)]
    have hbound : ((w : ℚ) - 1) * (average - s.emaRttUs) ≤ (w - 1) * (w / 2) :=
      mul_le_mul_of_nonneg_left hsub (by linarith)
    calc
      (w - 1) * (average - s.emaRttUs) + (n % (w + 1) : ℕ) ≤ (w - 1) * (w / 2) + w := by linarith
      _ = (w : ℚ) / 2 * (w + 1) := by ring

/-- **Rounding loses at most half of the window**, however many samples there are: the average that
is kept is not above the exact one, and not further below it. -/
theorem exactAverage_sub_le (window : ℕ) (samples : List ℕ) :
    ((afterSamples window samples).emaRttUs : ℚ) ≤ exactAverage (new window).window samples ∧
      exactAverage (new window).window samples - (afterSamples window samples).emaRttUs ≤
        (new window).window / 2 := by
  have hhalf : (0 : ℚ) ≤ (new window).window / 2 := by positivity
  rcases samples with - | ⟨first, rest⟩
  · simpa [afterSamples, exactAverage, new] using hhalf
  · suffices hfold : ∀ (s : ProviderStats) (average : ℚ), 0 < s.sampleCount →
        s.window = (new window).window → (s.emaRttUs : ℚ) ≤ average →
        average - s.emaRttUs ≤ s.window / 2 →
        ((rest.foldl record s).emaRttUs : ℚ) ≤ rest.foldl (exactNext s.window) average ∧
          rest.foldl (exactNext s.window) average - (rest.foldl record s).emaRttUs ≤
            s.window / 2 by
      exact hfold ((new window).record first) first Nat.one_pos (window_record _ _) le_rfl
        (by
          rw [window_record]
          simpa [record, new] using hhalf)
    intro s average
    induction rest generalizing s average with
    | nil => exact fun _ _ hle hsub => ⟨hle, hsub⟩
    | cons x rest ih =>
      intro hpos hwindow hle hsub
      obtain ⟨hle', hsub'⟩ := @exactNext_sub_record s x average hpos hle hsub
      have hnext := ih (s.record x) (exactNext s.window average x)
        (by rw [record_of_pos hpos]; exact Nat.succ_pos _)
        ((window_record s x).trans hwindow) hle' (by rwa [window_record])
      rwa [window_record] at hnext

end ProviderStats

/-! ## Taking turns -/

namespace ProviderRegistry

variable {r : ProviderRegistry} {l : List RpcProvider} {es : List Event}

/-- The provider that is asked first, if the providers are asked for. -/
def first (r : ProviderRegistry) : Event → List (Option RpcProvider)
  | .providersByLatency now => [(r.providersByLatency now).1.head?]
  | _ => []

/-- The providers that are asked first in a run. -/
def firsts (r : ProviderRegistry) : List Event → List (Option RpcProvider)
  | [] => []
  | e :: es => r.first e ++ firsts (r.next e) es

/-- Whenever the providers are asked for, the same ones are available, and they are not all warmed
up. -/
def WarmingUp (l : List RpcProvider) (r : ProviderRegistry) : List Event → Prop
  | [] => True
  | e :: es =>
    (∀ now, e = .providersByLatency now → (r.available now).1.map (·.provider) = l ∧
      ((r.available now).1.all fun s => s.stats.isWarmed) = false) ∧ WarmingUp l (r.next e) es

theorem cursor_registerPeer (r : ProviderRegistry) (baseUrl : String)
    (instanceId : Option String) :
    (r.registerPeer baseUrl instanceId).latencyCursor = r.latencyCursor := by
  unfold registerPeer
  dsimp only
  split <;> rfl

theorem cursor_mergeProvider (source : String) (r : ProviderRegistry)
    (p : GossipProviderSnapshot) : (mergeProvider source r p).latencyCursor = r.latencyCursor := by
  unfold mergeProvider getOrInsertProvider
  dsimp only
  split <;> rfl

theorem cursor_foldl {ι : Type} {f : ProviderRegistry → ι → ProviderRegistry}
    (hf : ∀ r x, (f r x).latencyCursor = r.latencyCursor) (xs : List ι) (r : ProviderRegistry) :
    (xs.foldl f r).latencyCursor = r.latencyCursor := by
  induction xs generalizing r with
  | nil => rfl
  | cons x xs ih => exact (ih (f r x)).trans (hf r x)

/-- Only the question for the providers moves the cursor. -/
theorem cursor_next {e : Event} (h : ∀ now, e ≠ .providersByLatency now) :
    (r.next e).latencyCursor = r.latencyCursor := by
  cases e with
  | providersByLatency now => exact absurd rfl (h now)
  | recordRtt url rttUs locked =>
    simp only [next, recordRtt]
    split <;> rfl
  | mergeSnapshot snapshot =>
    simp only [next, mergeSnapshot]
    rw [cursor_foldl (cursor_mergeProvider _), cursor_foldl fun r x => cursor_registerPeer r _ _]
    split
    · exact cursor_registerPeer r _ _
    · rfl
  | reportPeerSuccess baseUrl =>
    simp only [next, reportPeerSuccess]
    exact cursor_registerPeer r _ none
  | reportPeerFailure baseUrl =>
    simp only [next, reportPeerFailure]
    exact cursor_registerPeer r _ none
  | reportSuccess url => simp only [next, reportSuccess]
  | reportFailure url now => simp only [next, reportFailure]
  | isProviderTripped url now => simp only [next]
  | healthyProviders now => simp only [next, healthyProviders, available]

theorem next_providersByLatency {now : ℕ} :
    r.next (.providersByLatency now) = (r.providersByLatency now).2 := by
  simp only [next]

/-- While they are warming up, the first one is the one whose turn it is. -/
theorem providersByLatency_of_cold {now : ℕ} (hne : l ≠ [])
    (hl : (r.available now).1.map (·.provider) = l)
    (hcold : ((r.available now).1.all fun s => s.stats.isWarmed) = false) :
    (r.providersByLatency now).1.head? = Turns.turn l r.latencyCursor ∧
      (r.providersByLatency now).2.latencyCursor = r.latencyCursor + 1 := by
  have hlength : (r.available now).1.length = l.length := by rw [← hl, List.length_map]
  have hpos : 0 < (r.available now).1.length := by
    rw [hlength]
    exact List.length_pos_iff.mpr hne
  have hnonempty : ¬ (r.available now).1.isEmpty = true := by
    rw [List.isEmpty_iff]
    exact List.length_pos_iff.mp hpos
  have hcursor : (r.available now).2.latencyCursor = r.latencyCursor := rfl
  simp only [providersByLatency, if_neg hnonempty, hcold, Bool.false_eq_true, if_false, hcursor,
    and_true]
  rw [List.map_rotate, hl, hlength, List.head?_rotate (Nat.mod_lt _ (by omega))]
  rfl

theorem firsts_eq (hne : l ≠ []) (h : WarmingUp l r es) :
    firsts r es = (List.range (firsts r es).length).map fun k =>
      Turns.turn l (r.latencyCursor + k) := by
  induction es generalizing r with
  | nil => rfl
  | cons e es ih =>
    obtain ⟨he, hrest⟩ := h
    by_cases hask : ∃ now, e = .providersByLatency now
    · obtain ⟨now, rfl⟩ := hask
      obtain ⟨hl, hcold⟩ := he now rfl
      obtain ⟨hhead, hcursor⟩ := providersByLatency_of_cold hne hl hcold
      have hnext : (r.next (.providersByLatency now)).latencyCursor = r.latencyCursor + 1 := by
        rw [next_providersByLatency, hcursor]
      rw [firsts, first, hhead, List.singleton_append, List.length_cons, List.range_succ_eq_map,
        List.map_cons, List.map_map]
      refine congrArg _ ((ih hrest).trans ?_)
      rw [hnext]
      refine List.map_congr_left fun k _ => ?_
      rw [Function.comp_apply, Nat.add_assoc, Nat.add_comm 1 k]
    · have hnot : ∀ now, e ≠ .providersByLatency now := fun now heq => hask ⟨now, heq⟩
      have hfirsts : firsts r (e :: es) = firsts (r.next e) es := by
        have hnil : r.first e = [] := by
          cases e with
          | providersByLatency now => exact absurd rfl (hnot now)
          | _ => rfl
        rw [firsts, hnil, List.nil_append]
      rw [hfirsts, ← cursor_next hnot]
      exact ih hrest

/-- **Taking turns**: while the same providers are available and they are not all warmed up, each of
them is asked first equally often, whatever else happens in between. -/
theorem count_firsts (l : List RpcProvider) (r : ProviderRegistry) (es : List Event) (m : ℕ)
    (hne : l ≠ []) (hwarming : WarmingUp l r es) (hlength : (firsts r es).length = m * l.length)
    (p : RpcProvider) : (firsts r es).count (some p) = m * l.count p := by
  rw [firsts_eq hne hwarming, hlength]
  exact Turns.count_map_turn l r.latencyCursor m p

def coldProvider (url : String) : RpcProvider := ⟨url, url, none, none, none⟩

/-- Two providers without samples. -/
def twoCold : ProviderRegistry :=
  .newWithConfig [coldProvider "a", coldProvider "b"] ⟨"local", none, []⟩

theorem count_firsts_twoCold :
    (firsts twoCold [.providersByLatency 0, .reportFailure "a" 5, .providersByLatency 10]).count
      (some (coldProvider "a")) = 1 * [coldProvider "a", coldProvider "b"].count
        (coldProvider "a") := by
  refine count_firsts [coldProvider "a", coldProvider "b"] twoCold _ 1 (by simp) ?_ rfl _
  refine ⟨fun now h => ?_, fun now h => ?_, fun now h => ?_, trivial⟩
  · cases h
    exact ⟨by decide +kernel, by decide +kernel⟩
  · cases h
  · cases h
    exact ⟨by decide +kernel, by decide +kernel⟩

end ProviderRegistry

end Core.Providers
