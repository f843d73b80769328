import SkyMoonScope.ConcentratedAmm.Effects

/-!
# The next tick in use

A swap asks for the next tick in use in its direction, and looks no further than the word of the
bitmap in which it starts. The search is for the numbers of the ticks. For a positive spacing they
go up with the ticks, and the search does what it should. A pool may have a negative spacing, since
the call that creates it does not check it; then the search goes the other way.

## Main definitions

* `nextInitializedTickWithinOneWordChecked`: the search with every operator checked
* `Start`, `SameWord`: where a search starts, and the ticks of its word
* `NextTick`: the tick that a search should return
* `SearchRight s`: with the spacing `s` every search returns this tick

## Main results

* `nextTick_of_returns`: with a positive spacing the right tick is returned
* `returns_checked_iff`: for the ticks of a pool no operator within the search overflows
* `searchRight_iff`: the search is right exactly with a positive spacing
-/

namespace ConcentratedAmm

open Soroban

variable {Address Tokens : Type}

/-! ## The search with every operator checked -/

/-- The number of the tick. -/
def compressChecked (tick tickSpacing : ℤ) : Body Address Tokens ℤ := do
  require (tickSpacing ≠ 0) (.trap "attempt to divide by zero")
  let quotient ← plainI32 (tick.tdiv tickSpacing)
  if tick < 0 ∧ tick.tmod tickSpacing ≠ 0 then plainI32 (quotient - 1) else pure quotient

/-- The next tick in use, down or up, or the bound of the word where it has none. -/
def nextInitializedTickWithinOneWordChecked (tick tickSpacing : ℤ) (lte : Bool) :
    Body Address Tokens (ℤ × Bool) := do
  let compressed ← compressChecked tick tickSpacing
  let s ← storage
  if lte then
    let first ← plainI32 (compressed / 64 * 64)
    match Bitmap.lastUpTo s.tickBitmap compressed with
    | some found => do
      let number ← plainI32 found
      let next ← plainI32 (number * tickSpacing)
      pure (next, true)
    | none => do
      let next ← plainI32 (first * tickSpacing)
      pure (next, false)
  else
    let compressedNext ← plainI32 (compressed + 1)
    match Bitmap.firstFrom s.tickBitmap compressedNext with
    | some found => do
      let _ ← plainI32 (compressedNext / 64 * 64)
      let number ← plainI32 found
      let next ← plainI32 (number * tickSpacing)
      pure (next, true)
    | none => do
      let after ← plainI32 ((compressedNext / 64 + 1) * 64)
      let next ← plainI32 ((after - 1) * tickSpacing)
      pure (next, false)

/-! ## The tick that should be returned -/

/-- The ticks in the direction of a search. -/
def InDirection (tick : ℤ) (lte : Bool) (t : ℤ) : Prop := if lte then t ≤ tick else tick < t

/-- In the direction of a search the first tick is no farther than the second. -/
def NoFarther (lte : Bool) (t u : ℤ) : Prop := if lte then u ≤ t else t ≤ u

/-- The nearest tick in the direction of the search that has a bit. -/
structure Start (tick tickSpacing : ℤ) (lte : Bool) (start : ℤ) : Prop where
  dvd : tickSpacing ∣ start
  inDirection : InDirection tick lte start
  nearest : ∀ t, tickSpacing ∣ t → InDirection tick lte t → NoFarther lte start t

/-- The bit of the tick is in the word of the start. -/
def SameWord (tickSpacing start t : ℤ) : Prop :=
  tickSpacing ∣ t ∧ t.tdiv tickSpacing / 64 = start.tdiv tickSpacing / 64

/-- The tick that a search should return: the nearest one of the word whose bit is set, or where
there is none the last one of the word. -/
inductive NextTick (bitmap : ℤ → ℕ) (tick tickSpacing : ℤ) (lte : Bool) : ℤ → Bool → Prop
  | found {start next : ℤ} : Start tick tickSpacing lte start → SameWord tickSpacing start next →
      InDirection tick lte next → Bitmap.mem bitmap (next.tdiv tickSpacing) = true →
      (∀ t, SameWord tickSpacing start t → InDirection tick lte t →
        Bitmap.mem bitmap (t.tdiv tickSpacing) = true → NoFarther lte next t) →
      NextTick bitmap tick tickSpacing lte next true
  | boundary {start next : ℤ} : Start tick tickSpacing lte start →
      SameWord tickSpacing start next →
      (∀ t, SameWord tickSpacing start t → NoFarther lte t next) →
      (∀ t, SameWord tickSpacing start t → InDirection tick lte t →
        Bitmap.mem bitmap (t.tdiv tickSpacing) = false) →
      NextTick bitmap tick tickSpacing lte next false

/-- The values of an `i32`. -/
def IsI32 (x : ℤ) : Prop := -2 ^ 31 ≤ x ∧ x < 2 ^ 31

/-- The ticks of the word in which the search starts, and the one after each of them, are values of
an `i32`. -/
def WordFits (tick tickSpacing : ℤ) (lte : Bool) : Prop :=
  ∀ start t, Start tick tickSpacing lte start → SameWord tickSpacing start t →
    IsI32 t ∧ IsI32 (t + tickSpacing)

/-- With this spacing a search returns only the tick that it should, and it returns where all
ticks of its word are values of an `i32`. -/
def SearchRight (tickSpacing : ℤ) : Prop :=
  ∀ (Address Tokens : Type) (c : Session Address Tokens) (tick : ℤ) (lte : Bool), IsI32 tick →
    (∀ next initialized c',
      Returns (nextInitializedTickWithinOneWordChecked tick tickSpacing lte) c
        (next, initialized) c' →
      NextTick c.storage.tickBitmap tick tickSpacing lte next initialized) ∧
    (WordFits tick tickSpacing lte → ∃ result,
      Returns (nextInitializedTickWithinOneWordChecked tick tickSpacing lte) c result c)

variable {tick tickSpacing next t : ℤ} {lte initialized : Bool} {c c' : Session Address Tokens}
  {result : ℤ × Bool} {α : Type}

/-! ## The search with a positive spacing -/

section Positive

variable (hspacing : 0 < tickSpacing)

include hspacing

theorem start_down : Start tick tickSpacing true (tick / tickSpacing * tickSpacing) where
  dvd := Dvd.intro_left _ rfl
  inDirection := Int.ediv_mul_le tick hspacing.ne'
  nearest := by
    rintro t ⟨k, rfl⟩ hle
    rw [InDirection, if_pos rfl, mul_comm, ← Int.le_ediv_iff_mul_le hspacing] at hle
    rw [NoFarther, if_pos rfl, mul_comm]
    exact mul_le_mul_of_nonneg_right hle hspacing.le

theorem start_up : Start tick tickSpacing false ((tick / tickSpacing + 1) * tickSpacing) where
  dvd := Dvd.intro_left _ rfl
  inDirection := by
    have hlt : tick / tickSpacing < tick / tickSpacing + 1 := lt_add_one _
    rwa [Int.ediv_lt_iff_lt_mul hspacing] at hlt
  nearest := by
    rintro t ⟨k, rfl⟩ hlt
    rw [InDirection, if_neg (by decide), mul_comm, ← Int.ediv_lt_iff_lt_mul hspacing] at hlt
    rw [NoFarther, if_neg (by decide), mul_comm tickSpacing]
    exact mul_le_mul_of_nonneg_right hlt hspacing.le

/-- The ticks of a word are the multiples of the spacing by its numbers. -/
theorem sameWord_mul {k : ℤ} :
    SameWord tickSpacing (k * tickSpacing) t ↔ ∃ j, t = j * tickSpacing ∧ j / 64 = k / 64 := by
  rw [SameWord, Int.mul_tdiv_cancel k hspacing.ne']
  constructor
  · rintro ⟨⟨j, rfl⟩, hword⟩
    rw [Int.mul_tdiv_cancel_left j hspacing.ne'] at hword
    exact ⟨j, mul_comm _ _, hword⟩
  · rintro ⟨j, rfl, hword⟩
    exact ⟨Dvd.intro_left _ rfl, by rwa [Int.mul_tdiv_cancel j hspacing.ne']⟩

/-- **The search down** returns the right tick. -/
theorem nextTick_down
    (h : Returns (nextInitializedTickWithinOneWord tick tickSpacing true) c
      (next, initialized) c') :
    NextTick c.storage.tickBitmap tick tickSpacing true next initialized := by
  simp only [nextInitializedTickWithinOneWord, returns_require_bind, returns_storage_bind,
    if_true, compress_eq hspacing] at h
  obtain ⟨-, h⟩ := h
  split at h
  next found hfound =>
    rw [returns_plainI32_bind, returns_pure, Prod.mk.injEq] at h
    obtain ⟨-, ⟨rfl, rfl⟩, -⟩ := h
    obtain ⟨hmem, hle, hnone⟩ := Bitmap.lastUpTo_eq_some hfound
    refine .found (start_down hspacing)
      ((sameWord_mul hspacing).mpr ⟨found, rfl, Bitmap.lastUpTo_word hfound⟩)
      ((Int.le_ediv_iff_mul_le hspacing).mp hle) ?_ ?_
    · rwa [Int.mul_tdiv_cancel found hspacing.ne']
    · intro t hword hahead hbit
      obtain ⟨j, rfl, -⟩ := (sameWord_mul hspacing).mp hword
      rw [Int.mul_tdiv_cancel j hspacing.ne'] at hbit
      by_contra hfar
      rw [NoFarther, if_pos rfl, not_le] at hfar
      have hclear := hnone j (lt_of_mul_lt_mul_right hfar hspacing.le)
        ((Int.le_ediv_iff_mul_le hspacing).mpr hahead)
      rw [hclear] at hbit
      cases hbit
  next hnone =>
    rw [returns_plainI32_bind, returns_pure, Prod.mk.injEq] at h
    obtain ⟨-, ⟨rfl, rfl⟩, -⟩ := h
    refine .boundary (start_down hspacing)
      ((sameWord_mul hspacing).mpr ⟨_, rfl, by omega⟩) ?_ ?_
    · intro t hword
      obtain ⟨j, rfl, hj⟩ := (sameWord_mul hspacing).mp hword
      exact mul_le_mul_of_nonneg_right (by omega) hspacing.le
    · intro t hword hahead
      obtain ⟨j, rfl, hj⟩ := (sameWord_mul hspacing).mp hword
      rw [Int.mul_tdiv_cancel j hspacing.ne']
      exact Bitmap.lastUpTo_eq_none hnone hj ((Int.le_ediv_iff_mul_le hspacing).mpr hahead)

/-- **The search up** returns the right tick. -/
theorem nextTick_up
    (h : Returns (nextInitializedTickWithinOneWord tick tickSpacing false) c
      (next, initialized) c') :
    NextTick c.storage.tickBitmap tick tickSpacing false next initialized := by
  simp only [nextInitializedTickWithinOneWord, returns_require_bind, returns_storage_bind,
    Bool.false_eq_true, if_false, compress_eq hspacing] at h
  obtain ⟨-, h⟩ := h
  split at h
  next found hfound =>
    rw [returns_plainI32_bind, returns_pure, Prod.mk.injEq] at h
    obtain ⟨-, ⟨rfl, rfl⟩, -⟩ := h
    obtain ⟨hmem, hle, hnone⟩ := Bitmap.firstFrom_eq_some hfound
    refine .found (start_up hspacing)
      ((sameWord_mul hspacing).mpr ⟨found, rfl, Bitmap.firstFrom_word hfound⟩)
      ((Int.ediv_lt_iff_lt_mul hspacing).mp (by omega)) ?_ ?_
    · rwa [Int.mul_tdiv_cancel found hspacing.ne']
    · intro t hword hahead hbit
      obtain ⟨j, rfl, -⟩ := (sameWord_mul hspacing).mp hword
      rw [Int.mul_tdiv_cancel j hspacing.ne'] at hbit
      by_contra hfar
      rw [NoFarther, if_neg (by decide), not_le] at hfar
      have hclear := hnone j ((Int.ediv_lt_iff_lt_mul hspacing).mpr hahead)
        (lt_of_mul_lt_mul_right hfar hspacing.le)
      rw [hclear] at hbit
      cases hbit
  next hnone =>
    rw [returns_plainI32_bind, returns_pure, Prod.mk.injEq] at h
    obtain ⟨-, ⟨rfl, rfl⟩, -⟩ := h
    refine .boundary (start_up hspacing)
      ((sameWord_mul hspacing).mpr ⟨_, rfl, by omega⟩) ?_ ?_
    · intro t hword
      obtain ⟨j, rfl, hj⟩ := (sameWord_mul hspacing).mp hword
      exact mul_le_mul_of_nonneg_right (by omega) hspacing.le
    · intro t hword hahead
      obtain ⟨j, rfl, hj⟩ := (sameWord_mul hspacing).mp hword
      rw [Int.mul_tdiv_cancel j hspacing.ne']
      exact Bitmap.firstFrom_eq_none hnone hj ((Int.ediv_lt_iff_lt_mul hspacing).mpr hahead)

theorem nextTick_of_returns
    (h : Returns (nextInitializedTickWithinOneWord tick tickSpacing lte) c
      (next, initialized) c') :
    NextTick c.storage.tickBitmap tick tickSpacing lte next initialized := by
  cases lte with
  | true => exact nextTick_down hspacing h
  | false => exact nextTick_up hspacing h

end Positive

/-! ## The checks -/

theorem returns_compressChecked_bind {f : ℤ → Body Address Tokens α} {v : α} :
    Returns (compressChecked tick tickSpacing >>= f) c v c' ↔
      tickSpacing ≠ 0 ∧ IsI32 (tick.tdiv tickSpacing) ∧ IsI32 (compress tick tickSpacing) ∧
        Returns (f (compress tick tickSpacing)) c v c' := by
  simp only [compressChecked, bind_assoc, returns_require_bind, returns_plainI32_bind]
  unfold compress IsI32
  split
  · rw [returns_plainI32_bind]
  · rw [pure_bind]
    constructor
    · rintro ⟨hne, hfits, h⟩
      exact ⟨hne, hfits, hfits, h⟩
    · rintro ⟨hne, hfits, -, h⟩
      exact ⟨hne, hfits, h⟩

/-- The numbers that the search comes across. -/
structure NumbersFit (tick tickSpacing : ℤ) (lte : Bool) : Prop where
  quotient : IsI32 (tick.tdiv tickSpacing)
  compressed : IsI32 (compress tick tickSpacing)
  word : ∀ k, k / 64 = (if lte then compress tick tickSpacing
      else compress tick tickSpacing + 1) / 64 →
    IsI32 k ∧ IsI32 (k + 1)

/-- What the checked search returns, the search returns. -/
theorem returns_of_checked
    (h : Returns (nextInitializedTickWithinOneWordChecked tick tickSpacing lte) c result c') :
    Returns (nextInitializedTickWithinOneWord tick tickSpacing lte) c result c' := by
  rw [nextInitializedTickWithinOneWordChecked, returns_compressChecked_bind,
    returns_storage_bind] at h
  obtain ⟨hne, -, -, h⟩ := h
  rw [nextInitializedTickWithinOneWord, returns_require_bind, returns_storage_bind]
  refine ⟨hne, ?_⟩
  dsimp only
  cases lte with
  | true =>
    rw [if_pos rfl, returns_plainI32_bind] at h
    rw [if_pos rfl]
    obtain ⟨-, h⟩ := h
    rcases hfound : Bitmap.lastUpTo c.storage.tickBitmap (compress tick tickSpacing) with
      - | found
    · rw [hfound] at h
      exact h
    · rw [hfound] at h
      dsimp only at h
      rw [returns_plainI32_bind] at h
      exact h.2
  | false =>
    rw [if_neg (by decide), returns_plainI32_bind] at h
    rw [if_neg (by decide)]
    obtain ⟨-, h⟩ := h
    rcases hfound : Bitmap.firstFrom c.storage.tickBitmap (compress tick tickSpacing + 1) with
      - | found
    · rw [hfound] at h
      dsimp only at h
      rw [returns_plainI32_bind] at h
      exact h.2
    · rw [hfound] at h
      dsimp only at h
      rw [returns_plainI32_bind, returns_plainI32_bind] at h
      exact h.2.2

/-- Where the numbers fit, the search that is checked returns whatever the search does. -/
theorem checked_of_returns (hfit : NumbersFit tick tickSpacing lte)
    (h : Returns (nextInitializedTickWithinOneWord tick tickSpacing lte) c result c') :
    Returns (nextInitializedTickWithinOneWordChecked tick tickSpacing lte) c result c' := by
  rw [nextInitializedTickWithinOneWord, returns_require_bind, returns_storage_bind] at h
  obtain ⟨hne, h⟩ := h
  rw [nextInitializedTickWithinOneWordChecked, returns_compressChecked_bind, returns_storage_bind]
  refine ⟨hne, hfit.quotient, hfit.compressed, ?_⟩
  dsimp only at h ⊢
  have hword := hfit.word
  cases lte with
  | true =>
    rw [if_pos rfl] at h hword
    rw [if_pos rfl, returns_plainI32_bind]
    refine ⟨(hword _ (by omega)).1, ?_⟩
    rcases hfound : Bitmap.lastUpTo c.storage.tickBitmap (compress tick tickSpacing) with
      - | found
    · rw [hfound] at h
      exact h
    · rw [hfound] at h
      dsimp only
      rw [returns_plainI32_bind]
      exact ⟨(hword found (Bitmap.lastUpTo_word hfound)).1, h⟩
  | false =>
    rw [if_neg (by decide)] at h hword
    rw [if_neg (by decide), returns_plainI32_bind]
    refine ⟨(hword _ rfl).1, ?_⟩
    rcases hfound : Bitmap.firstFrom c.storage.tickBitmap (compress tick tickSpacing + 1) with
      - | found
    · rw [hfound] at h
      dsimp only
      rw [returns_plainI32_bind]
      -- the number after the last one of the word
      have hlast := (hword ((compress tick tickSpacing + 1) / 64 * 64 + 63) (by omega)).2
      have hafter : ((compress tick tickSpacing + 1) / 64 + 1) * 64 =
          (compress tick tickSpacing + 1) / 64 * 64 + 63 + 1 := by ring
      exact ⟨hafter ▸ hlast, h⟩
    · rw [hfound] at h
      dsimp only
      rw [returns_plainI32_bind, returns_plainI32_bind]
      exact ⟨(hword _ (by omega)).1, (hword found (Bitmap.firstFrom_word hfound)).1, h⟩

theorem isI32_of_mul {k : ℤ} (hspacing : 0 < tickSpacing) (h : IsI32 (k * tickSpacing)) :
    IsI32 k := by
  obtain ⟨hlo, hhi⟩ := h
  constructor
  · by_contra hlt
    nlinarith
  · by_contra hge
    nlinarith

theorem isI32_tdiv (hspacing : 0 < tickSpacing) (htick : IsI32 tick) :
    IsI32 (tick.tdiv tickSpacing) := by
  obtain ⟨hlo, hhi⟩ := htick
  have hle := Int.natAbs_tdiv_le_natAbs tick tickSpacing
  rcases le_or_gt 0 tick with hnonneg | hneg
  · have hpos := Int.tdiv_nonneg hnonneg hspacing.le
    exact ⟨by omega, by omega⟩
  · have hpos := Int.tdiv_nonneg (neg_nonneg.mpr hneg.le) hspacing.le
    rw [Int.neg_tdiv] at hpos
    exact ⟨by omega, by omega⟩

theorem isI32_compress (hspacing : 0 < tickSpacing) (htick : IsI32 tick) :
    IsI32 (compress tick tickSpacing) := by
  obtain ⟨hlo, hhi⟩ := htick
  rw [compress_eq hspacing]
  constructor
  · rw [Int.le_ediv_iff_mul_le hspacing]
    nlinarith
  · rw [Int.ediv_lt_iff_lt_mul hspacing]
    nlinarith

/-- For a tick of a pool, and the one below its range to which a swap may go, no number within the
search overflows. -/
theorem returns_checked_iff (hlo : minTick - 1 ≤ tick) (hhi : tick ≤ maxTick) :
    Returns (nextInitializedTickWithinOneWordChecked tick tickSpacing lte) c result c' ↔
      Returns (nextInitializedTickWithinOneWord tick tickSpacing lte) c result c' := by
  refine ⟨returns_of_checked, checked_of_returns ?_⟩
  have hquotient := Int.natAbs_tdiv_le_natAbs tick tickSpacing
  have hcompressed : compress tick tickSpacing = tick.tdiv tickSpacing - 1 ∨
      compress tick tickSpacing = tick.tdiv tickSpacing := by
    unfold compress
    split
    · exact .inl rfl
    · exact .inr rfl
  unfold minTick at hlo
  unfold maxTick at hhi
  refine ⟨⟨by omega, by omega⟩, ⟨by omega, by omega⟩, fun k hk => ?_⟩
  cases lte with
  | true =>
    rw [if_pos rfl] at hk
    exact ⟨⟨by omega, by omega⟩, ⟨by omega, by omega⟩⟩
  | false =>
    rw [if_neg (by decide)] at hk
    exact ⟨⟨by omega, by omega⟩, ⟨by omega, by omega⟩⟩

/-! ## Where the search is right -/

/-- Where the ticks of the word fit, so do the numbers. -/
theorem numbersFit_of_wordFits (hspacing : 0 < tickSpacing) (htick : IsI32 tick)
    (hfits : WordFits tick tickSpacing lte) : NumbersFit tick tickSpacing lte := by
  refine ⟨isI32_tdiv hspacing htick, isI32_compress hspacing htick, fun k hk => ?_⟩
  have hticks : IsI32 (k * tickSpacing) ∧ IsI32 (k * tickSpacing + tickSpacing) := by
    rw [compress_eq hspacing] at hk
    cases lte with
    | true => exact hfits _ _ (start_down hspacing) ((sameWord_mul hspacing).mpr ⟨k, rfl, hk⟩)
    | false => exact hfits _ _ (start_up hspacing) ((sameWord_mul hspacing).mpr ⟨k, rfl, hk⟩)
  refine ⟨isI32_of_mul hspacing hticks.1, isI32_of_mul hspacing ?_⟩
  rw [add_mul, one_mul]
  exact hticks.2

/-- Where the ticks of the word fit, the search returns. -/
theorem exists_returns (hspacing : 0 < tickSpacing) (hfits : WordFits tick tickSpacing lte) :
    ∃ result, Returns (nextInitializedTickWithinOneWord tick tickSpacing lte) c result c := by
  cases lte with
  | true =>
    have hword : ∀ k, k / 64 = compress tick tickSpacing / 64 → IsI32 (k * tickSpacing) := by
      intro k hk
      rw [compress_eq hspacing] at hk
      exact (hfits _ _ (start_down hspacing) ((sameWord_mul hspacing).mpr ⟨k, rfl, hk⟩)).1
    simp only [nextInitializedTickWithinOneWord, returns_require_bind, returns_storage_bind,
      if_true]
    split
    next found hfound =>
      refine ⟨(found * tickSpacing, true), hspacing.ne', ?_⟩
      rw [returns_plainI32_bind, returns_pure]
      exact ⟨hword found (Bitmap.lastUpTo_word hfound), rfl, rfl⟩
    next =>
      refine ⟨(compress tick tickSpacing / 64 * 64 * tickSpacing, false), hspacing.ne', ?_⟩
      rw [returns_plainI32_bind, returns_pure]
      exact ⟨hword _ (by omega), rfl, rfl⟩
  | false =>
    have hword : ∀ k, k / 64 = (compress tick tickSpacing + 1) / 64 →
        IsI32 (k * tickSpacing) := by
      intro k hk
      rw [compress_eq hspacing] at hk
      exact (hfits _ _ (start_up hspacing) ((sameWord_mul hspacing).mpr ⟨k, rfl, hk⟩)).1
    simp only [nextInitializedTickWithinOneWord, returns_require_bind, returns_storage_bind,
      Bool.false_eq_true, if_false]
    split
    next found hfound =>
      refine ⟨(found * tickSpacing, true), hspacing.ne', ?_⟩
      rw [returns_plainI32_bind, returns_pure]
      exact ⟨hword found (Bitmap.firstFrom_word hfound), rfl, rfl⟩
    next =>
      refine ⟨((((compress tick tickSpacing + 1) / 64 + 1) * 64 - 1) * tickSpacing, false),
        hspacing.ne', ?_⟩
      rw [returns_plainI32_bind, returns_pure]
      exact ⟨hword _ (by omega), rfl, rfl⟩

theorem searchRight_of_pos (hspacing : 0 < tickSpacing) : SearchRight tickSpacing := by
  intro Address Tokens c tick lte htick
  refine ⟨fun next initialized c' h => nextTick_of_returns hspacing (returns_of_checked h), ?_⟩
  intro hfits
  obtain ⟨result, h⟩ := exists_returns hspacing hfits
  exact ⟨result, checked_of_returns (numbersFit_of_wordFits hspacing htick hfits) h⟩

/-- A bitmap with the tick 0 alone. -/
def onlyZero : Session Unit Unit where
  storage := { State.initial with tickBitmap := fun k => if k = 0 then 1 else 0 }
  tokens := ()

/-- With a negative spacing the search down from the tick with the number 1 finds the tick 0, which
is above it. -/
theorem not_searchRight_of_neg (hneg : tickSpacing < 0) (hspacing : IsI32 tickSpacing) :
    ¬ SearchRight tickSpacing := by
  intro h
  have hcompress : compress tickSpacing tickSpacing = 1 := by
    rw [compress, Int.tmod_self, if_neg (fun h => h.2 rfl), Int.tdiv_self hneg.ne]
  have hfound : Bitmap.lastUpTo onlyZero.storage.tickBitmap 1 = some 0 := by decide
  have hreturns : Returns (nextInitializedTickWithinOneWordChecked tickSpacing tickSpacing true)
      onlyZero (0, true) onlyZero := by
    rw [nextInitializedTickWithinOneWordChecked, returns_compressChecked_bind,
      returns_storage_bind, hcompress, Int.tdiv_self hneg.ne]
    refine ⟨hneg.ne, ⟨by decide, by decide⟩, ⟨by decide, by decide⟩, ?_⟩
    rw [if_pos rfl, returns_plainI32_bind, hfound]
    dsimp only
    rw [returns_plainI32_bind, returns_plainI32_bind, zero_mul, returns_pure]
    exact ⟨by decide, by decide, by decide, rfl, rfl⟩
  have hnext := (h Unit Unit onlyZero tickSpacing true hspacing).1 0 true onlyZero hreturns
  cases hnext with
  | found _ _ hahead _ _ => exact absurd hahead (not_le.mpr hneg)

theorem not_searchRight_zero : ¬ SearchRight 0 := by
  intro h
  have hfits : WordFits 0 0 true := by
    rintro start t hstart ⟨hdvd, -⟩
    obtain rfl := zero_dvd_iff.mp hdvd
    exact ⟨⟨by decide, by decide⟩, ⟨by decide, by decide⟩⟩
  obtain ⟨result, hreturns⟩ :=
    (h Unit Unit onlyZero 0 true ⟨by decide, by decide⟩).2 hfits
  exact spacing_ne_zero (returns_of_checked hreturns) rfl

/-- **The search is right** for every bitmap, tick and direction exactly with a positive spacing. -/
theorem searchRight_iff (hspacing : IsI32 tickSpacing) :
    SearchRight tickSpacing ↔ 0 < tickSpacing := by
  constructor
  · intro h
    by_contra hle
    rcases (not_lt.mp hle).lt_or_eq with hneg | rfl
    · exact not_searchRight_of_neg hneg hspacing h
    · exact not_searchRight_zero h
  · exact searchRight_of_pos

theorem searchRight_iff_ten : IsI32 10 ∧ (SearchRight 10 ↔ (0 : ℤ) < 10) := by
  have hten : IsI32 10 := ⟨by decide, by decide⟩
  exact ⟨hten, searchRight_iff hten⟩

/-- Down from the tick -10, with the spacing -10, the search returns the tick 0. -/
theorem not_searchRight_neg_ten : ¬ SearchRight (-10) :=
  not_searchRight_of_neg (by decide) ⟨by decide, by decide⟩

end ConcentratedAmm
