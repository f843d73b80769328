import SkyMoonScope.ConcentratedAmm.Effects
import SkyMoonScope.Lib.Intervals

/-!
# The liquidity of the concentrated AMM

The liquidity of the positions are weights on the intervals of ticks between their bounds. A tick
keeps the weight of its bounds, with and without sign, the bitmap tells whether there is any, and
the pool keeps the weight around the current tick. A mint and a burn change one weight; a swap
changes none and moves the current tick over bounds, one at a time.

The casts of a liquidity to `i128` wrap from 2¹²⁷ on and the sums of gross and of active liquidity
saturate at the end of the type, and the spacing of the ticks may be negative, where the search for
the next tick goes the wrong way. The invariant is that of the calls that meet none of this.

## Main definitions

* `State.liquidityOf`: the weights
* `Agrees s`: what the ticks, the bitmap and the pool keep is what the positions have
* `Meets`: a call that wraps and saturates nothing, on ticks with a positive spacing

## Main results

* `Ticked.change`: a change of a weight and of the ticks at its bounds
* `Follows.round`: a round of a swap takes the active liquidity along
* `liquidity_agrees`: the invariant, along every run of such calls
-/

namespace ConcentratedAmm

open Soroban Machine Accounts Intervals Function

variable {Address Tokens : Type}

/-- The liquidity of a position. -/
def State.liquidityOf (s : State Address) (key : PositionKey Address) : ℤ :=
  ((s.position key).elim 0 PositionInfo.liquidity : ℕ)

/-- The gross liquidity that the positions give to a tick. -/
noncomputable abbrev gross (w : PositionKey Address → ℤ) (t : ℤ) : ℤ :=
  grossAt PositionKey.tickLower PositionKey.tickUpper w t

/-- The net liquidity that the positions give to a tick. -/
noncomputable abbrev net (w : PositionKey Address → ℤ) (t : ℤ) : ℤ :=
  netAt PositionKey.tickLower PositionKey.tickUpper w t

/-- The liquidity of the positions around a tick. -/
noncomputable abbrev active (w : PositionKey Address → ℤ) (t : ℤ) : ℤ :=
  coverage PositionKey.tickLower PositionKey.tickUpper w t

/-- The ticks and the bitmap keep what the weights give them. -/
structure Ticked (tickSpacing : ℤ) (w : PositionKey Address → ℤ) (s : State Address) : Prop where
  gross_eq : ∀ t, ((s.tickAt t).liquidityGross : ℤ) = gross w t
  net_eq : ∀ t, (s.tickAt t).liquidityNet = net w t
  bit_iff : ∀ t, tickSpacing ∣ t →
    (Bitmap.mem s.tickBitmap (t.tdiv tickSpacing) = true ↔ (s.tickAt t).liquidityGross ≠ 0)

/-- Only the ticks and the bitmap matter. -/
theorem Ticked.congr {tickSpacing : ℤ} {w : PositionKey Address → ℤ} {s t : State Address}
    (h : Ticked tickSpacing w s) (htick : t.tick = s.tick)
    (hbitmap : t.tickBitmap = s.tickBitmap) : Ticked tickSpacing w t := by
  have hat : t.tickAt = s.tickAt := by
    funext u
    rw [State.tickAt, State.tickAt, htick]
  refine ⟨fun u => ?_, fun u => ?_, fun u hu => ?_⟩
  · rw [hat, h.gross_eq]
  · rw [hat, h.net_eq]
  · rw [hat, hbitmap, h.bit_iff u hu]

/-! ## A change of a weight -/

section Change

variable {tick currentTick delta tickSpacing : ℤ} {fg0 fg1 : ℕ} {isUpper : Bool}
  {info after : TickInfo}

theorem gross_kept : (info.kept.getD TickInfo.new).liquidityGross = info.liquidityGross := by
  unfold TickInfo.kept
  split
  next hzero => exact hzero.symm
  next hzero => rfl

theorem net_kept : (info.kept.getD TickInfo.new).liquidityNet =
    if info.liquidityGross = 0 then 0 else info.liquidityNet := by
  unfold TickInfo.kept
  split <;> rfl

/-- A gross liquidity neither below zero nor beyond the type is the sum. -/
theorem cast_grossAfter {g : ℕ} (hneg : -delta ≤ g) (hfit : g + delta < 2 ^ 128) :
    (grossAfter g delta : ℤ) = g + delta := by
  unfold grossAfter saturatingAdd u128Max
  split <;> omega

theorem mem_flipIf {flipped : Bool} {w : ℤ → ℕ} {d : ℤ} :
    Bitmap.mem (flipIf flipped tick tickSpacing w) d =
      (Bitmap.mem w d ^^ (flipped && decide (d = tick.tdiv tickSpacing))) := by
  unfold flipIf
  cases flipped
  · simp
  · rw [if_pos rfl, Bitmap.mem_flip]
    by_cases hd : d = tick.tdiv tickSpacing <;> simp [hd]

/-- A bit that says whether a value is zero says so of another one, once it is flipped where the two
differ in that. -/
theorem xor_flipped {bit flipped : Bool} {g g' : ℕ} (hbit : bit = true ↔ g ≠ 0)
    (hflipped : flipped = true ↔ (g = 0 ↔ g' ≠ 0)) : (bit ^^ flipped) = true ↔ g' ≠ 0 := by
  cases bit <;> cases flipped <;> simp at hbit hflipped ⊢ <;> grind

/-- Ticks that have a bit of their own have different bits. -/
theorem tdiv_inj {t u : ℤ} (ht : tickSpacing ∣ t) (hu : tickSpacing ∣ u) :
    t.tdiv tickSpacing = u.tdiv tickSpacing ↔ t = u := by
  constructor
  · intro h
    rw [← Int.tdiv_mul_cancel ht, ← Int.tdiv_mul_cancel hu, h]
  · exact fun h => h ▸ rfl

variable {w : PositionKey Address → ℤ} {key : PositionKey Address} {t : ℤ} {s : State Address}

/-- The gross liquidity of a bound of a position is at least the liquidity of the position. -/
theorem le_gross (hw : w.HasFiniteSupport) (hnonneg : ∀ k, 0 ≤ w k)
    (key : PositionKey Address) (ht : t = key.tickLower ∨ t = key.tickUpper) :
    w key ≤ gross w t := by
  have hterm := le_weigh (φ := fun k => boundAt PositionKey.tickLower t k +
    boundAt PositionKey.tickUpper t k) hw
    (fun k => add_nonneg (boundAt_nonneg k) (boundAt_nonneg k)) hnonneg key
  refine le_trans ?_ hterm
  have hone : 1 ≤ boundAt PositionKey.tickLower t key + boundAt PositionKey.tickUpper t key := by
    unfold boundAt
    grind
  nlinarith [hnonneg key]

variable [DecidableEq Address]

theorem gross_credit (hw : w.HasFiniteSupport) (hlt : key.tickLower < key.tickUpper) :
    gross (credit w key delta) t =
      gross w t + if t = key.tickLower ∨ t = key.tickUpper then delta else 0 := by
  unfold gross grossAt
  rw [weigh_credit hw]
  unfold boundAt
  grind

theorem net_credit (hw : w.HasFiniteSupport) :
    net (credit w key delta) t =
      net w t + (if key.tickLower = t then delta else 0) -
        if key.tickUpper = t then delta else 0 := by
  unfold net netAt
  rw [weigh_credit hw]
  unfold boundAt
  grind

theorem active_credit (hw : w.HasFiniteSupport) :
    active (credit w key delta) t =
      active w t + if t ≥ key.tickLower ∧ t < key.tickUpper then delta else 0 := by
  unfold active coverage
  rw [weigh_credit hw]
  unfold around
  grind

/-- **A change of a weight.** The ticks at its bounds and the bitmap follow it. -/
theorem Ticked.change {lower upper : TickInfo} {flippedLower flippedUpper : Bool}
    (h : Ticked tickSpacing w s) (hw : w.HasFiniteSupport) (hnonneg : ∀ k, 0 ≤ w k)
    (hlt : key.tickLower < key.tickUpper) (halignedLower : tickSpacing ∣ key.tickLower)
    (halignedUpper : tickSpacing ∣ key.tickUpper) (hweight : 0 ≤ w key + delta)
    (hfitLower : gross w key.tickLower + delta < 2 ^ 128)
    (hfitUpper : gross w key.tickUpper + delta < 2 ^ 128)
    (hlower : (s.tickAt key.tickLower).Changed lower key.tickLower currentTick delta fg0 fg1 false)
    (hupper : (s.tickAt key.tickUpper).Changed upper key.tickUpper currentTick delta fg0 fg1 true)
    (hflippedLower : flippedLower = true ↔
      ((s.tickAt key.tickLower).liquidityGross = 0 ↔ lower.liquidityGross ≠ 0))
    (hflippedUpper : flippedUpper = true ↔
      ((s.tickAt key.tickUpper).liquidityGross = 0 ↔ upper.liquidityGross ≠ 0)) :
    Ticked tickSpacing (credit w key delta)
      { s with
        tick := update (update s.tick key.tickLower lower.kept) key.tickUpper upper.kept
        tickBitmap := flipIf flippedUpper key.tickUpper tickSpacing
          (flipIf flippedLower key.tickLower tickSpacing s.tickBitmap) } := by
  have hfinite : (credit w key delta).HasFiniteSupport := hasFiniteSupport_credit hw
  have hnonneg' : ∀ k, 0 ≤ credit w key delta k := (credit_nonneg_iff hnonneg).mpr hweight
  -- the two ticks at the bounds
  have hgrossLower : (lower.liquidityGross : ℤ) = gross (credit w key delta) key.tickLower := by
    have hle := le_gross hw hnonneg key (.inl rfl)
    rw [hlower.gross_eq, gross_credit hw hlt, if_pos (.inl rfl), ← h.gross_eq]
    rw [← h.gross_eq] at hle hfitLower
    exact cast_grossAfter (by linarith) hfitLower
  have hgrossUpper : (upper.liquidityGross : ℤ) = gross (credit w key delta) key.tickUpper := by
    have hle := le_gross hw hnonneg key (.inr rfl)
    rw [hupper.gross_eq, gross_credit hw hlt, if_pos (.inr rfl), ← h.gross_eq]
    rw [← h.gross_eq] at hle hfitUpper
    exact cast_grossAfter (by linarith) hfitUpper
  have hnet : ∀ t (info : TickInfo), (info.liquidityGross : ℤ) = gross (credit w key delta) t →
      info.liquidityNet = net (credit w key delta) t →
      (info.kept.getD TickInfo.new).liquidityNet = net (credit w key delta) t := by
    -- a tick that is removed has no net liquidity either
    intro t info hgross hnet
    rw [net_kept]
    split
    next hzero =>
      rw [hzero] at hgross
      exact (netAt_eq_zero hfinite hnonneg' hgross.symm).symm
    next hzero => exact hnet
  have hat : ∀ t, ({ s with
      tick := update (update s.tick key.tickLower lower.kept) key.tickUpper upper.kept
      tickBitmap := flipIf flippedUpper key.tickUpper tickSpacing
        (flipIf flippedLower key.tickLower tickSpacing s.tickBitmap) } : State Address).tickAt t =
      if t = key.tickUpper then upper.kept.getD TickInfo.new
      else if t = key.tickLower then lower.kept.getD TickInfo.new else s.tickAt t := by
    intro t
    show (update (update s.tick key.tickLower lower.kept) key.tickUpper upper.kept t).getD _ = _
    simp only [update_apply]
    split
    · rfl
    · split <;> rfl
  constructor
  · intro t
    rw [hat]
    split
    next ht => rw [gross_kept, ht, hgrossUpper]
    next hupperNe =>
      split
      next ht => rw [gross_kept, ht, hgrossLower]
      next hlowerNe =>
        rw [h.gross_eq, gross_credit hw hlt, if_neg (by simp [hupperNe, hlowerNe]), add_zero]
  · intro t
    rw [hat]
    split
    next ht =>
      subst ht
      apply hnet _ _ hgrossUpper
      rw [hupper.net_eq, net_credit hw, if_neg hlt.ne, if_pos rfl, if_pos rfl, h.net_eq]
      ring
    next hupperNe =>
      split
      next ht =>
        subst ht
        apply hnet _ _ hgrossLower
        rw [hlower.net_eq, net_credit hw, if_pos rfl, if_neg hlt.ne', h.net_eq]
        simp
      next hlowerNe =>
        rw [h.net_eq, net_credit hw, if_neg (Ne.symm hlowerNe), if_neg (Ne.symm hupperNe)]
        ring
  · intro t ht
    rw [hat]
    show Bitmap.mem (flipIf flippedUpper key.tickUpper tickSpacing
      (flipIf flippedLower key.tickLower tickSpacing s.tickBitmap)) _ = true ↔ _
    have hbit := h.bit_iff t ht
    rw [mem_flipIf, mem_flipIf]
    simp only [tdiv_inj ht halignedUpper, tdiv_inj ht halignedLower]
    split
    next htu =>
      subst htu
      rw [gross_kept]
      simp only [hlt.ne', decide_false, decide_true, Bool.and_false, Bool.and_true,
        Bool.xor_false]
      exact xor_flipped hbit hflippedUpper
    next hupperNe =>
      split
      next htl =>
        subst htl
        rw [gross_kept]
        simp only [hlt.ne, decide_false, decide_true, Bool.and_false, Bool.and_true,
          Bool.xor_false]
        exact xor_flipped hbit hflippedLower
      next hlowerNe => simpa [hupperNe, hlowerNe] using hbit

end Change

/-! ## The rounds of a swap -/

/-- Finitely many weights, none of which is negative, on intervals between ticks with a bit. -/
structure Placed (tickSpacing : ℤ) (w : PositionKey Address → ℤ) : Prop where
  finite : w.HasFiniteSupport
  nonneg : ∀ k, 0 ≤ w k
  lower_lt_upper : ∀ k, w k ≠ 0 → k.tickLower < k.tickUpper
  aligned : ∀ k, w k ≠ 0 → tickSpacing ∣ k.tickLower ∧ tickSpacing ∣ k.tickUpper

section Rounds

variable {tickSpacing next cur : ℤ} {w : PositionKey Address → ℤ} {s : State Address}
  {zeroForOne : Bool} {c c' : Session Address Tokens}

/-- A tick without a bit of its own has no liquidity. -/
theorem Placed.gross_eq_zero (hw : Placed tickSpacing w) {t : ℤ} (ht : ¬tickSpacing ∣ t) :
    gross w t = 0 := by
  unfold gross grossAt weigh
  rw [← finsum_zero (α := PositionKey Address)]
  apply finsum_congr
  intro k
  by_cases hk : w k = 0
  · rw [hk, mul_zero]
  · obtain ⟨hlower, hupper⟩ := hw.aligned k hk
    have hlowerNe : k.tickLower ≠ t := fun h => ht (h ▸ hlower)
    have hupperNe : k.tickUpper ≠ t := fun h => ht (h ▸ hupper)
    simp [boundAt, hlowerNe, hupperNe]

/-- Where no tick is in use, the active liquidity does not change. -/
theorem Placed.active_eq (hw : Placed tickSpacing w) (h : Ticked tickSpacing w s) {t u : ℤ}
    (htu : t ≤ u)
    (hnone : ∀ v, tickSpacing ∣ v → t < v → v ≤ u →
      Bitmap.mem s.tickBitmap (v.tdiv tickSpacing) = false) :
    active w u = active w t := by
  apply coverage_eq_of_gross_zero hw.finite hw.nonneg
    (fun k hk => (hw.lower_lt_upper k hk).le) htu
  intro v hv hvu
  by_cases hdvd : tickSpacing ∣ v
  · have hbit := hnone v hdvd hv hvu
    rw [← Bool.not_eq_true, h.bit_iff v hdvd, not_not] at hbit
    change gross w v = 0
    rw [← h.gross_eq, hbit, Nat.cast_zero]
  · exact hw.gross_eq_zero hdvd

/-- **Crossing a tick.** Beyond the next tick in use the active liquidity has changed by its net
liquidity, with the sign of the direction. -/
theorem Placed.active_tickBeyond (hw : Placed tickSpacing w) (h : Ticked tickSpacing w c.storage)
    (hspacing : 0 < tickSpacing)
    (hnext : Returns (nextInitializedTickWithinOneWord cur tickSpacing zeroForOne) c
      (next, true) c') :
    active w (tickBeyond next zeroForOne) =
      active w cur + if zeroForOne then -net w next else net w next := by
  have hside : active w (next - 1) = active w next - net w next :=
    coverage_sub_one hw.finite fun k hk => (hw.lower_lt_upper k hk).le
  cases zeroForOne with
  | true =>
    obtain ⟨-, hle, -, hnone⟩ := returns_next_down hspacing hnext
    rw [hw.active_eq h hle hnone]
    show active w (next - 1) = active w next + -net w next
    rw [hside]
    ring
  | false =>
    obtain ⟨-, hlt, -, hnone⟩ := returns_next_up hspacing hnext
    have hbelow : active w (next - 1) = active w cur :=
      hw.active_eq h (by linarith) fun v hdvd hv hle => hnone v hdvd hv (by linarith)
    show active w next = active w cur + net w next
    rw [← hbelow, hside]
    ring

/-- The next tick in use is stored. -/
theorem Ticked.stored (h : Ticked tickSpacing w c.storage) (hspacing : 0 < tickSpacing)
    (hnext : Returns (nextInitializedTickWithinOneWord cur tickSpacing zeroForOne) c
      (next, true) c') :
    c.storage.tick next ≠ none := by
  have hmem : (c.storage.tickAt next).liquidityGross ≠ 0 := by
    cases zeroForOne with
    | true =>
      obtain ⟨hdvd, -, hmem, -⟩ := returns_next_down hspacing hnext
      exact (h.bit_iff next hdvd).mp hmem
    | false =>
      obtain ⟨hdvd, -, hmem, -⟩ := returns_next_up hspacing hnext
      exact (h.bit_iff next hdvd).mp hmem
  intro hnone
  rw [State.tickAt, hnone] at hmem
  exact hmem rfl

/-- What a crossing writes to a tick is not its liquidity. -/
theorem Ticked.cross {info info' : TickInfo} (h : Ticked tickSpacing w s)
    (hinfo : s.tick next = some info) (hgross : info'.liquidityGross = info.liquidityGross)
    (hnet : info'.liquidityNet = info.liquidityNet) :
    Ticked tickSpacing w { s with tick := update s.tick next (some info') } := by
  have hat : ∀ t, ({ s with tick := update s.tick next (some info') } : State Address).tickAt t =
      if t = next then info' else s.tickAt t := by
    intro t
    show (update s.tick next (some info') t).getD _ = _
    rw [update_apply]
    split <;> rfl
  have hold : s.tickAt next = info := by rw [State.tickAt, hinfo, Option.getD_some]
  have hgross' : ∀ t, (({ s with tick := update s.tick next (some info') } :
      State Address).tickAt t).liquidityGross = (s.tickAt t).liquidityGross := by
    intro t
    rw [hat]
    split
    next ht => rw [ht, hold, hgross]
    next ht => rfl
  refine ⟨fun t => ?_, fun t => ?_, fun t ht => ?_⟩
  · rw [hgross', h.gross_eq]
  · rw [hat, ← h.net_eq]
    split
    next ht => rw [ht, hold, hnet]
    next ht => rfl
  · rw [hgross']
    exact h.bit_iff t ht

theorem returns_applyNet {liquidity l' : ℕ} {n : ℤ}
    (h : Returns (applyNet liquidity n zeroForOne) c l' c')
    (hnonneg : 0 ≤ liquidity + if zeroForOne then -n else n)
    (hfit : (liquidity + if zeroForOne then -n else n) < 2 ^ 128) :
    (l' : ℤ) = liquidity + (if zeroForOne then -n else n) ∧ c = c' := by
  rw [applyNet, returns_plainI128_bind] at h
  obtain ⟨-, h⟩ := h
  generalize (if zeroForOne then -n else n) = m at h hnonneg hfit ⊢
  split at h
  next hneg =>
    rw [returns_plainI128_bind, returns_pure] at h
    obtain ⟨-, rfl, rfl⟩ := h
    exact ⟨by omega, rfl⟩
  next hneg =>
    obtain ⟨rfl, rfl⟩ := returns_pure.mp h
    unfold saturatingAdd u128Max
    exact ⟨by omega, rfl⟩

/-- The storage with other ticks. -/
def State.SameButTicks (s s' : State Address) : Prop :=
  s'.pool = s.pool ∧ s'.position = s.position ∧ s'.tickBitmap = s.tickBitmap

/-- Crossing the next tick in use takes the active liquidity along. -/
theorem Placed.cross {info : TickInfo} {fg0 fg1 liquidity l' : ℕ} {c₁ : Session Address Tokens}
    (hw : Placed tickSpacing w) (h : Ticked tickSpacing w c.storage)
    (hfit : ∀ t, active w t < 2 ^ 128) (hspacing : 0 < tickSpacing)
    (hliquidity : (liquidity : ℤ) = active w cur)
    (hnext : Returns (nextInitializedTickWithinOneWord cur tickSpacing zeroForOne) c
      (next, true) c₁)
    (hinfo : c.storage.tick next = some info)
    (hcross : Returns (crossTick next info fg0 fg1 liquidity zeroForOne) c l' c') :
    (l' : ℤ) = active w (tickBeyond next zeroForOne) ∧ Ticked tickSpacing w c'.storage ∧
      c.storage.SameButTicks c'.storage := by
  rw [crossTick, saveTick, returns_save_bind] at hcross
  have hbeyond := hw.active_tickBeyond h hspacing hnext
  have hnet : info.liquidityNet = net w next := by
    rw [← h.net_eq, State.tickAt, hinfo, Option.getD_some]
  rw [← hliquidity, ← hnet] at hbeyond
  obtain ⟨hl', rfl⟩ := returns_applyNet hcross
    (by rw [← hbeyond]; exact coverage_nonneg hw.nonneg) (by rw [← hbeyond]; exact hfit _)
  exact ⟨hl'.trans hbeyond.symm, h.cross hinfo rfl rfl, rfl, rfl, rfl⟩

theorem State.SameButTicks.refl (s : State Address) : s.SameButTicks s := ⟨rfl, rfl, rfl⟩

theorem State.SameButTicks.trans {s₁ s₂ s₃ : State Address} (h : s₁.SameButTicks s₂)
    (h' : s₂.SameButTicks s₃) : s₁.SameButTicks s₃ :=
  ⟨h'.1.trans h.1, h'.2.1.trans h.2.1, h'.2.2.trans h.2.2⟩

/-- The active liquidity of a swap is that around its tick, on ticks and a bitmap that agree. -/
structure Follows (tickSpacing : ℤ) (w : PositionKey Address → ℤ) (s₀ s : State Address)
    (l : SwapState) : Prop where
  ticked : Ticked tickSpacing w s
  same : s₀.SameButTicks s
  liquidity_eq : (l.liquidity : ℤ) = active w l.currentTick

variable {s₀ : State Address} {l l' : SwapState} {out : Option SwapState} {feeBps : ℕ}

theorem Follows.emptyRound (hw : Placed tickSpacing w) (hfit : ∀ t, active w t < 2 ^ 128)
    (hspacing : 0 ≤ tickSpacing) (h : Follows tickSpacing w s₀ c.storage l)
    (hround : Returns (emptyRound tickSpacing zeroForOne l) c out c') :
    Follows tickSpacing w s₀ c'.storage (out.getD l) := by
  rcases returns_emptyRound hround with ⟨rfl, rfl⟩ | ⟨next, liquidity, price, hnext, hcross, -, rfl⟩
  · exact h
  · have hpos : 0 < tickSpacing := lt_of_le_of_ne hspacing (spacing_ne_zero hnext).symm
    rcases hcross with ⟨hnone, -⟩ | ⟨info, hinfo, hcross⟩
    · exact absurd hnone (h.ticked.stored hpos hnext)
    · obtain ⟨hliquidity, hticked, hsame⟩ :=
        hw.cross h.ticked hfit hpos h.liquidity_eq hnext hinfo hcross
      exact ⟨hticked, h.same.trans hsame, hliquidity⟩

theorem Follows.liquidRound (hw : Placed tickSpacing w) (hfit : ∀ t, active w t < 2 ^ 128)
    (hspacing : 0 ≤ tickSpacing) (h : Follows tickSpacing w s₀ c.storage l)
    (hround : Returns (liquidRound feeBps tickSpacing zeroForOne l) c out c') :
    Follows tickSpacing w s₀ c'.storage (out.getD l) := by
  obtain ⟨next, initialized, sqrtPriceNext, step, booked, hnext, -, -, -, hbooked, hrest⟩ :=
    returns_liquidRound hround
  have hpos : 0 < tickSpacing := lt_of_le_of_ne hspacing (spacing_ne_zero hnext).symm
  rcases hrest with ⟨-, rfl, rfl⟩ | ⟨-, rfl, info, liquidity, hinfo, hcross, rfl⟩
  · -- the price moves within the liquidity, and the tick stays
    refine ⟨h.ticked, h.same, ?_⟩
    rw [Option.getD_some, hbooked.liquidity_eq, hbooked.currentTick_eq]
    exact h.liquidity_eq
  · obtain ⟨hliquidity, hticked, hsame⟩ :=
      hw.cross h.ticked hfit hpos h.liquidity_eq hnext hinfo hcross
    exact ⟨hticked, h.same.trans hsame, hliquidity⟩

/-- **A round of a swap** takes the active liquidity along. -/
theorem Follows.round (hw : Placed tickSpacing w) (hfit : ∀ t, active w t < 2 ^ 128)
    (hspacing : 0 ≤ tickSpacing) (h : Follows tickSpacing w s₀ c.storage l)
    (hround : Returns (swapRound feeBps tickSpacing zeroForOne l) c out c') :
    Follows tickSpacing w s₀ c'.storage (out.getD l) := by
  unfold swapRound at hround
  split at hround
  · exact h.emptyRound hw hfit hspacing hround
  · exact h.liquidRound hw hfit hspacing hround

/-- **The loop of a swap** takes the active liquidity along. -/
theorem Follows.loop {budget : ℕ} (hw : Placed tickSpacing w)
    (hfit : ∀ t, active w t < 2 ^ 128) (hspacing : 0 ≤ tickSpacing)
    (h : Follows tickSpacing w s₀ c.storage l)
    (hloop : Returns (swapLoop feeBps tickSpacing zeroForOne budget l) c l' c') :
    Follows tickSpacing w s₀ c'.storage l' := by
  rw [swapLoop_eq] at hloop
  exact loop_invariant
    (I := fun p : SwapState × Session Address Tokens => Follows tickSpacing w s₀ p.2.storage p.1)
    (fun h _ hround => h.round hw hfit hspacing hround) hloop h

end Rounds

/-! ## Calls -/

/-- What the ticks, the bitmap and the pool keep is what the positions have. -/
structure Agrees (s : State Address) : Prop where
  finite : s.liquidityOf.HasFiniteSupport
  gross_eq : ∀ t, ((s.tickAt t).liquidityGross : ℤ) = gross s.liquidityOf t
  net_eq : ∀ t, (s.tickAt t).liquidityNet = net s.liquidityOf t
  bit_iff : ∀ pool, s.pool = some pool → ∀ t, pool.tickSpacing ∣ t →
    (Bitmap.mem s.tickBitmap (t.tdiv pool.tickSpacing) = true ↔
      (s.tickAt t).liquidityGross ≠ 0)
  active_eq : ∀ pool, s.pool = some pool →
    (pool.liquidity : ℤ) = active s.liquidityOf pool.currentTick

/-- Besides, positions lie between ticks that have a bit, and there is nothing before the first
call. -/
structure Sound (s : State Address) : Prop extends Agrees s where
  initial_of_none : s.pool = none → s = .initial
  placed : ∀ pool, s.pool = some pool → ∀ key, s.position key ≠ none →
    key.tickLower < key.tickUpper ∧ pool.tickSpacing ∣ key.tickLower ∧
      pool.tickSpacing ∣ key.tickUpper
  gross_lt : ∀ t, (s.tickAt t).liquidityGross < 2 ^ 128

section Sound

variable {s t : State Address} {pool : Pool Address}

theorem liquidityOf_nonneg (key : PositionKey Address) : 0 ≤ s.liquidityOf key :=
  Int.natCast_nonneg _

theorem Sound.ticked (h : Sound s) (hpool : s.pool = some pool) :
    Ticked pool.tickSpacing s.liquidityOf s :=
  ⟨h.gross_eq, h.net_eq, h.bit_iff pool hpool⟩

theorem Sound.placedOf (h : Sound s) (hpool : s.pool = some pool) :
    Placed pool.tickSpacing s.liquidityOf := by
  have hstored : ∀ key, s.liquidityOf key ≠ 0 → s.position key ≠ none := by
    intro key hkey hnone
    rw [State.liquidityOf, hnone] at hkey
    exact hkey rfl
  exact ⟨h.finite, liquidityOf_nonneg,
    fun key hkey => (h.placed pool hpool key (hstored key hkey)).1,
    fun key hkey => (h.placed pool hpool key (hstored key hkey)).2⟩

theorem liquidityOf_initial : (State.initial : State Address).liquidityOf = 0 := rfl

theorem weigh_zero {K : Type} (φ : K → ℤ) : weigh φ 0 = 0 := by
  unfold weigh
  simp

theorem Sound.initial : Sound (State.initial : State Address) := by
  have hpool : ∀ pool, (State.initial : State Address).pool ≠ some pool := fun _ h => nomatch h
  refine ⟨⟨?_, ?_, ?_, ?_, ?_⟩, fun _ => rfl, ?_, ?_⟩
  · rw [liquidityOf_initial]
    exact hasFiniteSupport_zero
  · exact fun t => (weigh_zero _).symm
  · exact fun t => (weigh_zero _).symm
  · exact fun pool h => absurd h (hpool pool)
  · exact fun pool h => absurd h (hpool pool)
  · exact fun pool h => absurd h (hpool pool)
  · intro t
    show 0 < 2 ^ 128
    positivity

/-- The first call finds no position, no tick and no bit. -/
theorem Sound.initializePool (pool : Pool Address) (hliquidity : pool.liquidity = 0) :
    Sound { (State.initial : State Address) with pool := some pool } := by
  have h : Sound (State.initial : State Address) := Sound.initial
  refine ⟨⟨h.finite, h.gross_eq, h.net_eq, ?_, ?_⟩, Option.some_ne_none pool |>.elim, ?_,
    h.gross_lt⟩
  · intro _ _ t _
    have hbit : Bitmap.mem (fun _ => 0) (t.tdiv pool.tickSpacing) = false := Nat.zero_testBit _
    simp_all [State.initial, State.tickAt, TickInfo.new]
  · rintro _ ⟨⟩
    rw [hliquidity]
    exact (weigh_zero _).symm
  · exact fun _ _ key hkey => absurd rfl hkey

/-- A position that is written over changes one weight. -/
theorem liquidityOf_update [DecidableEq Address] {key : PositionKey Address} {delta : ℤ}
    {p : Option PositionInfo} (hposition : t.position = update s.position key p)
    (hp : (p.elim 0 PositionInfo.liquidity : ℕ) = s.liquidityOf key + delta) :
    t.liquidityOf = credit s.liquidityOf key delta := by
  funext k
  unfold State.liquidityOf
  rw [hposition]
  by_cases hk : k = key
  · subst hk
    rw [update_self, credit_self]
    exact hp
  · rw [update_of_ne hk, credit_of_ne hk]

/-- Where there is a pool, its ticks say everything else. -/
theorem Sound.of_ticked (hfinite : t.liquidityOf.HasFiniteSupport)
    (hpool : t.pool = some pool) (hticked : Ticked pool.tickSpacing t.liquidityOf t)
    (hplaced : ∀ key, t.position key ≠ none → key.tickLower < key.tickUpper ∧
      pool.tickSpacing ∣ key.tickLower ∧ pool.tickSpacing ∣ key.tickUpper)
    (hgross : ∀ u, gross t.liquidityOf u < 2 ^ 128)
    (hactive : (pool.liquidity : ℤ) = active t.liquidityOf pool.currentTick) : Sound t := by
  have hpoolOf : ∀ pool', t.pool = some pool' → pool' = pool := by
    intro pool' h'
    rw [hpool] at h'
    exact (Option.some.inj h').symm
  refine ⟨⟨hfinite, hticked.gross_eq, hticked.net_eq, ?_, ?_⟩, ?_, ?_, ?_⟩
  · intro pool' h'
    obtain rfl := hpoolOf pool' h'
    exact hticked.bit_iff
  · intro pool' h'
    obtain rfl := hpoolOf pool' h'
    exact hactive
  · intro hnone
    rw [hpool] at hnone
    cases hnone
  · intro pool' h'
    obtain rfl := hpoolOf pool' h'
    exact hplaced
  · intro u
    have hu := hgross u
    rw [← hticked.gross_eq] at hu
    exact_mod_cast hu

theorem Sound.gross_lt' (h : Sound s) (u : ℤ) : gross s.liquidityOf u < 2 ^ 128 := by
  have hu := h.gross_lt u
  rw [← h.gross_eq]
  exact_mod_cast hu

/-- **A change of a position.** The ticks at its bounds, the bitmap and the active liquidity follow
it. -/
theorem Sound.change [DecidableEq Address] {c c₂ : Session Address Tokens}
    {key : PositionKey Address} {delta : ℤ} {p : Option PositionInfo} (h : Sound s)
    (hpool : s.pool = some pool) (hlt : key.tickLower < key.tickUpper)
    (hlower : pool.tickSpacing ∣ key.tickLower) (hupper : pool.tickSpacing ∣ key.tickUpper)
    (hp : (p.elim 0 PositionInfo.liquidity : ℕ) = s.liquidityOf key + delta)
    (hfitLower : ((s.tickAt key.tickLower).liquidityGross : ℤ) + delta < 2 ^ 128)
    (hfitUpper : ((s.tickAt key.tickUpper).liquidityGross : ℤ) + delta < 2 ^ 128)
    (hticks : Returns (updateTicks pool key delta) c () c₂)
    (htick : c.storage.tick = s.tick) (hbitmap : c.storage.tickBitmap = s.tickBitmap)
    (htick' : t.tick = c₂.storage.tick) (hbitmap' : t.tickBitmap = c₂.storage.tickBitmap)
    (hposition' : t.position = update s.position key p)
    (hpool' : t.pool = some (pool.adjust key delta)) : Sound t := by
  have hw := h.placedOf hpool
  have hweights := liquidityOf_update hposition' hp
  have hweight : 0 ≤ s.liquidityOf key + delta := hp ▸ Int.natCast_nonneg _
  obtain ⟨lower, upper, flippedLower, flippedUpper, hchangedLower, hchangedUpper, hflippedLower,
    hflippedUpper, rfl⟩ := returns_updateTicks hlt.ne hticks
  have hat : c.storage.tickAt = s.tickAt := by
    funext u
    rw [State.tickAt, State.tickAt, htick]
  rw [hat] at hchangedLower hchangedUpper hflippedLower hflippedUpper
  rw [h.gross_eq] at hfitLower hfitUpper
  have hticked := (h.ticked hpool).change h.finite liquidityOf_nonneg hlt hlower hupper hweight
    hfitLower hfitUpper hchangedLower hchangedUpper hflippedLower hflippedUpper
  have hticked' : Ticked pool.tickSpacing t.liquidityOf t := by
    rw [hweights]
    apply hticked.congr
    · rw [htick', htick]
    · rw [hbitmap', hbitmap]
  have hspacing : (pool.adjust key delta).tickSpacing = pool.tickSpacing := by
    unfold Pool.adjust
    split <;> rfl
  apply Sound.of_ticked _ hpool'
  · rw [hspacing]
    exact hticked'
  · intro k hk
    rw [hspacing]
    by_cases hkey : k = key
    · rw [hkey]
      exact ⟨hlt, hlower, hupper⟩
    · rw [hposition', update_of_ne hkey] at hk
      exact h.placed pool hpool k hk
  · intro u
    rw [hweights, gross_credit h.finite hlt]
    split
    next hbound =>
      rcases hbound with rfl | rfl
      · exact hfitLower
      · exact hfitUpper
    next hbound =>
      rw [add_zero]
      exact h.gross_lt' u
  · have hactive := h.active_eq pool hpool
    have hnonneg : 0 ≤ active (credit s.liquidityOf key delta) pool.currentTick := by
      rw [← hweights]
      exact coverage_nonneg liquidityOf_nonneg
    rw [active_credit h.finite] at hnonneg
    rw [hweights, active_credit h.finite]
    unfold Pool.adjust
    split
    next haround =>
      rw [if_pos haround, ← hactive] at hnonneg
      show (((pool.liquidity : ℤ) + delta).toNat : ℤ) =
        active s.liquidityOf pool.currentTick + delta
      rw [← hactive]
      exact Int.toNat_of_nonneg hnonneg
    next haround => rw [add_zero, hactive]
  · rw [hweights]
    exact hasFiniteSupport_credit h.finite

end Sound

/-- A call whose casts do not wrap and whose sums do not saturate, on ticks with a spacing that is
not negative: what is minted is below 2¹²⁷ and the ticks at its bounds have room for it, what is
burned is below 2¹²⁷, and the liquidity that a swap may meet is one of the type. -/
def Meets (s : State Address) : Call Address → Prop
  | .initializePool .. => True
  | .mint _ tickLower tickUpper amountADesired amountBDesired =>
    ∀ pool sqrtRatioA sqrtRatioB r, s.pool = some pool →
      getSqrtRatioAtTick tickLower = some sqrtRatioA →
      getSqrtRatioAtTick tickUpper = some sqrtRatioB →
      liquidityFor pool.currentSqrtPrice sqrtRatioA sqrtRatioB amountADesired amountBDesired =
        some r →
      r.1 < 2 ^ 127 ∧ (s.tickAt tickLower).liquidityGross + r.1 < 2 ^ 128 ∧
        (s.tickAt tickUpper).liquidityGross + r.1 < 2 ^ 128
  | .burn _ _ _ liquidity => liquidity < 2 ^ 127
  | .collectFees .. => True
  | .swap .. => ∀ pool, s.pool = some pool →
    0 ≤ pool.tickSpacing ∧ ∀ t, active s.liquidityOf t < 2 ^ 128

section Calls

variable [DecidableEq Address] {host : Host Address Tokens} {env : Env Address Tokens}
  {c c' : Session Address Tokens} {owner : Address} {tickLower tickUpper : ℤ}

theorem asI128_of_lt {n : ℕ} (h : n < 2 ^ 127) : asI128 n = n := if_pos h

omit [DecidableEq Address] in
/-- A position that is not there counts as one without liquidity. -/
theorem liquidity_settled_getD {s : State Address} {key : PositionKey Address}
    {inside : ℕ × ℕ} :
    ((((s.position key).getD (.fresh inside)).settled inside).liquidity : ℤ) =
      s.liquidityOf key := by
  rw [settled_liquidity, State.liquidityOf]
  cases s.position key <;> rfl

theorem Sound.mint {amountADesired amountBDesired : ℕ} {r : ℕ × ℕ × ℕ} (h : Sound c.storage)
    (hmeets : Meets c.storage (.mint owner tickLower tickUpper amountADesired amountBDesired))
    (hmint : Returns
      (mint host env owner tickLower tickUpper amountADesired amountBDesired) c r c') :
    Sound c'.storage := by
  obtain ⟨pool, sqrtRatioA, sqrtRatioB, tokens₁, tokens₂, c₂, hpool, hlt, hlower, hupper, -, -,
    hratioA, hratioB, hfor, -, -, -, hticks, inside, -, pos, hpos, -, rfl⟩ := returns_mint hmint
  obtain ⟨hcast, hfitLower, hfitUpper⟩ :=
    hmeets pool sqrtRatioA sqrtRatioB r hpool hratioA hratioB hfor
  rw [asI128_of_lt hcast] at hticks
  have hliquidity : ((pos.liquidity + r.1 : ℕ) : ℤ) =
      c.storage.liquidityOf ⟨owner, tickLower, tickUpper⟩ + r.1 := by
    rw [hpos, Nat.cast_add, liquidity_settled_getD]
  exact h.change (p := some { pos with liquidity := pos.liquidity + r.1 }) hpool hlt hlower hupper
    hliquidity (by exact_mod_cast hfitLower) (by exact_mod_cast hfitUpper) hticks rfl rfl rfl rfl
    rfl rfl

theorem Sound.burn {liquidity : ℕ} {r : ℕ × ℕ} (h : Sound c.storage)
    (hmeets : liquidity < 2 ^ 127)
    (hburn : Returns (burn host env owner tickLower tickUpper liquidity) c r c') :
    Sound c'.storage := by
  obtain ⟨pool, pos, sqrtRatioA, sqrtRatioB, settled, rest, c₂, tokens₁, tokens₂, hpool, hlt, -,
    -, hpos, hle, -, -, -, hsettled, hrest, hticks, hc', -, -, -⟩ := returns_burn hburn
  obtain ⟨-, hlower, hupper⟩ := h.placed pool hpool _ (by rw [hpos]; exact Option.some_ne_none pos)
  obtain ⟨-, hposition₂, -⟩ := frame_updateTicks hlt.ne hticks
  rw [asI128_of_lt hmeets] at hticks
  have hliquidity :
      (((if rest.liquidity = 0 ∧ rest.tokensOwed0 = 0 ∧ rest.tokensOwed1 = 0 then none
        else some rest).elim 0 PositionInfo.liquidity : ℕ) : ℤ) =
      c.storage.liquidityOf ⟨owner, tickLower, tickUpper⟩ + -(liquidity : ℤ) := by
    have hsettledLiquidity : settled.liquidity = pos.liquidity := by
      rw [hsettled, settled_liquidity]
    have hrestLiquidity : rest.liquidity = settled.liquidity - liquidity := by
      rw [hrest]
    have hweight : c.storage.liquidityOf ⟨owner, tickLower, tickUpper⟩ = pos.liquidity := by
      rw [State.liquidityOf, hpos, Option.elim_some]
    split
    next hgone =>
      rw [hweight, Option.elim_none]
      omega
    next hstays =>
      rw [hweight, Option.elim_some]
      omega
  have hltLower := h.gross_lt tickLower
  have hltUpper := h.gross_lt tickUpper
  have hfit : ∀ g : ℕ, g < 2 ^ 128 → (g : ℤ) + -(liquidity : ℤ) < 2 ^ 128 := by
    intro g hg
    omega
  exact h.change hpool hlt hlower hupper hliquidity (hfit _ hltLower) (hfit _ hltUpper) hticks
    rfl rfl (by rw [hc']) (by rw [hc']) (by rw [hc']; exact hposition₂) (by rw [hc'])

/-- What is collected changes no liquidity. -/
theorem Sound.collectFees {r : ℕ × ℕ} (h : Sound c.storage)
    (hcollect : Returns (collectFees host env owner tickLower tickUpper) c r c') :
    Sound c'.storage := by
  obtain ⟨pool, pos, settled, tokens₁, tokens₂, hpool, hlt, hpos, hsettled, -, hc', -, -, -⟩ :=
    returns_collectFees hcollect
  have hposition : ∀ k, c'.storage.position k =
      update c.storage.position ⟨owner, tickLower, tickUpper⟩ (if settled.liquidity = 0 then none
        else some { settled with tokensOwed0 := 0, tokensOwed1 := 0 }) k := by
    intro k
    rw [hc']
  have hweights : c'.storage.liquidityOf = c.storage.liquidityOf := by
    funext k
    rw [State.liquidityOf, State.liquidityOf, hposition]
    by_cases hk : k = ⟨owner, tickLower, tickUpper⟩
    · subst hk
      have hliquidity : settled.liquidity = pos.liquidity := by
        rw [hsettled, settled_liquidity]
      rw [update_self, hpos]
      split
      next hgone => simp [← hliquidity, hgone]
      next hstays => simp [hliquidity]
    · rw [update_of_ne hk]
  have hpool' : c'.storage.pool = some pool := by
    rw [hc']
    exact hpool
  apply Sound.of_ticked _ hpool'
  · rw [hweights]
    exact (h.ticked hpool).congr (by rw [hc']) (by rw [hc'])
  · intro k hk
    apply h.placed pool hpool k
    by_cases hkey : k = ⟨owner, tickLower, tickUpper⟩
    · rw [hkey, hpos]
      exact Option.some_ne_none pos
    · rw [hposition, update_of_ne hkey] at hk
      exact hk
  · rw [hweights]
    exact h.gross_lt'
  · rw [hweights]
    exact h.active_eq pool hpool
  · rw [hweights]
    exact h.finite

omit [DecidableEq Address] in
/-- **A swap** moves the current tick and takes the active liquidity along. -/
theorem Sound.swap {trader : Address} {zeroForOne : Bool} {amountSpecified : ℕ} {r : ℕ × ℕ}
    (h : Sound c.storage) (hmeets : Meets c.storage (.swap trader zeroForOne amountSpecified))
    (hswap : Returns (swap host env trader zeroForOne amountSpecified) c r c') :
    Sound c'.storage := by
  obtain ⟨pool, l, c₁, tokens₁, tokens₂, hpool, hloop, -, hc', -, -, -⟩ := returns_swap hswap
  obtain ⟨hspacing, hfit⟩ := hmeets pool hpool
  have hstart : Follows pool.tickSpacing c.storage.liquidityOf c.storage c.storage
      (.start pool amountSpecified) :=
    ⟨h.ticked hpool, .refl _, h.active_eq pool hpool⟩
  have hfollows := hstart.loop (h.placedOf hpool) hfit hspacing hloop
  obtain ⟨-, hposition, -⟩ := hfollows.same
  have hweights : c'.storage.liquidityOf = c.storage.liquidityOf := by
    funext k
    rw [State.liquidityOf, State.liquidityOf, hc', hposition]
  have hpool' : c'.storage.pool = some (l.finish pool) := by rw [hc']
  apply Sound.of_ticked _ hpool'
  · rw [hweights]
    exact hfollows.ticked.congr (by rw [hc']) (by rw [hc'])
  · intro k hk
    rw [hc'] at hk
    change c₁.storage.position k ≠ none at hk
    rw [hposition] at hk
    exact h.placed pool hpool k hk
  · rw [hweights]
    exact h.gross_lt'
  · rw [hweights]
    exact hfollows.liquidity_eq
  · rw [hweights]
    exact h.finite

/-- A call that returns and meets the condition keeps everything in agreement. -/
theorem Sound.call {s t : State Address} {call : Call Address} {v : Response} (h : Sound s)
    (hcall : Returns (entryPoint host env call) s v t) (hmeets : Meets s call) : Sound t := by
  obtain ⟨c', hbody, rfl⟩ := returns_zoom.mp hcall
  cases call with
  | initializePool tokenA tokenB feeBps tickSpacing initialSqrtPrice initialTick =>
    obtain ⟨_, c₁, hinitialize, hpure⟩ := returns_bind.mp hbody
    obtain ⟨-, rfl⟩ := returns_pure.mp hpure
    simp only [ConcentratedAmm.initializePool, returns_storage_bind, returns_require_bind,
      savePool, returns_save] at hinitialize
    obtain ⟨hnone, -, rfl⟩ := hinitialize
    obtain rfl := h.initial_of_none (Option.isNone_iff_eq_none.mp hnone)
    exact Sound.initializePool _ rfl
  | mint owner tickLower tickUpper amountADesired amountBDesired =>
    obtain ⟨r, hmint, -⟩ := returns_map.mp hbody
    exact Sound.mint h hmeets hmint
  | burn owner tickLower tickUpper liquidity =>
    obtain ⟨r, hburn, -⟩ := returns_map.mp hbody
    exact Sound.burn h hmeets hburn
  | collectFees owner tickLower tickUpper =>
    obtain ⟨r, hcollect, -⟩ := returns_map.mp hbody
    exact Sound.collectFees h hcollect
  | swap trader zeroForOne amountSpecified =>
    obtain ⟨r, hswap, -⟩ := returns_map.mp hbody
    exact Sound.swap h hmeets hswap

/-- **The liquidity agrees.** In every state that is reached by calls that meet the condition, the
active liquidity is that of the positions around the current tick, the gross and net liquidity of a
tick are the sums over the positions that it bounds, and its bit says whether the gross liquidity is
not zero. -/
theorem liquidity_agrees {s : State Address}
    {events : List (Event (Env Address Tokens) (Call Address) Error Response)}
    (hrun : Run (fun u l w => Step (entryPoint host) u l w ∧
      ∀ v, l.result = .ok v → Meets u l.call) State.initial events s) : Agrees s :=
  (invariant_of_returns (P := fun u _ call => Meets u call) (I := Sound)
    (fun hs hcall hmeets => hs.call hcall hmeets) hrun Sound.initial).toAgrees

/-- What a mint adds to the weights. -/
theorem liquidityOf_mint {amountADesired amountBDesired : ℕ} {r : ℕ × ℕ × ℕ}
    (hmint : Returns
      (mint host env owner tickLower tickUpper amountADesired amountBDesired) c r c') :
    c'.storage.liquidityOf =
      credit c.storage.liquidityOf ⟨owner, tickLower, tickUpper⟩ r.1 := by
  obtain ⟨pool, sqrtRatioA, sqrtRatioB, tokens₁, tokens₂, c₂, hpool, hlt, hlower, hupper, -, -,
    hratioA, hratioB, hfor, -, -, -, hticks, inside, -, pos, hpos, -, rfl⟩ := returns_mint hmint
  apply liquidityOf_update (p := some { pos with liquidity := pos.liquidity + r.1 }) rfl
  rw [Option.elim_some, Nat.cast_add, hpos, liquidity_settled_getD]

end Calls

/-! ## A run, and one whose casts wrap -/

/-- The contract at address 0, with tokens that record balances. -/
def sampleHost : Host ℕ (Balances ℕ) where
  toTokenInterface := Balances.interface ℕ
  currentContractAddress := 0

/-- Everybody authorizes the call and holds 2¹²⁶ of every token. -/
def sampleEnv : Env ℕ (Balances ℕ) where
  auth := fun _ => true
  tokens := ⟨fun _ _ => 2 ^ 126, fun _ _ => by positivity⟩
  budget := 8

/-- A pool at tick 0 with a spacing of 10. -/
def sampleInitialize : Call ℕ := .initializePool 100 101 30 10 q64 0

/-- A position around the current tick, and a swap that takes the price beyond it. -/
def sampleCalls : List (Env ℕ (Balances ℕ) × Call ℕ) :=
  [(sampleEnv, sampleInitialize), (sampleEnv, .mint 1 (-20) 20 1000000 1000000),
   (sampleEnv, .swap 3 false 3000000)]

/-- The weights after the mint are those of its position. -/
theorem active_sample_lt {v : Response} {s t : State ℕ} (hs : s.liquidityOf = 0)
    (hmint : invoke (entryPoint sampleHost sampleEnv (.mint 1 (-20) 20 1000000 1000000)) s =
      (.ok v, t)) (hv : v = .minted 996843625 999999 999999) (u : ℤ) :
    active t.liquidityOf u < 2 ^ 128 := by
  obtain ⟨c', hbody, rfl⟩ := returns_zoom.mp (invoke_eq_ok.mp hmint)
  obtain ⟨r, hmint, hr⟩ := returns_map.mp hbody
  rw [hv] at hr
  obtain ⟨hliquidity, -, -⟩ := Response.minted.inj hr
  rw [liquidityOf_mint hmint, active_credit (by rw [hs]; exact hasFiniteSupport_zero), hs,
    hliquidity]
  have hzero : active (0 : PositionKey ℕ → ℤ) u = 0 := weigh_zero _
  rw [hzero]
  split <;> norm_num

theorem meet_sampleCalls :
    CallsMeet (entryPoint sampleHost) (fun u _ call => Meets u call) State.initial sampleCalls := by
  refine ⟨fun _ _ => trivial, fun _ _ => ?_, fun _ _ => ?_, trivial⟩
  · intro pool sqrtRatioA sqrtRatioB r hpool hratioA hratioB hfor
    have hprice := congrArg (Option.map Pool.currentSqrtPrice) hpool
    have hlower : getSqrtRatioAtTick (-20) = some 18428238923652914798 := by decide +kernel
    have hupper : getSqrtRatioAtTick 20 = some 18465267806148370331 := by decide +kernel
    obtain rfl := Option.some.inj (hlower.symm.trans hratioA)
    obtain rfl := Option.some.inj (hupper.symm.trans hratioB)
    obtain hprice : q64 = pool.currentSqrtPrice := Option.some.inj hprice
    have hliquidity : liquidityFor q64 18428238923652914798 18465267806148370331 1000000 1000000 =
      some (996843625, 999999, 999999) := by decide +kernel
    rw [← hprice, hliquidity] at hfor
    obtain rfl := Option.some.inj hfor
    decide +kernel
  · intro pool hpool
    have hspacing : some pool.tickSpacing = some 10 :=
      (congrArg (Option.map Pool.tickSpacing) hpool).symm.trans (by decide +kernel)
    obtain hspacing := Option.some.inj hspacing
    refine ⟨by rw [hspacing]; decide, active_sample_lt rfl (Prod.ext ?_ rfl) rfl⟩
    decide +kernel

theorem liquidity_agrees_sample :
    ∃ events s, Run (fun u l w => Step (entryPoint sampleHost) u l w ∧
        ∀ v, l.result = .ok v → Meets u l.call) State.initial events s ∧
      (s.pool.map fun pool => (pool.currentTick, pool.liquidity)) = some (20, 0) ∧
      (s.tickAt 20).liquidityGross = 996843625 ∧ Agrees s := by
  have hrun := run_execute_meeting meet_sampleCalls
  exact ⟨_, _, hrun, by decide +kernel, by decide +kernel, liquidity_agrees hrun⟩

/-- A position with a liquidity that wraps to a negative `i128`. -/
def wrappingCalls : List (Env ℕ (Balances ℕ) × Call ℕ) :=
  [(sampleEnv, sampleInitialize), (sampleEnv, .mint 1 (-20) (-10) 0 (3 * 2 ^ 115))]

theorem liquidity_disagrees :
    ¬∀ events s, Run (Step (entryPoint sampleHost)) State.initial events s → Agrees s := by
  intro h
  have hagrees := h _ _ (run_execute (entryPoint sampleHost) State.initial wrappingCalls)
  have hgross := hagrees.gross_eq (-20)
  have hle := le_gross hagrees.finite liquidityOf_nonneg ⟨1, -20, -10⟩ (.inl rfl)
  rw [← hgross] at hle
  revert hle
  decide +kernel

end ConcentratedAmm
