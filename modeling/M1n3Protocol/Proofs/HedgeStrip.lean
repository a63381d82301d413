/-
The strip of ranges over the hedged band: what the loop walks, and when its
edges are on the oracle's ticks.

# The walk

Whatever the roundings gave as its two ends, the loop tiles what lies
between them, and each range is sized by its width; so the ranges share
their edges and the quantities telescope. It ends because no bin is
narrower than a tick.

# The grid

The ends are a `min` and a `max` of two roundings each, of the dollar price
to a whole raw strike and to a tick. The top is on the grid, and within the
band, exactly if its tick is not above it; the floor is on the grid exactly
if it is rounded up to its tick or lies below the minimum strike. Two
remarks of the source say that the strikes are snapped to the grid.
-/
import M1n3Protocol.Web.HedgeMath

namespace M1n3Protocol.Web

open Grid

/-- The ranges cover the strikes from `a` to `b`, each sized by its width. -/
structure Sized (qBtc : ℚ) (a : ℤ) (strip : List HedgeRange) (b : ℤ) :
    Prop where
  tiles : Tiles HedgeRange.lowerStrikeRaw HedgeRange.higherStrikeRaw a
    strip b
  priced : ∀ r ∈ strip, r.quantity
    = qBtc * strikeToUsd r.higherStrikeRaw
      - qBtc * strikeToUsd r.lowerStrikeRaw

/-- A range sized by its width. -/
def HedgeRange.over (qBtc : ℚ) (a b : ℤ) : HedgeRange where
  lowerStrikeRaw := a
  higherStrikeRaw := b
  quantity := qBtc * strikeToUsd (b - a)

-- ================================================================== the loop

theorem stripLoop_step {qBtc : ℚ} {bin top lower : ℤ} (hq : 0 < qBtc)
    (hbin : 0 < bin) (hlt : lower < top) (fuel : ℕ) :
    stripLoop qBtc bin top (fuel + 1) lower
      = (stripLoop qBtc bin top fuel (min (lower + bin) top)).map
          (HedgeRange.over qBtc lower (min (lower + bin) top) :: ·) := by
  have hwide : 0 < min (lower + bin) top - lower := by omega
  have hquantity :
      0 < qBtc * strikeToUsd (min (lower + bin) top - lower) :=
    mul_pos hq (div_pos (Int.cast_pos.mpr hwide) strikeScalar_pos)
  rw [stripLoop, if_pos hlt]
  simp only [if_pos hquantity]
  rfl

theorem stripLoop_done {qBtc : ℚ} {bin top : ℤ} (fuel : ℕ) :
    stripLoop qBtc bin top (fuel + 1) top = some [] := by
  rw [stripLoop, if_neg (lt_irrefl top)]

theorem stripLoop_total {qBtc : ℚ} {bin top : ℤ} (hq : 0 < qBtc)
    (hbin : 0 < bin) (n : ℕ) (lower : ℤ) (hle : lower ≤ top)
    (hn : (top - lower).toNat ≤ n) :
    ∃ strip, ∀ fuel, n < fuel →
      stripLoop qBtc bin top fuel lower = some strip := by
  induction n generalizing lower with
  | zero =>
    obtain rfl : lower = top := by omega
    refine ⟨[], fun fuel hfuel => ?_⟩
    obtain ⟨fuel, rfl⟩ := Nat.exists_eq_add_of_lt hfuel
    rw [Nat.zero_add, stripLoop_done]
  | succ n ih =>
    rcases hle.eq_or_lt with rfl | hlt
    · refine ⟨[], fun fuel hfuel => ?_⟩
      obtain ⟨fuel, rfl⟩ := Nat.exists_eq_succ_of_ne_zero
        (Nat.ne_zero_of_lt hfuel)
      rw [stripLoop_done]
    · obtain ⟨strip, hstrip⟩ :=
        ih (min (lower + bin) top) (by omega) (by omega)
      refine ⟨.over qBtc lower (min (lower + bin) top) :: strip,
        fun fuel hfuel => ?_⟩
      obtain ⟨fuel, rfl⟩ := Nat.exists_eq_succ_of_ne_zero
        (Nat.ne_zero_of_lt hfuel)
      rw [stripLoop_step hq hbin hlt, hstrip fuel (by omega), Option.map_some]

theorem stripLoop_sized {qBtc : ℚ} {bin top : ℤ} (hq : 0 < qBtc)
    (hbin : 0 < bin) {fuel : ℕ} {lower : ℤ} {strip : List HedgeRange}
    (hle : lower ≤ top)
    (h : stripLoop qBtc bin top fuel lower = some strip) :
    Sized qBtc lower strip top := by
  induction fuel generalizing lower strip with
  | zero => cases h
  | succ fuel ih =>
    rcases hle.eq_or_lt with rfl | hlt
    · rw [stripLoop_done] at h
      cases h
      exact ⟨rfl, fun r hr => absurd hr List.not_mem_nil⟩
    · rw [stripLoop_step hq hbin hlt] at h
      obtain ⟨rest, hrest, rfl⟩ := Option.map_eq_some_iff.mp h
      obtain ⟨htiles, hpriced⟩ := ih (min_le_right _ _) hrest
      refine ⟨⟨rfl, lt_min (by omega) hlt, htiles⟩, fun r hr => ?_⟩
      rcases List.mem_cons.mp hr with rfl | hr
      · rw [HedgeRange.over, strikeToUsd_sub, mul_sub]
      · exact hpriced r hr

/-- Ends and bins on a grid leave no edge off it. -/
theorem stripLoop_dvd {qBtc : ℚ} {bin top k : ℤ} (hq : 0 < qBtc)
    (hbin : 0 < bin) (hkbin : k ∣ bin) (hktop : k ∣ top) {fuel : ℕ}
    {lower : ℤ} {strip : List HedgeRange} (hle : lower ≤ top)
    (hklower : k ∣ lower)
    (h : stripLoop qBtc bin top fuel lower = some strip) :
    ∀ r ∈ strip, k ∣ r.lowerStrikeRaw ∧ k ∣ r.higherStrikeRaw := by
  induction fuel generalizing lower strip with
  | zero => cases h
  | succ fuel ih =>
    rcases hle.eq_or_lt with rfl | hlt
    · rw [stripLoop_done] at h
      cases h
      exact fun r hr => absurd hr List.not_mem_nil
    · rw [stripLoop_step hq hbin hlt] at h
      obtain ⟨rest, hrest, rfl⟩ := Option.map_eq_some_iff.mp h
      have hknext : k ∣ min (lower + bin) top := by
        rcases min_choice (lower + bin) top with hmin | hmin <;> rw [hmin]
        · exact Int.dvd_add hklower hkbin
        · exact hktop
      intro r hr
      rcases List.mem_cons.mp hr with rfl | hr
      · exact ⟨hklower, hknext⟩
      · exact ih (min_le_right _ _) hknext hrest r hr

-- ================================================================= the strip

namespace HedgeStripInputs

/-- The inputs that get to the loop. -/
structure Open (input : HedgeStripInputs) : Prop where
  qBtc_pos : 0 < input.qBtc
  spot_pos : 0 < input.spot
  band : ¬ (input.dropBandLo < 0 ∨ input.dropBandHi ≤ input.dropBandLo)
  tick_pos : 0 < input.tickSizeRaw
  nonempty : input.floorRaw < input.topRaw

variable {input : HedgeStripInputs}

theorem minStrike_le_floorRaw : (input.minStrikeRaw : ℤ) ≤ input.floorRaw :=
  le_trans (le_max_right _ _) (le_max_left _ _)

theorem minBinRaw_dvd : (input.tickSizeRaw : ℤ) ∣ input.minBinRaw := by
  rcases max_choice (input.tickSizeRaw : ℤ)
    (⌊((input.topRaw - input.floorRaw : ℤ) : ℚ) / targetBins
      / input.tickSizeRaw⌋ * input.tickSizeRaw) with h | h
  · rw [minBinRaw, h]
  · rw [minBinRaw, h]
    exact Int.dvd_mul_left _ _

theorem Open.minBinRaw_pos (h : input.Open) : 0 < input.minBinRaw :=
  lt_of_lt_of_le (Int.natCast_pos.mpr h.tick_pos) (le_max_left _ _)

/-- Without a tick the top is at 0. -/
theorem tick_pos_of_nonempty (h : input.floorRaw < input.topRaw) :
    0 < input.tickSizeRaw := by
  rcases Nat.eq_zero_or_pos input.tickSizeRaw with hzero | hpos
  · have htop : input.topRaw ≤ 0 := by
      refine le_trans (min_le_right _ _) (le_of_eq ?_)
      rw [tickUsd, spotToTick_eq, hzero, nearest, Int.natCast_zero, mul_zero]
    have hfloor : (input.minStrikeRaw : ℤ) ≤ input.floorRaw :=
      minStrike_le_floorRaw
    omega
  · exact hpos

end HedgeStripInputs

theorem buildHedgeStrip_cases (input : HedgeStripInputs) :
    (¬ input.Open ∧ ∀ fuel, buildHedgeStrip fuel input = some []) ∨
    (input.Open ∧ ∀ fuel, buildHedgeStrip fuel input
      = stripLoop input.qBtc input.minBinRaw input.topRaw fuel
          input.floorRaw) := by
  unfold buildHedgeStrip
  split_ifs with hpos hband hempty
  · refine Or.inl ⟨fun hopen => ?_, fun _ => rfl⟩
    rcases hpos with hqBtc | hspot
    · exact absurd hopen.qBtc_pos (not_lt.mpr hqBtc)
    · exact absurd hopen.spot_pos (not_lt.mpr hspot)
  · exact Or.inl ⟨fun hopen => hopen.band hband, fun _ => rfl⟩
  · exact Or.inl ⟨fun hopen => absurd hopen.nonempty (not_lt.mpr hempty),
      fun _ => rfl⟩
  · rw [not_or, not_le, not_le] at hpos
    have hne := not_le.mp hempty
    exact Or.inr ⟨⟨hpos.1, hpos.2, hband,
      HedgeStripInputs.tick_pos_of_nonempty hne, hne⟩, fun _ => rfl⟩

/-- The loop ends, on all inputs. -/
theorem buildHedgeStrip_total (input : HedgeStripInputs) :
    ∃ n strip, ∀ fuel, n < fuel →
      buildHedgeStrip fuel input = some strip := by
  rcases buildHedgeStrip_cases input with ⟨_, hnil⟩ | ⟨hopen, hloop⟩
  · exact ⟨0, [], fun fuel _ => hnil fuel⟩
  · obtain ⟨strip, hstrip⟩ := stripLoop_total hopen.qBtc_pos
      hopen.minBinRaw_pos _ input.floorRaw hopen.nonempty.le le_rfl
    exact ⟨_, strip, fun fuel hfuel => (hloop fuel).trans (hstrip fuel hfuel)⟩

theorem buildHedgeStrip_sized {input : HedgeStripInputs} {fuel : ℕ}
    {strip : List HedgeRange}
    (h : buildHedgeStrip fuel input = some strip) (hne : strip ≠ []) :
    input.Open ∧ Sized input.qBtc input.floorRaw strip input.topRaw := by
  rcases buildHedgeStrip_cases input with ⟨_, hnil⟩ | ⟨hopen, hloop⟩
  · rw [hnil] at h
    exact absurd (Option.some.inj h).symm hne
  · rw [hloop] at h
    exact ⟨hopen, stripLoop_sized hopen.qBtc_pos hopen.minBinRaw_pos
      hopen.nonempty.le h⟩

-- ================================================================== the grid

namespace HedgeStripInputs

/-- What the strip is asked for: the minimum strike of an oracle is one of
its ticks. -/
structure Valid (input : HedgeStripInputs) : Prop where
  qBtc_pos : 0 < input.qBtc
  spot_pos : 0 < input.spot
  lo_nonneg : 0 ≤ input.dropBandLo
  lo_lt_hi : input.dropBandLo < input.dropBandHi
  hi_lt_one : input.dropBandHi < 1
  tick_pos : 0 < input.tickSizeRaw
  tick_dvd : input.tickSizeRaw ∣ input.minStrikeRaw

/-- The strip tiles the band on the tick grid. -/
structure Tiled (input : HedgeStripInputs) (strip : List HedgeRange) :
    Prop where
  onGrid : ∀ r ∈ strip, (input.tickSizeRaw : ℤ) ∣ r.lowerStrikeRaw ∧
    (input.tickSizeRaw : ℤ) ∣ r.higherStrikeRaw
  shared : strip.IsChain fun r r' => r.higherStrikeRaw = r'.lowerStrikeRaw
  inBand : ∀ r ∈ strip, ∀ raw ∈ [r.lowerStrikeRaw, r.higherStrikeRaw],
    (input.minStrikeRaw : ℤ) ≤ raw ∧
      strikeToUsd raw ≤ input.spot * (1 - input.dropBandLo)
  hedged : ∀ first ∈ strip.head?, ∀ last ∈ strip.getLast?,
    strip.foldl (fun s r => s + r.quantity) 0
      = input.qBtc * (strikeToUsd last.higherStrikeRaw
          - strikeToUsd first.lowerStrikeRaw)

/-- A price to the nearest tick, upwards from the middle. -/
def nearestTick (input : HedgeStripInputs) (usd : ℚ) : ℤ :=
  nearest input.tickSizeRaw (usd * strikeScalar)

/-- The lower rounding of the top is not above the floor at its highest. -/
def Narrow (input : HedgeStripInputs) : Prop :=
  min (usdToStrike input.topUsd) (input.nearestTick input.topUsd)
    ≤ max (max (usdToStrike input.floorUsd) input.minStrikeRaw)
        (input.nearestTick input.floorUsd)

/-- The top is not rounded up to its tick, and the floor is not rounded
down to one above the minimum strike. -/
def SnapsInwards (input : HedgeStripInputs) : Prop :=
  strikeToUsd (input.nearestTick input.topUsd) ≤ input.topUsd ∧
    (usdToStrike input.floorUsd ≤ input.minStrikeRaw ∨
      usdToStrike input.floorUsd ≤ input.nearestTick input.floorUsd)

instance (input : HedgeStripInputs) : Decidable input.Narrow :=
  inferInstanceAs (Decidable (_ ≤ _))

instance (input : HedgeStripInputs) : Decidable input.SnapsInwards :=
  inferInstanceAs (Decidable (_ ∧ _))

variable {input : HedgeStripInputs}

theorem topRaw_eq : input.topRaw
    = min (usdToStrike input.topUsd) (input.nearestTick input.topUsd) := by
  rw [topRaw, tickUsd, spotToTick_eq, nearestTick]

theorem floorRaw_eq : input.floorRaw
    = max (max (usdToStrike input.floorUsd) input.minStrikeRaw)
        (input.nearestTick input.floorUsd) := by
  rw [floorRaw, tickUsd, spotToTick_eq, nearestTick]

theorem narrow_iff : input.Narrow ↔ input.topRaw ≤ input.floorRaw := by
  rw [topRaw_eq, floorRaw_eq, Narrow]

/-- The ends of the strip are where they should be exactly if the roundings
went inwards. -/
theorem ends_iff (hv : input.Valid) :
    ((input.tickSizeRaw : ℤ) ∣ input.floorRaw ∧
      (input.tickSizeRaw : ℤ) ∣ input.topRaw ∧
      strikeToUsd input.topRaw ≤ input.topUsd) ↔ input.SnapsInwards := by
  have htick : (0 : ℤ) < input.tickSizeRaw := Int.natCast_pos.mpr hv.tick_pos
  have hmin : (input.tickSizeRaw : ℤ) ∣ input.minStrikeRaw :=
    Int.natCast_dvd_natCast.mpr hv.tick_dvd
  rw [floorRaw_eq, topRaw_eq, strikeToUsd_le_iff, SnapsInwards,
    strikeToUsd_le_iff]
  exact and_comm.trans (and_congr (min_round_nearest_iff htick)
    (dvd_max_round_nearest_iff htick hmin))

end HedgeStripInputs

/-- No edge is off the grid or out of the band unless an end is. -/
theorem tiled_iff {input : HedgeStripInputs} (hv : input.Valid)
    (hopen : input.Open) {fuel : ℕ} {strip : List HedgeRange}
    (h : stripLoop input.qBtc input.minBinRaw input.topRaw fuel
      input.floorRaw = some strip) :
    input.Tiled strip ↔ input.SnapsInwards := by
  have hsized := stripLoop_sized hopen.qBtc_pos hopen.minBinRaw_pos
    hopen.nonempty.le h
  rw [← HedgeStripInputs.ends_iff hv]
  constructor
  · intro htiled
    obtain ⟨⟨first, hfirst, hfloor⟩, ⟨last, hlast, htop⟩⟩ :=
      hsized.tiles.exists_ends hopen.nonempty.ne
    refine ⟨hfloor ▸ (htiled.onGrid first hfirst).1,
      htop ▸ (htiled.onGrid last hlast).2, ?_⟩
    rw [← htop]
    exact (htiled.inBand last hlast _ (List.mem_pair.mpr (.inr rfl))).2
  · rintro ⟨hfloor, htop, hband⟩
    refine ⟨stripLoop_dvd hopen.qBtc_pos hopen.minBinRaw_pos
        HedgeStripInputs.minBinRaw_dvd htop hopen.nonempty.le hfloor h,
      hsized.tiles.chain, ?_, ?_⟩
    · intro r hr raw hraw
      obtain ⟨hfrom, hwide, hto⟩ := hsized.tiles.edges r hr
      have hbetween : input.floorRaw ≤ raw ∧ raw ≤ input.topRaw := by
        rcases List.mem_pair.mp hraw with rfl | rfl
        · exact ⟨hfrom, hwide.le.trans hto⟩
        · exact ⟨hfrom.trans hwide.le, hto⟩
      exact ⟨HedgeStripInputs.minStrike_le_floorRaw.trans hbetween.1,
        (strikeToUsd_mono hbetween.2).trans hband⟩
    · intro first hfirst last hlast
      rw [hsized.tiles.foldl_add (fun raw => input.qBtc * strikeToUsd raw)
          hsized.priced, hsized.tiles.head first hfirst,
        hsized.tiles.getLast last hlast, zero_add, mul_sub]

theorem tiled_nil (input : HedgeStripInputs) : input.Tiled [] where
  onGrid _ hr := absurd hr List.not_mem_nil
  shared := .nil
  inBand _ hr := absurd hr List.not_mem_nil
  hedged _ hfirst := absurd hfirst (Option.not_mem_none _)

theorem HedgeStripInputs.Valid.opens {input : HedgeStripInputs}
    (hv : input.Valid) (hne : ¬ input.Narrow) : input.Open where
  qBtc_pos := hv.qBtc_pos
  spot_pos := hv.spot_pos
  band hout := hout.elim (not_lt.mpr hv.lo_nonneg) (not_le.mpr hv.lo_lt_hi)
  tick_pos := hv.tick_pos
  nonempty := not_le.mp (mt HedgeStripInputs.narrow_iff.mpr hne)

/-- What a run of the builder gives, long enough to end. -/
theorem built_tiled_iff {input : HedgeStripInputs} (hv : input.Valid)
    {fuel : ℕ} {strip : List HedgeRange}
    (h : buildHedgeStrip fuel input = some strip) :
    input.Tiled strip ↔ input.Narrow ∨ input.SnapsInwards := by
  rcases buildHedgeStrip_cases input with ⟨hshut, hnil⟩ | ⟨hopen, hloop⟩
  · rw [hnil] at h
    cases h
    have hnarrow : input.Narrow := by
      by_contra hne
      exact hshut (hv.opens hne)
    exact iff_of_true (tiled_nil input) (Or.inl hnarrow)
  · rw [hloop] at h
    have hwide : ¬ input.Narrow := fun hnarrow =>
      absurd hopen.nonempty
        (not_lt.mpr (HedgeStripInputs.narrow_iff.mp hnarrow))
    rw [tiled_iff hv hopen h, or_iff_right hwide]

/-- The strip tiles the band on the tick grid exactly if the band is too
narrow for one, or its roundings go inwards. -/
theorem build_hedge_strip_tiled_iff (input : HedgeStripInputs)
    (hv : input.Valid) :
    (∃ n, ∀ fuel, n < fuel → ∃ strip,
      buildHedgeStrip fuel input = some strip ∧ input.Tiled strip) ↔
      input.Narrow ∨ input.SnapsInwards := by
  constructor
  · rintro ⟨n, hn⟩
    obtain ⟨strip, hbuilt, htiled⟩ := hn (n + 1) (Nat.lt_succ_self n)
    exact (built_tiled_iff hv hbuilt).mp htiled
  · intro h
    obtain ⟨n, strip, hbuilt⟩ := buildHedgeStrip_total input
    exact ⟨n, fun fuel hfuel => ⟨strip, hbuilt fuel hfuel,
      (built_tiled_iff hv (hbuilt fuel hfuel)).mpr h⟩⟩

/-- A cent of a coin against a drop by 2 % to 10 %, with ticks of a dollar
and strikes from 50000 dollars up. -/
def centAt (spot : ℚ) : HedgeStripInputs where
  qBtc := 1 / 100
  spot
  dropBandLo := 2 / 100
  dropBandHi := 10 / 100
  tickSizeRaw := 1000000000
  minStrikeRaw := 50000000000000

theorem centAt_valid {spot : ℚ} (h : 0 < spot) : (centAt spot).Valid where
  qBtc_pos := by norm_num [centAt]
  spot_pos := h
  lo_nonneg := by norm_num [centAt]
  lo_lt_hi := by norm_num [centAt]
  hi_lt_one := by norm_num [centAt]
  tick_pos := by norm_num [centAt]
  tick_dvd := by norm_num [centAt]

/-- At 64000 dollars both ends of the band are whole dollars. -/
theorem build_hedge_strip_tiled_iff_whole :
    ∃ n, ∀ fuel, n < fuel → ∃ strip,
      buildHedgeStrip fuel (centAt 64000) = some strip ∧
        (centAt 64000).Tiled strip :=
  (build_hedge_strip_tiled_iff (centAt 64000)
    (centAt_valid (by norm_num))).mpr (Or.inr (by decide +kernel))

/-- At 63775.94 dollars the floor is 57398.346 dollars, above its tick. -/
theorem hedge_strip_off_grid :
    ¬ ∀ input : HedgeStripInputs, input.Valid →
      ∃ n, ∀ fuel, n < fuel → ∃ strip,
        buildHedgeStrip fuel input = some strip ∧ input.Tiled strip := by
  intro hall
  obtain ⟨n, hn⟩ := hall (centAt (6377594 / 100))
    (centAt_valid (by norm_num))
  obtain ⟨strip, hbuilt, htiled⟩ := hn (n + 1) (Nat.lt_succ_self n)
  have hout : ¬ ((centAt (6377594 / 100)).Narrow ∨
      (centAt (6377594 / 100)).SnapsInwards) := by decide +kernel
  exact hout ((built_tiled_iff (centAt_valid (by norm_num)) hbuilt).mp htiled)

end M1n3Protocol.Web
