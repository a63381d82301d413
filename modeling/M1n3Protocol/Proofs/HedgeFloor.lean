/-
The floor a hedge's summary promises, against what its ranges pay.

# What is promised

`summarizeHedge` adds up all quantities: at the floor it counts on the whole
width of the band, times the coins. That is the put the strip stands for,
and "your revenue can't fall below" it.

# What is paid

A range pays only if the price settles within it, and then its own quantity
only. Within the lowest of several ranges the others pay nothing, so the
promise is kept by strips of a single range alone: those of a band at most
one tick wide. Its break-even price has to lie in that range as well, or
nothing is paid there.
-/
import M1n3Protocol.Proofs.HedgeStrip

namespace M1n3Protocol.Web

open Grid

/-- Revenue if the price settles at `settlement`, less the premium. -/
def hedgedRevenue (strip : List HedgeRange) (qBtc premiumUsd
    settlement : ℚ) : ℚ :=
  qBtc * settlement + stripPayoff strip settlement - premiumUsd

-- ================================================================ the payoff

theorem stripPayoff_eq_binPayoff (strip : List HedgeRange) (s : ℚ) :
    stripPayoff strip s = binPayoff (strip.map HedgeRange.bin) s := by
  induction strip with
  | nil => rfl
  | cons r strip ih =>
    rw [stripPayoff, List.map_cons, binPayoff, ← ih]
    rfl

/-- The chart and the simulation agree on what is paid. -/
theorem buildPayoffCurve_hedged {strip : List HedgeRange}
    {qBtc premiumUsd spot : ℚ} {opts : PayoffOptions} :
    ∀ point ∈ buildPayoffCurve strip qBtc premiumUsd spot opts,
      point.hedged = hedgedRevenue strip qBtc premiumUsd point.price := by
  intro point hpoint
  unfold buildPayoffCurve at hpoint
  split at hpoint
  · cases hpoint
  · obtain ⟨i, -, rfl⟩ := List.mem_map.mp hpoint
    rw [hedgedRevenue, stripPayoff_eq_binPayoff]

theorem simulateHedgePnl_hedged (samples : List ℚ) (qBtc : ℚ)
    (strip : List HedgeRange) (premiumUsd : ℚ) :
    (simulateHedgePnl samples qBtc strip premiumUsd).hedged
      = samples.map (hedgedRevenue strip qBtc premiumUsd) := rfl

theorem stripPayoff_outside {strip : List HedgeRange} {s : ℚ}
    (h : ∀ r ∈ strip, ¬ (strikeToUsd r.lowerStrikeRaw ≤ s ∧
      s < strikeToUsd r.higherStrikeRaw)) : stripPayoff strip s = 0 := by
  induction strip with
  | nil => rfl
  | cons r strip ih =>
    rw [stripPayoff, if_neg (h r List.mem_cons_self)]
    exact ih fun r' hr' => h r' (List.mem_cons_of_mem r hr')

section Sized

variable {qBtc s : ℚ} {a b : ℤ} {r : HedgeRange} {strip : List HedgeRange}

theorem Sized.payoff_head (h : Sized qBtc a (r :: strip) b)
    (hlo : strikeToUsd a ≤ s) (hhi : s < strikeToUsd r.higherStrikeRaw) :
    stripPayoff (r :: strip) s
      = qBtc * strikeToUsd r.higherStrikeRaw - qBtc * strikeToUsd a := by
  have hfirst : r.lowerStrikeRaw = a := h.tiles.1
  rw [stripPayoff, if_pos ⟨hfirst ▸ hlo, hhi⟩, h.priced r List.mem_cons_self,
    hfirst]

theorem Sized.payoff_outside (h : Sized qBtc a strip b)
    (hs : s < strikeToUsd a ∨ strikeToUsd b ≤ s) : stripPayoff strip s = 0 :=
  stripPayoff_outside ((h.tiles.map strikeToUsd_lt).outside hs)

end Sized

-- =============================================================== the summary

theorem summarizeHedge_sized {strip : List HedgeRange} {qBtc spot : ℚ}
    {a b : ℤ} (hq : 0 < qBtc) (hspot : 0 < spot) (ha : 0 ≤ a)
    (hne : strip ≠ []) (h : Sized qBtc a strip b)
    (premiumUsd expectedUsd : ℚ) :
    ∃ summary,
      summarizeHedge strip qBtc spot premiumUsd expectedUsd = some summary ∧
      summary.floorUsd = strikeToUsd a ∧ summary.topUsd = strikeToUsd b ∧
      summary.flooredRevenueUsd = qBtc * strikeToUsd b - premiumUsd ∧
      summary.breakEvenSpot = strikeToUsd b - premiumUsd / qBtc := by
  have htop := h.tiles.foldl_max ha
  have hsum := h.tiles.foldl_add (fun raw => qBtc * strikeToUsd raw)
    h.priced 0
  rw [if_neg hne] at htop
  cases strip with
  | nil => exact absurd rfl hne
  | cons r rest =>
    obtain ⟨hlow, hwide, hrest⟩ := h.tiles
    have hfloor : rest.foldl (fun m r => min m r.lowerStrikeRaw)
        r.lowerStrikeRaw = a := by
      rw [hlow]
      exact hrest.foldl_min hwide.le
    refine ⟨_, if_neg (not_or.mpr ⟨not_le.mpr hq, not_le.mpr hspot⟩), ?_, ?_,
      ?_, ?_⟩
    · exact congrArg strikeToUsd hfloor
    · exact congrArg strikeToUsd htop
    · simp only [hfloor, hsum]
      ring
    · simp only [if_pos hq, htop]

/-- The floor promised is delivered: wherever the price settles in the
band, and at the price that should pay the premium back. -/
def FloorKept (strip : List HedgeRange) (qBtc spot premiumUsd
    expectedUsd : ℚ) : Prop :=
  ∃ summary,
    summarizeHedge strip qBtc spot premiumUsd expectedUsd = some summary ∧
    (∀ settlement, summary.floorUsd ≤ settlement →
      settlement < summary.topUsd → summary.flooredRevenueUsd
        ≤ hedgedRevenue strip qBtc premiumUsd settlement) ∧
    premiumUsd ≤ stripPayoff strip summary.breakEvenSpot

theorem floorKept_iff_revenue {strip : List HedgeRange} {qBtc spot : ℚ}
    {a b : ℤ} (hq : 0 < qBtc) (hspot : 0 < spot) (ha : 0 ≤ a)
    (hne : strip ≠ []) (h : Sized qBtc a strip b)
    (premiumUsd expectedUsd : ℚ) :
    FloorKept strip qBtc spot premiumUsd expectedUsd ↔
      (∀ settlement, strikeToUsd a ≤ settlement →
        settlement < strikeToUsd b →
        qBtc * strikeToUsd b
          ≤ qBtc * settlement + stripPayoff strip settlement) ∧
      premiumUsd
        ≤ stripPayoff strip (strikeToUsd b - premiumUsd / qBtc) := by
  obtain ⟨summary, hsummary, hfloor, htop, hrevenue, heven⟩ :=
    summarizeHedge_sized hq hspot ha hne h premiumUsd expectedUsd
  constructor
  · rintro ⟨summary', hsummary', hband, hpaid⟩
    rw [hsummary] at hsummary'
    cases hsummary'
    rw [heven] at hpaid
    refine ⟨fun settlement hlo hhi => ?_, hpaid⟩
    have hkept := hband settlement (hfloor ▸ hlo) (htop ▸ hhi)
    rw [hrevenue, hedgedRevenue] at hkept
    linarith
  · rintro ⟨hband, hpaid⟩
    refine ⟨summary, hsummary, fun settlement hlo hhi => ?_, heven ▸ hpaid⟩
    have hkept := hband settlement (hfloor ▸ hlo) (htop ▸ hhi)
    rw [hrevenue, hedgedRevenue]
    linarith

/-- At the floor only the lowest range pays, and its upper edge is what it
makes up for. -/
theorem Sized.single_of_floor {strip : List HedgeRange} {qBtc : ℚ}
    {a b : ℤ} (hq : 0 < qBtc) (hne : strip ≠ [])
    (h : Sized qBtc a strip b)
    (hfloor : qBtc * strikeToUsd b
      ≤ qBtc * strikeToUsd a + stripPayoff strip (strikeToUsd a)) :
    ∃ r, strip = [r] := by
  cases strip with
  | nil => exact absurd rfl hne
  | cons r rest =>
    obtain ⟨hlow, hwide, hrest⟩ := h.tiles
    rw [h.payoff_head le_rfl (strikeToUsd_lt hwide)] at hfloor
    have htop : b ≤ r.higherStrikeRaw := by
      by_contra hbelow
      have := mul_lt_mul_of_pos_left (strikeToUsd_lt (not_le.mp hbelow)) hq
      linarith
    have hrestnil : rest = [] := by
      by_contra hmore
      exact absurd (hrest.lt hmore) (not_lt.mpr htop)
    exact ⟨r, by rw [hrestnil]⟩

/-- What a single range pays. -/
theorem Sized.payoff_single {r : HedgeRange} {qBtc s : ℚ} {a b : ℤ}
    (h : Sized qBtc a [r] b) (hlo : strikeToUsd a ≤ s)
    (hhi : s < strikeToUsd b) :
    stripPayoff [r] s = qBtc * strikeToUsd b - qBtc * strikeToUsd a := by
  have hlast : r.higherStrikeRaw = b := h.tiles.2.2
  rw [h.payoff_head hlo (hlast ▸ hhi), hlast]

theorem floorKept_iff {strip : List HedgeRange} {qBtc spot : ℚ}
    {a b : ℤ} (hq : 0 < qBtc) (hspot : 0 < spot) (ha : 0 ≤ a)
    (hne : strip ≠ []) (h : Sized qBtc a strip b)
    (premiumUsd expectedUsd : ℚ) :
    FloorKept strip qBtc spot premiumUsd expectedUsd ↔
      (∃ r, strip = [r]) ∧ premiumUsd ≤ qBtc * strikeToUsd (b - a) := by
  have hab : strikeToUsd a < strikeToUsd b :=
    strikeToUsd_lt (h.tiles.lt hne)
  rw [floorKept_iff_revenue hq hspot ha hne h, strikeToUsd_sub, mul_sub]
  constructor
  · rintro ⟨hband, hpaid⟩
    obtain ⟨r, rfl⟩ := h.single_of_floor hq hne (hband _ le_rfl hab)
    refine ⟨⟨r, rfl⟩, ?_⟩
    by_contra hdear
    -- a dear premium is paid back below the floor only
    have hbelow : strikeToUsd b - premiumUsd / qBtc < strikeToUsd a := by
      rw [sub_lt_comm, lt_div_iff₀ hq]
      linarith
    rw [h.payoff_outside (Or.inl hbelow)] at hpaid
    have hgain : 0 < qBtc * (strikeToUsd b - strikeToUsd a) :=
      mul_pos hq (sub_pos.mpr hab)
    linarith
  · rintro ⟨⟨r, rfl⟩, hcheap⟩
    constructor
    · intro settlement hlo hhi
      rw [h.payoff_single hlo hhi]
      have := mul_le_mul_of_nonneg_left hlo hq.le
      linarith
    · rcases le_or_gt premiumUsd 0 with hfree | hpremium
      · have habove : strikeToUsd b ≤ strikeToUsd b - premiumUsd / qBtc := by
          have := div_nonpos_of_nonpos_of_nonneg hfree hq.le
          linarith
        rw [h.payoff_outside (Or.inr habove)]
        exact hfree
      · have hin : strikeToUsd a ≤ strikeToUsd b - premiumUsd / qBtc := by
          rw [le_sub_comm, div_le_iff₀ hq]
          linarith
        have hbelow : strikeToUsd b - premiumUsd / qBtc < strikeToUsd b :=
          sub_lt_self _ (div_pos hpremium hq)
        rw [h.payoff_single hin hbelow]
        exact hcheap

-- ============================================================ a single range

namespace HedgeStripInputs

/-- The band, its ends rounded, is no wider than a tick. -/
def OneTick (input : HedgeStripInputs) : Prop :=
  input.topRaw - input.floorRaw ≤ input.tickSizeRaw

instance (input : HedgeStripInputs) : Decidable input.OneTick :=
  inferInstanceAs (Decidable (_ ≤ _))

variable {input : HedgeStripInputs}

/-- An eighth of the band, in whole ticks, is less than the band. -/
theorem Open.span_le_minBinRaw_iff (h : input.Open) :
    input.topRaw - input.floorRaw ≤ input.minBinRaw ↔ input.OneTick := by
  have htick : (0 : ℚ) < input.tickSizeRaw := Nat.cast_pos.mpr h.tick_pos
  have hspan : (0 : ℚ) < (input.topRaw - input.floorRaw : ℤ) :=
    Int.cast_pos.mpr (Int.sub_pos.mpr h.nonempty)
  have heighth : ⌊((input.topRaw - input.floorRaw : ℤ) : ℚ) / targetBins
      / input.tickSizeRaw⌋ * input.tickSizeRaw
      < input.topRaw - input.floorRaw := by
    rw [← Int.cast_lt (R := ℚ), Int.cast_mul, Int.cast_natCast]
    calc (⌊((input.topRaw - input.floorRaw : ℤ) : ℚ) / targetBins
          / input.tickSizeRaw⌋ : ℚ) * input.tickSizeRaw
        ≤ ((input.topRaw - input.floorRaw : ℤ) : ℚ) / targetBins
          / input.tickSizeRaw * input.tickSizeRaw :=
          mul_le_mul_of_nonneg_right (Int.floor_le _) htick.le
      _ = ((input.topRaw - input.floorRaw : ℤ) : ℚ) / 8 := by
          rw [div_mul_cancel₀ _ htick.ne', targetBins, Int.cast_ofNat]
      _ < (input.topRaw - input.floorRaw : ℤ) := by linarith
  rw [minBinRaw, le_max_iff, or_iff_left (not_le.mpr heighth), OneTick]

theorem Open.single_iff (h : input.Open) {fuel : ℕ}
    {strip : List HedgeRange}
    (hloop : stripLoop input.qBtc input.minBinRaw input.topRaw fuel
      input.floorRaw = some strip) :
    (∃ r, strip = [r]) ↔ input.OneTick := by
  rw [← h.span_le_minBinRaw_iff]
  cases fuel with
  | zero => cases hloop
  | succ fuel =>
    rw [stripLoop_step h.qBtc_pos h.minBinRaw_pos h.nonempty] at hloop
    obtain ⟨rest, hrest, rfl⟩ := Option.map_eq_some_iff.mp hloop
    have htiles := (stripLoop_sized h.qBtc_pos h.minBinRaw_pos
      (min_le_right _ _) hrest).tiles
    constructor
    · rintro ⟨r, hsingle⟩
      cases hsingle
      have hend : min (input.floorRaw + input.minBinRaw) input.topRaw
          = input.topRaw := htiles
      have := min_eq_right_iff.mp hend
      omega
    · intro hspan
      have hend : min (input.floorRaw + input.minBinRaw) input.topRaw
          = input.topRaw := min_eq_right (by omega)
      have hnil : rest = [] := by
        by_contra hmore
        exact absurd (htiles.lt hmore) (not_lt.mpr hend.ge)
      exact ⟨_, by rw [hnil]⟩

end HedgeStripInputs

/-- The promise of the summary is kept exactly where the strip is a single
range that pays at least the premium. -/
theorem hedge_floor_kept_iff (input : HedgeStripInputs) (fuel : ℕ)
    (strip : List HedgeRange)
    (h : buildHedgeStrip fuel input = some strip) (hne : strip ≠ [])
    (premiumUsd expectedUsd : ℚ) :
    FloorKept strip input.qBtc input.spot premiumUsd expectedUsd ↔
      input.OneTick ∧ premiumUsd
        ≤ input.qBtc * strikeToUsd (input.topRaw - input.floorRaw) := by
  obtain ⟨hopen, hsized⟩ := buildHedgeStrip_sized h hne
  have hloop : stripLoop input.qBtc input.minBinRaw input.topRaw fuel
      input.floorRaw = some strip := by
    rcases buildHedgeStrip_cases input with ⟨hshut, _⟩ | ⟨_, heq⟩
    · exact absurd hopen hshut
    · rw [← heq]
      exact h
  have hfloor : 0 ≤ input.floorRaw :=
    (Int.natCast_nonneg _).trans HedgeStripInputs.minStrike_le_floorRaw
  rw [floorKept_iff hopen.qBtc_pos hopen.spot_pos hfloor hne hsized,
    hopen.single_iff hloop]

/-- A band of one tick of 64 dollars, for a quarter of a dollar. -/
theorem hedge_floor_kept_iff_oneTick :
    FloorKept [⟨63872000000000, 63936000000000, 16 / 25⟩] (1 / 100) 64000
      (1 / 4) 0 :=
  (hedge_floor_kept_iff
    { qBtc := 1 / 100, spot := 64000, dropBandLo := 1 / 1000,
      dropBandHi := 2 / 1000, tickSizeRaw := 64000000000,
      minStrikeRaw := 0 }
    2 [⟨63872000000000, 63936000000000, 16 / 25⟩] (by decide +kernel)
    (List.cons_ne_nil _ _) (1 / 4) 0).mpr (by decide +kernel)

/-- Eight ranges from 57600 to 62720 dollars for a premium of a dollar: the
summary promises 626.2 dollars, the lowest range leaves 581.4. -/
theorem hedge_floor_missed :
    ¬ ∀ (input : HedgeStripInputs) (fuel : ℕ) (strip : List HedgeRange),
      buildHedgeStrip fuel input = some strip → strip ≠ [] →
      ∀ premiumUsd expectedUsd : ℚ,
        FloorKept strip input.qBtc input.spot premiumUsd expectedUsd := by
  intro hall
  let strip : List HedgeRange :=
    [⟨57600000000000, 58240000000000, 32 / 5⟩,
      ⟨58240000000000, 58880000000000, 32 / 5⟩,
      ⟨58880000000000, 59520000000000, 32 / 5⟩,
      ⟨59520000000000, 60160000000000, 32 / 5⟩,
      ⟨60160000000000, 60800000000000, 32 / 5⟩,
      ⟨60800000000000, 61440000000000, 32 / 5⟩,
      ⟨61440000000000, 62080000000000, 32 / 5⟩,
      ⟨62080000000000, 62720000000000, 32 / 5⟩]
  have hbuilt : buildHedgeStrip 9 (centAt 64000) = some strip := by
    decide +kernel
  obtain ⟨summary, hsummary, hband, -⟩ := hall (centAt 64000) 9 strip hbuilt
    (List.cons_ne_nil _ _) 1 0
  have hfields : (summarizeHedge strip (centAt 64000).qBtc
      (centAt 64000).spot 1 0).map (fun s =>
        (s.floorUsd, s.topUsd, s.flooredRevenueUsd))
      = some (57600, 62720, 6262 / 10) := by decide +kernel
  rw [hsummary, Option.map_some, Option.some.injEq, Prod.mk.injEq,
    Prod.mk.injEq] at hfields
  obtain ⟨hfloor, htop, hrevenue⟩ := hfields
  have hkept := hband 57600 hfloor.le (by rw [htop]; norm_num)
  rw [hrevenue] at hkept
  have hpaid : hedgedRevenue strip (centAt 64000).qBtc 1 57600 = 5814 / 10 := by
    decide +kernel
  rw [hpaid] at hkept
  norm_num at hkept

end M1n3Protocol.Web
