/-
`hedge-math.ts`: the strip of ranges bought against a drop of the price,
what its summary promises, and what the ranges pay.

# Numbers

They are exact: a strike is an integer, anything else a rational.
`Math.round` goes up from the middle, as `round` does. A tick size of 0
makes every strike of the source not a number, and the strip empty; here it
puts the top at 0, which leaves the strip empty as well.

# Settlement prices

`simulateHedgePnl` draws them from the surface. They are given here, and of
its result the statistics over the samples are left out.
-/
import M1n3Protocol.Lib.Grid
import Mathlib.Data.Rat.Floor

namespace M1n3Protocol.Web

open Grid

-- =================================================================== strikes

def strikeScalar : ℤ := 1000000000

def strikeToUsd (raw : ℤ) : ℚ := raw / strikeScalar

def usdToStrike (usd : ℚ) : ℤ := round (usd * strikeScalar)

def spotToTick (usd tickUsd : ℚ) : ℤ :=
  round ((round (usd / tickUsd) : ℚ) * tickUsd * strikeScalar)

theorem strikeScalar_pos : (0 : ℚ) < strikeScalar := by
  norm_num [strikeScalar]

theorem strikeToUsd_lt {a b : ℤ} (h : a < b) :
    strikeToUsd a < strikeToUsd b :=
  div_lt_div_of_pos_right (Int.cast_lt.mpr h) strikeScalar_pos

theorem strikeToUsd_mono {a b : ℤ} (h : a ≤ b) :
    strikeToUsd a ≤ strikeToUsd b :=
  div_le_div_of_nonneg_right (Int.cast_le.mpr h) strikeScalar_pos.le

theorem strikeToUsd_sub (a b : ℤ) :
    strikeToUsd (a - b) = strikeToUsd a - strikeToUsd b := by
  rw [strikeToUsd, Int.cast_sub, sub_div]
  rfl

theorem strikeToUsd_le_iff {raw : ℤ} {usd : ℚ} :
    strikeToUsd raw ≤ usd ↔ (raw : ℚ) ≤ usd * strikeScalar :=
  div_le_iff₀ strikeScalar_pos

/-- Through dollars and back, a tick is the nearest multiple of the tick
size. -/
theorem spotToTick_eq (usd : ℚ) (tick : ℕ) :
    spotToTick usd (tick / strikeScalar)
      = nearest tick (usd * strikeScalar) := by
  rw [spotToTick, mul_assoc, div_mul_cancel₀ _ strikeScalar_pos.ne',
    div_div_eq_mul_div, nearest, Int.cast_natCast]
  exact_mod_cast round_intCast _

-- ================================================================= the strip

structure HedgeRange where
  lowerStrikeRaw : ℤ
  higherStrikeRaw : ℤ
  quantity : ℚ
deriving DecidableEq

structure HedgeStripInputs where
  qBtc : ℚ
  spot : ℚ
  dropBandLo : ℚ
  dropBandHi : ℚ
  tickSizeRaw : ℕ
  minStrikeRaw : ℕ

namespace HedgeStripInputs

variable (input : HedgeStripInputs)

def topUsd : ℚ := input.spot * (1 - input.dropBandLo)

def floorUsd : ℚ := input.spot * (1 - input.dropBandHi)

def tickUsd : ℚ := input.tickSizeRaw / strikeScalar

def topRaw : ℤ :=
  min (usdToStrike input.topUsd) (spotToTick input.topUsd input.tickUsd)

def floorRaw : ℤ :=
  max (max (usdToStrike input.floorUsd) input.minStrikeRaw)
    (spotToTick input.floorUsd input.tickUsd)

def targetBins : ℤ := 8

def minBinRaw : ℤ :=
  let rawSpan := input.topRaw - input.floorRaw
  max input.tickSizeRaw
    (⌊(rawSpan : ℚ) / targetBins / input.tickSizeRaw⌋ * input.tickSizeRaw)

end HedgeStripInputs

/-- The loop over the band; `none` if it is still going after `fuel`
rounds. -/
def stripLoop (qBtc : ℚ) (minBinRaw topRaw : ℤ) :
    ℕ → ℤ → Option (List HedgeRange)
  | 0, _ => none
  | fuel + 1, lowerRaw =>
      if lowerRaw < topRaw then
        let higherRaw := min (lowerRaw + minBinRaw) topRaw
        let widthUsd := strikeToUsd (higherRaw - lowerRaw)
        let quantity := qBtc * widthUsd
        (stripLoop qBtc minBinRaw topRaw fuel higherRaw).map fun ranges =>
          if 0 < quantity then ⟨lowerRaw, higherRaw, quantity⟩ :: ranges
          else ranges
      else some []

def buildHedgeStrip (fuel : ℕ) (input : HedgeStripInputs) :
    Option (List HedgeRange) :=
  if input.qBtc ≤ 0 ∨ input.spot ≤ 0 then some []
  else if input.dropBandLo < 0 ∨ input.dropBandHi ≤ input.dropBandLo then
    some []
  else if input.topRaw ≤ input.floorRaw then some []
  else stripLoop input.qBtc input.minBinRaw input.topRaw fuel input.floorRaw

-- ================================================================ the summary

structure HedgeSummary where
  premiumUsd : ℚ
  premiumPctOfRevenue : ℚ
  maxProtectedUsd : ℚ
  floorUsd : ℚ
  topUsd : ℚ
  flooredRevenueUsd : ℚ
  unhedgedAtFloorUsd : ℚ
  breakEvenSpot : ℚ
  breakEvenDropPct : ℚ

def summarizeHedge (strip : List HedgeRange) (qBtc spot premiumUsd
    expectedUsd : ℚ) : Option HedgeSummary :=
  match strip with
  | [] => none
  | range :: rest =>
      if qBtc ≤ 0 ∨ spot ≤ 0 then none
      else
        -- the first range takes the place of the infinity it is compared to
        let floorUsd := strikeToUsd
          (rest.foldl (fun m r => min m r.lowerStrikeRaw)
            range.lowerStrikeRaw)
        let topUsd := strikeToUsd
          (strip.foldl (fun m r => max m r.higherStrikeRaw) 0)
        let maxProtectedUsd := strip.foldl (fun s r => s + r.quantity) 0
        let unhedgedAtFloorUsd := qBtc * floorUsd
        let breakEvenSpot :=
          if 0 < qBtc then topUsd - premiumUsd / qBtc else topUsd
        some {
          premiumUsd
          premiumPctOfRevenue :=
            if 0 < expectedUsd then premiumUsd / expectedUsd else 0
          maxProtectedUsd
          floorUsd
          topUsd
          flooredRevenueUsd :=
            unhedgedAtFloorUsd + maxProtectedUsd - premiumUsd
          unhedgedAtFloorUsd
          breakEvenSpot
          breakEvenDropPct :=
            if 0 < spot then max 0 ((spot - breakEvenSpot) / spot) else 0 }

-- ================================================================= the payoff

structure PayoffBin where
  lo : ℚ
  hi : ℚ
  q : ℚ

def HedgeRange.bin (r : HedgeRange) : PayoffBin where
  lo := strikeToUsd r.lowerStrikeRaw
  hi := strikeToUsd r.higherStrikeRaw
  q := r.quantity

/-- The loop over the bins, left at the first one the price is in. -/
def binPayoff : List PayoffBin → ℚ → ℚ
  | [], _ => 0
  | b :: bins, price =>
      if b.lo ≤ price ∧ price < b.hi then b.q else binPayoff bins price

structure PayoffOptions where
  loFrac : ℚ := 12 / 100
  hiFrac : ℚ := 6 / 100
  steps : ℕ := 140
  steps_pos : 0 < steps := by decide

structure PayoffPoint where
  price : ℚ
  unhedged : ℚ
  hedged : ℚ

def buildPayoffCurve (strip : List HedgeRange) (qBtc premiumUsd spot : ℚ)
    (opts : PayoffOptions) : List PayoffPoint :=
  if qBtc ≤ 0 ∨ spot ≤ 0 then []
  else
    let lo := spot * (1 - opts.loFrac)
    let hi := spot * (1 + opts.hiFrac)
    let bins := strip.map HedgeRange.bin
    (List.range (opts.steps + 1)).map fun i =>
      let price := lo + (hi - lo) * i / opts.steps
      { price
        unhedged := qBtc * price
        hedged := qBtc * price + binPayoff bins price - premiumUsd }

/-- The loop over the strip for one sample. -/
def stripPayoff : List HedgeRange → ℚ → ℚ
  | [], _ => 0
  | r :: strip, s =>
      let lo := strikeToUsd r.lowerStrikeRaw
      let hi := strikeToUsd r.higherStrikeRaw
      if lo ≤ s ∧ s < hi then r.quantity else stripPayoff strip s

structure SimulationResult where
  samples : List ℚ
  unhedged : List ℚ
  hedged : List ℚ

def simulateHedgePnl (samples : List ℚ) (qBtc : ℚ)
    (strip : List HedgeRange) (premiumUsd : ℚ) : SimulationResult where
  samples
  unhedged := samples.map fun s => qBtc * s
  hedged := samples.map fun s => qBtc * s + stripPayoff strip s - premiumUsd

end M1n3Protocol.Web
