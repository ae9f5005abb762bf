import Dropwatch.Zscore

/-! # The measurement sweep — `scripts/measure_zscore_filter.py`

    `_sweep_pair` walks over the captured prices of one pair and decides at every
    index, with its own slice and its own inlined decision, whether the filter
    would have fired.  What is counted over the pairs is in `Reduction`; the report is not
    modelled. -/

namespace Dropwatch.Measure

open Zscore

variable (rt : Runtime)

/-- `SIGMA_CUTOFF`, the float `2.0`. -/
def sigmaCutoff : rt.F := rt.ofDecimal ⟨false, 20, -1⟩

/-- `ZERO_VARIANCE_MIN_PERCENT`, the float `0.5`. -/
def zeroVarianceMinPercent : rt.F := rt.ofDecimal ⟨false, 5, -1⟩

/-- `WINDOW` -/
def window : Nat := 60

/-- `MIN_OBSERVATIONS` -/
def minObservations : Nat := 30

/-- `MAX_PRICES_NEEDED` -/
def maxPricesNeeded : Nat := window + 2

/-- One dict of the result list. -/
structure SweepResult where
  naiveFires : Bool
  zscoreFires : Bool
  hasBaseline : Bool
  deriving DecidableEq, Repr

/-- `prices[max(0, i + 1 - MAX_PRICES_NEEDED) : i + 1]` -/
def windowSlice (prices : List Decimal) (i : Nat) : List Decimal :=
  (prices.take (i + 1)).drop (i + 1 - maxPricesNeeded)

/-- `prices[i]`, for an index of the list. -/
def priceAt (prices : List Decimal) (i : Nat) : Decimal := prices.getD i ⟨false, 0, 0⟩

/-- The inlined decision: what fires and whether there was a baseline. -/
def sweepDecision (zresult : Option (ZScoreResult rt)) : Bool × Bool :=
  match zresult with
  | none => (false, false)
  | some zresult =>
      match zresult.z with
      | none =>
          (rt.le (zeroVarianceMinPercent rt)
            (rt.percent (rt.abs (rt.expm1 zresult.currentReturn))), true)
      | some z => (rt.le (sigmaCutoff rt) (rt.abs z), true)

/-- One pass of the loop. -/
def sweepAt (prices : List Decimal) (naiveThresholdPercent : rt.F) (i : Nat) :
    Except PyError SweepResult := do
  let zresult ← computeZscore rt (windowSlice prices i) window minObservations
  let current := rt.ofDecimal (priceAt prices i)
  let previous := rt.ofDecimal (priceAt prices (i - 1))
  let move ← rt.divide (rt.sub current previous) previous
  let naiveFires := rt.lt naiveThresholdPercent (rt.percent (rt.abs move))
  let (zscoreFires, hasBaseline) := sweepDecision rt zresult
  pure ⟨naiveFires, zscoreFires, hasBaseline⟩

/-- The loop over some indices. -/
def sweepOver (prices : List Decimal) (naiveThresholdPercent : rt.F) :
    List Nat → Except PyError (List SweepResult)
  | [] => pure []
  | i :: rest => do
      let result ← sweepAt rt prices naiveThresholdPercent i
      let results ← sweepOver prices naiveThresholdPercent rest
      pure (result :: results)

/-- `_sweep_pair` -/
def sweepPair (prices : List Decimal) (naiveThresholdPercent : rt.F) :
    Except PyError (List SweepResult) :=
  sweepOver rt prices naiveThresholdPercent (List.range' 1 (prices.length - 1))

end Dropwatch.Measure
