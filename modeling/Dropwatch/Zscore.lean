import Dropwatch.Values

/-! # The z-score filter — `workers/zscore_filter.py`

    The last price of a window is scored by its log return against the returns
    before it, itself excluded.  The float pipeline is written over the runtime,
    with the places where Python raises: a zero price (division), a price that
    fell to zero (logarithm of zero) and the mean of an empty baseline. -/

namespace Dropwatch.Zscore

variable (rt : Runtime)

/-- The outcome of scoring.  `z` is absent exactly on a zero-variance window. -/
structure ZScoreResult where
  currentReturn : rt.F
  windowSize : Nat
  z : Option rt.F

/-- `is_zero_variance` -/
def ZScoreResult.isZeroVariance {rt : Runtime} (r : ZScoreResult rt) : Bool :=
  r.z.isNone

/-- `[math.log(floats[i] / floats[i - 1]) for i in range(1, len(floats))]` -/
def logReturns : List rt.F → Except PyError (List rt.F)
  | previous :: current :: rest => do
      let ratio ← rt.divide current previous
      let r ← rt.mathLog ratio
      let rs ← logReturns (current :: rest)
      pure (r :: rs)
  | _ => pure []

/-- `xs[-window:]`; a window of 0 is the whole list, as in Python. -/
def lastSlice {α : Type} (window : Nat) (xs : List α) : List α :=
  if window = 0 then xs else xs.drop (xs.length - window)

/-- The baseline's mean; `statistics.fmean` refuses an empty list. -/
def fmean (xs : List rt.F) : Except PyError rt.F :=
  if xs.isEmpty then .error .statisticsError else .ok (rt.fmean xs)

/-- Score `current` against a baseline. -/
def scoreReturn (current : rt.F) (baseline : List rt.F) :
    Except PyError (ZScoreResult rt) := do
  let mean ← fmean rt baseline
  let stdev := if 2 ≤ baseline.length then rt.stdev baseline else rt.zero
  if rt.isZero stdev then
    pure ⟨current, baseline.length, none⟩
  else
    let z ← rt.divide (rt.sub current mean) stdev
    pure ⟨current, baseline.length, some z⟩

/-- `compute_zscore(prices, window, min_observations)`, prices oldest first. -/
def computeZscore (prices : List Decimal) (window minObservations : Nat) :
    Except PyError (Option (ZScoreResult rt)) :=
  if prices.length < 2 then .ok none
  else do
    let returns ← logReturns rt (prices.map rt.ofDecimal)
    match returns.getLast? with
    | none => pure none
    | some current =>
        let baselineAll := returns.dropLast
        if baselineAll.length < minObservations then pure none
        else
          let baseline :=
            if window < baselineAll.length then lastSlice window baselineAll
            else baselineAll
          let result ← scoreReturn rt current baseline
          pure (some result)

end Dropwatch.Zscore
