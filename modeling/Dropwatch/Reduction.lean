import Dropwatch.DecimalText
import Dropwatch.Measure
import Dropwatch.Tables

/-! # The reduction measurement — `scripts/build_zscore_fixture.py`, `measure_zscore_filter.py`

    The fixture has the stored prices of every pair with enough of them, as text.  The
    measurement reads them back, sweeps every pair once for each naive threshold and
    compares the fires.  The file between the two scripts, the synthetic cases and the
    report are left out. -/

namespace Dropwatch.Measure

/-- What the scripts can raise. -/
inductive ScriptError where
  | invalidOperation
  | raised (e : PyError)
  deriving DecidableEq, Repr

/-! ## The fixture -/

/-- `MIN_ROWS_PER_PAIR` -/
def minRowsPerPair : Nat := 500

/-- One dict of `real_pairs`. -/
structure RealPair where
  pairName : String
  displayName : String
  prices : List String
  observedAt : List String
  deriving DecidableEq, Repr

/-- The rows of a pair, oldest first. -/
def historyAsc (db : Database) (pairId : Uuid) : List PriceHistory :=
  (db.priceHistory.filter (fun r => r.pairId == pairId)).insertionSort
    (fun a b => a.observedAt ≤ b.observedAt)

/-- One pass of the loop of `_fetch_real_pairs`. -/
def realPair (db : Database) (pair : Pair) : Option RealPair :=
  let rows := historyAsc db pair.id
  if rows.length < minRowsPerPair then none
  else
    some
      { pairName := pair.krakenPairName
        displayName := pair.displayName
        prices := rows.map (fun r => r.lastPrice.str)
        observedAt := rows.map (fun r => isoformat r.observedAt) }

/-- `_fetch_real_pairs` -/
def fetchRealPairs (db : Database) : List RealPair := db.pairs.filterMap (realPair db)

/-! ## The measurement -/

/-- `[Decimal(p) for p in pair["prices"]]` -/
def readPrices : List String → Except ScriptError (List Decimal)
  | [] => .ok []
  | text :: rest =>
      match Decimal.ofString text with
      | none => .error .invalidOperation
      | some price => do
          let prices ← readPrices rest
          pure (price :: prices)

/-- The four counters of `run_reduction_measurement`. -/
structure Totals where
  naiveTotal : Nat := 0
  zscoreTotal : Nat := 0
  naiveTotalExcl : Nat := 0
  zscoreTotalExcl : Nat := 0
  deriving DecidableEq, Repr

/-- What the sweep of a pair adds to them. -/
def Totals.add (t : Totals) (sweep : List SweepResult) : Totals where
  naiveTotal := t.naiveTotal + sweep.countP (fun r => r.naiveFires)
  zscoreTotal := t.zscoreTotal + sweep.countP (fun r => r.zscoreFires)
  naiveTotalExcl := t.naiveTotalExcl + sweep.countP (fun r => r.naiveFires && r.hasBaseline)
  zscoreTotalExcl := t.zscoreTotalExcl + sweep.countP (fun r => r.zscoreFires && r.hasBaseline)

/-- `_reduction_percent`, exact here. -/
def reductionPercent (naiveCount zscoreCount : Nat) : Option ℚ :=
  if naiveCount = 0 then none else some ((1 - zscoreCount / naiveCount) * 100)

/-- One dict of `per_threshold`. -/
structure Reduction where
  naiveTotal : Nat
  zscoreTotal : Nat
  includingColdStart : Option ℚ
  excludingColdStart : Option ℚ
  deriving DecidableEq, Repr

def Totals.reduction (t : Totals) : Reduction where
  naiveTotal := t.naiveTotal
  zscoreTotal := t.zscoreTotal
  includingColdStart := reductionPercent t.naiveTotal t.zscoreTotal
  excludingColdStart := reductionPercent t.naiveTotalExcl t.zscoreTotalExcl

variable (rt : Runtime)

/-- `NAIVE_THRESHOLDS_PERCENT` -/
def naiveThresholdsPercent : List Decimal :=
  [⟨false, 1, -1⟩, ⟨false, 25, -2⟩, ⟨false, 5, -1⟩, ⟨false, 10, -1⟩]

/-- The sweep of one pair of the fixture. -/
def sweepTexts (threshold : Decimal) (texts : List String) :
    Except ScriptError (List SweepResult) := do
  let prices ← readPrices texts
  (sweepPair rt prices (rt.ofDecimal threshold)).mapError .raised

/-- The loop over the pairs. -/
def sweepPairs (threshold : Decimal) : List RealPair → Totals → Except ScriptError Totals
  | [], totals => .ok totals
  | pair :: rest, totals => do
      let sweep ← sweepTexts rt threshold pair.prices
      sweepPairs threshold rest (totals.add sweep)

/-- The loop over the thresholds; the dict is keyed by them. -/
def measureAt (realPairs : List RealPair) :
    List Decimal → Except ScriptError (List (Decimal × Reduction))
  | [] => .ok []
  | threshold :: rest => do
      let totals ← sweepPairs rt threshold realPairs {}
      let rows ← measureAt realPairs rest
      pure ((threshold, totals.reduction) :: rows)

/-- `run_reduction_measurement` -/
def runReductionMeasurement (realPairs : List RealPair) :
    Except ScriptError (List (Decimal × Reduction)) :=
  measureAt rt realPairs naiveThresholdsPercent

end Dropwatch.Measure
