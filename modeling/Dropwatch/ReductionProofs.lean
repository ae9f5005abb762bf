import Dropwatch.MeasureProofs
import Dropwatch.Reduction

/-! # What the reduction depends on

    The report says of its own table that the z-score fires do not change with the naive
    threshold, and that a tighter threshold only makes the reduction look worse.  Both hold
    of every fixture that is built from stored prices, and so does a third: without the cold
    start, in which only the naive threshold can fire, it looks worse again. -/

namespace Dropwatch.Measure

open Zscore Scoring

/-! ## The fixture is read as it was stored -/

theorem readPrices_map_str (prices : List Decimal) :
    readPrices (prices.map Decimal.str) = .ok prices := by
  induction prices with
  | nil => rfl
  | cons price rest ih =>
      rw [List.map_cons, readPrices, Decimal.ofString_str, ih]
      rfl

/-- The stored prices of a pair, oldest first. -/
def storedPrices (db : Database) (pairId : Uuid) : List Decimal :=
  (historyAsc db pairId).map PriceHistory.lastPrice

theorem storedPrices_pos {db : Database} (h : ∀ row ∈ db.priceHistory, 0 < row.lastPrice.toRat)
    (pairId : Uuid) : ∀ p ∈ storedPrices db pairId, 0 < p.toRat := by
  intro p hp
  obtain ⟨row, hrow, rfl⟩ := List.mem_map.mp hp
  rw [historyAsc, List.mem_insertionSort] at hrow
  exact h row (List.mem_filter.mp hrow).1

/-- The texts of a fixture are those of stored prices. -/
theorem prices_of_mem_fetchRealPairs {db : Database} {p : RealPair} (h : p ∈ fetchRealPairs db) :
    ∃ pair ∈ db.pairs, p.prices = (storedPrices db pair.id).map Decimal.str := by
  obtain ⟨pair, hpair, hp⟩ := List.mem_filterMap.mp h
  refine ⟨pair, hpair, ?_⟩
  rw [realPair] at hp
  split at hp
  · cases hp
  · rw [← Option.some.inj hp, storedPrices, List.map_map]
    rfl

/-! ## A tighter threshold -/

/-- Comparisons of floats, none of them a NaN, and the conversion to floats keeps order. -/
structure OrderedFloats (rt : Runtime) : Prop where
  trans : ∀ x y z, rt.le x y = true → rt.lt y z = true → rt.lt x z = true
  mono : ∀ d d' : Decimal, d.toRat ≤ d'.toRat → rt.le (rt.ofDecimal d) (rt.ofDecimal d') = true

/-- Of a tighter threshold `r'`, of a looser one `r`: only the naive verdict differs. -/
structure Tighter (r r' : SweepResult) : Prop where
  zscore : r'.zscoreFires = r.zscoreFires
  baseline : r'.hasBaseline = r.hasBaseline
  naive : r'.naiveFires = true → r.naiveFires = true

section Sweep

variable {rt : Runtime} {prices : List Decimal} {x y : rt.F}

/-- The filter fires on a baseline only. -/
theorem baseline_of_sweepDecision {zresult : Option (ZScoreResult rt)}
    (h : (sweepDecision rt zresult).1 = true) : (sweepDecision rt zresult).2 = true := by
  cases zresult with
  | none => cases h
  | some result => cases hz : result.z <;> simp [sweepDecision, hz]

theorem exists_of_bind {ε α β : Type} {m : Except ε α} {f : α → Except ε β} {b : β}
    (h : m >>= f = .ok b) : ∃ a, m = .ok a ∧ f a = .ok b := by
  cases m with
  | error e => cases h
  | ok a => exact ⟨a, rfl, h⟩

theorem sweepAt_tighter (hrt : OrderedFloats rt) (hxy : rt.le x y = true) {i : Nat}
    {r r' : SweepResult} (h : sweepAt rt prices x i = .ok r) (h' : sweepAt rt prices y i = .ok r') :
    Tighter r r' ∧ (r.zscoreFires = true → r.hasBaseline = true) := by
  obtain ⟨zresult, hz, h⟩ := exists_of_bind h
  obtain ⟨zresult', hz', h'⟩ := exists_of_bind h'
  obtain rfl := Except.ok.inj (hz.symm.trans hz')
  obtain ⟨move, hm, h⟩ := exists_of_bind h
  obtain ⟨move', hm', h'⟩ := exists_of_bind h'
  obtain rfl := Except.ok.inj (hm.symm.trans hm')
  obtain rfl := Except.ok.inj h
  obtain rfl := Except.ok.inj h'
  exact ⟨⟨rfl, rfl, hrt.trans x y _ hxy⟩, baseline_of_sweepDecision⟩

/-- The sweeps at two thresholds, index by index. -/
theorem sweepOver_tighter (hrt : OrderedFloats rt) (hxy : rt.le x y = true) {is : List Nat}
    {sweep sweep' : List SweepResult} (h : sweepOver rt prices x is = .ok sweep)
    (h' : sweepOver rt prices y is = .ok sweep') :
    List.Forall₂ Tighter sweep sweep' ∧ ∀ r ∈ sweep, r.zscoreFires = true → r.hasBaseline = true := by
  induction is generalizing sweep sweep' with
  | nil =>
      obtain rfl := Except.ok.inj h
      obtain rfl := Except.ok.inj h'
      exact ⟨.nil, fun r hr => absurd hr List.not_mem_nil⟩
  | cons i rest ih =>
      obtain ⟨r, hr, h⟩ := exists_of_bind h
      obtain ⟨r', hr', h'⟩ := exists_of_bind h'
      obtain ⟨tail, htail, h⟩ := exists_of_bind h
      obtain ⟨tail', htail', h'⟩ := exists_of_bind h'
      obtain rfl := Except.ok.inj h
      obtain rfl := Except.ok.inj h'
      obtain ⟨htighter, hbase⟩ := sweepAt_tighter hrt hxy hr hr'
      obtain ⟨hrest, hbases⟩ := ih htail htail'
      exact ⟨.cons htighter hrest, List.forall_mem_cons.mpr ⟨hbase, hbases⟩⟩

end Sweep

/-! ## The counters -/

/-- Of a tighter threshold `t'`, of a looser one `t`. -/
structure Fewer (t t' : Totals) : Prop where
  zscore : t'.zscoreTotal = t.zscoreTotal
  zscoreExcl : t'.zscoreTotalExcl = t.zscoreTotalExcl
  naive : t'.naiveTotal ≤ t.naiveTotal
  naiveExcl : t'.naiveTotalExcl ≤ t.naiveTotalExcl

/-- The cold start has naive fires only. -/
structure ColdStart (t : Totals) : Prop where
  zscore : t.zscoreTotalExcl = t.zscoreTotal
  naive : t.naiveTotalExcl ≤ t.naiveTotal

theorem ColdStart.add {t : Totals} (h : ColdStart t) {sweep : List SweepResult}
    (hbase : ∀ r ∈ sweep, r.zscoreFires = true → r.hasBaseline = true) :
    ColdStart (t.add sweep) := by
  have hzscore : sweep.countP (fun r => r.zscoreFires && r.hasBaseline)
      = sweep.countP (fun r => r.zscoreFires) := by
    refine List.countP_congr ?_
    intro r hr
    rw [Bool.and_eq_true]
    exact ⟨fun h => h.1, fun h => ⟨h, hbase r hr h⟩⟩
  have hnaive : sweep.countP (fun r => r.naiveFires && r.hasBaseline)
      ≤ sweep.countP (fun r => r.naiveFires) :=
    List.countP_mono_left (fun r _ h => (Bool.and_eq_true_iff.mp h).1)
  exact ⟨by simp [Totals.add, h.zscore, hzscore], Nat.add_le_add h.naive hnaive⟩

theorem Fewer.add {t t' : Totals} (h : Fewer t t') {sweep sweep' : List SweepResult}
    (hsweep : List.Forall₂ Tighter sweep sweep') : Fewer (t.add sweep) (t'.add sweep') := by
  induction hsweep generalizing t t' with
  | nil => exact h
  | @cons r r' rest rest' hr _ ih =>
      have hone : Fewer (t.add [r]) (t'.add [r']) := by
        obtain ⟨hz, hb, hn⟩ := hr
        obtain ⟨hzscore, hzscoreExcl, hnaive, hnaiveExcl⟩ := h
        constructor
        · simp [Totals.add, hz, hzscore]
        · simp [Totals.add, hz, hb, hzscoreExcl]
        · cases hfires : r'.naiveFires <;> simp [Totals.add, hfires, hn] <;> omega
        · cases hfires : r'.naiveFires <;> simp [Totals.add, hfires, hb, hn] <;> omega
      have hsplit : ∀ (u : Totals) (x : SweepResult) (xs : List SweepResult),
          u.add (x :: xs) = (u.add [x]).add xs := by
        intro u x xs
        simp [Totals.add, List.countP_cons, Nat.add_assoc, Nat.add_comm]
      rw [hsplit t r rest, hsplit t' r' rest']
      exact ih hone

/-! ## The loops -/

section Loops

variable {rt : Runtime} {db : Database}

/-- What a price has to be for the floats of its sweep. -/
structure Sweepable (rt : Runtime) (db : Database) : Prop where
  floats : ∀ pair ∈ db.pairs, PositiveFloats rt (storedPrices db pair.id)
  positive : ∀ row ∈ db.priceHistory, 0 < row.lastPrice.toRat

/-- A pair of a fixture is swept. -/
theorem Sweepable.sweepTexts (h : Sweepable rt db) {p : RealPair} (hp : p ∈ fetchRealPairs db)
    (threshold : Decimal) : ∃ prices sweep, sweepTexts rt threshold p.prices = .ok sweep
      ∧ p.prices = prices.map Decimal.str
      ∧ sweepPair rt prices (rt.ofDecimal threshold) = .ok sweep := by
  obtain ⟨pair, hpair, htexts⟩ := prices_of_mem_fetchRealPairs hp
  obtain ⟨sweep, hsweep, -⟩ := sweepPair_ok (h.floats pair hpair)
    (storedPrices_pos h.positive pair.id) (rt.ofDecimal threshold)
  refine ⟨storedPrices db pair.id, sweep, ?_, htexts, hsweep⟩
  rw [Measure.sweepTexts, htexts, readPrices_map_str]
  show (sweepPair rt _ _).mapError ScriptError.raised = _
  rw [hsweep]
  rfl

/-- The sweeps of a fixture return at every threshold. -/
theorem Sweepable.sweepPairs (h : Sweepable rt db) (threshold : Decimal) {ps : List RealPair}
    (hps : ps ⊆ fetchRealPairs db) (t : Totals) :
    ∃ totals, sweepPairs rt threshold ps t = .ok totals := by
  induction ps generalizing t with
  | nil => exact ⟨t, rfl⟩
  | cons p rest ih =>
      obtain ⟨-, sweep, hsweep, -⟩ := h.sweepTexts (hps List.mem_cons_self) threshold
      rw [Measure.sweepPairs, hsweep]
      exact ih (List.Subset.trans (List.subset_cons_self _ _) hps) (t.add sweep)

theorem Sweepable.fewer (h : Sweepable rt db) (hrt : OrderedFloats rt) {d d' : Decimal}
    (hd : d.toRat ≤ d'.toRat) {ps : List RealPair} (hps : ps ⊆ fetchRealPairs db)
    {t t' u u' : Totals} (ht : Fewer t t') (hcold : ColdStart t)
    (hu : Measure.sweepPairs rt d ps t = .ok u) (hu' : Measure.sweepPairs rt d' ps t' = .ok u') :
    Fewer u u' ∧ ColdStart u := by
  induction ps generalizing t t' with
  | nil =>
      obtain rfl := Except.ok.inj hu
      obtain rfl := Except.ok.inj hu'
      exact ⟨ht, hcold⟩
  | cons p rest ih =>
      obtain ⟨prices, sweep, hsweep, htexts, hpair⟩ := h.sweepTexts (hps List.mem_cons_self) d
      obtain ⟨prices', sweep', hsweep', htexts', hpair'⟩ :=
        h.sweepTexts (hps List.mem_cons_self) d'
      -- Both sweeps are of the same prices: a text is read in one way.
      have hread := readPrices_map_str prices
      rw [← htexts, htexts', readPrices_map_str prices'] at hread
      obtain rfl := Except.ok.inj hread
      rw [Measure.sweepPairs, hsweep] at hu
      rw [Measure.sweepPairs, hsweep'] at hu'
      obtain ⟨htighter, hbase⟩ := sweepOver_tighter hrt (hrt.mono d d' hd) hpair hpair'
      exact ih (List.Subset.trans (List.subset_cons_self _ _) hps) (ht.add htighter)
        (hcold.add hbase) hu hu'

end Loops

/-! ## The table -/

/-- A percentage that is there and not above another one that is there. -/
def NotAbove (x y : Option ℚ) : Prop := ∀ a, x = some a → ∃ b, y = some b ∧ a ≤ b

/-- Fewer naive fires, against the same z-score fires, are reduced less. -/
theorem reductionPercent_mono {m n : Nat} (h : m ≤ n) (z : Nat) :
    NotAbove (reductionPercent m z) (reductionPercent n z) := by
  intro a ha
  rw [reductionPercent] at ha ⊢
  split at ha
  · cases ha
  · next hm =>
      rw [if_neg (by omega)]
      refine ⟨_, rfl, ?_⟩
      rw [← Option.some.inj ha]
      have hpos : (0 : ℚ) < m := by exact_mod_cast Nat.pos_of_ne_zero hm
      have hle : (m : ℚ) ≤ n := by exact_mod_cast h
      have hdiv : (z : ℚ) / n ≤ z / m :=
        div_le_div_of_nonneg_left (Nat.cast_nonneg z) hpos hle
      linarith

/-- The row of a tighter threshold, `r'`, under that of a looser one. -/
structure Reduction.Under (r r' : Reduction) : Prop where
  zscore : r'.zscoreTotal = r.zscoreTotal
  naive : r'.naiveTotal ≤ r.naiveTotal
  including : NotAbove r'.includingColdStart r.includingColdStart
  excluding : NotAbove r'.excludingColdStart r.excludingColdStart

theorem Fewer.reduction {t t' : Totals} (h : Fewer t t') : Reduction.Under t.reduction t'.reduction where
  zscore := h.zscore
  naive := h.naive
  including := by
    rw [Totals.reduction, Totals.reduction, h.zscore]
    exact reductionPercent_mono h.naive _
  excluding := by
    rw [Totals.reduction, Totals.reduction, h.zscoreExcl]
    exact reductionPercent_mono h.naiveExcl _

theorem ColdStart.reduction {t : Totals} (h : ColdStart t) :
    NotAbove t.reduction.excludingColdStart t.reduction.includingColdStart := by
  rw [Totals.reduction, h.zscore]
  exact reductionPercent_mono h.naive _

variable {rt : Runtime} {db : Database}

/-- Sweeps that return make the rows of the table. -/
theorem measureAt_eq {ps : List RealPair} {f : Decimal → Totals}
    (hf : ∀ d, sweepPairs rt d ps {} = .ok (f d)) (ds : List Decimal) :
    measureAt rt ps ds = .ok (ds.map (fun d => (d, (f d).reduction))) := by
  induction ds with
  | nil => rfl
  | cons d rest ih =>
      rw [measureAt, hf d, ih]
      rfl

/-- The measurement over the fixture of a database returns a row for each threshold, in
    order.  Further down the z-score fires stay and the naive ones do not grow, nor does the
    reduction, with the cold start or without; and in every row the one without is not above
    the one with it. -/
theorem reductions_ordered (hrt : OrderedFloats rt) (h : Sweepable rt db) :
    ∃ rows, runReductionMeasurement rt (fetchRealPairs db) = .ok rows
      ∧ rows.map Prod.fst = naiveThresholdsPercent
      ∧ rows.Pairwise (fun e e' => Reduction.Under e.2 e'.2)
      ∧ ∀ e ∈ rows, NotAbove e.2.excludingColdStart e.2.includingColdStart := by
  have hswept : ∀ d, ∃ totals, sweepPairs rt d (fetchRealPairs db) {} = .ok totals :=
    fun d => h.sweepPairs d (List.Subset.refl _) {}
  choose f hf using hswept
  have hfewer : ∀ d d', d.toRat ≤ d'.toRat → Fewer (f d) (f d') ∧ ColdStart (f d) := by
    intro d d' hd
    exact h.fewer hrt hd (List.Subset.refl _) ⟨rfl, rfl, Nat.le_refl 0, Nat.le_refl 0⟩
      ⟨rfl, Nat.le_refl 0⟩ (hf d) (hf d')
  have hsorted : naiveThresholdsPercent.Pairwise (fun d d' => d.toRat ≤ d'.toRat) := by
    decide +kernel
  refine ⟨_, measureAt_eq hf naiveThresholdsPercent, ?_, ?_, ?_⟩
  · rw [List.map_map]
    exact List.map_id _
  · rw [List.pairwise_map]
    exact hsorted.imp (fun hd => (hfewer _ _ hd).1.reduction)
  · intro e he
    obtain ⟨d, -, rfl⟩ := List.mem_map.mp he
    exact (hfewer d d (le_refl _)).2.reduction

/-! ## A pair with enough rows -/

/-- A price that rises by one a minute. -/
def risingRow (n : Nat) : PriceHistory where
  pairId := 1
  lastPrice := ⟨false, n + 1, 0⟩
  bidPrice := ⟨false, n + 1, 0⟩
  askPrice := ⟨false, n + 1, 0⟩
  volume24h := none
  observedAt := seconds (60 * n)

def rising (count : Nat) : Database where
  pairs := [{ id := 1, krakenPairName := "XBT/USD", displayName := "XBT/USD" }]
  priceHistory := (List.range count).map risingRow

theorem length_historyAsc_rising (count : Nat) : (historyAsc (rising count) 1).length = count := by
  have hall : ∀ row ∈ (rising count).priceHistory, (row.pairId == 1) = true := by
    intro row hrow
    obtain ⟨n, -, rfl⟩ := List.mem_map.mp hrow
    rfl
  rw [historyAsc, List.length_insertionSort, List.filter_eq_self.mpr hall, rising,
    List.length_map, List.length_range]

theorem orderedFloats_rational : OrderedFloats Runtime.rational where
  trans := by
    show ∀ x y z : ℚ, (!decide (y < x)) = true → decide (y < z) = true → decide (x < z) = true
    intro x y z hxy hyz
    have hle : ¬ y < x := by simpa using hxy
    exact decide_eq_true (lt_of_le_of_lt (not_lt.mp hle) (of_decide_eq_true hyz))
  mono := by
    intro d d' h
    simpa [Runtime.le, Runtime.rational] using h

/-- A pair with enough rows is in the fixture. -/
theorem length_fetchRealPairs_rising {count : Nat} (h : minRowsPerPair ≤ count) :
    (fetchRealPairs (rising count)).length = 1 := by
  have hlong : ¬ (historyAsc (rising count) 1).length < minRowsPerPair := by
    rw [length_historyAsc_rising]
    exact Nat.not_lt.mpr h
  rw [fetchRealPairs, rising, List.filterMap_cons, realPair, ← rising]
  simp only [if_neg hlong, List.filterMap_nil, List.length_singleton]

theorem sweepable_rising (count : Nat) : Sweepable Runtime.rational (rising count) where
  floats := fun _ _ => positiveFloats_rational _
  positive := by
    intro row hrow
    obtain ⟨n, -, rfl⟩ := List.mem_map.mp hrow
    simp only [risingRow, Decimal.toRat, Bool.false_eq_true, if_false]
    positivity

theorem reductions_ordered_rising :
    (fetchRealPairs (rising 500)).length = 1
      ∧ ∃ rows, runReductionMeasurement Runtime.rational (fetchRealPairs (rising 500)) = .ok rows
        ∧ rows.map Prod.fst = naiveThresholdsPercent
        ∧ rows.Pairwise (fun e e' => Reduction.Under e.2 e'.2)
        ∧ ∀ e ∈ rows, NotAbove e.2.excludingColdStart e.2.includingColdStart :=
  ⟨length_fetchRealPairs_rising (Nat.le_refl 500),
    reductions_ordered orderedFloats_rational (sweepable_rising 500)⟩

end Dropwatch.Measure
