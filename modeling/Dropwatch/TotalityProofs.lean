import Mathlib.Algebra.Order.Field.Power
import Mathlib.Tactic.Linarith
import Mathlib.Tactic.Positivity
import Dropwatch.EvaluatorProofs
import Dropwatch.NaiveScanProofs
import Dropwatch.RulesApi

/-! # When evaluation finishes

    Every place where `evaluate_rules_for_pair` could raise by itself has a
    guard in front of it, the field check of the API included, except one: the
    log returns divide by, and take logarithms of, stored prices that the
    `Numeric(24, 8)` column may have rounded to zero.

    * `logReturns_ok`, `logReturns_error`: the pipeline raises exactly when a
      price of its window is zero;
    * `computeZscore_isOk_iff` adds the window lengths;
    * `evaluate_finishes_iff` is the whole evaluation. -/

namespace Dropwatch.Totality

open Transact RuleIndex Zscore Evaluator RulesApi

/-! ## Stored prices -/

/-- A non-negative number as a `Numeric(24, 8)` column keeps it. -/
structure StoredPrice (p : Decimal) : Prop where
  negative : p.negative = false
  exp : p.exp = -8
  digits : p.coeff < 10 ^ 24

/-- A non-negative quote below the column's limit is stored as such a price. -/
theorem storedPrice_numeric {d : Decimal} (h0 : 0 ≤ d.toRat)
    (h1 : d.toRat + 1 ≤ 10 ^ 16) : StoredPrice (d.numeric 8) where
  negative := by
    cases hn : d.negative with
    | false => simp [Decimal.numeric, hn]
    | true =>
        have hneg : d.toRat = -((d.coeff : ℚ) * (10 : ℚ) ^ d.exp) := by
          simp [Decimal.toRat, hn]
        have hpos : (0 : ℚ) ≤ (d.coeff : ℚ) * (10 : ℚ) ^ d.exp := by positivity
        have hzero : d.toRat = 0 := by linarith
        simp only [Decimal.numeric, hn, hzero]
        norm_num
  exp := rfl
  digits := by
    have habs : |d.toRat| = d.toRat := abs_of_nonneg h0
    show ⌊|d.toRat| * 10 ^ 8 + 1 / 2⌋.toNat < 10 ^ 24
    rw [habs]
    have hlt : ⌊d.toRat * 10 ^ 8 + 1 / 2⌋ < 10 ^ 24 := by
      rw [Int.floor_lt]
      push_cast
      linarith
    omega

/-- What the code relies on of float arithmetic on stored prices: a price
    converts to zero exactly if it is zero, and a quotient of two of them, which
    lies between `1e-24` and `1e24` when it is not zero, keeps its sign. -/
structure StoredPriceLaws (rt : Runtime) : Prop where
  isZero_ofDecimal : ∀ p, StoredPrice p → rt.isZero (rt.ofDecimal p) = p.isZero
  ratio_pos : ∀ p q, StoredPrice p → StoredPrice q → p.isZero = false →
    q.isZero = false → rt.lt rt.zero (rt.div (rt.ofDecimal q) (rt.ofDecimal p)) = true
  ratio_zero : ∀ p q, StoredPrice p → StoredPrice q → p.isZero = false →
    q.isZero = true → rt.lt rt.zero (rt.div (rt.ofDecimal q) (rt.ofDecimal p)) = false

/-! ## The z-score pipeline -/

section Pipeline

variable {rt : Runtime} (laws : StoredPriceLaws rt)

include laws

/-- One log return: defined exactly between two prices that are not zero. -/
theorem ratio_log_ok {p q : Decimal} (hp : StoredPrice p) (hq : StoredPrice q)
    (hpz : p.isZero = false) (hqz : q.isZero = false) :
    rt.divide (rt.ofDecimal q) (rt.ofDecimal p)
        = .ok (rt.div (rt.ofDecimal q) (rt.ofDecimal p))
      ∧ rt.mathLog (rt.div (rt.ofDecimal q) (rt.ofDecimal p))
        = .ok (rt.log (rt.div (rt.ofDecimal q) (rt.ofDecimal p))) := by
  constructor
  · rw [Runtime.divide, laws.isZero_ofDecimal p hp, hpz]
    rfl
  · rw [Runtime.mathLog, laws.ratio_pos p q hp hq hpz hqz]
    rfl

/-- Prices that are not zero have log returns, one fewer than the prices. -/
theorem logReturns_ok {prices : List Decimal} (hs : ∀ p ∈ prices, StoredPrice p)
    (hz : ∀ p ∈ prices, p.isZero = false) :
    ∃ rs, logReturns rt (prices.map rt.ofDecimal) = .ok rs
      ∧ rs.length = prices.length - 1 := by
  induction prices with
  | nil => exact ⟨[], rfl, rfl⟩
  | cons p rest ih =>
      cases rest with
      | nil => exact ⟨[], rfl, rfl⟩
      | cons q rest =>
          obtain ⟨rs, hrs, hlen⟩ := ih
            (fun x hx => hs x (List.mem_cons_of_mem _ hx))
            (fun x hx => hz x (List.mem_cons_of_mem _ hx))
          obtain ⟨hdiv, hlog⟩ := ratio_log_ok laws (hs p (by simp)) (hs q (by simp))
            (hz p (by simp)) (hz q (by simp))
          refine ⟨rt.log (rt.div (rt.ofDecimal q) (rt.ofDecimal p)) :: rs, ?_, ?_⟩
          · rw [List.map_cons] at hrs
            rw [List.map_cons, List.map_cons, logReturns, hdiv, hrs]
            show (rt.mathLog _ >>= fun r => _) = _
            rw [hlog]
            rfl
          · rw [List.length_cons, hlen]
            rfl

/-- A zero among two or more prices makes the pipeline raise: as a divisor, or,
    in the last place, under the logarithm. -/
theorem logReturns_error {prices : List Decimal} (hs : ∀ p ∈ prices, StoredPrice p)
    (h2 : 2 ≤ prices.length) (hz : ∃ p ∈ prices, p.isZero = true) :
    ∃ e, logReturns rt (prices.map rt.ofDecimal) = .error e := by
  induction prices with
  | nil => exact absurd h2 (by decide)
  | cons p rest ih =>
      cases rest with
      | nil => exact absurd h2 (by simp)
      | cons q rest =>
          have hp := hs p (by simp)
          have hq := hs q (by simp)
          rw [List.map_cons, List.map_cons, logReturns]
          cases hpz : p.isZero with
          | true =>
              rw [Runtime.divide, laws.isZero_ofDecimal p hp, hpz]
              exact ⟨_, rfl⟩
          | false =>
              rw [Runtime.divide, laws.isZero_ofDecimal p hp, hpz]
              simp only [Bool.false_eq_true, if_false, bind, Except.bind]
              -- A zero before the division raises in `/`, one after it in `math.log`.
              cases hqz : q.isZero with
              | true =>
                  rw [Runtime.mathLog, laws.ratio_zero p q hp hq hpz hqz]
                  exact ⟨_, rfl⟩
              | false =>
                  rw [(ratio_log_ok laws hp hq hpz hqz).2]
                  obtain ⟨x, hx, hxz⟩ := hz
                  have hx' : x ∈ q :: rest := by
                    rcases List.mem_cons.mp hx with heq | hmem
                    · rw [heq, hpz] at hxz
                      exact absurd hxz (by decide)
                    · exact hmem
                  have hlen : 2 ≤ (q :: rest).length := by
                    rcases List.mem_cons.mp hx' with heq | hmem
                    · rw [heq, hqz] at hxz
                      exact absurd hxz (by decide)
                    · have := List.length_pos_of_mem hmem
                      simp only [List.length_cons]
                      omega
                  obtain ⟨e, he⟩ := ih (fun y hy => hs y (List.mem_cons_of_mem _ hy)) hlen
                    ⟨x, hx', hxz⟩
                  rw [List.map_cons] at he
                  rw [he]
                  exact ⟨e, rfl⟩

omit laws in
/-- Scoring raises only on an empty baseline. -/
theorem scoreReturn_isOk_iff (current : rt.F) (baseline : List rt.F) :
    (∃ r, scoreReturn rt current baseline = .ok r) ↔ baseline ≠ [] := by
  cases baseline with
  | nil =>
      refine ⟨fun h => ?_, fun h => absurd rfl h⟩
      obtain ⟨r, hr⟩ := h
      cases hr
  | cons x xs =>
      refine ⟨fun _ => by simp, fun _ => ?_⟩
      rw [scoreReturn]
      have hmean : fmean rt (x :: xs) = .ok (rt.fmean (x :: xs)) := rfl
      rw [hmean]
      simp only [bind, Except.bind]
      generalize (if 2 ≤ (x :: xs).length then rt.stdev (x :: xs) else rt.zero) = stdev
      by_cases hstdev : rt.isZero stdev = true
      · rw [if_pos hstdev]
        exact ⟨_, rfl⟩
      · rw [if_neg hstdev, Runtime.divide, if_neg hstdev]
        exact ⟨_, rfl⟩

omit laws in
/-- The slice taken for a baseline is empty only if there is nothing to slice. -/
theorem baseline_eq_nil_iff {α : Type} (window : Nat) (xs : List α) :
    (if window < xs.length then lastSlice window xs else xs) = [] ↔ xs = [] := by
  constructor
  · intro h
    split at h
    · rename_i hlt
      rw [lastSlice] at h
      split at h
      · exact h
      · have := congrArg List.length h
        rw [List.length_drop, List.length_nil] at this
        omega
    · exact h
  · intro h
    rw [h]
    simp

/-- The lists of prices that `compute_zscore` scores without raising. -/
def Scorable (minObservations : Nat) (prices : List Decimal) : Prop :=
  prices.length < 2
    ∨ (∀ p ∈ prices, p.isZero = false)
      ∧ (prices.length = 2 → minObservations ≠ 0)

omit laws in
/-- Wrapping a score raises nothing. -/
theorem isOk_then_some (x : Except PyError (ZScoreResult rt)) :
    (∃ r, (x >>= fun v => pure (some v)) = Except.ok r) ↔ ∃ r, x = .ok r := by
  cases x with
  | error e =>
      constructor
      · rintro ⟨r, hr⟩
        cases hr
      · rintro ⟨r, hr⟩
        cases hr
  | ok v => exact ⟨fun _ => ⟨v, rfl⟩, fun _ => ⟨some v, rfl⟩⟩

theorem computeZscore_isOk_iff {prices : List Decimal} {window minObservations : Nat}
    (hs : ∀ p ∈ prices, StoredPrice p) :
    (∃ r, computeZscore rt prices window minObservations = .ok r)
      ↔ Scorable minObservations prices := by
  rw [computeZscore, Scorable]
  by_cases hlen : prices.length < 2
  · rw [if_pos hlen]
    exact ⟨fun _ => Or.inl hlen, fun _ => ⟨_, rfl⟩⟩
  · rw [if_neg hlen]
    by_cases hz : ∃ p ∈ prices, p.isZero = true
    · -- A price of zero is divided by, or its logarithm is taken.
      obtain ⟨e, he⟩ := logReturns_error laws hs (by omega) hz
      obtain ⟨p, hp, hpz⟩ := hz
      rw [he]
      constructor
      · rintro ⟨r, hr⟩
        cases hr
      · rintro (hlt | ⟨hall, -⟩)
        · exact absurd hlt hlen
        · rw [hall p hp] at hpz
          exact absurd hpz (by decide)
    · have hall : ∀ p ∈ prices, p.isZero = false := by
        intro p hp
        cases hpz : p.isZero with
        | false => rfl
        | true => exact absurd ⟨p, hp, hpz⟩ hz
      obtain ⟨rs, hrs, hrlen⟩ := logReturns_ok laws hs hall
      have hne : rs ≠ [] := by
        intro hnil
        rw [hnil, List.length_nil] at hrlen
        omega
      rw [hrs]
      simp only [bind, Except.bind, List.getLast?_eq_some_getLast hne]
      by_cases hmin : rs.dropLast.length < minObservations
      · rw [if_pos hmin]
        refine ⟨fun _ => Or.inr ⟨hall, fun _ => ?_⟩, fun _ => ⟨_, rfl⟩⟩
        omega
      · rw [if_neg hmin]
        have hscore := @scoreReturn_isOk_iff rt (rs.getLast hne)
          (if window < rs.dropLast.length then lastSlice window rs.dropLast
            else rs.dropLast)
        rw [ne_eq, baseline_eq_nil_iff] at hscore
        rw [List.length_dropLast] at hmin
        have hnil : rs.dropLast = [] ↔ prices.length = 2 := by
          rw [← List.length_eq_zero_iff, List.length_dropLast]
          omega
        rw [hnil] at hscore
        -- All that is left to raise is the mean of an empty baseline.
        refine Iff.trans (isOk_then_some _) (hscore.trans ⟨?_, ?_⟩)
        · intro h2
          exact Or.inr ⟨hall, fun h => absurd h h2⟩
        · rintro (hlt | ⟨-, hmin0⟩) h2
          · exact hlen hlt
          · have := hmin0 h2
            omega

end Pipeline

/-! ## Validated rules -/

theorem requireField_eq_ok {α : Type} {name ruleType : String} {value : Option α} :
    requireField name ruleType value = .ok () ↔ value.isSome = true := by
  cases value with
  | none => exact ⟨(fun h => by cases h), (fun h => by cases h)⟩
  | some a => exact ⟨fun _ => rfl, fun _ => rfl⟩

theorem requireDirection_eq_ok {ruleType : String} {direction : Option String} :
    requireDirection ruleType direction = .ok ()
      ↔ ∀ d, direction = some d → d ∈ directions := by
  cases direction with
  | none => exact ⟨(fun _ d h => by cases h), fun _ => rfl⟩
  | some d =>
      rw [requireDirection]
      by_cases hd : directions.contains d = true
      · rw [if_pos hd]
        refine ⟨fun _ d' h => ?_, fun _ => rfl⟩
        rw [← Option.some.inj h]
        exact List.contains_iff_mem.mp hd
      · rw [if_neg hd]
        refine ⟨(fun h => by cases h), fun h => ?_⟩
        exact absurd (List.contains_iff_mem.mpr (h d rfl)) hd

/-- Two checks in a row. -/
theorem then_eq_ok {x : Except String Unit} {y : Except String Unit} :
    (x >>= fun _ => y) = .ok () ↔ x = .ok () ∧ y = .ok () := by
  cases x with
  | error e => exact ⟨(fun h => by cases h), fun h => by cases h.1⟩
  | ok u => exact ⟨fun h => ⟨rfl, h⟩, fun h => h.2⟩

theorem validRule_iff {rule : AlertRule} :
    validRule rule = true ↔ validateRuleFields rule.ruleType.str rule.threshold
      rule.percent rule.windowSeconds rule.sigma rule.direction = .ok () := isOk_iff_eq_ok

/-- A rule with the columns its type needs, and none of them null.  That its type is an
    implemented one the column's type says already: `RuleFields.validate` lets no other in. -/
structure WellFormed (rule : AlertRule) : Prop where
  implemented : ∃ t, ruleTypeOfStr rule.ruleType.str = some t
  threshold : rule.ruleType = .absoluteBelow ∨ rule.ruleType = .absoluteAbove →
    rule.threshold.isSome = true
  sigma : rule.ruleType = .zscoreMove → rule.sigma.isSome = true
  percent : rule.ruleType = .percentChange ∨ rule.ruleType = .spreadWiden →
    rule.percent.isSome = true
  windowSeconds : rule.ruleType = .percentChange → rule.windowSeconds.isSome = true
  direction : rule.ruleType = .zscoreMove ∨ rule.ruleType = .percentChange →
    ∀ d, rule.direction = some d → d ∈ directions

/-- The field check lets through exactly the well-formed rules. -/
theorem validRule_iff_wellFormed {rule : AlertRule} :
    validRule rule = true ↔ WellFormed rule := by
  rw [validRule_iff, validateRuleFields, ruleTypeOfStr_str]
  have himplemented : ∃ t, ruleTypeOfStr rule.ruleType.str = some t := ⟨_, ruleTypeOfStr_str _⟩
  cases ht : rule.ruleType with
  | absoluteBelow =>
      refine requireField_eq_ok.trans ⟨fun h => ?_, fun h => h.threshold (Or.inl ht)⟩
      exact ⟨himplemented, fun _ => h, by simp [ht], by simp [ht], by simp [ht], by simp [ht]⟩
  | absoluteAbove =>
      refine requireField_eq_ok.trans ⟨fun h => ?_, fun h => h.threshold (Or.inr ht)⟩
      exact ⟨himplemented, fun _ => h, by simp [ht], by simp [ht], by simp [ht], by simp [ht]⟩
  | zscoreMove =>
      refine then_eq_ok.trans ?_
      rw [requireField_eq_ok, requireDirection_eq_ok]
      refine ⟨?_, fun h => ⟨h.sigma ht, h.direction (Or.inl ht)⟩⟩
      rintro ⟨hsigma, hdirection⟩
      exact ⟨himplemented, by simp [ht], fun _ => hsigma, by simp [ht], by simp [ht],
        fun _ => hdirection⟩
  | percentChange =>
      refine then_eq_ok.trans ((and_congr_right' then_eq_ok).trans ?_)
      rw [requireField_eq_ok, requireField_eq_ok, requireDirection_eq_ok]
      refine ⟨?_, fun h => ⟨h.percent (Or.inl ht), h.windowSeconds ht, h.direction (Or.inr ht)⟩⟩
      rintro ⟨hpercent, hwindow, hdirection⟩
      exact ⟨himplemented, by simp [ht], by simp [ht], fun _ => hpercent, fun _ => hwindow,
        fun _ => hdirection⟩
  | spreadWiden =>
      refine requireField_eq_ok.trans ⟨fun h => ?_, fun h => h.percent (Or.inr ht)⟩
      exact ⟨himplemented, by simp [ht], by simp [ht], fun _ => h, by simp [ht], by simp [ht]⟩

/-- A validated absolute rule has a threshold. -/
theorem haveThresholds_of_valid {rules : List AlertRule}
    (h : ∀ r ∈ rules, validRule r = true) : HaveThresholds rules :=
  fun r hr => (validRule_iff_wellFormed.mp (h r hr)).threshold

/-- A validated `percent_change` rule has a window. -/
theorem haveWindows_of_valid {rules : List AlertRule}
    (h : ∀ r ∈ rules, validRule r = true) : HaveWindows rules :=
  fun r hr => (validRule_iff_wellFormed.mp (h r hr)).windowSeconds

/-! ## The whole evaluation -/

variable {rt : Runtime} {settings : Settings}

/-- `evaluate_rules_for_pair` returns. -/
def Finishes (rt : Runtime) (settings : Settings) (pair : Pair) (obs : Observation)
    (s : State) : Prop :=
  ∃ created, (runTx (evaluateRulesForPair rt settings pair obs) s).1 = .ok created

/-- The tables give a pair's `zscore_move` rules nothing to fail on: there are
    none, or the pair's newest prices are scorable. -/
def ScorablePair (settings : Settings) (db : Database) (pair : Pair)
    (rules : List AlertRule) : Prop :=
  (∀ r ∈ rules, r.pairId = pair.id → r.ruleType ≠ .zscoreMove)
    ∨ Scorable settings.zscoreMinObservations
        (db.recentPrices pair.id (settings.zscoreWindow + 2)).reverse

/-- Evaluation over an index raises exactly when the shared score does. -/
theorem finishes_iff_sharedScore {pair : Pair} {obs : Observation} {s : State}
    {pairId : Uuid} (hw : (s.mem.rulesForPair pair.id).WellFormed pairId)
    (hwin : ∀ r ∈ (s.mem.rulesForPair pair.id).percentChange,
      r.windowSeconds.isSome = true) :
    Finishes rt settings pair obs s
      ↔ ∃ score, sharedScore rt settings s.view pair
          (s.mem.rulesForPair pair.id).zscoreMove = .ok score := by
  rw [Finishes]
  rw [runTx_evaluateRulesForPair rt settings hw, candidatesIn_eq_map rt settings hwin]
  cases sharedScore rt settings s.view pair (s.mem.rulesForPair pair.id).zscoreMove with
  | ok score => exact ⟨fun _ => ⟨score, rfl⟩, fun _ => ⟨_, rfl⟩⟩
  | error e =>
      constructor
      · rintro ⟨created, h⟩
        cases h
      · rintro ⟨score, h⟩
        cases h

theorem sharedScore_isOk_iff (laws : StoredPriceLaws rt) {db : Database} {pair : Pair}
    {rules : List AlertRule} (hs : ∀ row ∈ db.priceHistory, StoredPrice row.lastPrice) :
    (∃ score, sharedScore rt settings db pair (rulesOfType rules pair.id .zscoreMove)
        = .ok score)
      ↔ ScorablePair settings db pair rules := by
  have hprices : ∀ p ∈ (db.recentPrices pair.id (settings.zscoreWindow + 2)).reverse,
      StoredPrice p := by
    intro p hp
    rw [List.mem_reverse] at hp
    obtain ⟨row, hrow, rfl⟩ := List.mem_map.mp hp
    have hsorted := (List.perm_insertionSort _ _).mem_iff.mp (List.mem_of_mem_take hrow)
    exact hs row (List.mem_filter.mp hsorted).1
  have hempty : (rulesOfType rules pair.id .zscoreMove).isEmpty = true
      ↔ ∀ r ∈ rules, r.pairId = pair.id → r.ruleType ≠ .zscoreMove := by
    rw [List.isEmpty_iff, List.eq_nil_iff_forall_not_mem]
    constructor
    · intro h r hr hp ht
      exact h r (mem_rulesOfType.mpr ⟨hr, hp, ht⟩)
    · intro h r hr
      obtain ⟨hmem, hp, ht⟩ := mem_rulesOfType.mp hr
      exact h r hmem hp ht
  rw [sharedScore, ScorablePair]
  rw [← hempty]
  by_cases he : (rulesOfType rules pair.id .zscoreMove).isEmpty = true
  · rw [if_pos he]
    exact ⟨fun _ => Or.inl he, fun _ => ⟨none, rfl⟩⟩
  · rw [if_neg he]
    rw [scoreIn]
    rw [computeZscore_isOk_iff laws hprices]
    exact ⟨Or.inr, fun h => h.resolve_left he⟩

/-- Validated rules always make an index, and evaluation over it returns exactly
    where the stored prices are scorable. -/
theorem evaluate_finishes_iff (laws : StoredPriceLaws rt) {rules : List AlertRule}
    (hid : (rules.map AlertRule.id).Nodup) (hvalid : ∀ r ∈ rules, validRule r = true) :
    ∃ buckets, bucketRules rules = .ok buckets
      ∧ ∀ (pair : Pair) (obs : Observation) (s : State), s.mem.buckets = buckets →
          (∀ row ∈ s.view.priceHistory, StoredPrice row.lastPrice) →
          (Finishes rt settings pair obs s ↔ ScorablePair settings s.view pair rules) := by
  have hthr := haveThresholds_of_valid hvalid
  refine ⟨_, bucketRules_ok hthr, ?_⟩
  intro pair obs s hbuckets hs
  have hpair : s.mem.rulesForPair pair.id = (bucketOf rules pair.id).sorted := by
    rw [Memory.rulesForPair, hbuckets]
    exact rulesForPair_bucketed rules pair.id
  have hw : (s.mem.rulesForPair pair.id).WellFormed pair.id := by
    rw [hpair]
    exact (wellFormed_bucketOf hid pair.id).sorted
  have hwin : ∀ r ∈ (s.mem.rulesForPair pair.id).percentChange,
      r.windowSeconds.isSome = true := by
    rw [hpair]
    intro r hr
    obtain ⟨hmem, -, ht⟩ := mem_rulesOfType.mp hr
    exact haveWindows_of_valid hvalid r hmem ht
  rw [finishes_iff_sharedScore hw hwin, hpair]
  exact sharedScore_isOk_iff laws hs

/-! ## A price that rounds to zero -/

theorem StoredPrice.toRat_eq {p : Decimal} (h : StoredPrice p) :
    p.toRat = (p.coeff : ℚ) * (10 : ℚ) ^ (-8 : ℤ) := by
  rw [Decimal.toRat, h.negative, h.exp]
  simp

theorem StoredPrice.toRat_pos {p : Decimal} (h : StoredPrice p)
    (hz : p.isZero = false) : 0 < p.toRat := by
  have hc : p.coeff ≠ 0 := by simpa [Decimal.isZero] using hz
  rw [h.toRat_eq]
  positivity

theorem StoredPrice.toRat_zero {p : Decimal} (h : StoredPrice p)
    (hz : p.isZero = true) : p.toRat = 0 := by
  have hc : p.coeff = 0 := by simpa [Decimal.isZero] using hz
  rw [h.toRat_eq, hc]
  simp

/-- Exact arithmetic satisfies the laws. -/
theorem storedPriceLaws_rational : StoredPriceLaws Runtime.rational where
  isZero_ofDecimal := by
    intro p hp
    show (!decide (p.toRat < 0) && !decide (0 < p.toRat)) = p.isZero
    cases hz : p.isZero with
    | true => simp [hp.toRat_zero hz]
    | false => simp [hp.toRat_pos hz]
  ratio_pos := by
    intro p q hp hq hpz hqz
    show decide (0 < q.toRat / p.toRat) = true
    exact decide_eq_true (div_pos (hq.toRat_pos hqz) (hp.toRat_pos hpz))
  ratio_zero := by
    intro p q hp hq _ hqz
    show decide (0 < q.toRat / p.toRat) = false
    rw [hq.toRat_zero hqz]
    simp

/-- A pair whose last price was 1 and is now one billionth: the column keeps
    eight decimals, so the row just added holds zero. -/
def dustPair : Pair := { id := 1, krakenPairName := "DUST/USD", displayName := "DUST/USD" }

def dustRule : AlertRule :=
  { id := 7, pairId := 1, ruleType := .zscoreMove, sigma := some ⟨false, 3, 0⟩ }

def dustObservation : Observation :=
  ⟨⟨false, 1, -9⟩, ⟨false, 1, -9⟩, ⟨false, 1, -9⟩, 60000000⟩

def dustHistory : List PriceHistory :=
  [⟨1, ⟨false, 1, 0⟩, ⟨false, 1, 0⟩, ⟨false, 1, 0⟩, none, 0⟩,
    ⟨1, dustObservation.last, dustObservation.bid, dustObservation.ask, none, 60000000⟩]

def dustState (buckets : Dict Uuid PairRules) : State :=
  let db : Database :=
    { pairs := [dustPair]
      alertRules := [dustRule]
      priceHistory := dustHistory.map PriceHistory.stored }
  ⟨db, db, { buckets }, { clock := 60000000 }⟩

theorem storedPrice_dustState (buckets : Dict Uuid PairRules) :
    ∀ row ∈ (dustState buckets).view.priceHistory, StoredPrice row.lastPrice := by
  intro row hrow
  obtain ⟨r, hr, rfl⟩ := List.mem_map.mp hrow
  clear hrow
  refine storedPrice_numeric ?_ ?_
  · revert r
    decide +kernel
  · revert r
    decide +kernel

theorem evaluate_finishes_iff_dust :
    ∃ buckets, bucketRules [dustRule] = .ok buckets
      ∧ (Finishes Runtime.rational {} dustPair dustObservation (dustState buckets)
        ↔ ScorablePair {} (dustState buckets).view dustPair [dustRule]) := by
  obtain ⟨buckets, hb, h⟩ := @evaluate_finishes_iff Runtime.rational {}
    storedPriceLaws_rational [dustRule] (by decide) (by decide)
  exact ⟨buckets, hb, h dustPair dustObservation (dustState buckets) rfl
    (storedPrice_dustState buckets)⟩

/-- On that history a validated rule makes the evaluation raise. -/
theorem not_finishes_dust :
    validRule dustRule = true
      ∧ bucketRules [dustRule] = .ok [(1, { zscoreMove := [dustRule] })]
      ∧ ¬ Finishes Runtime.rational {} dustPair dustObservation
          (dustState [(1, { zscoreMove := [dustRule] })]) := by
  refine ⟨by decide, rfl, ?_⟩
  have hraise : (runTx (evaluateRulesForPair Runtime.rational {} dustPair dustObservation)
      (dustState [(1, { zscoreMove := [dustRule] })])).1 = .error .valueError := by
    decide +kernel
  rintro ⟨created, hcreated⟩
  rw [hraise] at hcreated
  cases hcreated

end Dropwatch.Totality
