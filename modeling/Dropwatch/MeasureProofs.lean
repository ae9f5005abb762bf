import Dropwatch.BacktestProofs
import Dropwatch.Measure
import Dropwatch.PollerProofs
import Dropwatch.ScoringProofs

/-! # The sweep against the live filter

    The sweep slices a list and inlines the decision; the live path stores a
    row, fetches `window + 2` rows newest first and asks `zscore_rule_fires`.
    Both slices are the end of the prices so far (`windowSlice_eq`,
    `recentPrices_polled`) and both decisions are one (`zscoreRuleFires_eq`), so
    the two agree at every index (`sweep_eq_live`) — as long as the column keeps
    the prices.  The sweep scores what was captured, the live path what
    `Numeric(24, 8)` made of it, and below the eighth decimal these differ
    (`sweep_ne_live_dust`). -/

namespace Dropwatch.Measure

open Transact RuleIndex Zscore Evaluator Poller Scoring

/-! ## The live path -/

section Live

variable (rt : Runtime) (settings : Settings) (pair : Pair)

/-- One poll of a pair, a transaction of its own. -/
def poll (quote : Quote) (observedAt : Instant) : Tx Unit := do
  observePair rt settings pair quote observedAt
  Tx.commit

/-- Successive polls. -/
def pollAll : List (Quote × Instant) → Tx Unit
  | [] => pure ()
  | (quote, observedAt) :: rest => do
      poll rt settings pair quote observedAt
      pollAll rest

/-- What one more poll decides about a rule: the rows are written as the poller
    writes them, and the rule is or is not a candidate. -/
def liveDecision (rule : AlertRule) (quote : Quote) (observedAt : Instant) : Tx Bool := do
  Tx.write (.addPriceHistory (historyRow pair quote observedAt))
  Tx.write (.setPairObservation pair.id (assigned pair.currentLastPrice quote.last)
    (assigned pair.currentBidPrice quote.bid) (assigned pair.currentAskPrice quote.ask)
    observedAt)
  let (_, pairRules) ← Tx.mem (.rulesForPair pair.id)
  let c ← selectCandidates rt settings pair (quoteObservation quote observedAt) pairRules
  pure (c.rules.contains rule)

end Live

/-- The rows of a pair are those of some polls, and its rule is indexed. -/
structure Polled (pair : Pair) (rule : AlertRule) (polls : List (Quote × Instant))
    (s : State) : Prop where
  indexed : s.mem.Indexed
  windows : ∀ r ∈ (s.mem.rulesForPair pair.id).percentChange, r.windowSeconds.isSome = true
  rule : rule ∈ (s.mem.rulesForPair pair.id).zscoreMove
  history : Backtest.rowsOf s.view pair.id
    = polls.map (fun x => (historyRow pair x.1 x.2).stored)

/-- The `Numeric(24, 8)` column keeps a price as it is. -/
def Kept (p : Decimal) : Prop := (p.numeric 8).toRat = p.toRat

/-- The prices of some polls. -/
abbrev pricesOf (polls : List (Quote × Instant)) : List Decimal :=
  polls.map (fun x => x.1.last)

/-- Polls whose prices are positive and kept, in the order of their times. -/
structure Clean (rt : Runtime) (polls : List (Quote × Instant)) : Prop where
  floats : PositiveFloats rt (pricesOf polls)
  positive : ∀ x ∈ polls, 0 < x.1.last.toRat
  kept : ∀ x ∈ polls, Kept x.1.last
  times : polls.Pairwise (fun x y => x.2 < y.2)

variable {rt : Runtime} {pair : Pair} {rule : AlertRule}

/-- Neither the index nor the history moved. -/
theorem Polled.frame {polls : List (Quote × Instant)} {s s' : State}
    (h : Polled pair rule polls s) (hbuckets : s'.mem.buckets = s.mem.buckets)
    (hhistory : s'.view.priceHistory = s.view.priceHistory) :
    Polled pair rule polls s' := by
  have hrules : ∀ pairId, s'.mem.rulesForPair pairId = s.mem.rulesForPair pairId := by
    intro pairId
    rw [Memory.rulesForPair, hbuckets]
    rfl
  constructor
  · intro pairId
    rw [hrules]
    exact h.indexed pairId
  · rw [hrules]
    exact h.windows
  · rw [hrules]
    exact h.rule
  · rw [Backtest.rowsOf, hhistory]
    exact h.history

theorem Clean.take {polls : List (Quote × Instant)} (h : Clean rt polls) (n : Nat) :
    Clean rt (polls.take n) where
  floats := h.floats.subset (List.map_subset _ (List.take_subset n polls))
  positive := fun x hx => h.positive x (List.take_subset n polls hx)
  kept := fun x hx => h.kept x (List.take_subset n polls hx)
  times := h.times.sublist (List.take_sublist n polls)

/-! ## Scores of equal floats -/

/-- Only the floats of the prices are scored. -/
theorem computeZscore_congr {xs ys : List Decimal}
    (h : xs.map rt.ofDecimal = ys.map rt.ofDecimal) (window minObservations : Nat) :
    computeZscore rt xs window minObservations
      = computeZscore rt ys window minObservations := by
  have hlen : xs.length = ys.length := by
    rw [← List.length_map (f := rt.ofDecimal), h, List.length_map]
  rw [computeZscore, computeZscore, hlen, h]

/-- Positive prices are scored, unless the baseline may be empty. -/
theorem computeZscore_isOk {prices : List Decimal} {window minObservations : Nat}
    (hfloat : PositiveFloats rt prices) (hpos : ∀ p ∈ prices, 0 < p.toRat)
    (hmin : 1 ≤ minObservations) :
    ∃ r, computeZscore rt prices window minObservations = .ok r := by
  obtain ⟨rs, hrs⟩ := logReturns_isOk hfloat hpos
  rw [computeZscore_eq hrs, scoreReturns]
  cases rs.getLast? with
  | none => exact ⟨none, rfl⟩
  | some current =>
      by_cases hshort : rs.dropLast.length < minObservations
      · simp only [if_pos hshort]
        exact ⟨none, rfl⟩
      · simp only [if_neg hshort]
        have hne : (if window < rs.dropLast.length then lastSlice window rs.dropLast
            else rs.dropLast) ≠ [] := by
          rw [ne_eq, Totality.baseline_eq_nil_iff]
          intro hnil
          rw [hnil, List.length_nil] at hshort
          omega
        obtain ⟨r, hr⟩ := (Totality.scoreReturn_isOk_iff current _).mpr hne
        rw [hr]
        exact ⟨some r, rfl⟩

/-! ## The two slices -/

theorem windowSlice_eq (prices : List Decimal) {i : Nat} (hi : i < prices.length) :
    windowSlice prices i = newest maxPricesNeeded (prices.take (i + 1)) := by
  rw [windowSlice, newest, List.length_take, Nat.min_eq_left hi]

/-- The rows of polls in time order, newest first. -/
theorem historyDesc_polled {polls : List (Quote × Instant)} {s : State}
    (h : Polled pair rule polls s) (htimes : polls.Pairwise (fun x y => x.2 < y.2)) :
    s.view.historyDesc pair.id
      = (polls.map (fun x => (historyRow pair x.1 x.2).stored)).reverse := by
  refine eq_of_perm_of_pairwise_key PriceHistory.observedAt ?_ ?_
    (Backtest.historyDesc_pairwise s.view pair.id) ?_
  · refine ((Backtest.historyDesc_perm s.view pair.id).map _).nodup_iff.mpr ?_
    rw [h.history, List.map_map, List.Nodup, List.pairwise_map]
    exact htimes.imp (fun hlt => ne_of_lt hlt)
  · rw [← h.history]
    exact (Backtest.historyDesc_perm s.view pair.id).trans (List.reverse_perm _).symm
  · rw [List.pairwise_reverse, List.pairwise_map]
    exact htimes.imp (fun hlt => le_of_lt hlt)

/-- The fetch returns the end of the polled prices, as the column keeps them. -/
theorem recentPrices_polled {polls : List (Quote × Instant)} {s : State}
    (h : Polled pair rule polls s) (htimes : polls.Pairwise (fun x y => x.2 < y.2))
    (limit : Nat) :
    (s.view.recentPrices pair.id limit).reverse
      = newest limit ((pricesOf polls).map (Decimal.numeric 8)) := by
  rw [reverse_recentPrices, historyDesc_polled h htimes, List.map_reverse,
    List.reverse_reverse, List.map_map, List.map_map]
  rfl

theorem map_newest {α : Type} (f : Decimal → α) (limit : Nat) (prices : List Decimal) :
    (newest limit prices).map f = (prices.map f).drop (prices.length - limit) :=
  List.map_drop

/-- `float(Decimal)` depends on the number only. -/
def ByValue (rt : Runtime) : Prop :=
  ∀ a b : Decimal, a.toRat = b.toRat → rt.ofDecimal a = rt.ofDecimal b

/-- Kept prices are scored as they were captured. -/
theorem scoreIn_polled (hvalue : ByValue rt) {polls : List (Quote × Instant)} {s : State}
    (h : Polled pair rule polls s) (hclean : Clean rt polls) :
    scoreIn rt {} s.view pair
      = computeZscore rt (newest maxPricesNeeded (pricesOf polls)) window
          minObservations := by
  have hfloats : ((pricesOf polls).map (Decimal.numeric 8)).map rt.ofDecimal
      = (pricesOf polls).map rt.ofDecimal := by
    rw [List.map_map, List.map_map, List.map_map]
    refine List.map_congr_left ?_
    intro x hx
    exact hvalue _ _ (hclean.kept x hx)
  rw [scoreIn, recentPrices_polled h hclean.times]
  refine computeZscore_congr ?_ _ _
  rw [map_newest, map_newest, hfloats, List.length_map]
  rfl

/-! ## The two decisions -/

/-- `zscore_rule_fires` of a two-sided rule with a cutoff of 2 is the inlined
    decision. -/
theorem zscoreRuleFires_eq (hvalue : ByValue rt) {sigma : Decimal}
    (hsigma : rule.sigma = some sigma) (htwo : sigma.toRat = 2)
    (hdir : rule.direction = none ∨ rule.direction = some "both")
    (result : Option (ZScoreResult rt)) :
    zscoreRuleFires rt rule result ⟨false, 5, -1⟩ = (sweepDecision rt result).1 := by
  have hboth : directionOrBoth rule = "both" := by
    rcases hdir with hd | hd
    · simp [directionOrBoth, hd]
    · simp [directionOrBoth, hd]
  have hcutoff : rt.ofDecimal sigma = sigmaCutoff rt := by
    refine hvalue _ _ ?_
    rw [htwo]
    norm_num [Decimal.toRat]
  cases result with
  | none => rfl
  | some result =>
      simp only [zscoreRuleFires, sweepDecision, hsigma]
      cases hz : result.z with
      | none =>
          -- The live test is inverted: below the minimum nothing fires.
          simp only [hboth, Runtime.le, zeroVarianceMinPercent]
          cases rt.lt (rt.percent (rt.abs (rt.expm1 result.currentReturn)))
              (rt.ofDecimal ⟨false, 5, -1⟩) with
          | true => rfl
          | false => rfl
      | some z =>
          simp only [hboth, hcutoff]
          rfl

/-- A candidate of type `zscore_move` is selected by its own predicate. -/
theorem mem_selectedIn_zscore {settings : Settings} {db : Database} {obs : Observation}
    {score : Option (ZScoreResult rt)} {b : PairRules} {pairId : Uuid}
    (hw : b.WellFormed pairId) (hmem : rule ∈ b.zscoreMove) :
    rule ∈ selectedIn rt settings db pair obs score b
      ↔ zscoreRuleFires rt rule score settings.zscoreZeroVarianceMinPercent = true := by
  have ht := hw.zscoreMove rule hmem
  rw [selectedIn]
  simp only [List.mem_append, List.mem_filter, matchingAbsoluteRules]
  constructor
  · -- Every other bucket holds rules of another type.
    rintro ((((h | h) | h) | h) | h)
    · have := hw.absoluteBelow rule ((List.takeWhile_prefix _).subset h)
      rw [ht] at this
      cases this
    · have := hw.absoluteAbove rule ((List.takeWhile_prefix _).subset h)
      rw [ht] at this
      cases this
    · exact h.2
    · have := hw.percentChange rule h.1
      rw [ht] at this
      cases this
    · have := hw.spreadWiden rule h.1
      rw [ht] at this
      cases this
  · intro h
    exact Or.inl (Or.inl (Or.inr ⟨hmem, h⟩))

/-! ## One poll, and a run of polls -/

/-- The state in which the candidate stage of a poll runs. -/
def whenObserved (pair : Pair) (quote : Quote) (t : Instant) (s : State) : State :=
  { s with view := observed s.view pair quote t }

theorem Polled.observed {polls : List (Quote × Instant)} {s : State}
    (h : Polled pair rule polls s) (quote : Quote) (t : Instant) :
    Polled pair rule (polls ++ [(quote, t)]) (whenObserved pair quote t s) where
  indexed := h.indexed
  windows := h.windows
  rule := h.rule
  history := by
    show (s.view.priceHistory ++ [(historyRow pair quote t).stored]).filter _ = _
    have hrow : [(historyRow pair quote t).stored].filter (fun r => r.pairId == pair.id)
        = [(historyRow pair quote t).stored] :=
      List.filter_cons_of_pos (beq_self_eq_true _)
    rw [List.filter_append, hrow, List.map_append]
    exact congrArg (· ++ _) h.history

/-- The candidate stage of a poll returns; the rule is a candidate exactly if the
    shared score makes it fire. -/
theorem candidatesIn_polled (hvalue : ByValue rt) {polls : List (Quote × Instant)} {s : State}
    (h : Polled pair rule polls s) (hclean : Clean rt polls) (obs : Observation) :
    ∃ score c, computeZscore rt (newest maxPricesNeeded (pricesOf polls)) window
          minObservations = .ok score
      ∧ candidatesIn rt {} s.view pair obs (s.mem.rulesForPair pair.id) = .ok c
      ∧ (rule ∈ c.rules ↔ zscoreRuleFires rt rule score ⟨false, 5, -1⟩ = true) := by
  have hsub := newest_subset maxPricesNeeded (pricesOf polls)
  obtain ⟨score, hscore⟩ := @computeZscore_isOk rt _ window minObservations
    (hclean.floats.subset hsub)
    (fun p hp => by
      obtain ⟨x, hx, rfl⟩ := List.mem_map.mp (hsub hp)
      exact hclean.positive x hx)
    (show 1 ≤ minObservations by decide)
  have hshared : sharedScore rt {} s.view pair (s.mem.rulesForPair pair.id).zscoreMove
      = .ok score := by
    have hne : (s.mem.rulesForPair pair.id).zscoreMove.isEmpty = false := by
      rw [List.isEmpty_eq_false_iff]
      exact List.ne_nil_of_mem h.rule
    rw [sharedScore, hne, if_neg Bool.false_ne_true, scoreIn_polled hvalue h hclean, hscore]
  have hc := @candidatesIn_eq_map rt {} s.view pair obs (s.mem.rulesForPair pair.id) h.windows
  rw [hshared] at hc
  exact ⟨score, _, hscore, hc, mem_selectedIn_zscore (h.indexed pair.id) h.rule⟩

/-- A poll returns and leaves the polls so far. -/
theorem runTx_poll (hvalue : ByValue rt) {polls : List (Quote × Instant)} {s : State}
    {quote : Quote} {t : Instant} (h : Polled pair rule polls s)
    (hclean : Clean rt (polls ++ [(quote, t)])) :
    ∃ s', runTx (poll rt {} pair quote t) s = (.ok (), s')
      ∧ Polled pair rule (polls ++ [(quote, t)]) s' := by
  have hobserved := h.observed quote t
  obtain ⟨score, c, -, hc, -⟩ := candidatesIn_polled hvalue hobserved hclean
    (quoteObservation quote t)
  have hrun := @runTx_observePair rt {} pair quote t s h.indexed
  have hc' : candidatesIn rt {} (Poller.observed s.view pair quote t) pair
      (quoteObservation quote t) (s.mem.rulesForPair pair.id) = .ok c := hc
  rw [hc'] at hrun
  obtain ⟨hhistory, hbuckets, -⟩ := fireAll_frame rt pair (quoteObservation quote t)
    s.mem.generation c c.rules (whenObserved pair quote t s)
  refine ⟨_, runTx_bind_ok hrun, hobserved.frame hbuckets hhistory⟩

theorem runTx_pollAll (hvalue : ByValue rt) {todo : List (Quote × Instant)} :
    ∀ {polls : List (Quote × Instant)} {s : State}, Polled pair rule polls s →
      Clean rt (polls ++ todo) →
      ∃ s', runTx (pollAll rt {} pair todo) s = (.ok (), s')
        ∧ Polled pair rule (polls ++ todo) s' := by
  induction todo with
  | nil =>
      intro polls s h _
      rw [List.append_nil]
      exact ⟨s, rfl, h⟩
  | cons x rest ih =>
      obtain ⟨quote, t⟩ := x
      intro polls s h hclean
      have hsplit : polls ++ (quote, t) :: rest = (polls ++ [(quote, t)]) ++ rest := by simp
      rw [hsplit] at hclean ⊢
      have hfirst : Clean rt (polls ++ [(quote, t)]) := by
        have htake := hclean.take (polls ++ [(quote, t)]).length
        rwa [List.take_left] at htake
      obtain ⟨s₁, hrun, h₁⟩ := runTx_poll hvalue h hfirst
      obtain ⟨s', hrest, h'⟩ := ih h₁ hclean
      exact ⟨s', (runTx_bind_ok hrun).trans hrest, h'⟩

/-- The decision of one more poll is `zscore_rule_fires` on the newest prices. -/
theorem runTx_liveDecision (hvalue : ByValue rt) {polls : List (Quote × Instant)} {s : State}
    {quote : Quote} {t : Instant} (h : Polled pair rule polls s)
    (hclean : Clean rt (polls ++ [(quote, t)])) :
    ∃ score, computeZscore rt (newest maxPricesNeeded (pricesOf (polls ++ [(quote, t)])))
          window minObservations = .ok score
      ∧ (runTx (liveDecision rt {} pair rule quote t) s).1
        = .ok (zscoreRuleFires rt rule score ⟨false, 5, -1⟩) := by
  obtain ⟨score, c, hscore, hc, hmem⟩ := candidatesIn_polled hvalue (h.observed quote t) hclean
    (quoteObservation quote t)
  refine ⟨score, hscore, ?_⟩
  show (runTx (selectCandidates rt {} pair (quoteObservation quote t)
    (s.mem.rulesForPair pair.id) >>= fun c => pure (c.rules.contains rule))
    (whenObserved pair quote t s)).1 = _
  have hc' : candidatesIn rt {} (whenObserved pair quote t s).view pair
      (quoteObservation quote t) (s.mem.rulesForPair pair.id) = .ok c := hc
  rw [runTx_map_fst, runTx_selectCandidates, hc']
  show Except.ok (c.rules.contains rule) = _
  rw [← List.contains_iff_mem] at hmem
  exact congrArg Except.ok (Bool.eq_iff_iff.mpr hmem)

/-! ## The sweep -/

theorem priceAt_mem {prices : List Decimal} {i : Nat} (hi : i < prices.length) :
    priceAt prices i ∈ prices := by
  rw [priceAt, List.getD_eq_getElem?_getD, List.getElem?_eq_getElem hi, Option.getD_some]
  exact List.getElem_mem hi

/-- One pass over positive prices returns, with the inlined decision on the score
    of its slice. -/
theorem sweepAt_ok {prices : List Decimal} (hfloat : PositiveFloats rt prices)
    (hpos : ∀ p ∈ prices, 0 < p.toRat) (naive : rt.F) {i : Nat} (hi : i < prices.length) :
    ∃ score result, computeZscore rt (newest maxPricesNeeded (prices.take (i + 1))) window
          minObservations = .ok score
      ∧ sweepAt rt prices naive i = .ok result
      ∧ result.zscoreFires = (sweepDecision rt score).1 := by
  have hsub : newest maxPricesNeeded (prices.take (i + 1)) ⊆ prices :=
    List.Subset.trans (newest_subset _ _) (List.take_subset _ _)
  obtain ⟨score, hscore⟩ := @computeZscore_isOk rt _ window minObservations (hfloat.subset hsub)
    (fun p hp => hpos p (hsub hp)) (show 1 ≤ minObservations by decide)
  have hprevious : priceAt prices (i - 1) ∈ prices := priceAt_mem (by omega)
  have hdiv : ∀ x, rt.divide x (rt.ofDecimal (priceAt prices (i - 1)))
      = .ok (rt.div x (rt.ofDecimal (priceAt prices (i - 1)))) := by
    intro x
    rw [Runtime.divide, hfloat.isZero_ofDecimal _ hprevious (hpos _ hprevious)]
    rfl
  let move := rt.div (rt.sub (rt.ofDecimal (priceAt prices i))
    (rt.ofDecimal (priceAt prices (i - 1)))) (rt.ofDecimal (priceAt prices (i - 1)))
  refine ⟨score, ⟨rt.lt naive (rt.percent (rt.abs move)), (sweepDecision rt score).1,
    (sweepDecision rt score).2⟩, hscore, ?_, rfl⟩
  rw [sweepAt, windowSlice_eq prices hi, hscore]
  simp only [bind, Except.bind, hdiv]
  rfl

/-- A loop whose passes all return collects their results. -/
theorem sweepOver_ok {prices : List Decimal} {naive : rt.F} {f : Nat → SweepResult} :
    ∀ {is : List Nat}, (∀ i ∈ is, sweepAt rt prices naive i = .ok (f i)) →
      sweepOver rt prices naive is = .ok (is.map f) := by
  intro is
  induction is with
  | nil => exact fun _ => rfl
  | cons i rest ih =>
      intro h
      rw [sweepOver, h i List.mem_cons_self, ih (fun j hj => h j (List.mem_cons_of_mem _ hj))]
      rfl

/-- A sweep over positive prices returns one result for every index from 1 on. -/
theorem sweepPair_ok {prices : List Decimal} (hfloat : PositiveFloats rt prices)
    (hpos : ∀ p ∈ prices, 0 < p.toRat) (naive : rt.F) :
    ∃ results, sweepPair rt prices naive = .ok results
      ∧ results.length = prices.length - 1
      ∧ ∀ i, 1 ≤ i → i < prices.length → ∃ score result,
          computeZscore rt (newest maxPricesNeeded (prices.take (i + 1))) window
              minObservations = .ok score
            ∧ results[i - 1]? = some result
            ∧ result.zscoreFires = (sweepDecision rt score).1 := by
  have hpass : ∀ i, ∃ result, i < prices.length →
      sweepAt rt prices naive i = .ok result := by
    intro i
    by_cases hi : i < prices.length
    · obtain ⟨-, result, -, hresult, -⟩ := sweepAt_ok hfloat hpos naive hi
      exact ⟨result, fun _ => hresult⟩
    · exact ⟨⟨false, false, false⟩, fun h => absurd h hi⟩
  choose f hf using hpass
  refine ⟨(List.range' 1 (prices.length - 1)).map f, ?_, ?_, ?_⟩
  · refine sweepOver_ok ?_
    intro i hi
    rw [List.mem_range'_1] at hi
    exact hf i (by omega)
  · rw [List.length_map, List.length_range']
  · intro i hi hlt
    obtain ⟨score, result, hscore, hresult, hfires⟩ := sweepAt_ok hfloat hpos naive hlt
    refine ⟨score, result, hscore, ?_, hfires⟩
    have hindex : (List.range' 1 (prices.length - 1))[i - 1]? = some i := by
      rw [List.getElem?_range' (by omega)]
      congr 1
      omega
    rw [List.getElem?_map, hindex, Option.map_some]
    rw [hf i hlt] at hresult
    exact congrArg some (Except.ok.inj hresult)

/-! ## The comparison -/

/-- The sweep has a result for every index from 1 on, and the verdict in it is the
    live one after the poll of that index. -/
def Agree (rt : Runtime) (pair : Pair) (rule : AlertRule) (polls : List (Quote × Instant))
    (s : State) (naive : rt.F) : Prop :=
  ∃ results, sweepPair rt (pricesOf polls) naive = .ok results
    ∧ results.length = polls.length - 1
    ∧ ∀ i quote t, 1 ≤ i → polls[i]? = some (quote, t) → ∃ s' result,
        runTx (pollAll rt {} pair (polls.take i)) s = (.ok (), s')
          ∧ results[i - 1]? = some result
          ∧ (runTx (liveDecision rt {} pair rule quote t) s').1 = .ok result.zscoreFires

/-- Over prices that the column keeps, the sweep and the live filter agree. -/
theorem sweep_eq_live (hvalue : ByValue rt) {polls : List (Quote × Instant)} {s : State}
    (hstart : Polled pair rule [] s) (hclean : Clean rt polls) {sigma : Decimal}
    (hsigma : rule.sigma = some sigma) (htwo : sigma.toRat = 2)
    (hdir : rule.direction = none ∨ rule.direction = some "both") (naive : rt.F) :
    Agree rt pair rule polls s naive := by
  obtain ⟨results, hsweep, hlen, hresults⟩ := sweepPair_ok hclean.floats
    (fun p hp => by
      obtain ⟨x, hx, rfl⟩ := List.mem_map.mp hp
      exact hclean.positive x hx) naive
  rw [List.length_map] at hlen
  refine ⟨results, hsweep, hlen, ?_⟩
  intro i quote t hi hpoll
  have hlt : i < polls.length := (List.getElem?_eq_some_iff.mp hpoll).1
  -- The polls up to `i` are those before it and this one.
  have htake : polls.take (i + 1) = polls.take i ++ [(quote, t)] := by
    rw [List.take_add_one, hpoll]
    rfl
  have hupto : Clean rt (polls.take i ++ [(quote, t)]) := by
    rw [← htake]
    exact hclean.take (i + 1)
  obtain ⟨s', hrun, hs'⟩ := runTx_pollAll hvalue hstart (by
    rw [List.nil_append]
    exact hclean.take i)
  rw [List.nil_append] at hs'
  obtain ⟨score, hscore, hlive⟩ := runTx_liveDecision hvalue hs' hupto
  obtain ⟨score', result, hscore', hresult, hfires⟩ := hresults i hi
    (by rw [List.length_map]; exact hlt)
  rw [pricesOf, ← List.map_take, htake, hscore] at hscore'
  obtain rfl := Except.ok.inj hscore'
  refine ⟨s', result, hrun, hresult, ?_⟩
  rw [hlive, zscoreRuleFires_eq hvalue hsigma htwo hdir, hfires]

/-! ## Prices below the eighth decimal -/

def dustPair : Pair := { id := 1, krakenPairName := "DUST/USD", displayName := "DUST/USD" }

/-- A rule with the cutoff of the sweep. -/
def dustRule : AlertRule :=
  { id := 7, pairId := 1, ruleType := .zscoreMove, sigma := some ⟨false, 2000, -3⟩ }

def dustState : State :=
  let db : Database := { pairs := [dustPair], alertRules := [dustRule] }
  ⟨db, db, ({} : Memory).install [dustRule] [(1, { zscoreMove := [dustRule] })],
    { clock := 0 }⟩

/-- A naive threshold of a quarter percent. -/
def quarterPercent : Runtime.rational.F := Runtime.rational.ofDecimal ⟨false, 25, -2⟩

/-- A minute's quote, in billionths. -/
def dustQuote (billionths : Nat) (minute : Nat) : Quote × Instant :=
  (⟨"DUST/USD", ⟨false, billionths, -9⟩, ⟨false, billionths, -9⟩, ⟨false, billionths, -9⟩,
    ⟨false, 1, 0⟩⟩, minute * 60000000)

/-- Thirty-one quotes of fourteen billionths and one of ten: both are stored as
    one hundred-millionth. -/
def dustPolls : List (Quote × Instant) :=
  (List.range 31).map (dustQuote 14) ++ [dustQuote 10 31]

theorem polled_dustState : Polled dustPair dustRule [] dustState where
  indexed := Memory.Indexed.install (by decide) rfl {}
  windows := by
    intro r hr
    exact absurd hr List.not_mem_nil
  rule := List.mem_singleton_self _
  history := rfl

/-- The sweep calls the last move a fire of 28 percent; the live filter sees none. -/
theorem sweep_ne_live_dust :
    Polled dustPair dustRule [] dustState ∧ (∀ x ∈ dustPolls, 0 < x.1.last.toRat)
      ∧ dustPolls.Pairwise (fun x y => x.2 < y.2)
      ∧ ¬ Agree Runtime.rational dustPair dustRule dustPolls dustState quarterPercent := by
  refine ⟨polled_dustState, by decide +kernel, by decide +kernel, ?_⟩
  rintro ⟨results, hsweep, -, hagree⟩
  obtain ⟨s', result, hrun, hresult, hlive⟩ := hagree 31 _ _ (by decide)
    (show dustPolls[31]? = some (dustQuote 10 31) from rfl)
  have hfires : ((sweepPair Runtime.rational (pricesOf dustPolls)
      quarterPercent).toOption.bind
      (fun results => results[30]?)).map SweepResult.zscoreFires = some true := by
    decide +kernel
  have hsilent : (runTx (liveDecision Runtime.rational {} dustPair dustRule
      (dustQuote 10 31).1 (dustQuote 10 31).2)
      (runTx (pollAll Runtime.rational {} dustPair (dustPolls.take 31)) dustState).2).1
      = .ok false := by
    decide +kernel
  have hindex : results[30]? = some result := hresult
  rw [hsweep] at hfires
  simp only [Except.toOption, Option.bind_some, hindex, Option.map_some,
    Option.some.injEq] at hfires
  rw [hrun] at hsilent
  have hsame : Except.ok result.zscoreFires = Except.ok false := hlive.symm.trans hsilent
  rw [hfires] at hsame
  cases hsame

/-- The same rule over prices of eight decimals. -/
def coarsePolls : List (Quote × Instant) :=
  (List.range 31).map (dustQuote 1400) ++ [dustQuote 1000 31]

theorem sweep_eq_live_coarse :
    Agree Runtime.rational dustPair dustRule coarsePolls dustState quarterPercent :=
  sweep_eq_live (fun _ _ h => h) polled_dustState
    { floats := positiveFloats_rational _
      positive := by decide +kernel
      kept := by
        show ∀ x ∈ coarsePolls, (x.1.last.numeric 8).toRat = x.1.last.toRat
        decide +kernel
      times := by decide +kernel }
    (show dustRule.sigma = some ⟨false, 2000, -3⟩ from rfl) (by norm_num [Decimal.toRat])
    (Or.inl rfl) quarterPercent

end Dropwatch.Measure
