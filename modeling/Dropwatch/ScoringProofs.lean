import Mathlib.Data.List.TakeDrop
import Mathlib.Tactic.Positivity
import Dropwatch.Evaluator

/-! # Scoring a tail is scoring the history

    The evaluator fetches `window + 2` rows and scores those.  Every shift in
    the pipeline is one element: prices to returns, the current return out of
    its own baseline, the cap of the baseline at `window`.  Dropping `k` old
    prices drops `k` old returns (`logReturns_drop`), and the cap then drops the
    same `k` from the longer list, so both lists are scored alike
    (`scoreReturns_drop`). -/

namespace Dropwatch.Scoring

open Zscore

variable {rt : Runtime}

/-! ## Positive prices as floats -/

/-- What float arithmetic gives for the positive prices of a list, none of them
    so extreme that it, or a quotient of two, underflows: no such price converts
    to zero, and their quotients are positive. -/
structure PositiveFloats (rt : Runtime) (prices : List Decimal) : Prop where
  isZero_ofDecimal : ∀ p ∈ prices, 0 < p.toRat → rt.isZero (rt.ofDecimal p) = false
  ratio_pos : ∀ p ∈ prices, ∀ q ∈ prices, 0 < p.toRat → 0 < q.toRat →
    rt.lt rt.zero (rt.div (rt.ofDecimal q) (rt.ofDecimal p)) = true

theorem PositiveFloats.subset {xs ys : List Decimal} (h : PositiveFloats rt ys)
    (hsub : xs ⊆ ys) : PositiveFloats rt xs where
  isZero_ofDecimal := fun p hp => h.isZero_ofDecimal p (hsub hp)
  ratio_pos := fun p hp q hq => h.ratio_pos p (hsub hp) q (hsub hq)

/-- Positive prices have log returns. -/
theorem logReturns_isOk {prices : List Decimal} (hfloat : PositiveFloats rt prices)
    (hpos : ∀ p ∈ prices, 0 < p.toRat) :
    ∃ rs, logReturns rt (prices.map rt.ofDecimal) = .ok rs := by
  induction prices with
  | nil => exact ⟨[], rfl⟩
  | cons p rest ih =>
      cases rest with
      | nil => exact ⟨[], rfl⟩
      | cons q rest =>
          obtain ⟨rs, hrs⟩ := ih (hfloat.subset (List.subset_cons_self _ _))
            (fun x hx => hpos x (List.mem_cons_of_mem _ hx))
          have hp : p ∈ p :: q :: rest := List.mem_cons_self
          have hq : q ∈ p :: q :: rest := List.mem_cons_of_mem _ List.mem_cons_self
          have hdiv : rt.divide (rt.ofDecimal q) (rt.ofDecimal p)
              = .ok (rt.div (rt.ofDecimal q) (rt.ofDecimal p)) := by
            rw [Runtime.divide, hfloat.isZero_ofDecimal p hp (hpos p hp)]
            rfl
          have hlog : rt.mathLog (rt.div (rt.ofDecimal q) (rt.ofDecimal p))
              = .ok (rt.log (rt.div (rt.ofDecimal q) (rt.ofDecimal p))) := by
            rw [Runtime.mathLog, hfloat.ratio_pos p hp q hq (hpos p hp) (hpos q hq)]
            rfl
          refine ⟨rt.log (rt.div (rt.ofDecimal q) (rt.ofDecimal p)) :: rs, ?_⟩
          rw [List.map_cons] at hrs
          rw [List.map_cons, List.map_cons, logReturns, hdiv, hrs]
          show (rt.mathLog _ >>= fun r => _) = _
          rw [hlog]
          rfl

/-! ## Returns of a tail -/

/-- One step of `logReturns` backwards. -/
theorem logReturns_cons_ok {x y : rt.F} {xs rs : List rt.F}
    (h : logReturns rt (x :: y :: xs) = .ok rs) :
    ∃ r rs', rs = r :: rs' ∧ logReturns rt (y :: xs) = .ok rs' := by
  rw [logReturns] at h
  cases hdiv : rt.divide y x with
  | error e =>
      rw [hdiv] at h
      cases h
  | ok ratio =>
      cases hlog : rt.mathLog ratio with
      | error e =>
          simp only [hdiv, hlog, bind, Except.bind] at h
          cases h
      | ok r =>
          cases htail : logReturns rt (y :: xs) with
          | error e =>
              simp only [hdiv, hlog, htail, bind, Except.bind] at h
              cases h
          | ok rs' =>
              simp only [hdiv, hlog, htail, bind, Except.bind, pure, Except.pure,
                Except.ok.injEq] at h
              exact ⟨r, rs', h.symm, rfl⟩

theorem length_logReturns {xs rs : List rt.F} (h : logReturns rt xs = .ok rs) :
    rs.length = xs.length - 1 := by
  induction xs generalizing rs with
  | nil =>
      cases h
      rfl
  | cons x xs ih =>
      cases xs with
      | nil =>
          cases h
          rfl
      | cons y xs =>
          obtain ⟨r, rs', rfl, htail⟩ := logReturns_cons_ok h
          rw [List.length_cons, ih htail]
          rfl

/-- The returns without the oldest prices are the returns without the oldest
    returns. -/
theorem logReturns_drop {xs rs : List rt.F} (k : Nat) (h : logReturns rt xs = .ok rs) :
    logReturns rt (xs.drop k) = .ok (rs.drop k) := by
  induction k generalizing xs rs with
  | zero => exact h
  | succ k ih =>
      cases xs with
      | nil =>
          cases h
          rfl
      | cons x xs =>
          cases xs with
          | nil =>
              cases h
              rw [List.drop_succ_cons, List.drop_nil, List.drop_nil]
              rfl
          | cons y xs =>
              obtain ⟨r, rs', rfl, htail⟩ := logReturns_cons_ok h
              rw [List.drop_succ_cons, List.drop_succ_cons]
              exact ih htail

/-! ## Scoring a list of returns -/

/-- What `compute_zscore` does with the returns. -/
def scoreReturns (rt : Runtime) (returns : List rt.F) (window minObservations : Nat) :
    Except PyError (Option (ZScoreResult rt)) :=
  match returns.getLast? with
  | none => pure none
  | some current =>
      if returns.dropLast.length < minObservations then pure none
      else do
        let result ← scoreReturn rt current
          (if window < returns.dropLast.length then lastSlice window returns.dropLast
            else returns.dropLast)
        pure (some result)

theorem computeZscore_eq {prices : List Decimal} {rs : List rt.F}
    (h : logReturns rt (prices.map rt.ofDecimal) = .ok rs) (window minObservations : Nat) :
    computeZscore rt prices window minObservations
      = scoreReturns rt rs window minObservations := by
  rw [computeZscore, h]
  by_cases hlen : prices.length < 2
  · have hrs : rs.length = 0 := by
      rw [length_logReturns h, List.length_map]
      omega
    rw [if_pos hlen, List.length_eq_zero_iff.mp hrs]
    rfl
  · rw [if_neg hlen]
    rfl

/-- Old returns beyond the window, and the minimum with them, do not matter. -/
theorem scoreReturns_drop {rs : List rt.F} {window minObservations k : Nat}
    (hw : 1 ≤ window) (hm : minObservations ≤ window) (hlen : rs.length = k + window + 1) :
    scoreReturns rt (rs.drop k) window minObservations
      = scoreReturns rt rs window minObservations := by
  have hlast : (rs.drop k).getLast? = rs.getLast? := by
    rw [List.getLast?_drop, if_neg (by omega)]
  have hdrop : (rs.drop k).dropLast = rs.dropLast.drop k :=
    List.dropLast_drop_eq_drop_dropLast _ _
  have hshort : (rs.dropLast.drop k).length = window := by
    rw [List.length_drop, List.length_dropLast]
    omega
  have hbase : (if window < rs.dropLast.length then lastSlice window rs.dropLast
      else rs.dropLast) = rs.dropLast.drop k := by
    rw [List.length_dropLast]
    by_cases hk : window < rs.length - 1
    · rw [if_pos hk, lastSlice, if_neg (by omega), List.length_dropLast]
      congr 1
      omega
    · have hzero : k = 0 := by omega
      rw [if_neg hk, hzero, List.drop_zero]
  have hmin : ¬ rs.dropLast.length < minObservations := by
    rw [List.length_dropLast]
    omega
  rw [scoreReturns, scoreReturns, hlast, hdrop, hbase, hshort, if_neg (Nat.lt_irrefl _)]
  simp only [if_neg (Nat.not_lt.mpr hm), if_neg hmin]

/-! ## The fetched tail -/

/-- The newest prices of a chronological list. -/
def newest (limit : Nat) (prices : List Decimal) : List Decimal :=
  prices.drop (prices.length - limit)

theorem newest_subset (limit : Nat) (prices : List Decimal) :
    newest limit prices ⊆ prices := List.drop_subset _ _

/-- `ORDER BY observed_at DESC LIMIT n`, reversed, is the end of the pair's
    chronological history. -/
theorem reverse_recentPrices (db : Database) (pairId : Uuid) (limit : Nat) :
    (db.recentPrices pairId limit).reverse
      = newest limit ((db.historyDesc pairId).map PriceHistory.lastPrice).reverse := by
  rw [newest, Database.recentPrices, List.map_take, List.length_reverse,
    List.reverse_take]

/-- The score of the fetched prices is the score of the whole history. -/
theorem computeZscore_newest {prices : List Decimal} {window minObservations : Nat}
    (hfloat : PositiveFloats rt prices) (hpos : ∀ p ∈ prices, 0 < p.toRat)
    (hw : 1 ≤ window) (hm : minObservations ≤ window) :
    computeZscore rt (newest (window + 2) prices) window minObservations
      = computeZscore rt prices window minObservations := by
  obtain ⟨rs, hrs⟩ := logReturns_isOk hfloat hpos
  have hlen := length_logReturns hrs
  rw [List.length_map] at hlen
  by_cases hlong : prices.length ≤ window + 2
  · rw [newest, Nat.sub_eq_zero_of_le hlong, List.drop_zero]
  · have hdrop : logReturns rt ((newest (window + 2) prices).map rt.ofDecimal)
        = .ok (rs.drop (prices.length - (window + 2))) := by
      rw [newest, List.map_drop]
      exact logReturns_drop _ hrs
    rw [computeZscore_eq hdrop, computeZscore_eq hrs]
    exact scoreReturns_drop hw hm (by omega)

/-- The evaluator's score, of the `window + 2` rows it fetches, is the score of
    every price the pair ever had. -/
theorem computeZscore_fetched {prices : List Decimal} {window minObservations : Nat}
    (hfloat : PositiveFloats rt prices) (hpos : ∀ p ∈ prices, 0 < p.toRat)
    (hw : 1 ≤ window) (hm : minObservations ≤ window) :
    computeZscore rt (newest (window + 2) prices) window minObservations
        = computeZscore rt prices window minObservations
      ∧ ∀ (db : Database) (pairId : Uuid),
          ((db.historyDesc pairId).map PriceHistory.lastPrice).reverse = prices →
          (db.recentPrices pairId (window + 2)).reverse = newest (window + 2) prices := by
  refine ⟨computeZscore_newest hfloat hpos hw hm, ?_⟩
  intro db pairId hprices
  rw [reverse_recentPrices, hprices]

/-- Exact arithmetic has no underflow. -/
theorem positiveFloats_rational (prices : List Decimal) :
    PositiveFloats Runtime.rational prices where
  isZero_ofDecimal := by
    intro p _ hp
    show (!decide (p.toRat < 0) && !decide (0 < p.toRat)) = false
    simp [hp]
  ratio_pos := by
    intro p _ q _ hp hq
    show decide (0 < q.toRat / p.toRat) = true
    exact decide_eq_true (div_pos hq hp)

/-- Five prices, a window of one: the fetch takes the last three. -/
def fivePrices : List Decimal :=
  [⟨false, 1, 0⟩, ⟨false, 2, 0⟩, ⟨false, 4, 0⟩, ⟨false, 5, 0⟩, ⟨false, 6, 0⟩]

theorem computeZscore_fetched_five :
    computeZscore Runtime.rational (newest (1 + 2) fivePrices) 1 1
        = computeZscore Runtime.rational fivePrices 1 1
      ∧ ∀ (db : Database) (pairId : Uuid),
          ((db.historyDesc pairId).map PriceHistory.lastPrice).reverse = fivePrices →
          (db.recentPrices pairId (1 + 2)).reverse = newest (1 + 2) fivePrices :=
  computeZscore_fetched (positiveFloats_rational fivePrices) (by decide +kernel)
    (Nat.le_refl 1) (Nat.le_refl 1)

end Dropwatch.Scoring
