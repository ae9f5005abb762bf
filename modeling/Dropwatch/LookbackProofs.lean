import Dropwatch.TrackProofs

/-! # The past price — `percent_change` and the future

    A `percent_change` rule compares the observation with the newest row not
    after `observed_at - window_seconds`.  Nothing bounds `window_seconds` below:
    `_validate_rule_fields` asks only that it is there, so an accepted rule may
    have a negative window, whose cutoff lies after the observation.

    `LooksBack` is what the comment in `_fetch_price_at_or_before` promises, over
    every state an evaluation can meet, so that rows may lie on both sides of the
    observation, as they do while a backtest replays them. -/

namespace Dropwatch.Lookback

open Transact RuleIndex Evaluator RulesApi Totality Backtest

/-! ## The row of an instant -/

/-- `row` is a newest row of the pair not after an instant. -/
structure IsAsOf (db : Database) (pairId : Uuid) (cutoff : Instant)
    (row : PriceHistory) : Prop where
  stored : row ∈ db.priceHistory
  ofPair : row.pairId = pairId
  le_cutoff : row.observedAt ≤ cutoff
  newest : ∀ r ∈ db.priceHistory, r.pairId = pairId → r.observedAt ≤ cutoff →
    r.observedAt ≤ row.observedAt

/-- The rows of a pair not after an instant. -/
def rowsUpTo (db : Database) (pairId : Uuid) (t : Instant) : List PriceHistory :=
  db.priceHistory.filter (fun r => r.pairId == pairId && decide (r.observedAt ≤ t))

variable {db db' : Database} {pairId : Uuid} {cutoff t : Instant}

theorem mem_rowsUpTo {r : PriceHistory} : r ∈ rowsUpTo db pairId t
    ↔ r ∈ db.priceHistory ∧ r.pairId = pairId ∧ r.observedAt ≤ t := by
  simp [rowsUpTo]

/-- The history up to an instant, newest first: its rows, sorted by themselves. -/
theorem filter_historyDesc (db : Database) (pairId : Uuid) (t : Instant) :
    (db.historyDesc pairId).filter (fun r => decide (r.observedAt ≤ t))
      = (rowsUpTo db pairId t).insertionSort (fun a b => b.observedAt ≤ a.observedAt) := by
  have : Std.Total (fun a b : PriceHistory => b.observedAt ≤ a.observedAt) :=
    ⟨fun a b => le_total b.observedAt a.observedAt⟩
  have : IsTrans PriceHistory (fun a b => b.observedAt ≤ a.observedAt) :=
    ⟨fun a b c hab hbc => le_trans hbc hab⟩
  have hrows : (db.priceHistory.filter (fun r => r.pairId == pairId)).filter
      (fun r => decide (r.observedAt ≤ t)) = rowsUpTo db pairId t := by
    rw [List.filter_filter, rowsUpTo]
    exact List.filter_congr (fun r _ => Bool.and_comm _ _)
  rw [Database.historyDesc, filter_insertionSort, hrows]

/-- The as-of lookup takes the front of the history up to the cutoff. -/
theorem priceAtOrBefore_eq_head? (db : Database) (pairId : Uuid) (cutoff : Instant) :
    db.priceAtOrBefore pairId cutoff
      = ((rowsUpTo db pairId cutoff).insertionSort
          (fun a b => b.observedAt ≤ a.observedAt)).head?.map PriceHistory.lastPrice := by
  rw [Database.priceAtOrBefore, ← List.head?_filter, filter_historyDesc]

/-- No lookup result: no row of the pair up to the cutoff. -/
theorem priceAtOrBefore_eq_none_iff : db.priceAtOrBefore pairId cutoff = none
    ↔ ∀ r ∈ db.priceHistory, r.pairId = pairId → cutoff < r.observedAt := by
  rw [priceAtOrBefore_eq_head?, Option.map_eq_none_iff, List.head?_eq_none_iff,
    ← List.length_eq_zero_iff, List.length_insertionSort, List.length_eq_zero_iff,
    List.eq_nil_iff_forall_not_mem]
  constructor
  · intro h r hr hp
    by_contra hle
    exact h r (mem_rowsUpTo.mpr ⟨hr, hp, not_lt.mp hle⟩)
  · intro h r hr
    obtain ⟨hmem, hp, hle⟩ := mem_rowsUpTo.mp hr
    exact absurd hle (not_le.mpr (h r hmem hp))

/-- A lookup result is the price of a newest row up to the cutoff. -/
theorem isAsOf_of_priceAtOrBefore {price : Decimal}
    (h : db.priceAtOrBefore pairId cutoff = some price) :
    ∃ row, IsAsOf db pairId cutoff row ∧ row.lastPrice = price := by
  rw [priceAtOrBefore_eq_head?] at h
  obtain ⟨row, hrow, hprice⟩ := Option.map_eq_some_iff.mp h
  have hsorted : ((rowsUpTo db pairId cutoff).insertionSort
      (fun a b => b.observedAt ≤ a.observedAt)).Pairwise
        (fun a b => b.observedAt ≤ a.observedAt) :=
    pairwise_insertionSort_key (fun r : PriceHistory => OrderDual.toDual r.observedAt) _
  have hmem : ∀ r, r ∈ (rowsUpTo db pairId cutoff).insertionSort
      (fun a b => b.observedAt ≤ a.observedAt) ↔ r ∈ rowsUpTo db pairId cutoff :=
    fun r => (List.perm_insertionSort _ _).mem_iff
  obtain ⟨rest, hrest⟩ := List.head?_eq_some_iff.mp hrow
  obtain ⟨hstored, hpair, hle⟩ :=
    mem_rowsUpTo.mp ((hmem row).mp (by rw [hrest]; exact List.mem_cons_self))
  refine ⟨row, ⟨hstored, hpair, hle, ?_⟩, hprice⟩
  intro r hr hp hle'
  have hr' := (hmem r).mpr (mem_rowsUpTo.mpr ⟨hr, hp, hle'⟩)
  rw [hrest] at hr' hsorted
  rcases List.mem_cons.mp hr' with heq | hlater
  · rw [heq]
  · exact (List.pairwise_cons.mp hsorted).1 r hlater

/-- Lookups up to an instant agree on tables with the same rows up to it. -/
theorem priceAtOrBefore_congr (h : rowsUpTo db pairId t = rowsUpTo db' pairId t)
    (hle : cutoff ≤ t) :
    db.priceAtOrBefore pairId cutoff = db'.priceAtOrBefore pairId cutoff := by
  have hsub : ∀ d : Database, rowsUpTo d pairId cutoff
      = (rowsUpTo d pairId t).filter (fun r => decide (r.observedAt ≤ cutoff)) := by
    intro d
    rw [rowsUpTo, rowsUpTo, List.filter_filter]
    refine List.filter_congr ?_
    intro r _
    by_cases hr : r.observedAt ≤ cutoff
    · simp [hr, le_trans hr hle]
    · simp [hr]
  rw [priceAtOrBefore_eq_head?, priceAtOrBefore_eq_head?, hsub db, hsub db', h]

/-! ## No look-ahead -/

/-- The past price of a rule is that of a newest row not after the cutoff of its
    window, and that row is not after the observation; it is missing only where
    there is no such row. -/
def ReadsPast (db : Database) (pairId : Uuid) (observedAt : Instant) (rule : AlertRule)
    (past : Option Decimal) : Prop :=
  ∃ window, rule.windowSeconds = some window ∧
    match past with
    | some price => ∃ row, IsAsOf db pairId (observedAt - seconds window) row
        ∧ row.observedAt ≤ observedAt ∧ row.lastPrice = price
    | none => ∀ r ∈ db.priceHistory, r.pairId = pairId →
        observedAt - seconds window < r.observedAt

/-- A `percent_change` rule never looks ahead, in whatever state its pair is
    evaluated. -/
structure LooksBack (rt : Runtime) (settings : Settings) (rule : AlertRule) : Prop where
  /-- The price it is tested on, and reported with, is the past price. -/
  reads : ∀ (pair : Pair) (obs : Observation) (s : State) (c : Candidates rt),
    s.mem.Indexed → rule ∈ (s.mem.rulesForPair pair.id).percentChange →
    (runTx (selectCandidates rt settings pair obs (s.mem.rulesForPair pair.id)) s).1 = .ok c →
    ∃ past, c.pastPriceByRuleId.get? rule.id = some past
      ∧ (rule ∈ c.rules ↔ percentChangeRuleFires rule obs.last past = true)
      ∧ ReadsPast s.view pair.id obs.observedAt rule past
  /-- It fires or not whatever the rows after the observation are. -/
  blind : ∀ (pair : Pair) (obs : Observation) (s s' : State) (c c' : Candidates rt),
    s.mem.Indexed → rule ∈ (s.mem.rulesForPair pair.id).percentChange →
    s'.mem = s.mem →
    rowsUpTo s'.view pair.id obs.observedAt = rowsUpTo s.view pair.id obs.observedAt →
    (runTx (selectCandidates rt settings pair obs (s.mem.rulesForPair pair.id)) s).1 = .ok c →
    (runTx (selectCandidates rt settings pair obs (s'.mem.rulesForPair pair.id)) s').1 = .ok c' →
    (rule ∈ c.rules ↔ rule ∈ c'.rules)

section Lookback

variable {rt : Runtime} {settings : Settings} {rule : AlertRule} {pair : Pair}
  {obs : Observation} {s : State} {c : Candidates rt}

theorem mem_selectedIn_percentChange {score : Option (Zscore.ZScoreResult rt)} {b : PairRules}
    (hw : b.WellFormed pairId) (hr : rule ∈ b.percentChange) :
    rule ∈ selectedIn rt settings db pair obs score b
      ↔ percentChangeRuleFires rule obs.last (pastPrice db pair obs rule) = true := by
  have ht := hw.percentChange rule hr
  constructor
  · intro h
    simp only [selectedIn, List.mem_append, List.mem_filter, matchingAbsoluteRules] at h
    -- The other four lists hold rules of the other types.
    rcases h with (((h | h) | h) | h) | h
    · exact absurd (hw.absoluteBelow rule ((List.takeWhile_prefix _).subset h))
        (by rw [ht]; decide)
    · exact absurd (hw.absoluteAbove rule ((List.takeWhile_prefix _).subset h))
        (by rw [ht]; decide)
    · exact absurd (hw.zscoreMove rule h.1) (by rw [ht]; decide)
    · exact h.2
    · exact absurd (hw.spreadWiden rule h.1) (by rw [ht]; decide)
  · intro h
    simp only [selectedIn, List.mem_append, List.mem_filter]
    exact Or.inl (Or.inr ⟨hr, h⟩)

/-- What the candidate stage makes of one `percent_change` rule. -/
theorem selectCandidates_percentChange (hidx : s.mem.Indexed)
    (hr : rule ∈ (s.mem.rulesForPair pair.id).percentChange)
    (h : (runTx (selectCandidates rt settings pair obs (s.mem.rulesForPair pair.id)) s).1
      = .ok c) :
    c.pastPriceByRuleId.get? rule.id = some (pastPrice s.view pair obs rule)
      ∧ (rule ∈ c.rules
        ↔ percentChangeRuleFires rule obs.last (pastPrice s.view pair obs rule) = true) := by
  rw [runTx_selectCandidates] at h
  obtain ⟨-, hpast, hrules, -⟩ := candidatesIn_ok rt settings h
  rw [hpast, hrules]
  exact ⟨get?_pastPrices (ids_nodup_percentChange (hidx pair.id)) hr,
    mem_selectedIn_percentChange (hidx pair.id) hr⟩

theorem seconds_nonneg {w : Int} (h : 0 ≤ w) : 0 ≤ seconds w :=
  Int.mul_nonneg h (by decide)

theorem sub_seconds_neg {w : Int} (h : w < 0) : (0 : Instant) < 0 - seconds w := by
  show (0 : Int) < 0 - w * 1000000
  omega

theorem readsPast_pastPrice {window : Int} (hw : rule.windowSeconds = some window)
    (hnonneg : 0 ≤ window) (observedAt : Instant) :
    ReadsPast db pairId observedAt rule
      (db.priceAtOrBefore pairId (observedAt - seconds window)) := by
  have hcutoff : observedAt - seconds window ≤ observedAt :=
    Int.sub_le_self _ (seconds_nonneg hnonneg)
  refine ⟨window, hw, ?_⟩
  cases hp : db.priceAtOrBefore pairId (observedAt - seconds window) with
  | some price =>
      obtain ⟨row, hrow, hprice⟩ := isAsOf_of_priceAtOrBefore hp
      exact ⟨row, hrow, le_trans hrow.le_cutoff hcutoff, hprice⟩
  | none => exact priceAtOrBefore_eq_none_iff.mp hp

/-- A window that is not negative never looks ahead. -/
theorem looksBack_of_nonneg {window : Int} (hw : rule.windowSeconds = some window)
    (hnonneg : 0 ≤ window) : LooksBack rt settings rule where
  reads := by
    intro pair obs s c hidx hr h
    obtain ⟨hpast, hmem⟩ := selectCandidates_percentChange hidx hr h
    refine ⟨_, hpast, hmem, ?_⟩
    rw [pastPrice, hw]
    exact readsPast_pastPrice hw hnonneg obs.observedAt
  blind := by
    intro pair obs s s' c c' hidx hr hmem hrows h h'
    rw [← hmem] at hidx hr
    have hpast : pastPrice s'.view pair obs rule = pastPrice s.view pair obs rule := by
      rw [pastPrice, pastPrice, hw]
      exact priceAtOrBefore_congr hrows
        (Int.sub_le_self _ (seconds_nonneg hnonneg))
    rw [(selectCandidates_percentChange hidx hr h').2, hpast]
    rw [hmem] at hidx hr
    exact (selectCandidates_percentChange hidx hr h).2

end Lookback

/-! ## A negative window -/

/-- The one row of a history that begins where a negative window ends. -/
def rowAhead (rule : AlertRule) (window : Int) : PriceHistory :=
  { pairId := rule.pairId
    lastPrice := ⟨false, 1, 0⟩
    bidPrice := ⟨false, 1, 0⟩
    askPrice := ⟨false, 1, 0⟩
    volume24h := none
    observedAt := 0 - seconds window }

/-- A process that knows one rule, over a table with one later row. -/
def stateAhead (rule : AlertRule) (window : Int) : State :=
  { view := { priceHistory := [rowAhead rule window] }
    committed := {}
    mem := ({} : Memory).install [rule]
      ((groupRules [rule]).map (fun e => (e.1, e.2.sorted)))
    env := { clock := 0 } }

/-- An observation at the epoch. -/
def epochObservation : Observation := ⟨⟨false, 1, 0⟩, ⟨false, 1, 0⟩, ⟨false, 1, 0⟩, 0⟩

section Ahead

variable {rt : Runtime} {settings : Settings} {rule : AlertRule}

/-- An accepted rule alone in the index: it is in its bucket, and the candidate
    stage returns. -/
theorem candidates_stateAhead {window : Int} (hv : validRule rule = true)
    (ht : rule.ruleType = .percentChange) (hw : rule.windowSeconds = some window)
    {pair : Pair} (hp : rule.pairId = pair.id) :
    (stateAhead rule window).mem.Indexed
      ∧ rule ∈ ((stateAhead rule window).mem.rulesForPair pair.id).percentChange
      ∧ ∃ c : Candidates rt, (runTx (selectCandidates rt settings pair epochObservation
          ((stateAhead rule window).mem.rulesForPair pair.id))
          (stateAhead rule window)).1 = .ok c := by
  have hthr : HaveThresholds [rule] := by
    refine haveThresholds_of_valid ?_
    intro r hr
    rw [List.mem_singleton.mp hr]
    exact hv
  have hbucket : (stateAhead rule window).mem.rulesForPair pair.id
      = (bucketOf [rule] pair.id).sorted :=
    Memory.rulesForPair_install (bucketRules_ok hthr) _ _
  refine ⟨Memory.Indexed.install (by simp) (bucketRules_ok hthr) _, ?_, ?_⟩
  · rw [hbucket]
    exact mem_rulesOfType.mpr ⟨List.mem_singleton_self rule, hp, ht⟩
  · have hone := @candidatesIn_singleton rt settings pair rule (stateAhead rule window).view
      epochObservation hv hp
    simp only [ownPredicate, ht, hw] at hone
    obtain ⟨c, hc, -⟩ := hone
    rw [runTx_selectCandidates, hbucket]
    exact ⟨c, hc⟩

/-- With a negative window the later row is read. -/
theorem not_looksBack_of_neg {window : Int} (hv : validRule rule = true)
    (ht : rule.ruleType = .percentChange) (hw : rule.windowSeconds = some window)
    (hneg : window < 0) : ¬ LooksBack rt settings rule := by
  intro h
  obtain ⟨pair, hp⟩ : ∃ pair : Pair, rule.pairId = pair.id :=
    ⟨{ id := rule.pairId, krakenPairName := "", displayName := "" }, rfl⟩
  obtain ⟨hidx, hr, c, hc⟩ := @candidates_stateAhead rt settings rule window hv ht hw pair hp
  obtain ⟨past, -, -, w, hw', hreads⟩ := h.reads pair _ _ c hidx hr hc
  obtain rfl : window = w := Option.some.inj (hw.symm.trans hw')
  cases past with
  | some price =>
      obtain ⟨row, hrow, hle, -⟩ := hreads
      obtain rfl := List.mem_singleton.mp hrow.stored
      exact absurd hle (not_le.mpr (sub_seconds_neg hneg))
  | none =>
      -- The row stands exactly at the cutoff, so the lookup finds it.
      have hlater := hreads (rowAhead rule window) (List.mem_singleton_self _) hp
      exact absurd hlater (lt_irrefl _)

/-- An accepted `percent_change` rule never looks ahead exactly where its window
    is not negative. -/
theorem looksBack_iff (hv : validRule rule = true) (ht : rule.ruleType = .percentChange) :
    LooksBack rt settings rule ↔ ∀ window, rule.windowSeconds = some window → 0 ≤ window := by
  constructor
  · intro h window hw
    by_contra hneg
    exact not_looksBack_of_neg hv ht hw (not_le.mp hneg) h
  · intro h
    have hvalid : ∀ r ∈ [rule], validRule r = true := by
      intro r hr
      rw [List.mem_singleton.mp hr]
      exact hv
    obtain ⟨window, hw⟩ := Option.isSome_iff_exists.mp
      (haveWindows_of_valid hvalid rule (List.mem_singleton_self rule) ht)
    exact looksBack_of_nonneg hw (h window hw)

end Ahead

/-- A rise of a tenth over the last minute, and over the next one. -/
def minuteRule (window : Int) : AlertRule :=
  { id := 7, pairId := 1, ruleType := .percentChange, percent := some ⟨false, 10, 0⟩,
    windowSeconds := some window, direction := some "up" }

theorem looksBack_iff_minute :
    LooksBack Runtime.rational {} (minuteRule 60)
      ↔ ∀ window, (minuteRule 60).windowSeconds = some window → 0 ≤ window :=
  looksBack_iff (by decide) rfl

/-- The rule of the next minute is accepted, and looks ahead. -/
theorem not_looksBack_ahead :
    validRule (minuteRule (-60)) = true ∧ (minuteRule (-60)).ruleType = .percentChange
      ∧ ¬ LooksBack Runtime.rational {} (minuteRule (-60)) := by
  exact ⟨by decide, rfl, not_looksBack_of_neg (by decide) rfl rfl (by decide)⟩

end Dropwatch.Lookback
