import Dropwatch.TrackProofs

/-! # Backtest against the live engine — `backtest_rule`

    A backtest replays a definition over rows that are all in the table
    already; the live engine saw them arrive.  Both drive the same evaluator,
    and both refine the track of the rule (`runTx_replay`, `runTx_liveRun`), so
    the comparison is one of verdicts.  They differ in two things: the backtest
    takes them over the whole table, the live engine over the table up to the
    row (`upTo`); and the backtest has the numbers of the request, the live rule
    those that its columns keep (`SameDefinition`).

    * Absolute, spread and as-of predicates cannot tell the two tables apart.
      What is left is the rounding of the columns: both runs fire alike exactly
      when it moves no first row of a detected state (`backtest_eq_live_iff`).
    * The z-score window has no upper time bound, and the two runs agree exactly
      when its one verdict over the newest rows happens to agree with the
      verdicts of the past (`backtest_zscore_eq_live_iff`). -/

namespace Dropwatch.Backtest

open Transact RuleIndex Zscore Evaluator RulesApi Totality

/-! ## The live engine -/

/-- The live path of one pair: a row is inserted, the pair is evaluated on it,
    and the transaction commits. -/
def liveRun (rt : Runtime) (settings : Settings) (pair : Pair) :
    List PriceHistory → Tx (List Fire)
  | [] => pure []
  | row :: rest => do
      Tx.write (.addPriceHistory row)
      let created ← evaluateRulesForPair rt settings pair (rowObservation row)
      Tx.commit
      let more ← liveRun rt settings pair rest
      pure (created.map (fireOf row) ++ more)

/-! ## Both runs follow the track -/

/-- The sightings of a list of rows, or the first exception among the verdicts. -/
def sightings (key : PriceHistory → String) (verdict : PriceHistory → Except PyError Bool) :
    List PriceHistory → Except PyError (List Sighting)
  | [] => .ok []
  | row :: rest => do
      let b ← verdict row
      let xs ← sightings key verdict rest
      pure (sighting key (fun _ => b) row :: xs)

section Runs

variable {rt : Runtime} {settings : Settings} {pair : Pair} {rule : AlertRule}

/-- The key of a row's detected state. -/
abbrev rowKey (rt : Runtime) (pair : Pair) (rule : AlertRule) (row : PriceHistory) :
    String :=
  keyOf rt pair (rowObservation row) rule

/-- The verdict on a row over given tables. -/
abbrev verdictIn (rt : Runtime) (settings : Settings) (db : Database) (pair : Pair)
    (rule : AlertRule) (row : PriceHistory) : Except PyError Bool :=
  ownPredicate rt settings db pair (rowObservation row) rule

theorem runTx_replay (hv : validRule rule = true) (hp : rule.pairId = pair.id)
    {rows : List PriceHistory} {s : State} {t : Track} (h : Tracks rt pair rule s t) :
    (runTx (replay rt settings pair rows) s).1
      = (sightings (rowKey rt pair rule) (verdictIn rt settings s.view pair rule) rows).map
          (fun xs => t.seeAll rule.cooldownSeconds xs) := by
  induction rows generalizing s t with
  | nil => rfl
  | cons row rest ih =>
      have hstep := @runTx_evaluate_single rt settings pair rule hv hp s t h
        (rowObservation row)
      rw [replay, sightings]
      cases hown : ownPredicate rt settings s.view pair (rowObservation row) rule with
      | error e =>
          rw [hown] at hstep
          rw [runTx_bind_error hstep, verdictIn, hown]
          rfl
      | ok b =>
          rw [hown] at hstep
          obtain ⟨created, s', hrun, hfires, htracks, hhistory⟩ := hstep
          have hverdict : verdictIn rt settings s'.view pair rule
              = verdictIn rt settings s.view pair rule := by
            funext row'
            exact ownPredicate_congr (historyDesc_congr hhistory pair.id)
          have hrest := ih htracks
          rw [hverdict] at hrest
          rw [runTx_bind_ok hrun, runTx_map_fst, hrest, verdictIn, hown]
          cases sightings (rowKey rt pair rule) (verdictIn rt settings s.view pair rule)
              rest with
          | error e => rfl
          | ok xs =>
              show Except.ok (created.map (fireOf row) ++ _) = Except.ok (_ ++ _)
              rw [show created.map (fireOf row) = _ from hfires]
              rfl

/-- The tables of the live engine after some rows have been inserted. -/
def insertedInto (db : Database) (rows : List PriceHistory) : Database :=
  { db with priceHistory := db.priceHistory ++ rows.map PriceHistory.stored }

theorem runTx_liveRun (hv : validRule rule = true) (hp : rule.pairId = pair.id)
    {verdict : PriceHistory → Except PyError Bool} {rows : List PriceHistory}
    {s : State} {t : Track} (h : Tracks rt pair rule s t)
    (hverdict : ∀ done row todo, rows = done ++ row :: todo →
      verdictIn rt settings (insertedInto s.view (done ++ [row])) pair rule row
        = verdict row) :
    (runTx (liveRun rt settings pair rows) s).1
      = (sightings (rowKey rt pair rule) verdict rows).map
          (fun xs => t.seeAll rule.cooldownSeconds xs) := by
  induction rows generalizing s t with
  | nil => rfl
  | cons row rest ih =>
      -- The row is in the table when its verdict is taken.
      have hinserted : Tracks rt pair rule
          { s with view := insertedInto s.view [row] } t :=
        ⟨h.indexed, h.last, h.ruleRow, h.pairRow, h.keys⟩
      have hstep := @runTx_evaluate_single rt settings pair rule hv hp _ t hinserted
        (rowObservation row)
      have hhead := hverdict [] row rest rfl
      rw [List.nil_append] at hhead
      rw [liveRun, sightings]
      show (runTx (evaluateRulesForPair rt settings pair (rowObservation row) >>= _)
        { s with view := insertedInto s.view [row] }).1 = _
      cases hown : verdict row with
      | error e =>
          rw [show ownPredicate rt settings (insertedInto s.view [row]) pair
            (rowObservation row) rule = _ from hhead, hown] at hstep
          rw [runTx_bind_error hstep]
          rfl
      | ok b =>
          rw [show ownPredicate rt settings (insertedInto s.view [row]) pair
            (rowObservation row) rule = _ from hhead, hown] at hstep
          obtain ⟨created, s', hrun, hfires, htracks, hhistory⟩ := hstep
          have hcommitted : Tracks rt pair rule { s' with committed := s'.view }
              (t.see rule.cooldownSeconds (seen rt pair rule (rowObservation row) b)).2 :=
            ⟨htracks.indexed, htracks.last, htracks.ruleRow, htracks.pairRow, htracks.keys⟩
          have hrest := ih hcommitted (by
            intro done row' todo hsplit
            rw [← hverdict (row :: done) row' todo (by rw [hsplit]; rfl)]
            refine ownPredicate_congr (historyDesc_congr ?_ pair.id)
            show s'.view.priceHistory ++ _ = s.view.priceHistory ++ _
            rw [hhistory]
            show (s.view.priceHistory ++ [row].map PriceHistory.stored) ++ _ = _
            rw [List.append_assoc, ← List.map_append]
            rfl)
          rw [runTx_bind_ok hrun]
          show (runTx (liveRun rt settings pair rest >>= _)
            { s' with committed := s'.view }).1 = _
          rw [runTx_map_fst, hrest]
          cases sightings (rowKey rt pair rule) verdict rest with
          | error e => rfl
          | ok xs =>
              show Except.ok (created.map (fireOf row) ++ _) = Except.ok (_ ++ _)
              rw [show created.map (fireOf row) = _ from hfires]
              rfl

end Runs

/-! ## What the live engine knew -/

/-- The rows of a pair. -/
def rowsOf (db : Database) (pairId : Uuid) : List PriceHistory :=
  db.priceHistory.filter (fun r => r.pairId == pairId)

/-- The table without the rows of a pair that lie after an instant. -/
def upTo (db : Database) (pairId : Uuid) (t : Instant) : Database :=
  { db with
    priceHistory := db.priceHistory.filter (fun r =>
      r.pairId != pairId || decide (r.observedAt ≤ t)) }

/-- The table without the rows of a pair from an instant on. -/
def before (db : Database) (pairId : Uuid) (cutoff : Instant) : Database :=
  { db with
    priceHistory := db.priceHistory.filter (fun r =>
      r.pairId != pairId || !decide (cutoff ≤ r.observedAt)) }

/-- No two rows of the pair are of one instant. -/
def DistinctInstants (db : Database) (pairId : Uuid) : Prop :=
  ((rowsOf db pairId).map PriceHistory.observedAt).Nodup

section Tables

variable {db db' : Database} {pairId : Uuid} {cutoff t : Instant}

/-- Among the rows that are left are those of the pair that pass the test. -/
theorem rowsOf_filter (keep : PriceHistory → Bool) :
    rowsOf { db with
        priceHistory := db.priceHistory.filter (fun r => r.pairId != pairId || keep r) } pairId
      = (rowsOf db pairId).filter keep := by
  simp only [rowsOf]
  rw [List.filter_filter, List.filter_filter]
  refine List.filter_congr ?_
  intro r _
  cases h : r.pairId == pairId with
  | true => simp [bne, h]
  | false => simp

theorem rowsOf_upTo : rowsOf (upTo db pairId t) pairId
    = (rowsOf db pairId).filter (fun r => decide (r.observedAt ≤ t)) :=
  rowsOf_filter _

theorem rowsOf_before : rowsOf (before db pairId cutoff) pairId
    = (rowsOf db pairId).filter (fun r => !decide (cutoff ≤ r.observedAt)) :=
  rowsOf_filter _

/-- The replayed rows are the pair's rows inside the lookback. -/
theorem lookbackRows_perm (db : Database) (pairId : Uuid) (cutoff : Instant) :
    (lookbackRows db pairId cutoff).Perm
    ((rowsOf db pairId).filter (fun r => decide (cutoff ≤ r.observedAt))) := by
  rw [lookbackRows, rowsOf]
  rw [List.filter_filter]
  refine (List.perm_insertionSort _ _).trans (List.Perm.of_eq ?_)
  refine List.filter_congr ?_
  intro r _
  exact Bool.and_comm _ _

theorem lookbackRows_pairwise (db : Database) (pairId : Uuid) (cutoff : Instant) :
    (lookbackRows db pairId cutoff).Pairwise
    (fun r r' => r.observedAt ≤ r'.observedAt) :=
  pairwise_insertionSort_key PriceHistory.observedAt _

theorem historyDesc_pairwise (db : Database) (pairId : Uuid) :
    (db.historyDesc pairId).Pairwise (fun r r' => r'.observedAt ≤ r.observedAt) :=
  pairwise_insertionSort_key
    (fun r : PriceHistory => OrderDual.toDual r.observedAt) _

theorem historyDesc_perm (db : Database) (pairId : Uuid) :
    (db.historyDesc pairId).Perm (rowsOf db pairId) :=
  List.perm_insertionSort _ _

/-- Newest-first histories agree as soon as they hold the same rows. -/
theorem historyDesc_eq_of_perm (hd : DistinctInstants db pairId)
    (hp : (rowsOf db pairId).Perm (rowsOf db' pairId)) :
    db.historyDesc pairId = db'.historyDesc pairId := by
  refine eq_of_perm_of_pairwise_key PriceHistory.observedAt ?_ ?_
    (historyDesc_pairwise db pairId) (historyDesc_pairwise db' pairId)
  · exact ((historyDesc_perm db pairId).map _).nodup_iff.mpr hd
  · exact ((historyDesc_perm db pairId).trans hp).trans (historyDesc_perm db' pairId).symm

theorem distinct_lookbackRows (hd : DistinctInstants db pairId) (cutoff : Instant) :
    ((lookbackRows db pairId cutoff).map PriceHistory.observedAt).Nodup := by
  refine ((lookbackRows_perm db pairId cutoff).map _).nodup_iff.mpr ?_
  exact List.Nodup.sublist (List.filter_sublist.map _) hd

/-- Among rows in order of distinct instants, those not after a given one are
    exactly the ones up to it. -/
theorem filter_upTo_of_pairwise {done todo : List PriceHistory} {row : PriceHistory}
    (hd : ((done ++ row :: todo).map PriceHistory.observedAt).Nodup)
    (hp : (done ++ row :: todo).Pairwise (fun r r' => r.observedAt ≤ r'.observedAt)) :
    (done ++ row :: todo).filter (fun r => decide (r.observedAt ≤ row.observedAt))
      = done ++ [row] := by
  obtain ⟨-, htail, hcross⟩ := List.pairwise_append.mp hp
  have htodo := (List.pairwise_cons.mp htail).1
  rw [List.map_append, List.map_cons, List.nodup_append] at hd
  have hnot := (List.nodup_cons.mp hd.2.1).1
  rw [List.filter_append, List.filter_cons_of_pos (by simp)]
  have hdone : done.filter (fun r => decide (r.observedAt ≤ row.observedAt)) = done := by
    rw [List.filter_eq_self]
    intro r hr
    exact decide_eq_true (hcross r hr row List.mem_cons_self)
  have hlater : todo.filter (fun r => decide (r.observedAt ≤ row.observedAt)) = [] := by
    rw [List.filter_eq_nil_iff]
    intro r hr hle
    have heq : r.observedAt = row.observedAt :=
      le_antisymm (of_decide_eq_true hle) (htodo r hr)
    exact hnot (heq ▸ List.mem_map_of_mem hr)
  rw [hdone, hlater]

/-- When the live engine evaluates a row, its table holds of the pair exactly
    the rows up to that one. -/
theorem rowsOf_live_perm (hd : DistinctInstants db pairId)
    (hstored : ∀ r ∈ db.priceHistory, r.stored = r)
    {done todo : List PriceHistory} {row : PriceHistory}
    (hsplit : lookbackRows db pairId cutoff = done ++ row :: todo) :
    (rowsOf (insertedInto (before db pairId cutoff) (done ++ [row])) pairId).Perm
      (rowsOf (upTo db pairId row.observedAt) pairId) := by
  have hmem : ∀ r ∈ lookbackRows db pairId cutoff,
      r ∈ rowsOf db pairId ∧ cutoff ≤ r.observedAt := by
    intro r hr
    obtain ⟨h, hc⟩ := List.mem_filter.mp ((lookbackRows_perm db pairId cutoff).mem_iff.mp hr)
    exact ⟨h, of_decide_eq_true hc⟩
  have hinserted : rowsOf (insertedInto (before db pairId cutoff) (done ++ [row])) pairId
      = rowsOf (before db pairId cutoff) pairId ++ (done ++ [row]) := by
    have hself : ∀ r ∈ done ++ [row], r.stored = r ∧ (r.pairId == pairId) = true := by
      intro r hr
      have hr' : r ∈ lookbackRows db pairId cutoff := by
        rw [hsplit]
        rcases List.mem_append.mp hr with h | h
        · exact List.mem_append_left _ h
        · rw [List.mem_singleton.mp h]
          simp
      obtain ⟨hin, hpair⟩ := List.mem_filter.mp (hmem r hr').1
      exact ⟨hstored r hin, hpair⟩
    rw [rowsOf, insertedInto]
    rw [List.filter_append]
    congr 1
    rw [List.map_congr_left (fun r hr => (hself r hr).1), List.map_id']
    exact List.filter_eq_self.mpr (fun r hr => (hself r hr).2)
  rw [hinserted, rowsOf_before, rowsOf_upTo]
  -- Both sides are the rows up to `row`, split at the cutoff.
  have hrow : cutoff ≤ row.observedAt := (hmem row (by rw [hsplit]; simp)).2
  have hparts := (List.filter_append_perm (fun r => decide (cutoff ≤ r.observedAt))
    ((rowsOf db pairId).filter (fun r => decide (r.observedAt ≤ row.observedAt)))).symm
  refine List.Perm.trans ?_ hparts.symm
  refine List.perm_append_comm.trans (List.Perm.append ?_ (List.Perm.of_eq ?_))
  · have hlook := (lookbackRows_perm db pairId cutoff).filter
      (fun r => decide (r.observedAt ≤ row.observedAt))
    have hpw := lookbackRows_pairwise db pairId cutoff
    have hnd := distinct_lookbackRows hd cutoff
    rw [hsplit] at hlook hpw hnd
    rw [filter_upTo_of_pairwise hnd hpw] at hlook
    refine hlook.trans (List.Perm.of_eq ?_)
    rw [List.filter_filter, List.filter_filter]
    exact List.filter_congr (fun r _ => Bool.and_comm _ _)
  · rw [List.filter_filter]
    refine List.filter_congr ?_
    intro r _
    by_cases hc : cutoff ≤ r.observedAt
    · simp [hc]
    · have hle : r.observedAt ≤ row.observedAt := (lt_of_not_ge hc).le.trans hrow
      simp [hc, hle]

end Tables

/-- A live rule that carries the definition of a request, in the form its columns
    keep. -/
structure SameDefinition (body : BacktestRequest) (rule : AlertRule) : Prop where
  pairId : rule.pairId = body.pairId
  ruleType : rule.ruleType = body.ruleType
  threshold : rule.threshold = body.threshold.map (Decimal.numeric 8)
  percent : rule.percent = body.percent.map (Decimal.numeric 4)
  windowSeconds : rule.windowSeconds = body.windowSeconds
  sigma : rule.sigma = body.sigma.map (Decimal.numeric 3)
  direction : rule.direction = body.direction
  cooldownSeconds : rule.cooldownSeconds = body.cooldownSeconds

/-- Numbers of which a definition's columns keep the value. -/
structure Kept (rt : Runtime) (body : BacktestRequest) : Prop where
  threshold : (body.threshold.map (Decimal.numeric 8)).map Decimal.toRat
    = body.threshold.map Decimal.toRat
  percent : (body.percent.map (Decimal.numeric 4)).map Decimal.toRat
    = body.percent.map Decimal.toRat
  sigma : (body.sigma.map (Decimal.numeric 3)).map rt.ofDecimal
    = body.sigma.map rt.ofDecimal

section Definition

variable {rt : Runtime} {settings : Settings} {body : BacktestRequest} {rule : AlertRule}

/-- Two values with one image are both absent, or both there and of one image. -/
theorem map_eq_map_cases {α γ : Type} {f : α → γ} {x y : Option α} (h : x.map f = y.map f) :
    (x = none ∧ y = none) ∨ ∃ a b, x = some a ∧ y = some b ∧ f a = f b := by
  cases x with
  | none =>
      cases y with
      | none => exact Or.inl ⟨rfl, rfl⟩
      | some b => cases h
  | some a =>
      cases y with
      | none => cases h
      | some b => exact Or.inr ⟨a, b, rfl, rfl, Option.some.inj h⟩

theorem ruleFires_congr {r r' : AlertRule} {price : Decimal}
    (ht : r.ruleType = r'.ruleType)
    (h : r.threshold.map Decimal.toRat = r'.threshold.map Decimal.toRat) :
    ruleFires r price = ruleFires r' price := by
  simp only [ruleFires]
  rw [ht]
  rcases map_eq_map_cases h with ⟨hr, hr'⟩ | ⟨x, y, hr, hr', hxy⟩
  · rw [hr, hr']
  · rw [hr, hr']
    cases r'.ruleType <;> simp only [hxy]

theorem directionOrBoth_congr {r r' : AlertRule} (h : r.direction = r'.direction) :
    directionOrBoth r = directionOrBoth r' := by
  rw [directionOrBoth, directionOrBoth, h]

theorem percentChangeRuleFires_congr (r r' : AlertRule) {price : Decimal}
    {past : Option Decimal} (hd : r.direction = r'.direction)
    (h : r.percent.map Decimal.toRat = r'.percent.map Decimal.toRat) :
    percentChangeRuleFires r price past = percentChangeRuleFires r' price past := by
  simp only [percentChangeRuleFires]
  rw [directionOrBoth_congr hd]
  cases past with
  | none => rfl
  | some past =>
      rcases map_eq_map_cases h with ⟨hr, hr'⟩ | ⟨x, y, hr, hr', hxy⟩
      · rw [hr, hr']
      · rw [hr, hr']
        simp only [hxy]

theorem spreadWidenRuleFires_congr (r r' : AlertRule) {bid ask : Decimal}
    (h : r.percent.map Decimal.toRat = r'.percent.map Decimal.toRat) :
    spreadWidenRuleFires r bid ask = spreadWidenRuleFires r' bid ask := by
  simp only [spreadWidenRuleFires]
  rcases map_eq_map_cases h with ⟨hr, hr'⟩ | ⟨x, y, hr, hr', hxy⟩
  · rw [hr, hr']
  · rw [hr, hr']
    simp only [hxy]

theorem zscoreRuleFires_congr (r r' : AlertRule) {result : Option (ZScoreResult rt)}
    {p : Decimal} (hd : r.direction = r'.direction)
    (h : r.sigma.map rt.ofDecimal = r'.sigma.map rt.ofDecimal) :
    zscoreRuleFires rt r result p = zscoreRuleFires rt r' result p := by
  simp only [zscoreRuleFires]
  rw [directionOrBoth_congr hd]
  cases result with
  | none => rfl
  | some result =>
      rcases map_eq_map_cases h with ⟨hr, hr'⟩ | ⟨x, y, hr, hr', hxy⟩
      · rw [hr, hr']
      · rw [hr, hr']
        simp only [hxy]

/-- One definition in numbers that are kept, one predicate. -/
theorem SameDefinition.ownPredicate (h : SameDefinition body rule) (hkept : Kept rt body)
    {db : Database} {pair : Pair} {obs : Observation} (id userId : Uuid) :
    ownPredicate rt settings db pair obs rule
      = ownPredicate rt settings db pair obs (body.rule id userId) := by
  simp only [Evaluator.ownPredicate]
  have ht : rule.ruleType = (body.rule id userId).ruleType := h.ruleType
  have hw : rule.windowSeconds = (body.rule id userId).windowSeconds := h.windowSeconds
  have hthreshold := (congrArg (Option.map Decimal.toRat) h.threshold).trans hkept.threshold
  have hpercent := (congrArg (Option.map Decimal.toRat) h.percent).trans hkept.percent
  have hsigma := (congrArg (Option.map rt.ofDecimal) h.sigma).trans hkept.sigma
  rw [← ht, ← hw, ruleFires_congr ht hthreshold]
  simp only [percentChangeRuleFires_congr rule (body.rule id userId) h.direction hpercent,
    spreadWidenRuleFires_congr rule (body.rule id userId) hpercent,
    zscoreRuleFires_congr rule (body.rule id userId) h.direction hsigma]

theorem requireField_map {α β : Type} (f : α → β) (name ruleType : String) (x : Option α) :
    requireField name ruleType (x.map f) = requireField name ruleType x := by
  cases x with
  | none => rfl
  | some x => rfl

theorem SameDefinition.valid (h : SameDefinition body rule) (id userId : Uuid) :
    validRule rule = validRule (body.rule id userId) := by
  simp only [validRule, validateRuleFields, h.ruleType, h.threshold, h.percent, h.sigma,
    h.windowSeconds, h.direction, requireField_map]
  rfl

end Definition

/-! ## The endpoint -/

section Endpoint

variable {rt : Runtime} {settings : Settings} {body : BacktestRequest} {pair : Pair}
  {user : User} {s : State}

/-- The instant a backtest looks back to. -/
def cutoffOf (body : BacktestRequest) (s : State) : Instant :=
  s.env.clock - seconds (86400 * body.lookbackDays)

/-- The unsaved rule of a backtest. -/
def tempRule (body : BacktestRequest) (user : User) (s : State) : AlertRule :=
  body.rule s.env.nextUuid user.id

/-- The store in which a backtest replays: the temporary rule is in the table
    and alone in the index. -/
def replayState (body : BacktestRequest) (user : User) (s : State) : State :=
  { s with
    view := { s.view with
      alertRules := s.view.alertRules ++ [(tempRule body user s).stored] }
    mem := s.mem.install [tempRule body user s]
      ((groupRules [tempRule body user s]).map (fun e => (e.1, e.2.sorted)))
    env := { s.env with nextUuid := s.env.nextUuid + 1 } }

theorem tracks_replayState (hpair : s.view.pairs.find? (fun p => p.id == body.pairId) = some pair)
    (hv : validRule (tempRule body user s) = true)
    (hfresh : ∀ obs, s.view.notificationWithKey
      (keyOf rt pair obs (tempRule body user s)) = none) :
    Tracks rt pair (tempRule body user s) (replayState body user s) {} where
  indexed := by
    have hthr : HaveThresholds [tempRule body user s] := by
      refine haveThresholds_of_valid ?_
      intro r hr
      rw [List.mem_singleton.mp hr]
      exact hv
    exact s.mem.rulesForPair_install (bucketRules_ok hthr) pair.id
  last := by
    show (if s.mem.generation + 1 = s.mem.generation + 1 then _ else _) = none
    rw [if_pos rfl, List.find?_cons_of_pos (by simp)]
    rfl
  ruleRow := by
    show (s.view.alertRules ++ [(tempRule body user s).stored]).any _ = true
    rw [List.any_append]
    simp [AlertRule.stored]
  pairRow := by
    rw [List.any_eq_true]
    exact ⟨pair, List.mem_of_find?_eq_some hpair, by simp⟩
  keys := fun obs => ⟨fun _ => List.not_mem_nil, fun _ => hfresh obs⟩

/-- The flush of a definition that does not fit its columns ends the request. -/
theorem backtestRule_of_not_fits
    (hpair : s.view.pairs.find? (fun p => p.id == body.pairId) = some pair)
    (huser : s.view.users.head? = some user)
    (hfits : (tempRule body user s).columns.fits = false) :
    (runTx (backtestRule rt settings body) s).1 = .error .dataError := by
  rw [backtestRule, runTx_query_bind, hpair]
  dsimp only
  rw [runTx_query_bind, huser]
  show (runTx (addRule (tempRule body user s) >>= _) _).1 = _
  rw [addRule, if_neg (by rw [hfits]; exact Bool.false_ne_true)]
  rfl

/-- The response of a backtest: the track of the rule over the rows inside the
    lookback, every verdict taken over the whole table. -/
theorem runTx_backtestRule
    (hpair : s.view.pairs.find? (fun p => p.id == body.pairId) = some pair)
    (huser : s.view.users.head? = some user)
    (hfits : (tempRule body user s).columns.fits = true)
    (hv : validRule (tempRule body user s) = true)
    (hfresh : ∀ obs, s.view.notificationWithKey
      (keyOf rt pair obs (tempRule body user s)) = none) :
    (runTx (backtestRule rt settings body) s).1
      = ((sightings (rowKey rt pair (tempRule body user s))
            (verdictIn rt settings s.view pair (tempRule body user s))
            (lookbackRows s.view body.pairId (cutoffOf body s))).map
          (fun xs => Track.seeAll body.cooldownSeconds xs {})).map
        (fun fires => .ok (respond body
          (lookbackRows s.view body.pairId (cutoffOf body s)) fires)) := by
  have hid : pair.id = body.pairId := by
    simpa using List.find?_some hpair
  have hthr : HaveThresholds [tempRule body user s] := by
    refine haveThresholds_of_valid ?_
    intro r hr
    rw [List.mem_singleton.mp hr]
    exact hv
  have hreplay := @runTx_replay rt settings pair (tempRule body user s) hv hid.symm
    (lookbackRows s.view body.pairId (cutoffOf body s)) _ _
    (tracks_replayState hpair hv hfresh)
  have hverdict : verdictIn rt settings (replayState body user s).view pair
      (tempRule body user s) = verdictIn rt settings s.view pair (tempRule body user s) :=
    rfl
  rw [hverdict] at hreplay
  -- Up to the replay: the two rows are there, the temp rule fits its columns and is bucketed.
  have hstart : runTx (backtestRule rt settings body) s
      = runTx (replay rt settings pair
          (lookbackRows s.view body.pairId (cutoffOf body s)) >>= fun fires =>
            pure (.ok (respond body
              (lookbackRows s.view body.pairId (cutoffOf body s)) fires)))
          (replayState body user s) := by
    rw [backtestRule, runTx_query_bind, hpair]
    dsimp only
    rw [runTx_query_bind, huser]
    show runTx (addRule (tempRule body user s) >>= _) _ = _
    rw [addRule, if_pos hfits]
    show runTx (Tx.lift (bucketRules [tempRule body user s]) >>= _) _ = _
    rw [bucketRules_ok hthr]
    rfl
  rw [hstart, runTx_map_fst, hreplay]
  rfl

end Endpoint

/-! ## Side by side -/

/-- A backtest in `s` and a live run from `t` that can be compared: the endpoint
    finds its pair and its user, the definition is valid, the live rule carries
    it in the form of its columns and has never fired, the live table holds the same
    stored rows except those the live run is about to insert, and the two rule
    ids hash the same rows together. -/
structure Comparison (rt : Runtime) (body : BacktestRequest) (pair : Pair) (user : User)
    (rule : AlertRule) (s t : State) : Prop where
  pairRow : s.view.pairs.find? (fun p => p.id == body.pairId) = some pair
  userRow : s.view.users.head? = some user
  valid : validRule (tempRule body user s) = true
  same : SameDefinition body rule
  distinct : DistinctInstants s.view body.pairId
  stored : ∀ r ∈ s.view.priceHistory, r.stored = r
  liveHistory : t.view.priceHistory
    = (before s.view body.pairId (cutoffOf body s)).priceHistory
  liveStart : Tracks rt pair rule t {}
  newTemp : ∀ obs, s.view.notificationWithKey
    (keyOf rt pair obs (tempRule body user s)) = none
  keysAlike : ∀ r ∈ lookbackRows s.view body.pairId (cutoffOf body s),
    ∀ r' ∈ lookbackRows s.view body.pairId (cutoffOf body s),
      rowKey rt pair (tempRule body user s) r = rowKey rt pair (tempRule body user s) r'
        ↔ rowKey rt pair rule r = rowKey rt pair rule r'

/-- The verdict of a predicate that did not raise. -/
def passed (verdict : PriceHistory → Except PyError Bool) (row : PriceHistory) : Bool :=
  match verdict row with
  | .ok b => b
  | .error _ => false

theorem sightings_of_ok {key : PriceHistory → String}
    {verdict : PriceHistory → Except PyError Bool} {b : PriceHistory → Bool}
    {rows : List PriceHistory} (h : ∀ row ∈ rows, verdict row = .ok (b row)) :
    sightings key verdict rows = .ok (rows.map (sighting key b)) := by
  induction rows with
  | nil => rfl
  | cons row rest ih =>
      rw [sightings, h row List.mem_cons_self,
        ih (fun r hr => h r (List.mem_cons_of_mem _ hr))]
      rfl

theorem ok_of_sightings {key : PriceHistory → String}
    {verdict : PriceHistory → Except PyError Bool} {rows : List PriceHistory}
    {xs : List Sighting} (h : sightings key verdict rows = .ok xs) :
    ∀ row ∈ rows, verdict row = .ok (passed verdict row) := by
  induction rows generalizing xs with
  | nil => intro row hrow; exact absurd hrow List.not_mem_nil
  | cons row rest ih =>
      rw [sightings] at h
      cases hv : verdict row with
      | error e =>
          rw [hv] at h
          cases h
      | ok b =>
          rw [hv] at h
          cases hrest : sightings key verdict rest with
          | error e =>
              simp only [hrest, bind, Except.bind] at h
              cases h
          | ok ys =>
              intro r hr
              rcases List.mem_cons.mp hr with heq | hmem
              · rw [heq, passed, hv]
              · exact ih hrest r hmem

/-- The keys do not decide which verdict raises. -/
theorem sightings_error {key key' : PriceHistory → String}
    {verdict : PriceHistory → Except PyError Bool} {rows : List PriceHistory} {e : PyError}
    (h : sightings key verdict rows = .error e) :
    sightings key' verdict rows = .error e := by
  induction rows with
  | nil => cases h
  | cons row rest ih =>
      rw [sightings] at h ⊢
      cases hv : verdict row with
      | error e' =>
          rw [hv] at h
          exact h
      | ok b =>
          rw [hv] at h
          cases hrest : sightings key verdict rest with
          | error e' =>
              simp only [hrest, bind, Except.bind] at h
              rw [Except.error.inj h] at hrest
              simp only [ih hrest, bind, Except.bind]
          | ok xs =>
              simp only [hrest, bind, Except.bind] at h
              cases h

/-- Keyings that identify the same rows give the same run. -/
theorem seeAll_sightings_keying {key key' : PriceHistory → String}
    {verdict : PriceHistory → Except PyError Bool} {rows : List PriceHistory}
    {cooldownSeconds : Int}
    (h : ∀ r ∈ rows, ∀ r' ∈ rows, key r = key r' ↔ key' r = key' r') :
    (sightings key verdict rows).map (fun xs => Track.seeAll cooldownSeconds xs {})
      = (sightings key' verdict rows).map
          (fun xs => Track.seeAll cooldownSeconds xs {}) := by
  cases hx : sightings key verdict rows with
  | error e => rw [sightings_error hx]
  | ok xs =>
      have hok := ok_of_sightings hx
      rw [sightings_of_ok hok] at hx
      rw [sightings_of_ok hok, ← Except.ok.inj hx]
      exact congrArg Except.ok (@Track.seeAll_keying cooldownSeconds key key' _ rows rows []
        none h (fun _ hr => hr) (fun _ hr => absurd hr List.not_mem_nil))

section Compare

variable {rt : Runtime} {settings : Settings} {body : BacktestRequest} {pair : Pair}
  {user : User} {rule : AlertRule} {s t : State}

/-- The rows both runs go through. -/
abbrev comparedRows (body : BacktestRequest) (s : State) : List PriceHistory :=
  lookbackRows s.view body.pairId (cutoffOf body s)

/-- The verdict of the live engine: over the table up to the row. -/
abbrev knownVerdict (rt : Runtime) (settings : Settings) (pair : Pair) (rule : AlertRule)
    (s : State) (row : PriceHistory) : Except PyError Bool :=
  verdictIn rt settings (upTo s.view pair.id row.observedAt) pair rule row

theorem Comparison.pairId (h : Comparison rt body pair user rule s t) :
    pair.id = body.pairId := by
  simpa using List.find?_some h.pairRow

/-- The live run is the track of the rule over the verdicts of the past. -/
theorem Comparison.live (h : Comparison rt body pair user rule s t)
    (settings : Settings) :
    (runTx (liveRun rt settings pair (comparedRows body s)) t).1
      = (sightings (rowKey rt pair rule) (knownVerdict rt settings pair rule s)
          (comparedRows body s)).map
          (fun xs => Track.seeAll body.cooldownSeconds xs {}) := by
  have hid := h.pairId
  have hp : rule.pairId = pair.id := h.same.pairId.trans hid.symm
  have hv : validRule rule = true :=
    (h.same.valid s.env.nextUuid user.id).trans h.valid
  rw [← h.same.cooldownSeconds]
  refine runTx_liveRun hv hp h.liveStart ?_
  intro done row todo hsplit
  refine ownPredicate_congr ?_
  have hd : DistinctInstants s.view pair.id := hid ▸ h.distinct
  have hperm := rowsOf_live_perm h.distinct h.stored hsplit
  rw [← hid] at hperm
  refine (historyDesc_eq_of_perm ?_ (List.Perm.trans hperm.symm (List.Perm.of_eq ?_))).symm
  · rw [DistinctInstants]
    rw [rowsOf_upTo]
    exact List.Nodup.sublist (List.filter_sublist.map _) hd
  · simp only [rowsOf, insertedInto]
    rw [h.liveHistory, hid]

/-- The verdict of the backtest: the definition as it was given, over the whole table. -/
abbrev givenVerdict (rt : Runtime) (settings : Settings) (body : BacktestRequest) (pair : Pair)
    (user : User) (s : State) : PriceHistory → Except PyError Bool :=
  verdictIn rt settings s.view pair (tempRule body user s)

/-- The backtest is the track of the live rule over the verdicts on the whole
    table. -/
theorem Comparison.backtest (h : Comparison rt body pair user rule s t)
    (hfits : (tempRule body user s).columns.fits = true) (settings : Settings) :
    (runTx (backtestRule rt settings body) s).1
      = ((sightings (rowKey rt pair rule) (givenVerdict rt settings body pair user s)
            (comparedRows body s)).map
          (fun xs => Track.seeAll body.cooldownSeconds xs {})).map
        (fun fires => .ok (respond body (comparedRows body s) fires)) := by
  rw [runTx_backtestRule h.pairRow h.userRow hfits h.valid h.newTemp,
    seeAll_sightings_keying h.keysAlike]

/-- A definition that does not fit its columns has no report. -/
theorem Comparison.no_report (h : Comparison rt body pair user rule s t)
    (hfits : ¬ (tempRule body user s).columns.fits = true) {response : BacktestResponse} :
    (runTx (backtestRule rt settings body) s).1 ≠ .ok (.ok response) := by
  rw [backtestRule_of_not_fits h.pairRow h.userRow (Bool.eq_false_iff.mpr hfits)]
  intro hok
  cases hok

end Compare

/-! ### A flat history with one jump -/

def flatPair : Pair := { id := 1, krakenPairName := "FLAT/USD", displayName := "FLAT/USD" }

def flatUser : User := ⟨5, "user@example.com"⟩

/-- A stored row at a price and a number of seconds. -/
def flatRow (price : Nat) (at_ : Int) : PriceHistory :=
  ⟨1, ⟨false, price * 10 ^ 8, -8⟩, ⟨false, price * 10 ^ 8, -8⟩, ⟨false, price * 10 ^ 8, -8⟩,
    none, seconds at_⟩

/-- Thirty-two minutes at one price, long before the lookback. -/
def flatPast : List PriceHistory :=
  (List.range 32).map (fun i => flatRow 1 (60 * i))

/-- Inside the lookback: the old price once more, then twice that price. -/
def flatRecent : List PriceHistory := [flatRow 1 820800, flatRow 2 820860]

/-- Tables with one pair, one user and a history. -/
def flatTables (rules : List AlertRule) (history : List PriceHistory) : Database :=
  { users := [flatUser], pairs := [flatPair], alertRules := rules
    priceHistory := history }

/-- The store of the API process: everything is in the table. -/
def flatApi : State :=
  ⟨flatTables [] (flatPast ++ flatRecent), flatTables [] (flatPast ++ flatRecent), {},
    { clock := seconds 864000, nextUuid := 71 }⟩

/-- The store of the poller when the lookback begins. -/
def flatLive (rule : AlertRule) (b : PairRules) : State :=
  ⟨flatTables [rule] flatPast, flatTables [rule] flatPast,
    ({} : Memory).install [rule] [(1, b)], { clock := seconds 864000 }⟩

/-- The last minute against the minute before it. -/
def stepBody : BacktestRequest :=
  { pairId := 1, ruleType := .percentChange, percent := some ⟨false, 50, 0⟩
    windowSeconds := some 60, direction := some "up", lookbackDays := 1 }

/-- The live rule has its percentage in the form of the column. -/
def stepRule : AlertRule :=
  { stepBody.rule 72 5 with percent := some ⟨false, 500000, -4⟩ }

theorem comparison_step :
    Comparison Runtime.rational stepBody flatPair flatUser stepRule flatApi
      (flatLive stepRule { percentChange := [stepRule] }) where
  pairRow := rfl
  userRow := rfl
  valid := by decide
  same :=
    { pairId := rfl
      ruleType := rfl
      threshold := rfl
      percent := by decide +kernel
      windowSeconds := rfl
      sigma := rfl
      direction := rfl
      cooldownSeconds := rfl }
  distinct := by
    rw [DistinctInstants]
    decide +kernel
  stored := by decide +kernel
  liveHistory := by decide +kernel
  liveStart :=
    { indexed := rfl
      last := by decide
      ruleRow := by decide
      pairRow := by decide
      keys := fun _ => ⟨fun _ => List.not_mem_nil, fun _ => rfl⟩ }
  newTemp := fun _ => rfl
  keysAlike := by decide +kernel

section Window

variable {rt : Runtime} {settings : Settings} {body : BacktestRequest} {pair : Pair}
  {user : User} {rule : AlertRule} {s t : State}

/-- The verdict of a `zscore_move` rule on the newest window of a table. -/
def newestVerdict (rt : Runtime) (settings : Settings) (pair : Pair) (rule : AlertRule)
    (db : Database) : Except PyError Bool :=
  (scoreIn rt settings db pair).map (fun score =>
    zscoreRuleFires rt rule score settings.zscoreZeroVarianceMinPercent)

theorem verdictIn_zscore (ht : rule.ruleType = .zscoreMove) (db : Database)
    (row : PriceHistory) :
    verdictIn rt settings db pair rule row = newestVerdict rt settings pair rule db := by
  rw [verdictIn, ownPredicate, newestVerdict]
  rw [ht]

/-- Both runs return, with one list of fires. -/
def SameFires (rt : Runtime) (settings : Settings) (body : BacktestRequest) (pair : Pair)
    (s t : State) : Prop :=
  ∃ response fires,
    (runTx (backtestRule rt settings body) s).1 = .ok (.ok response)
      ∧ (runTx (liveRun rt settings pair (comparedRows body s)) t).1 = .ok fires
      ∧ response.fires = fires

/-- The verdict of the definition as it was given on the newest window of the whole table
    stands in for the verdicts of the live rule on the windows of the past: no past verdict is
    positive unless it is, and if it is, the past verdict is positive wherever a detected
    state occurs first. -/
def WindowsAgree (rt : Runtime) (settings : Settings) (body : BacktestRequest)
    (pair : Pair) (user : User) (rule : AlertRule) (s : State) : Prop :=
  ∃ (newest : Bool) (past : PriceHistory → Bool),
    (∀ row ∈ comparedRows body s,
      newestVerdict rt settings pair (tempRule body user s) s.view = .ok newest
        ∧ newestVerdict rt settings pair rule (upTo s.view pair.id row.observedAt)
          = .ok (past row))
      ∧ (∀ row ∈ comparedRows body s, past row = true → newest = true)
      ∧ (newest = true → ∀ done row todo, comparedRows body s = done ++ row :: todo →
          (∀ r ∈ done, rowKey rt pair rule r ≠ rowKey rt pair rule row) →
            past row = true)

/-- Where the definition fits its columns, the windows decide. -/
theorem Comparison.sameFires_iff (h : Comparison rt body pair user rule s t)
    (htype : body.ruleType = .zscoreMove)
    (hfits : (tempRule body user s).columns.fits = true) :
    SameFires rt settings body pair s t
      ↔ WindowsAgree rt settings body pair user rule s := by
  have ht : rule.ruleType = .zscoreMove := h.same.ruleType.trans htype
  have hdistinct : ((comparedRows body s).map PriceHistory.observedAt).Nodup :=
    distinct_lookbackRows h.distinct (cutoffOf body s)
  have hback := h.backtest hfits settings
  have hlive := h.live settings
  have hwhole : givenVerdict rt settings body pair user s
      = fun _ => newestVerdict rt settings pair (tempRule body user s) s.view := by
    funext row
    exact verdictIn_zscore htype s.view row
  have hknown : knownVerdict rt settings pair rule s = fun row =>
      newestVerdict rt settings pair rule (upTo s.view pair.id row.observedAt) := by
    funext row
    exact verdictIn_zscore ht _ row
  rw [hwhole] at hback
  rw [hknown] at hlive
  -- The backtest tests one verdict, the newest, at every row; live tests each row's own.
  constructor
  · rintro ⟨response, fires, hresponse, hfires, hsame⟩
    rw [hresponse] at hback
    rw [hfires] at hlive
    cases hx : sightings (rowKey rt pair rule)
        (fun _ => newestVerdict rt settings pair (tempRule body user s) s.view)
        (comparedRows body s) with
    | error e =>
        rw [hx] at hback
        cases hback
    | ok xs =>
        cases hy : sightings (rowKey rt pair rule) (fun row =>
            newestVerdict rt settings pair rule (upTo s.view pair.id row.observedAt))
            (comparedRows body s) with
        | error e =>
            rw [hy] at hlive
            cases hlive
        | ok ys =>
            have hnewest := ok_of_sightings hx
            have hpast := ok_of_sightings hy
            rw [sightings_of_ok hnewest] at hback
            rw [sightings_of_ok hpast] at hlive
            have hresp := Except.ok.inj (Except.ok.inj hback)
            have hfire := Except.ok.inj hlive
            rw [hfire, hresp] at hsame
            obtain ⟨hnone, hfirst⟩ := (Track.seeAll_eq_const_iff hdistinct).mp hsame.symm
            exact ⟨_, _, fun row hrow => ⟨hnewest row hrow, hpast row hrow⟩, hnone, hfirst⟩
  · rintro ⟨newest, past, hok, hpast, hfirst⟩
    rw [sightings_of_ok (b := fun _ => newest) (fun row hrow => (hok row hrow).1)] at hback
    rw [sightings_of_ok (b := past) (fun row hrow => (hok row hrow).2)] at hlive
    refine ⟨_, _, hback, hlive, ?_⟩
    exact ((Track.seeAll_eq_const_iff hdistinct).mpr ⟨hpast, hfirst⟩).symm

/-- A z-score backtest returns the fires of the live engine exactly when the definition fits
    its columns and the newest window agrees with the windows of the past. -/
theorem backtest_zscore_eq_live_iff (h : Comparison rt body pair user rule s t)
    (htype : body.ruleType = .zscoreMove) :
    SameFires rt settings body pair s t
      ↔ (tempRule body user s).columns.fits = true
        ∧ WindowsAgree rt settings body pair user rule s := by
  by_cases hfits : (tempRule body user s).columns.fits = true
  · rw [h.sameFires_iff htype hfits, and_iff_right hfits]
  · constructor
    · rintro ⟨response, -, hresponse, -⟩
      exact absurd hresponse (h.no_report hfits)
    · rintro ⟨hyes, -⟩
      exact absurd hyes hfits

end Window

def jumpBody : BacktestRequest :=
  { pairId := 1, ruleType := .zscoreMove, sigma := some ⟨false, 3, 0⟩, lookbackDays := 1 }

/-- The live rule has its sigma in the form of the column. -/
def jumpRule : AlertRule := { jumpBody.rule 70 5 with sigma := some ⟨false, 3000, -3⟩ }

def jumpLive : State := flatLive jumpRule { zscoreMove := [jumpRule] }

theorem comparison_jump :
    Comparison Runtime.rational jumpBody flatPair flatUser jumpRule flatApi jumpLive where
  pairRow := rfl
  userRow := rfl
  valid := by decide
  same :=
    { pairId := rfl
      ruleType := rfl
      threshold := rfl
      percent := rfl
      windowSeconds := rfl
      sigma := by decide +kernel
      direction := rfl
      cooldownSeconds := rfl }
  distinct := comparison_step.distinct
  stored := comparison_step.stored
  liveHistory := comparison_step.liveHistory
  liveStart :=
    { indexed := rfl
      last := by decide
      ruleRow := by decide
      pairRow := by decide
      keys := fun _ => ⟨fun _ => List.not_mem_nil, fun _ => rfl⟩ }
  newTemp := fun _ => rfl
  keysAlike := by decide +kernel

theorem backtest_zscore_eq_live_iff_jump :
    SameFires Runtime.rational {} jumpBody flatPair flatApi jumpLive
      ↔ (tempRule jumpBody flatUser flatApi).columns.fits = true
        ∧ WindowsAgree Runtime.rational {} jumpBody flatPair flatUser jumpRule flatApi :=
  backtest_zscore_eq_live_iff comparison_jump rfl

/-- The jump at the end makes the backtest fire on the flat row before it too. -/
theorem not_sameFires_jump :
    ¬ SameFires Runtime.rational {} jumpBody flatPair flatApi jumpLive := by
  have hback : (runTx (backtestRule Runtime.rational {} jumpBody) flatApi).1.map
      (fun r => r.map BacktestResponse.fires) = .ok (.ok
        [⟨seconds 820800, ⟨false, 10 ^ 8, -8⟩, .pending⟩,
          ⟨seconds 820860, ⟨false, 2 * 10 ^ 8, -8⟩, .pending⟩]) := by
    decide +kernel
  have hlive : (runTx (liveRun Runtime.rational {} flatPair
      (comparedRows jumpBody flatApi)) jumpLive).1 = .ok
        [⟨seconds 820860, ⟨false, 2 * 10 ^ 8, -8⟩, .pending⟩] := by
    decide +kernel
  rintro ⟨response, fires, hresponse, hfires, hsame⟩
  rw [hresponse] at hback
  rw [hlive] at hfires
  have htwo := Except.ok.inj (Except.ok.inj hback)
  have hone := Except.ok.inj hfires
  rw [hsame, ← hone] at htwo
  exact absurd (congrArg List.length htwo) (by decide)

end Dropwatch.Backtest
