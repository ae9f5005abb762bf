import Dropwatch.IndexProofs
import Dropwatch.Evaluator

/-! # The candidate stage — what `evaluate_rules_for_pair` selects

    The candidate stage only reads: `runTx_selectCandidates` says that a run of
    it is a function of the tables (`candidatesIn`), the per-window cache of
    `percent_change` included.  On buckets in scan order the two early-exit
    scans are filters, so the candidates are the rules of the bucket that
    satisfy their own predicate (`rules_candidatesIn`).

    The last section is the message: a candidate's predicate has already
    excluded every branch in which `_format_message` raises. -/

namespace Dropwatch.Evaluator

open Transact RuleIndex Zscore

variable (rt : Runtime) (settings : Settings)

/-! ## The stage as a function of the tables -/

/-- The uncached as-of lookup of a rule. -/
def pastPrice (db : Database) (pair : Pair) (obs : Observation) (rule : AlertRule) :
    Option Decimal :=
  rule.windowSeconds.bind
    (fun w => db.priceAtOrBefore pair.id (obs.observedAt - seconds w))

/-- The score of the newest stored price of a pair. -/
def scoreIn (db : Database) (pair : Pair) :
    Except PyError (Option (ZScoreResult rt)) :=
  computeZscore rt (db.recentPrices pair.id (settings.zscoreWindow + 2)).reverse
    settings.zscoreWindow settings.zscoreMinObservations

/-- The shared score, computed only when a `zscore_move` rule needs it. -/
def sharedScore (db : Database) (pair : Pair) (rules : List AlertRule) :
    Except PyError (Option (ZScoreResult rt)) :=
  if rules.isEmpty then .ok none else scoreIn rt settings db pair

/-- The past prices by rule, as the loop leaves them. -/
def pastPrices (db : Database) (pair : Pair) (obs : Observation)
    (rules : List AlertRule) (acc : Dict Uuid (Option Decimal)) :
    Dict Uuid (Option Decimal) :=
  rules.foldl (fun d rule => d.set rule.id (pastPrice db pair obs rule)) acc

/-- The predicate of a rule, on a given score. -/
def firesIn (db : Database) (pair : Pair) (obs : Observation)
    (score : Option (ZScoreResult rt)) (rule : AlertRule) : Bool :=
  match rule.ruleType with
  | .absoluteBelow => ruleFires rule obs.last
  | .absoluteAbove => ruleFires rule obs.last
  | .zscoreMove => zscoreRuleFires rt rule score settings.zscoreZeroVarianceMinPercent
  | .percentChange => percentChangeRuleFires rule obs.last (pastPrice db pair obs rule)
  | .spreadWiden => spreadWidenRuleFires rule obs.bid obs.ask

/-- The rules selected on a given score. -/
def selectedIn (db : Database) (pair : Pair) (obs : Observation)
    (score : Option (ZScoreResult rt)) (b : PairRules) : List AlertRule :=
  matchingAbsoluteRules b.absoluteBelow obs.last
    ++ matchingAbsoluteRules b.absoluteAbove obs.last
    ++ b.zscoreMove.filter (fun rule =>
        zscoreRuleFires rt rule score settings.zscoreZeroVarianceMinPercent)
    ++ b.percentChange.filter (fun rule =>
        percentChangeRuleFires rule obs.last (pastPrice db pair obs rule))
    ++ b.spreadWiden.filter (fun rule => spreadWidenRuleFires rule obs.bid obs.ask)

/-- The candidate stage over tables. -/
def candidatesIn (db : Database) (pair : Pair) (obs : Observation) (b : PairRules) :
    Except PyError (Candidates rt) := do
  let score ← sharedScore rt settings db pair b.zscoreMove
  if b.percentChange.any (fun rule => rule.windowSeconds.isNone) then
    .error .typeError
  else
    .ok ⟨score, pastPrices db pair obs b.percentChange [],
      selectedIn rt settings db pair obs score b⟩

/-- The cache agrees with a fresh lookup. -/
def Fresh (db : Database) (pair : Pair) (obs : Observation)
    (cache : Dict Int (Option Decimal)) : Prop :=
  ∀ w p, cache.get? w = some p →
    p = db.priceAtOrBefore pair.id (obs.observedAt - seconds w)

theorem Fresh.set {db : Database} {pair : Pair} {obs : Observation}
    {cache : Dict Int (Option Decimal)} (h : Fresh db pair obs cache) (w : Int) :
    Fresh db pair obs
      (cache.set w (db.priceAtOrBefore pair.id (obs.observedAt - seconds w))) := by
  intro w' p hp
  rw [Dict.get?_set] at hp
  by_cases hw : w = w'
  · rw [if_pos hw] at hp
    rw [← Option.some.inj hp, hw]
  · rw [if_neg hw] at hp
    exact h w' p hp

/-- The cached lookup of one rule. -/
theorem runTx_pastPriceOf {pair : Pair} {obs : Observation}
    {cache : Dict Int (Option Decimal)} {s : State}
    (h : Fresh s.view pair obs cache) (w : Int) :
    runTx (pastPriceOf pair obs cache w) s
      = (.ok (s.view.priceAtOrBefore pair.id (obs.observedAt - seconds w)), s) := by
  rw [pastPriceOf]
  cases hc : cache.get? w with
  | none => rfl
  | some p =>
      rw [← h w p hc]
      rfl

theorem runTx_percentChangeCandidates {pair : Pair} {obs : Observation}
    {rules : List AlertRule} {s : State} {cache : Dict Int (Option Decimal)}
    {acc : Dict Uuid (Option Decimal)} (h : Fresh s.view pair obs cache) :
    runTx (percentChangeCandidates pair obs rules cache acc) s
      = (if rules.any (fun rule => rule.windowSeconds.isNone) then .error .typeError
          else .ok (pastPrices s.view pair obs rules acc,
            rules.filter (fun rule =>
              percentChangeRuleFires rule obs.last (pastPrice s.view pair obs rule))),
        s) := by
  induction rules generalizing cache acc with
  | nil => rfl
  | cons rule rest ih =>
      cases hw : rule.windowSeconds with
      | none =>
          have hany : (rule :: rest).any (fun r => r.windowSeconds.isNone) = true := by
            simp [hw]
          rw [if_pos hany, percentChangeCandidates, hw]
          rfl
      | some w =>
          have hpast : pastPrice s.view pair obs rule
              = s.view.priceAtOrBefore pair.id (obs.observedAt - seconds w) := by
            rw [pastPrice, hw]
            rfl
          have hany : (rule :: rest).any (fun r => r.windowSeconds.isNone)
              = rest.any (fun r => r.windowSeconds.isNone) := by
            simp [hw]
          rw [percentChangeCandidates, hw]
          show runTx (pastPriceOf pair obs cache w >>= _) s = _
          rw [runTx_bind_ok (runTx_pastPriceOf h w), runTx_bind, ih (h.set w), hany]
          by_cases hrest : rest.any (fun r => r.windowSeconds.isNone) = true
          · rw [if_pos hrest, if_pos hrest]
            rfl
          · rw [if_neg hrest, if_neg hrest, ← hpast, thenRun_ok, List.filter_cons]
            rfl

theorem runTx_zscoreCandidates (pair : Pair) (rules : List AlertRule) (s : State) :
    runTx (zscoreCandidates rt settings pair rules) s
      = ((sharedScore rt settings s.view pair rules).map (fun score =>
          (score, rules.filter (fun rule =>
            zscoreRuleFires rt rule score settings.zscoreZeroVarianceMinPercent))),
        s) := by
  rw [zscoreCandidates, sharedScore]
  by_cases hr : rules.isEmpty = true
  · rw [if_pos hr, if_pos hr, List.isEmpty_iff.mp hr]
    rfl
  · rw [if_neg hr, if_neg hr]
    show runTx (Tx.lift (scoreIn rt settings s.view pair) >>= _) s = _
    cases scoreIn rt settings s.view pair with
    | error e => rfl
    | ok score => rfl

/-- A run of the candidate stage reads the tables and changes nothing. -/
theorem runTx_selectCandidates (pair : Pair) (obs : Observation) (b : PairRules)
    (s : State) :
    runTx (selectCandidates rt settings pair obs b) s
      = (candidatesIn rt settings s.view pair obs b, s) := by
  have hfresh : Fresh s.view pair obs [] := fun _ _ h => by cases h
  rw [selectCandidates, candidatesIn]
  show runTx (zscoreCandidates rt settings pair b.zscoreMove >>= _) s = _
  rw [runTx_bind, runTx_zscoreCandidates]
  cases sharedScore rt settings s.view pair b.zscoreMove with
  | error e => rfl
  | ok score =>
      show runTx (percentChangeCandidates pair obs b.percentChange [] []
        >>= _) s = _
      rw [runTx_bind, runTx_percentChangeCandidates hfresh]
      by_cases hany : b.percentChange.any (fun r => r.windowSeconds.isNone) = true
      · rw [if_pos hany]
        simp only [bind, Except.bind, hany, if_true]
        rfl
      · rw [if_neg hany]
        simp only [bind, Except.bind, hany]
        rfl

/-! ## What the stage reads -/

theorem historyDesc_congr {db db' : Database} (h : db.priceHistory = db'.priceHistory)
    (pairId : Uuid) : db.historyDesc pairId = db'.historyDesc pairId := by
  simp only [Database.historyDesc]
  rw [h]

/-- The stage reads the history of its pair, newest first, and nothing else. -/
theorem candidatesIn_congr {db db' : Database} {pair : Pair} {obs : Observation}
    {b : PairRules} (h : db.historyDesc pair.id = db'.historyDesc pair.id) :
    candidatesIn rt settings db pair obs b = candidatesIn rt settings db' pair obs b := by
  have hscore : scoreIn rt settings db pair = scoreIn rt settings db' pair := by
    simp only [scoreIn, Database.recentPrices]
    rw [h]
  have hpast : pastPrice db pair obs = pastPrice db' pair obs := by
    funext rule
    simp only [pastPrice, Database.priceAtOrBefore]
    rw [h]
  simp only [candidatesIn, sharedScore, pastPrices, selectedIn]
  rw [hscore, hpast]

/-! ## The two scans -/

theorem ruleFires_below {rule : AlertRule} {price : Decimal}
    (ht : rule.ruleType = .absoluteBelow) (hs : rule.threshold.isSome = true) :
    ruleFires rule price = true ↔ price.toRat < thresholdValue rule := by
  obtain ⟨threshold, hth⟩ := Option.isSome_iff_exists.mp hs
  simp [ruleFires, thresholdValue, ht, hth]

theorem ruleFires_above {rule : AlertRule} {price : Decimal}
    (ht : rule.ruleType = .absoluteAbove) (hs : rule.threshold.isSome = true) :
    ruleFires rule price = true ↔ thresholdValue rule < price.toRat := by
  obtain ⟨threshold, hth⟩ := Option.isSome_iff_exists.mp hs
  simp [ruleFires, thresholdValue, ht, hth]

/-- In a descending list a rule below a firing one fires too. -/
theorem matchingAbsoluteRules_below {b : PairRules} {pairId : Uuid}
    (hw : b.WellFormed pairId) (ho : b.ScanOrder) (price : Decimal) :
    matchingAbsoluteRules b.absoluteBelow price
      = b.absoluteBelow.filter (fun rule => ruleFires rule price) := by
  refine takeWhile_eq_filter ho.below ?_
  intro r hr r' hr' hle hfires
  rw [ruleFires_below (hw.absoluteBelow r' hr') (ho.sortable.1 r' hr')] at hfires
  rw [ruleFires_below (hw.absoluteBelow r hr) (ho.sortable.1 r hr)]
  exact lt_of_lt_of_le hfires hle

/-- In an ascending list a rule before a firing one fires too. -/
theorem matchingAbsoluteRules_above {b : PairRules} {pairId : Uuid}
    (hw : b.WellFormed pairId) (ho : b.ScanOrder) (price : Decimal) :
    matchingAbsoluteRules b.absoluteAbove price
      = b.absoluteAbove.filter (fun rule => ruleFires rule price) := by
  refine takeWhile_eq_filter ho.above ?_
  intro r hr r' hr' hle hfires
  rw [ruleFires_above (hw.absoluteAbove r' hr') (ho.sortable.2 r' hr')] at hfires
  rw [ruleFires_above (hw.absoluteAbove r hr) (ho.sortable.2 r hr)]
  exact lt_of_le_of_lt hle hfires

theorem filter_congr_type {rules : List AlertRule} {t : RuleType}
    {p q : AlertRule → Bool} (ht : ∀ r ∈ rules, r.ruleType = t)
    (h : ∀ r, r.ruleType = t → p r = q r) : rules.filter p = rules.filter q :=
  List.filter_congr (fun r hr => h r (ht r hr))

/-- The candidates are the rules of the bucket that satisfy their own
    predicate. -/
theorem selectedIn_eq_filter {db : Database} {pair : Pair} {obs : Observation}
    {score : Option (ZScoreResult rt)} {b : PairRules} {pairId : Uuid}
    (hw : b.WellFormed pairId) (ho : b.ScanOrder) :
    selectedIn rt settings db pair obs score b
      = b.all.filter (firesIn rt settings db pair obs score) := by
  rw [selectedIn, PairRules.all]
  rw [matchingAbsoluteRules_below hw ho, matchingAbsoluteRules_above hw ho]
  simp only [List.filter_append]
  congr 1
  · congr 1
    · congr 1
      · congr 1
        · exact filter_congr_type hw.absoluteBelow (fun r h => by simp [firesIn, h])
        · exact filter_congr_type hw.absoluteAbove (fun r h => by simp [firesIn, h])
      · exact filter_congr_type hw.zscoreMove (fun r h => by simp [firesIn, h])
    · exact filter_congr_type hw.percentChange (fun r h => by simp [firesIn, h])
  · exact filter_congr_type hw.spreadWiden (fun r h => by simp [firesIn, h])

/-- A candidate is a rule of the bucket. -/
theorem selectedIn_subset {db : Database} {pair : Pair} {obs : Observation}
    {score : Option (ZScoreResult rt)} {b : PairRules} {rule : AlertRule}
    (h : rule ∈ selectedIn rt settings db pair obs score b) : rule ∈ b.all := by
  rw [selectedIn] at h
  simp only [List.mem_append, List.mem_filter, matchingAbsoluteRules] at h
  simp only [PairRules.all, List.mem_append]
  rcases h with (((h | h) | h) | h) | h
  · exact Or.inl (Or.inl (Or.inl (Or.inl ((List.takeWhile_prefix _).subset h))))
  · exact Or.inl (Or.inl (Or.inl (Or.inr ((List.takeWhile_prefix _).subset h))))
  · exact Or.inl (Or.inl (Or.inr h.1))
  · exact Or.inl (Or.inr h.1)
  · exact Or.inr h.1

/-! ## The message of a candidate -/

/-- A candidate stage that returned computed its score and its selection. -/
theorem candidatesIn_ok {db : Database} {pair : Pair} {obs : Observation}
    {b : PairRules} {c : Candidates rt}
    (h : candidatesIn rt settings db pair obs b = .ok c) :
    sharedScore rt settings db pair b.zscoreMove = .ok c.zscoreResult
      ∧ c.pastPriceByRuleId = pastPrices db pair obs b.percentChange []
      ∧ c.rules = selectedIn rt settings db pair obs c.zscoreResult b
      ∧ ∀ r ∈ b.percentChange, r.windowSeconds.isSome = true := by
  rw [candidatesIn] at h
  cases hs : sharedScore rt settings db pair b.zscoreMove with
  | error e =>
      rw [hs] at h
      cases h
  | ok score =>
      rw [hs] at h
      simp only [bind, Except.bind] at h
      by_cases hany : b.percentChange.any (fun r => r.windowSeconds.isNone) = true
      · rw [if_pos hany] at h
        cases h
      · rw [if_neg hany] at h
        rw [← Except.ok.inj h]
        refine ⟨rfl, rfl, rfl, ?_⟩
        intro r hr
        cases hw : r.windowSeconds with
        | some w => rfl
        | none => exact absurd (List.any_eq_true.mpr ⟨r, hr, by simp [hw]⟩) hany

/-- Where every window is there, only the score can raise. -/
theorem candidatesIn_eq_map {db : Database} {pair : Pair} {obs : Observation}
    {b : PairRules} (hwin : ∀ r ∈ b.percentChange, r.windowSeconds.isSome = true) :
    candidatesIn rt settings db pair obs b
      = (sharedScore rt settings db pair b.zscoreMove).map (fun score =>
          ⟨score, pastPrices db pair obs b.percentChange [],
            selectedIn rt settings db pair obs score b⟩) := by
  have hany : ¬ b.percentChange.any (fun r => r.windowSeconds.isNone) = true := by
    intro hany
    obtain ⟨r, hr, hnone⟩ := List.any_eq_true.mp hany
    rw [← Option.not_isSome, hwin r hr] at hnone
    exact absurd hnone (by decide)
  rw [candidatesIn]
  simp only [if_neg hany]
  cases sharedScore rt settings db pair b.zscoreMove with
  | error e => rfl
  | ok score => rfl

/-- The past price remembered for a rule is the one its predicate was tested on,
    whatever the other rules of the loop are. -/
theorem get?_pastPrices {db : Database} {pair : Pair} {obs : Observation}
    {rules : List AlertRule} {acc : Dict Uuid (Option Decimal)}
    (hid : (rules.map AlertRule.id).Nodup) {rule : AlertRule} (hr : rule ∈ rules) :
    (pastPrices db pair obs rules acc).get? rule.id
      = some (pastPrice db pair obs rule) := by
  induction rules using List.reverseRecOn with
  | nil => exact absurd hr List.not_mem_nil
  | append_singleton rules last ih =>
      rw [pastPrices] at ih ⊢
      rw [List.foldl_append, List.foldl_cons, List.foldl_nil, Dict.get?_set]
      rw [List.map_append, List.map_singleton, List.nodup_append] at hid
      by_cases hlast : last.id = rule.id
      · have heq : rule = last := by
          rcases List.mem_append.mp hr with hmem | hmem
          · exact absurd hlast.symm
              (hid.2.2 rule.id (List.mem_map_of_mem hmem) last.id (by simp))
          · exact List.mem_singleton.mp hmem
        rw [if_pos hlast, heq]
      · rw [if_neg hlast]
        refine ih hid.1 ?_
        rcases List.mem_append.mp hr with hmem | hmem
        · exact hmem
        · exact absurd (congrArg AlertRule.id (List.mem_singleton.mp hmem)).symm hlast

/-- `_format_message` returns for a rule, on what the candidate stage hands it. -/
def Messageable (pair : Pair) (obs : Observation) (c : Candidates rt)
    (rule : AlertRule) : Prop :=
  ∃ message, formatMessage rt pair rule obs c.zscoreResult
    ((c.pastPriceByRuleId.get? rule.id).join) = .ok message

theorem messageable_absolute {pair : Pair} {obs : Observation} {c : Candidates rt}
    {rule : AlertRule}
    (h : rule.ruleType = .absoluteBelow ∨ rule.ruleType = .absoluteAbove) :
    Messageable rt pair obs c rule := by
  simp only [Messageable, formatMessage]
  rcases h with h | h
  · rw [h]
    exact ⟨_, rfl⟩
  · rw [h]
    exact ⟨_, rfl⟩

theorem messageable_zscore {pair : Pair} {obs : Observation} {c : Candidates rt}
    {rule : AlertRule} {p : Decimal} (ht : rule.ruleType = .zscoreMove)
    (h : zscoreRuleFires rt rule c.zscoreResult p = true) :
    Messageable rt pair obs c rule := by
  simp only [Messageable, formatMessage]
  rw [ht]
  cases hz : c.zscoreResult with
  | none =>
      rw [hz] at h
      simp [zscoreRuleFires] at h
  | some result => exact ⟨_, rfl⟩

theorem percentOfOrRaise_ok {a b : Decimal} (h : a.isZero = false) :
    percentOfOrRaise a b = .ok (Decimal.percentOf a b) := by
  simp [percentOfOrRaise, h]

theorem messageable_percentChange {pair : Pair} {obs : Observation}
    {c : Candidates rt} {rule : AlertRule} (ht : rule.ruleType = .percentChange)
    (h : percentChangeRuleFires rule obs.last
      ((c.pastPriceByRuleId.get? rule.id).join) = true) :
    Messageable rt pair obs c rule := by
  simp only [Messageable, formatMessage]
  rw [ht]
  cases hp : (c.pastPriceByRuleId.get? rule.id).join with
  | none =>
      rw [hp] at h
      simp [percentChangeRuleFires] at h
  | some past =>
      rw [hp] at h
      have hz : past.isZero = false := by
        cases hpz : past.isZero with
        | false => rfl
        | true =>
            cases hpc : rule.percent with
            | none => simp [percentChangeRuleFires, hpc] at h
            | some percent => simp [percentChangeRuleFires, hpc, hpz] at h
      simp only [percentOfOrRaise_ok hz]
      exact ⟨_, rfl⟩

theorem messageable_spreadWiden {pair : Pair} {obs : Observation}
    {c : Candidates rt} {rule : AlertRule} (ht : rule.ruleType = .spreadWiden)
    (h : spreadWidenRuleFires rule obs.bid obs.ask = true) :
    Messageable rt pair obs c rule := by
  simp only [Messageable, formatMessage]
  rw [ht]
  have hz : obs.bid.isZero = false := by
    cases hbz : obs.bid.isZero with
    | false => rfl
    | true =>
        cases hpc : rule.percent with
        | none => simp [spreadWidenRuleFires, hpc] at h
        | some percent => simp [spreadWidenRuleFires, hpc, hbz] at h
  simp only [percentOfOrRaise_ok hz]
  exact ⟨_, rfl⟩

theorem ids_nodup_percentChange {pairId : Uuid} {b : PairRules}
    (hw : b.WellFormed pairId) : (b.percentChange.map AlertRule.id).Nodup := by
  have hsub : b.percentChange.Sublist b.all := by
    rw [PairRules.all]
    exact ((List.sublist_append_right _ _).trans (List.sublist_append_left _ _))
  exact hw.nodup.sublist (hsub.map AlertRule.id)

/-- No candidate makes `_format_message` raise. -/
theorem messageable_of_candidate {db : Database} {pair : Pair} {obs : Observation}
    {b : PairRules} {c : Candidates rt} {pairId : Uuid} (hw : b.WellFormed pairId)
    (h : candidatesIn rt settings db pair obs b = .ok c) :
    ∀ rule ∈ c.rules, Messageable rt pair obs c rule := by
  obtain ⟨-, hpast, hrules, -⟩ := candidatesIn_ok rt settings h
  intro rule hr
  rw [hrules] at hr
  rw [selectedIn] at hr
  simp only [List.mem_append, List.mem_filter, matchingAbsoluteRules] at hr
  rcases hr with (((hbelow | habove) | ⟨hmem, hfires⟩) | ⟨hmem, hfires⟩) | ⟨hmem, hfires⟩
  · have hmem := (List.takeWhile_prefix _).subset hbelow
    exact messageable_absolute rt (Or.inl (hw.absoluteBelow rule hmem))
  · have hmem := (List.takeWhile_prefix _).subset habove
    exact messageable_absolute rt (Or.inr (hw.absoluteAbove rule hmem))
  · exact messageable_zscore rt (hw.zscoreMove rule hmem) hfires
  · refine messageable_percentChange rt (hw.percentChange rule hmem) ?_
    rw [hpast, get?_pastPrices (ids_nodup_percentChange hw) hmem]
    exact hfires
  · exact messageable_spreadWiden rt (hw.spreadWiden rule hmem) hfires

end Dropwatch.Evaluator
