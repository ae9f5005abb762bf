import Dropwatch.Session
import Dropwatch.Zscore

/-! # Rule evaluation — `rules/evaluator.py`

    The five predicates, the detected-state key, the cooldown test, the message
    and `evaluateRulesForPair`, the program that turns one observation into
    notifications and outbox events. -/

namespace Dropwatch.Evaluator

open Transact RuleIndex Zscore

variable (rt : Runtime)

/-! ## Keys -/

/-- `str(x) if x is not None else ""` -/
def strOrEmpty (d : Option Decimal) : String := (d.map Decimal.str).getD ""

/-- The fields of a detected state, printed. -/
def detectedStateParts (rule : AlertRule) (price : Decimal) (observedAt : Instant) :
    List String :=
  [rule.ruleType.str, strOrEmpty rule.threshold, strOrEmpty rule.percent,
    (rule.windowSeconds.map (fun n => toString n)).getD "", strOrEmpty rule.sigma,
    rule.direction.getD "", price.str, isoformat (minuteBucket observedAt)]

/-- `compute_detected_state_hash` -/
def computeDetectedStateHash (rule : AlertRule) (price : Decimal)
    (observedAt : Instant) : String :=
  rt.sha256 ("|".intercalate (detectedStateParts rule price observedAt))

/-- `compute_idempotency_key` -/
def computeIdempotencyKey (ruleId pairId : Uuid) (stateHash : String) : String :=
  rt.sha256 (uuidStr ruleId ++ ":" ++ uuidStr pairId ++ ":" ++ stateHash)

/-- The key of a rule's detected state, as the loop composes it. -/
def stateKey (pairId : Uuid) (rule : AlertRule) (price : Decimal)
    (observedAt : Instant) : String :=
  computeIdempotencyKey rt rule.id pairId
    (computeDetectedStateHash rt rule price observedAt)

/-! ## Predicates -/

/-- `rule.direction or "both"` -/
def directionOrBoth (rule : AlertRule) : String :=
  match rule.direction with
  | none => "both"
  | some d => if d = "" then "both" else d

/-- `rule_fires` -/
def ruleFires (rule : AlertRule) (price : Decimal) : Bool :=
  match rule.ruleType, rule.threshold with
  | .absoluteBelow, some threshold => price.toRat < threshold.toRat
  | .absoluteAbove, some threshold => threshold.toRat < price.toRat
  | _, _ => false

/-- `zscore_rule_fires` -/
def zscoreRuleFires (rule : AlertRule) (result : Option (ZScoreResult rt))
    (zeroVarianceMinPercent : Decimal) : Bool :=
  match result, rule.sigma with
  | some result, some sigma =>
      match result.z with
      | none =>
          let percentChange := rt.percent (rt.abs (rt.expm1 result.currentReturn))
          if rt.lt percentChange (rt.ofDecimal zeroVarianceMinPercent) then false
          else if directionOrBoth rule = "down" then
            rt.lt result.currentReturn rt.zero
          else if directionOrBoth rule = "up" then
            rt.lt rt.zero result.currentReturn
          else true
      | some z =>
          let sigma := rt.ofDecimal sigma
          if directionOrBoth rule = "down" then rt.le z (rt.neg sigma)
          else if directionOrBoth rule = "up" then rt.le sigma z
          else rt.le sigma (rt.abs z)
  | _, _ => false

/-- `percent_change_rule_fires` -/
def percentChangeRuleFires (rule : AlertRule) (currentPrice : Decimal)
    (pastPrice : Option Decimal) : Bool :=
  match pastPrice, rule.percent with
  | some past, some percent =>
      if past.isZero then false
      else
        let changePercent := Decimal.percentOf past currentPrice
        if directionOrBoth rule = "down" then
          changePercent ≤ Decimal.context (-percent.toRat)
        else if directionOrBoth rule = "up" then percent.toRat ≤ changePercent
        else percent.toRat ≤ |changePercent|
  | _, _ => false

/-- `spread_widen_rule_fires` -/
def spreadWidenRuleFires (rule : AlertRule) (bidPrice askPrice : Decimal) : Bool :=
  match rule.percent with
  | none => false
  | some percent =>
      if bidPrice.isZero then false
      else percent.toRat ≤ Decimal.percentOf bidPrice askPrice

/-- `_in_cooldown` -/
def inCooldown (rule : AlertRule) (observedAt : Instant) : Bool :=
  match rule.lastFiredAt with
  | none => false
  | some lastFiredAt =>
      if rule.cooldownSeconds ≤ 0 then false
      else observedAt - lastFiredAt < seconds rule.cooldownSeconds

/-- `_matching_absolute_rules`: stop at the first rule that does not fire. -/
def matchingAbsoluteRules (rules : List AlertRule) (price : Decimal) :
    List AlertRule :=
  rules.takeWhile (fun rule => ruleFires rule price)

/-! ## The message -/

/-- One observation of a pair. -/
structure Observation where
  last : Decimal
  bid : Decimal
  ask : Decimal
  observedAt : Instant
  deriving DecidableEq, Repr

/-- `(b - a) / a * 100` where nothing has excluded `a == 0` syntactically. -/
def percentOfOrRaise (a b : Decimal) : Except PyError ℚ :=
  if a.isZero then .error .zeroDivisionError else .ok (Decimal.percentOf a b)

/-- `f"{d}"` of an optional decimal. -/
def strOrNone (d : Option Decimal) : String := (d.map Decimal.str).getD "None"

/-- `_format_message` -/
def formatMessage (pair : Pair) (rule : AlertRule) (obs : Observation)
    (zscoreResult : Option (ZScoreResult rt)) (pastPrice : Option Decimal) :
    Except PyError String :=
  let timestamp := isoformat obs.observedAt
  match rule.ruleType with
  | .zscoreMove =>
      match zscoreResult with
      | none => .error .assertionError
      | some result =>
          let percent := rt.fixed3 (rt.percent (rt.expm1 result.currentReturn))
          let detail :=
            match result.z with
            | none => "flat-window fallback move of " ++ percent
                ++ "% (baseline window had zero variance)"
            | some z => "z=" ++ rt.fixed2 z ++ " (sigma threshold "
                ++ strOrNone rule.sigma ++ ", return " ++ percent ++ "%)"
          .ok (pair.displayName ++ " z-score move: " ++ detail ++ " (observed "
            ++ obs.last.str ++ " at " ++ timestamp ++ ")")
  | .percentChange =>
      match pastPrice with
      | none => .error .assertionError
      | some past => do
          let changePercent ← percentOfOrRaise past obs.last
          pure (pair.displayName ++ " moved " ++ Decimal.fixed3 true changePercent
            ++ "% over " ++ (rule.windowSeconds.map (fun n => toString n)).getD "None"
            ++ "s (threshold " ++ strOrNone rule.percent ++ "%, direction "
            ++ directionOrBoth rule ++ "; " ++ past.str ++ " -> " ++ obs.last.str
            ++ " at " ++ timestamp ++ ")")
  | .spreadWiden => do
      let spreadPercent ← percentOfOrRaise obs.bid obs.ask
      pure (pair.displayName ++ " spread widened to "
        ++ Decimal.fixed3 false spreadPercent ++ "% (threshold "
        ++ strOrNone rule.percent ++ "%; bid=" ++ obs.bid.str ++ " ask="
        ++ obs.ask.str ++ " at " ++ timestamp ++ ")")
  | .absoluteBelow =>
      .ok (pair.displayName ++ " dropped below " ++ strOrNone rule.threshold
        ++ " (observed " ++ obs.last.str ++ " at " ++ timestamp ++ ")")
  | .absoluteAbove =>
      .ok (pair.displayName ++ " rose above " ++ strOrNone rule.threshold
        ++ " (observed " ++ obs.last.str ++ " at " ++ timestamp ++ ")")

/-- The object dumped into an outbox event. -/
def alertPayload (pair : Pair) (rule : AlertRule) (obs : Observation)
    (zscoreResult : Option (ZScoreResult rt)) (pastPrice : Option Decimal)
    (notificationId : Uuid) (message : String) : Payload :=
  { notificationId
    ruleId := rule.id
    pairId := pair.id
    pairDisplayName := pair.displayName
    ruleType := rule.ruleType
    threshold := rule.threshold.map Decimal.str
    percent := rule.percent.map Decimal.str
    windowSeconds := rule.windowSeconds
    sigma := rule.sigma.map Decimal.str
    direction := rule.direction
    zScore :=
      if rule.ruleType = .zscoreMove then
        (zscoreResult.bind ZScoreResult.z).map rt.repr
      else none
    pastPrice := pastPrice.map Decimal.str
    bidPrice := if rule.ruleType = .spreadWiden then some obs.bid.str else none
    askPrice := if rule.ruleType = .spreadWiden then some obs.ask.str else none
    detectedPrice := obs.last.str
    triggeredAt := obs.observedAt
    message }

/-! ## Evaluation -/

/-- `_fetch_price_at_or_before` -/
def fetchPriceAtOrBefore (pair : Pair) (cutoff : Instant) : Tx (Option Decimal) :=
  Tx.query (fun db => db.priceAtOrBefore pair.id cutoff)

/-- `_fetch_recent_prices`: the newest rows, returned oldest first. -/
def fetchRecentPrices (pair : Pair) (limit : Nat) : Tx (List Decimal) := do
  let pricesDesc ← Tx.query (fun db => db.recentPrices pair.id limit)
  pure pricesDesc.reverse

/-- The zscore part of the candidate stage: one shared score per pair. -/
def zscoreCandidates (settings : Settings) (pair : Pair) (rules : List AlertRule) :
    Tx (Option (ZScoreResult rt) × List AlertRule) :=
  if rules.isEmpty then pure (none, [])
  else do
    let prices ← fetchRecentPrices pair (settings.zscoreWindow + 2)
    let result ← Tx.lift (computeZscore rt prices settings.zscoreWindow
      settings.zscoreMinObservations)
    pure (result, rules.filter (fun rule =>
      zscoreRuleFires rt rule result settings.zscoreZeroVarianceMinPercent))

/-- The past price of a window: remembered, or looked up. -/
def pastPriceOf (pair : Pair) (obs : Observation)
    (pastPriceByWindow : Dict Int (Option Decimal)) (window : Int) :
    Tx (Option Decimal) :=
  match pastPriceByWindow.get? window with
  | some pastPrice => pure pastPrice
  | none => fetchPriceAtOrBefore pair (obs.observedAt - seconds window)

/-- The percent_change part: the past price is looked up once per distinct
    `window_seconds` and remembered per rule. -/
def percentChangeCandidates (pair : Pair) (obs : Observation) :
    List AlertRule → Dict Int (Option Decimal) → Dict Uuid (Option Decimal) →
      Tx (Dict Uuid (Option Decimal) × List AlertRule)
  | [], _, pastPriceByRuleId => pure (pastPriceByRuleId, [])
  | rule :: rest, pastPriceByWindow, pastPriceByRuleId =>
      match rule.windowSeconds with
      | none => Script.fail .typeError
      | some window => do
          let pastPrice ← pastPriceOf pair obs pastPriceByWindow window
          let (byRuleId, fired) ← percentChangeCandidates pair obs rest
            (pastPriceByWindow.set window pastPrice)
            (pastPriceByRuleId.set rule.id pastPrice)
          pure (byRuleId,
            if percentChangeRuleFires rule obs.last pastPrice then rule :: fired
            else fired)

/-- What the candidate stage hands to the firing loop. -/
structure Candidates where
  zscoreResult : Option (ZScoreResult rt)
  pastPriceByRuleId : Dict Uuid (Option Decimal)
  rules : List AlertRule

/-- The candidate stage of `evaluate_rules_for_pair`. -/
def selectCandidates (settings : Settings) (pair : Pair) (obs : Observation)
    (pairRules : PairRules) : Tx (Candidates rt) := do
  let absolute := matchingAbsoluteRules pairRules.absoluteBelow obs.last
    ++ matchingAbsoluteRules pairRules.absoluteAbove obs.last
  let (zscoreResult, zscore) ← zscoreCandidates rt settings pair pairRules.zscoreMove
  let (pastPriceByRuleId, percentChange) ←
    percentChangeCandidates pair obs pairRules.percentChange [] []
  let spread := pairRules.spreadWiden.filter (fun rule =>
    spreadWidenRuleFires rule obs.bid obs.ask)
  pure ⟨zscoreResult, pastPriceByRuleId, absolute ++ zscore ++ percentChange ++ spread⟩

/-- The notification a candidate is recorded as. -/
def newNotification (pair : Pair) (obs : Observation) (rule : AlertRule)
    (suppressed : Bool) : NewNotification :=
  { ruleId := rule.id
    pairId := pair.id
    type := rule.ruleType
    detectedPrice := obs.last
    detectedStateHash := computeDetectedStateHash rt rule obs.last obs.observedAt
    idempotencyKey := stateKey rt pair.id rule obs.last obs.observedAt
    status := if suppressed then .suppressedCooldown else .pending }

/-- The notification object after its flush; its price is not read back. -/
def flushed (g : Generated) (n : NewNotification) : Notification :=
  { n with id := g.id, triggeredAt := g.now, sentAt := none }

/-- The outbox event of a fire that is not suppressed. -/
def addOutboxEvent (pair : Pair) (obs : Observation) (c : Candidates rt)
    (rule : AlertRule) (notificationId : Uuid) : Tx Unit := do
  let pastPrice := (c.pastPriceByRuleId.get? rule.id).join
  let message ← Tx.lift (formatMessage rt pair rule obs c.zscoreResult pastPrice)
  Tx.write (.addOutboxEvent notificationId
    (alertPayload rt pair rule obs c.zscoreResult pastPrice notificationId message))

/-- What follows a flushed notification. -/
def finishFire (pair : Pair) (obs : Observation) (generation : Nat)
    (c : Candidates rt) (rule : AlertRule) (suppressed : Bool)
    (notification : NewNotification) (g : Generated) : Tx (Option Notification) := do
  if suppressed then pure () else addOutboxEvent rt pair obs c rule g.id
  Tx.mem (.setLastFiredAt generation rule.id obs.observedAt)
  Tx.write (.setRuleLastFiredAt rule.id obs.observedAt)
  pure (some (flushed g notification))

/-- One pass of the firing loop, for a rule object of the given load. -/
def fireRule (pair : Pair) (obs : Observation) (generation : Nat)
    (c : Candidates rt) (rule : AlertRule) : Tx (Option Notification) := do
  let existing ← Tx.query (fun db =>
    db.notificationWithKey (stateKey rt pair.id rule obs.last obs.observedAt))
  match existing with
  | some _ => pure none
  | none => do
      let lastFiredAt ← Tx.mem (.getLastFiredAt generation rule.id)
      let suppressed := inCooldown { rule with lastFiredAt } obs.observedAt
      let notification := newNotification rt pair obs rule suppressed
      -- The insert runs in a savepoint: a lost race or a missing foreign row
      -- rolls back to it, and the loop goes on.
      let inserted ← Tx.insert (.addNotification notification)
      match inserted with
      | none => pure none
      | some g => finishFire rt pair obs generation c rule suppressed notification g

/-- The firing loop. -/
def fireRules (pair : Pair) (obs : Observation) (generation : Nat)
    (c : Candidates rt) : List AlertRule → Tx (List Notification)
  | [] => pure []
  | rule :: rest => do
      let created ← fireRule rt pair obs generation c rule
      let createdRest ← fireRules pair obs generation c rest
      pure (created.toList ++ createdRest)

/-- `evaluate_rules_for_pair` -/
def evaluateRulesForPair (settings : Settings) (pair : Pair) (obs : Observation) :
    Tx (List Notification) := do
  let (generation, pairRules) ← Tx.mem (.rulesForPair pair.id)
  let c ← selectCandidates rt settings pair obs pairRules
  fireRules rt pair obs generation c c.rules

end Dropwatch.Evaluator
