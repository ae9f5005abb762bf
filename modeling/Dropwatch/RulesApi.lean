import Dropwatch.Evaluator

/-! # The rule endpoints — `api/routes/rules.py`

    `validateRuleFields` is the field check shared by every request that carries
    a rule definition.  `createRule` and `updateRule` commit a definition and then
    tell the workers, as best they can.  `backtestRule` replays a definition over
    stored history in a session that is never committed. -/

namespace Dropwatch.RulesApi

open Transact RuleIndex Evaluator

/-! ## Validation -/

/-- The column value of a rule type read back. -/
def ruleTypeOfStr (s : String) : Option RuleType :=
  if s = "absolute_below" then some .absoluteBelow
  else if s = "absolute_above" then some .absoluteAbove
  else if s = "zscore_move" then some .zscoreMove
  else if s = "percent_change" then some .percentChange
  else if s = "spread_widen" then some .spreadWiden
  else none

/-- `DIRECTIONS` -/
def directions : List String := ["up", "down", "both"]

/-- `f"{DIRECTIONS}"` -/
def directionsRepr : String := "('up', 'down', 'both')"

/-- `f"{IMPLEMENTED_RULE_TYPES}"` -/
def implementedRuleTypesRepr : String :=
  "('absolute_below', 'absolute_above', 'zscore_move', 'percent_change', 'spread_widen')"

theorem ruleTypeOfStr_str (t : RuleType) : ruleTypeOfStr t.str = some t := by
  cases t <;> decide

/-- A text that is read as a rule type is its column value. -/
theorem str_of_ruleTypeOfStr {s : String} {t : RuleType} (h : ruleTypeOfStr s = some t) :
    t.str = s := by
  rw [ruleTypeOfStr] at h
  split_ifs at h with hbelow habove hzscore hpercent hspread
  all_goals
    obtain rfl := Option.some.inj h
    symm
    assumption

/-- A field that must be given. -/
def requireField {α : Type} (name ruleType : String) (value : Option α) :
    Except String Unit :=
  if value.isNone then
    .error (name ++ " is required for rule_type='" ++ ruleType ++ "'")
  else .ok ()

/-- A direction that must be null or one of `DIRECTIONS`. -/
def requireDirection (ruleType : String) (direction : Option String) :
    Except String Unit :=
  match direction with
  | none => .ok ()
  | some d =>
      if directions.contains d then .ok ()
      else .error ("direction must be one of " ++ directionsRepr
        ++ " for rule_type='" ++ ruleType ++ "'")

/-- `_validate_rule_fields`; the error is the text of the `ValueError`. -/
def validateRuleFields (ruleType : String) (threshold percent : Option Decimal)
    (windowSeconds : Option Int) (sigma : Option Decimal)
    (direction : Option String) : Except String Unit :=
  match ruleTypeOfStr ruleType with
  | none => .error ("rule_type must be one of " ++ implementedRuleTypesRepr)
  | some .absoluteBelow => requireField "threshold" ruleType threshold
  | some .absoluteAbove => requireField "threshold" ruleType threshold
  | some .zscoreMove => do
      requireField "sigma" ruleType sigma
      requireDirection ruleType direction
  | some .percentChange => do
      requireField "percent" ruleType percent
      requireField "window_seconds" ruleType windowSeconds
      requireDirection ruleType direction
  | some .spreadWiden => requireField "percent" ruleType percent

/-- A check that is passed returns nothing. -/
theorem isOk_iff_eq_ok {x : Except String Unit} : x.isOk = true ↔ x = .ok () := by
  cases x with
  | ok u => exact ⟨fun _ => rfl, fun _ => rfl⟩
  | error e => exact ⟨(fun h => by cases h), fun h => by cases h⟩

/-- The check applied to a rule's own fields. -/
def validRule (rule : AlertRule) : Bool :=
  (validateRuleFields rule.ruleType.str rule.threshold rule.percent
    rule.windowSeconds rule.sigma rule.direction).isOk

/-- `HTTPException` -/
structure HttpError where
  statusCode : Nat
  detail : String
  deriving DecidableEq, Repr

/-! ## Creating and changing a rule -/

/-- `_publish_invalidation`: an exception of Redis is logged, no more. -/
def publishInvalidation (settings : Settings) (reason : String) : Tx Unit := do
  let _subscriberCount ← Tx.ask
    (.publishInvalidation settings.ruleIndexInvalidationChannel reason)
  pure ()

/-- `session.get(AlertRule, rule_id)` -/
def findRule (db : Database) (ruleId : Uuid) : Option AlertRule :=
  db.alertRules.find? (fun r => r.id == ruleId)

/-- The end of both requests: the commit, `session.refresh` and the signal. -/
def commitRule (settings : Settings) (ruleId : Uuid) (done : String) :
    Tx (Except HttpError AlertRule) := do
  Tx.commit
  let row ← Tx.query (fun db => findRule db ruleId)
  match row with
  | none => Script.fail .invalidRequestError
  | some rule => do
      publishInvalidation settings ("rule " ++ uuidStr ruleId ++ " " ++ done)
      pure (.ok rule)

/-- `CreateRuleRequest`, as its validators let it through. -/
structure CreateRuleRequest where
  userId : Uuid
  pairId : Uuid
  ruleType : RuleType
  threshold : Option Decimal := none
  percent : Option Decimal := none
  windowSeconds : Option Int := none
  sigma : Option Decimal := none
  direction : Option String := none
  cooldownSeconds : Int := 0
  isEnabled : Bool := true
  valid : (validateRuleFields ruleType.str threshold percent windowSeconds sigma
    direction).isOk = true := by decide
  cooldown_nonneg : 0 ≤ cooldownSeconds := by decide

/-- The fields of a `POST /rules` as they are read, before the validators. -/
structure RuleFields where
  userId : Uuid
  pairId : Uuid
  ruleType : String
  threshold : Option Decimal := none
  percent : Option Decimal := none
  windowSeconds : Option Int := none
  sigma : Option Decimal := none
  direction : Option String := none
  cooldownSeconds : Int := 0
  isEnabled : Bool := true

/-- `_validate_rule_fields` of a request. -/
def RuleFields.check (fields : RuleFields) : Except String Unit :=
  validateRuleFields fields.ruleType fields.threshold fields.percent fields.windowSeconds
    fields.sigma fields.direction

/-- What is checked is of an implemented type. -/
theorem RuleFields.typed {fields : RuleFields} (h : fields.check = .ok ()) :
    (ruleTypeOfStr fields.ruleType).isSome = true := by
  rw [RuleFields.check, validateRuleFields] at h
  cases ht : ruleTypeOfStr fields.ruleType with
  | none =>
      rw [ht] at h
      cases h
  | some t => rfl

theorem RuleFields.valid {fields : RuleFields} (h : fields.check = .ok ()) :
    (validateRuleFields ((ruleTypeOfStr fields.ruleType).get (RuleFields.typed h)).str
      fields.threshold fields.percent fields.windowSeconds fields.sigma
      fields.direction).isOk = true := by
  rw [str_of_ruleTypeOfStr (Option.some_get _).symm]
  rw [RuleFields.check] at h
  rw [h]
  rfl

/-- The validators of `CreateRuleRequest`: that of the field, then `_validate`. -/
def RuleFields.validate (fields : RuleFields) : Except String CreateRuleRequest :=
  if hcooldown : 0 ≤ fields.cooldownSeconds then
    match hcheck : fields.check with
    | .error detail => .error detail
    | .ok () =>
      .ok
        { userId := fields.userId
          pairId := fields.pairId
          ruleType := (ruleTypeOfStr fields.ruleType).get (RuleFields.typed hcheck)
          threshold := fields.threshold
          percent := fields.percent
          windowSeconds := fields.windowSeconds
          sigma := fields.sigma
          direction := fields.direction
          cooldownSeconds := fields.cooldownSeconds
          isEnabled := fields.isEnabled
          valid := RuleFields.valid hcheck
          cooldown_nonneg := hcooldown }
  else .error "Input should be greater than or equal to 0"

/-- The fields of a request. -/
def CreateRuleRequest.fields (body : CreateRuleRequest) : RuleFields :=
  { userId := body.userId
    pairId := body.pairId
    ruleType := body.ruleType.str
    threshold := body.threshold
    percent := body.percent
    windowSeconds := body.windowSeconds
    sigma := body.sigma
    direction := body.direction
    cooldownSeconds := body.cooldownSeconds
    isEnabled := body.isEnabled }

/-- A type that is not implemented is refused. -/
theorem RuleFields.validate_of_unknown {fields : RuleFields}
    (hcooldown : 0 ≤ fields.cooldownSeconds) (h : ruleTypeOfStr fields.ruleType = none) :
    fields.validate = .error ("rule_type must be one of " ++ implementedRuleTypesRepr) := by
  have hcheck : fields.check = .error ("rule_type must be one of " ++ implementedRuleTypesRepr) := by
    rw [RuleFields.check, validateRuleFields, h]
  rw [RuleFields.validate, dif_pos hcooldown]
  split
  · next detail hdetail =>
      rw [hcheck] at hdetail
      rw [Except.error.inj hdetail]
  · next hok =>
      cases hcheck.symm.trans hok

/-- The validators let the fields of requests through, and nothing else. -/
theorem RuleFields.validate_eq_ok_iff {fields : RuleFields} {body : CreateRuleRequest} :
    fields.validate = .ok body ↔ body.fields = fields := by
  constructor
  · intro h
    rw [RuleFields.validate] at h
    split at h
    · next hcooldown =>
        split at h
        · cases h
        · next hcheck =>
            obtain rfl := Except.ok.inj h
            rw [CreateRuleRequest.fields]
            simp only [str_of_ruleTypeOfStr (Option.some_get (RuleFields.typed hcheck)).symm]
    · cases h
  · rintro rfl
    have hcheck : body.fields.check = .ok () := isOk_iff_eq_ok.mp body.valid
    have hcooldown : 0 ≤ body.fields.cooldownSeconds := body.cooldown_nonneg
    rw [RuleFields.validate, dif_pos hcooldown]
    split
    · next detail hdetail => cases hcheck.symm.trans hdetail
    · next hok =>
        have htype : (ruleTypeOfStr body.ruleType.str).get (RuleFields.typed hok)
            = body.ruleType := Option.some.inj ((Option.some_get _).trans (ruleTypeOfStr_str _))
        obtain ⟨userId, pairId, ruleType⟩ := body
        simp only [CreateRuleRequest.fields, htype]

/-- The row of a request. -/
def CreateRuleRequest.rule (body : CreateRuleRequest) (id : Uuid) : AlertRule :=
  { id
    userId := body.userId
    pairId := body.pairId
    ruleType := body.ruleType
    threshold := body.threshold
    percent := body.percent
    windowSeconds := body.windowSeconds
    sigma := body.sigma
    direction := body.direction
    cooldownSeconds := body.cooldownSeconds
    isEnabled := body.isEnabled }

/-- The flush of a new rule, which its columns may refuse. -/
def addRule (rule : AlertRule) : Tx Unit :=
  if rule.columns.fits then Tx.write (.addAlertRule rule) else Script.fail .dataError

/-- `create_rule` -/
def createRule (settings : Settings) (body : CreateRuleRequest) :
    Tx (Except HttpError AlertRule) := do
  let pair ← Tx.query (fun db => db.pairs.find? (fun p => p.id == body.pairId))
  match pair with
  | none => pure (.error ⟨404, "pair " ++ uuidStr body.pairId ++ " not found"⟩)
  | some _ => do
      let user ← Tx.query (fun db => db.users.find? (fun u => u.id == body.userId))
      match user with
      | none => pure (.error ⟨404, "user " ++ uuidStr body.userId ++ " not found"⟩)
      | some _ => do
          let ruleId ← Tx.ask .uuid4
          addRule (body.rule ruleId)
          commitRule settings ruleId "created"

/-- `UpdateRuleRequest`: a field is absent, null or given. -/
structure UpdateRuleRequest where
  threshold : Option (Option Decimal) := none
  percent : Option (Option Decimal) := none
  windowSeconds : Option (Option Int) := none
  sigma : Option (Option Decimal) := none
  direction : Option (Option String) := none
  cooldownSeconds : Option (Option Int) := none
  isEnabled : Option (Option Bool) := none
  cooldown_nonneg : cooldownSeconds.join.all (fun c => decide (0 ≤ c)) = true := by decide

/-- A given value that differs from the loaded one. -/
def changed {α : Type} (same : α → α → Bool) (old : α) (given : Option α) : Option α :=
  given.filter (fun new => !same new old)

/-- The columns the flush of the changed object sets; `none` where one of them is
    set to a null it cannot hold. -/
def UpdateRuleRequest.changes (body : UpdateRuleRequest) (rule : AlertRule) :
    Option RuleChanges :=
  if body.cooldownSeconds = some none ∨ body.isEnabled = some none then none
  else
    some
      { threshold := changed sameNumber rule.threshold body.threshold
        percent := changed sameNumber rule.percent body.percent
        windowSeconds := changed (· == ·) rule.windowSeconds body.windowSeconds
        sigma := changed sameNumber rule.sigma body.sigma
        direction := changed (· == ·) rule.direction body.direction
        cooldownSeconds := changed (· == ·) rule.cooldownSeconds body.cooldownSeconds.join
        isEnabled := changed (· == ·) rule.isEnabled body.isEnabled.join }

/-- The flush of the changed object; without a changed attribute there is no UPDATE. -/
def flushRule (ruleId : Uuid) (changes : RuleChanges) : Tx Unit :=
  if changes = {} then pure ()
  else if changes.fits then Tx.write (.updateAlertRule ruleId changes)
  else Script.fail .dataError

/-- `update_rule` after the row is loaded. -/
def updateLoaded (settings : Settings) (rule : AlertRule) (body : UpdateRuleRequest) :
    Tx (Except HttpError AlertRule) :=
  match validateRuleFields rule.ruleType.str (body.threshold.getD rule.threshold)
      (body.percent.getD rule.percent) (body.windowSeconds.getD rule.windowSeconds)
      (body.sigma.getD rule.sigma) (body.direction.getD rule.direction) with
  | .error detail => pure (.error ⟨422, detail⟩)
  | .ok () =>
      match body.changes rule with
      | none => Script.fail .integrityError
      | some changes => do
          flushRule rule.id changes
          commitRule settings rule.id "updated"

/-- `update_rule` -/
def updateRule (settings : Settings) (ruleId : Uuid) (body : UpdateRuleRequest) :
    Tx (Except HttpError AlertRule) := do
  let loaded ← Tx.query (fun db => findRule db ruleId)
  match loaded with
  | none => pure (.error ⟨404, "rule " ++ uuidStr ruleId ++ " not found"⟩)
  | some rule => updateLoaded settings rule body

/-! ## Backtest -/

/-- `BacktestRequest`, its rule type already resolved by the validator. -/
structure BacktestRequest where
  pairId : Uuid
  ruleType : RuleType
  threshold : Option Decimal := none
  percent : Option Decimal := none
  windowSeconds : Option Int := none
  sigma : Option Decimal := none
  direction : Option String := none
  cooldownSeconds : Int := 0
  lookbackDays : Int

/-- `BacktestFireEvent` -/
structure Fire where
  triggeredAt : Instant
  detectedPrice : Decimal
  status : Status
  deriving DecidableEq, Repr

/-- `BacktestResponse`; `firesPerDay` is exact here. -/
structure BacktestResponse where
  pairId : Uuid
  ruleType : RuleType
  lookbackDays : Int
  observationsReplayed : Nat
  dataStart : Option Instant
  dataEnd : Option Instant
  fireCount : Nat
  firesPerDay : ℚ
  postCooldownFireCount : Nat
  fires : List Fire

/-- The unsaved rule of a request. -/
def BacktestRequest.rule (body : BacktestRequest) (id userId : Uuid) : AlertRule :=
  { id, userId
    pairId := body.pairId
    ruleType := body.ruleType
    threshold := body.threshold
    percent := body.percent
    windowSeconds := body.windowSeconds
    sigma := body.sigma
    direction := body.direction
    cooldownSeconds := body.cooldownSeconds
    isEnabled := true }

/-- The rows a backtest replays: those of the pair inside the lookback, oldest
    first. -/
def lookbackRows (db : Database) (pairId : Uuid) (cutoff : Instant) :
    List PriceHistory :=
  (db.priceHistory.filter (fun r => r.pairId == pairId && decide (cutoff ≤ r.observedAt))).insertionSort
    (fun a b => a.observedAt ≤ b.observedAt)

/-- What is evaluated for a stored row. -/
def rowObservation (row : PriceHistory) : Observation :=
  ⟨row.lastPrice, row.bidPrice, row.askPrice, row.observedAt⟩

/-- A created notification as a fire of the row that was replayed. -/
def fireOf (row : PriceHistory) (n : Notification) : Fire :=
  ⟨row.observedAt, n.detectedPrice, n.status⟩

section Backtest

variable (rt : Runtime) (settings : Settings)

/-- The replay loop. -/
def replay (pair : Pair) : List PriceHistory → Tx (List Fire)
  | [] => pure []
  | row :: rest => do
      let created ← evaluateRulesForPair rt settings pair (rowObservation row)
      let more ← replay pair rest
      pure (created.map (fireOf row) ++ more)

/-- The response for the replayed rows and their fires. -/
def respond (body : BacktestRequest) (rows : List PriceHistory) (fires : List Fire) :
    BacktestResponse :=
  let dataStart := rows.head?.map PriceHistory.observedAt
  let dataEnd := rows.getLast?.map PriceHistory.observedAt
  let spanDays : ℚ :=
    match dataStart, dataEnd with
    | some s, some e => ((e - s : Int) : ℚ) / 86400000000
    | _, _ => 0
  { pairId := body.pairId
    ruleType := body.ruleType
    lookbackDays := body.lookbackDays
    observationsReplayed := rows.length
    dataStart, dataEnd
    fireCount := fires.length
    firesPerDay := if 0 < spanDays then fires.length / spanDays else 0
    postCooldownFireCount := fires.countP (fun f => f.status = .pending)
    fires }

/-- `backtest_rule`, in a session that ends without a commit. -/
def backtestRule (body : BacktestRequest) :
    Tx (Except HttpError BacktestResponse) := do
  let pair ← Tx.query (fun db => db.pairs.find? (fun p => p.id == body.pairId))
  match pair with
  | none => pure (.error ⟨404, "pair " ++ uuidStr body.pairId ++ " not found"⟩)
  | some pair => do
      let user ← Tx.query (fun db => db.users.head?)
      match user with
      | none => pure (.error ⟨500, "no user seeded — run scripts/seed_user before "
          ++ "using the backtest endpoint"⟩)
      | some user => do
          let ruleId ← Tx.ask .uuid4
          let tempRule := body.rule ruleId user.id
          addRule tempRule
          let buckets ← Tx.lift (bucketRules [tempRule])
          Tx.mem (.install [tempRule] buckets)
          let now ← Tx.ask .utcNow
          let rows ← Tx.query (fun db =>
            lookbackRows db body.pairId (now - seconds (86400 * body.lookbackDays)))
          let fires ← replay rt settings pair rows
          pure (.ok (respond body rows fires))

end Backtest

end Dropwatch.RulesApi
