import Mathlib.Data.List.Sort
import Dropwatch.Lib.Script
import Dropwatch.Values

/-! # The tables, the writes and the constraints

    The relational state, as `db/models.py` declares it.  A column list follows
    its class; surrogate keys that no modelled function reads (those of
    `price_history` and `outbox_events`, whose rows are reached through the pair
    and through the unique `notification_id`) and `created_at` where nothing
    orders by it are left out.

    A `Write` is one statement of a session.  `Database.apply` stores it with
    the generated values (`uuid4` key, transaction time) and rounds every number
    to the scale of its column; `Database.violates` is the check of an insert
    against the unique and foreign keys.

    A number that its column cannot hold makes the flush raise.  Those that requests and
    snapshots bring are checked (`fitsNumeric`, `fitsInteger`) where they are flushed.  The
    prices and volumes of a quote are taken to fit `Numeric(24, 8)`, that is to be below
    1E+16; where one is not, the batch stops at that flush, which among the workers is one of
    the points at which a thread may stop anyhow. -/

namespace Dropwatch

open Transact

/-- The settings the modelled code reads, with their defaults. -/
structure Settings where
  discoveryActivateFloorUsd : Decimal := ⟨false, 100000, 0⟩
  discoveryDeactivateFloorUsd : Decimal := ⟨false, 75000, 0⟩
  defaultPollIntervalSeconds : Int := 60
  ruleIndexInvalidationChannel : String := "rule_index_invalidate"
  outboxBackoffBaseSeconds : Int := 5
  outboxBackoffMaxSeconds : Int := 300
  zscoreWindow : Nat := 60
  zscoreMinObservations : Nat := 30
  zscoreZeroVarianceMinPercent : Decimal := ⟨false, 5, -1⟩

/-- `IMPLEMENTED_RULE_TYPES` -/
inductive RuleType where
  | absoluteBelow
  | absoluteAbove
  | zscoreMove
  | percentChange
  | spreadWiden
  deriving DecidableEq, Repr

/-- The column value of a rule type. -/
def RuleType.str : RuleType → String
  | .absoluteBelow => "absolute_below"
  | .absoluteAbove => "absolute_above"
  | .zscoreMove => "zscore_move"
  | .percentChange => "percent_change"
  | .spreadWiden => "spread_widen"

structure Pair where
  id : Uuid
  krakenPairName : String
  displayName : String
  baseCurrency : String := ""
  quoteCurrency : String := ""
  pollIntervalSeconds : Int := 60
  isActive : Bool := true
  notional24h : Option Decimal := none
  currentLastPrice : Option Decimal := none
  currentBidPrice : Option Decimal := none
  currentAskPrice : Option Decimal := none
  lastCheckedAt : Option Instant := none
  deriving DecidableEq, Repr

structure PriceHistory where
  pairId : Uuid
  lastPrice : Decimal
  bidPrice : Decimal
  askPrice : Decimal
  volume24h : Option Decimal
  observedAt : Instant
  deriving DecidableEq, Repr

structure AlertRule where
  id : Uuid
  userId : Uuid := 0
  pairId : Uuid
  ruleType : RuleType
  threshold : Option Decimal := none
  percent : Option Decimal := none
  windowSeconds : Option Int := none
  sigma : Option Decimal := none
  direction : Option String := none
  cooldownSeconds : Int := 0
  isEnabled : Bool := true
  lastFiredAt : Option Instant := none
  deriving DecidableEq, Repr

/-- `Notification.status` -/
inductive Status where
  | pending
  | suppressedCooldown
  | sent
  deriving DecidableEq, Repr

/-- The columns of a notification that the evaluator sets. -/
structure NewNotification where
  ruleId : Uuid
  pairId : Uuid
  type : RuleType
  detectedPrice : Decimal
  detectedStateHash : String
  idempotencyKey : String
  status : Status
  deriving DecidableEq, Repr

structure Notification extends NewNotification where
  id : Uuid
  triggeredAt : Instant
  sentAt : Option Instant
  deriving DecidableEq, Repr

/-- The JSON object an outbox event carries.  `triggeredAt` is kept as the
    instant; the text has its ISO form. -/
structure Payload where
  notificationId : Uuid
  ruleId : Uuid
  pairId : Uuid
  pairDisplayName : String
  ruleType : RuleType
  threshold : Option String
  percent : Option String
  windowSeconds : Option Int
  sigma : Option String
  direction : Option String
  zScore : Option String
  pastPrice : Option String
  bidPrice : Option String
  askPrice : Option String
  detectedPrice : String
  triggeredAt : Instant
  message : String
  deriving DecidableEq, Repr

structure OutboxEvent where
  notificationId : Uuid
  payload : Payload
  publishAttempts : Nat
  publishedAt : Option Instant
  nextAttemptAt : Option Instant
  lastError : Option String
  createdAt : Instant
  deriving DecidableEq, Repr

structure User where
  id : Uuid
  contact : String
  deriving DecidableEq, Repr

structure Database where
  users : List User := []
  pairs : List Pair := []
  priceHistory : List PriceHistory := []
  alertRules : List AlertRule := []
  notifications : List Notification := []
  outboxEvents : List OutboxEvent := []
  deriving DecidableEq, Repr

/-- The values a write gets from its surroundings: the `uuid4` default of a
    primary key and Postgres's `now()`, the time of the transaction. -/
structure Generated where
  id : Uuid
  now : Instant
  deriving DecidableEq, Repr

/-- The columns an UPDATE of a rule sets; `some none` is an explicit null. -/
structure RuleChanges where
  threshold : Option (Option Decimal) := none
  percent : Option (Option Decimal) := none
  windowSeconds : Option (Option Int) := none
  sigma : Option (Option Decimal) := none
  direction : Option (Option String) := none
  cooldownSeconds : Option Int := none
  isEnabled : Option Bool := none
  deriving DecidableEq, Repr

/-- `Decimal` attributes are compared by value. -/
def sameNumber (a b : Option Decimal) : Bool := a.map Decimal.toRat == b.map Decimal.toRat

/-- The write statements of the modelled sessions.  An UPDATE of a loaded object
    leaves out the columns whose attribute was assigned the loaded value; those of
    `setPairObservation` are `none`. -/
inductive Write where
  | addPriceHistory (row : PriceHistory)
  | setPairObservation (pairId : Uuid) (last bid ask : Option Decimal) (at_ : Instant)
  | addAlertRule (rule : AlertRule)
  | setRuleLastFiredAt (ruleId : Uuid) (at_ : Instant)
  | addNotification (n : NewNotification)
  | addOutboxEvent (notificationId : Uuid) (payload : Payload)
  | setEventFailed (notificationId : Uuid) (attempts : Nat) (error : String)
      (nextAttemptAt : Instant)
  | setEventPublished (notificationId : Uuid) (at_ : Instant)
  | setNotificationSent (notificationId : Uuid) (at_ : Instant)
  | claimPair (pairId : Uuid) (at_ : Instant)
  | updateAlertRule (ruleId : Uuid) (changes : RuleChanges)
  deriving DecidableEq, Repr

/-- A row of `price_history` as the `Numeric(24, 8)` columns keep it. -/
def PriceHistory.stored (row : PriceHistory) : PriceHistory :=
  { row with
    lastPrice := row.lastPrice.numeric 8
    bidPrice := row.bidPrice.numeric 8
    askPrice := row.askPrice.numeric 8
    volume24h := row.volume24h.map (Decimal.numeric 8) }

/-- A rule as the columns of `alert_rules` keep it. -/
def AlertRule.stored (rule : AlertRule) : AlertRule :=
  { rule with
    threshold := rule.threshold.map (Decimal.numeric 8)
    percent := rule.percent.map (Decimal.numeric 4)
    sigma := rule.sigma.map (Decimal.numeric 3) }

/-- The given columns of a rule are set. -/
def RuleChanges.apply (c : RuleChanges) (rule : AlertRule) : AlertRule :=
  { rule with
    threshold := c.threshold.getD rule.threshold
    percent := c.percent.getD rule.percent
    windowSeconds := c.windowSeconds.getD rule.windowSeconds
    sigma := c.sigma.getD rule.sigma
    direction := c.direction.getD rule.direction
    cooldownSeconds := c.cooldownSeconds.getD rule.cooldownSeconds
    isEnabled := c.isEnabled.getD rule.isEnabled }

/-- The values as the columns of `alert_rules` keep them. -/
def RuleChanges.stored (c : RuleChanges) : RuleChanges :=
  { c with
    threshold := c.threshold.map (Option.map (Decimal.numeric 8))
    percent := c.percent.map (Option.map (Decimal.numeric 4))
    sigma := c.sigma.map (Option.map (Decimal.numeric 3)) }

/-- The columns of a rule, all of them set. -/
def AlertRule.columns (rule : AlertRule) : RuleChanges :=
  { threshold := some rule.threshold
    percent := some rule.percent
    windowSeconds := some rule.windowSeconds
    sigma := some rule.sigma
    direction := some rule.direction
    cooldownSeconds := some rule.cooldownSeconds
    isEnabled := some rule.isEnabled }

/-- What a `Numeric(precision, scale)` column takes: rounded to its scale, a number has at
    most `precision` digits; and no `numeric` has more than 16383 decimals. -/
def fitsNumeric (precision scale : Nat) (d : Decimal) : Bool :=
  decide ((d.numeric scale).coeff < 10 ^ precision) && decide (-16383 ≤ d.exp)

/-- What an `Integer` column takes: four bytes. -/
def fitsInteger (n : Int) : Bool := decide (-2147483648 ≤ n) && decide (n ≤ 2147483647)

/-- What a `String` column takes: any text without NUL. -/
def fitsString (s : String) : Bool := !s.toList.contains (Char.ofNat 0)

/-- Every set column of `alert_rules` takes its value. -/
def RuleChanges.fits (c : RuleChanges) : Bool :=
  c.threshold.join.all (fitsNumeric 24 8)
    && c.percent.join.all (fitsNumeric 8 4)
    && c.windowSeconds.join.all fitsInteger
    && c.sigma.join.all (fitsNumeric 6 3)
    && c.direction.join.all fitsString
    && c.cooldownSeconds.all fitsInteger

/-- The notification row of an insert. -/
def NewNotification.row (g : Generated) (n : NewNotification) : Notification :=
  { n with
    detectedPrice := n.detectedPrice.numeric 8
    id := g.id
    triggeredAt := g.now
    sentAt := none }

/-- The outbox row of an insert. -/
def outboxRow (g : Generated) (notificationId : Uuid) (payload : Payload) :
    OutboxEvent :=
  { notificationId, payload
    publishAttempts := 0
    publishedAt := none
    nextAttemptAt := none
    lastError := none
    createdAt := g.now }

/-- Change the rows of a table that satisfy a condition. -/
def updateWhere {α : Type} (cond : α → Bool) (f : α → α) (rows : List α) : List α :=
  rows.map (fun r => if cond r then f r else r)

/-- What the change of a row keeps, the change of the table keeps. -/
theorem map_updateWhere {α β : Type} {cond : α → Bool} {f : α → α} {key : α → β}
    (hf : ∀ a, key (f a) = key a) (rows : List α) :
    (updateWhere cond f rows).map key = rows.map key := by
  rw [updateWhere, List.map_map]
  refine List.map_congr_left ?_
  intro a _
  rw [Function.comp_apply]
  split
  · exact hf a
  · rfl

/-- A key is that of one row. -/
theorem filter_key {α κ : Type} [BEq κ] [LawfulBEq κ] {key : α → κ} {rows : List α}
    (h : (rows.map key).Nodup) {a : α} (ha : a ∈ rows) :
    rows.filter (fun b => key b == key a) = [a] := by
  induction rows with
  | nil => exact absurd ha List.not_mem_nil
  | cons b rest ih =>
      obtain ⟨hb, hrest⟩ := List.nodup_cons.mp h
      rcases List.mem_cons.mp ha with rfl | ha
      · have hnone : rest.filter (fun b => key b == key a) = [] := by
          refine List.filter_eq_nil_iff.mpr ?_
          intro c hc heq
          exact hb (beq_iff_eq.mp heq ▸ List.mem_map_of_mem hc)
        rw [List.filter_cons, if_pos (beq_self_eq_true (key a)), hnone]
      · have hne : ¬ (key b == key a) = true := by
          intro heq
          exact hb (beq_iff_eq.mp heq ▸ List.mem_map_of_mem ha)
        rw [List.filter_cons, if_neg hne, ih hrest ha]

/-- Two changes that agree on the rows they are applied to. -/
theorem updateWhere_congr {α : Type} {cond : α → Bool} {f g : α → α} {rows : List α}
    (h : ∀ a ∈ rows, cond a = true → f a = g a) : updateWhere cond f rows = updateWhere cond g rows := by
  refine List.map_congr_left ?_
  intro a ha
  split
  · next hcond => exact h a ha hcond
  · rfl

/-- A change that leaves the rows it is applied to as they are. -/
theorem updateWhere_id {α : Type} {cond : α → Bool} {f : α → α} {rows : List α}
    (h : ∀ a ∈ rows, cond a = true → f a = a) : updateWhere cond f rows = rows := by
  rw [updateWhere_congr (g := id) h]
  refine (List.map_congr_left ?_).trans (List.map_id rows)
  intro a _
  exact ite_self a

/-- The row that is found first is found changed, where the change does not hide it. -/
theorem find?_updateWhere_self {α : Type} {cond : α → Bool} {f : α → α}
    (hf : ∀ a, cond (f a) = cond a) (rows : List α) :
    (updateWhere cond f rows).find? cond = (rows.find? cond).map f := by
  induction rows with
  | nil => rfl
  | cons a rest ih =>
      rw [updateWhere, List.map_cons, List.find?_cons, List.find?_cons]
      cases ha : cond a with
      | true => simp only [if_true, hf, ha, Option.map_some]
      | false =>
          simp only [Bool.false_eq_true, if_false, ha]
          exact ih

namespace Database

/-- The tables after one write. -/
def apply (g : Generated) (w : Write) (db : Database) : Database :=
  match w with
  | .addPriceHistory row =>
      { db with priceHistory := db.priceHistory ++ [row.stored] }
  | .setPairObservation pairId last bid ask at_ =>
      { db with
        pairs := updateWhere (fun p => p.id == pairId)
          (fun p => { p with
            currentLastPrice := (last.map (Decimal.numeric 8)).or p.currentLastPrice
            currentBidPrice := (bid.map (Decimal.numeric 8)).or p.currentBidPrice
            currentAskPrice := (ask.map (Decimal.numeric 8)).or p.currentAskPrice
            lastCheckedAt := some at_ }) db.pairs }
  | .addAlertRule rule => { db with alertRules := db.alertRules ++ [rule.stored] }
  | .setRuleLastFiredAt ruleId at_ =>
      { db with
        alertRules := updateWhere (fun r => r.id == ruleId)
          (fun r => { r with lastFiredAt := some at_ }) db.alertRules }
  | .addNotification n =>
      { db with notifications := db.notifications ++ [n.row g] }
  | .addOutboxEvent notificationId payload =>
      { db with
        outboxEvents := db.outboxEvents ++ [outboxRow g notificationId payload] }
  | .setEventFailed notificationId attempts error nextAttemptAt =>
      { db with
        outboxEvents := updateWhere (fun e => e.notificationId == notificationId)
          (fun e => { e with
            publishAttempts := attempts
            lastError := some error
            nextAttemptAt := some nextAttemptAt }) db.outboxEvents }
  | .setEventPublished notificationId at_ =>
      { db with
        outboxEvents := updateWhere (fun e => e.notificationId == notificationId)
          (fun e => { e with publishedAt := some at_ }) db.outboxEvents }
  | .setNotificationSent notificationId at_ =>
      { db with
        notifications := updateWhere (fun n => n.id == notificationId)
          (fun n => { n with status := .sent, sentAt := some at_ })
          db.notifications }
  | .claimPair pairId at_ =>
      { db with
        pairs := updateWhere (fun p => p.id == pairId)
          (fun p => { p with lastCheckedAt := some at_ }) db.pairs }
  | .updateAlertRule ruleId changes =>
      { db with
        alertRules := updateWhere (fun r => r.id == ruleId) changes.stored.apply
          db.alertRules }

/-- The unique and foreign keys of `notifications`: a primary key in use, an
    `idempotency_key` in use, or a rule or pair that is not there. -/
def violates (g : Generated) (w : Write) (db : Database) : Bool :=
  match w with
  | .addNotification n =>
      db.notifications.any (fun m => m.id == g.id || m.idempotencyKey == n.idempotencyKey)
        || !db.alertRules.any (fun r => r.id == n.ruleId)
        || !db.pairs.any (fun p => p.id == n.pairId)
  | _ => false

/-- Two uncommitted writes that contend: inserts of one unique value and
    updates of one row wait for each other. -/
def clash : Generated × Write → Generated × Write → Bool
  | (g, .addNotification n), (g', .addNotification n') =>
      g.id == g'.id || n.idempotencyKey == n'.idempotencyKey
  | (_, .setPairObservation p _ _ _ _), (_, .setPairObservation p' _ _ _ _) => p == p'
  | (_, .setRuleLastFiredAt r _), (_, .setRuleLastFiredAt r' _) => r == r'
  | (_, .setEventFailed e _ _ _), (_, .setEventFailed e' _ _ _) => e == e'
  | (_, .setEventFailed e _ _ _), (_, .setEventPublished e' _) => e == e'
  | (_, .setEventPublished e _), (_, .setEventFailed e' _ _ _) => e == e'
  | (_, .setEventPublished e _), (_, .setEventPublished e' _) => e == e'
  | (_, .setNotificationSent n _), (_, .setNotificationSent n' _) => n == n'
  | (_, .claimPair p _), (_, .claimPair p' _) => p == p'
  | (_, .claimPair p _), (_, .setPairObservation p' _ _ _ _) => p == p'
  | (_, .setPairObservation p _ _ _ _), (_, .claimPair p' _) => p == p'
  | (_, .updateAlertRule r _), (_, .updateAlertRule r' _) => r == r'
  | (_, .updateAlertRule r _), (_, .setRuleLastFiredAt r' _) => r == r'
  | (_, .setRuleLastFiredAt r _), (_, .updateAlertRule r' _) => r == r'
  | _, _ => false

/-- A primary key that no notification has. -/
def freshId (db : Database) : Uuid :=
  db.notifications.foldr (fun n m => max (n.id + 1) m) 0

theorem lt_freshId {db : Database} {n : Notification}
    (h : n ∈ db.notifications) : n.id < db.freshId := by
  rw [freshId]
  revert h
  induction db.notifications with
  | nil => intro h; exact absurd h List.not_mem_nil
  | cons m rest ih =>
      intro h
      rw [List.foldr_cons]
      rcases List.mem_cons.mp h with heq | hrest
      · rw [heq]
        exact Nat.lt_of_lt_of_le (Nat.lt_succ_self _) (Nat.le_max_left _ _)
      · exact Nat.lt_of_lt_of_le (ih hrest) (Nat.le_max_right _ _)

/-! ## The queries -/

/-- `SELECT ... WHERE pairs.id IN ids` -/
def selectPairs (db : Database) (ids : List Uuid) : List Pair :=
  db.pairs.filter (fun p => ids.contains p.id)

/-- The rows of a pair, newest first; rows of one instant in table order. -/
def historyDesc (db : Database) (pairId : Uuid) : List PriceHistory :=
  (db.priceHistory.filter (fun r => r.pairId == pairId)).insertionSort
    (fun a b => b.observedAt ≤ a.observedAt)

/-- `ORDER BY observed_at DESC LIMIT limit` -/
def recentPrices (db : Database) (pairId : Uuid) (limit : Nat) : List Decimal :=
  ((db.historyDesc pairId).take limit).map PriceHistory.lastPrice

/-- `WHERE observed_at <= cutoff ORDER BY observed_at DESC LIMIT 1` -/
def priceAtOrBefore (db : Database) (pairId : Uuid) (cutoff : Instant) :
    Option Decimal :=
  ((db.historyDesc pairId).find? (fun r => r.observedAt ≤ cutoff)).map
    PriceHistory.lastPrice

/-- `SELECT id FROM notifications WHERE idempotency_key = key` -/
def notificationWithKey (db : Database) (key : String) : Option Uuid :=
  (db.notifications.find? (fun n => n.idempotencyKey == key)).map Notification.id

end Database

end Dropwatch
