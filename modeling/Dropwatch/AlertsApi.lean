import Dropwatch.Lib.Paging
import Dropwatch.Tables

/-! # The alert history — `api/routes/alerts.py`

    `listAlerts` returns one page of a query over four joined tables.  The order of
    the rows is the database's choice, as far as the `ORDER BY` leaves it one. -/

namespace Dropwatch.AlertsApi

open Transact

/-- The column value of a status. -/
def statusStr : Status → String
  | .pending => "pending"
  | .suppressedCooldown => "suppressed_cooldown"
  | .sent => "sent"

/-- `AlertResponse` -/
structure AlertResponse where
  id : Uuid
  ruleId : Uuid
  pairId : Uuid
  pairDisplayName : String
  ruleType : RuleType
  threshold : Option Decimal
  detectedPrice : Decimal
  status : Status
  triggeredAt : Instant
  sentAt : Option Instant
  publishAttempts : Option Nat
  lastError : Option String
  nextAttemptAt : Option Instant
  publishedAt : Option Instant
  deriving DecidableEq, Repr

/-- The parameters that select alerts. -/
structure AlertFilter where
  pairId : Option Uuid := none
  ruleId : Option Uuid := none
  status : Option String := none

/-- The `WHERE` of a request; a parameter that is not given selects all. -/
def AlertFilter.selects (filter : AlertFilter) (n : Notification) : Bool :=
  filter.pairId.all (· == n.pairId) && filter.ruleId.all (· == n.ruleId)
    && filter.status.all (· == statusStr n.status)

/-- A row of the joined tables. -/
structure AlertRow where
  notification : Notification
  pairDisplayName : String
  threshold : Option Decimal
  outboxEvent : Option OutboxEvent

/-- The partners of a row in a `LEFT OUTER JOIN`. -/
def outerJoin {α : Type} (partners : List α) : List (Option α) :=
  if partners.isEmpty then [none] else partners.map some

/-- The rows of a notification: those of its pair and its rule, with its outbox event if
    there is one. -/
def joinedRows (db : Database) (n : Notification) : List AlertRow :=
  (db.pairs.filter (fun p => p.id == n.pairId)).flatMap fun pair =>
    (db.alertRules.filter (fun r => r.id == n.ruleId)).flatMap fun rule =>
      (outerJoin (db.outboxEvents.filter (fun e => e.notificationId == n.id))).map
        fun outboxEvent => ⟨n, pair.displayName, rule.threshold, outboxEvent⟩

/-- The notifications that a request asks for. -/
def selected (db : Database) (filter : AlertFilter) : List Notification :=
  db.notifications.filter filter.selects

/-- The rows that a request asks for, in no particular order. -/
def alertRows (db : Database) (filter : AlertFilter) : List AlertRow :=
  (selected db filter).flatMap (joinedRows db)

/-- `Notification.triggered_at` -/
def AlertRow.triggeredAt (row : AlertRow) : Instant := row.notification.triggeredAt

/-- A row as the response shows it. -/
def AlertRow.response (row : AlertRow) : AlertResponse where
  id := row.notification.id
  ruleId := row.notification.ruleId
  pairId := row.notification.pairId
  pairDisplayName := row.pairDisplayName
  ruleType := row.notification.type
  threshold := row.threshold
  detectedPrice := row.notification.detectedPrice
  status := row.notification.status
  triggeredAt := row.notification.triggeredAt
  sentAt := row.notification.sentAt
  publishAttempts := row.outboxEvent.map OutboxEvent.publishAttempts
  lastError := row.outboxEvent.bind OutboxEvent.lastError
  nextAttemptAt := row.outboxEvent.bind OutboxEvent.nextAttemptAt
  publishedAt := row.outboxEvent.bind OutboxEvent.publishedAt

/-- `list_alerts`, on the rows in the order that the database returns them in this time. -/
def listAlerts (db : Database) (filter : AlertFilter) (limit offset : Nat)
    (order : Ordered AlertRow.triggeredAt (alertRows db filter)) : List AlertResponse :=
  (page order.list limit offset).map AlertRow.response

end Dropwatch.AlertsApi
