import Dropwatch.Session

/-! # The outbox publisher — `workers/outbox_publisher.py`

    One tick: read the due events, hand each to SNS, record what happened, and
    commit once at the end. -/

namespace Dropwatch.Publisher

open Transact RuleIndex

/-- `TICK_INTERVAL_SECONDS` -/
def tickIntervalSeconds : Int := 5

/-- `BATCH_SIZE` -/
def batchSize : Nat := 20

/-- `SNS_SUBJECT_MAX_LENGTH` -/
def snsSubjectMaxLength : Nat := 100

/-- `backoff_seconds` -/
def backoffSeconds (settings : Settings) (publishAttempts : Nat) : Int :=
  min (settings.outboxBackoffBaseSeconds * 2 ^ (publishAttempts - 1))
    settings.outboxBackoffMaxSeconds

/-- An event that has not been published and whose next attempt is not in the
    future. -/
def isDue (now : Instant) (e : OutboxEvent) : Bool :=
  e.publishedAt.isNone
    && (match e.nextAttemptAt with
      | none => true
      | some t => t ≤ now)

/-- The order in which a query comes upon rows.  Nothing fixes it, and it is the order of
    those with one `created_at`, as the events of one transaction have. -/
structure Scan where
  order : List OutboxEvent → List OutboxEvent
  perm : ∀ rows, (order rows).Perm rows

/-- Row by row, as they were added. -/
def Scan.inTurn : Scan := ⟨id, fun _ => .refl _⟩

/-- The query of `_get_due_events`: oldest first, at most a batch. -/
def dueEvents (scan : Scan) (db : Database) (now : Instant) : List OutboxEvent :=
  ((scan.order (db.outboxEvents.filter (isDue now))).insertionSort
    (fun a b => a.createdAt ≤ b.createdAt)).take batchSize

/-- A due event is an unpublished event of the outbox. -/
theorem mem_dueEvents {scan : Scan} {db : Database} {now : Instant} {e : OutboxEvent}
    (h : e ∈ dueEvents scan db now) : e ∈ db.outboxEvents ∧ e.publishedAt = none := by
  have hsorted := (List.mem_insertionSort _).mp (List.mem_of_mem_take h)
  obtain ⟨hmem, hdue⟩ := List.mem_filter.mp ((scan.perm _).mem_iff.mp hsorted)
  refine ⟨hmem, ?_⟩
  rw [isDue, Bool.and_eq_true] at hdue
  simpa using hdue.1

/-- `_get_due_events` -/
def getDueEvents (scan : Scan) : Tx (List OutboxEvent) := do
  let now ← Tx.ask .utcNow
  Tx.query (fun db => dueEvents scan db now)

/-- The subject line, cut to what SNS takes. -/
def subjectOf (e : OutboxEvent) : String :=
  String.ofList (("dropwatch alert: " ++ e.payload.pairDisplayName).toList.take
    snsSubjectMaxLength)

/-- `str(exc)[:2000]` -/
def truncateError (text : String) : String := String.ofList (text.toList.take 2000)

section Tick

variable (settings : Settings) (topicArn : String)

/-- The loop body for one event: whether it was published. -/
def publishEvent (now : Instant) (e : OutboxEvent) : Tx Bool := do
  let failure ← Tx.ask (.publish e.notificationId topicArn (subjectOf e) e.payload.message)
  match failure with
  | some text => do
      let attempts := e.publishAttempts + 1
      Tx.write (.setEventFailed e.notificationId attempts (truncateError text)
        (now + seconds (backoffSeconds settings attempts)))
      pure false
  | none => do
      Tx.write (.setEventPublished e.notificationId now)
      let notification ← Tx.query (fun db =>
        db.notifications.find? (fun n => n.id == e.notificationId))
      match notification with
      | none => Script.fail .attributeError
      | some _ => do
          Tx.write (.setNotificationSent e.notificationId now)
          pure true

/-- The loop over the due events; it returns the number published. -/
def publishAll (now : Instant) : List OutboxEvent → Tx Nat
  | [] => pure 0
  | e :: rest => do
      let published ← publishEvent settings topicArn now e
      let n ← publishAll now rest
      pure (n + if published then 1 else 0)

/-- `publish_pending` -/
def publishPending (scan : Scan) : Tx Nat := do
  let due ← getDueEvents scan
  if due.isEmpty then pure 0
  else do
    let now ← Tx.ask .utcNow
    let published ← publishAll settings topicArn now due
    Tx.commit
    pure published

/-! ## What a tick can do -/

/-- It reads, publishes, commits, and writes down what became of the events. -/
def publishCommand : ∀ β : Type, Cmd Database Write Generated MemOp ExtOp β → Prop
  | _, .query _ => True
  | _, .write (.setEventFailed _ _ _ _) => True
  | _, .write (.setEventPublished _ _) => True
  | _, .write (.setNotificationSent _ _) => True
  | _, .commit => True
  | _, .ask _ => True
  | _, _ => False

theorem publishEvent_commands (now : Instant) (e : OutboxEvent) :
    (publishEvent settings topicArn now e).Sat publishCommand (fun _ => True) := by
  refine ⟨trivial, fun failure => ?_⟩
  cases failure with
  | some text => exact ⟨trivial, fun _ => trivial⟩
  | none =>
      refine ⟨trivial, fun _ => ⟨trivial, fun notification => ?_⟩⟩
      cases notification with
      | none => exact trivial
      | some n => exact ⟨trivial, fun _ => trivial⟩

theorem publishAll_commands (now : Instant) (events : List OutboxEvent) :
    (publishAll settings topicArn now events).Sat publishCommand (fun _ => True) := by
  induction events with
  | nil => exact trivial
  | cons e rest ih =>
      exact (publishEvent_commands settings topicArn now e).bind (fun _ _ =>
        ih.bind (fun _ _ => trivial))

theorem publishPending_commands (scan : Scan) :
    (publishPending settings topicArn scan).Sat publishCommand (fun _ => True) := by
  refine ⟨trivial, fun now => ⟨trivial, fun due => ?_⟩⟩
  show Script.Sat publishCommand _ (if due.isEmpty then pure 0 else _)
  split
  · exact trivial
  · refine ⟨trivial, fun now => ?_⟩
    exact (publishAll_commands settings topicArn now due).bind
      (fun _ _ => ⟨trivial, fun _ => trivial⟩)

end Tick

end Dropwatch.Publisher
