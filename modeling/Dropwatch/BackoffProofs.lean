import Mathlib.Data.List.Chain
import Dropwatch.Lib.Sorted
import Dropwatch.PublishProofs

/-! # The backoff of a failed event, and the next tick

    A tick reads the clock twice: in `_get_due_events`, and before it publishes.
    A failure is postponed from the second reading by `backoff_seconds` of the
    incremented attempt count; the next tick compares that with its own first
    reading, after the rest of the tick and the sleep.

    Nothing orders the two, since the first backoff is as long as the sleep.  The
    event stays out of the next tick exactly if that tick starts within the
    backoff, or if a whole batch of due events is ahead of it. -/

namespace Dropwatch.Publisher

open Transact RuleIndex

/-! ## A tick on its clocks -/

/-- What a tick meets: its two readings of the clock, the time it ends, the order its
    query comes upon the rows in, and what each publish call raises. -/
structure Tick where
  scan : Scan := .inTurn
  queried : Instant
  now : Instant
  ended : Instant
  outcome : Uuid → Option String

/-- The surroundings of a tick: whether the clock was read already. -/
structure Clocked where
  tick : Tick
  read : Bool

def Clocked.answer {β : Type} (e : ExtOp β) (w : Clocked) : β × Clocked :=
  match e with
  | .utcNow => (if w.read then w.tick.now else w.tick.queried, { w with read := true })
  | .uuid4 => (0, w)
  | .getQuotes _ => (none, w)
  | .deleteMessageBatch _ => ((), w)
  | .publish event _ _ _ => (w.tick.outcome event, w)
  | .sendMessage _ _ _ => ((), w)
  | .publishInvalidation _ _ => (none, w)

def clocked : Host Database Generated Clocked ExtOp where
  fresh := fun db w => ⟨db.freshId, w.tick.now⟩
  answer := Clocked.answer

/-- The state of a tick. -/
abbrev TickState := Store Database Memory Clocked

/-- One round of `run_forever`: the tables it finds, the tick, and whether a query or
    the commit raised. -/
structure Round where
  db : Database
  tick : Tick
  broken : Bool := false

/-- The due events that the round reads. -/
abbrev Round.due (a : Round) : List OutboxEvent := dueEvents a.tick.scan a.db a.tick.queried

section Loop

variable (settings : Settings) (topicArn : String)

/-- `publish_pending` in a session of its own. -/
def Round.run (a : Round) : Except PyError Nat × TickState :=
  Transact.run backend clocked (publishPending settings topicArn a.tick.scan)
    ⟨a.db, a.db, {}, ⟨a.tick, false⟩⟩

/-- What the round commits: nothing if it was broken. -/
def Round.after (a : Round) : Database :=
  if a.broken then a.db else (a.run settings topicArn).2.committed

/-- The clock does not run backwards within a tick, and `notification_id` is unique in
    the outbox. -/
structure Round.Sound (a : Round) : Prop where
  read : a.tick.queried ≤ a.tick.now
  ended : a.tick.now ≤ a.tick.ended
  ids : (eventIds a.db).Nodup

/-- The next round: the loop slept in between, and whoever else wrote to the outbox
    added events. -/
structure Follows (a b : Round) : Prop where
  slept : a.tick.ended + seconds tickIntervalSeconds ≤ b.tick.queried
  outbox : ∃ added, b.db.outboxEvents = (a.after settings topicArn).outboxEvents ++ added

/-- A run of the publisher loop. -/
structure LoopRun (rounds : List Round) : Prop where
  sound : ∀ a ∈ rounds, a.Sound
  follows : rounds.IsChain (Follows settings topicArn)

/-- The round tried to publish the event, the call raised, and the round returned, so
    that the failure is recorded. -/
structure FailedIn (a : Round) (e : OutboxEvent) : Prop where
  due : e ∈ a.due
  raised : (a.tick.outcome e.notificationId).isSome
  sound : a.broken = false
  returned : (a.run settings topicArn).1.isOk

end Loop

/-- The due events that are read before `e`: the older ones, and those of its instant
    that the query comes upon first. -/
def dueBefore (scan : Scan) (db : Database) (now : Instant) (e : OutboxEvent) : Nat :=
  let due := scan.order (db.outboxEvents.filter (isDue now))
  (due.takeWhile (fun x => x.notificationId != e.notificationId)).countP
      (fun x => decide (x.createdAt ≤ e.createdAt))
    + (due.dropWhile (fun x => x.notificationId != e.notificationId)).countP
      (fun x => decide (x.createdAt < e.createdAt))

/-- A due event splits the due ones into those above it and those below it. -/
theorem dueBefore_split {scan : Scan} {db : Database} {now : Instant} {x : OutboxEvent}
    {above below : List OutboxEvent}
    (hd : ((scan.order (db.outboxEvents.filter (isDue now))).map
      fun e => e.notificationId).Nodup)
    (hsplit : scan.order (db.outboxEvents.filter (isDue now)) = above ++ x :: below) :
    dueBefore scan db now x
      = above.countP (fun y => decide (y.createdAt ≤ x.createdAt))
        + below.countP (fun y => !decide (x.createdAt ≤ y.createdAt)) := by
  rw [hsplit, List.map_append, List.map_cons, List.nodup_append] at hd
  have habove : ∀ y ∈ above, (y.notificationId != x.notificationId) = true := by
    intro y hy
    rw [bne_iff_ne]
    exact hd.2.2 _ (List.mem_map_of_mem hy) _ List.mem_cons_self
  have hstrict : (fun y : OutboxEvent => decide (y.createdAt < x.createdAt))
      = fun y => !decide (x.createdAt ≤ y.createdAt) := by
    funext y
    rw [← decide_not, decide_eq_decide, Int.not_le]
  rw [dueBefore, hsplit, List.takeWhile_append_of_pos habove, List.dropWhile_append_of_pos habove,
    List.takeWhile_cons_of_neg (by simp), List.dropWhile_cons_of_neg (by simp), List.append_nil,
    List.countP_cons_of_neg (by simp), hstrict]

/-! ## What a tick records -/

/-- What a tick makes of an event it publishes. -/
def recorded (settings : Settings) (tick : Tick) (e : OutboxEvent) : OutboxEvent :=
  match tick.outcome e.notificationId with
  | some text =>
      { e with
        publishAttempts := e.publishAttempts + 1
        lastError := some (truncateError text)
        nextAttemptAt := some (tick.now + seconds (backoffSeconds settings (e.publishAttempts + 1))) }
  | none => { e with publishedAt := some tick.now }

section Tick

variable {settings : Settings} {topicArn : String} {tick : Tick}

theorem notificationId_recorded (e : OutboxEvent) :
    (recorded settings tick e).notificationId = e.notificationId := by
  rw [recorded]
  split
  · rfl
  · rfl

theorem createdAt_recorded (e : OutboxEvent) :
    (recorded settings tick e).createdAt = e.createdAt := by
  rw [recorded]
  split
  · rfl
  · rfl

/-- The row of the event is recorded, and the rows of other events are left alone. -/
structure Records (settings : Settings) (tick : Tick) (e : OutboxEvent)
    (rows rows' : List OutboxEvent) : Prop where
  self : e ∈ rows → recorded settings tick e ∈ rows'
  others : ∀ x ∈ rows, x.notificationId ≠ e.notificationId → x ∈ rows'

theorem Records.updateWhere {e : OutboxEvent} {f : OutboxEvent → OutboxEvent}
    (rows : List OutboxEvent) (hf : f e = recorded settings tick e) :
    Records settings tick e rows
      (Dropwatch.updateWhere (fun x => x.notificationId == e.notificationId) f rows) where
  self := by
    intro he
    refine List.mem_map.mpr ⟨e, he, ?_⟩
    rw [if_pos (beq_self_eq_true e.notificationId), hf]
  others := by
    intro x hx hne
    refine List.mem_map.mpr ⟨x, hx, ?_⟩
    rw [if_neg (by simpa using hne)]

theorem publishEvent_ok {e : OutboxEvent} {s s' : TickState} {published : Bool}
    (hs : s.env = ⟨tick, true⟩)
    (h : run backend clocked (publishEvent settings topicArn tick.now e) s = (.ok published, s')) :
    s'.env = ⟨tick, true⟩
      ∧ Records settings tick e s.view.outboxEvents s'.view.outboxEvents := by
  obtain ⟨committed, view, mem, env⟩ := s
  obtain rfl : env = ⟨tick, true⟩ := hs
  rw [publishEvent, run_ask_bind] at h
  cases hout : tick.outcome e.notificationId with
  | some text =>
      simp only [clocked, Clocked.answer, hout, Script.call_bind, run_write, Script.pure_eq,
        run_done] at h
      obtain rfl := (Prod.mk.inj h).2
      exact ⟨rfl, Records.updateWhere _ (by rw [recorded, hout])⟩
  | none =>
      simp only [clocked, Clocked.answer, hout, Script.call_bind, run_write, run_query] at h
      have hrecords : Records settings tick e view.outboxEvents _ :=
        Records.updateWhere (f := fun x => { x with publishedAt := some tick.now }) view.outboxEvents
          (by rw [recorded, hout])
      split at h
      · cases (Prod.mk.inj h).1
      · obtain rfl := (Prod.mk.inj h).2
        exact ⟨rfl, hrecords⟩

/-- Every event of the loop is recorded, since they are distinct. -/
theorem publishAll_ok {events : List OutboxEvent} {s s' : TickState} {n : Nat}
    (hs : s.env = ⟨tick, true⟩) (hd : (events.map fun e => e.notificationId).Nodup)
    (h : run backend clocked (publishAll settings topicArn tick.now events) s = (.ok n, s')) :
    (∀ x ∈ s.view.outboxEvents, x.notificationId ∉ events.map (fun e => e.notificationId) →
        x ∈ s'.view.outboxEvents)
      ∧ ∀ e ∈ events, e ∈ s.view.outboxEvents → recorded settings tick e ∈ s'.view.outboxEvents := by
  induction events generalizing s n with
  | nil =>
      obtain rfl := (Prod.mk.inj h).2
      exact ⟨fun x hx _ => hx, fun e he => absurd he List.not_mem_nil⟩
  | cons e rest ih =>
      obtain ⟨hne, hrest⟩ := List.nodup_cons.mp hd
      obtain ⟨published, s₁, hone, h'⟩ := run_bind_inv backend clocked h
      obtain ⟨m, s₂, hall, h''⟩ := run_bind_inv backend clocked h'
      obtain rfl := (Prod.mk.inj h'').2
      obtain ⟨henv, hrecords⟩ := publishEvent_ok hs hone
      obtain ⟨hothers, hevents⟩ := ih henv hrest hall
      refine ⟨?_, ?_⟩
      · intro x hx hnot
        rw [List.map_cons, List.mem_cons, not_or] at hnot
        exact hothers x (hrecords.others x hx hnot.1) hnot.2
      · intro x hx hrow
        rcases List.mem_cons.mp hx with rfl | hx
        · -- The rest of the loop is about other events.
          refine hothers _ (hrecords.self hrow) ?_
          rw [notificationId_recorded]
          exact hne
        · refine hevents x hx (hrecords.others x hrow ?_)
          intro heq
          exact hne (List.mem_map.mpr ⟨x, hx, heq⟩)

end Tick

section Loop

variable {settings : Settings} {topicArn : String} {a b : Round} {e : OutboxEvent}

/-- A failed event is due again when its backoff is over. -/
theorem isDue_recorded (h : FailedIn settings topicArn a e) (now : Instant) :
    isDue now (recorded settings a.tick e) = true
      ↔ a.tick.now + seconds (backoffSeconds settings (e.publishAttempts + 1)) ≤ now := by
  obtain ⟨text, htext⟩ := Option.isSome_iff_exists.mp h.raised
  have hunpublished : e.publishedAt = none := (mem_dueEvents h.due).2
  rw [recorded, htext, isDue]
  simp [hunpublished]

/-- A round with due events publishes them, and then commits. -/
theorem run_round (h : a.due ≠ []) :
    a.run settings topicArn
      = run backend clocked
          (publishAll settings topicArn a.tick.now a.due >>= fun n =>
            Tx.commit >>= fun _ => pure n) ⟨a.db, a.db, {}, ⟨a.tick, true⟩⟩ := by
  have hread : a.run settings topicArn
      = run backend clocked (if a.due.isEmpty then pure 0
          else Tx.ask .utcNow >>= fun now =>
            publishAll settings topicArn now a.due >>= fun n =>
              Tx.commit >>= fun _ => pure n) ⟨a.db, a.db, {}, ⟨a.tick, true⟩⟩ := rfl
  rw [hread, if_neg (by simpa using h)]
  rfl

/-- A recorded failure is in the outbox that the round commits. -/
theorem FailedIn.recorded_mem (h : FailedIn settings topicArn a e) (ha : a.Sound) :
    recorded settings a.tick e ∈ (a.after settings topicArn).outboxEvents := by
  obtain ⟨n, s', hrun⟩ : ∃ n s', a.run settings topicArn = (.ok n, s') := by
    have hret := h.returned
    cases hr : a.run settings topicArn with
    | mk r s' =>
        rw [hr] at hret
        cases r with
        | ok n => exact ⟨n, s', rfl⟩
        | error x => cases hret
  rw [Round.after, h.sound, if_neg Bool.false_ne_true, hrun]
  rw [run_round (List.ne_nil_of_mem h.due)] at hrun
  obtain ⟨m, s₁, hall, hcommit⟩ := run_bind_inv backend clocked hrun
  obtain rfl := (Prod.mk.inj hcommit).2
  exact (publishAll_ok rfl (dueEvents_distinct ha.ids _ _) hall).2 e h.due (mem_dueEvents h.due).1

/-- The failed event is in the outbox of the next round as it was recorded. -/
theorem FailedIn.row_mem (h : FailedIn settings topicArn a e) (ha : a.Sound)
    (hab : Follows settings topicArn a b) : recorded settings a.tick e ∈ b.db.outboxEvents := by
  obtain ⟨added, hadded⟩ := hab.outbox
  rw [hadded]
  exact List.mem_append_left _ (h.recorded_mem ha)

/-- An event is read exactly if it is due and less than a batch is read before it. -/
theorem mem_dueEvents_iff {scan : Scan} {db : Database} {now : Instant} {x : OutboxEvent}
    (hids : (eventIds db).Nodup) (hx : x ∈ db.outboxEvents) :
    x ∈ dueEvents scan db now ↔ isDue now x = true ∧ dueBefore scan db now x < batchSize := by
  by_cases hdue : isDue now x = true
  · have hmem : x ∈ scan.order (db.outboxEvents.filter (isDue now)) :=
      (scan.perm _).mem_iff.mpr (List.mem_filter.mpr ⟨hx, hdue⟩)
    have hd : ((scan.order (db.outboxEvents.filter (isDue now))).map
        fun e => e.notificationId).Nodup :=
      ((scan.perm _).map _).nodup_iff.mpr (hids.sublist (List.filter_sublist.map _))
    obtain ⟨above, below, hsplit⟩ := List.append_of_mem hmem
    have : Std.Total (fun y z : OutboxEvent => y.createdAt ≤ z.createdAt) :=
      ⟨fun y z => Int.le_total y.createdAt z.createdAt⟩
    have : IsTrans OutboxEvent (fun y z => y.createdAt ≤ z.createdAt) :=
      ⟨fun _ _ _ => Int.le_trans⟩
    obtain ⟨before, after, hsorted, hlen⟩ := insertionSort_split
      (r := fun y z : OutboxEvent => y.createdAt ≤ z.createdAt) x above below
    rw [← hsplit] at hsorted
    have hnot : x ∉ before := by
      have hnodup := ((scan.order (db.outboxEvents.filter (isDue now))).perm_insertionSort
        (fun y z => y.createdAt ≤ z.createdAt)).nodup_iff.mpr (List.Nodup.of_map _ hd)
      rw [hsorted, List.nodup_append] at hnodup
      exact fun hx => hnodup.2.2 x hx x List.mem_cons_self rfl
    rw [dueEvents, hsorted, mem_take_split hnot, hlen, ← dueBefore_split hd hsplit]
    exact (and_iff_right hdue).symm
  · refine iff_of_false ?_ (fun h => hdue h.1)
    intro hmem
    have hsorted := (List.mem_insertionSort _).mp (List.mem_of_mem_take hmem)
    exact hdue (List.mem_filter.mp ((scan.perm _).mem_iff.mp hsorted)).2

/-- In the next round the event is read exactly if its recorded row is. -/
theorem FailedIn.due_iff (h : FailedIn settings topicArn a e) (ha : a.Sound) (hb : b.Sound)
    (hab : Follows settings topicArn a b) :
    e.notificationId ∈ b.due.map (fun x => x.notificationId)
      ↔ recorded settings a.tick e ∈ b.due := by
  constructor
  · intro hid
    obtain ⟨x, hx, hxid⟩ := List.mem_map.mp hid
    have heq := List.inj_on_of_nodup_map hb.ids (mem_dueEvents hx).1 (h.row_mem ha hab)
      (hxid.trans (notificationId_recorded e).symm)
    rw [← heq]
    exact hx
  · intro hx
    exact List.mem_map.mpr ⟨_, hx, notificationId_recorded e⟩

/-- The next round reads the event unless it starts within the backoff, or a batch of
    due events is ahead. -/
theorem FailedIn.skips_iff (h : FailedIn settings topicArn a e) (ha : a.Sound) (hb : b.Sound)
    (hab : Follows settings topicArn a b) :
    e.notificationId ∉ b.due.map (fun x => x.notificationId)
      ↔ b.tick.queried
          < a.tick.now + seconds (backoffSeconds settings (e.publishAttempts + 1))
        ∨ batchSize ≤ dueBefore b.tick.scan b.db b.tick.queried e := by
  have hplace : dueBefore b.tick.scan b.db b.tick.queried (recorded settings a.tick e)
      = dueBefore b.tick.scan b.db b.tick.queried e := by
    rw [dueBefore, dueBefore, notificationId_recorded, createdAt_recorded]
  rw [h.due_iff ha hb hab, mem_dueEvents_iff hb.ids (h.row_mem ha hab), isDue_recorded h, hplace,
    not_and_or, Int.not_le, Nat.not_lt]

theorem LoopRun.next {rounds : List Round} (h : LoopRun settings topicArn rounds)
    (hnext : [a, b] <:+: rounds) : a.Sound ∧ b.Sound ∧ Follows settings topicArn a b := by
  refine ⟨h.sound a (hnext.subset (by simp)), h.sound b (hnext.subset (by simp)), ?_⟩
  have hchain : [a, b].IsChain (Follows settings topicArn) :=
    List.IsChain.infix h.follows hnext
  exact (List.isChain_cons_cons.mp hchain).1

/-- In a run of the loop, an event that failed in a round is not among the due events of
    the next one exactly if that round starts within the backoff of the event, or if a
    batch of due events is ahead of it. -/
theorem skipsNext_iff {rounds : List Round} (h : LoopRun settings topicArn rounds)
    (hnext : [a, b] <:+: rounds) (hf : FailedIn settings topicArn a e) :
    e.notificationId ∉ b.due.map (fun x => x.notificationId)
      ↔ b.tick.queried
          < a.tick.now + seconds (backoffSeconds settings (e.publishAttempts + 1))
        ∨ batchSize ≤ dueBefore b.tick.scan b.db b.tick.queried e := by
  obtain ⟨ha, hb, hab⟩ := h.next hnext
  exact hf.skips_iff ha hb hab

/-! ## The default settings -/

/-- The sleep of the loop is no shorter than the first backoff. -/
theorem backoffSeconds_first : backoffSeconds {} 1 = tickIntervalSeconds := by decide

/-- A first failure is tried again in the very next round, unless a batch of due events
    is ahead of it. -/
theorem FailedIn.skips_iff_of_first (h : FailedIn {} topicArn a e) (ha : a.Sound)
    (hb : b.Sound) (hab : Follows {} topicArn a b) (hfirst : e.publishAttempts = 0) :
    e.notificationId ∉ b.due.map (fun x => x.notificationId)
      ↔ batchSize ≤ dueBefore b.tick.scan b.db b.tick.queried e := by
  have hover : ¬ b.tick.queried
      < a.tick.now + seconds (backoffSeconds {} (e.publishAttempts + 1)) := by
    rw [hfirst, Nat.zero_add, backoffSeconds_first, Int.not_lt]
    exact Int.le_trans (Int.add_le_add_right ha.ended _) hab.slept
  rw [h.skips_iff ha hb hab, or_iff_right hover]

end Loop

/-! ## A first failure -/

/-- SNS refuses the waiting event. -/
def refused : Round where
  db := Workers.waiting.frame.db
  tick :=
    { queried := seconds 1000000030
      now := seconds 1000000030
      ended := seconds 1000000031
      outcome := fun _ => some "throttled" }

/-- The next round, five seconds after the end of that one. -/
def retried : Round where
  db := refused.after {} "topic"
  tick :=
    { queried := seconds 1000000036
      now := seconds 1000000036
      ended := seconds 1000000036
      outcome := fun _ => none }

theorem loopRun_refused : LoopRun {} "topic" [refused, retried] where
  sound := by
    intro a ha
    rcases List.mem_pair.mp ha with rfl | rfl
    · exact ⟨by decide, by decide, by decide⟩
    · exact ⟨by decide, by decide, by decide +kernel⟩
  follows :=
    .cons_cons ⟨by decide, [], (List.append_nil _).symm⟩ (.singleton retried)

theorem failedIn_refused : FailedIn {} "topic" refused Workers.waitingEvent where
  due := by decide
  raised := rfl
  sound := rfl
  returned := by decide +kernel

theorem skipsNext_iff_refused :
    Workers.waitingEvent.notificationId ∉ retried.due.map (fun x => x.notificationId)
      ↔ retried.tick.queried < refused.tick.now
          + seconds (backoffSeconds {} (Workers.waitingEvent.publishAttempts + 1))
        ∨ batchSize ≤ dueBefore retried.tick.scan retried.db retried.tick.queried
          Workers.waitingEvent :=
  skipsNext_iff loopRun_refused (List.infix_refl _) failedIn_refused

/-- The event that failed in one round is due in the very next one. -/
theorem not_skipsNext_refused :
    LoopRun {} "topic" [refused, retried] ∧ FailedIn {} "topic" refused Workers.waitingEvent
      ∧ Workers.waitingEvent.notificationId
        ∈ retried.due.map (fun x => x.notificationId) :=
  ⟨loopRun_refused, failedIn_refused, by decide +kernel⟩

end Dropwatch.Publisher
