import Dropwatch.BackoffProofs

/-! # No event waits for newer ones

    A tick takes the oldest due events, at most a batch of them.  So an event that is due
    waits for the unpublished events that are not newer than it, a batch of which leaves
    the outbox in every round that does not publish it, as long as SNS takes them.  What
    else happens to newer events does not matter: any number may be added, and the publish
    call may fail for any of them. -/

namespace Dropwatch.Publisher

open Transact

/-! ## What a round makes of the outbox -/

section Rows

variable {settings : Settings} {topicArn : String} {tick : Tick}

/-- The columns that the loop sets in the row of an event. -/
def mark (settings : Settings) (tick : Tick) (e row : OutboxEvent) : OutboxEvent :=
  match tick.outcome e.notificationId with
  | some text =>
      { row with
        publishAttempts := e.publishAttempts + 1
        lastError := some (truncateError text)
        nextAttemptAt := some (tick.now + seconds (backoffSeconds settings (e.publishAttempts + 1))) }
  | none => { row with publishedAt := some tick.now }

/-- The rows after the loop. -/
def markAll (settings : Settings) (tick : Tick) (events rows : List OutboxEvent) :
    List OutboxEvent :=
  events.foldl (fun rows e =>
    updateWhere (fun x => x.notificationId == e.notificationId) (mark settings tick e) rows) rows

/-- Every event has its notification. -/
def Announced (db : Database) : Prop :=
  ∀ x ∈ db.outboxEvents, ∃ n ∈ db.notifications, n.id = x.notificationId

variable (settings topicArn) in
/-- A published event whose notification is there does not raise. -/
theorem run_publishEvent {e : OutboxEvent} {s : TickState} (hs : s.env = ⟨tick, true⟩)
    (hn : ∃ n ∈ s.view.notifications, n.id = e.notificationId) :
    ∃ published s', run backend clocked (publishEvent settings topicArn tick.now e) s
        = (.ok published, s')
      ∧ s'.env = ⟨tick, true⟩ ∧ s'.committed = s.committed
      ∧ s'.view.outboxEvents = updateWhere (fun x => x.notificationId == e.notificationId)
          (mark settings tick e) s.view.outboxEvents
      ∧ s'.view.notifications.map Notification.id = s.view.notifications.map Notification.id := by
  obtain ⟨committed, view, mem, env⟩ := s
  obtain rfl : env = ⟨tick, true⟩ := hs
  rw [publishEvent, run_ask_bind]
  cases hout : tick.outcome e.notificationId with
  | some text =>
      simp only [clocked, Clocked.answer, hout, Script.call_bind, run_write, Script.pure_eq,
        run_done]
      refine ⟨_, _, rfl, rfl, rfl, ?_, rfl⟩
      refine updateWhere_congr ?_
      intro x _ _
      rw [mark, hout]
  | none =>
      simp only [clocked, Clocked.answer, hout, Script.call_bind, run_write, run_query]
      obtain ⟨n, hmem, hid⟩ := hn
      split
      · next hfind =>
          have hmissing := List.find?_eq_none.mp hfind n hmem
          rw [beq_iff_eq] at hmissing
          exact absurd hid hmissing
      · refine ⟨_, _, rfl, rfl, rfl, ?_, ?_⟩
        · refine updateWhere_congr ?_
          intro x _ _
          rw [mark, hout]
        · refine map_updateWhere ?_ view.notifications
          exact fun _ => rfl

variable (settings topicArn) in
theorem run_publishAll {events : List OutboxEvent} {s : TickState} (hs : s.env = ⟨tick, true⟩)
    (hn : ∀ e ∈ events, ∃ n ∈ s.view.notifications, n.id = e.notificationId) :
    ∃ m s', run backend clocked (publishAll settings topicArn tick.now events) s = (.ok m, s')
      ∧ s'.view.outboxEvents = markAll settings tick events s.view.outboxEvents := by
  induction events generalizing s with
  | nil => exact ⟨0, s, rfl, rfl⟩
  | cons e rest ih =>
      obtain ⟨published, s₁, hone, henv, -, hrows, hids⟩ :=
        run_publishEvent settings topicArn hs (hn e List.mem_cons_self)
      have hn' : ∀ x ∈ rest, ∃ n ∈ s₁.view.notifications, n.id = x.notificationId := by
        intro x hx
        obtain ⟨n, hmem, hid⟩ := hn x (List.mem_cons_of_mem _ hx)
        have hmem' := List.mem_map_of_mem (f := Notification.id) hmem
        rw [← hids, hid] at hmem'
        exact List.mem_map.mp hmem'
      obtain ⟨m, s₂, hall, hrows'⟩ := ih henv hn'
      refine ⟨m + if published then 1 else 0, s₂, ?_, ?_⟩
      · rw [publishAll, run_bind_ok backend clocked hone, run_bind_ok backend clocked hall]
        rfl
      · rw [hrows', hrows]
        rfl

theorem markAll_cons (e : OutboxEvent) (rest rows : List OutboxEvent) :
    markAll settings tick (e :: rest) rows = markAll settings tick rest
      (updateWhere (fun x => x.notificationId == e.notificationId) (mark settings tick e) rows) :=
  rfl

theorem ids_markAll (events rows : List OutboxEvent) :
    (markAll settings tick events rows).map OutboxEvent.notificationId
      = rows.map OutboxEvent.notificationId := by
  induction events generalizing rows with
  | nil => rfl
  | cons e rest ih =>
      rw [markAll_cons, ih]
      refine map_updateWhere ?_ rows
      intro x
      rw [mark]
      split
      · rfl
      · rfl

/-- A row after the loop is a row that was not read, or one that was and is published if
    its call was accepted. -/
theorem mem_markAll {events rows : List OutboxEvent} {x' : OutboxEvent}
    (h : x' ∈ markAll settings tick events rows) :
    ∃ x ∈ rows, x'.notificationId = x.notificationId ∧ x'.createdAt = x.createdAt
      ∧ ((x' = x ∧ x.notificationId ∉ events.map OutboxEvent.notificationId)
        ∨ (x.notificationId ∈ events.map OutboxEvent.notificationId
          ∧ (tick.outcome x.notificationId = none → x'.publishedAt.isSome = true))) := by
  induction events generalizing rows with
  | nil => exact ⟨x', h, rfl, rfl, Or.inl ⟨rfl, List.not_mem_nil⟩⟩
  | cons e rest ih =>
      rw [markAll_cons] at h
      obtain ⟨x₁, hx₁, hid, hcreated, hcases⟩ := ih h
      obtain ⟨x, hx, rfl⟩ := List.mem_map.mp hx₁
      simp only [List.map_cons, List.mem_cons]
      by_cases hxe : x.notificationId = e.notificationId
      · rw [if_pos (beq_iff_eq.mpr hxe)] at hid hcreated hcases
        have hmark : (mark settings tick e x).notificationId = x.notificationId
            ∧ (mark settings tick e x).createdAt = x.createdAt
            ∧ (tick.outcome e.notificationId = none →
              (mark settings tick e x).publishedAt.isSome = true) := by
          rw [mark]
          cases hout : tick.outcome e.notificationId with
          | some text => exact ⟨rfl, rfl, fun hnone => by cases hnone⟩
          | none => exact ⟨rfl, rfl, fun _ => rfl⟩
        obtain ⟨hmarkId, hmarkCreated, hpublished⟩ := hmark
        refine ⟨x, hx, hid.trans hmarkId, hcreated.trans hmarkCreated,
          Or.inr ⟨Or.inl hxe, ?_⟩⟩
        intro hout
        rcases hcases with ⟨heq, -⟩ | ⟨-, hlater⟩
        · rw [heq]
          exact hpublished (hxe ▸ hout)
        · exact hlater (by rw [hmarkId]; exact hout)
      · rw [if_neg (by simpa using hxe)] at hid hcreated hcases
        refine ⟨x, hx, hid, hcreated, ?_⟩
        rcases hcases with ⟨heq, hnot⟩ | ⟨hin, hlater⟩
        · exact Or.inl ⟨heq, fun hor => hor.elim hxe hnot⟩
        · exact Or.inr ⟨Or.inr hin, hlater⟩

end Rows

/-! ## Rounds -/

/-- The unpublished events that are not newer than `e`. -/
def waitingBefore (db : Database) (e : OutboxEvent) : List OutboxEvent :=
  db.outboxEvents.filter (fun x => x.publishedAt.isNone && decide (x.createdAt ≤ e.createdAt))

/-- A round that does not break, in which every event has its notification and SNS takes
    what is not newer than `e`; what was not in the outbox at first is newer. -/
structure Serving (first : Database) (e : OutboxEvent) (a : Round) : Prop where
  unbroken : a.broken = false
  announced : Announced a.db
  newer : ∀ x ∈ a.db.outboxEvents, x.notificationId ∉ eventIds first → e.createdAt < x.createdAt
  accepted : ∀ x ∈ a.db.outboxEvents, x.createdAt ≤ e.createdAt →
    a.tick.outcome x.notificationId = none

section Rounds

variable {settings : Settings} {topicArn : String} {first : Database} {a b : Round}
  {e : OutboxEvent}

variable (settings topicArn) in
/-- The round returns, and commits what the loop leaves. -/
theorem Serving.after (h : Serving first e a) :
    (a.after settings topicArn).outboxEvents
      = markAll settings a.tick a.due a.db.outboxEvents := by
  rw [Round.after, h.unbroken, if_neg Bool.false_ne_true]
  by_cases hdue : a.due = []
  · have hrun : a.run settings topicArn = (.ok 0, ⟨a.db, a.db, {}, ⟨a.tick, true⟩⟩) := by
      have hread : a.run settings topicArn
          = run backend clocked (if a.due.isEmpty then pure 0
              else Tx.ask .utcNow >>= fun now =>
                publishAll settings topicArn now a.due >>= fun n =>
                  Tx.commit >>= fun _ => pure n) ⟨a.db, a.db, {}, ⟨a.tick, true⟩⟩ := rfl
      rw [hread, hdue]
      rfl
    rw [hrun, hdue]
    rfl
  · have hn : ∀ x ∈ a.due, ∃ n ∈ a.db.notifications,
        n.id = x.notificationId := fun x hx => h.announced x (mem_dueEvents hx).1
    have henv : (⟨a.db, a.db, {}, ⟨a.tick, true⟩⟩ : TickState).env = ⟨a.tick, true⟩ := rfl
    obtain ⟨m, s', hall, hrows⟩ := run_publishAll settings topicArn henv hn
    rw [run_round hdue, run_bind_ok backend clocked hall]
    exact hrows

variable (settings topicArn) in
/-- A round that does not read a due event publishes a batch of those ahead of it. -/
theorem Serving.waitingBefore_after (h : Serving first e a) (ha : a.Sound)
    (he : e ∈ a.db.outboxEvents) (hdue : isDue a.tick.queried e = true)
    (hnot : e ∉ a.due) :
    e ∈ (a.after settings topicArn).outboxEvents
      ∧ (waitingBefore (a.after settings topicArn) e).length + batchSize
        ≤ (waitingBefore a.db e).length := by
  have hsorted := pairwise_insertionSort_key OutboxEvent.createdAt
    (a.tick.scan.order (a.db.outboxEvents.filter (isDue a.tick.queried)))
  have hmem : e ∈ (a.tick.scan.order (a.db.outboxEvents.filter
      (isDue a.tick.queried))).insertionSort (fun x y => x.createdAt ≤ y.createdAt) :=
    (List.mem_insertionSort _).mpr
      ((a.tick.scan.perm _).mem_iff.mpr (List.mem_filter.mpr ⟨he, hdue⟩))
  obtain ⟨hlen, hahead⟩ := ahead_of_not_mem_take hsorted hmem hnot
  have hunread : e.notificationId
      ∉ a.due.map OutboxEvent.notificationId := by
    intro hin
    obtain ⟨y, hy, hid⟩ := List.mem_map.mp hin
    rw [List.inj_on_of_nodup_map ha.ids (mem_dueEvents hy).1 he hid] at hy
    exact hnot hy
  have hafter := h.after settings topicArn
  refine ⟨?_, ?_⟩
  · -- The row is not touched, so it is where it was.
    have hin : e.notificationId ∈ ((a.after settings topicArn).outboxEvents).map
        OutboxEvent.notificationId := by
      rw [hafter, ids_markAll]
      exact List.mem_map_of_mem he
    obtain ⟨x', hx', hid'⟩ := List.mem_map.mp hin
    rw [hafter] at hx' ⊢
    obtain ⟨x, hx, hid, -, ⟨heq, -⟩ | ⟨hread, -⟩⟩ := mem_markAll hx'
    · have hxe := List.inj_on_of_nodup_map ha.ids hx he (hid.symm.trans hid')
      rw [← hxe, ← heq]
      exact hx'
    · rw [← hid, hid'] at hread
      exact absurd hread hunread
  · -- What waits afterwards and what was read are apart, and all of it waited before.
    have hwaits : ∀ x' ∈ waitingBefore (a.after settings topicArn) e,
        x' ∈ waitingBefore a.db e
          ∧ x'.notificationId ∉ a.due.map OutboxEvent.notificationId := by
      intro x' hx'
      obtain ⟨hrow, hcond⟩ := List.mem_filter.mp hx'
      obtain ⟨hunpublished, holder⟩ := Bool.and_eq_true_iff.mp hcond
      rw [decide_eq_true_eq] at holder
      rw [hafter] at hrow
      obtain ⟨x, hx, hid, hcreated, ⟨heq, hnotread⟩ | ⟨-, hpublished⟩⟩ := mem_markAll hrow
      · rw [heq]
        rw [heq] at hcond
        exact ⟨List.mem_filter.mpr ⟨hx, hcond⟩, hnotread⟩
      · have hsome := hpublished (h.accepted x hx (hcreated ▸ holder))
        rw [Option.isNone_iff_eq_none.mp hunpublished] at hsome
        cases hsome
    have hread : ∀ y ∈ a.due, y ∈ waitingBefore a.db e := by
      intro y hy
      obtain ⟨hrow, hunpublished⟩ := mem_dueEvents hy
      refine List.mem_filter.mpr ⟨hrow, ?_⟩
      rw [hunpublished, Option.isNone_none, Bool.true_and, decide_eq_true_eq]
      exact hahead y hy
    have hnodup : ((waitingBefore (a.after settings topicArn) e).map OutboxEvent.notificationId
        ++ a.due.map OutboxEvent.notificationId).Nodup := by
      refine List.nodup_append.mpr ⟨?_, dueEvents_distinct ha.ids _ _, ?_⟩
      · have hids : ((a.after settings topicArn).outboxEvents.map OutboxEvent.notificationId).Nodup := by
          rw [hafter, ids_markAll]
          exact ha.ids
        exact hids.sublist (List.filter_sublist.map _)
      · intro id hid id' hid' heq
        obtain ⟨x', hx', rfl⟩ := List.mem_map.mp hid
        exact (hwaits x' hx').2 (heq ▸ hid')
    have hsub : (waitingBefore (a.after settings topicArn) e).map OutboxEvent.notificationId
        ++ a.due.map OutboxEvent.notificationId
          ⊆ (waitingBefore a.db e).map OutboxEvent.notificationId := by
      intro id hid
      rcases List.mem_append.mp hid with hid | hid
      · obtain ⟨x', hx', rfl⟩ := List.mem_map.mp hid
        exact List.mem_map_of_mem (hwaits x' hx').1
      · obtain ⟨y, hy, rfl⟩ := List.mem_map.mp hid
        exact List.mem_map_of_mem (hread y hy)
    have hcount := (List.subperm_of_subset hnodup hsub).length_le
    rw [List.length_append, List.length_map, List.length_map, List.length_map] at hcount
    exact (Nat.add_le_add_left (Nat.le_of_eq hlen.symm) _).trans hcount

/-- What comes between two rounds is newer. -/
theorem Serving.waitingBefore_next (h : Serving first e b) (hb : b.Sound)
    (hab : Follows settings topicArn a b)
    (hids : eventIds first ⊆ eventIds (a.after settings topicArn)) :
    waitingBefore b.db e = waitingBefore (a.after settings topicArn) e := by
  obtain ⟨added, hadded⟩ := hab.outbox
  rw [waitingBefore, hadded, List.filter_append, waitingBefore]
  refine (congrArg _ ?_).trans (List.append_nil _)
  refine List.filter_eq_nil_iff.mpr ?_
  intro x hx hcond
  obtain ⟨-, holder⟩ := Bool.and_eq_true_iff.mp hcond
  rw [decide_eq_true_eq] at holder
  have hnodup := hb.ids
  rw [eventIds, hadded, List.map_append, List.nodup_append] at hnodup
  have hnew : x.notificationId ∉ eventIds first :=
    fun hin => hnodup.2.2 _ (hids hin) _ (List.mem_map_of_mem hx) rfl
  have hlater := h.newer x (hadded ▸ List.mem_append_right _ hx) hnew
  exact absurd hlater (Int.not_lt.mpr holder)

/-- An event that is due stays so until it is read. -/
theorem isDue_later {now now' : Instant} (h : isDue now e = true) (hle : now ≤ now') :
    isDue now' e = true := by
  rw [isDue] at h ⊢
  obtain ⟨hunpublished, hnext⟩ := Bool.and_eq_true_iff.mp h
  rw [hunpublished, Bool.true_and]
  cases hn : e.nextAttemptAt with
  | none => rfl
  | some t =>
      rw [hn] at hnext
      simp only [decide_eq_true_eq] at hnext ⊢
      exact Int.le_trans hnext hle

theorem Follows.queried_le (h : Follows settings topicArn a b) (ha : a.Sound) :
    a.tick.queried ≤ b.tick.queried :=
  calc a.tick.queried ≤ a.tick.now := ha.read
    _ ≤ a.tick.ended := ha.ended
    _ ≤ a.tick.ended + seconds tickIntervalSeconds := Int.le_add_of_nonneg_right (by decide)
    _ ≤ b.tick.queried := h.slept

/-- The event is read in one of the rounds.  The induction is on the rounds, with the outbox
    of the first one kept. -/
theorem read_within {rest : List Round} (h : LoopRun settings topicArn (a :: rest))
    (hids : eventIds first ⊆ eventIds a.db) (he : e ∈ a.db.outboxEvents)
    (hdue : isDue a.tick.queried e = true) (hserving : ∀ b ∈ a :: rest, Serving first e b)
    (hfew : (waitingBefore a.db e).length ≤ batchSize * (rest.length + 1)) :
    ∃ b ∈ a :: rest, e ∈ b.db.outboxEvents ∧ e ∈ b.due := by
  induction rest generalizing a with
  | nil =>
      refine ⟨a, List.mem_singleton_self a, he, ?_⟩
      by_contra hnot
      obtain ⟨hafter, hcount⟩ := (hserving a List.mem_cons_self).waitingBefore_after
        settings topicArn (h.sound a List.mem_cons_self) he hdue hnot
      -- Were it not read, the event itself would be one too many.
      have hself : e ∈ waitingBefore (a.after settings topicArn) e := by
        rw [isDue] at hdue
        refine List.mem_filter.mpr ⟨hafter, ?_⟩
        rw [(Bool.and_eq_true_iff.mp hdue).1, Bool.true_and, decide_eq_true_eq]
      have hpos := List.length_pos_of_mem hself
      simp only [List.length_nil] at hfew
      omega
  | cons b rest ih =>
      by_cases hread : e ∈ a.due
      · exact ⟨a, List.mem_cons_self, he, hread⟩
      · have ha := h.sound a List.mem_cons_self
        obtain ⟨hab, hchain⟩ := List.isChain_cons_cons.mp h.follows
        have hrest : LoopRun settings topicArn (b :: rest) :=
          ⟨fun x hx => h.sound x (List.mem_cons_of_mem _ hx), hchain⟩
        have hserves := hserving a List.mem_cons_self
        obtain ⟨hafter, hcount⟩ := hserves.waitingBefore_after settings topicArn ha he hdue hread
        have hgrown : eventIds first ⊆ eventIds (a.after settings topicArn) := by
          show eventIds first ⊆ (a.after settings topicArn).outboxEvents.map
            OutboxEvent.notificationId
          rw [hserves.after, ids_markAll]
          exact hids
        obtain ⟨added, hadded⟩ := hab.outbox
        have hkept : (a.after settings topicArn).outboxEvents ⊆ b.db.outboxEvents := by
          rw [hadded]
          exact List.subset_append_left _ _
        have hwaiting := (hserving b (by simp)).waitingBefore_next
          (hrest.sound b List.mem_cons_self) hab hgrown
        obtain ⟨x, hx, hrow, hread'⟩ := ih hrest
          (fun id hid => List.map_subset _ hkept (hgrown hid)) (hkept hafter)
          (isDue_later hdue (hab.queried_le ha))
          (fun x hx => hserving x (List.mem_cons_of_mem _ hx)) (by
            rw [hwaiting]
            rw [List.length_cons, Nat.mul_succ] at hfew
            omega)
        exact ⟨x, List.mem_cons_of_mem _ hx, hrow, hread'⟩

/-- In a run of the loop, an event that is due and whose older ones SNS takes is published in
    one of the first `⌈k / 20⌉` rounds, where `k` unpublished events are not newer than it,
    however many newer ones are added and whichever of these fail. -/
theorem published_within {rest : List Round} (h : LoopRun settings topicArn (a :: rest))
    (he : e ∈ a.db.outboxEvents) (hdue : isDue a.tick.queried e = true)
    (hserving : ∀ b ∈ a :: rest, Serving a.db e b)
    (hfew : (waitingBefore a.db e).length ≤ batchSize * (rest.length + 1)) :
    ∃ b ∈ a :: rest, e ∈ b.due
      ∧ { e with publishedAt := some b.tick.now } ∈ (b.after settings topicArn).outboxEvents := by
  obtain ⟨b, hb, hrow, hread⟩ := read_within h (List.Subset.refl _) he hdue hserving hfew
  have hserves := hserving b hb
  have hsound := h.sound b hb
  have hids := dueEvents_distinct hsound.ids b.tick.scan b.tick.queried
  have henv : (⟨b.db, b.db, {}, ⟨b.tick, true⟩⟩ : TickState).env = ⟨b.tick, true⟩ := rfl
  obtain ⟨m, s', hall, hrows⟩ := run_publishAll settings topicArn henv
    (fun x hx => hserves.announced x (mem_dueEvents hx).1)
  have hmarked := (publishAll_ok rfl hids hall).2 e hread hrow
  rw [recorded, hserves.accepted e hrow (Int.le_refl _), hrows] at hmarked
  refine ⟨b, hb, hread, ?_⟩
  rw [hserves.after]
  exact hmarked

end Rounds

/-! ## One event too many -/

/-- The `i`-th of many fires of one transaction. -/
def crowdEvent (i : Nat) : OutboxEvent := { Workers.waitingEvent with notificationId := i }

/-- A batch of events and one more. -/
def crowd : Round where
  db :=
    { notifications := (List.range 21).map fun i => { Workers.waitingNotification with id := i }
      outboxEvents := (List.range 21).map crowdEvent }
  tick :=
    { queried := seconds 1000000030
      now := seconds 1000000030
      ended := seconds 1000000031
      outcome := fun _ => none }

/-- The next round, five seconds after the end of that one. -/
def afterCrowd : Round where
  db := crowd.after {} "topic"
  tick :=
    { queried := seconds 1000000036
      now := seconds 1000000036
      ended := seconds 1000000036
      outcome := fun _ => none }

theorem loopRun_crowd : LoopRun {} "topic" [crowd, afterCrowd] where
  sound := by
    intro a ha
    rcases List.mem_pair.mp ha with rfl | rfl
    · exact ⟨by decide, by decide, by decide +kernel⟩
    · exact ⟨by decide, by decide, by decide +kernel⟩
  follows :=
    .cons_cons ⟨by decide, [], (List.append_nil _).symm⟩ (.singleton afterCrowd)

instance (db : Database) : Decidable (Announced db) :=
  inferInstanceAs (Decidable (∀ x ∈ db.outboxEvents, ∃ n ∈ db.notifications,
    n.id = x.notificationId))

theorem serving_crowd : ∀ b ∈ [crowd, afterCrowd], Serving crowd.db (crowdEvent 20) b := by
  intro b hb
  rcases List.mem_pair.mp hb with rfl | rfl
  · exact ⟨rfl, by decide +kernel, by decide +kernel, fun _ _ _ => rfl⟩
  · exact ⟨rfl, by decide +kernel, by decide +kernel, fun _ _ _ => rfl⟩

/-- The first round has no place for the last event, and the second one publishes it. -/
theorem published_within_crowd :
    crowdEvent 20 ∉ crowd.due
      ∧ ∃ b ∈ [crowd, afterCrowd], crowdEvent 20 ∈ b.due
        ∧ { crowdEvent 20 with publishedAt := some b.tick.now }
          ∈ (b.after {} "topic").outboxEvents :=
  ⟨by decide +kernel, published_within loopRun_crowd (by decide +kernel) (by decide)
    serving_crowd (by decide +kernel)⟩

end Dropwatch.Publisher
