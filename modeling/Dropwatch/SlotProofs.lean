import Dropwatch.EvaluatorProofs
import Dropwatch.Workers

/-! # The delivery ledger, one notification at a time

    `Ledger` relates three tables and the world: a notification per key, an
    outbox event per notification that is to be delivered, a publish time where
    SNS took the event.

    The tables are looked at one notification id at a time: `Slot` is what they
    say about an id and `Settled` the four shapes a committed slot can have.  A
    write changes one slot, so a session whose writes touch a slot owns it
    (`Sound.apart`), and everybody else leaves it alone until the commit. -/

namespace Dropwatch.Delivery

open Transact RuleIndex Evaluator Poller Publisher Workers

/-- The outbox events of a notification. -/
def eventsOf (db : Database) (id : Uuid) : List OutboxEvent :=
  db.outboxEvents.filter (fun e => e.notificationId == id)

/-- The delivery ledger of a committed state, `accepted` being the events that
    SNS took. -/
structure Ledger (db : Database) (accepted : List Uuid) : Prop where
  key_unique : (db.notifications.map (fun n => n.idempotencyKey)).Nodup
  id_unique : (db.notifications.map (fun n => n.id)).Nodup
  owner : ∀ e ∈ db.outboxEvents, ∃ n ∈ db.notifications, n.id = e.notificationId
  one_event : ∀ n ∈ db.notifications, n.status = .pending ∨ n.status = .sent →
    ∃ e, eventsOf db n.id = [e]
  no_event : ∀ n ∈ db.notifications, n.status = .suppressedCooldown → eventsOf db n.id = []
  sent_iff_sentAt : ∀ n ∈ db.notifications, n.status = .sent ↔ n.sentAt.isSome
  sent_iff_published : ∀ n ∈ db.notifications, ∀ e ∈ eventsOf db n.id,
    n.status = .sent ↔ e.publishedAt.isSome
  published_accepted : ∀ e ∈ db.outboxEvents, e.publishedAt.isSome →
    e.notificationId ∈ accepted

/-! ## One notification id at a time -/

/-- What the tables say about one notification id. -/
structure Slot where
  rows : List Notification
  events : List OutboxEvent

/-- The slot of an id. -/
def slotOf (db : Database) (id : Uuid) : Slot :=
  ⟨db.notifications.filter (fun n => n.id == id), eventsOf db id⟩

/-- A write on the slot of an id. -/
def Slot.apply (sl : Slot) (id : Uuid) (e : Generated × Write) : Slot :=
  match e with
  | (g, .addNotification n) =>
      if g.id = id then { sl with rows := sl.rows ++ [n.row g] } else sl
  | (g, .addOutboxEvent i payload) =>
      if i = id then { sl with events := sl.events ++ [outboxRow g i payload] } else sl
  | (_, .setEventFailed i attempts error nextAttemptAt) =>
      if i = id then
        { sl with
          events := sl.events.map (fun e => { e with
            publishAttempts := attempts
            lastError := some error
            nextAttemptAt := some nextAttemptAt }) }
      else sl
  | (_, .setEventPublished i at_) =>
      if i = id then
        { sl with events := sl.events.map (fun e => { e with publishedAt := some at_ }) }
      else sl
  | (_, .setNotificationSent i at_) =>
      if i = id then
        { sl with
          rows := sl.rows.map (fun n => { n with status := .sent, sentAt := some at_ }) }
      else sl
  | _ => sl

/-- The notification id that a write is about. -/
def subject : Generated × Write → Option Uuid
  | (g, .addNotification _) => some g.id
  | (_, .addOutboxEvent i _) => some i
  | (_, .setEventFailed i _ _ _) => some i
  | (_, .setEventPublished i _) => some i
  | (_, .setNotificationSent i _) => some i
  | _ => none

/-- The rows of a table with a key, after an update of the rows with that key or
    another: updates keep keys. -/
theorem filter_updateWhere {α : Type} (key : α → Uuid) {f : α → α} (i id : Uuid)
    (xs : List α) (hf : ∀ x, key (f x) = key x) :
    (updateWhere (fun x => key x == i) f xs).filter (fun x => key x == id)
      = if i = id then (xs.filter (fun x => key x == id)).map f
        else xs.filter (fun x => key x == id) := by
  have hkey : ∀ x, key (if key x == i then f x else x) = key x := by
    intro x
    split
    · exact hf x
    · rfl
  have hfilter : (updateWhere (fun x => key x == i) f xs).filter (fun x => key x == id)
      = (xs.filter (fun x => key x == id)).map (fun x => if key x == i then f x else x) := by
    rw [updateWhere, List.filter_map]
    congr 1
    refine List.filter_congr ?_
    intro x _
    show (key _ == id) = (key x == id)
    rw [hkey x]
  rw [hfilter]
  split
  next hi =>
      refine List.map_congr_left ?_
      intro x hx
      rw [hi, if_pos (List.mem_filter.mp hx).2]
  next hi =>
      refine (List.map_congr_left ?_).trans (List.map_id _)
      intro x hx
      have hxid : key x = id := by simpa using (List.mem_filter.mp hx).2
      rw [if_neg (by simpa [hxid] using Ne.symm hi)]
      rfl

/-- The rows of a table with a key, after an insert. -/
theorem filter_concat {α : Type} (key : α → Uuid) (id : Uuid) (xs : List α) (x : α) :
    (xs ++ [x]).filter (fun x => key x == id)
      = if key x = id then xs.filter (fun x => key x == id) ++ [x]
        else xs.filter (fun x => key x == id) := by
  rw [List.filter_append]
  by_cases hid : key x = id
  · rw [if_pos hid, List.filter_cons_of_pos (by simpa using hid)]
    rfl
  · rw [if_neg hid, List.filter_cons_of_neg (by simpa using hid), List.filter_nil,
      List.append_nil]

/-- The slot after a write is the write on the slot. -/
theorem slotOf_apply (db : Database) (id : Uuid) (e : Generated × Write) :
    slotOf (db.apply e.1 e.2) id = (slotOf db id).apply id e := by
  obtain ⟨g, w⟩ := e
  cases w with
  | addNotification n =>
      show Slot.mk ((db.notifications ++ [n.row g]).filter (fun n => n.id == id)) _ = _
      rw [filter_concat (fun n : Notification => n.id)]
      exact apply_ite (fun rows => Slot.mk rows (eventsOf db id)) (g.id = id) _ _
  | addOutboxEvent i payload =>
      show Slot.mk _ ((db.outboxEvents ++ [outboxRow g i payload]).filter
        (fun e => e.notificationId == id)) = _
      rw [filter_concat (fun e : OutboxEvent => e.notificationId)]
      exact apply_ite (fun events => Slot.mk (slotOf db id).rows events) (i = id) _ _
  | setEventFailed i attempts error nextAttemptAt =>
      show Slot.mk _ ((updateWhere (fun e => e.notificationId == i) _ db.outboxEvents).filter
        (fun e => e.notificationId == id)) = _
      rw [filter_updateWhere (fun e : OutboxEvent => e.notificationId)]
      · exact apply_ite (fun events => Slot.mk (slotOf db id).rows events) (i = id) _ _
      · exact fun _ => rfl
  | setEventPublished i at_ =>
      show Slot.mk _ ((updateWhere (fun e => e.notificationId == i) _ db.outboxEvents).filter
        (fun e => e.notificationId == id)) = _
      rw [filter_updateWhere (fun e : OutboxEvent => e.notificationId)]
      · exact apply_ite (fun events => Slot.mk (slotOf db id).rows events) (i = id) _ _
      · exact fun _ => rfl
  | setNotificationSent i at_ =>
      show Slot.mk ((updateWhere (fun n => n.id == i) _ db.notifications).filter
        (fun n => n.id == id)) _ = _
      rw [filter_updateWhere (fun n : Notification => n.id)]
      · exact apply_ite (fun rows => Slot.mk rows (eventsOf db id)) (i = id) _ _
      · exact fun _ => rfl
  | _ => rfl

/-- A write about another id leaves the slot alone. -/
theorem Slot.apply_of_ne (sl : Slot) {id : Uuid} {e : Generated × Write}
    (h : subject e ≠ some id) : sl.apply id e = sl := by
  obtain ⟨g, w⟩ := e
  cases w with
  | addNotification n => exact if_neg (fun hid => h (congrArg some hid))
  | addOutboxEvent i payload => exact if_neg (fun hid => h (congrArg some hid))
  | setEventFailed i attempts error nextAttemptAt =>
      exact if_neg (fun hid => h (congrArg some hid))
  | setEventPublished i at_ => exact if_neg (fun hid => h (congrArg some hid))
  | setNotificationSent i at_ => exact if_neg (fun hid => h (congrArg some hid))
  | _ => rfl

/-- A log on a slot. -/
def Slot.replay (sl : Slot) (id : Uuid) (log : List (Generated × Write)) : Slot :=
  log.foldl (fun sl e => sl.apply id e) sl

theorem slotOf_replay (db : Database) (id : Uuid) (log : List (Generated × Write)) :
    slotOf (backend.replay db log) id = (slotOf db id).replay id log := by
  induction log generalizing db with
  | nil => rfl
  | cons e rest ih =>
      show slotOf (backend.replay (db.apply e.1 e.2) rest) id
        = Slot.replay ((slotOf db id).apply id e) id rest
      rw [ih, slotOf_apply]

/-- The log has a write about the id. -/
def Touched (id : Uuid) (log : List (Generated × Write)) : Prop :=
  ∃ e ∈ log, subject e = some id

theorem slotOf_replay_of_untouched {db : Database} {id : Uuid} {log : List (Generated × Write)}
    (h : ¬ Touched id log) : slotOf (backend.replay db log) id = slotOf db id := by
  rw [slotOf_replay]
  induction log with
  | nil => rfl
  | cons e rest ih =>
      show Slot.replay ((slotOf db id).apply id e) id rest = _
      rw [Slot.apply_of_ne _ (fun he => h ⟨e, List.mem_cons_self, he⟩)]
      exact ih (fun ⟨e', he', hid⟩ => h ⟨e', List.mem_cons_of_mem e he', hid⟩)

/-- The slot of one more write. -/
theorem slotOf_replay_concat (db : Database) (id : Uuid) (log : List (Generated × Write))
    (e : Generated × Write) :
    slotOf (backend.replay db (log ++ [e])) id
      = (slotOf (backend.replay db log) id).apply id e := by
  rw [Backend.replay_concat]
  exact slotOf_apply _ id e

/-! ## Settled slots -/

/-- The shapes of a committed slot. -/
inductive Settled (accepted : List Uuid) (id : Uuid) : Slot → Prop where
  | absent : Settled accepted id ⟨[], []⟩
  | suppressed (n : Notification) (hstatus : n.status = .suppressedCooldown)
      (hsent : n.sentAt = none) : Settled accepted id ⟨[n], []⟩
  | pending (n : Notification) (e : OutboxEvent) (hstatus : n.status = .pending)
      (hsent : n.sentAt = none) (hpublished : e.publishedAt = none) :
      Settled accepted id ⟨[n], [e]⟩
  | sent (n : Notification) (e : OutboxEvent) (hstatus : n.status = .sent)
      (hsent : n.sentAt.isSome) (hpublished : e.publishedAt.isSome)
      (haccepted : id ∈ accepted) : Settled accepted id ⟨[n], [e]⟩

theorem Settled.mono {accepted accepted' : List Uuid} {id : Uuid} {sl : Slot}
    (h : Settled accepted id sl) (hsub : accepted ⊆ accepted') : Settled accepted' id sl := by
  cases h with
  | absent => exact .absent
  | suppressed n hstatus hsent => exact .suppressed n hstatus hsent
  | pending n e hstatus hsent hpublished => exact .pending n e hstatus hsent hpublished
  | sent n e hstatus hsent hpublished haccepted =>
      exact .sent n e hstatus hsent hpublished (hsub haccepted)

/-- What a settled slot says of a notification. -/
theorem Settled.of_row {accepted : List Uuid} {id : Uuid} {sl : Slot} {n : Notification}
    (h : Settled accepted id sl) (hn : n ∈ sl.rows) :
    (n.status = .suppressedCooldown ∧ n.sentAt = none ∧ sl.events = [])
      ∨ (∃ e, n.status = .pending ∧ n.sentAt = none ∧ sl.events = [e] ∧ e.publishedAt = none)
      ∨ ∃ e, n.status = .sent ∧ n.sentAt.isSome ∧ sl.events = [e] ∧ e.publishedAt.isSome := by
  cases h with
  | absent => exact absurd hn List.not_mem_nil
  | suppressed n' hstatus hsent =>
      rw [List.mem_singleton.mp hn]
      exact Or.inl ⟨hstatus, hsent, rfl⟩
  | pending n' e hstatus hsent hpublished =>
      rw [List.mem_singleton.mp hn]
      exact Or.inr (Or.inl ⟨e, hstatus, hsent, rfl, hpublished⟩)
  | sent n' e hstatus hsent hpublished _ =>
      rw [List.mem_singleton.mp hn]
      exact Or.inr (Or.inr ⟨e, hstatus, hsent, rfl, hpublished⟩)

/-- What a settled slot says of an outbox event. -/
theorem Settled.of_event {accepted : List Uuid} {id : Uuid} {sl : Slot} {e : OutboxEvent}
    (h : Settled accepted id sl) (he : e ∈ sl.events) :
    (∃ n, sl.rows = [n]) ∧ (e.publishedAt.isSome → id ∈ accepted) := by
  cases h with
  | absent => exact absurd he List.not_mem_nil
  | suppressed n hstatus hsent => exact absurd he List.not_mem_nil
  | pending n e' hstatus hsent hpublished =>
      refine ⟨⟨n, rfl⟩, ?_⟩
      intro hsome
      rw [List.mem_singleton.mp he, hpublished] at hsome
      exact absurd hsome (by simp)
  | sent n e' hstatus hsent hpublished haccepted => exact ⟨⟨n, rfl⟩, fun _ => haccepted⟩

theorem Settled.rows_length {accepted : List Uuid} {id : Uuid} {sl : Slot}
    (h : Settled accepted id sl) : sl.rows.length ≤ 1 := by
  cases h with
  | absent => exact Nat.zero_le _
  | suppressed => exact Nat.le_refl _
  | pending => exact Nat.le_refl _
  | sent => exact Nat.le_refl _

/-- The ledger, slot by slot. -/
structure Balanced (db : Database) (accepted : List Uuid) : Prop where
  keys : (db.notifications.map (fun n => n.idempotencyKey)).Nodup
  slots : ∀ id, Settled accepted id (slotOf db id)

theorem mem_rows {db : Database} {id : Uuid} {n : Notification} :
    n ∈ (slotOf db id).rows ↔ n ∈ db.notifications ∧ n.id = id := by
  simp [slotOf, List.mem_filter]

theorem mem_eventsOf {db : Database} {id : Uuid} {e : OutboxEvent} :
    e ∈ eventsOf db id ↔ e ∈ db.outboxEvents ∧ e.notificationId = id := by
  simp [eventsOf, List.mem_filter]

/-- A key that no two rows share has at most one row. -/
theorem filter_key {α : Type} (key : α → Uuid) (id : Uuid) {xs : List α}
    (h : (xs.map key).Nodup) :
    xs.filter (fun x => key x == id) = [] ∨ ∃ x, xs.filter (fun x => key x == id) = [x] := by
  have hkeys : ((xs.filter (fun x => key x == id)).map key).Nodup :=
    h.sublist ((List.filter_sublist).map key)
  have hid : ∀ x ∈ xs.filter (fun x => key x == id), key x = id := by
    intro x hx
    simpa using (List.mem_filter.mp hx).2
  generalize xs.filter (fun x => key x == id) = ys at hkeys hid
  match ys with
  | [] => exact Or.inl rfl
  | [x] => exact Or.inr ⟨x, rfl⟩
  | x :: y :: rest =>
      have hxy : key x = key y := by
        rw [hid x (by simp), hid y (by simp)]
      exact absurd hkeys (by simp [hxy])

theorem Ledger.balanced {db : Database} {accepted : List Uuid} (h : Ledger db accepted) :
    Balanced db accepted := by
  refine ⟨h.key_unique, ?_⟩
  intro id
  have howner : ∀ e ∈ eventsOf db id, ∃ n, n ∈ (slotOf db id).rows := by
    intro e he
    obtain ⟨he, hid⟩ := mem_eventsOf.mp he
    obtain ⟨n, hn, hnid⟩ := h.owner e he
    exact ⟨n, mem_rows.mpr ⟨hn, hnid.trans hid⟩⟩
  rcases filter_key (fun n : Notification => n.id) id h.id_unique with hnone | ⟨n, hone⟩
  · -- An event has a notification, so a key without one has no events.
    have hempty : eventsOf db id = [] := by
      refine List.eq_nil_iff_forall_not_mem.mpr ?_
      intro e he
      obtain ⟨n, hn⟩ := howner e he
      rw [slotOf, hnone] at hn
      exact List.not_mem_nil hn
    rw [slotOf, hnone, hempty]
    exact .absent
  · have hn : n ∈ (slotOf db id).rows := by
      rw [slotOf, hone]
      exact List.mem_singleton_self n
    obtain ⟨hn, hid⟩ := mem_rows.mp hn
    have hsent := h.sent_iff_sentAt n hn
    have hpublished := h.sent_iff_published n hn
    have haccepted := h.published_accepted
    rw [hid] at hpublished
    rw [slotOf, hone]
    -- The status says which shape the slot has.
    cases hstatus : n.status with
    | suppressedCooldown =>
        have hempty := h.no_event n hn hstatus
        rw [hid] at hempty
        rw [hempty]
        refine .suppressed n hstatus ?_
        cases hat : n.sentAt with
        | none => rfl
        | some t => exact absurd (hsent.mpr (by simp [hat])) (by simp [hstatus])
    | pending =>
        obtain ⟨e, he⟩ := h.one_event n hn (Or.inl hstatus)
        rw [hid] at he
        rw [he]
        refine .pending n e hstatus ?_ ?_
        · cases hat : n.sentAt with
          | none => rfl
          | some t => exact absurd (hsent.mpr (by simp [hat])) (by simp [hstatus])
        · cases hat : e.publishedAt with
          | none => rfl
          | some t =>
              exact absurd ((hpublished e (by simp [he])).mpr (by simp [hat]))
                (by simp [hstatus])
    | sent =>
        obtain ⟨e, he⟩ := h.one_event n hn (Or.inr hstatus)
        rw [hid] at he
        have hmem : e ∈ eventsOf db id := by simp [he]
        obtain ⟨hmem', heid⟩ := mem_eventsOf.mp hmem
        have hsome := (hpublished e hmem).mp hstatus
        rw [he]
        refine .sent n e hstatus (hsent.mp hstatus) hsome ?_
        rw [← heid]
        exact haccepted e hmem' hsome

theorem Balanced.ledger {db : Database} {accepted : List Uuid} (h : Balanced db accepted) :
    Ledger db accepted where
  key_unique := h.keys
  id_unique := by
    rw [List.nodup_iff_count_le_one]
    intro id
    rw [List.count, List.countP_map, List.countP_eq_length_filter]
    exact (h.slots id).rows_length
  owner := by
    intro e he
    obtain ⟨⟨n, hrows⟩, -⟩ := (h.slots e.notificationId).of_event (mem_eventsOf.mpr ⟨he, rfl⟩)
    have hn : n ∈ (slotOf db e.notificationId).rows := by simp [hrows]
    exact ⟨n, mem_rows.mp hn⟩
  one_event := by
    -- The shape of the slot decides, here and below.
    intro n hn hstatus
    rcases (h.slots n.id).of_row (mem_rows.mpr ⟨hn, rfl⟩) with
      ⟨hs, -, -⟩ | ⟨e, -, -, he, -⟩ | ⟨e, -, -, he, -⟩
    · rw [hs] at hstatus
      exact absurd hstatus (by simp)
    · exact ⟨e, he⟩
    · exact ⟨e, he⟩
  no_event := by
    intro n hn hstatus
    rcases (h.slots n.id).of_row (mem_rows.mpr ⟨hn, rfl⟩) with
      ⟨-, -, hnil⟩ | ⟨e, hs, -⟩ | ⟨e, hs, -⟩
    · exact hnil
    · exact absurd (hs.symm.trans hstatus) (by simp)
    · exact absurd (hs.symm.trans hstatus) (by simp)
  sent_iff_sentAt := by
    intro n hn
    rcases (h.slots n.id).of_row (mem_rows.mpr ⟨hn, rfl⟩) with
      ⟨hs, hat, -⟩ | ⟨e, hs, hat, -⟩ | ⟨e, hs, hat, -⟩
    · simp [hs, hat]
    · simp [hs, hat]
    · simp [hs, hat]
  sent_iff_published := by
    intro n hn e he
    rcases (h.slots n.id).of_row (mem_rows.mpr ⟨hn, rfl⟩) with
      ⟨hs, -, hnil⟩ | ⟨e', hs, -, hone, hat⟩ | ⟨e', hs, -, hone, hat⟩
    · rw [show eventsOf db n.id = [] from hnil] at he
      exact absurd he List.not_mem_nil
    · rw [show eventsOf db n.id = [e'] from hone] at he
      rw [List.mem_singleton.mp he]
      simp [hs, hat]
    · rw [show eventsOf db n.id = [e'] from hone] at he
      rw [List.mem_singleton.mp he]
      simp [hs, hat]
  published_accepted := by
    intro e he hsome
    exact ((h.slots e.notificationId).of_event (mem_eventsOf.mpr ⟨he, rfl⟩)).2 hsome

/-! ## Uncommitted writes -/

/-- The event whose attempt a write records. -/
def attempted : Write → Option Uuid
  | .setEventFailed i _ _ _ => some i
  | .setEventPublished i _ => some i
  | _ => none

/-- The tables have an outbox event of the id. -/
def HasEvent (db : Database) (id : Uuid) : Prop :=
  ∃ e ∈ db.outboxEvents, e.notificationId = id

/-- How the uncommitted writes of a session stand to the committed tables: new
    notifications are new and come with an observation of their pair, new events
    belong to them, and what is updated is there. -/
structure Sound (db : Database) (log : List (Generated × Write)) : Prop where
  fresh : ∀ g n, (g, Write.addNotification n) ∈ log →
    ∀ m ∈ db.notifications, m.id ≠ g.id ∧ m.idempotencyKey ≠ n.idempotencyKey
  observed : ∀ g n, (g, Write.addNotification n) ∈ log →
    ∃ g' row, (g', Write.addPriceHistory row) ∈ log ∧ row.pairId = n.pairId
  event : ∀ g i payload, (g, Write.addOutboxEvent i payload) ∈ log →
    ∃ g' n, (g', Write.addNotification n) ∈ log ∧ g'.id = i
  attempt : ∀ g w i, (g, w) ∈ log → attempted w = some i → HasEvent db i
  sent : ∀ g i t, (g, Write.setNotificationSent i t) ∈ log →
    ∃ g' w, (g', w) ∈ log ∧ attempted w = some i

theorem Sound.nil (db : Database) : Sound db [] where
  fresh := fun _ _ h => absurd h List.not_mem_nil
  observed := fun _ _ h => absurd h List.not_mem_nil
  event := fun _ _ _ h => absurd h List.not_mem_nil
  attempt := fun _ _ _ h => absurd h List.not_mem_nil
  sent := fun _ _ _ h => absurd h List.not_mem_nil

/-- One more write. -/
theorem Sound.concat {db : Database} {log : List (Generated × Write)} (h : Sound db log)
    (e : Generated × Write)
    (hinsert : ∀ n, e.2 = .addNotification n →
      (∀ m ∈ db.notifications, m.id ≠ e.1.id ∧ m.idempotencyKey ≠ n.idempotencyKey)
        ∧ ∃ g' row, (g', Write.addPriceHistory row) ∈ log ∧ row.pairId = n.pairId)
    (hevent : ∀ i payload, e.2 = .addOutboxEvent i payload →
      ∃ g' n, (g', Write.addNotification n) ∈ log ∧ g'.id = i)
    (hattempt : ∀ i, attempted e.2 = some i → HasEvent db i)
    (hsent : ∀ i t, e.2 = .setNotificationSent i t →
      ∃ g' w, (g', w) ∈ log ∧ attempted w = some i) : Sound db (log ++ [e]) where
  -- Each field speaks of the entries of the log: an old one has `h`, the last one its
  -- hypothesis.
  fresh := by
    intro g n hn
    rcases List.mem_append.mp hn with hold | hnew
    · exact h.fresh g n hold
    · have he := List.mem_singleton.mp hnew
      rw [← he] at hinsert
      exact (hinsert n rfl).1
  observed := by
    intro g n hn
    have hrow : ∃ g' row, (g', Write.addPriceHistory row) ∈ log ∧ row.pairId = n.pairId := by
      rcases List.mem_append.mp hn with hold | hnew
      · exact h.observed g n hold
      · have he := List.mem_singleton.mp hnew
        rw [← he] at hinsert
        exact (hinsert n rfl).2
    obtain ⟨g', row, hrow, hpair⟩ := hrow
    exact ⟨g', row, List.mem_append_left _ hrow, hpair⟩
  event := by
    intro g i payload hi
    have hn : ∃ g' n, (g', Write.addNotification n) ∈ log ∧ g'.id = i := by
      rcases List.mem_append.mp hi with hold | hnew
      · exact h.event g i payload hold
      · have he := List.mem_singleton.mp hnew
        rw [← he] at hevent
        exact hevent i payload rfl
    obtain ⟨g', n, hn, hid⟩ := hn
    exact ⟨g', n, List.mem_append_left _ hn, hid⟩
  attempt := by
    intro g w i hw hi
    rcases List.mem_append.mp hw with hold | hnew
    · exact h.attempt g w i hold hi
    · have he := List.mem_singleton.mp hnew
      rw [← he] at hattempt
      exact hattempt i hi
  sent := by
    intro g i t hi
    have hw : ∃ g' w, (g', w) ∈ log ∧ attempted w = some i := by
      rcases List.mem_append.mp hi with hold | hnew
      · exact h.sent g i t hold
      · have he := List.mem_singleton.mp hnew
        rw [← he] at hsent
        exact hsent i t rfl
    obtain ⟨g', w, hw, ha⟩ := hw
    exact ⟨g', w, List.mem_append_left _ hw, ha⟩

/-- A session touches an id by its insert or by an attempt. -/
theorem Sound.touched {db : Database} {log : List (Generated × Write)} (h : Sound db log)
    {id : Uuid} (ht : Touched id log) :
    (∃ g n, (g, Write.addNotification n) ∈ log ∧ g.id = id)
      ∨ ∃ g w, (g, w) ∈ log ∧ attempted w = some id := by
  obtain ⟨⟨g, w⟩, hmem, hid⟩ := ht
  cases w with
  | addNotification n => exact Or.inl ⟨g, n, hmem, Option.some.inj hid⟩
  | addOutboxEvent i payload =>
      obtain ⟨g', n, hn, hi⟩ := h.event g i payload hmem
      exact Or.inl ⟨g', n, hn, hi.trans (Option.some.inj hid)⟩
  | setEventFailed i attempts error nextAttemptAt => exact Or.inr ⟨g, _, hmem, hid⟩
  | setEventPublished i at_ => exact Or.inr ⟨g, _, hmem, hid⟩
  | setNotificationSent i at_ =>
      obtain ⟨g', w, hw, hi⟩ := h.sent g i at_ hmem
      exact Or.inr ⟨g', w, hw, hi.trans hid⟩
  | _ => cases hid

/-- Attempts of one event contend. -/
theorem clash_of_attempted {g g' : Generated} {w w' : Write} {id : Uuid}
    (h : attempted w = some id) (h' : attempted w' = some id) :
    backend.clash (g, w) (g', w') = true := by
  cases w <;> simp [attempted] at h <;> cases w' <;> simp [attempted] at h' <;>
    simp [backend, Database.clash, h, h']

/-- Two sessions whose writes do not contend touch different ids. -/
theorem Sound.apart {db : Database} {accepted : List Uuid} {log log' : List (Generated × Write)}
    (hb : Balanced db accepted) (h : Sound db log) (h' : Sound db log')
    (hclash : ∀ x ∈ log, ∀ y ∈ log', backend.clash x y = false) {id : Uuid}
    (ht : Touched id log) : ¬ Touched id log' := by
  intro ht'
  -- An event in the tables has its notification there, so its id is not new.
  have hnew : ∀ {l : List (Generated × Write)} {g n}, Sound db l →
      (g, Write.addNotification n) ∈ l → ¬ HasEvent db g.id := by
    rintro l g n hl hmem ⟨e, he, heid⟩
    obtain ⟨⟨m, hm⟩, -⟩ := (hb.slots g.id).of_event (mem_eventsOf.mpr ⟨he, heid⟩)
    obtain ⟨hmdb, hmid⟩ := mem_rows.mp (show m ∈ (slotOf db g.id).rows by simp [hm])
    exact (hl.fresh g n hmem m hmdb).1 hmid
  rcases h.touched ht with ⟨g, n, hn, hid⟩ | ⟨g, w, hw, ha⟩
  · rcases h'.touched ht' with ⟨g', n', hn', hid'⟩ | ⟨g', w', hw', ha'⟩
    · have hboth := hclash _ hn _ hn'
      simp [backend, Database.clash, hid, hid'] at hboth
    · refine hnew h hn ?_
      rw [hid]
      exact h'.attempt g' w' id hw' ha'
  · rcases h'.touched ht' with ⟨g', n', hn', hid'⟩ | ⟨g', w', hw', ha'⟩
    · refine hnew h' hn' ?_
      rw [hid']
      exact h.attempt g w id hw ha
    · have hboth := hclash _ hw _ hw'
      rw [clash_of_attempted ha ha'] at hboth
      exact absurd hboth (by simp)

/-! ## What a commit adds -/

/-- The columns of a notification that no write changes. -/
def sameRow (m n : Notification) : Prop :=
  m.id = n.id ∧ m.idempotencyKey = n.idempotencyKey ∧ m.pairId = n.pairId

theorem mem_notifications_apply {db : Database} {e : Generated × Write} {n : Notification}
    (h : n ∈ (db.apply e.1 e.2).notifications) :
    (∃ m ∈ db.notifications, sameRow m n) ∨ ∃ n', e.2 = .addNotification n' ∧ n = n'.row e.1 := by
  obtain ⟨g, w⟩ := e
  cases w with
  | addNotification n' =>
      rcases List.mem_append.mp h with hold | hnew
      · exact Or.inl ⟨n, hold, rfl, rfl, rfl⟩
      · exact Or.inr ⟨n', rfl, List.mem_singleton.mp hnew⟩
  | setNotificationSent i at_ =>
      obtain ⟨m, hm, heq⟩ := List.mem_map.mp h
      refine Or.inl ⟨m, hm, ?_⟩
      rw [← heq]
      split
      · exact ⟨rfl, rfl, rfl⟩
      · exact ⟨rfl, rfl, rfl⟩
  | _ => exact Or.inl ⟨n, h, rfl, rfl, rfl⟩

/-- A notification was there or is inserted by the log. -/
theorem mem_notifications_replay {db : Database} {log : List (Generated × Write)}
    {n : Notification} (h : n ∈ (backend.replay db log).notifications) :
    (∃ m ∈ db.notifications, sameRow m n)
      ∨ ∃ g n', (g, Write.addNotification n') ∈ log ∧ sameRow (n'.row g) n := by
  induction log generalizing db with
  | nil => exact Or.inl ⟨n, h, rfl, rfl, rfl⟩
  | cons e rest ih =>
      have hrest := @ih (db.apply e.1 e.2) h
      rcases hrest with ⟨m, hm, hid, hkey, hpair⟩ | ⟨g, n', hmem, hrow⟩
      · rcases mem_notifications_apply hm with ⟨m', hm', hid', hkey', hpair'⟩ | ⟨n', he, hrow⟩
        · exact Or.inl ⟨m', hm', hid'.trans hid, hkey'.trans hkey, hpair'.trans hpair⟩
        · obtain ⟨g, w⟩ := e
          have hw : w = .addNotification n' := he
          rw [hw]
          rw [hrow] at hid hkey hpair
          exact Or.inr ⟨g, n', List.mem_cons_self, hid, hkey, hpair⟩
      · exact Or.inr ⟨g, n', List.mem_cons_of_mem e hmem, hrow⟩

/-- Notifications stay. -/
theorem mem_replay_notifications {db : Database} {m : Notification} (h : m ∈ db.notifications)
    (log : List (Generated × Write)) :
    ∃ n ∈ (backend.replay db log).notifications, sameRow m n := by
  refine backend.replay_inv (P := fun db => ∃ n ∈ db.notifications, sameRow m n) ?_
    ⟨m, h, rfl, rfl, rfl⟩
  rintro ⟨g, w⟩ - db' ⟨n, hn, hsame⟩
  cases w with
  | addNotification n' => exact ⟨n, List.mem_append_left _ hn, hsame⟩
  | setNotificationSent i at_ =>
      refine ⟨_, List.mem_map_of_mem hn, ?_⟩
      split
      · exact hsame
      · exact hsame
  | _ => exact ⟨n, hn, hsame⟩

/-- The key that a write inserts. -/
def insertedKey : Generated × Write → Option String
  | (_, .addNotification n) => some n.idempotencyKey
  | _ => none

/-- The keys after a log are the keys before and the inserted ones. -/
theorem keys_replay (db : Database) (log : List (Generated × Write)) :
    (backend.replay db log).notifications.map (fun n => n.idempotencyKey)
      = db.notifications.map (fun n => n.idempotencyKey) ++ log.filterMap insertedKey := by
  refine backend.replay_added (V := fun db : Database =>
    db.notifications.map (fun n => n.idempotencyKey)) ?_ db
  rintro ⟨g, w⟩ - db'
  cases w with
  | addNotification n => exact List.map_append
  | setNotificationSent i at_ =>
      refine (map_updateWhere ?_ db'.notifications).trans (List.append_nil _).symm
      exact fun _ => rfl
  | _ => exact (List.append_nil _).symm

/-- Events stay. -/
theorem HasEvent.replay {db : Database} {id : Uuid} (h : HasEvent db id)
    (log : List (Generated × Write)) : HasEvent (backend.replay db log) id := by
  refine backend.replay_inv (P := fun db => HasEvent db id) ?_ h
  rintro ⟨g, w⟩ - db' ⟨x, hx, hid⟩
  -- An update keeps the id of the event.
  have hupdate : ∀ {i : Uuid} {f : OutboxEvent → OutboxEvent},
      (∀ y, (f y).notificationId = y.notificationId) →
      ∃ y ∈ updateWhere (fun y => y.notificationId == i) f db'.outboxEvents,
        y.notificationId = id := by
    intro i f hf
    refine ⟨_, List.mem_map_of_mem hx, ?_⟩
    split
    · rw [hf, hid]
    · exact hid
  cases w with
  | addOutboxEvent i payload => exact ⟨x, List.mem_append_left _ hx, hid⟩
  | setEventFailed i attempts error nextAttemptAt => exact hupdate (fun _ => rfl)
  | setEventPublished i at_ => exact hupdate (fun _ => rfl)
  | _ => exact ⟨x, hx, hid⟩

/-- A commit of another session leaves uncommitted writes sound. -/
theorem Sound.of_commit {db : Database} {log log' : List (Generated × Write)}
    (h : Sound db log) (hclash : ∀ x ∈ log', ∀ y ∈ log, backend.clash x y = false) :
    Sound (backend.replay db log') log where
  fresh := by
    intro g n hn m hm
    rcases mem_notifications_replay hm with ⟨m', hm', hid, hkey, -⟩ | ⟨g', n', hn', hid, hkey, -⟩
    · obtain ⟨hne, hnekey⟩ := h.fresh g n hn m' hm'
      exact ⟨fun heq => hne (hid.trans heq), fun heq => hnekey (hkey.trans heq)⟩
    · have hboth := hclash _ hn' _ hn
      have hapart : g'.id ≠ g.id ∧ n'.idempotencyKey ≠ n.idempotencyKey := by
        simpa [backend, Database.clash] using hboth
      exact ⟨fun heq => hapart.1 (hid.trans heq), fun heq => hapart.2 (hkey.trans heq)⟩
  observed := h.observed
  event := h.event
  attempt := fun g w i hmem hi => (h.attempt g w i hmem hi).replay log'
  sent := h.sent

end Dropwatch.Delivery
