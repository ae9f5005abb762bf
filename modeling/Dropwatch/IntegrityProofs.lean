import Dropwatch.PagingProofs
import Dropwatch.PatchProofs
import Dropwatch.Scheduler

/-! # What the rows say of each other

    A notification repeats the pair and the type of its rule, so that no query has to
    join for them, and the payload of an outbox event repeats its notification.  The
    schema has foreign keys, but nothing in it keeps the copies equal to what they copy:
    the evaluator takes the pair from the batch and the rule from a bucket of an index
    that was loaded some time ago.

    What carries the proof is that the columns in question only grow (`Keeps`).  So what
    an index has loaded stays true of the tables (`Indexes`), and so does whatever an
    uncommitted write refers to (`Backed`). -/

namespace Dropwatch.Integrity

open Transact RuleIndex Evaluator Poller Publisher Scheduler RulesApi Workers

/-- The payload is about the notification, and says what that says of its rule. -/
structure Announces (payload : Payload) (n : Notification) : Prop where
  notification : payload.notificationId = n.id
  rule : payload.ruleId = n.ruleId
  pair : payload.pairId = n.pairId
  type : payload.ruleType = n.type

/-- Every reference has its target, and every copied column is that of its target. -/
structure Linked (db : Database) : Prop where
  rules : ∀ r ∈ db.alertRules, (∃ u ∈ db.users, u.id = r.userId) ∧ ∃ p ∈ db.pairs, p.id = r.pairId
  history : ∀ row ∈ db.priceHistory, ∃ p ∈ db.pairs, p.id = row.pairId
  notifications : ∀ n ∈ db.notifications,
    ∃ r ∈ db.alertRules, r.id = n.ruleId ∧ r.pairId = n.pairId ∧ r.ruleType = n.type
  observed : ∀ n ∈ db.notifications,
    ∃ row ∈ db.priceHistory, row.pairId = n.pairId ∧ row.lastPrice = n.detectedPrice
  events : ∀ e ∈ db.outboxEvents,
    ∃ n ∈ db.notifications, n.id = e.notificationId ∧ Announces e.payload n

/-- The primary keys, and the unique key of the outbox events. -/
structure Keyed (db : Database) : Prop where
  pairs : (db.pairs.map Pair.id).Nodup
  rules : (db.alertRules.map AlertRule.id).Nodup
  notifications : (db.notifications.map Notification.id).Nodup
  events : (db.outboxEvents.map OutboxEvent.notificationId).Nodup

/-- The programs of the deployment that work on these tables. -/
inductive Program (rt : Runtime) (settings : Settings) : Tx Unit → Prop where
  | post (body : CreateRuleRequest) : Program rt settings (thread (createRule settings body))
  | patch (ruleId : Uuid) (body : UpdateRuleRequest) :
      Program rt settings (thread (updateRule settings ruleId body))
  | tick : Program rt settings (thread (enqueueDuePairs settings))
  | batch (messages : List Message) :
      Program rt settings (thread (processBatch rt settings messages))
  | rebuild : Program rt settings (thread rebuild)
  | publish (topicArn : String) (scan : Scan) :
      Program rt settings (thread (publishPending settings topicArn scan))

/-- Any number of each in any processes, stopped anywhere. -/
def programs (rt : Runtime) (settings : Settings) : WorkerSystem where
  backend := backend
  answers := Answers
  starts := fun _ _ _ p => Program rt settings p
  execs := fun _ _ _ _ _ => True
  closes := fun _ _ _ => True

/-- The same under the keys of the tables. -/
def deployment (rt : Runtime) (settings : Settings) : WorkerSystem :=
  (programs rt settings).constrained Keyed

/-! ## The columns that only grow -/

def ruleColumns (r : AlertRule) : Uuid × Uuid × Uuid × RuleType :=
  (r.id, r.userId, r.pairId, r.ruleType)

def noteColumns (n : Notification) : Uuid × Uuid × Uuid × RuleType :=
  (n.id, n.ruleId, n.pairId, n.type)

def detectedColumns (n : Notification) : Uuid × Decimal := (n.pairId, n.detectedPrice)

def historyColumns (row : PriceHistory) : Uuid × Decimal := (row.pairId, row.lastPrice)

def eventColumns (e : OutboxEvent) : Uuid × Payload := (e.notificationId, e.payload)

/-- The columns that an uncommitted write adds to `alert_rules`. -/
def addedRule : Generated × Write → Option (Uuid × Uuid × Uuid × RuleType)
  | (_, .addAlertRule rule) => some (ruleColumns rule)
  | _ => none

def addedNote : Generated × Write → Option (Uuid × Uuid × Uuid × RuleType)
  | (g, .addNotification n) => some (noteColumns (n.row g))
  | _ => none

def addedEvent : Generated × Write → Option (Uuid × Payload)
  | (_, .addOutboxEvent id payload) => some (id, payload)
  | _ => none

def addedDetected : Generated × Write → Option (Uuid × Decimal)
  | (g, .addNotification n) => some (detectedColumns (n.row g))
  | _ => none

def addedHistory : Generated × Write → Option (Uuid × Decimal)
  | (_, .addPriceHistory row) => some (historyColumns row.stored)
  | _ => none

/-- Nobody adds a user. -/
theorem users_replay (db : Database) (log : List (Generated × Write)) :
    (backend.replay db log).users = db.users := by
  refine backend.replay_inv (P := fun db' : Database => db'.users = db.users) ?_ rfl
  rintro ⟨g, w⟩ _ db' h
  cases w <;> exact h

/-- Nobody adds a pair, or gives it another key. -/
theorem pairs_replay (db : Database) (log : List (Generated × Write)) :
    (backend.replay db log).pairs.map Pair.id = db.pairs.map Pair.id := by
  refine backend.replay_inv
    (P := fun db' : Database => db'.pairs.map Pair.id = db.pairs.map Pair.id) ?_ rfl
  rintro ⟨g, w⟩ _ db' h
  cases w with
  | setPairObservation pairId last bid ask at_ =>
      refine (map_updateWhere ?_ db'.pairs).trans h
      exact fun _ => rfl
  | claimPair pairId at_ =>
      refine (map_updateWhere ?_ db'.pairs).trans h
      exact fun _ => rfl
  | _ => exact h

theorem rules_replay (db : Database) (log : List (Generated × Write)) :
    (backend.replay db log).alertRules.map ruleColumns
      = db.alertRules.map ruleColumns ++ log.filterMap addedRule := by
  refine backend.replay_added (V := fun db : Database => db.alertRules.map ruleColumns) ?_ db
  rintro ⟨g, w⟩ _ db
  cases w with
  | addAlertRule rule => exact List.map_append
  | setRuleLastFiredAt ruleId at_ =>
      refine (map_updateWhere ?_ db.alertRules).trans (List.append_nil _).symm
      exact fun _ => rfl
  | updateAlertRule ruleId changes =>
      refine (map_updateWhere ?_ db.alertRules).trans (List.append_nil _).symm
      exact fun _ => rfl
  | _ => exact (List.append_nil _).symm

theorem notifications_replay (db : Database) (log : List (Generated × Write)) :
    (backend.replay db log).notifications.map noteColumns
      = db.notifications.map noteColumns ++ log.filterMap addedNote := by
  refine backend.replay_added (V := fun db : Database => db.notifications.map noteColumns) ?_ db
  rintro ⟨g, w⟩ _ db
  cases w with
  | addNotification n => exact List.map_append
  | setNotificationSent id at_ =>
      refine (map_updateWhere ?_ db.notifications).trans (List.append_nil _).symm
      exact fun _ => rfl
  | _ => exact (List.append_nil _).symm

theorem detected_replay (db : Database) (log : List (Generated × Write)) :
    (backend.replay db log).notifications.map detectedColumns
      = db.notifications.map detectedColumns ++ log.filterMap addedDetected := by
  refine backend.replay_added (V := fun db : Database => db.notifications.map detectedColumns) ?_ db
  rintro ⟨g, w⟩ _ db
  cases w with
  | addNotification n => exact List.map_append
  | setNotificationSent id at_ =>
      refine (map_updateWhere ?_ db.notifications).trans (List.append_nil _).symm
      exact fun _ => rfl
  | _ => exact (List.append_nil _).symm

theorem events_replay (db : Database) (log : List (Generated × Write)) :
    (backend.replay db log).outboxEvents.map eventColumns
      = db.outboxEvents.map eventColumns ++ log.filterMap addedEvent := by
  refine backend.replay_added (V := fun db : Database => db.outboxEvents.map eventColumns) ?_ db
  rintro ⟨g, w⟩ _ db
  cases w with
  | addOutboxEvent id payload => exact List.map_append
  | setEventFailed id attempts error next =>
      refine (map_updateWhere ?_ db.outboxEvents).trans (List.append_nil _).symm
      exact fun _ => rfl
  | setEventPublished id at_ =>
      refine (map_updateWhere ?_ db.outboxEvents).trans (List.append_nil _).symm
      exact fun _ => rfl
  | _ => exact (List.append_nil _).symm

theorem history_replay (db : Database) (log : List (Generated × Write)) :
    (backend.replay db log).priceHistory.map historyColumns
      = db.priceHistory.map historyColumns ++ log.filterMap addedHistory := by
  refine backend.replay_added (V := fun db : Database => db.priceHistory.map historyColumns) ?_ db
  rintro ⟨g, w⟩ _ db
  cases w with
  | addPriceHistory row => exact List.map_append
  | _ => exact (List.append_nil _).symm

/-! ## References -/

def HasUser (db : Database) (id : Uuid) : Prop := ∃ u ∈ db.users, u.id = id

def HasPair (db : Database) (id : Uuid) : Prop := ∃ p ∈ db.pairs, p.id = id

/-- A rule with this key watches the pair, and is of the type. -/
def HasRule (db : Database) (id pairId : Uuid) (t : RuleType) : Prop :=
  ∃ r ∈ db.alertRules, r.id = id ∧ r.pairId = pairId ∧ r.ruleType = t

/-- What is referred to stays, and so do the columns that are copied. -/
structure Keeps (db db' : Database) : Prop where
  user : ∀ {id}, HasUser db id → HasUser db' id
  pair : ∀ {id}, HasPair db id → HasPair db' id
  rule : ∀ {id pairId t}, HasRule db id pairId t → HasRule db' id pairId t

theorem Keeps.refl (db : Database) : Keeps db db := ⟨fun h => h, fun h => h, fun h => h⟩

theorem Keeps.trans {db db' db'' : Database} (h : Keeps db db') (h' : Keeps db' db'') :
    Keeps db db'' :=
  ⟨fun hu => h'.user (h.user hu), fun hp => h'.pair (h.pair hp), fun hr => h'.rule (h.rule hr)⟩

theorem keeps_replay (db : Database) (log : List (Generated × Write)) :
    Keeps db (backend.replay db log) where
  user := by
    intro id h
    rw [HasUser, users_replay]
    exact h
  pair := by
    rintro id ⟨p, hp, hid⟩
    have hmem : id ∈ (backend.replay db log).pairs.map Pair.id := by
      rw [pairs_replay]
      exact List.mem_map.mpr ⟨p, hp, hid⟩
    exact List.mem_map.mp hmem
  rule := by
    rintro id pairId t ⟨r, hr, hid, hpair, ht⟩
    have hmem : ruleColumns r ∈ (backend.replay db log).alertRules.map ruleColumns := by
      rw [rules_replay]
      exact List.mem_append_left _ (List.mem_map_of_mem hr)
    obtain ⟨r', hr', heq⟩ := List.mem_map.mp hmem
    simp only [ruleColumns, Prod.mk.injEq] at heq
    exact ⟨r', hr', heq.1.trans hid, heq.2.2.1.trans hpair, heq.2.2.2.trans ht⟩

/-- The pairs that a session sees are committed. -/
theorem HasPair.of_replay {db : Database} {log : List (Generated × Write)} {id : Uuid}
    (h : HasPair (backend.replay db log) id) : HasPair db id := by
  obtain ⟨p, hp, hid⟩ := h
  have hmem : id ∈ (backend.replay db log).pairs.map Pair.id := List.mem_map.mpr ⟨p, hp, hid⟩
  rw [pairs_replay] at hmem
  exact List.mem_map.mp hmem

/-- What an uncommitted write refers to: committed rows, and for a notification the
    observation and for an outbox event the notification of its own transaction. -/
def Backed (db : Database) (log : List (Generated × Write)) : Write → Prop
  | .addAlertRule rule => HasUser db rule.userId ∧ HasPair db rule.pairId
  | .addPriceHistory row => HasPair db row.pairId
  | .addNotification n => HasRule db n.ruleId n.pairId n.type
      ∧ ∃ g row, (g, Write.addPriceHistory row) ∈ log
        ∧ historyColumns row = (n.pairId, n.detectedPrice)
  | .addOutboxEvent id payload =>
      ∃ g n, (g, Write.addNotification n) ∈ log ∧ g.id = id ∧ Announces payload (n.row g)
  | _ => True

theorem Backed.mono {db db' : Database} {log log' : List (Generated × Write)} {w : Write}
    (h : Backed db log w) (hdb : Keeps db db') (hlog : log ⊆ log') : Backed db' log' w := by
  cases w with
  | addAlertRule rule => exact ⟨hdb.user h.1, hdb.pair h.2⟩
  | addPriceHistory row => exact hdb.pair h
  | addNotification n =>
      obtain ⟨hrule, g, row, hmem, hrow⟩ := h
      exact ⟨hdb.rule hrule, g, row, hlog hmem, hrow⟩
  | addOutboxEvent id payload =>
      obtain ⟨g, n, hmem, hid, hsays⟩ := h
      exact ⟨g, n, hlog hmem, hid, hsays⟩
  | _ => exact h

/-- What is in a table after a transaction has the columns of an old row, or of a row that
    an entry of the log adds. -/
theorem old_or_added {rows rows' : List α} {columns : α → β} {log : List γ}
    {added : γ → Option β}
    (h : rows'.map columns = rows.map columns ++ log.filterMap added) {x : α} (hx : x ∈ rows') :
    (∃ x₀ ∈ rows, columns x₀ = columns x) ∨ ∃ e ∈ log, added e = some (columns x) := by
  have hmem : columns x ∈ rows.map columns ++ log.filterMap added := by
    rw [← h]
    exact List.mem_map_of_mem hx
  rcases List.mem_append.mp hmem with hold | hnew
  · exact Or.inl (List.mem_map.mp hold)
  · exact Or.inr (List.mem_filterMap.mp hnew)

/-- A transaction of backed writes keeps the tables linked. -/
theorem Linked.replay {db : Database} {log : List (Generated × Write)} (h : Linked db)
    (hlog : ∀ e ∈ log, Backed db log e.2) : Linked (backend.replay db log) := by
  have hkeeps := keeps_replay db log
  constructor
  · intro r hr
    rcases old_or_added (rules_replay db log) hr with ⟨r₀, hr₀, heq⟩ | ⟨⟨g, w⟩, he, hadd⟩
    · simp only [ruleColumns, Prod.mk.injEq] at heq
      obtain ⟨huser, hpair⟩ := h.rules r₀ hr₀
      rw [← heq.2.1, ← heq.2.2.1]
      exact ⟨hkeeps.user huser, hkeeps.pair hpair⟩
    · cases w with
      | addAlertRule rule =>
          simp only [addedRule, ruleColumns, Option.some.injEq, Prod.mk.injEq] at hadd
          obtain ⟨huser, hpair⟩ := hlog _ he
          rw [← hadd.2.1, ← hadd.2.2.1]
          exact ⟨hkeeps.user huser, hkeeps.pair hpair⟩
      | _ => cases hadd
  · intro row hrow
    rcases old_or_added (history_replay db log) hrow with ⟨row₀, hrow₀, heq⟩ | ⟨⟨g, w⟩, he, hadd⟩
    · rw [← (Prod.mk.inj heq).1]
      exact hkeeps.pair (h.history row₀ hrow₀)
    · cases w with
      | addPriceHistory row₀ =>
          rw [← (Prod.mk.inj (Option.some.inj hadd)).1]
          exact hkeeps.pair (hlog _ he)
      | _ => cases hadd
  · intro n hn
    rcases old_or_added (notifications_replay db log) hn with ⟨n₀, hn₀, heq⟩ | ⟨⟨g, w⟩, he, hadd⟩
    · simp only [noteColumns, Prod.mk.injEq] at heq
      rw [← heq.2.1, ← heq.2.2.1, ← heq.2.2.2]
      exact hkeeps.rule (h.notifications n₀ hn₀)
    · cases w with
      | addNotification n₀ =>
          simp only [addedNote, noteColumns, Option.some.injEq, Prod.mk.injEq] at hadd
          rw [← hadd.2.1, ← hadd.2.2.1, ← hadd.2.2.2]
          exact hkeeps.rule (hlog _ he).1
      | _ => cases hadd
  · -- The observation of a notification is there: it was, or it comes with the notification.
    have hobserved : ∀ {columns}, columns ∈ db.priceHistory.map historyColumns
        ++ log.filterMap addedHistory →
          ∃ row ∈ (backend.replay db log).priceHistory,
            row.pairId = columns.1 ∧ row.lastPrice = columns.2 := by
      intro columns hmem
      rw [← history_replay] at hmem
      obtain ⟨row, hrow, rfl⟩ := List.mem_map.mp hmem
      exact ⟨row, hrow, rfl, rfl⟩
    intro n hn
    rcases old_or_added (detected_replay db log) hn with ⟨n₀, hn₀, heq⟩ | ⟨⟨g, w⟩, he, hadd⟩
    · simp only [detectedColumns, Prod.mk.injEq] at heq
      obtain ⟨row, hrow, hpair, hprice⟩ := h.observed n₀ hn₀
      rw [← heq.1, ← heq.2, ← hpair, ← hprice]
      exact hobserved (List.mem_append_left _ (List.mem_map_of_mem hrow))
    · cases w with
      | addNotification n₀ =>
          simp only [addedDetected, detectedColumns, Option.some.injEq, Prod.mk.injEq] at hadd
          obtain ⟨-, g', row, hrow, hcolumns⟩ := hlog _ he
          obtain ⟨hpair, hprice⟩ := Prod.mk.inj hcolumns
          have hadded : addedHistory (g', .addPriceHistory row) = some (n.pairId, n.detectedPrice) := by
            rw [← hadd.1, ← hadd.2]
            show some (row.pairId, row.lastPrice.numeric 8) = some (n₀.pairId, n₀.detectedPrice.numeric 8)
            rw [hpair, hprice]
          exact hobserved (List.mem_append_right _ (List.mem_filterMap.mpr ⟨_, hrow, hadded⟩))
      | _ => cases hadd
  · -- The notification of an event is there: it was, or it comes with the event.
    have hannounced : ∀ {id payload} {m : Notification},
        noteColumns m ∈ db.notifications.map noteColumns ++ log.filterMap addedNote →
          m.id = id → Announces payload m →
            ∃ n ∈ (backend.replay db log).notifications, n.id = id ∧ Announces payload n := by
      intro id payload m hm hid hsays
      rw [← notifications_replay] at hm
      obtain ⟨n, hn, heq⟩ := List.mem_map.mp hm
      simp only [noteColumns, Prod.mk.injEq] at heq
      exact ⟨n, hn, heq.1.trans hid, hsays.notification.trans heq.1.symm,
        hsays.rule.trans heq.2.1.symm, hsays.pair.trans heq.2.2.1.symm,
        hsays.type.trans heq.2.2.2.symm⟩
    intro e he
    rcases old_or_added (events_replay db log) he with ⟨e₀, he₀, heq⟩ | ⟨⟨g, w⟩, hw, hadd⟩
    · simp only [eventColumns, Prod.mk.injEq] at heq
      obtain ⟨n, hn, hid, hsays⟩ := h.events e₀ he₀
      rw [← heq.1, ← heq.2]
      exact hannounced (List.mem_append_left _ (List.mem_map_of_mem hn)) hid hsays
    · cases w with
      | addOutboxEvent id payload =>
          simp only [addedEvent, eventColumns, Option.some.injEq, Prod.mk.injEq] at hadd
          obtain ⟨g', n, hn, hid, hsays⟩ := hlog _ hw
          rw [← hadd.1, ← hadd.2]
          exact hannounced (List.mem_append_right _ (List.mem_filterMap.mpr ⟨_, hn, rfl⟩)) hid hsays
      | _ => cases hadd

/-! ## The interleavings -/

/-- The rules of an index are rules of the tables, each in the bucket of its pair. -/
def Indexes (db : Database) (m : Memory) : Prop :=
  ∀ pairId, ∀ r ∈ (m.rulesForPair pairId).all, HasRule db r.id pairId r.ruleType

theorem Indexes.mono {db db' : Database} {m : Memory} (h : Indexes db m) (hdb : Keeps db db') :
    Indexes db' m := fun pairId r hr => hdb.rule (h pairId r hr)

theorem Indexes.install {db : Database} {rules : List AlertRule} {buckets : Dict Uuid PairRules}
    (hb : bucketRules rules = .ok buckets) (hrules : ∀ r ∈ rules, HasRule db r.id r.pairId r.ruleType)
    (m : Memory) : Indexes db (m.install rules buckets) := by
  intro pairId r hr
  rw [m.rulesForPair_install hb, (bucketOf rules pairId).all_sorted_perm.mem_iff,
    (all_bucketOf_perm rules pairId).mem_iff, List.mem_filter, beq_iff_eq] at hr
  obtain ⟨hmem, hpair⟩ := hr
  rw [← hpair]
  exact hrules r hmem

/-- The invariant: the tables are linked, what is not committed is backed, and every
    process has an index of rules that are there. -/
structure Sound (f : Shared) : Prop where
  linked : Linked f.db
  backed : ∀ i s, f.sessions i = some s → ∀ e ∈ s.log, Backed f.db s.log e.2
  indexes : ∀ proc, Indexes f.db (f.mem proc)

/-- A command that thread `i` may issue. -/
def Allows (i : Nat) (f : Shared) :
    ∀ β : Type, Cmd Database Write Generated MemOp ExtOp β → Prop
  | _, .write w => ∀ s, f.sessions i = some s → Backed f.db s.log w
  | _, .insert w => ∀ s, f.sessions i = some s → Backed f.db s.log w
  | _, .mem (.install rules buckets) =>
      bucketRules rules = .ok buckets ∧ ∀ r ∈ rules, HasRule f.db r.id r.pairId r.ruleType
  | _, _ => True

section Invariant

variable {i : Nat} {f f' : Shared}

theorem Sound.put (h : Sound f) (i : Nat) (s : Option (Session Generated Write))
    (hs : ∀ s', s = some s' → ∀ e ∈ s'.log, Backed f.db s'.log e.2) : Sound (f.put i s) where
  linked := h.linked
  backed := by
    intro j s' hs' e he
    by_cases hji : j = i
    · rw [hji, Frame.put_self] at hs'
      exact hs s' hs' e he
    · rw [f.put_of_ne hji] at hs'
      exact h.backed j s' hs' e he
  indexes := h.indexes

theorem Sound.put_empty (h : Sound f) (i : Nat) {s : Option (Session Generated Write)}
    (hs : ∀ s', s = some s' → s'.log = []) : Sound (f.put i s) := by
  refine h.put i s ?_
  intro s' hs' e he
  rw [hs s' hs'] at he
  exact absurd he List.not_mem_nil

theorem Sound.log (h : Sound f) {s : Session Generated Write} (hs : f.sessions i = some s)
    {e : Generated × Write} (he : Backed f.db s.log e.2) : Sound (f.log i s e) := by
  refine h.put i _ ?_
  intro s' hs' x hx
  rw [← Option.some.inj hs'] at hx ⊢
  have hgrows : s.log ⊆ s.log ++ [e] := List.subset_append_left _ _
  rcases List.mem_append.mp hx with hold | hnew
  · exact (h.backed i s hs x hold).mono (Keeps.refl _) hgrows
  · rw [List.mem_singleton.mp hnew]
    exact he.mono (Keeps.refl _) hgrows

/-- A commit, and what the others have written is still backed. -/
theorem Sound.commit (h : Sound f) {s : Session Generated Write} (hs : f.sessions i = some s) :
    Sound (f.commit backend i s) := by
  have hkeeps := keeps_replay f.db s.log
  have hput : Sound (f.put i (some { s with log := [] })) :=
    h.put_empty i (fun s' hs' => by rw [← Option.some.inj hs'])
  refine ⟨h.linked.replay (h.backed i s hs), ?_, fun proc => (h.indexes proc).mono hkeeps⟩
  intro j s' hs' e he
  exact (hput.backed j s' hs' e he).mono hkeeps (List.Subset.refl _)

/-- One command of one thread. -/
theorem Sound.exec {rt : Runtime} {settings : Settings} {β : Type}
    {cmd : Cmd Database Write Generated MemOp ExtOp β} {b : β} (h : Sound f)
    (hcmd : Allows i f β cmd) (he : Effect (deployment rt settings) i f β cmd b f') :
    Sound f' ∧ Keeps f.db f'.db := by
  obtain ⟨s, hs, he⟩ := he
  cases cmd with
  | query q =>
      obtain ⟨-, rfl⟩ := he
      exact ⟨h, Keeps.refl _⟩
  | write w =>
      obtain ⟨g, -, rfl⟩ := he
      exact ⟨h.log hs (hcmd s hs), Keeps.refl _⟩
  | insert w =>
      cases b with
      | none =>
          obtain ⟨-, rfl⟩ := he
          exact ⟨h, Keeps.refl _⟩
      | some g =>
          obtain ⟨-, -, rfl⟩ := he
          exact ⟨h.log hs (hcmd s hs), Keeps.refl _⟩
  | commit =>
      obtain rfl := he
      exact ⟨h.commit hs, keeps_replay f.db s.log⟩
  | mem m =>
      obtain ⟨-, rfl⟩ := he
      refine ⟨⟨h.linked, h.backed, ?_⟩, Keeps.refl _⟩
      intro proc
      show Indexes f.db (Function.update f.mem s.proc _ proc)
      by_cases hproc : proc = s.proc
      · rw [hproc, Function.update_self]
        cases m with
        | install rules buckets => exact Indexes.install hcmd.1 hcmd.2 _
        | _ => exact h.indexes s.proc
      · rw [Function.update_of_ne hproc]
        exact h.indexes proc
  | ask e =>
      obtain ⟨x, -, rfl⟩ := he
      exact ⟨⟨h.linked, h.backed, h.indexes⟩, Keeps.refl _⟩

end Invariant

/-- Rely: the others leave the session alone, and the columns that are referred to. -/
def discipline (rt : Runtime) (settings : Settings) : Discipline (deployment rt settings) where
  J := Sound
  R := fun i f f' => f'.sessions i = f.sessions i ∧ Keeps f.db f'.db
  Own := fun _ f f' => Keeps f.db f'.db
  refl := fun _ f => ⟨rfl, Keeps.refl f.db⟩
  trans := fun h h' => ⟨h'.1.trans h.1, h.2.trans h'.2⟩
  idle := fun _ f => Keeps.refl f.db
  others := fun _ he hown _ hj _ => ⟨he.sessions_of_ne hj, hown⟩
  opens := fun h _ _ =>
    ⟨h.put_empty _ (fun s' hs' => by rw [← Option.some.inj hs']),
      fun _ hj _ => ⟨Frame.put_of_ne _ hj _, Keeps.refl _⟩⟩
  closes := fun h _ =>
    ⟨h.put_empty _ (fun _ hs' => by cases hs'),
      fun _ hj _ => ⟨Frame.put_of_ne _ hj _, Keeps.refl _⟩⟩

/-! ## Rules -/

section Rules

variable {rt : Runtime} {settings : Settings} {i : Nat} {α β : Type} {P : Shared → Prop}
  {cmd : Cmd Database Write Generated MemOp ExtOp β} {Q : α → Shared → Prop}

/-- An assertion that lasts until the session commits, whoever steps. -/
def Lasting (i : Nat) (P : Shared → Prop) : Prop :=
  ∀ f f', P f → (∀ s, f.sessions i = some s → ∃ s', f'.sessions i = some s' ∧ s.log ⊆ s'.log) →
    Keeps f.db f'.db → P f'

theorem Lasting.stable (hP : Lasting i P) : (discipline rt settings).Stable i P := by
  rintro f f' h ⟨hsession, hkeeps⟩ -
  refine hP f f' h ?_ hkeeps
  intro s hs
  exact ⟨s, hsession.trans hs, List.Subset.refl _⟩

theorem lasting_true (i : Nat) : Lasting i (fun _ => True) := fun _ _ _ _ _ => trivial

/-- The session has written it, and not yet committed. -/
def Wrote (i : Nat) (e : Generated × Write) (f : Shared) : Prop :=
  ∃ s, f.sessions i = some s ∧ e ∈ s.log

theorem lasting_wrote (i : Nat) (e : Generated × Write) : Lasting i (Wrote i e) := by
  rintro f f' ⟨s, hs, he⟩ hlog -
  obtain ⟨s', hs', hsub⟩ := hlog s hs
  exact ⟨s', hs', hsub he⟩

/-- Before its commit a session only writes more. -/
theorem logs_of_effect {f f' : Shared} {b : β} (hc : cmd.isCommit = false)
    (he : Effect (deployment rt settings) i f β cmd b f') :
    ∀ s, f.sessions i = some s → ∃ s', f'.sessions i = some s' ∧ s.log ⊆ s'.log := by
  intro s hs
  obtain ⟨s₀, hs₀, he⟩ := he
  obtain rfl := Option.some.inj (hs₀.symm.trans hs)
  cases cmd with
  | query q => exact ⟨s₀, he.2 ▸ hs, List.Subset.refl _⟩
  | write w =>
      obtain ⟨g, -, rfl⟩ := he
      exact ⟨_, f.put_self i _, List.subset_append_left _ _⟩
  | insert w =>
      cases b with
      | none => exact ⟨s₀, he.2 ▸ hs, List.Subset.refl _⟩
      | some g =>
          obtain ⟨-, -, rfl⟩ := he
          exact ⟨_, f.put_self i _, List.subset_append_left _ _⟩
  | commit => cases hc
  | mem m =>
      obtain ⟨-, rfl⟩ := he
      exact ⟨s₀, hs, List.Subset.refl _⟩
  | ask e =>
      obtain ⟨x, -, rfl⟩ := he
      exact ⟨s₀, hs, List.Subset.refl _⟩

/-- A command before the commit. -/
theorem triple_command {k : β → Tx α} (hc : cmd.isCommit = false) (hP : Lasting i P)
    (hcmd : ∀ f, Sound f → P f → Allows i f β cmd)
    (hk : ∀ b, (discipline rt settings).Triple i P (k b) Q) :
    (discipline rt settings).Triple i P (.step cmd k) Q := by
  refine Discipline.Triple.step hP.stable ?_ hk
  intro f b f' hJ hPf he _
  obtain ⟨hJ', hkeeps⟩ := hJ.exec (hcmd f hJ hPf) he
  exact ⟨hJ', hkeeps, hP f f' hPf (logs_of_effect hc he) hkeeps⟩

/-- A query, and what its answer says of the tables. -/
theorem triple_query {q : Database → β} {k : β → Tx α} {R : β → Shared → Prop}
    (hP : (discipline rt settings).Stable i P)
    (hR : ∀ f s, P f → f.sessions i = some s → R (q (backend.replay f.db s.log)) f)
    (hk : ∀ b, (discipline rt settings).Triple i (R b) (k b) Q) :
    (discipline rt settings).Triple i P (.step (.query q) k) Q := by
  refine Discipline.Triple.step hP ?_ hk
  rintro f b f' hJ hPf ⟨s, hs, rfl, rfl⟩ -
  exact ⟨hJ, Keeps.refl _, hR _ s hPf hs⟩

/-- An insert that is not refused is in the log. -/
theorem triple_insert {n : NewNotification} {k : Option Generated → Tx α} (hP : Lasting i P)
    (hcmd : ∀ f, P f → Allows i f _ (.insert (.addNotification n)))
    (hrefused : (discipline rt settings).Triple i P (k none) Q)
    (hinserted : ∀ g, (discipline rt settings).Triple i
      (fun f => P f ∧ Wrote i (g, .addNotification n) f) (k (some g)) Q) :
    (discipline rt settings).Triple i P (.step (.insert (.addNotification n)) k) Q := by
  refine Discipline.Triple.step
    (R := fun b f => P f ∧ ∀ g, b = some g → Wrote i (g, .addNotification n) f) hP.stable ?_ ?_
  · intro f b f' hJ hPf he _
    obtain ⟨hJ', hkeeps⟩ := hJ.exec (hcmd f hPf) he
    refine ⟨hJ', hkeeps, hP f f' hPf (logs_of_effect rfl he) hkeeps, ?_⟩
    rintro g rfl
    obtain ⟨s, -, -, -, rfl⟩ := he
    exact ⟨_, f.put_self i _, List.mem_append_right _ (List.mem_singleton_self _)⟩
  · intro b
    cases b with
    | none => exact hrefused.conseq (fun _ h => h.1) (fun _ _ h => h)
    | some g => exact (hinserted g).conseq (fun _ h => ⟨h.1, h.2 g rfl⟩) (fun _ _ h => h)

/-- A write is in the log. -/
theorem triple_write {w : Write} {k : Unit → Tx α} (hP : Lasting i P)
    (hcmd : ∀ f, P f → Allows i f _ (.write w))
    (hk : (discipline rt settings).Triple i (fun f => P f ∧ ∃ g, Wrote i (g, w) f) (k ()) Q) :
    (discipline rt settings).Triple i P (.step (.write w) k) Q := by
  refine Discipline.Triple.step (R := fun _ f => P f ∧ ∃ g, Wrote i (g, w) f) hP.stable ?_
    (fun _ => hk)
  intro f b f' hJ hPf he _
  obtain ⟨hJ', hkeeps⟩ := hJ.exec (hcmd f hPf) he
  refine ⟨hJ', hkeeps, hP f f' hPf (logs_of_effect rfl he) hkeeps, ?_⟩
  obtain ⟨s, -, g, -, rfl⟩ := he
  exact ⟨g, _, f.put_self i _, List.mem_append_right _ (List.mem_singleton_self _)⟩

/-- A program that refers to nothing. -/
abbrev Harmless {α : Type} (p : Tx α) : Prop :=
  p.Sat (fun β cmd => ∀ i f, Allows i f β cmd) (fun _ => True)

theorem triple_of_harmless {α : Type} {p : Tx α} (hp : Harmless p) :
    (discipline rt settings).Triple i (fun _ => True) p (fun _ _ => True) := by
  refine (Discipline.Triple.of_sat hp (lasting_true i).stable ?_).conseq (fun _ h => h)
    (fun _ _ _ => trivial)
  intro β cmd f b f' hcmd hJ _ he _
  obtain ⟨hJ', hkeeps⟩ := hJ.exec (hcmd i f) he
  exact ⟨hJ', hkeeps, trivial⟩

end Rules

/-! ## The programs -/

section Programs

variable {rt : Runtime} {settings : Settings} {i : Nat}

theorem harmless_commitRule (ruleId : Uuid) (done : String) :
    Harmless (commitRule settings ruleId done) := by
  refine ⟨fun _ _ => trivial, fun _ => ⟨fun _ _ => trivial, fun row => ?_⟩⟩
  cases row with
  | none => exact trivial
  | some rule => exact ⟨fun _ _ => trivial, fun _ => trivial⟩

theorem harmless_updateRule (ruleId : Uuid) (body : UpdateRuleRequest) :
    Harmless (updateRule settings ruleId body) := by
  refine ⟨fun _ _ => trivial, fun loaded => ?_⟩
  cases loaded with
  | none => exact trivial
  | some rule =>
      show Harmless (updateLoaded settings rule body)
      rw [updateLoaded]
      split
      · exact trivial
      · cases body.changes rule with
        | none => exact trivial
        | some changes =>
            refine Script.Sat.bind (Q := fun _ => True) ?_ (fun _ _ => harmless_commitRule _ _)
            rw [flushRule]
            split
            · exact trivial
            · split
              · exact ⟨fun _ _ _ _ => trivial, fun _ => trivial⟩
              · exact trivial

theorem harmless_enqueueDuePairs : Harmless (enqueueDuePairs settings) := by
  refine (enqueueDuePairs_commands settings).mono ?_ (fun _ h => h)
  intro β cmd hcmd i f
  cases cmd with
  | write w =>
      cases w with
      | claimPair pairId t => exact fun _ _ => trivial
      | _ => exact hcmd.elim
  | insert w => exact hcmd.elim
  | mem m => exact hcmd.elim
  | _ => exact trivial

theorem harmless_publishPending (topicArn : String) (scan : Scan) :
    Harmless (publishPending settings topicArn scan) := by
  refine (publishPending_commands settings topicArn scan).mono ?_ (fun _ h => h)
  intro β cmd hcmd i f
  cases cmd with
  | write w =>
      cases w with
      | setEventFailed id attempts error t => exact fun _ _ => trivial
      | setEventPublished id t => exact fun _ _ => trivial
      | setNotificationSent id t => exact fun _ _ => trivial
      | _ => exact hcmd.elim
  | insert w => exact hcmd.elim
  | mem m => exact hcmd.elim
  | _ => exact trivial

/-- A POST adds its rule when it has seen the pair and the user. -/
theorem triple_createRule (body : CreateRuleRequest) :
    (discipline rt settings).Triple i (fun _ => True) (createRule settings body)
      (fun _ _ => True) := by
  refine triple_query (R := fun pair f => ∀ p, pair = some p → HasPair f.db body.pairId)
    (lasting_true i).stable ?_ ?_
  · intro f s _ _ p hp
    have hid := List.find?_some hp
    exact HasPair.of_replay ⟨p, List.mem_of_find?_eq_some hp, beq_iff_eq.mp hid⟩
  intro pair
  cases pair with
  | none => exact Discipline.Triple.done (fun _ _ _ => trivial)
  | some pair =>
      refine triple_query (P := fun f => ∀ p, some pair = some p → HasPair f.db body.pairId)
        (R := fun user f => HasPair f.db body.pairId ∧ ∀ u, user = some u → HasUser f.db body.userId)
        ?_ ?_ ?_
      -- The pair that the first SELECT found is still there, as no row is deleted.
      · rintro f f' h ⟨-, hkeeps⟩ -
        exact fun p hp => hkeeps.pair (h p hp)
      · intro f s hpair _
        refine ⟨hpair pair rfl, ?_⟩
        intro u hu
        have hid := List.find?_some hu
        have hmem := List.mem_of_find?_eq_some hu
        rw [users_replay] at hmem
        exact ⟨u, hmem, beq_iff_eq.mp hid⟩
      intro user
      cases user with
      | none => exact Discipline.Triple.done (fun _ _ _ => trivial)
      | some user =>
          have hlasting : Lasting i
              (fun f => HasUser f.db body.userId ∧ HasPair f.db body.pairId) :=
            fun _ _ h _ hdb => ⟨hdb.user h.1, hdb.pair h.2⟩
          refine Discipline.Triple.conseq (P := fun f => HasUser f.db body.userId
            ∧ HasPair f.db body.pairId) ?_ (fun f h => ⟨h.2 user rfl, h.1⟩) (fun _ _ h => h)
          refine triple_command rfl hlasting (fun _ _ _ => trivial) ?_
          intro ruleId
          show (discipline rt settings).Triple i _ (addRule (body.rule ruleId) >>= fun _ =>
            commitRule settings ruleId "created") _
          refine Discipline.Triple.bind (Q := fun _ _ => True) ?_
            (fun _ => triple_of_harmless (harmless_commitRule _ _))
          rw [addRule]
          split
          · refine triple_command rfl hlasting ?_
              (fun _ => Discipline.Triple.done (fun _ _ _ => trivial))
            exact fun f _ h _ _ => h
          · exact Discipline.Triple.fail

/-- A session that has written nothing yet. -/
def Unwritten (i : Nat) (f : Shared) : Prop := ∃ proc, f.sessions i = some ⟨proc, []⟩

/-- What a rebuild swaps in are rows it has seen committed. -/
theorem triple_rebuild :
    (discipline rt settings).Triple i (Unwritten i) rebuild (fun _ _ => True) := by
  have hstable : (discipline rt settings).Stable i (Unwritten i) := by
    rintro f f' ⟨proc, hs⟩ ⟨hsame, -⟩ -
    exact ⟨proc, hsame.trans hs⟩
  refine triple_query
    (R := fun rules f => ∀ r ∈ rules, HasRule f.db r.id r.pairId r.ruleType) hstable ?_ ?_
  · rintro f s ⟨proc, hopen⟩ hs r hr
    obtain rfl := Option.some.inj (hopen.symm.trans hs)
    exact ⟨r, List.mem_of_mem_filter hr, rfl, rfl, rfl⟩
  intro rules
  have hlasting : Lasting i (fun f => ∀ r ∈ rules, HasRule f.db r.id r.pairId r.ruleType) :=
    fun _ _ h _ hdb r hr => hdb.rule (h r hr)
  cases hb : bucketRules rules with
  | error e =>
      show (discipline rt settings).Triple i _ (Tx.lift (bucketRules rules) >>= _) _
      rw [hb]
      exact Discipline.Triple.fail
  | ok buckets =>
      show (discipline rt settings).Triple i _ (Tx.lift (bucketRules rules) >>= _) _
      rw [hb]
      exact triple_command rfl hlasting (fun f _ h => ⟨hb, h⟩)
        (fun _ => Discipline.Triple.done (fun _ _ _ => trivial))

/-! ### A batch -/

/-- The session has added a row of the pair with the price of an observation. -/
def Observed (i : Nat) (pair : Pair) (obs : Observation) (f : Shared) : Prop :=
  ∃ g row, Wrote i (g, .addPriceHistory row) f ∧ historyColumns row = (pair.id, obs.last)

theorem lasting_observed (i : Nat) (pair : Pair) (obs : Observation) :
    Lasting i (Observed i pair obs) := by
  rintro f f' ⟨g, row, hwrote, hrow⟩ hlog hdb
  exact ⟨g, row, lasting_wrote i _ f f' hwrote hlog hdb, hrow⟩

theorem triple_finishFire {P : Shared → Prop} (hP : Lasting i P) (pair : Pair) (obs : Observation)
    (generation : Nat) (c : Candidates rt) (rule : AlertRule) (suppressed : Bool) (g : Generated) :
    (discipline rt settings).Triple i
      (fun f => P f ∧ Wrote i (g, .addNotification (newNotification rt pair obs rule suppressed)) f)
      (finishFire rt pair obs generation c rule suppressed
        (newNotification rt pair obs rule suppressed) g) (fun _ => P) := by
  have hlasting : Lasting i (fun f => P f
      ∧ Wrote i (g, .addNotification (newNotification rt pair obs rule suppressed)) f) :=
    fun f f' h hlog hdb => ⟨hP f f' h.1 hlog hdb, lasting_wrote i _ f f' h.2 hlog hdb⟩
  have hfired : (discipline rt settings).Triple i P
      (.step (.mem (.setLastFiredAt generation rule.id obs.observedAt)) fun _ =>
        .step (.write (.setRuleLastFiredAt rule.id obs.observedAt)) fun _ =>
          pure (some (flushed g (newNotification rt pair obs rule suppressed)))) (fun _ => P) := by
    refine triple_command rfl hP (fun _ _ _ => trivial) ?_
    intro _
    exact triple_command rfl hP (fun _ _ _ _ _ => trivial)
      (fun _ => Discipline.Triple.done (fun _ _ h => h))
  cases suppressed with
  | true => exact hfired.conseq (fun _ h => h.1) (fun _ _ h => h)
  | false =>
      refine Discipline.Triple.bind (Q := fun _ => P) ?_ (fun _ => hfired)
      refine Discipline.Triple.bind (Discipline.Triple.lift (fun _ _ _ _ h => h)) ?_
      intro message
      refine triple_command rfl hlasting ?_ (fun _ => Discipline.Triple.done (fun _ _ h => h.1))
      -- The payload copies what the notification copies.
      rintro f - ⟨-, s, hs, hmem⟩ s' hs'
      obtain rfl := Option.some.inj (hs.symm.trans hs')
      exact ⟨g, _, hmem, rfl, ⟨rfl, rfl, rfl, rfl⟩⟩

theorem triple_fireRule {P : Shared → Prop} (hP : Lasting i P) {pair : Pair} {rule : AlertRule}
    (hrule : ∀ f, P f → HasRule f.db rule.id pair.id rule.ruleType) {obs : Observation}
    (hobs : ∀ f, P f → Observed i pair obs f) (generation : Nat) (c : Candidates rt) :
    (discipline rt settings).Triple i P (fireRule rt pair obs generation c rule) (fun _ => P) := by
  refine triple_command rfl hP (fun _ _ _ => trivial) ?_
  intro existing
  cases existing with
  | some id => exact Discipline.Triple.done (fun _ _ h => h)
  | none =>
      refine triple_command rfl hP (fun _ _ _ => trivial) ?_
      intro lastFiredAt
      refine triple_insert hP ?_ (Discipline.Triple.done (fun _ _ h => h)) ?_
      · intro f h s hs
        obtain ⟨g, row, ⟨s', hs', hmem⟩, hrow⟩ := hobs f h
        obtain rfl := Option.some.inj (hs.symm.trans hs')
        exact ⟨hrule f h, g, row, hmem, hrow⟩
      exact fun g => triple_finishFire hP pair obs generation c rule _ g

/-- The candidates are rules of the bucket, so they are there and watch the pair. -/
theorem triple_evaluateRulesForPair {P : Shared → Prop} (hP : Lasting i P) {pair : Pair}
    {obs : Observation} (hobs : ∀ f, P f → Observed i pair obs f) :
    (discipline rt settings).Triple i P (evaluateRulesForPair rt settings pair obs)
      (fun _ => P) := by
  rw [evaluateRulesForPair, Script.call_bind]
  refine Discipline.Triple.step
    (R := fun b f => P f ∧ ∀ r ∈ b.2.all, HasRule f.db r.id pair.id r.ruleType) hP.stable ?_ ?_
  · intro f b f' hJ hPf he _
    have hallowed : Allows i f _ (.mem (.rulesForPair pair.id)) := trivial
    have hkept := (hJ.exec hallowed he).1
    obtain ⟨s, hs, rfl, rfl⟩ := he
    refine ⟨hkept, Keeps.refl _, ?_, hJ.indexes s.proc pair.id⟩
    exact hP _ _ hPf (fun s' hs' => ⟨s', hs', List.Subset.refl _⟩) (Keeps.refl _)
  · rintro ⟨generation, b⟩
    have hlasting : Lasting i
        (fun f => P f ∧ ∀ r ∈ b.all, HasRule f.db r.id pair.id r.ruleType) :=
      fun f f' h hlog hdb => ⟨hP f f' h.1 hlog hdb, fun r hr => hdb.rule (h.2 r hr)⟩
    refine Discipline.Triple.bind (Discipline.Triple.of_reads
      (selectCandidates_subset rt settings pair obs b) hlasting.stable) ?_
    intro c
    have hcandidates : Lasting i (fun f => (∀ rule ∈ c.rules, rule ∈ b.all)
        ∧ P f ∧ ∀ r ∈ b.all, HasRule f.db r.id pair.id r.ruleType) :=
      fun f f' h hlog hdb => ⟨h.1, hlasting f f' h.2 hlog hdb⟩
    refine (triple_rules ?_).conseq (fun _ h => h) (fun _ _ h => h.2.1)
    intro rule hrule
    exact triple_fireRule hcandidates (fun f h => h.2.2 rule (h.1 rule hrule))
      (fun f h => hobs f h.2.1) generation c

theorem triple_observePair {P : Shared → Prop} (hP : Lasting i P) {pair : Pair}
    (hpair : ∀ f, P f → HasPair f.db pair.id) (quote : Quote) (t : Instant) :
    (discipline rt settings).Triple i P (observePair rt settings pair quote t) (fun _ => P) := by
  rw [observePair, Script.call_bind, Script.call_bind]
  refine triple_write hP (fun f h _ _ => hpair f h) ?_
  have hobserved : Lasting i (fun f => P f ∧ Observed i pair (quoteObservation quote t) f) :=
    fun f f' h hlog hdb => ⟨hP f f' h.1 hlog hdb, lasting_observed i pair _ f f' h.2 hlog hdb⟩
  refine Discipline.Triple.conseq
    (P := fun f => P f ∧ Observed i pair (quoteObservation quote t) f) ?_
    (fun f h => ⟨h.1, h.2.elim fun g hg => ⟨g, _, hg, rfl⟩⟩) (fun _ _ h => h)
  refine triple_command rfl hobserved (fun _ _ _ _ _ => trivial) ?_
  intro _
  exact Discipline.Triple.bind (triple_evaluateRulesForPair hobserved (fun _ h => h.2))
    (fun _ => Discipline.Triple.done (fun _ _ h => h.1))

theorem triple_observeAll {P : Shared → Prop} (hP : Lasting i P) {pairs : Dict String Pair}
    (hpairs : ∀ name pair, pairs.get? name = some pair → ∀ f, P f → HasPair f.db pair.id)
    (quotes : Dict String Quote) (t : Instant) (entries : List (String × Message)) :
    (discipline rt settings).Triple i P (observeAll rt settings pairs quotes t entries)
      (fun _ => P) := by
  induction entries with
  | nil => exact Discipline.Triple.done (fun _ _ h => h)
  | cons entry rest ih =>
      obtain ⟨name, message⟩ := entry
      rw [observeAll]
      cases quotes.get? name with
      | none => exact ih
      | some quote =>
          cases hpair : pairs.get? name with
          | none => exact Discipline.Triple.fail
          | some pair =>
              refine Discipline.Triple.bind
                (triple_observePair hP (hpairs name pair hpair) quote t) ?_
              intro _
              exact Discipline.Triple.bind ih (fun _ => Discipline.Triple.done (fun _ _ h => h))

theorem harmless_deleteBatch (messages : List Message) : Harmless (deleteBatch messages) := by
  rw [deleteBatch]
  split
  · exact trivial
  · exact ⟨fun _ _ => trivial, fun _ => trivial⟩

/-- The pairs of a batch are rows it has loaded. -/
theorem triple_processBatch (messages : List Message) :
    (discipline rt settings).Triple i (fun _ => True) (processBatch rt settings messages)
      (fun _ _ => True) := by
  refine Discipline.Triple.bind (Discipline.Triple.lift (fun _ _ _ _ h => h)) ?_
  intro byPairId
  split
  · exact Discipline.Triple.done (fun _ _ _ => trivial)
  refine triple_query (R := fun rows f => ∀ p ∈ rows, HasPair f.db p.id) (lasting_true i).stable ?_ ?_
  · intro f s _ _ p hp
    exact HasPair.of_replay ⟨p, List.mem_of_mem_filter hp, rfl⟩
  intro rows
  have hlasting : Lasting i (fun f => ∀ p ∈ rows, HasPair f.db p.id) :=
    fun _ _ h _ hdb p hp => hdb.pair (h p hp)
  show (discipline rt settings).Triple i _
    (if (liveEntries byPairId (pairsById rows)).isEmpty then deleteBatch _
      else processLive rt settings _ (liveEntries byPairId (pairsById rows))) _
  split
  · exact (triple_of_harmless (harmless_deleteBatch _)).conseq (fun _ _ => trivial) (fun _ _ h => h)
  refine triple_command rfl hlasting (fun _ _ _ => trivial) ?_
  intro quotes
  cases quotes with
  | none =>
      exact (triple_of_harmless (harmless_deleteBatch _)).conseq (fun _ _ => trivial)
        (fun _ _ h => h)
  | some quotes =>
      refine triple_command rfl hlasting (fun _ _ _ => trivial) ?_
      intro observedAt
      show (discipline rt settings).Triple i _ (observeAll rt settings
        (pairByCanonical (liveEntries byPairId (pairsById rows))) quotes observedAt _ >>=
          fun toDelete => .step .commit fun _ => deleteBatch _) _
      refine Discipline.Triple.bind (triple_observeAll hlasting ?_ quotes observedAt _) ?_
      · -- A pair of the dictionary is one of the rows.
        intro name pair hpair f hrows
        obtain ⟨-, message, hlive⟩ := pairByCanonical_mem hpair
        rcases Dict.get?_foldl_set Pair.id id (get?_of_mem_liveEntries hlive) with
          hnil | ⟨row, hrow, hid, -⟩
        · cases hnil
        · rw [← hid]
          exact hrows row hrow
      · intro toDelete
        exact (triple_of_harmless (p := Tx.commit >>= fun _ => deleteBatch _)
          ⟨fun _ _ => trivial, fun _ => harmless_deleteBatch _⟩).conseq (fun _ _ => trivial)
          (fun _ _ h => h)

theorem triple_thread {α : Type} {p : Tx α} {P : Shared → Prop}
    (hp : (discipline rt settings).Triple i P p (fun _ _ => True)) :
    (discipline rt settings).Triple i P (thread p) (fun _ _ => True) :=
  Discipline.Triple.bind hp (fun _ => Discipline.Triple.done (fun _ _ h => h))

theorem verified : (discipline rt settings).Verified := by
  intro f i proc p hJ hi hp
  have hopen := ((discipline rt settings).opens hJ hi hp).1
  have hprogram : Program rt settings p := hp
  cases hprogram with
  | post body => exact triple_thread (triple_createRule body) _ hopen trivial
  | patch ruleId body =>
      exact triple_thread (triple_of_harmless (harmless_updateRule ruleId body)) _ hopen trivial
  | tick => exact triple_thread (triple_of_harmless harmless_enqueueDuePairs) _ hopen trivial
  | batch messages => exact triple_thread (triple_processBatch messages) _ hopen trivial
  | rebuild => exact triple_thread triple_rebuild _ hopen ⟨proc, f.put_self i _⟩
  | publish topicArn scan =>
      exact triple_thread (triple_of_harmless (harmless_publishPending topicArn scan)) _ hopen
        trivial

end Programs

/-- Linked tables under their keys are what the alert history works on. -/
theorem Linked.consistent {db : Database} (h : Linked db) (hkeys : Keyed db) :
    AlertsApi.Consistent db where
  notifications := hkeys.notifications
  pairs := hkeys.pairs
  rules := hkeys.rules
  events := hkeys.events
  pair := by
    intro n hn
    obtain ⟨r, hr, -, hpair, -⟩ := h.notifications n hn
    rw [← hpair]
    exact (h.rules r hr).2
  rule := by
    intro n hn
    obtain ⟨r, hr, hid, -⟩ := h.notifications n hn
    exact ⟨r, hr, hid⟩

/-- Whatever requests, scheduler, pollers, publishers and rebuilds have run, however they
    interleaved and wherever they were stopped: every reference has its target, the pair and
    the type of a notification are those of its rule, its price is one that has been observed
    of the pair, and an event announces the notification it belongs to.  So the alert history
    shows each notification that is asked for in exactly one row. -/
theorem linked_of_reaches {rt : Runtime} {settings : Settings} {c c' : Threads}
    (h : Reaches (deployment rt settings) c c') (hclosed : ∀ i, c.frame.sessions i = none)
    (hmem : ∀ proc, (c.frame.mem proc).buckets = []) (hkeys : Keyed c.frame.db)
    (hlinked : Linked c.frame.db) :
    Linked c'.frame.db ∧ ∀ filter, (AlertsApi.alertRows c'.frame.db filter).map
      AlertsApi.AlertRow.notification = AlertsApi.selected c'.frame.db filter := by
  have hstart : Sound c.frame := by
    refine ⟨hlinked, ?_, ?_⟩
    · intro i s hs
      cases (hclosed i).symm.trans hs
    · intro proc pairId r hr
      rw [Memory.rulesForPair, hmem proc] at hr
      exact absurd hr List.not_mem_nil
  have hvalid : (discipline rt settings).Valid c :=
    ⟨hstart, fun i hi => absurd (hclosed i) hi⟩
  obtain ⟨hsound, -⟩ := Discipline.valid_of_reaches verified hvalid h
  exact ⟨hsound.linked, fun _ => (hsound.linked.consistent (h.satisfies hkeys)).map_notification⟩

/-! ## A rule from its POST to its delivery -/

instance (db : Database) : Decidable (Keyed db) :=
  decidable_of_iff ((db.pairs.map Pair.id).Nodup ∧ (db.alertRules.map AlertRule.id).Nodup
      ∧ (db.notifications.map Notification.id).Nodup
      ∧ (db.outboxEvents.map OutboxEvent.notificationId).Nodup)
    ⟨fun h => ⟨h.1, h.2.1, h.2.2.1, h.2.2.2⟩,
      fun h => ⟨h.pairs, h.rules, h.notifications, h.events⟩⟩

/-- Keys that are unique after rows were added were unique before. -/
theorem nodup_of_added {α κ γ : Type} {columns : α → γ} {key : α → κ} (first : γ → κ)
    {rows rows' : List α} {added : List γ} (heq : rows'.map columns = rows.map columns ++ added)
    (h : (rows'.map key).Nodup) (hkey : ∀ a, first (columns a) = key a) :
    (rows.map key).Nodup := by
  have hfirst : ∀ xs : List α, xs.map key = (xs.map columns).map first := by
    intro xs
    rw [List.map_map]
    exact List.map_congr_left (fun a _ => (hkey a).symm)
  rw [hfirst, heq, List.map_append] at h
  rw [hfirst]
  exact h.of_append_left

/-- A command does not repair a key. -/
theorem keyed_of_effect {rt : Runtime} {settings : Settings} (i : Nat) (β : Type) (f : Shared)
    (cmd : Cmd Database Write Generated MemOp ExtOp β) (b : β) (f' : Shared)
    (he : Effect (programs rt settings) i f β cmd b f') (h : Keyed f'.db) : Keyed f.db := by
  obtain ⟨s, -, heq | ⟨e, -, heq⟩ | heq | ⟨m, heq⟩ | ⟨_, _, _, x, -, heq⟩⟩ := he.frame_cases
  · exact heq ▸ h
  · exact (congrArg Frame.db heq) ▸ h
  · rw [heq] at h
    refine ⟨?_, ?_, ?_, ?_⟩
    · exact (pairs_replay f.db s.log) ▸ h.pairs
    · exact nodup_of_added Prod.fst (rules_replay f.db s.log) h.rules (fun _ => rfl)
    · exact nodup_of_added Prod.fst (notifications_replay f.db s.log) h.notifications (fun _ => rfl)
    · exact nodup_of_added Prod.fst (events_replay f.db s.log) h.events (fun _ => rfl)
  · exact (congrArg Frame.db heq) ▸ h
  · exact (congrArg Frame.db heq) ▸ h

/-- A pair that is quoted at 100, and nobody watching it. -/
def quotedStart : Threads where
  frame :=
    { db := { users := [{ id := 3, contact := "telegram" }]
              pairs := [{ id := 1, krakenPairName := "XBT/USD", displayName := "XBT/USD" }] }
      mem := fun _ => {}
      ext :=
        { clock := seconds 1000000020
          quotes := fun _ => some [("XBT/USD", ⟨"XBT/USD", ⟨false, 100, 0⟩, ⟨false, 99, 0⟩,
            ⟨false, 101, 0⟩, ⟨false, 1, 0⟩⟩)]
          nextUuid := 7 }
      sessions := fun _ => none }
  prog := fun _ => .done ()

/-- A POST of a rule on prices above 50, with a cooldown. -/
def aboveRequest : CreateRuleRequest where
  userId := 3
  pairId := 1
  ruleType := .absoluteAbove
  threshold := some ⟨false, 50, 0⟩
  cooldownSeconds := 60

def pollMessage : Message :=
  { messageId := "1", receiptHandle := "1", body := messageBody 1 }

/-- The rule is posted and loaded, a PATCH of it begins, the rule fires, the PATCH commits
    and the alert is published. -/
def lifecycle : List (Move Database Write Generated MemOp ExtOp PyError) :=
  [.start 0 0 (thread (createRule {} aboveRequest)), .run 0 20, .stop 0,
    .start 1 1 (thread rebuild), .run 1 20, .stop 1,
    .start 0 0 (thread (updateRule {} 7
      { threshold := some (some ⟨false, 60, 0⟩), cooldown_nonneg := Patch.unset_nonneg })),
    .run 0 1,
    .start 1 1 (thread (processBatch Runtime.rational {} [pollMessage])), .run 1 100, .stop 1,
    .run 0 20, .stop 0,
    .start 2 2 (thread (publishPending {} "topic" .inTurn)), .run 2 20, .stop 2]

/-- Where it leads to. -/
def delivered : Threads := (play backend isolated commits lifecycle quotedStart).1

theorem reaches_delivered : Reaches (deployment Runtime.rational {}) quotedStart delivered := by
  have htraced : Traced (programs Runtime.rational {}) commits quotedStart
      (play backend isolated commits lifecycle quotedStart).2 delivered :=
    traced_play [0, 1, 2] answers_isolated (fun _ _ _ _ _ => trivial) (fun _ _ => rfl)
      (by decide +kernel) ⟨.post _, trivial, .rebuild, trivial, .patch _ _, .batch _, trivial,
        trivial, .publish _ _, trivial, trivial⟩
  exact htraced.reaches.constrained keyed_of_effect (by decide +kernel)

theorem linked_of_reaches_delivered :
    delivered.frame.db.notifications.map (fun n => n.status) = [.sent]
      ∧ Linked delivered.frame.db
      ∧ ∀ filter, (AlertsApi.alertRows delivered.frame.db filter).map
        AlertsApi.AlertRow.notification = AlertsApi.selected delivered.frame.db filter :=
  ⟨by decide +kernel, linked_of_reaches reaches_delivered (fun _ => rfl) (fun _ => rfl)
    (by decide) ⟨by simp [quotedStart], by simp [quotedStart], by simp [quotedStart],
      by simp [quotedStart], by simp [quotedStart]⟩⟩

end Dropwatch.Integrity
