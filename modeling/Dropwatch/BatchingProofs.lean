import Dropwatch.AckProofs
import Dropwatch.KeyProofs
import Dropwatch.RedeliveryProofs
import Dropwatch.Lib.Renumber

/-! # Batches of any size — the same rows, message by message

    What the evaluation of one pair records is a list of entries, and the entries
    depend on the history, the rules, the keys and the cooldown state of that pair
    alone (`effectIn_after`).  A batch is the effects of its pairs in the order of its
    messages (`processBatch_effects`), and effects of different pairs commute up to the
    ids that new rows are given (`sameRows_of_perm`). -/

namespace Dropwatch.Batching

open Transact RuleIndex Evaluator Poller Keys

/-! ## Entries -/

/-- A recorded fire without its id: the notification, and the payload of its event unless
    it is suppressed. -/
structure Entry where
  notification : NewNotification
  payload : Option Payload

def Entry.row (t : Instant) (id : Uuid) (e : Entry) : Notification := e.notification.row ⟨id, t⟩

def Entry.event (t : Instant) (id : Uuid) (e : Entry) : Option OutboxEvent :=
  e.payload.map (fun p => outboxRow ⟨id, t⟩ id { p with notificationId := id })

/-- The rules after an entry. -/
def fireRow (t : Instant) (rules : List AlertRule) (e : Entry) : List AlertRule :=
  updateWhere (fun r => r.id == e.notification.ruleId) (fun r => { r with lastFiredAt := some t })
    rules

/-- The tables after an entry. -/
def recordEntry (t : Instant) (db : Database) (e : Entry) : Database :=
  { db with
    notifications := db.notifications ++ [e.row t db.freshId]
    outboxEvents := db.outboxEvents ++ (e.event t db.freshId).toList
    alertRules := fireRow t db.alertRules e }

/-- What the rules of a pair record on an observation. -/
structure Effect where
  pair : Pair
  quote : Quote
  entries : List Entry

def Effect.history (t : Instant) (x : Effect) : PriceHistory :=
  (historyRow x.pair x.quote t).stored

/-- The pairs after the observation. -/
def Effect.update (t : Instant) (pairs : List Pair) (x : Effect) : List Pair :=
  (observed { pairs } x.pair x.quote t).pairs

/-- The tables after an effect. -/
def tablesAfter (t : Instant) (db : Database) (x : Effect) : Database :=
  x.entries.foldl (recordEntry t) (observed db x.pair x.quote t)

/-- The rule objects after an effect. -/
def memoryAfter (t : Instant) (m : Memory) (x : Effect) : Memory :=
  x.entries.foldl (fun m e => m.setLastFiredAt m.generation e.notification.ruleId t) m

/-! ## Tables after many effects -/

section Tables

variable {t : Instant}

theorem freshId_append (ns : List Notification) (n : Notification) :
    Database.freshId { notifications := ns ++ [n] }
      = max (Database.freshId { notifications := ns }) (n.id + 1) := by
  induction ns with
  | nil => exact (Nat.max_comm _ _)
  | cons m rest ih =>
      show max (m.id + 1) (Database.freshId { notifications := rest ++ [n] })
        = max (max (m.id + 1) (Database.freshId { notifications := rest })) (n.id + 1)
      rw [ih, Nat.max_assoc]

theorem freshId_recordEntry (db : Database) (e : Entry) :
    (recordEntry t db e).freshId = db.freshId + 1 := by
  have hnew : (recordEntry t db e).freshId = max db.freshId (db.freshId + 1) :=
    freshId_append db.notifications (e.row t db.freshId)
  rw [hnew]
  exact Nat.max_eq_right (Nat.le_succ _)

/-- Entries get numbers in their order. -/
theorem foldl_recordEntry (entries : List Entry) (db : Database) :
    entries.foldl (recordEntry t) db
      = { db with
          notifications := db.notifications
            ++ (entries.zipIdx db.freshId).map (fun e => e.1.row t e.2)
          outboxEvents := db.outboxEvents
            ++ (entries.zipIdx db.freshId).filterMap (fun e => e.1.event t e.2)
          alertRules := entries.foldl (fireRow t) db.alertRules } := by
  induction entries generalizing db with
  | nil => simp
  | cons e rest ih =>
      rw [List.foldl_cons, ih, freshId_recordEntry, List.zipIdx_cons, List.map_cons,
        List.filterMap_cons]
      cases hevent : e.event t db.freshId with
      | none => simp [recordEntry, hevent]
      | some event => simp [recordEntry, hevent]

theorem freshId_foldl (entries : List Entry) (db : Database) :
    (entries.foldl (recordEntry t) db).freshId = db.freshId + entries.length := by
  induction entries generalizing db with
  | nil => rfl
  | cons e rest ih =>
      rw [List.foldl_cons, ih, freshId_recordEntry, List.length_cons, Nat.add_assoc,
        Nat.add_comm 1]

/-- Effects add the rows of all their entries. -/
theorem foldl_tablesAfter (xs : List Effect) (db : Database) :
    xs.foldl (tablesAfter t) db
      = { db with
          priceHistory := db.priceHistory ++ xs.map (Effect.history t)
          pairs := xs.foldl (Effect.update t) db.pairs
          notifications := db.notifications
            ++ ((xs.flatMap Effect.entries).zipIdx db.freshId).map (fun e => e.1.row t e.2)
          outboxEvents := db.outboxEvents
            ++ ((xs.flatMap Effect.entries).zipIdx db.freshId).filterMap
              (fun e => e.1.event t e.2)
          alertRules := (xs.flatMap Effect.entries).foldl (fireRow t) db.alertRules } := by
  induction xs generalizing db with
  | nil => simp
  | cons x rest ih =>
      have hfresh : (tablesAfter t db x).freshId = db.freshId + x.entries.length :=
        freshId_foldl x.entries _
      rw [List.foldl_cons, ih, hfresh, tablesAfter, foldl_recordEntry, List.flatMap_cons,
        List.zipIdx_append, List.map_append, List.filterMap_append, List.foldl_append]
      simp [observed, Effect.update, Effect.history, Database.freshId]

end Tables

/-! ## The same rows up to generated ids -/

/-- A row under another id. -/
def renamedRow (σ : Equiv.Perm Uuid) (n : Notification) : Notification := { n with id := σ n.id }

/-- An event of a notification under another id. -/
def renamedEvent (σ : Equiv.Perm Uuid) (e : OutboxEvent) : OutboxEvent :=
  { e with
    notificationId := σ e.notificationId
    payload := { e.payload with notificationId := σ e.payload.notificationId } }

/-- Two states that `db` became: the pairs and the rules agree, and of the added rows there
    are the same, in any order, once their ids are renamed. -/
structure SameRows (db db₁ db₂ : Database) : Prop where
  users : db₁.users = db₂.users
  pairs : db₁.pairs = db₂.pairs
  alertRules : db₁.alertRules = db₂.alertRules
  priceHistory : ∃ rows₁ rows₂, db₁.priceHistory = db.priceHistory ++ rows₁
    ∧ db₂.priceHistory = db.priceHistory ++ rows₂ ∧ rows₁.Perm rows₂
  renamed : ∃ σ : Equiv.Perm Uuid, (∀ n ∈ db.notifications, σ n.id = n.id)
    ∧ (∃ ns₁ ns₂, db₁.notifications = db.notifications ++ ns₁
      ∧ db₂.notifications = db.notifications ++ ns₂ ∧ (ns₁.map (renamedRow σ)).Perm ns₂)
    ∧ ∃ es₁ es₂, db₁.outboxEvents = db.outboxEvents ++ es₁
      ∧ db₂.outboxEvents = db.outboxEvents ++ es₂ ∧ (es₁.map (renamedEvent σ)).Perm es₂

section Commute

variable {t : Instant}

/-- Updates of rows under a condition that they keep commute. -/
theorem updateWhere_comm {α : Type} {p q : α → Bool} {f g : α → α}
    (hp : ∀ a, p (g a) = p a) (hq : ∀ a, q (f a) = q a)
    (h : ∀ a, p a = true → q a = true → f (g a) = g (f a)) (rows : List α) :
    updateWhere p f (updateWhere q g rows) = updateWhere q g (updateWhere p f rows) := by
  simp only [updateWhere, List.map_map]
  refine List.map_congr_left ?_
  intro a _
  show (if p (if q a then g a else a) then f _ else _) = if q (if p a then f a else a) then g _ else _
  cases hpa : p a with
  | false =>
      cases hqa : q a with
      | false => simp [hpa, hqa]
      | true => simp [hpa, hqa, hp]
  | true =>
      cases hqa : q a with
      | false => simp [hpa, hqa, hq]
      | true => simp [hpa, hqa, hp, hq, h a hpa hqa]

theorem fireRow_comm (rules : List AlertRule) (e e' : Entry) :
    fireRow t (fireRow t rules e) e' = fireRow t (fireRow t rules e') e := by
  refine updateWhere_comm ?_ ?_ ?_ rules
  · exact fun _ => rfl
  · exact fun _ => rfl
  · exact fun _ _ _ => rfl

theorem update_comm {x y : Effect} (h : x.pair.id ≠ y.pair.id) (pairs : List Pair) :
    Effect.update t (Effect.update t pairs x) y = Effect.update t (Effect.update t pairs y) x := by
  refine updateWhere_comm ?_ ?_ ?_ pairs
  · exact fun _ => rfl
  · exact fun _ => rfl
  · intro p hy hx
    exact absurd ((beq_iff_eq.mp hx).symm.trans (beq_iff_eq.mp hy)) h

/-- Effects of different pairs, in any order. -/
theorem sameRows_of_perm {xs ys : List Effect} (h : xs.Perm ys)
    (hd : (xs.map (fun x => x.pair.id)).Nodup) (db : Database) :
    SameRows db (xs.foldl (tablesAfter t) db) (ys.foldl (tablesAfter t) db) := by
  have hentries : (xs.flatMap Effect.entries).Perm (ys.flatMap Effect.entries) :=
    h.flatMap_right _
  obtain ⟨σ, hold, hσ⟩ := exists_renumber hentries db.freshId
  rw [foldl_tablesAfter, foldl_tablesAfter]
  constructor
  · rfl
  · refine h.foldl_eq' ?_ db.pairs
    intro x hx y hy pairs
    by_cases hid : x.pair.id = y.pair.id
    · rw [List.inj_on_of_nodup_map hd hx hy hid]
    · exact update_comm hid pairs
  · exact hentries.foldl_eq' (fun e _ e' _ rules => fireRow_comm rules e e') db.alertRules
  · exact ⟨_, _, rfl, rfl, h.map _⟩
  · refine ⟨σ, fun n hn => hold n.id (Database.lt_freshId hn), ⟨_, _, rfl, rfl, ?_⟩,
      _, _, rfl, rfl, ?_⟩
    · have hrows := hσ.map (fun e => e.1.row t e.2)
      rw [List.map_map] at hrows ⊢
      exact hrows
    · have hevents := hσ.filterMap (fun e => e.1.event t e.2)
      rw [List.filterMap_map] at hevents
      rw [List.map_filterMap]
      refine List.Perm.trans (List.Perm.of_eq ?_) hevents
      refine List.filterMap_congr ?_
      rintro ⟨e, id⟩ _
      show (e.event t id).map (renamedEvent σ) = e.event t (σ id)
      rw [Entry.event, Entry.event, Option.map_map]
      rfl

end Commute

/-! ## The entries of an evaluation -/

section Entries

variable (rt : Runtime) (pair : Pair) (obs : Observation) (generation : Nat) (c : Candidates rt)

/-- What is recorded for a rule. -/
def entryOf (m : Memory) (rule : AlertRule) : Entry where
  notification := newNotification rt pair obs rule (suppressedBy obs generation m rule)
  payload :=
    if suppressedBy obs generation m rule then none
    else some (alertPayload rt pair rule obs c.zscoreResult
      ((c.pastPriceByRuleId.get? rule.id).join) 0 (messageOf rt pair obs c rule))

/-- What the loop records. -/
def entriesOf : List AlertRule → Database → Memory → List Entry
  | [], _, _ => []
  | rule :: rest, db, m =>
      if recordable rt pair obs db rule then
        entryOf rt pair obs generation c m rule
          :: entriesOf rest (recordEntry obs.observedAt db (entryOf rt pair obs generation c m rule))
            (m.setLastFiredAt generation rule.id obs.observedAt)
      else entriesOf rest db m

variable {rt pair obs generation c}

theorem recordOne_eq {s : State} (hclock : s.env.clock = obs.observedAt) (rule : AlertRule) :
    recordOne rt pair obs generation c s rule
      = { s with
          view := recordEntry obs.observedAt s.view (entryOf rt pair obs generation c s.mem rule)
          mem := s.mem.setLastFiredAt generation rule.id obs.observedAt } := by
  cases hs : suppressedBy obs generation s.mem rule with
  | true =>
      simp only [recordOne, recordedAs, recordEntry, entryOf, hs, Entry.row, Entry.event,
        nextGenerated, hclock, if_true, Option.map_none, Option.toList_none]
      rfl
  | false =>
      simp only [recordOne, recordedAs, recordedEvent, recordEntry, entryOf, hs, Entry.row,
        Entry.event, nextGenerated, hclock, Bool.false_eq_true, if_false, Option.map_some,
        Option.toList_some]
      rfl

/-- The loop leaves its entries. -/
theorem fireAll_eq (rules : List AlertRule) {s : State} (hclock : s.env.clock = obs.observedAt) :
    (fireAll rt pair obs generation c rules s).2
      = { s with
          view := (entriesOf rt pair obs generation c rules s.view s.mem).foldl
            (recordEntry obs.observedAt) s.view
          mem := (entriesOf rt pair obs generation c rules s.view s.mem).foldl
            (fun m e => m.setLastFiredAt generation e.notification.ruleId obs.observedAt) s.mem }
      := by
  induction rules generalizing s with
  | nil => rfl
  | cons rule rest ih =>
      show (fireAll rt pair obs generation c rest
        (fireOne rt pair obs generation c s rule).2).2 = _
      rw [entriesOf]
      cases hrec : recordable rt pair obs s.view rule with
      | false =>
          simp only [fireOne, hrec, Bool.false_eq_true, if_false]
          exact ih hclock
      | true =>
          simp only [fireOne, hrec, if_true, recordOne_eq hclock]
          exact ih hclock

/-- An entry belongs to a rule of the loop. -/
theorem mem_entriesOf {rules : List AlertRule} {db : Database} {m : Memory} {e : Entry}
    (h : e ∈ entriesOf rt pair obs generation c rules db m) :
    ∃ rule ∈ rules, e.notification.ruleId = rule.id
      ∧ e.notification.idempotencyKey = keyOf rt pair obs rule := by
  induction rules generalizing db m with
  | nil => exact absurd h List.not_mem_nil
  | cons rule rest ih =>
      rw [entriesOf] at h
      split at h
      · rcases List.mem_cons.mp h with rfl | h
        · exact ⟨rule, List.mem_cons_self, rfl, rfl⟩
        · obtain ⟨r, hr, hform⟩ := ih h
          exact ⟨r, List.mem_cons_of_mem _ hr, hform⟩
      · obtain ⟨r, hr, hform⟩ := ih h
        exact ⟨r, List.mem_cons_of_mem _ hr, hform⟩

/-- Recording an entry takes its key. -/
theorem recordable_recordEntry (t : Instant) (db : Database) (e : Entry) (rule : AlertRule) :
    recordable rt pair obs (recordEntry t db e) rule
      = (recordable rt pair obs db rule
        && (e.notification.idempotencyKey != keyOf rt pair obs rule)) := by
  have hrules : (recordEntry t db e).alertRules.any (fun r => r.id == rule.id)
      = db.alertRules.any (fun r => r.id == rule.id) := by
    refine any_updateWhere ?_ db.alertRules
    exact fun _ => rfl
  have hkey : ((recordEntry t db e).notificationWithKey (keyOf rt pair obs rule)).isNone
      = ((db.notificationWithKey (keyOf rt pair obs rule)).isNone
        && (e.notification.idempotencyKey != keyOf rt pair obs rule)) := by
    rw [Bool.eq_iff_iff, Bool.and_eq_true, Option.isNone_iff_eq_none, Option.isNone_iff_eq_none,
      notificationWithKey_eq_none_iff, notificationWithKey_eq_none_iff, bne_iff_ne]
    show (∀ n ∈ db.notifications ++ [_], _) ↔ _
    rw [List.forall_mem_append, List.forall_mem_singleton]
    rfl
  rw [recordable, recordable, hrules, hkey]
  show (_ && _ && _ && db.pairs.any _) = _
  rw [Bool.and_right_comm _ _ (_ != _), Bool.and_right_comm _ _ (_ != _)]

/-- Two states look the same to the loop over some rules. -/
structure Agree (rt : Runtime) (pair : Pair) (obs : Observation) (generation : Nat)
    (rules : List AlertRule) (db db' : Database) (m m' : Memory) : Prop where
  recordable : ∀ rule ∈ rules, recordable rt pair obs db rule = recordable rt pair obs db' rule
  fired : ∀ rule ∈ rules, m.lastFiredAt generation rule.id = m'.lastFiredAt generation rule.id

theorem Agree.record {rules : List AlertRule} {db db' : Database} {m m' : Memory}
    (h : Agree rt pair obs generation rules db db' m m') (t : Instant) (e : Entry) (id : Uuid) :
    Agree rt pair obs generation rules (recordEntry t db e) (recordEntry t db' e)
      (m.setLastFiredAt generation id t) (m'.setLastFiredAt generation id t) where
  recordable := by
    intro rule hr
    rw [recordable_recordEntry, recordable_recordEntry, h.recordable rule hr]
  fired := by
    intro rule hr
    show (if generation = generation ∧ rule.id = id then some t else m.lastFiredAt _ _)
      = if generation = generation ∧ rule.id = id then some t else m'.lastFiredAt _ _
    rw [h.fired rule hr]

/-- The loop records the same. -/
theorem entriesOf_congr {rules : List AlertRule} {db db' : Database} {m m' : Memory}
    (h : Agree rt pair obs generation rules db db' m m') :
    entriesOf rt pair obs generation c rules db m
      = entriesOf rt pair obs generation c rules db' m' := by
  have hsub : ∀ {rest : List AlertRule}, rest ⊆ rules → ∀ {db db' : Database} {m m' : Memory},
      Agree rt pair obs generation rules db db' m m' →
        entriesOf rt pair obs generation c rest db m
          = entriesOf rt pair obs generation c rest db' m' := by
    intro rest hrest
    induction rest with
    | nil => exact fun _ => rfl
    | cons rule rest ih =>
        intro db db' m m' h
        have hmem : rule ∈ rules := hrest List.mem_cons_self
        have hentry : entryOf rt pair obs generation c m rule
            = entryOf rt pair obs generation c m' rule := by
          have hs : suppressedBy obs generation m rule = suppressedBy obs generation m' rule := by
            rw [suppressedBy, suppressedBy, h.fired rule hmem]
          rw [entryOf, entryOf, hs]
        have ih' := @ih (fun r hr => hrest (List.mem_cons_of_mem _ hr))
        rw [entriesOf, entriesOf, h.recordable rule hmem, hentry, ih' h,
          ih' (h.record obs.observedAt _ rule.id)]
  exact hsub (List.Subset.refl rules) h

end Entries

/-! ## The effect of a pair -/

section Effects

variable (rt : Runtime) (settings : Settings) (t : Instant)

/-- What an observation of a pair would record. -/
def effectIn (db : Database) (m : Memory) (pair : Pair) (quote : Quote) :
    Except PyError Effect :=
  (candidatesIn rt settings (observed db pair quote t) pair (quoteObservation quote t)
    (m.rulesForPair pair.id)).map (fun c => ⟨pair, quote,
      entriesOf rt pair (quoteObservation quote t) m.generation c c.rules
        (observed db pair quote t) m⟩)

variable {rt settings t}

theorem memoryAfter_frame (m : Memory) (x : Effect) :
    (memoryAfter t m x).buckets = m.buckets ∧ (memoryAfter t m x).generation = m.generation := by
  rw [memoryAfter]
  induction x.entries generalizing m with
  | nil => exact ⟨rfl, rfl⟩
  | cons e rest ih => exact ih (m.setLastFiredAt m.generation e.notification.ruleId t)

@[simp] theorem rulesForPair_memoryAfter (m : Memory) (x : Effect) (pairId : Uuid) :
    (memoryAfter t m x).rulesForPair pairId = m.rulesForPair pairId := by
  rw [Memory.rulesForPair, (memoryAfter_frame m x).1]
  rfl

theorem memoryAfter_eq (m : Memory) (x : Effect) :
    memoryAfter t m x = x.entries.foldl
      (fun m' e => m'.setLastFiredAt m.generation e.notification.ruleId t) m := by
  rw [memoryAfter]
  have hsame : ∀ (entries : List Entry) (m' : Memory), m'.generation = m.generation →
      entries.foldl (fun m e => m.setLastFiredAt m.generation e.notification.ruleId t) m'
        = entries.foldl (fun m' e => m'.setLastFiredAt m.generation e.notification.ruleId t) m' := by
    intro entries
    induction entries with
    | nil => exact fun _ _ => rfl
    | cons e rest ih =>
        intro m' hm'
        rw [List.foldl_cons, List.foldl_cons, hm']
        exact ih _ hm'
  exact hsame x.entries m rfl

theorem lastFiredAt_memoryAfter {m : Memory} {x : Effect} {ruleId : Uuid}
    (h : ∀ e ∈ x.entries, e.notification.ruleId ≠ ruleId) (generation : Nat) :
    (memoryAfter t m x).lastFiredAt generation ruleId = m.lastFiredAt generation ruleId := by
  rw [memoryAfter]
  revert h
  induction x.entries generalizing m with
  | nil => exact fun _ => rfl
  | cons e rest ih =>
      intro h
      rw [List.foldl_cons, ih (fun e' he' => h e' (List.mem_cons_of_mem _ he'))]
      exact if_neg (fun heq => h e List.mem_cons_self heq.2.symm)

/-- A quoted pair has its effect, or raises. -/
theorem runTx_observePair_eq {pair : Pair} {quote : Quote} {s : State} (hm : s.mem.Indexed)
    (hclock : s.env.clock = t) {x : Effect}
    (h : effectIn rt settings t s.view s.mem pair quote = .ok x) :
    runTx (observePair rt settings pair quote t) s
      = (.ok (), { s with view := tablesAfter t s.view x, mem := memoryAfter t s.mem x }) := by
  rw [runTx_observePair rt settings hm]
  rw [effectIn] at h
  cases hc : candidatesIn rt settings (observed s.view pair quote t) pair
      (quoteObservation quote t) (s.mem.rulesForPair pair.id) with
  | error e =>
      rw [hc] at h
      cases h
  | ok c =>
      rw [hc] at h
      obtain rfl := Except.ok.inj h
      rw [memoryAfter_eq]
      exact congrArg (Prod.mk _) (@fireAll_eq rt pair (quoteObservation quote t) s.mem.generation c
        c.rules { s with view := observed s.view pair quote t } hclock)

theorem effectIn_of_ok {pair : Pair} {quote : Quote} {s s' : State} {u : Unit}
    (hm : s.mem.Indexed) (h : runTx (observePair rt settings pair quote t) s = (.ok u, s')) :
    ∃ x, effectIn rt settings t s.view s.mem pair quote = .ok x := by
  rw [runTx_observePair rt settings hm] at h
  rw [effectIn]
  cases hc : candidatesIn rt settings (observed s.view pair quote t) pair
      (quoteObservation quote t) (s.mem.rulesForPair pair.id) with
  | error e =>
      rw [hc] at h
      cases (Prod.mk.inj h).1
  | ok c => exact ⟨_, rfl⟩

/-- The entries of an effect belong to rules of its pair. -/
theorem mem_entries {db : Database} {m : Memory} {pair : Pair} {quote : Quote} {x : Effect}
    (h : effectIn rt settings t db m pair quote = .ok x) :
    x.pair = pair ∧ x.quote = quote ∧ ∀ e ∈ x.entries, ∃ rule ∈ (m.rulesForPair pair.id).all,
      e.notification.ruleId = rule.id
        ∧ e.notification.idempotencyKey = keyOf rt pair (quoteObservation quote t) rule := by
  rw [effectIn] at h
  cases hc : candidatesIn rt settings (observed db pair quote t) pair
      (quoteObservation quote t) (m.rulesForPair pair.id) with
  | error e =>
      rw [hc] at h
      cases h
  | ok c =>
      rw [hc] at h
      obtain rfl := Except.ok.inj h
      refine ⟨rfl, rfl, ?_⟩
      intro e he
      obtain ⟨rule, hr, hform⟩ := mem_entriesOf he
      rw [(candidatesIn_ok rt settings hc).2.2.1] at hr
      exact ⟨rule, selectedIn_subset rt settings hr, hform⟩

theorem recordable_observed (db : Database) (pair' : Pair) (quote' : Quote) (pair : Pair)
    (obs : Observation) (rule : AlertRule) :
    recordable rt pair obs (observed db pair' quote' t) rule = recordable rt pair obs db rule := by
  have hpairs : (observed db pair' quote' t).pairs.any (fun p => p.id == pair.id)
      = db.pairs.any (fun p => p.id == pair.id) := by
    refine any_updateWhere ?_ db.pairs
    exact fun _ => rfl
  rw [recordable, recordable, hpairs]
  rfl

theorem recordable_tablesAfter {db : Database} {x : Effect} {pair : Pair} {obs : Observation}
    {rule : AlertRule}
    (h : ∀ e ∈ x.entries, e.notification.idempotencyKey ≠ keyOf rt pair obs rule) :
    recordable rt pair obs (tablesAfter t db x) rule = recordable rt pair obs db rule := by
  rw [tablesAfter, ← recordable_observed (t := t) db x.pair x.quote pair obs rule]
  revert h
  generalize observed db x.pair x.quote t = db'
  induction x.entries generalizing db' with
  | nil => exact fun _ => rfl
  | cons e rest ih =>
      intro h
      rw [List.foldl_cons, ih _ (fun e' he' => h e' (List.mem_cons_of_mem _ he')),
        recordable_recordEntry, bne_iff_ne.mpr (h e List.mem_cons_self), Bool.and_true]

/-- Rules of two pairs share neither keys nor ids. -/
structure Separate (rt : Runtime) (t : Instant) (m : Memory) (pair pair' : Pair)
    (quote quote' : Quote) : Prop where
  pairs : pair.id ≠ pair'.id
  keys : ∀ rule ∈ (m.rulesForPair pair.id).all, ∀ rule' ∈ (m.rulesForPair pair'.id).all,
    keyOf rt pair (quoteObservation quote t) rule ≠ keyOf rt pair' (quoteObservation quote' t) rule'
  rules : ∀ rule ∈ (m.rulesForPair pair.id).all, ∀ rule' ∈ (m.rulesForPair pair'.id).all,
    rule.id ≠ rule'.id

theorem Separate.after {m : Memory} {pair pair' : Pair} {quote quote' : Quote}
    (h : Separate rt t m pair pair' quote quote') (x : Effect) :
    Separate rt t (memoryAfter t m x) pair pair' quote quote' where
  pairs := h.pairs
  keys := by
    rw [rulesForPair_memoryAfter, rulesForPair_memoryAfter]
    exact h.keys
  rules := by
    rw [rulesForPair_memoryAfter, rulesForPair_memoryAfter]
    exact h.rules

/-- What one pair records is nothing to the evaluation of another. -/
theorem effectIn_after {db : Database} {m : Memory} {pair pair' : Pair} {quote quote' : Quote}
    {x : Effect} (h : Separate rt t m pair pair' quote quote')
    (hx : effectIn rt settings t db m pair quote = .ok x) :
    effectIn rt settings t (tablesAfter t db x) (memoryAfter t m x) pair' quote'
      = effectIn rt settings t db m pair' quote' := by
  obtain ⟨rfl, rfl, hentries⟩ := mem_entries hx
  have hgeneration := (memoryAfter_frame (t := t) m x).2
  have hhistory : (tablesAfter t db x).priceHistory
      = (observed db x.pair x.quote t).priceHistory := by
    rw [tablesAfter, foldl_recordEntry]
  have hcandidates := @candidatesIn_congr rt settings _ _ pair' (quoteObservation quote' t)
    (m.rulesForPair pair'.id)
    (@historyDesc_observed_observed _ _ _ pair' _ quote' t h.pairs hhistory)
  rw [effectIn, effectIn, rulesForPair_memoryAfter, hcandidates, hgeneration]
  cases hc : candidatesIn rt settings (observed db pair' quote' t) pair'
      (quoteObservation quote' t) (m.rulesForPair pair'.id) with
  | error e => rfl
  | ok c =>
      have hcrules : ∀ rule ∈ c.rules, rule ∈ (m.rulesForPair pair'.id).all := by
        intro rule hr
        rw [(candidatesIn_ok rt settings hc).2.2.1] at hr
        exact selectedIn_subset rt settings hr
      -- The keys and the rules of the first effect are not those of the second.
      have hagree : Agree rt pair' (quoteObservation quote' t) m.generation c.rules
          (observed (tablesAfter t db x) pair' quote' t) (observed db pair' quote' t)
          (memoryAfter t m x) m := by
        constructor
        · intro rule hr
          rw [recordable_observed, recordable_observed]
          refine recordable_tablesAfter ?_
          intro e he
          obtain ⟨rule', hr', -, hkey⟩ := hentries e he
          rw [hkey]
          exact h.keys rule' hr' rule (hcrules rule hr)
        · intro rule hr
          refine lastFiredAt_memoryAfter ?_ m.generation
          intro e he
          obtain ⟨rule', hr', hid, -⟩ := hentries e he
          rw [hid]
          exact h.rules rule' hr' rule (hcrules rule hr)
      exact congrArg (fun entries => Except.ok (Effect.mk pair' quote' entries))
        (entriesOf_congr hagree)

end Effects

/-! ## Keys of different pairs -/

/-- What is hashed for the key of a rule. -/
def keyText (rt : Runtime) (pair : Pair) (obs : Observation) (rule : AlertRule) : String :=
  uuidStr rule.id ++ ":" ++ uuidStr pair.id ++ ":"
    ++ computeDetectedStateHash rt rule obs.last obs.observedAt

/-- The pair is read off the text that is hashed for a key. -/
theorem pairId_of_keyText {rt : Runtime} {pair pair' : Pair} {obs obs' : Observation}
    {rule rule' : AlertRule} (h : keyText rt pair obs rule = keyText rt pair' obs' rule') :
    pair.id = pair'.id :=
  (keyParts_inj h).2.1

/-! ## The messages of a batch -/

/-- The id that a message names. -/
def idOf (rt : Runtime) (message : Message) : Uuid :=
  match parsePairId rt message with
  | .ok (some pairId) => pairId
  | _ => 0

/-- Every message names a pair, no two the same. -/
structure WellFormed (rt : Runtime) (messages : List Message) : Prop where
  named : ∀ message ∈ messages, parsePairId rt message = .ok (some (idOf rt message))
  apart : (messages.map (idOf rt)).Nodup

theorem WellFormed.perm {messages ms : List Message} (h : WellFormed rt messages)
    (hperm : messages.Perm ms) : WellFormed rt ms where
  named := fun message hm => h.named message (hperm.mem_iff.mpr hm)
  apart := (hperm.map (idOf rt)).nodup_iff.mp h.apart

theorem WellFormed.tail {message : Message} {rest : List Message}
    (h : WellFormed rt (message :: rest)) : WellFormed rt rest where
  named := fun message hm => h.named message (List.mem_cons_of_mem _ hm)
  apart := (List.nodup_cons.mp h.apart).2

theorem WellFormed.head {message : Message} {rest : List Message}
    (h : WellFormed rt (message :: rest)) : WellFormed rt [message] where
  named := by
    intro m hm
    rw [List.mem_singleton.mp hm]
    exact h.named message List.mem_cons_self
  apart := List.nodup_singleton _

/-- The messages under their ids. -/
def messagesById (rt : Runtime) (messages : List Message) : Dict Uuid Message :=
  messages.map (fun m => (idOf rt m, m))

theorem keys_messagesById (messages : List Message) :
    (messagesById rt messages).keys = messages.map (idOf rt) :=
  List.map_map

/-- A well formed batch collects all its messages. -/
theorem WellFormed.collected {messages : List Message} (h : WellFormed rt messages) :
    collectMessages rt messages [] = .ok (messagesById rt messages) := by
  have hfold : ∀ (ms : List Message) (byPairId : Dict Uuid Message),
      (∀ m ∈ ms, parsePairId rt m = .ok (some (idOf rt m))) →
        collectMessages rt ms byPairId
          = .ok (ms.foldl (fun d m => d.set (idOf rt m) m) byPairId) := by
    intro ms
    induction ms with
    | nil => exact fun _ _ => rfl
    | cons m rest ih =>
        intro byPairId hnamed
        rw [collectMessages, hnamed m List.mem_cons_self]
        exact ih _ (fun m' hm' => hnamed m' (List.mem_cons_of_mem _ hm'))
  rw [hfold messages [] h.named]
  exact congrArg Except.ok (Dict.foldl_set_nil (idOf rt) id h.apart)

/-- The pair of a message. -/
def pairOf (rt : Runtime) (db : Database) (message : Message) : Option Pair :=
  db.pairs.find? (fun p => p.id == idOf rt message)

/-- The message with its pair. -/
def liveOf (rt : Runtime) (db : Database) (message : Message) : Option (Pair × Message) :=
  (pairOf rt db message).map (fun p => (p, message))

/-- The pair of a message with its quote. -/
def quotedOf (rt : Runtime) (db : Database) (q : String → Option Quote) (message : Message) :
    Option (Pair × Quote) :=
  (pairOf rt db message).bind (fun p => (q p.krakenPairName).map (fun quote => (p, quote)))

/-- What a batch observes. -/
def quotedPairs (rt : Runtime) (db : Database) (q : String → Option Quote)
    (messages : List Message) : List (Pair × Quote) :=
  messages.filterMap (quotedOf rt db q)

/-- The messages that a batch deletes: of the gone pairs, then of the observed ones. -/
def deletedBy (rt : Runtime) (db : Database) (q : String → Option Quote) (messages : List Message) :
    List Message :=
  messages.filter (fun m => (pairOf rt db m).isNone)
    ++ messages.filter (fun m => (quotedOf rt db q m).isSome)

section Messages

variable {db : Database} {q : String → Option Quote} {messages : List Message}

theorem pairOf_some {message : Message} {p : Pair} (h : pairOf rt db message = some p) :
    p ∈ db.pairs ∧ p.id = idOf rt message := by
  have hfind : db.pairs.find? (fun p => p.id == idOf rt message) = some p := h
  have hid := List.find?_some hfind
  exact ⟨List.mem_of_find?_eq_some hfind, beq_iff_eq.mp hid⟩

theorem quotedOf_some {message : Message} {e : Pair × Quote}
    (h : quotedOf rt db q message = some e) :
    pairOf rt db message = some e.1 ∧ q e.1.krakenPairName = some e.2 := by
  obtain ⟨p, hp, hq⟩ := Option.bind_eq_some_iff.mp h
  obtain ⟨quote, hquote, rfl⟩ := Option.map_eq_some_iff.mp hq
  exact ⟨hp, hquote⟩

theorem get?_pairsById_messages (hunique : UniquePairs db) {message : Message}
    (hm : message ∈ messages) :
    (pairsById (db.selectPairs (messagesById rt messages).keys)).get? (idOf rt message)
      = pairOf rt db message := by
  refine Option.ext ?_
  intro p
  rw [get?_pairsById hunique, keys_messagesById]
  constructor
  · rintro ⟨hp, hid, -⟩
    cases hfind : pairOf rt db message with
    | none => exact absurd (beq_iff_eq.mpr hid) (List.find?_eq_none.mp hfind p hp)
    | some p' =>
        obtain ⟨hp', hid'⟩ := pairOf_some hfind
        rw [List.inj_on_of_nodup_map hunique.ids hp hp' (hid.trans hid'.symm)]
  · intro hfind
    obtain ⟨hp, hid⟩ := pairOf_some hfind
    exact ⟨hp, hid, List.mem_map_of_mem hm⟩

theorem livePart_messages (hunique : UniquePairs db) :
    livePart db (messagesById rt messages) = messages.filterMap (liveOf rt db) := by
  rw [livePart, liveEntries, messagesById, List.filterMap_map]
  refine List.filterMap_congr ?_
  intro m hm
  show ((pairsById (db.selectPairs (messagesById rt messages).keys)).get? (idOf rt m)).map _ = _
  rw [get?_pairsById_messages hunique hm]
  rfl

theorem gonePart_messages (hunique : UniquePairs db) :
    gonePart db (messagesById rt messages)
      = messages.filter (fun m => (pairOf rt db m).isNone) := by
  rw [gonePart, goneMessages, messagesById, List.filter_map, List.map_map]
  refine (List.map_id _).trans (List.filter_congr ?_)
  intro m hm
  show ((pairsById (db.selectPairs (messagesById rt messages).keys)).get? (idOf rt m)).isNone = _
  rw [get?_pairsById_messages hunique hm]

/-- The ids of what a batch observes. -/
theorem nodup_quotedPairs (h : WellFormed rt messages) :
    ((quotedPairs rt db q messages).map (fun e => e.1.id)).Nodup := by
  have hsub : ((quotedPairs rt db q messages).map (fun e => e.1.id)).Sublist
      (messages.map (idOf rt)) := by
    rw [quotedPairs]
    clear h
    induction messages with
    | nil => exact List.Sublist.refl _
    | cons m rest ih =>
        cases hm : quotedOf rt db q m with
        | none =>
            rw [List.filterMap_cons_none hm]
            exact ih.cons _
        | some e =>
            rw [List.filterMap_cons_some hm, List.map_cons, List.map_cons,
              (pairOf_some (quotedOf_some hm).1).2]
            exact ih.cons_cons _
  exact h.apart.sublist hsub

/-- Of a message that is deleted its pair is gone or observed. -/
theorem deletedBy_perm :
    (deletedBy rt db q messages).Perm
      (messages.filter (fun m => (pairOf rt db m).isNone || (quotedOf rt db q m).isSome)) := by
  rw [deletedBy]
  induction messages with
  | nil => exact List.Perm.refl _
  | cons m rest ih =>
      cases hp : pairOf rt db m with
      | none =>
          have hq : quotedOf rt db q m = none := by
            rw [quotedOf, hp]
            rfl
          simp only [List.filter_cons, hp, hq, Option.isNone_none, Option.isSome_none,
            Bool.true_or, if_true, Bool.false_eq_true, if_false, List.cons_append]
          exact ih.cons m
      | some p =>
          cases hq : quotedOf rt db q m with
          | none =>
              simp only [List.filter_cons, hp, hq, Option.isNone_some, Option.isSome_none,
                Bool.or_self, Bool.false_eq_true, if_false]
              exact ih
          | some e =>
              simp only [List.filter_cons, hp, hq, Option.isNone_some, Option.isSome_some,
                Bool.or_true, if_true, Bool.false_eq_true, if_false]
              exact List.perm_middle.trans (ih.cons m)

end Messages

/-! ## The effects of a batch -/

section Runs

variable (rt : Runtime) (settings : Settings) (t : Instant)

/-- The effects of quoted pairs, one after another. -/
def effectsIn : Database → Memory → List (Pair × Quote) → Except PyError (List Effect)
  | _, _, [] => .ok []
  | db, m, e :: rest => do
      let x ← effectIn rt settings t db m e.1 e.2
      let xs ← effectsIn (tablesAfter t db x) (memoryAfter t m x) rest
      pure (x :: xs)

/-- The effect of a quoted pair, unless its rules raise. -/
def effectAt (db : Database) (m : Memory) (e : Pair × Quote) : Option Effect :=
  (effectIn rt settings t db m e.1 e.2).toOption

variable {rt settings t}

theorem effectsIn_cons_iff {db : Database} {m : Memory} {e : Pair × Quote}
    {rest : List (Pair × Quote)} {xs : List Effect} :
    effectsIn rt settings t db m (e :: rest) = .ok xs
      ↔ ∃ x ys, effectIn rt settings t db m e.1 e.2 = .ok x
          ∧ effectsIn rt settings t (tablesAfter t db x) (memoryAfter t m x) rest = .ok ys
          ∧ xs = x :: ys := by
  rw [effectsIn]
  constructor
  · intro h
    cases hx : effectIn rt settings t db m e.1 e.2 with
    | error err =>
        rw [hx] at h
        cases h
    | ok x =>
        rw [hx] at h
        cases hys : effectsIn rt settings t (tablesAfter t db x) (memoryAfter t m x) rest with
        | error err =>
            have hraise : (effectsIn rt settings t (tablesAfter t db x) (memoryAfter t m x) rest
                >>= fun ys => pure (x :: ys)) = .ok xs := h
            rw [hys] at hraise
            cases hraise
        | ok ys =>
            have hreturn : (effectsIn rt settings t (tablesAfter t db x) (memoryAfter t m x) rest
                >>= fun ys => pure (x :: ys)) = .ok xs := h
            rw [hys] at hreturn
            exact ⟨x, ys, rfl, hys, (Except.ok.inj hreturn).symm⟩
  · rintro ⟨x, ys, hx, hys, rfl⟩
    rw [hx]
    show (effectsIn rt settings t (tablesAfter t db x) (memoryAfter t m x) rest
      >>= fun ys => pure (x :: ys)) = _
    rw [hys]
    rfl

theorem effectsIn_append_iff {db : Database} {m : Memory} {es fs : List (Pair × Quote)}
    {xs : List Effect} :
    effectsIn rt settings t db m (es ++ fs) = .ok xs
      ↔ ∃ ys zs, effectsIn rt settings t db m es = .ok ys
          ∧ effectsIn rt settings t (ys.foldl (tablesAfter t) db) (ys.foldl (memoryAfter t) m) fs
              = .ok zs
          ∧ xs = ys ++ zs := by
  induction es generalizing db m xs with
  | nil =>
      constructor
      · exact fun h => ⟨[], xs, rfl, h, rfl⟩
      · rintro ⟨ys, zs, hys, hzs, rfl⟩
        obtain rfl := Except.ok.inj hys
        exact hzs
  | cons e rest ih =>
      rw [List.cons_append, effectsIn_cons_iff]
      constructor
      · rintro ⟨x, ws, hx, hws, rfl⟩
        obtain ⟨ys, zs, hys, hzs, rfl⟩ := ih.mp hws
        exact ⟨x :: ys, zs, effectsIn_cons_iff.mpr ⟨x, ys, hx, hys, rfl⟩, hzs, rfl⟩
      · rintro ⟨_, zs, hys, hzs, rfl⟩
        obtain ⟨x, ys, hx, hrest, rfl⟩ := effectsIn_cons_iff.mp hys
        exact ⟨x, ys ++ zs, hx, ih.mpr ⟨ys, zs, hrest, hzs, rfl⟩, rfl⟩

/-- Effects are those of their pairs. -/
theorem map_pair_effectsIn {db : Database} {m : Memory} {es : List (Pair × Quote)}
    {xs : List Effect} (h : effectsIn rt settings t db m es = .ok xs) :
    xs.map Effect.pair = es.map Prod.fst := by
  induction es generalizing db m xs with
  | nil =>
      obtain rfl := Except.ok.inj h
      rfl
  | cons e rest ih =>
      obtain ⟨x, ys, hx, hys, rfl⟩ := effectsIn_cons_iff.mp h
      rw [List.map_cons, List.map_cons, ih hys, (mem_entries hx).1]

/-- Effects of separate pairs are what each pair has at the start. -/
theorem effectsIn_eq_iff {db : Database} {m : Memory} {es : List (Pair × Quote)}
    (hapart : es.Pairwise (fun e e' => Separate rt t m e.1 e'.1 e.2 e'.2)) {xs : List Effect} :
    effectsIn rt settings t db m es = .ok xs
      ↔ (∀ e ∈ es, (effectAt rt settings t db m e).isSome = true)
          ∧ xs = es.filterMap (effectAt rt settings t db m) := by
  induction es generalizing db m xs with
  | nil =>
      constructor
      · intro h
        exact ⟨fun _ he => absurd he List.not_mem_nil, (Except.ok.inj h).symm⟩
      · rintro ⟨-, rfl⟩
        rfl
  | cons e rest ih =>
      obtain ⟨hhead, htail⟩ := List.pairwise_cons.mp hapart
      -- Nothing that `e` records reaches the pairs after it.
      have hsame : ∀ {x}, effectIn rt settings t db m e.1 e.2 = .ok x → ∀ e' ∈ rest,
          effectAt rt settings t (tablesAfter t db x) (memoryAfter t m x) e'
            = effectAt rt settings t db m e' := by
        intro x hx e' he'
        rw [effectAt, effectAt, effectIn_after (hhead e' he') hx]
      rw [effectsIn_cons_iff]
      constructor
      · rintro ⟨x, ys, hx, hys, rfl⟩
        obtain ⟨hall, rfl⟩ := (ih (htail.imp (fun h => h.after x))).mp hys
        have hat : effectAt rt settings t db m e = some x := by
          rw [effectAt, hx]
          rfl
        refine ⟨?_, ?_⟩
        · refine List.forall_mem_cons.mpr ⟨by rw [hat]; rfl, ?_⟩
          intro e' he'
          rw [← hsame hx e' he']
          exact hall e' he'
        · rw [List.filterMap_cons_some hat, List.filterMap_congr (hsame hx)]
      · rintro ⟨hall, rfl⟩
        obtain ⟨hfirst, hrest⟩ := List.forall_mem_cons.mp hall
        cases hx : effectIn rt settings t db m e.1 e.2 with
        | error err =>
            rw [effectAt, hx] at hfirst
            cases hfirst
        | ok x =>
            have hat : effectAt rt settings t db m e = some x := by
              rw [effectAt, hx]
              rfl
            refine ⟨x, _, rfl, (ih (htail.imp (fun h => h.after x))).mpr ⟨?_, rfl⟩, ?_⟩
            · intro e' he'
              rw [hsame hx e' he']
              exact hrest e' he'
            · rw [List.filterMap_cons_some hat, List.filterMap_congr (hsame hx)]

/-! ## A batch has the effects of its pairs -/

variable {pairs : Dict String Pair} {quotes : Dict String Quote}

/-- The pair of an entry of the loop with its quote. -/
def quotedEntry (quotes : Dict String Quote) (e : Pair × Message) : Option (Pair × Quote) :=
  (quotes.get? e.1.krakenPairName).map (fun quote => (e.1, quote))

/-- A loop whose pairs have their effects returns with them. -/
theorem runTx_observeAll_effects {entries : List (Pair × Message)}
    (hpairs : ∀ e ∈ entries, pairs.get? e.1.krakenPairName = some e.1) {s : State}
    (hm : s.mem.Indexed) (hclock : s.env.clock = t) {xs : List Effect}
    (h : effectsIn rt settings t s.view s.mem (entries.filterMap (quotedEntry quotes)) = .ok xs) :
    runTx (observeAll rt settings pairs quotes t
        (entries.map (fun e => (e.1.krakenPairName, e.2)))) s
      = (.ok ((entries.filter (fun e => (quotes.get? e.1.krakenPairName).isSome)).map Prod.snd),
          { s with
            view := xs.foldl (tablesAfter t) s.view
            mem := xs.foldl (memoryAfter t) s.mem }) := by
  induction entries generalizing s xs with
  | nil =>
      obtain rfl := Except.ok.inj h
      rfl
  | cons e rest ih =>
      have hrest := fun e he => hpairs e (List.mem_cons_of_mem _ he)
      rw [List.map_cons, observeAll]
      cases hq : quotes.get? e.1.krakenPairName with
      | none =>
          have hnone : quotedEntry quotes e = none := by
            rw [quotedEntry, hq]
            rfl
          rw [List.filterMap_cons_none hnone] at h
          rw [List.filter_cons_of_neg (by rw [hq]; exact Bool.false_ne_true)]
          exact ih hrest hm hclock h
      | some quote =>
          have hsome : quotedEntry quotes e = some (e.1, quote) := by
            rw [quotedEntry, hq]
            rfl
          rw [List.filterMap_cons_some hsome] at h
          obtain ⟨x, ys, hx, hys, rfl⟩ := effectsIn_cons_iff.mp h
          have hafter : (memoryAfter t s.mem x).Indexed := by
            intro pairId
            rw [rulesForPair_memoryAfter]
            exact hm pairId
          rw [hpairs e List.mem_cons_self, List.filter_cons_of_pos (by rw [hq]; rfl)]
          show runTx (observePair rt settings e.1 quote t >>= fun _ =>
            observeAll rt settings pairs quotes t
              (rest.map (fun e => (e.1.krakenPairName, e.2))) >>= fun toDelete =>
                pure (e.2 :: toDelete)) s = _
          rw [runTx_bind_ok (runTx_observePair_eq hm hclock hx), runTx_bind_ok (ih hrest (s := { s with
            view := tablesAfter t s.view x, mem := memoryAfter t s.mem x }) hafter hclock hys)]
          rfl

/-- A loop that returned had the effects of its pairs. -/
theorem effectsIn_of_observeAll {entries : List (Pair × Message)}
    (hpairs : ∀ e ∈ entries, pairs.get? e.1.krakenPairName = some e.1) {s s' : State}
    (hm : s.mem.Indexed) (hclock : s.env.clock = t) {toDelete : List Message}
    (h : runTx (observeAll rt settings pairs quotes t
      (entries.map (fun e => (e.1.krakenPairName, e.2)))) s = (.ok toDelete, s')) :
    ∃ xs, effectsIn rt settings t s.view s.mem (entries.filterMap (quotedEntry quotes))
      = .ok xs := by
  induction entries generalizing s s' toDelete with
  | nil => exact ⟨[], rfl⟩
  | cons e rest ih =>
      have hrest := fun e he => hpairs e (List.mem_cons_of_mem _ he)
      rw [List.map_cons, observeAll] at h
      cases hq : quotes.get? e.1.krakenPairName with
      | none =>
          have hnone : quotedEntry quotes e = none := by
            rw [quotedEntry, hq]
            rfl
          rw [hq] at h
          rw [List.filterMap_cons_none hnone]
          exact ih hrest hm hclock h
      | some quote =>
          have hsome : quotedEntry quotes e = some (e.1, quote) := by
            rw [quotedEntry, hq]
            rfl
          rw [hq, hpairs e List.mem_cons_self] at h
          obtain ⟨u, s₁, hfirst, hloop⟩ := runTx_bind_inv h
          obtain ⟨toDelete', s₂, hrun, -⟩ := runTx_bind_inv hloop
          obtain ⟨x, hx⟩ := effectIn_of_ok hm hfirst
          rw [runTx_observePair_eq hm hclock hx] at hfirst
          obtain ⟨-, rfl⟩ := Prod.mk.inj hfirst
          have hafter : (memoryAfter t s.mem x).Indexed := by
            intro pairId
            rw [rulesForPair_memoryAfter]
            exact hm pairId
          obtain ⟨ys, hys⟩ := ih hrest (s := { s with
            view := tablesAfter t s.view x, mem := memoryAfter t s.mem x }) hafter hclock hrun
          rw [List.filterMap_cons_some hsome]
          exact ⟨x :: ys, effectsIn_cons_iff.mpr ⟨x, ys, hx, hys, rfl⟩⟩

end Runs

/-- The provider answers from a fixed map, whatever it is asked for. -/
def Answers (quotesOf : List String → Option (Dict String Quote)) (q : String → Option Quote) :
    Prop :=
  ∀ names, ∃ quotes, quotesOf names = some quotes ∧ ∀ name ∈ names, quotes.get? name = q name

section Batch

variable {rt : Runtime} {settings : Settings} {messages : List Message} {s s' : State}
  {q : String → Option Quote}

/-- The store after a batch with some effects. -/
def batchAfter (rt : Runtime) (q : String → Option Quote) (messages : List Message)
    (xs : List Effect)
    (s : State) : State where
  committed := xs.foldl (tablesAfter s.env.clock) s.view
  view := xs.foldl (tablesAfter s.env.clock) s.view
  mem := xs.foldl (memoryAfter s.env.clock) s.mem
  env := { s.env with deleted := s.env.deleted ++ deletedBy rt s.view q messages }

/-- The pairs of the loop are the quoted pairs of the messages. -/
theorem quotedPairs_livePart {db : Database} (hunique : UniquePairs db)
    {quotes : Dict String Quote} (hquotes : ∀ e ∈ livePart db (messagesById rt messages),
      quotes.get? e.1.krakenPairName = q e.1.krakenPairName) :
    (livePart db (messagesById rt messages)).filterMap (quotedEntry quotes)
        = quotedPairs rt db q messages
      ∧ ((livePart db (messagesById rt messages)).filter
          (fun e => (quotes.get? e.1.krakenPairName).isSome)).map Prod.snd
        = messages.filter (fun m => (quotedOf rt db q m).isSome) := by
  rw [livePart_messages hunique] at hquotes ⊢
  rw [quotedPairs]
  -- On the messages: one of a live pair is an entry on both sides, any other on none.
  induction messages with
  | nil => exact ⟨rfl, rfl⟩
  | cons m rest ih =>
      cases hp : pairOf rt db m with
      | none =>
          have hnone : quotedOf rt db q m = none := by
            rw [quotedOf, hp]
            rfl
          have hskip : liveOf rt db m = none := by
            rw [liveOf, hp]
            rfl
          rw [List.filterMap_cons_none hskip] at hquotes ⊢
          rw [List.filterMap_cons_none hnone,
            List.filter_cons_of_neg (by rw [hnone]; exact Bool.false_ne_true)]
          exact ih hquotes
      | some p =>
          have htake : liveOf rt db m = some (p, m) := by
            rw [liveOf, hp]
            rfl
          rw [List.filterMap_cons_some htake] at hquotes ⊢
          obtain ⟨hfirst, hrest⟩ := List.forall_mem_cons.mp hquotes
          obtain ⟨hentries, hmessages⟩ := ih hrest
          have hentry : quotedEntry quotes (p, m) = quotedOf rt db q m := by
            rw [quotedEntry, quotedOf, hp, hfirst]
            rfl
          have hquoted : (quotedOf rt db q m).isSome
              = (quotes.get? (p, m).1.krakenPairName).isSome := by
            rw [← hentry, quotedEntry, Option.isSome_map]
          constructor
          · rw [List.filterMap_cons, List.filterMap_cons, hentry, hentries]
          · rw [List.filter_cons, List.filter_cons, hquoted, ← hmessages]
            split
            · rfl
            · rfl

/-- What the provider answers a batch. -/
theorem Answers.onLivePart (hq : Answers s.env.quotes q) (hunique : UniquePairs s.view)
    (hw : WellFormed rt messages) :
    ∃ quotes, s.env.quotes (messageByCanonical (livePart s.view (messagesById rt messages))).keys
        = some quotes
      ∧ ∀ e ∈ livePart s.view (messagesById rt messages),
          quotes.get? e.1.krakenPairName = q e.1.krakenPairName := by
  obtain ⟨quotes, hquotes, hget⟩ :=
    hq (messageByCanonical (livePart s.view (messagesById rt messages))).keys
  refine ⟨quotes, hquotes, ?_⟩
  intro e he
  refine hget _ ?_
  rw [messageByCanonical_livePart hunique (collected_nodup hw.collected), Dict.keys, List.map_map]
  exact List.mem_map_of_mem (f := fun e : Pair × Message => e.1.krakenPairName) he

/-- A batch without live pairs observes nothing. -/
theorem runTx_processBatch_dead (hunique : UniquePairs s.view) (hview : s.view = s.committed)
    (hw : WellFormed rt messages) (hlive : livePart s.view (messagesById rt messages) = []) :
    quotedPairs rt s.view q messages = []
      ∧ runTx (processBatch rt settings messages) s = (.ok (), batchAfter rt q messages [] s) := by
  have hnone : ∀ e ∈ livePart s.view (messagesById rt messages),
      Dict.get? [] e.1.krakenPairName = q e.1.krakenPairName := by
    intro e he
    rw [hlive] at he
    exact absurd he List.not_mem_nil
  obtain ⟨hquoted, hobserved⟩ := quotedPairs_livePart hunique hnone
  rw [hlive] at hquoted hobserved
  refine ⟨hquoted.symm, ?_⟩
  have hidle : ∀ byPairId quotes,
      ¬ Observes rt s.view s.env.quotes messages byPairId quotes := by
    intro byPairId quotes hobserves
    obtain rfl := Except.ok.inj (hobserves.collected.symm.trans hw.collected)
    exact hobserves.live hlive
  rw [runTx_processBatch_idle hidle, hw.collected]
  show (Except.ok (), { s with env := { s.env with
    deleted := s.env.deleted ++ gonePart s.view (messagesById rt messages) } }) = _
  have hdeleted : deletedBy rt s.view q messages = gonePart s.view (messagesById rt messages) := by
    rw [deletedBy, ← hobserved, gonePart_messages hunique]
    exact List.append_nil _
  rw [batchAfter, hdeleted, List.foldl_nil, List.foldl_nil, hview]

/-- A batch whose pairs have their effects returns with them. -/
theorem runTx_processBatch_effects (hunique : UniquePairs s.view) (hview : s.view = s.committed)
    (hm : s.mem.Indexed) (hw : WellFormed rt messages) (hq : Answers s.env.quotes q)
    {xs : List Effect}
    (h : effectsIn rt settings s.env.clock s.view s.mem (quotedPairs rt s.view q messages)
      = .ok xs) :
    runTx (processBatch rt settings messages) s = (.ok (), batchAfter rt q messages xs s) := by
  by_cases hlive : livePart s.view (messagesById rt messages) = []
  · obtain ⟨hquoted, hrun⟩ := @runTx_processBatch_dead rt settings messages s q hunique hview hw
      hlive
    rw [hquoted] at h
    obtain rfl := Except.ok.inj h
    exact hrun
  · obtain ⟨quotes, hquotes, hget⟩ := hq.onLivePart hunique hw
    have hkeys := collected_nodup hw.collected
    obtain ⟨hpairs, hobserved⟩ := quotedPairs_livePart hunique hget
    rw [← hpairs] at h
    rw [runTx_processBatch_eq ⟨hw.collected, hlive, hquotes⟩, batchLoop,
      messageByCanonical_livePart hunique hkeys, runTx_observeAll_effects
        (fun e he => get?_pairByCanonical_livePart hunique hkeys he) hm rfl h, hobserved]
    show runTx (commitAndDelete _ _) _ = _
    rw [runTx_commitAndDelete, gonePart_messages hunique]
    rfl

/-- A batch that returned had the effects of its pairs. -/
theorem effectsIn_of_processBatch (hunique : UniquePairs s.view) (hview : s.view = s.committed)
    (hm : s.mem.Indexed) (hw : WellFormed rt messages) (hq : Answers s.env.quotes q)
    (h : runTx (processBatch rt settings messages) s = (.ok (), s')) :
    ∃ xs, effectsIn rt settings s.env.clock s.view s.mem (quotedPairs rt s.view q messages)
      = .ok xs := by
  by_cases hlive : livePart s.view (messagesById rt messages) = []
  · rw [(@runTx_processBatch_dead rt settings messages s q hunique hview hw hlive).1]
    exact ⟨[], rfl⟩
  · obtain ⟨quotes, hquotes, hget⟩ := hq.onLivePart hunique hw
    have hkeys := collected_nodup hw.collected
    obtain ⟨toDelete, s₁, hrun, -⟩ := processBatch_ok_inv ⟨hw.collected, hlive, hquotes⟩ h
    rw [batchLoop, messageByCanonical_livePart hunique hkeys] at hrun
    rw [← (quotedPairs_livePart hunique hget).1]
    exact effectsIn_of_observeAll
      (fun e he => get?_pairByCanonical_livePart hunique hkeys he) hm rfl hrun

/-! ## Message by message -/

variable (rt settings) in
/-- One batch for each message. -/
def oneByOne : List Message → Tx Unit
  | [] => pure ()
  | message :: rest => processBatch rt settings [message] >>= fun _ => oneByOne rest

/-- Of other pairs an observation changes nothing. -/
theorem find?_updateWhere {f : Pair → Pair} (hf : ∀ p, (f p).id = p.id) {pairId pairId' : Uuid}
    (h : pairId ≠ pairId') (pairs : List Pair) :
    (updateWhere (fun p => p.id == pairId) f pairs).find? (fun p => p.id == pairId')
      = pairs.find? (fun p => p.id == pairId') := by
  induction pairs with
  | nil => rfl
  | cons p rest ih =>
      show ((if p.id == pairId then f p else p)
        :: updateWhere (fun p => p.id == pairId) f rest).find? (fun p => p.id == pairId') = _
      cases hp : p.id == pairId with
      | false => simp only [Bool.false_eq_true, if_false, List.find?_cons, ih]
      | true =>
          have hother : (p.id == pairId') = false :=
            beq_eq_false_iff_ne.mpr (fun heq => h ((beq_iff_eq.mp hp).symm.trans heq))
          simp only [if_true, List.find?_cons, hf, hother, ih]

theorem pairOf_foldl_tablesAfter {t : Instant} {message : Message} {xs : List Effect}
    (h : ∀ x ∈ xs, x.pair.id ≠ idOf rt message) (db : Database) :
    pairOf rt (xs.foldl (tablesAfter t) db) message = pairOf rt db message := by
  rw [foldl_tablesAfter]
  show (xs.foldl (Effect.update t) db.pairs).find? _ = db.pairs.find? _
  generalize db.pairs = pairs
  induction xs generalizing pairs with
  | nil => rfl
  | cons x rest ih =>
      rw [List.foldl_cons, ih (fun x' hx' => h x' (List.mem_cons_of_mem _ hx'))]
      refine find?_updateWhere ?_ (h x List.mem_cons_self) pairs
      exact fun _ => rfl

theorem uniquePairs_foldl_tablesAfter {t : Instant} {db : Database} (h : UniquePairs db)
    (xs : List Effect) : UniquePairs (xs.foldl (tablesAfter t) db) := by
  have hkept : ∀ (x : Effect) (pairs : List Pair),
      (Effect.update t pairs x).map Pair.id = pairs.map Pair.id
        ∧ (Effect.update t pairs x).map Pair.krakenPairName = pairs.map Pair.krakenPairName := by
    intro x pairs
    obtain ⟨f, hf, hpairs⟩ := (grows_observed { pairs } x.pair x.quote t).pairs
    have hmap : Effect.update t pairs x = pairs.map f := hpairs
    rw [hmap, List.map_map, List.map_map]
    exact ⟨List.map_congr_left (fun p _ => (hf p).1), List.map_congr_left (fun p _ => (hf p).2)⟩
  have hall : ∀ pairs : List Pair,
      (xs.foldl (Effect.update t) pairs).map Pair.id = pairs.map Pair.id
        ∧ (xs.foldl (Effect.update t) pairs).map Pair.krakenPairName
          = pairs.map Pair.krakenPairName := by
    induction xs with
    | nil => exact fun _ => ⟨rfl, rfl⟩
    | cons x rest ih =>
        intro pairs
        obtain ⟨hids, hnames⟩ := ih (Effect.update t pairs x)
        exact ⟨hids.trans (hkept x pairs).1, hnames.trans (hkept x pairs).2⟩
  rw [foldl_tablesAfter]
  constructor
  · show ((xs.foldl (Effect.update t) db.pairs).map Pair.id).Nodup
    rw [(hall db.pairs).1]
    exact h.ids
  · show ((xs.foldl (Effect.update t) db.pairs).map Pair.krakenPairName).Nodup
    rw [(hall db.pairs).2]
    exact h.names

theorem indexed_foldl_memoryAfter {t : Instant} {m : Memory} (h : m.Indexed)
    (xs : List Effect) : (xs.foldl (memoryAfter t) m).Indexed := by
  induction xs generalizing m with
  | nil => exact h
  | cons x rest ih =>
      refine ih (m := memoryAfter t m x) ?_
      intro pairId
      rw [rulesForPair_memoryAfter]
      exact h pairId

/-- Messages one by one have the effects of their pairs. -/
theorem runTx_oneByOne_effects {ms : List Message} (hunique : UniquePairs s.view)
    (hview : s.view = s.committed) (hm : s.mem.Indexed) (hw : WellFormed rt ms)
    (hq : Answers s.env.quotes q) {xs : List Effect}
    (h : effectsIn rt settings s.env.clock s.view s.mem (quotedPairs rt s.view q ms) = .ok xs) :
    ∃ s₂, runTx (oneByOne rt settings ms) s = (.ok (), s₂)
      ∧ s₂.committed = xs.foldl (tablesAfter s.env.clock) s.committed
      ∧ (s₂.env.deleted).Perm (s.env.deleted ++ ms.filter
          (fun m => (pairOf rt s.view m).isNone || (quotedOf rt s.view q m).isSome)) := by
  induction ms generalizing s xs with
  | nil =>
      obtain rfl := Except.ok.inj h
      exact ⟨s, rfl, rfl, List.Perm.of_eq (List.append_nil _).symm⟩
  | cons message rest ih =>
      have hsplit : quotedPairs rt s.view q (message :: rest)
          = quotedPairs rt s.view q [message] ++ quotedPairs rt s.view q rest :=
        List.filterMap_append (l := [message])
      rw [hsplit] at h
      obtain ⟨ys, zs, hys, hzs, rfl⟩ := effectsIn_append_iff.mp h
      have hrun := runTx_processBatch_effects hunique hview hm hw.head hq hys
      -- The pairs of the rest are not the pair of this message.
      have hothers : ∀ m ∈ rest,
          pairOf rt (ys.foldl (tablesAfter s.env.clock) s.view) m = pairOf rt s.view m := by
        intro m hmem
        refine pairOf_foldl_tablesAfter ?_ s.view
        intro x hx hid
        have hpair : x.pair ∈ (quotedPairs rt s.view q [message]).map Prod.fst := by
          rw [← map_pair_effectsIn hys]
          exact List.mem_map_of_mem hx
        obtain ⟨e, he, heq⟩ := List.mem_map.mp hpair
        obtain ⟨m', hm', hquoted⟩ := List.mem_filterMap.mp he
        rw [List.mem_singleton.mp hm'] at hquoted
        have hnamed := (pairOf_some (quotedOf_some hquoted).1).2
        rw [heq, hid] at hnamed
        exact (List.nodup_cons.mp hw.apart).1 (List.mem_map.mpr ⟨m, hmem, hnamed⟩)
      have hquoted : ∀ m ∈ rest, quotedOf rt (ys.foldl (tablesAfter s.env.clock) s.view) q m
          = quotedOf rt s.view q m := by
        intro m hmem
        rw [quotedOf, quotedOf, hothers m hmem]
      have hpairs : quotedPairs rt (ys.foldl (tablesAfter s.env.clock) s.view) q rest
          = quotedPairs rt s.view q rest :=
        List.filterMap_congr hquoted
      rw [← hpairs] at hzs
      obtain ⟨s₂, hrest, hcommitted, hdeleted⟩ := ih (s := batchAfter rt q [message] ys s)
        (uniquePairs_foldl_tablesAfter hunique ys) rfl (indexed_foldl_memoryAfter hm ys) hw.tail
        hq hzs
      refine ⟨s₂, (runTx_bind_ok hrun).trans hrest, ?_, ?_⟩
      · rw [hcommitted, List.foldl_append, ← hview]
        rfl
      · refine hdeleted.trans ?_
        have hfilter : rest.filter (fun m =>
              (pairOf rt (batchAfter rt q [message] ys s).view m).isNone
                || (quotedOf rt (batchAfter rt q [message] ys s).view q m).isSome)
            = rest.filter (fun m =>
              (pairOf rt s.view m).isNone || (quotedOf rt s.view q m).isSome) := by
          refine List.filter_congr ?_
          intro m hmem
          show ((pairOf rt (ys.foldl _ s.view) m).isNone
            || (quotedOf rt (ys.foldl _ s.view) q m).isSome)
            = _
          rw [hothers m hmem, hquoted m hmem]
        rw [hfilter]
        show ((s.env.deleted ++ deletedBy rt s.view q [message]) ++ _).Perm _
        rw [List.append_assoc]
        refine List.Perm.append_left _ ?_
        rw [show message :: rest = [message] ++ rest from rfl, List.filter_append]
        exact deletedBy_perm.append_right _

/-! ## The same rows in any order -/

variable {ms : List Message}

variable (rt) in
/-- `sha256` tells apart the texts that the rules of some pairs hash. -/
def HashesApart (t : Instant) (m : Memory) (es : List (Pair × Quote)) : Prop :=
  ∀ e ∈ es, ∀ e' ∈ es, ∀ rule ∈ (m.rulesForPair e.1.id).all,
    ∀ rule' ∈ (m.rulesForPair e'.1.id).all,
      rt.sha256 (keyText rt e.1 (quoteObservation e.2 t) rule)
          = rt.sha256 (keyText rt e'.1 (quoteObservation e'.2 t) rule')
        → keyText rt e.1 (quoteObservation e.2 t) rule
          = keyText rt e'.1 (quoteObservation e'.2 t) rule'

theorem HashesApart.perm {t : Instant} {m : Memory} {es fs : List (Pair × Quote)}
    (h : HashesApart rt t m es) (hperm : es.Perm fs) : HashesApart rt t m fs :=
  fun e he e' he' => h e (hperm.mem_iff.mpr he) e' (hperm.mem_iff.mpr he')

/-- Quoted pairs of one batch are separate. -/
theorem HashesApart.separate {t : Instant} {m : Memory} {es : List (Pair × Quote)}
    (h : HashesApart rt t m es) (hm : m.Indexed) (hids : DistinctIds m)
    (hnodup : (es.map (fun e => e.1.id)).Nodup) :
    es.Pairwise (fun e e' => Separate rt t m e.1 e'.1 e.2 e'.2) := by
  refine (List.pairwise_map.mp hnodup).imp_of_mem ?_
  intro e e' he he' hne
  constructor
  · exact hne
  · intro rule hr rule' hr' hkey
    exact hne (pairId_of_keyText (h e he e' he' rule hr rule' hr' hkey))
  · intro rule hr rule' hr' hid
    have hrule : rule = rule' := hids _ _ rule rule' hr hr' hid
    rw [← hrule] at hr'
    exact hne (((hm _).ofPair rule hr).symm.trans ((hm _).ofPair rule hr'))

/-- A batch commits the rows and deletes the messages that its messages one by one do, in
    whatever order. -/
theorem batch_eq_oneByOne (hview : s.view = s.committed) (hunique : UniquePairs s.committed)
    (hm : s.mem.Indexed) (hids : DistinctIds s.mem) (hw : WellFormed rt messages)
    (hq : Answers s.env.quotes q)
    (hsha : HashesApart rt s.env.clock s.mem (quotedPairs rt s.committed q messages))
    (hperm : messages.Perm ms) {s₁ : State}
    (h : runTx (processBatch rt settings messages) s = (.ok (), s₁)) :
    ∃ s₂, runTx (oneByOne rt settings ms) s = (.ok (), s₂)
      ∧ SameRows s.committed s₁.committed s₂.committed
      ∧ s₁.env.deleted.Perm s₂.env.deleted := by
  rw [← hview] at hunique hsha ⊢
  obtain ⟨xs, hxs⟩ := effectsIn_of_processBatch hunique hview hm hw hq h
  rw [runTx_processBatch_effects hunique hview hm hw hq hxs] at h
  obtain ⟨-, rfl⟩ := Prod.mk.inj h
  have hpairs : (quotedPairs rt s.view q messages).Perm (quotedPairs rt s.view q ms) :=
    hperm.filterMap _
  have hnodup := @nodup_quotedPairs s.view q messages rt hw
  obtain ⟨hall, hstart⟩ := (effectsIn_eq_iff (hsha.separate hm hids hnodup)).mp hxs
  -- In the other order the pairs have the same effects, which the start decides.
  have hapart := (hsha.perm hpairs).separate hm hids (nodup_quotedPairs (hw.perm hperm))
  have hys := (effectsIn_eq_iff hapart).mpr ⟨fun e he => hall e (hpairs.mem_iff.mpr he), rfl⟩
  obtain ⟨s₂, hrun, hcommitted, hdeleted⟩ :=
    runTx_oneByOne_effects hunique hview hm (hw.perm hperm) hq hys
  refine ⟨s₂, hrun, ?_, ?_⟩
  · rw [hcommitted, ← hview]
    refine sameRows_of_perm ?_ ?_ s.view
    · rw [hstart]
      exact hpairs.filterMap _
    · have hmap : xs.map (fun x => x.pair.id)
          = (quotedPairs rt s.view q messages).map (fun e => e.1.id) := by
        have hids' := congrArg (List.map Pair.id) (map_pair_effectsIn hxs)
        rw [List.map_map, List.map_map] at hids'
        exact hids'
      rw [hmap]
      exact hnodup
  · refine List.Perm.trans ?_ hdeleted.symm
    exact List.Perm.append_left _ (deletedBy_perm.trans (hperm.filter _))

end Batch

/-- The second batch of the two pairs. -/
theorem runTx_beforeSecond :
    runTx (processBatch Runtime.rational {} twiceMessages) beforeSecond = (.ok (), afterSecond) := by
  have hok : (runTx (processBatch Runtime.rational {} twiceMessages) beforeSecond).1 = .ok () := by
    decide +kernel
  exact Prod.ext hok rfl

/-- Two fires in one batch, and in two of the other order. -/
theorem batch_eq_oneByOne_twice :
    ∃ s₂, runTx (oneByOne Runtime.rational {} twiceMessages.reverse) beforeSecond = (.ok (), s₂)
      ∧ SameRows beforeSecond.committed afterSecond.committed s₂.committed
      ∧ afterSecond.env.deleted.Perm s₂.env.deleted := by
  have hview : beforeSecond.view = beforeSecond.committed := rfl
  have hunique : UniquePairs beforeSecond.committed := ⟨by decide +kernel, by decide +kernel⟩
  have hindexed : beforeSecond.mem.Indexed := (loaded_twiceState _ _).indexed
  have hids : DistinctIds beforeSecond.mem := distinctIds_install (by decide) rfl {}
  have hmessages : WellFormed Runtime.rational twiceMessages :=
    ⟨by decide +kernel, by decide +kernel⟩
  have hanswers : Answers beforeSecond.env.quotes
      (Dict.get? [quoteAt "XBT/USD" 100, quoteAt "ETH/USD" 2048]) :=
    fun names => ⟨_, rfl, fun _ _ => rfl⟩
  have hhashes : HashesApart Runtime.rational beforeSecond.env.clock beforeSecond.mem
      (quotedPairs Runtime.rational beforeSecond.committed
        (Dict.get? [quoteAt "XBT/USD" 100, quoteAt "ETH/USD" 2048]) twiceMessages) :=
    fun _ _ _ _ _ _ _ _ htext => htext
  have hperm : twiceMessages.Perm twiceMessages.reverse := (List.reverse_perm twiceMessages).symm
  exact batch_eq_oneByOne hview hunique hindexed hids hmessages hanswers hhashes hperm
    runTx_beforeSecond

end Dropwatch.Batching
