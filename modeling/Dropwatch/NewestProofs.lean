import Dropwatch.Lib.Trace
import Dropwatch.FailedBatchProofs
import Dropwatch.Workers

/-! # The newest observation — `current_*` and `last_fired_at` under many batches

    A batch takes its time before its first write and overwrites the `current_*`
    columns of its pairs and the `last_fired_at` of its rules whatever is there.
    Batches run side by side, so commits can come in another order than the
    observations they carry.

    What a commit holds is read off the program once (`processBatch_logs`): for each
    observed pair a row, one UPDATE and the fires.  From it follows what the columns
    are after the commit, and over a run of commits in order they are those of the
    newest row and the newest fire (`latest_of_inOrder`). -/

namespace Dropwatch.Newest

open Transact RuleIndex Evaluator Poller Workers

/-- Batches and rebuilds, any number of each, stopped anywhere. -/
def polling (rt : Runtime) (settings : Settings) : WorkerSystem where
  backend := backend
  answers := Answers
  starts := fun _ _ _ p => p = thread rebuild ∨ ∃ messages, p = thread (processBatch rt settings messages)
  execs := fun _ _ _ _ _ => True
  closes := fun _ _ _ => True

/-- A commit: the tables before it, and its writes. -/
abbrev Commit : Type := Database × List (Generated × Write)

/-- The statements of a commit. -/
def Commit.writes (x : Commit) : List Write := x.2.map Prod.snd

/-! ## The columns and the rows -/

/-- Three prices, some of them absent. -/
structure Prices where
  last : Option Decimal
  bid : Option Decimal
  ask : Option Decimal

/-- The `current_*` columns. -/
def pairPrices (pair : Pair) : Prices :=
  ⟨pair.currentLastPrice, pair.currentBidPrice, pair.currentAskPrice⟩

def rowPrices (row : PriceHistory) : Prices :=
  ⟨some row.lastPrice, some row.bidPrice, some row.askPrice⟩

/-- The same numbers. -/
structure Prices.Same (a b : Prices) : Prop where
  last : sameNumber a.last b.last = true
  bid : sameNumber a.bid b.bid = true
  ask : sameNumber a.ask b.ask = true

/-- The `current_*` columns of a pair are those of a row of its own, and none of its
    rows is newer. -/
structure ComesFrom (db : Database) (pair : Pair) (row : PriceHistory) : Prop where
  mem : row ∈ db.priceHistory
  own : row.pairId = pair.id
  newest : ∀ row' ∈ db.priceHistory, row'.pairId = pair.id → row'.observedAt ≤ row.observedAt
  same : (pairPrices pair).Same (rowPrices row)

/-- A fire among the writes: a notification of the rule, recorded by an observation of
    its pair at this time. -/
def Fired (ws : List Write) (ruleId : Uuid) (t : Instant) : Prop :=
  ∃ n row, .addNotification n ∈ ws ∧ n.ruleId = ruleId
    ∧ .addPriceHistory row ∈ ws ∧ row.pairId = n.pairId ∧ row.observedAt = t

/-- The fires recorded before a run, and those of its commits. -/
def FiredBy (past : Uuid → Instant → Prop) (xs : List Commit) (ruleId : Uuid) (t : Instant) :
    Prop :=
  past ruleId t ∨ ∃ x ∈ xs, Fired x.writes ruleId t

/-- Every observed pair shows its newest row, and every rule has the time of its newest
    fire. -/
structure Latest (fired : Uuid → Instant → Prop) (db : Database) : Prop where
  pairs : ∀ pair ∈ db.pairs, (∃ row ∈ db.priceHistory, row.pairId = pair.id) →
    ∃ row, ComesFrom db pair row
  recorded : ∀ rule ∈ db.alertRules, ∀ t, rule.lastFiredAt = some t → fired rule.id t
  newest : ∀ rule ∈ db.alertRules, ∀ t, fired rule.id t →
    ∃ t', rule.lastFiredAt = some t' ∧ t ≤ t'

/-- Nothing went back between two states of the tables. -/
structure Onward (db db' : Database) : Prop where
  pairs : ∀ pair ∈ db.pairs, ∀ pair' ∈ db'.pairs, pair'.id = pair.id →
    ∀ row, ComesFrom db pair row →
      ∃ row', ComesFrom db' pair' row' ∧ row.observedAt ≤ row'.observedAt
  rules : ∀ rule ∈ db.alertRules, ∀ rule' ∈ db'.alertRules, rule'.id = rule.id →
    ∀ t, rule.lastFiredAt = some t → ∃ t', rule'.lastFiredAt = some t' ∧ t ≤ t'

/-- A commit in order: no committed row of a pair it observed is newer than its own, no
    rule it fired has a later `last_fired_at`, and a column it leaves out, because the
    loaded value was the quoted one, still has that value. -/
structure InOrder (x : Commit) : Prop where
  rows : ∀ row, .addPriceHistory row ∈ x.writes → ∀ row' ∈ x.1.priceHistory,
    row'.pairId = row.pairId → row'.observedAt ≤ row.observedAt
  fires : ∀ ruleId t, Fired x.writes ruleId t → ∀ rule ∈ x.1.alertRules, rule.id = ruleId →
    ∀ t', rule.lastFiredAt = some t' → t' ≤ t
  kept : ∀ row last bid ask t, .addPriceHistory row ∈ x.writes →
    .setPairObservation row.pairId last bid ask t ∈ x.writes →
      ∀ pair ∈ x.1.pairs, pair.id = row.pairId →
        (last = none → sameNumber pair.currentLastPrice (some row.lastPrice) = true)
          ∧ (bid = none → sameNumber pair.currentBidPrice (some row.bidPrice) = true)
          ∧ (ask = none → sameNumber pair.currentAskPrice (some row.askPrice) = true)

/-! ## What a batch commits -/

/-- The given columns of an UPDATE are those of the row. -/
structure Prices.Given (columns row : Prices) : Prop where
  last : columns.last = none ∨ columns.last = row.last
  bid : columns.bid = none ∨ columns.bid = row.bid
  ask : columns.ask = none ∨ columns.ask = row.ask

/-- A recorded fire, with its event unless it is suppressed. -/
structure Fire where
  notification : NewNotification
  event : Option (Uuid × Payload)

def Fire.writes (t : Instant) (x : Fire) : List Write :=
  .addNotification x.notification ::
    ((x.event.map fun e => Write.addOutboxEvent e.1 e.2).toList
      ++ [.setRuleLastFiredAt x.notification.ruleId t])

/-- An observed pair: its row, the columns of its UPDATE, and the fires. -/
structure Visit where
  row : PriceHistory
  columns : Prices
  fires : List Fire
  given : columns.Given (rowPrices row)
  own : ∀ x ∈ fires, x.notification.pairId = row.pairId

def Visit.pairId (v : Visit) : Uuid := v.row.pairId

def Visit.writes (v : Visit) : List Write :=
  .addPriceHistory v.row
    :: .setPairObservation v.pairId v.columns.last v.columns.bid v.columns.ask v.row.observedAt
    :: v.fires.flatMap (Fire.writes v.row.observedAt)

/-- The writes of a batch: its pairs, each once, at one time. -/
structure Visited (t : Instant) (visits : List Visit) (ws : List Write) : Prop where
  writes : ws = visits.flatMap Visit.writes
  apart : (visits.map Visit.pairId).Nodup
  time : ∀ v ∈ visits, v.row.observedAt = t

def Recorded (ws : List Write) : Prop := ∃ t visits, Visited t visits ws

/-- What comes after the writes so far. -/
def Adds (t : Instant) (pairId : Uuid) (ws ws' : List Write) : Prop :=
  ∃ fires : List Fire, ws' = ws ++ fires.flatMap (Fire.writes t)
    ∧ ∀ x ∈ fires, x.notification.pairId = pairId

theorem Adds.refl (t : Instant) (pairId : Uuid) (ws : List Write) : Adds t pairId ws ws :=
  ⟨[], (List.append_nil ws).symm, fun _ h => absurd h List.not_mem_nil⟩

theorem Adds.trans {t : Instant} {pairId : Uuid} {ws ws' ws'' : List Write}
    (h : Adds t pairId ws ws') (h' : Adds t pairId ws' ws'') : Adds t pairId ws ws'' := by
  obtain ⟨fires, rfl, hown⟩ := h
  obtain ⟨fires', rfl, hown'⟩ := h'
  refine ⟨fires ++ fires', ?_, ?_⟩
  · rw [List.flatMap_append, List.append_assoc]
  · intro x hx
    rcases List.mem_append.mp hx with hx | hx
    · exact hown x hx
    · exact hown' x hx

theorem Adds.fire {t : Instant} (ws : List Write) (x : Fire) :
    Adds t x.notification.pairId ws (ws ++ x.writes t) := by
  refine ⟨[x], by rw [List.flatMap_singleton], ?_⟩
  intro x' hx'
  rw [List.mem_singleton.mp hx']

section Programs

variable (rt : Runtime) (settings : Settings) {C : List Write → Prop}

theorem fireRule_logs (pair : Pair) (obs : Observation) (generation : Nat) (c : Candidates rt)
    (rule : AlertRule) (ws : List Write) :
    (fireRule rt pair obs generation c rule).Logs C
      (fun _ ws' => Adds obs.observedAt pair.id ws ws') ws := by
  refine Script.Logs.silent rfl (fun existing => ?_)
  cases existing with
  | some id => exact Adds.refl _ _ ws
  | none =>
      refine Script.Logs.silent rfl
        (fun lastFiredAt => Script.Logs.insert (Adds.refl _ _ ws) (fun g => ?_))
      show (finishFire rt pair obs generation c rule
        (inCooldown { rule with lastFiredAt } obs.observedAt) _ g).Logs C _ _
      have hfire := fun event => Adds.fire (t := obs.observedAt) ws
        ⟨newNotification rt pair obs rule (inCooldown { rule with lastFiredAt } obs.observedAt),
          event⟩
      rw [finishFire]
      split
      · refine Script.Logs.silent rfl (fun _ => Script.Logs.write ?_)
        have h := hfire none
        rw [Fire.writes, List.append_cons] at h
        exact h
      · rw [addOutboxEvent]
        cases formatMessage rt pair rule obs c.zscoreResult
            (c.pastPriceByRuleId.get? rule.id).join with
        | error e => exact trivial
        | ok message =>
            refine Script.Logs.write (Script.Logs.silent rfl (fun _ => Script.Logs.write ?_))
            have h := hfire (some (g.id, alertPayload rt pair rule obs c.zscoreResult
              (c.pastPriceByRuleId.get? rule.id).join g.id message))
            rw [Fire.writes, List.append_cons, ← List.append_assoc] at h
            exact h

theorem fireRules_logs (pair : Pair) (obs : Observation) (generation : Nat) (c : Candidates rt)
    (rules : List AlertRule) (ws : List Write) :
    (fireRules rt pair obs generation c rules).Logs C
      (fun _ ws' => Adds obs.observedAt pair.id ws ws') ws := by
  induction rules generalizing ws with
  | nil => exact Adds.refl _ _ ws
  | cons rule rest ih =>
      refine (fireRule_logs rt pair obs generation c rule ws).bind (fun _ ws' h => ?_)
      exact (ih ws').bind (fun _ ws'' h' => h.trans h')

theorem evaluateRulesForPair_logs (pair : Pair) (obs : Observation) (ws : List Write) :
    (evaluateRulesForPair rt settings pair obs).Logs C
      (fun _ ws' => Adds obs.observedAt pair.id ws ws') ws := by
  refine Script.Logs.silent rfl ?_
  rintro ⟨generation, b⟩
  have hselect : (selectCandidates rt settings pair obs b).Sat (fun _ c => c.silent = true)
      (fun _ => True) :=
    (selectCandidates_reads rt settings pair obs b).mono (fun _ _ => Cmd.silent_of_isQuery)
      (fun _ h => h)
  refine (Script.Logs.of_silent hselect ws).bind ?_
  rintro c ws' ⟨-, rfl⟩
  exact fireRules_logs rt pair obs generation c c.rules ws'

theorem assigned_given (loaded : Option Decimal) (value : Decimal) :
    assigned loaded value = none ∨ assigned loaded value = some value := by
  rw [assigned]
  split
  · exact Or.inl rfl
  · exact Or.inr rfl

/-- A quoted pair is one visit. -/
theorem observePair_logs (pair : Pair) (quote : Quote) (t : Instant) (ws : List Write) :
    (observePair rt settings pair quote t).Logs C
      (fun _ ws' => ∃ v : Visit, v.pairId = pair.id ∧ v.row.observedAt = t
        ∧ ws' = ws ++ v.writes) ws := by
  refine Script.Logs.write (Script.Logs.write ?_)
  refine (evaluateRulesForPair_logs rt settings pair _ _).bind ?_
  rintro created ws' ⟨fires, rfl, hown⟩
  refine ⟨⟨historyRow pair quote t, ⟨assigned pair.currentLastPrice quote.last,
    assigned pair.currentBidPrice quote.bid, assigned pair.currentAskPrice quote.ask⟩, fires,
    ⟨assigned_given _ _, assigned_given _ _, assigned_given _ _⟩, hown⟩, rfl, rfl, ?_⟩
  rw [Visit.writes, List.append_assoc, List.append_assoc]
  rfl

theorem observeAll_logs {pairs : Dict String Pair} {quotes : Dict String Quote} {t : Instant}
    {entries : List (String × Message)} (hd : DistinctPairs pairs entries) (ws : List Write) :
    (observeAll rt settings pairs quotes t entries).Logs C
      (fun _ ws' => ∃ visits : List Visit, ws' = ws ++ visits.flatMap Visit.writes
        ∧ (visits.map Visit.pairId).Nodup ∧ (∀ v ∈ visits, v.row.observedAt = t)
        ∧ ∀ v ∈ visits, ∃ e ∈ entries, ∃ p, pairs.get? e.1 = some p ∧ v.pairId = p.id) ws := by
  induction entries generalizing ws with
  | nil =>
      exact ⟨[], (List.append_nil ws).symm, List.nodup_nil,
        fun _ h => absurd h List.not_mem_nil, fun _ h => absurd h List.not_mem_nil⟩
  | cons e rest ih =>
      obtain ⟨name, message⟩ := e
      obtain ⟨hhead, hrest⟩ := List.pairwise_cons.mp hd
      rw [observeAll]
      cases quotes.get? name with
      | none =>
          -- A pair without a quote is passed over.
          refine (ih hrest ws).mono ?_
          rintro _ ws' ⟨visits, hws, hnodup, htime, hfrom⟩
          refine ⟨visits, hws, hnodup, htime, ?_⟩
          intro v hv
          obtain ⟨e, he, hp⟩ := hfrom v hv
          exact ⟨e, List.mem_cons_of_mem _ he, hp⟩
      | some quote =>
          cases hpair : pairs.get? name with
          | none => exact trivial
          | some pair =>
              refine (observePair_logs rt settings pair quote t ws).bind ?_
              rintro _ ws' ⟨v, hv, ht, rfl⟩
              refine (ih hrest _).bind ?_
              rintro toDelete ws'' ⟨visits, rfl, hnodup, htime, hfrom⟩
              refine ⟨v :: visits, ?_, ?_, ?_, ?_⟩
              · rw [List.flatMap_cons, List.append_assoc]
              · rw [List.map_cons, List.nodup_cons]
                refine ⟨?_, hnodup⟩
                -- The names of the rest resolve to other pairs.
                intro hmem
                obtain ⟨v', hv', heq⟩ := List.mem_map.mp hmem
                obtain ⟨e, he, p, hp, hid⟩ := hfrom v' hv'
                exact hhead e he pair p hpair hp (by rw [← hv, ← heq, hid])
              · intro v' hv'
                rcases List.mem_cons.mp hv' with rfl | hv'
                · exact ht
                · exact htime v' hv'
              · intro v' hv'
                rcases List.mem_cons.mp hv' with rfl | hv'
                · exact ⟨_, List.mem_cons_self, pair, hpair, hv⟩
                · obtain ⟨e, he, hp⟩ := hfrom v' hv'
                  exact ⟨e, List.mem_cons_of_mem _ he, hp⟩

theorem deleteBatch_logs (messages : List Message) (ws : List Write) :
    (deleteBatch messages).Logs C (fun _ _ => True) ws := by
  rw [deleteBatch]
  split
  · exact trivial
  · exact Script.Logs.silent rfl (fun _ => trivial)

/-- What a batch commits. -/
theorem processBatch_logs (messages : List Message) :
    (processBatch rt settings messages).Logs Recorded (fun _ _ => True) [] := by
  have hlift : (Tx.lift (collectMessages rt messages [])).Sat (fun _ c => c.silent = true)
      (fun _ => True) := Script.Sat.lift (fun _ _ => trivial)
  refine (Script.Logs.of_silent hlift []).bind ?_
  rintro byPairId ws ⟨-, rfl⟩
  split
  · exact trivial
  · refine Script.Logs.silent rfl (fun rows => ?_)
    show Script.Logs Recorded _ (if (liveEntries byPairId (pairsById rows)).isEmpty then
      deleteBatch _ else processLive rt settings _ _) _
    split
    · exact deleteBatch_logs _ _
    · refine Script.Logs.silent rfl (fun quotes => ?_)
      cases quotes with
      | none => exact deleteBatch_logs _ _
      | some quotes =>
          refine Script.Logs.silent rfl (fun observedAt => ?_)
          refine (observeAll_logs rt settings (distinctPairs_liveEntries byPairId rows) []).bind ?_
          rintro toDelete ws ⟨visits, rfl, hnodup, htime, -⟩
          exact Script.Logs.commit ⟨observedAt, visits, List.nil_append _, hnodup, htime⟩
            (deleteBatch_logs _ _)

theorem polling_logs {f : Shared} {i proc : Nat} {p : Tx Unit}
    (h : (polling rt settings).starts f i proc p) : p.Logs Recorded (fun _ _ => True) [] := by
  rcases h with rfl | ⟨messages, rfl⟩
  · have hrebuild : rebuild.Sat (fun _ c => c.silent = true) (fun _ => True) :=
      ⟨rfl, fun rules => (Script.Sat.lift (fun _ _ => trivial)).bind
        (fun buckets (_ : True) => ⟨rfl, fun _ => trivial⟩)⟩
    exact (Script.Logs.of_silent hrebuild []).bind (fun _ _ _ => trivial)
  · exact (processBatch_logs rt settings messages).bind (fun _ _ _ => trivial)

end Programs

/-! ## What is in the writes -/

section Writes

variable {t : Instant} {visits : List Visit} {ws : List Write}

theorem Visit.mem_writes {v : Visit} {w : Write} :
    w ∈ v.writes ↔ w = .addPriceHistory v.row
      ∨ w = .setPairObservation v.pairId v.columns.last v.columns.bid v.columns.ask
        v.row.observedAt
      ∨ ∃ x ∈ v.fires, w = .addNotification x.notification
        ∨ (∃ e, x.event = some e ∧ w = .addOutboxEvent e.1 e.2)
        ∨ w = .setRuleLastFiredAt x.notification.ruleId v.row.observedAt := by
  have hevent : ∀ (x : Fire), (w ∈ (x.event.map fun e => Write.addOutboxEvent e.1 e.2).toList
      ↔ ∃ e, x.event = some e ∧ w = .addOutboxEvent e.1 e.2) := by
    intro x
    rw [Option.mem_toList, Option.map_eq_some_iff]
    simp only [eq_comm]
  simp only [Visit.writes, List.mem_cons, List.mem_flatMap, Fire.writes, List.mem_append, hevent,
    List.not_mem_nil, or_false]

theorem Visit.row_mem {v : Visit} {row : PriceHistory} :
    .addPriceHistory row ∈ v.writes ↔ row = v.row := by
  simp [Visit.mem_writes]

theorem Visit.notification_mem {v : Visit} {n : NewNotification} :
    .addNotification n ∈ v.writes ↔ ∃ x ∈ v.fires, n = x.notification := by
  simp [Visit.mem_writes]

theorem Visit.time_mem {v : Visit} {ruleId : Uuid} {at_ : Instant} :
    .setRuleLastFiredAt ruleId at_ ∈ v.writes
      ↔ ∃ x ∈ v.fires, ruleId = x.notification.ruleId ∧ at_ = v.row.observedAt := by
  simp [Visit.mem_writes]

theorem Visited.mem (h : Visited t visits ws) {w : Write} :
    w ∈ ws ↔ ∃ v ∈ visits, w ∈ v.writes := by
  rw [h.writes, List.mem_flatMap]

theorem Visited.row_mem (h : Visited t visits ws) {row : PriceHistory} :
    .addPriceHistory row ∈ ws ↔ ∃ v ∈ visits, v.row = row := by
  rw [h.mem]
  constructor
  · rintro ⟨v, hv, hw⟩
    exact ⟨v, hv, (Visit.row_mem.mp hw).symm⟩
  · rintro ⟨v, hv, rfl⟩
    exact ⟨v, hv, Visit.row_mem.mpr rfl⟩

/-- A pair is visited once. -/
theorem Visited.inj (h : Visited t visits ws) {v v' : Visit} (hv : v ∈ visits)
    (hv' : v' ∈ visits) (hid : v.pairId = v'.pairId) : v = v' :=
  List.inj_on_of_nodup_map h.apart hv hv' hid

/-- A rule gets the time of the batch exactly where it fired. -/
theorem Visited.fired_iff (h : Visited t visits ws) {ruleId : Uuid} {at_ : Instant} :
    Fired ws ruleId at_ ↔ .setRuleLastFiredAt ruleId at_ ∈ ws := by
  constructor
  · rintro ⟨n, row, hn, hrule, hrow, -, hat⟩
    obtain ⟨v', hv', rfl⟩ := h.row_mem.mp hrow
    obtain ⟨v, hv, hw⟩ := h.mem.mp hn
    obtain ⟨x, hx, rfl⟩ := Visit.notification_mem.mp hw
    -- The row may be of another visit of the pair, at the same time.
    rw [← hrule, ← hat, h.time v' hv', ← h.time v hv]
    exact h.mem.mpr ⟨v, hv, Visit.time_mem.mpr ⟨x, hx, rfl, rfl⟩⟩
  · intro hset
    obtain ⟨v, hv, hw⟩ := h.mem.mp hset
    obtain ⟨x, hx, rfl, rfl⟩ := Visit.time_mem.mp hw
    exact ⟨x.notification, v.row,
      h.mem.mpr ⟨v, hv, Visit.notification_mem.mpr ⟨x, hx, rfl⟩⟩, rfl,
      h.row_mem.mpr ⟨v, hv, rfl⟩, (v.own x hx).symm, rfl⟩

theorem Visited.fired_time (h : Visited t visits ws) {ruleId : Uuid} {at_ : Instant}
    (hfired : Fired ws ruleId at_) : at_ = t := by
  obtain ⟨n, row, -, -, hrow, -, rfl⟩ := hfired
  obtain ⟨v, hv, rfl⟩ := h.row_mem.mp hrow
  exact h.time v hv

theorem Visited.no_rule (h : Visited t visits ws) (rule : AlertRule) :
    .addAlertRule rule ∉ ws := by
  intro hmem
  obtain ⟨v, -, hw⟩ := h.mem.mp hmem
  simp [Visit.mem_writes] at hw

end Writes

/-! ## What a commit leaves in the columns -/

/-- The given columns over those of the row before. -/
def Prices.over (new old : Prices) : Prices :=
  ⟨(new.last.map (Decimal.numeric 8)).or old.last, (new.bid.map (Decimal.numeric 8)).or old.bid,
    (new.ask.map (Decimal.numeric 8)).or old.ask⟩

/-- The columns a statement sets for a pair. -/
def columnsOf (pairId : Uuid) : Write → Option Prices
  | .setPairObservation i last bid ask _ => if i = pairId then some ⟨last, bid, ask⟩ else none
  | _ => none

theorem rows_replay {log : List (Generated × Write)} {db : Database} {row : PriceHistory} :
    row ∈ (backend.replay db log).priceHistory ↔
      row ∈ db.priceHistory ∨ ∃ r, .addPriceHistory r ∈ log.map Prod.snd ∧ row = r.stored := by
  induction log generalizing db with
  | nil => simp
  | cons e rest ih =>
      obtain ⟨g, w⟩ := e
      show row ∈ (backend.replay (db.apply g w) rest).priceHistory ↔ _
      rw [ih, List.map_cons]
      cases w with
      | addPriceHistory r => simp [Database.apply, or_assoc, or_and_right, exists_or]
      | _ => simp [Database.apply]

/-- The statements that change the time of a rule. -/
theorem rule_apply {db : Database} {g : Generated} {w : Write} {rule : AlertRule}
    (hnew : ∀ r, w ≠ .addAlertRule r) (h : rule ∈ (db.apply g w).alertRules) :
    ∃ before ∈ db.alertRules, before.id = rule.id
      ∧ ((∃ t, w = .setRuleLastFiredAt rule.id t ∧ rule.lastFiredAt = some t)
        ∨ (∀ t, w ≠ .setRuleLastFiredAt rule.id t) ∧ rule.lastFiredAt = before.lastFiredAt) := by
  cases w with
  | addAlertRule r => exact absurd rfl (hnew r)
  | setRuleLastFiredAt ruleId t =>
      obtain ⟨before, hmem, rfl⟩ := List.mem_map.mp h
      refine ⟨before, hmem, ?_⟩
      by_cases hid : before.id = ruleId
      · simp [hid]
      · have hid' : ¬ ruleId = before.id := fun h => hid h.symm
        simp [hid, hid']
  | updateAlertRule ruleId changes =>
      obtain ⟨before, hmem, rfl⟩ := List.mem_map.mp h
      refine ⟨before, hmem, ?_⟩
      split
      · exact ⟨rfl, Or.inr ⟨(fun t heq => by cases heq), rfl⟩⟩
      · exact ⟨rfl, Or.inr ⟨(fun t heq => by cases heq), rfl⟩⟩
  | _ => exact ⟨rule, h, rfl, Or.inr ⟨(fun t heq => by cases heq), rfl⟩⟩

theorem rule_replay {log : List (Generated × Write)} {db : Database} {rule : AlertRule}
    (hnew : ∀ r, .addAlertRule r ∉ log.map Prod.snd)
    (h : rule ∈ (backend.replay db log).alertRules) :
    ∃ before ∈ db.alertRules, before.id = rule.id
      ∧ ((∃ t, .setRuleLastFiredAt rule.id t ∈ log.map Prod.snd ∧ rule.lastFiredAt = some t)
        ∨ (∀ t, .setRuleLastFiredAt rule.id t ∉ log.map Prod.snd)
          ∧ rule.lastFiredAt = before.lastFiredAt) := by
  induction log generalizing db with
  | nil => exact ⟨rule, h, rfl, Or.inr ⟨fun _ h => absurd h List.not_mem_nil, rfl⟩⟩
  | cons e rest ih =>
      obtain ⟨g, w⟩ := e
      have hrest : ∀ r, .addAlertRule r ∉ rest.map Prod.snd :=
        fun r hr => hnew r (List.mem_cons_of_mem _ hr)
      obtain ⟨mid, hmid, hid, hlast⟩ := @ih (db.apply g w) hrest h
      have hw : ∀ r, w ≠ .addAlertRule r := by
        rintro r rfl
        exact hnew r List.mem_cons_self
      obtain ⟨before, hbefore, hid', hmine⟩ := rule_apply hw hmid
      refine ⟨before, hbefore, hid'.trans hid, ?_⟩
      rw [List.map_cons]
      rw [hid] at hmine
      rcases hlast with ⟨t, ht, hrule⟩ | ⟨hno, hrule⟩
      · exact Or.inl ⟨t, List.mem_cons_of_mem _ ht, hrule⟩
      · rcases hmine with ⟨t, rfl, hm⟩ | ⟨hne, hm⟩
        · exact Or.inl ⟨t, List.mem_cons_self, hrule.trans hm⟩
        · refine Or.inr ⟨?_, hrule.trans hm⟩
          intro t ht
          rcases List.mem_cons.mp ht with heq | ht
          · exact hne t heq.symm
          · exact hno t ht

/-- The statements that change the prices of a pair. -/
theorem pair_apply {db : Database} {g : Generated} {w : Write} {pair : Pair}
    (h : pair ∈ (db.apply g w).pairs) :
    ∃ before ∈ db.pairs, before.id = pair.id
      ∧ pairPrices pair = (columnsOf pair.id w).toList.foldl (fun old new => new.over old)
        (pairPrices before) := by
  cases w with
  | setPairObservation i last bid ask t =>
      obtain ⟨before, hmem, rfl⟩ := List.mem_map.mp h
      refine ⟨before, hmem, ?_⟩
      by_cases hid : before.id = i
      · simp [hid, columnsOf, pairPrices, Prices.over]
      · have hid' : ¬ i = before.id := fun h => hid h.symm
        simp [hid, hid', columnsOf]
  | claimPair i t =>
      obtain ⟨before, hmem, rfl⟩ := List.mem_map.mp h
      refine ⟨before, hmem, ?_⟩
      split
      · exact ⟨rfl, rfl⟩
      · exact ⟨rfl, rfl⟩
  | _ => exact ⟨pair, h, rfl, rfl⟩

theorem pair_replay {log : List (Generated × Write)} {db : Database} {pair : Pair}
    (h : pair ∈ (backend.replay db log).pairs) :
    ∃ before ∈ db.pairs, before.id = pair.id
      ∧ pairPrices pair = ((log.map Prod.snd).filterMap (columnsOf pair.id)).foldl
        (fun old new => new.over old) (pairPrices before) := by
  induction log generalizing db with
  | nil => exact ⟨pair, h, rfl, rfl⟩
  | cons e rest ih =>
      obtain ⟨g, w⟩ := e
      obtain ⟨mid, hmid, hid, hlast⟩ := @ih (db.apply g w) h
      obtain ⟨before, hbefore, hid', hmine⟩ := pair_apply hmid
      refine ⟨before, hbefore, hid'.trans hid, ?_⟩
      rw [hlast, hmine, hid, List.map_cons, List.filterMap_cons]
      cases columnsOf pair.id w with
      | none => rfl
      | some columns => rfl

theorem Visit.columnsOf_writes (v : Visit) (pairId : Uuid) :
    v.writes.filterMap (columnsOf pairId) = if v.pairId = pairId then [v.columns] else [] := by
  have hfires : (v.fires.flatMap (Fire.writes v.row.observedAt)).filterMap (columnsOf pairId)
      = [] := by
    rw [List.filterMap_eq_nil_iff]
    intro w hw
    obtain ⟨x, -, hw⟩ := List.mem_flatMap.mp hw
    rcases List.mem_cons.mp hw with rfl | hw
    · rfl
    · rcases List.mem_append.mp hw with hw | hw
      · obtain ⟨e, -, rfl⟩ := Option.map_eq_some_iff.mp (Option.mem_toList.mp hw)
        rfl
      · rw [List.mem_singleton.mp hw]
        rfl
  rw [Visit.writes, List.filterMap_cons, List.filterMap_cons, hfires]
  by_cases hid : v.pairId = pairId
  · simp only [columnsOf, if_pos hid]
  · simp only [columnsOf, if_neg hid]

/-- An UPDATE of a pair is the one of its visit. -/
theorem columnsOf_visits {visits : List Visit} (hapart : (visits.map Visit.pairId).Nodup)
    (pairId : Uuid) :
    (∃ v ∈ visits, v.pairId = pairId
      ∧ (visits.flatMap Visit.writes).filterMap (columnsOf pairId) = [v.columns])
      ∨ (∀ v ∈ visits, v.pairId ≠ pairId)
        ∧ (visits.flatMap Visit.writes).filterMap (columnsOf pairId) = [] := by
  induction visits with
  | nil => exact Or.inr ⟨fun _ h => absurd h List.not_mem_nil, rfl⟩
  | cons v rest ih =>
      obtain ⟨hnew, hrest⟩ := List.nodup_cons.mp hapart
      rw [List.flatMap_cons, List.filterMap_append, v.columnsOf_writes]
      by_cases hid : v.pairId = pairId
      · refine Or.inl ⟨v, List.mem_cons_self, hid, ?_⟩
        rcases ih hrest with ⟨v', hv', hid', -⟩ | ⟨-, hnone⟩
        · exact absurd (List.mem_map.mpr ⟨v', hv', hid'.trans hid.symm⟩) hnew
        · rw [if_pos hid, hnone, List.append_nil]
      · rw [if_neg hid, List.nil_append]
        rcases ih hrest with ⟨v', hv', hid', hone⟩ | ⟨hno, hnone⟩
        · exact Or.inl ⟨v', List.mem_cons_of_mem _ hv', hid', hone⟩
        · refine Or.inr ⟨?_, hnone⟩
          intro v' hv'
          rcases List.mem_cons.mp hv' with rfl | hv'
          · exact hid
          · exact hno v' hv'

/-! ## Numbers in a column -/

/-- At most eight decimals: what a `Numeric(24, 8)` column returns. -/
def InColumn (d : Decimal) : Prop := ∃ n : Nat, |d.toRat| * 10 ^ 8 = n

/-- The `current_*` values are values of their columns. -/
def InColumns (db : Database) : Prop :=
  ∀ pair ∈ db.pairs, ∀ d, (pair.currentLastPrice = some d ∨ pair.currentBidPrice = some d
    ∨ pair.currentAskPrice = some d) → InColumn d

theorem toRat_numeric (d : Decimal) :
    (d.numeric 8).toRat
      = (if d.negative then -1 else 1) * (⌊|d.toRat| * 10 ^ 8 + 1 / 2⌋.toNat : ℚ) / 10 ^ 8 := by
  rw [Decimal.numeric, Decimal.toRat]
  generalize ⌊|d.toRat| * 10 ^ 8 + 1 / 2⌋.toNat = n
  by_cases hn : n = 0
  · simp [hn]
  · cases d.negative with
    | false => simp [zpow_neg, div_eq_mul_inv]
    | true => simp [hn, zpow_neg, div_eq_mul_inv]

theorem sign_mul_abs_toRat (d : Decimal) : d.toRat = (if d.negative then -1 else 1) * |d.toRat| := by
  have hpos : (0 : ℚ) ≤ (d.coeff : ℚ) * (10 : ℚ) ^ d.exp :=
    mul_nonneg (Nat.cast_nonneg _) (zpow_nonneg (by norm_num) _)
  rw [Decimal.toRat, mul_assoc]
  cases d.negative with
  | false => simp only [Bool.false_eq_true, if_false, one_mul, abs_of_nonneg hpos]
  | true => simp only [if_true, neg_one_mul, abs_neg, abs_of_nonneg hpos]

theorem inColumn_numeric (d : Decimal) : InColumn (d.numeric 8) := by
  refine ⟨⌊|d.toRat| * 10 ^ 8 + 1 / 2⌋.toNat, ?_⟩
  rw [toRat_numeric]
  generalize ⌊|d.toRat| * 10 ^ 8 + 1 / 2⌋.toNat = n
  have hn : (0 : ℚ) ≤ n := Nat.cast_nonneg n
  cases d.negative with
  | false => simp [abs_div]
  | true => simp [abs_div]

/-- Such a number is stored as it is. -/
theorem toRat_numeric_of_inColumn {d : Decimal} (h : InColumn d) :
    (d.numeric 8).toRat = d.toRat := by
  obtain ⟨n, hn⟩ := h
  have hfloor : ⌊(n : ℚ) + 1 / 2⌋.toNat = n := by
    have hhalf : ⌊(1 / 2 : ℚ)⌋ = 0 := by norm_num
    rw [Int.floor_natCast_add, hhalf, add_zero, Int.toNat_natCast]
  calc (d.numeric 8).toRat
      = (if d.negative then -1 else 1) * (n : ℚ) / 10 ^ 8 := by rw [toRat_numeric, hn, hfloor]
    _ = (if d.negative then -1 else 1) * |d.toRat| := by
        rw [← hn, mul_div_assoc, mul_div_assoc, div_self (by norm_num), mul_one]
    _ = d.toRat := (sign_mul_abs_toRat d).symm

/-! ## A commit in order -/

/-- A column after the UPDATE of a visit shows the row that is stored. -/
theorem sameNumber_over {given old : Option Decimal} {value : Decimal}
    (hgiven : given = none ∨ given = some value)
    (hkept : given = none → sameNumber old (some value) = true)
    (hcolumn : ∀ d, old = some d → InColumn d) :
    sameNumber ((given.map (Decimal.numeric 8)).or old) (some (value.numeric 8)) = true := by
  rcases hgiven with rfl | rfl
  · have hsame := beq_iff_eq.mp (hkept rfl)
    cases old with
    | none => cases hsame
    | some d =>
        have hnumber : d.toRat = value.toRat := Option.some.inj hsame
        have hvalue : InColumn value := by
          obtain ⟨n, hn⟩ := hcolumn d rfl
          exact ⟨n, by rw [← hnumber]; exact hn⟩
        refine beq_iff_eq.mpr ?_
        show some d.toRat = some (value.numeric 8).toRat
        rw [toRat_numeric_of_inColumn hvalue, hnumber]
  · exact beq_iff_eq.mpr rfl

section Commit

variable {x : Commit} {t : Instant} {visits : List Visit}

theorem inColumns_commit (hx : Visited t visits x.writes) (h : InColumns x.1) :
    InColumns (backend.replay x.1 x.2) := by
  intro pair hpair d hd
  obtain ⟨before, hbefore, hid, hprices⟩ := pair_replay hpair
  have hold := h before hbefore d
  -- A column has the value of the UPDATE, rounded, or the value it had.
  have hcase : ∀ given old : Option Decimal, (given.map (Decimal.numeric 8)).or old = some d →
      (old = some d → InColumn d) → InColumn d := by
    intro given old hsome hkeep
    cases given with
    | none => exact hkeep hsome
    | some value =>
        obtain rfl := Option.some.inj hsome
        exact inColumn_numeric value
  rw [show x.2.map Prod.snd = visits.flatMap Visit.writes from hx.writes] at hprices
  rcases columnsOf_visits hx.apart pair.id with ⟨v, -, -, hone⟩ | ⟨-, hnone⟩
  · rw [hone] at hprices
    rcases hd with hd | hd | hd
    · refine hcase _ _ ((congrArg Prices.last hprices).symm.trans hd) ?_
      exact fun hsame => hold (Or.inl hsame)
    · refine hcase _ _ ((congrArg Prices.bid hprices).symm.trans hd) ?_
      exact fun hsame => hold (Or.inr (Or.inl hsame))
    · refine hcase _ _ ((congrArg Prices.ask hprices).symm.trans hd) ?_
      exact fun hsame => hold (Or.inr (Or.inr hsame))
  · rw [hnone] at hprices
    refine hold ?_
    rcases hd with hd | hd | hd
    · exact Or.inl ((congrArg Prices.last hprices).symm.trans hd)
    · exact Or.inr (Or.inl ((congrArg Prices.bid hprices).symm.trans hd))
    · exact Or.inr (Or.inr ((congrArg Prices.ask hprices).symm.trans hd))

/-- After a commit in order an observed pair shows its newest row. -/
theorem comesFrom_commit (hx : Visited t visits x.writes) (hcolumns : InColumns x.1)
    {fired : Uuid → Instant → Prop} (h : Latest fired x.1) (horder : InOrder x) {pair : Pair}
    (hpair : pair ∈ (backend.replay x.1 x.2).pairs)
    (hrow : ∃ row ∈ (backend.replay x.1 x.2).priceHistory, row.pairId = pair.id) :
    ∃ row, ComesFrom (backend.replay x.1 x.2) pair row := by
  obtain ⟨before, hbefore, hid, hprices⟩ := pair_replay hpair
  rw [show x.2.map Prod.snd = visits.flatMap Visit.writes from hx.writes] at hprices
  rcases columnsOf_visits hx.apart pair.id with ⟨v, hv, hvid, hone⟩ | ⟨hno, hnone⟩
  · -- The pair was visited: its columns are those of the row of the visit.
    rw [hone] at hprices
    have hvrow : .addPriceHistory v.row ∈ x.writes := hx.row_mem.mpr ⟨v, hv, rfl⟩
    have hset : .setPairObservation v.row.pairId v.columns.last v.columns.bid v.columns.ask
        v.row.observedAt ∈ x.writes :=
      hx.mem.mpr ⟨v, hv, Visit.mem_writes.mpr (Or.inr (Or.inl rfl))⟩
    obtain ⟨hlast, hbid, hask⟩ :=
      horder.kept v.row _ _ _ _ hvrow hset before hbefore (hid.trans hvid.symm)
    refine ⟨v.row.stored, ?_, hvid, ?_, ?_⟩
    · exact rows_replay.mpr (Or.inr ⟨v.row, hvrow, rfl⟩)
    · intro row' hrow' hown
      rcases rows_replay.mp hrow' with hold | ⟨r, hr, rfl⟩
      · exact horder.rows v.row hvrow row' hold (hown.trans hvid.symm)
      · obtain ⟨v', hv', rfl⟩ := hx.row_mem.mp hr
        rw [hx.inj hv' hv (hown.trans hvid.symm)]
    · rw [hprices]
      exact ⟨sameNumber_over v.given.last hlast (fun d hd => hcolumns before hbefore d (Or.inl hd)),
        sameNumber_over v.given.bid hbid
          (fun d hd => hcolumns before hbefore d (Or.inr (Or.inl hd))),
        sameNumber_over v.given.ask hask
          (fun d hd => hcolumns before hbefore d (Or.inr (Or.inr hd)))⟩
  · -- It was not: its rows and its columns are what they were.
    rw [hnone] at hprices
    have hold : ∀ row ∈ (backend.replay x.1 x.2).priceHistory, row.pairId = pair.id →
        row ∈ x.1.priceHistory := by
      intro row hmem hown
      rcases rows_replay.mp hmem with hold | ⟨r, hr, rfl⟩
      · exact hold
      · obtain ⟨v, hv, rfl⟩ := hx.row_mem.mp hr
        exact absurd hown (hno v hv)
    obtain ⟨row₀, hrow₀, hown₀⟩ := hrow
    obtain ⟨row, hfrom⟩ :=
      h.pairs before hbefore ⟨row₀, hold row₀ hrow₀ hown₀, hown₀.trans hid.symm⟩
    refine ⟨row, rows_replay.mpr (Or.inl hfrom.mem), hfrom.own.trans hid, ?_, ?_⟩
    · intro row' hrow' hown
      exact hfrom.newest row' (hold row' hrow' hown) (hown.trans hid.symm)
    · rw [hprices]
      exact hfrom.same

theorem latest_commit (hx : Visited t visits x.writes) (hcolumns : InColumns x.1)
    {fired : Uuid → Instant → Prop} (h : Latest fired x.1) (horder : InOrder x) :
    Latest (fun ruleId at_ => fired ruleId at_ ∨ Fired x.writes ruleId at_)
      (backend.replay x.1 x.2) := by
  refine ⟨fun pair hpair hrow => comesFrom_commit hx hcolumns h horder hpair hrow, ?_, ?_⟩
  · intro rule hrule at_ hlast
    obtain ⟨before, hbefore, hid, ⟨t', hset, hstored⟩ | ⟨-, hsame⟩⟩ :=
      rule_replay hx.no_rule hrule
    · obtain rfl := Option.some.inj (hstored.symm.trans hlast)
      exact Or.inr (hx.fired_iff.mpr hset)
    · rw [← hid]
      exact Or.inl (h.recorded before hbefore at_ (hsame.symm.trans hlast))
  · intro rule hrule at_ hfired
    obtain ⟨before, hbefore, hid, ⟨t', hset, hstored⟩ | ⟨hno, hsame⟩⟩ :=
      rule_replay hx.no_rule hrule
    · -- The rule fired in this batch: nothing is newer than that.
      have hmine := hx.fired_iff.mpr hset
      refine ⟨t', hstored, ?_⟩
      rcases hfired with hold | hnew
      · rw [← hid] at hold
        obtain ⟨t'', hlast, hle⟩ := h.newest before hbefore at_ hold
        exact Int.le_trans hle (horder.fires rule.id t' hmine before hbefore hid t'' hlast)
      · rw [hx.fired_time hnew, hx.fired_time hmine]
    · rcases hfired with hold | hnew
      · rw [← hid] at hold
        rw [hsame]
        exact h.newest before hbefore at_ hold
      · exact absurd (hx.fired_iff.mp hnew) (hno at_)

end Commit

/-! ## Runs -/

section Runs

variable {rt : Runtime} {settings : Settings} {past : Uuid → Instant → Prop}
  {c c' c'' : Threads} {xs ys : List Commit}

theorem firedBy_concat (x : Commit) :
    FiredBy past (xs ++ [x]) = fun ruleId t => FiredBy past xs ruleId t ∨ Fired x.writes ruleId t := by
  funext ruleId t
  simp only [FiredBy, List.mem_append, List.mem_singleton, or_and_right, exists_or,
    exists_eq_left, or_assoc]

theorem firedBy_append {ruleId : Uuid} {t : Instant} (h : FiredBy past xs ruleId t) :
    FiredBy past (xs ++ ys) ruleId t := by
  rcases h with h | ⟨x, hx, h⟩
  · exact Or.inl h
  · exact Or.inr ⟨x, List.mem_append_left _ hx, h⟩

/-- Commits in order keep the columns up to date. -/
theorem latest_of_traced (hlog : Logging Recorded c)
    (h : Traced (polling rt settings) transactions c xs c')
    (hcolumns : InColumns c.frame.db) (hstart : Latest past c.frame.db)
    (horder : ∀ x ∈ xs, InOrder x) :
    Latest (FiredBy past xs) c'.frame.db ∧ InColumns c'.frame.db := by
  refine Traced.of_commits
    (P := fun xs db => (∀ x ∈ xs, InOrder x) → Latest (FiredBy past xs) db ∧ InColumns db)
    (fun _ _ _ _ hp => polling_logs rt settings hp) ?_ hlog ?_ h horder
  · rintro xs db log ⟨t, visits, hx⟩ ih horder
    obtain ⟨hlatest, hcolumns⟩ := ih (fun x hx => horder x (List.mem_append_left _ hx))
    rw [firedBy_concat]
    have hlast : InOrder (db, log) :=
      horder _ (List.mem_append_right _ (List.mem_singleton_self _))
    exact ⟨@latest_commit (db, log) t visits hx hcolumns _ hlatest hlast,
      @inColumns_commit (db, log) t visits hx hcolumns⟩
  · intro _
    refine ⟨?_, hcolumns⟩
    have hnone : FiredBy past [] = past := by
      funext ruleId t
      simp [FiredBy]
    rw [hnone]
    exact hstart

/-- Rows are never deleted. -/
theorem rows_of_traced (hlog : Logging Recorded c)
    (h : Traced (polling rt settings) transactions c xs c') :
    ∀ row ∈ c.frame.db.priceHistory, row ∈ c'.frame.db.priceHistory := by
  refine Traced.of_commits
    (P := fun _ db => ∀ row ∈ c.frame.db.priceHistory, row ∈ db.priceHistory)
    (fun _ _ _ _ hp => polling_logs rt settings hp) ?_ hlog (fun _ hrow => hrow) h
  intro xs db log _ ih row hrow
  exact rows_replay.mpr (Or.inl (ih row hrow))

/-- Where every row and every fire stays, up to date means onward. -/
theorem onward_of_latest {fired fired' : Uuid → Instant → Prop} {db db' : Database}
    (h : Latest fired db) (h' : Latest fired' db')
    (hrows : ∀ row ∈ db.priceHistory, row ∈ db'.priceHistory)
    (hfired : ∀ ruleId t, fired ruleId t → fired' ruleId t) : Onward db db' := by
  constructor
  · intro pair hpair pair' hpair' hid row hfrom
    have hown : row.pairId = pair'.id := hfrom.own.trans hid.symm
    obtain ⟨row', hfrom'⟩ := h'.pairs pair' hpair' ⟨row, hrows row hfrom.mem, hown⟩
    exact ⟨row', hfrom', hfrom'.newest row (hrows row hfrom.mem) hown⟩
  · intro rule hrule rule' hrule' hid t hlast
    refine h'.newest rule' hrule' t (hfired _ _ ?_)
    rw [hid]
    exact h.recorded rule hrule t hlast

/-- In every run whose commits are in order, each pair shows its newest committed row, each
    rule has the time of its newest committed fire, and neither goes back. -/
theorem latest_of_inOrder (h : Traced (polling rt settings) transactions c xs c')
    (h' : Traced (polling rt settings) transactions c' ys c'')
    (hclosed : ∀ i, c.frame.sessions i = none) (hcolumns : InColumns c.frame.db)
    (hstart : Latest past c.frame.db) (horder : ∀ x ∈ xs ++ ys, InOrder x) :
    Latest (FiredBy past xs) c'.frame.db ∧ Onward c'.frame.db c''.frame.db := by
  have hlog : Logging Recorded c := by
    intro i s hs
    rw [hclosed i] at hs
    cases hs
  have hlog' : Logging Recorded c' :=
    hlog.of_reaches (fun _ _ _ _ hp => polling_logs rt settings hp) h.reaches
  have hmid := latest_of_traced hlog h hcolumns hstart
    (fun x hx => horder x (List.mem_append_left _ hx))
  have hend := latest_of_traced hlog (h.trans h') hcolumns hstart horder
  exact ⟨hmid.1, onward_of_latest hmid.1 hend.1 (rows_of_traced hlog' h')
    (fun _ _ => firedBy_append)⟩

end Runs

/-! ## Two batches of one pair -/

/-- A market that rises: the first quotes are at 150, those of a minute later at 160. -/
def rising : Host Database Generated World ExtOp where
  fresh := isolated.fresh
  answer := fun e w =>
    match e with
    | .getQuotes _ =>
        let price : Decimal := ⟨false, if w.clock ≤ seconds 1000000020 then 150 else 160, 0⟩
        (some [("XBT/USD", ⟨"XBT/USD", price, price, price, ⟨false, 1, 0⟩⟩)], w)
    | e => ticking.answer e w

theorem answers_rising (β : Type) (e : ExtOp β) (w : World) :
    Answers β e w (rising.answer e w).1 (rising.answer e w).2 := by
  cases e with
  | getQuotes names => rfl
  | utcNow => exact (answers_ticking _ .utcNow w).1
  | uuid4 => exact (answers_ticking _ .uuid4 w).1
  | deleteMessageBatch messages => exact (answers_ticking _ (.deleteMessageBatch messages) w).1
  | publish event topicArn subject message =>
      exact (answers_ticking _ (.publish event topicArn subject message) w).1
  | sendMessage claim body delaySeconds =>
      exact (answers_ticking _ (.sendMessage claim body delaySeconds) w).1
  | publishInvalidation channel reason =>
      exact (answers_ticking _ (.publishInvalidation channel reason) w).1

/-- A pair without observations, and a rule on it that has not fired. -/
def unobserved : Threads where
  frame :=
    { db := { pairs := [{ id := 1, krakenPairName := "XBT/USD", displayName := "XBT/USD" }]
              alertRules := [{ id := 7, pairId := 1, ruleType := .absoluteAbove
                               threshold := some ⟨false, 100, 0⟩ }] }
      mem := fun _ => {}
      ext := { clock := seconds 1000000020 }
      sessions := fun _ => none }
  prog := fun _ => .done ()

def batch : Tx Unit := thread (processBatch Runtime.rational {} [spikeMessage])

/-- Two processes load their indexes, and a batch of the first gets its quotes and its
    time. -/
def firstQuoted : List (Move Database Write Generated MemOp ExtOp PyError) :=
  [.start 0 0 (thread rebuild), .run 0 20, .stop 0, .start 0 1 (thread rebuild), .run 0 20,
    .stop 0, .start 1 0 batch, .run 1 3]

/-- So does one of the other process, then the first goes on, then the second. -/
def inTurn : List (Move Database Write Generated MemOp ExtOp PyError) :=
  firstQuoted ++ [.start 2 1 batch, .run 2 3, .run 1 40, .stop 1, .run 2 40, .stop 2]

/-- A third batch. -/
def third : List (Move Database Write Generated MemOp ExtOp PyError) :=
  [.start 1 0 batch, .run 1 40, .stop 1]

/-- Before it goes on, the other process observes the pair and commits. -/
def firstLast : List (Move Database Write Generated MemOp ExtOp PyError) :=
  firstQuoted ++ [.start 2 1 batch, .run 2 40, .stop 2, .run 1 40, .stop 1]

/-- Whether a commit is in order. -/
def ordered (x : Commit) : Bool :=
  x.writes.all (fun w =>
    match w with
    | .addPriceHistory row =>
        x.1.priceHistory.all (fun row' =>
            row'.pairId != row.pairId || row'.observedAt ≤ row.observedAt)
          && x.writes.all (fun w =>
            match w with
            | .setPairObservation pairId last bid ask _ =>
                pairId != row.pairId || x.1.pairs.all (fun pair => pair.id != row.pairId
                  || (last.isSome || sameNumber pair.currentLastPrice (some row.lastPrice))
                    && (bid.isSome || sameNumber pair.currentBidPrice (some row.bidPrice))
                    && (ask.isSome || sameNumber pair.currentAskPrice (some row.askPrice)))
            | .addNotification n =>
                n.pairId != row.pairId || x.1.alertRules.all (fun rule =>
                  rule.id != n.ruleId || rule.lastFiredAt.all (fun t => t ≤ row.observedAt))
            | _ => true)
    | _ => true)

theorem inOrder_of_ordered {x : Commit} (h : ordered x = true) : InOrder x := by
  have hrow : ∀ row, .addPriceHistory row ∈ x.writes → _ :=
    fun row hrow => Bool.and_eq_true_iff.mp (List.all_eq_true.mp h _ hrow)
  constructor
  · intro row hadded row' hrow' hpair
    have hle := List.all_eq_true.mp (hrow row hadded).1 row' hrow'
    rw [hpair, bne_self_eq_false, Bool.false_or] at hle
    exact of_decide_eq_true hle
  · rintro ruleId t ⟨n, row, hn, rfl, hadded, hpair, rfl⟩ rule hrule hid t' hlast
    have hrules := List.all_eq_true.mp (hrow row hadded).2 _ hn
    simp only [hpair, bne_self_eq_false, Bool.false_or, List.all_eq_true] at hrules
    have hfired := hrules rule hrule
    rw [hid, bne_self_eq_false, Bool.false_or, hlast] at hfired
    exact of_decide_eq_true hfired
  · intro row last bid ask t hadded hset pair hpair hid
    have hpairs := List.all_eq_true.mp (hrow row hadded).2 _ hset
    simp only [bne_self_eq_false, Bool.false_or, List.all_eq_true] at hpairs
    have hcolumns := hpairs pair hpair
    rw [hid, bne_self_eq_false, Bool.false_or, Bool.and_eq_true, Bool.and_eq_true] at hcolumns
    obtain ⟨⟨hlast, hbid⟩, hask⟩ := hcolumns
    refine ⟨?_, ?_, ?_⟩
    · rintro rfl
      exact hlast
    · rintro rfl
      exact hbid
    · rintro rfl
      exact hask

theorem latest_unobserved : Latest (fun _ _ => False) unobserved.frame.db where
  pairs := by
    rintro pair - ⟨row, hrow, -⟩
    exact absurd hrow List.not_mem_nil
  recorded := by
    intro rule hrule t hlast
    rw [List.mem_singleton.mp hrule] at hlast
    cases hlast
  newest := fun _ _ _ h => h.elim

theorem inColumns_unobserved : InColumns unobserved.frame.db := by
  intro pair hpair d hd
  rw [List.mem_singleton.mp hpair] at hd
  rcases hd with hd | hd | hd
  · cases hd
  · cases hd
  · cases hd

/-- The runs of the first two batches, and of the third. -/
def both : Threads × List Commit := play backend rising transactions inTurn unobserved

def afterThird : Threads × List Commit := play backend rising transactions third both.1

theorem latest_of_inOrder_third :
    both.2.length = 2 ∧ afterThird.2.length = 1
      ∧ both.1.frame.db.pairs.map (fun pair => pair.currentLastPrice.map Decimal.toRat)
        = [some 160]
      ∧ both.1.frame.db.alertRules.map AlertRule.lastFiredAt = [some (seconds 1000000140)]
      ∧ afterThird.1.frame.db.alertRules.map AlertRule.lastFiredAt = [some (seconds 1000000200)]
      ∧ Latest (FiredBy (fun _ _ => False) both.2) both.1.frame.db
      ∧ Onward both.1.frame.db afterThird.1.frame.db := by
  have hready : ready backend rising transactions [0, 1, 2] inTurn unobserved = true := by
    decide +kernel
  have htwo : Traced (polling Runtime.rational {}) transactions unobserved both.2 both.1 :=
    traced_play [0, 1, 2] answers_rising (fun _ _ _ _ _ => trivial) (fun _ _ => rfl) hready
      ⟨Or.inl rfl, trivial, Or.inl rfl, trivial, Or.inr ⟨_, rfl⟩, Or.inr ⟨_, rfl⟩, trivial,
        trivial, trivial⟩
  have hthird : Traced (polling Runtime.rational {}) transactions both.1 afterThird.2
      afterThird.1 :=
    traced_play [0, 1, 2] answers_rising (fun _ _ _ _ _ => trivial)
      (play_closed (fun _ _ => rfl) hready) (by decide +kernel) ⟨Or.inr ⟨_, rfl⟩, trivial, trivial⟩
  have hordered : (both.2 ++ afterThird.2).all ordered = true := by decide +kernel
  exact ⟨by decide +kernel, by decide +kernel, by decide +kernel, by decide +kernel,
    by decide +kernel,
    latest_of_inOrder htwo hthird (fun _ => rfl) inColumns_unobserved latest_unobserved
      (fun x hx => inOrder_of_ordered (List.all_eq_true.mp hordered x hx))⟩

/-- The batch that was quoted first commits last: the pair shows the older row, and the
    rule the older fire. -/
theorem not_latest_firstLast :
    ∃ xs c', Traced (polling Runtime.rational {}) transactions unobserved xs c'
      ∧ ¬ Latest (FiredBy (fun _ _ => False) xs) c'.frame.db
      ∧ c'.frame.db.priceHistory.map (fun row => (row.observedAt, row.lastPrice.toRat))
        = [(seconds 1000000140, 160), (seconds 1000000080, 150)]
      ∧ c'.frame.db.pairs.map (fun pair => pair.currentLastPrice.map Decimal.toRat) = [some 150]
      ∧ c'.frame.db.alertRules.map AlertRule.lastFiredAt = [some (seconds 1000000080)]
      ∧ c'.frame.db.notifications.length = 2 := by
  have htraced : Traced (polling Runtime.rational {}) transactions unobserved
      (play backend rising transactions firstLast unobserved).2
      (play backend rising transactions firstLast unobserved).1 :=
    traced_play [0, 1, 2] answers_rising (fun _ _ _ _ _ => trivial) (fun _ _ => rfl)
      (by decide +kernel) ⟨Or.inl rfl, trivial, Or.inl rfl, trivial, Or.inr ⟨_, rfl⟩,
        Or.inr ⟨_, rfl⟩, trivial, trivial, trivial⟩
  refine ⟨_, _, htraced, ?_, by decide +kernel, by decide +kernel, by decide +kernel,
    by decide +kernel⟩
  intro hlatest
  have hpair : ∃ pair ∈ (play backend rising transactions firstLast unobserved).1.frame.db.pairs,
      pair.id = 1 ∧ pair.currentLastPrice.map Decimal.toRat = some 150 := by decide +kernel
  have hrow : ∃ row ∈
      (play backend rising transactions firstLast unobserved).1.frame.db.priceHistory,
      row.pairId = 1 ∧ row.observedAt = seconds 1000000140 := by decide +kernel
  have hprice : ∀ row ∈
      (play backend rising transactions firstLast unobserved).1.frame.db.priceHistory,
      seconds 1000000140 ≤ row.observedAt → row.lastPrice.toRat = 160 := by decide +kernel
  obtain ⟨pair, hmem, hid, hshown⟩ := hpair
  obtain ⟨row, hrow, hown, htime⟩ := hrow
  obtain ⟨source, hfrom⟩ := hlatest.pairs pair hmem ⟨row, hrow, hown.trans hid.symm⟩
  have hnewest := hfrom.newest row hrow (hown.trans hid.symm)
  rw [htime] at hnewest
  have hsame : pair.currentLastPrice.map Decimal.toRat = some source.lastPrice.toRat :=
    beq_iff_eq.mp hfrom.same.last
  rw [hshown, hprice source hfrom.mem hnewest] at hsame
  exact absurd (Option.some.inj hsame) (by decide)

end Dropwatch.Newest
