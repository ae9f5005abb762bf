import Dropwatch.CandidateProofs

/-! # The firing loop — what a candidate leaves behind

    `fireRule` is a script with a savepoint in it; its isolated run is a
    function of the store (`fireOne`), and the loop folds that function
    (`fireAll`).  `recordOne` spells the written rows out, and the frame lemmas
    beside it say what no candidate touches. -/

namespace Dropwatch.Evaluator

open Transact RuleIndex Zscore

variable (rt : Runtime) (settings : Settings)

section Fire

variable (pair : Pair) (obs : Observation) (generation : Nat) (c : Candidates rt)

/-- The key the loop looks up for a rule. -/
def keyOf (rule : AlertRule) : String :=
  stateKey rt pair.id rule obs.last obs.observedAt

/-- A candidate is recorded when its key is new and its rule and pair rows are
    there. -/
def recordable (db : Database) (rule : AlertRule) : Bool :=
  (db.notificationWithKey (keyOf rt pair obs rule)).isNone
    && db.alertRules.any (fun r => r.id == rule.id)
    && db.pairs.any (fun p => p.id == pair.id)

/-- The cooldown test of a rule object. -/
def suppressedBy (m : Memory) (rule : AlertRule) : Bool :=
  inCooldown { rule with lastFiredAt := m.lastFiredAt generation rule.id } obs.observedAt

/-- The text of a candidate's message. -/
def messageOf (rule : AlertRule) : String :=
  match formatMessage rt pair rule obs c.zscoreResult
    ((c.pastPriceByRuleId.get? rule.id).join) with
  | .ok message => message
  | .error _ => ""

/-- The values generated for the next row. -/
def nextGenerated (s : State) : Generated := ⟨s.view.freshId, s.env.clock⟩

/-- The notification recorded for a candidate. -/
def recordedAs (s : State) (rule : AlertRule) : NewNotification :=
  newNotification rt pair obs rule (suppressedBy obs generation s.mem rule)

/-- The outbox row of a candidate that is not suppressed. -/
def recordedEvent (s : State) (rule : AlertRule) : OutboxEvent :=
  outboxRow (nextGenerated s) s.view.freshId
    (alertPayload rt pair rule obs c.zscoreResult
      ((c.pastPriceByRuleId.get? rule.id).join) s.view.freshId
      (messageOf rt pair obs c rule))

/-- The store after a candidate was recorded. -/
def recordOne (s : State) (rule : AlertRule) : State :=
  { s with
    view := { s.view with
      notifications := s.view.notifications
        ++ [(recordedAs rt pair obs generation s rule).row (nextGenerated s)]
      outboxEvents := s.view.outboxEvents
        ++ if suppressedBy obs generation s.mem rule then []
          else [recordedEvent rt pair obs c s rule]
      alertRules := updateWhere (fun r => r.id == rule.id)
        (fun r => { r with lastFiredAt := some obs.observedAt }) s.view.alertRules }
    mem := s.mem.setLastFiredAt generation rule.id obs.observedAt }

/-- One pass of the loop. -/
def fireOne (s : State) (rule : AlertRule) : Option Notification × State :=
  if recordable rt pair obs s.view rule then
    (some (flushed (nextGenerated s) (recordedAs rt pair obs generation s rule)),
      recordOne rt pair obs generation c s rule)
  else (none, s)

/-- The loop. -/
def fireAll : List AlertRule → State → List Notification × State
  | [], s => ([], s)
  | rule :: rest, s =>
      ((fireOne rt pair obs generation c s rule).1.toList
          ++ (fireAll rest (fireOne rt pair obs generation c s rule).2).1,
        (fireAll rest (fireOne rt pair obs generation c s rule).2).2)

/-! ## The loop runs as its function -/

theorem notificationWithKey_eq_none_iff {db : Database} {key : String} :
    db.notificationWithKey key = none ↔ ∀ n ∈ db.notifications, n.idempotencyKey ≠ key := by
  simp [Database.notificationWithKey]

/-- The insert of a new key under a fresh id fails only on a missing foreign row. -/
theorem violates_addNotification {s : State} {n : NewNotification}
    (hkey : s.view.notificationWithKey n.idempotencyKey = none) :
    s.view.violates (nextGenerated s) (.addNotification n)
      = !(s.view.alertRules.any (fun r => r.id == n.ruleId)
          && s.view.pairs.any (fun p => p.id == n.pairId)) := by
  have hclear : s.view.notifications.any (fun m =>
      m.id == (nextGenerated s).id || m.idempotencyKey == n.idempotencyKey) = false := by
    rw [List.any_eq_false]
    intro m hm
    have hid : m.id ≠ s.view.freshId := Nat.ne_of_lt (Database.lt_freshId hm)
    have hk := notificationWithKey_eq_none_iff.mp hkey m hm
    simp [nextGenerated, hid, hk]
  show (s.view.notifications.any _ || _ || _) = _
  rw [hclear, Bool.false_or, Bool.not_and]

/-- Under a new key the loop tries the insert in a savepoint. -/
theorem runTx_fireRule_new {s : State} {rule : AlertRule}
    (hkey : s.view.notificationWithKey (keyOf rt pair obs rule) = none) :
    runTx (fireRule rt pair obs generation c rule) s
      = runTx (.step (.insert (.addNotification (recordedAs rt pair obs generation s rule)))
          (fun inserted => match inserted with
            | none => pure none
            | some g => finishFire rt pair obs generation c rule
                (suppressedBy obs generation s.mem rule)
                (recordedAs rt pair obs generation s rule) g)) s := by
  have hfree : s.view.notificationWithKey (stateKey rt pair.id rule obs.last obs.observedAt)
      = none := hkey
  rw [fireRule, runTx_query_bind, hfree]
  rfl

/-- After the flush the outbox event, the memory and the rule row follow. -/
theorem runTx_finishFire {s : State} {rule : AlertRule}
    (hm : Messageable rt pair obs c rule) :
    runTx (finishFire rt pair obs generation c rule
        (suppressedBy obs generation s.mem rule)
        (recordedAs rt pair obs generation s rule) (nextGenerated s))
      { s with
        view := s.view.apply (nextGenerated s)
          (.addNotification (recordedAs rt pair obs generation s rule)) }
      = (.ok (some (flushed (nextGenerated s) (recordedAs rt pair obs generation s rule))),
          recordOne rt pair obs generation c s rule) := by
  obtain ⟨message, hmessage⟩ := hm
  rw [finishFire, addOutboxEvent, recordOne, recordedEvent, messageOf]
  cases hs : suppressedBy obs generation s.mem rule with
  | true =>
      simp only [if_true, List.append_nil]
      rfl
  | false =>
      simp only [hmessage, Bool.false_eq_true, if_false]
      rfl

theorem runTx_fireRule {s : State} {rule : AlertRule}
    (hm : Messageable rt pair obs c rule) :
    runTx (fireRule rt pair obs generation c rule) s
      = (.ok (fireOne rt pair obs generation c s rule).1,
          (fireOne rt pair obs generation c s rule).2) := by
  rw [fireOne, recordable]
  cases hkey : s.view.notificationWithKey (keyOf rt pair obs rule) with
  | some id =>
      have htaken : s.view.notificationWithKey (stateKey rt pair.id rule obs.last obs.observedAt)
          = some id := hkey
      rw [fireRule, runTx_query_bind, htaken]
      rfl
  | none =>
      have hviolates := violates_addNotification
        (n := recordedAs rt pair obs generation s rule) hkey
      rw [runTx_fireRule_new rt pair obs generation c hkey, Option.isNone_none,
        Bool.true_and]
      cases hrows : s.view.alertRules.any (fun r => r.id == rule.id)
          && s.view.pairs.any (fun p => p.id == pair.id) with
      | true =>
          have hok : backend.violates (isolated.fresh s.view s.env)
              (.addNotification (recordedAs rt pair obs generation s rule)) s.view
              = false := hviolates.trans (congrArg not hrows)
          rw [if_pos rfl]
          exact (run_insert_ok backend isolated hok).trans
            (runTx_finishFire rt pair obs generation c hm)
      | false =>
          have hdup : backend.violates (isolated.fresh s.view s.env)
              (.addNotification (recordedAs rt pair obs generation s rule)) s.view
              = true := hviolates.trans (congrArg not hrows)
          rw [if_neg Bool.false_ne_true]
          exact run_insert_dup backend isolated hdup

theorem runTx_fireRules {rules : List AlertRule} {s : State}
    (hm : ∀ rule ∈ rules, Messageable rt pair obs c rule) :
    runTx (fireRules rt pair obs generation c rules) s
      = (.ok (fireAll rt pair obs generation c rules s).1,
          (fireAll rt pair obs generation c rules s).2) := by
  induction rules generalizing s with
  | nil => rfl
  | cons rule rest ih =>
      rw [fireRules,
        runTx_bind_ok (runTx_fireRule rt pair obs generation c
          (hm rule List.mem_cons_self)),
        runTx_bind_ok (ih (fun r hr => hm r (List.mem_cons_of_mem _ hr)))]
      rfl

end Fire

/-- `evaluate_rules_for_pair` on a well-formed bucket: it raises what its
    candidate stage raises, and otherwise runs the loop over the candidates. -/
theorem runTx_evaluateRulesForPair {pair : Pair} {obs : Observation} {s : State}
    {pairId : Uuid} (hw : (s.mem.rulesForPair pair.id).WellFormed pairId) :
    runTx (evaluateRulesForPair rt settings pair obs) s
      = match candidatesIn rt settings s.view pair obs (s.mem.rulesForPair pair.id) with
        | .ok c =>
            (.ok (fireAll rt pair obs s.mem.generation c c.rules s).1,
              (fireAll rt pair obs s.mem.generation c c.rules s).2)
        | .error e => (.error e, s) := by
  rw [evaluateRulesForPair]
  show runTx (selectCandidates rt settings pair obs (s.mem.rulesForPair pair.id)
    >>= fun c => fireRules rt pair obs s.mem.generation c c.rules) s = _
  rw [runTx_bind, runTx_selectCandidates]
  cases hc : candidatesIn rt settings s.view pair obs (s.mem.rulesForPair pair.id) with
  | error e => rfl
  | ok c =>
      exact runTx_fireRules rt pair obs s.mem.generation c
        (messageable_of_candidate rt settings hw hc)

/-! ## What a candidate touches -/

theorem any_updateWhere {α : Type} {cond q : α → Bool} {f : α → α}
    (h : ∀ a, q (f a) = q a) (rows : List α) :
    (updateWhere cond f rows).any q = rows.any q := by
  rw [updateWhere]
  rw [List.any_map]
  refine congrArg rows.any ?_
  funext a
  show q (if cond a = true then f a else a) = q a
  by_cases hc : cond a = true
  · rw [if_pos hc, h]
  · rw [if_neg hc]

section Frame

variable {pair : Pair} {obs : Observation} {generation : Nat} {c : Candidates rt}

/-- The rule row of a candidate is updated, none is added or removed. -/
theorem recordOne_hasRule (s : State) (rule : AlertRule) (ruleId : Uuid) :
    (recordOne rt pair obs generation c s rule).view.alertRules.any
        (fun r => r.id == ruleId)
      = s.view.alertRules.any (fun r => r.id == ruleId) := by
  refine any_updateWhere ?_ s.view.alertRules
  intro r
  rfl

/-- Recording adds one key to the stored ones. -/
theorem recordOne_key (s : State) (rule : AlertRule) (key : String) :
    (recordOne rt pair obs generation c s rule).view.notificationWithKey key = none
      ↔ s.view.notificationWithKey key = none ∧ keyOf rt pair obs rule ≠ key := by
  rw [notificationWithKey_eq_none_iff, notificationWithKey_eq_none_iff]
  show (∀ n ∈ s.view.notifications ++ [_], _) ↔ _
  rw [List.forall_mem_append, List.forall_mem_singleton]
  rfl

variable (pair obs generation c)

/-- The loop writes no history and moves no rule between buckets. -/
theorem fireAll_frame (rules : List AlertRule) (s : State) :
    (fireAll rt pair obs generation c rules s).2.view.priceHistory = s.view.priceHistory
      ∧ (fireAll rt pair obs generation c rules s).2.mem.buckets = s.mem.buckets
      ∧ (fireAll rt pair obs generation c rules s).2.mem.generation = s.mem.generation
      ∧ (fireAll rt pair obs generation c rules s).2.committed = s.committed
      ∧ (fireAll rt pair obs generation c rules s).2.env = s.env := by
  induction rules generalizing s with
  | nil => exact ⟨rfl, rfl, rfl, rfl, rfl⟩
  | cons rule rest ih =>
      have hone : (fireOne rt pair obs generation c s rule).2.view.priceHistory
            = s.view.priceHistory
          ∧ (fireOne rt pair obs generation c s rule).2.mem.buckets = s.mem.buckets
          ∧ (fireOne rt pair obs generation c s rule).2.mem.generation = s.mem.generation
          ∧ (fireOne rt pair obs generation c s rule).2.committed = s.committed
          ∧ (fireOne rt pair obs generation c s rule).2.env = s.env := by
        show (if _ then _ else _ : Option Notification × State).2.view.priceHistory = _
          ∧ (if _ then _ else _ : Option Notification × State).2.mem.buckets = _
          ∧ (if _ then _ else _ : Option Notification × State).2.mem.generation = _
          ∧ (if _ then _ else _ : Option Notification × State).2.committed = _
          ∧ (if _ then _ else _ : Option Notification × State).2.env = _
        split
        · exact ⟨rfl, rfl, rfl, rfl, rfl⟩
        · exact ⟨rfl, rfl, rfl, rfl, rfl⟩
      obtain ⟨h₁, h₂, h₃, h₄, h₅⟩ := ih (fireOne rt pair obs generation c s rule).2
      exact ⟨h₁.trans hone.1, h₂.trans hone.2.1, h₃.trans hone.2.2.1,
        h₄.trans hone.2.2.2.1, h₅.trans hone.2.2.2.2⟩

end Frame

/-! ## Evaluation stays in its session -/

/-- A script without a commit and without a call that leaves the process. -/
abbrev Local {α : Type} (p : Tx α) : Prop :=
  Script.Sat (fun _ c => c.inSession = true) (fun _ => True) p

/-- A script that only reads the tables. -/
abbrev Reads {α : Type} (p : Tx α) : Prop :=
  Script.Sat (fun _ c => c.isQuery = true) (fun _ => True) p

/-- The percent_change rules that are selected are rules of the list. -/
theorem percentChangeCandidates_subset (pair : Pair) (obs : Observation)
    (rules : List AlertRule) (cache : Dict Int (Option Decimal))
    (acc : Dict Uuid (Option Decimal)) :
    (percentChangeCandidates pair obs rules cache acc).Sat (fun _ c => c.isQuery = true)
      (fun x => ∀ rule ∈ x.2, rule ∈ rules) := by
  induction rules generalizing cache acc with
  | nil => exact fun rule hr => hr
  | cons rule rest ih =>
      rw [percentChangeCandidates]
      cases rule.windowSeconds with
      | none => exact trivial
      | some w =>
          have hlookup : Reads (pastPriceOf pair obs cache w) := by
            rw [pastPriceOf]
            cases cache.get? w with
            | some p => exact trivial
            | none => exact Script.Sat.call rfl (fun _ => trivial)
          refine hlookup.bind (fun p _ => ?_)
          refine (ih _ _).bind (fun x hx => ?_)
          show ∀ r ∈ (if percentChangeRuleFires rule obs.last p then rule :: x.2 else x.2),
            r ∈ rule :: rest
          intro r hr
          split at hr
          · rcases List.mem_cons.mp hr with heq | hrest
            · rw [heq]
              exact List.mem_cons_self
            · exact List.mem_cons_of_mem _ (hx r hrest)
          · exact List.mem_cons_of_mem _ (hx r hr)

/-- The candidates are rules of the bucket. -/
theorem selectCandidates_subset (pair : Pair) (obs : Observation) (b : PairRules) :
    (selectCandidates rt settings pair obs b).Sat (fun _ c => c.isQuery = true)
      (fun c => ∀ rule ∈ c.rules, rule ∈ b.all) := by
  have hzscore : (zscoreCandidates rt settings pair b.zscoreMove).Sat
      (fun _ c => c.isQuery = true) (fun x => ∀ rule ∈ x.2, rule ∈ b.zscoreMove) := by
    rw [zscoreCandidates]
    by_cases hr : b.zscoreMove.isEmpty = true
    · rw [if_pos hr]
      exact fun rule hrule => absurd hrule List.not_mem_nil
    · rw [if_neg hr]
      have hfetch : Reads (fetchRecentPrices pair (settings.zscoreWindow + 2)) :=
        ⟨rfl, fun _ => trivial⟩
      refine hfetch.bind (fun prices _ => ?_)
      refine Script.Sat.bind (Q := fun _ => True) (Script.Sat.lift (fun _ _ => trivial)) ?_
      intro result _
      exact fun rule hrule => (List.mem_filter.mp hrule).1
  refine hzscore.bind (fun x hx => ?_)
  refine (percentChangeCandidates_subset pair obs b.percentChange [] []).bind (fun y hy => ?_)
  show ∀ rule ∈ matchingAbsoluteRules b.absoluteBelow obs.last
    ++ matchingAbsoluteRules b.absoluteAbove obs.last ++ x.2 ++ y.2
    ++ b.spreadWiden.filter _, rule ∈ b.all
  intro rule hrule
  simp only [PairRules.all, List.mem_append] at hrule ⊢
  rcases hrule with (((hbelow | habove) | hz) | hp) | hs
  · exact Or.inl (Or.inl (Or.inl (Or.inl ((List.takeWhile_sublist _).mem hbelow))))
  · exact Or.inl (Or.inl (Or.inl (Or.inr ((List.takeWhile_sublist _).mem habove))))
  · exact Or.inl (Or.inl (Or.inr (hx rule hz)))
  · exact Or.inl (Or.inr (hy rule hp))
  · exact Or.inr (List.mem_filter.mp hs).1

theorem selectCandidates_reads (pair : Pair) (obs : Observation) (b : PairRules) :
    Reads (selectCandidates rt settings pair obs b) :=
  (selectCandidates_subset rt settings pair obs b).mono (fun _ _ h => h) (fun _ _ => trivial)

/-- The commands of an evaluation: reads, the notification, its event and the stored
    time of the fire. -/
def ruleCommand : ∀ β : Type, Cmd Database Write Generated MemOp ExtOp β → Prop
  | _, .query _ => True
  | _, .mem _ => True
  | _, .insert (.addNotification _) => True
  | _, .write (.addOutboxEvent _ _) => True
  | _, .write (.setRuleLastFiredAt _ _) => True
  | _, _ => False

/-- A script of such commands. -/
abbrev Evaluates {α : Type} (p : Tx α) : Prop := p.Sat ruleCommand (fun _ => True)

theorem local_of_evaluates {α : Type} {p : Tx α} (h : Evaluates p) : Local p := by
  refine h.mono ?_ (fun _ _ => trivial)
  intro β c hc
  cases c with
  | query q => rfl
  | write w => rfl
  | insert w => rfl
  | commit => exact hc.elim
  | mem m => rfl
  | ask e => exact hc.elim

theorem evaluates_of_reads {α : Type} {p : Tx α} (h : Reads p) : Evaluates p := by
  refine h.mono ?_ (fun _ _ => trivial)
  intro β c hc
  cases c with
  | query q => exact trivial
  | write w => cases hc
  | insert w => cases hc
  | commit => cases hc
  | mem m => cases hc
  | ask e => cases hc

/-- An evaluation leaves the pairs and their history alone. -/
theorem runTx_frame_of_evaluates {α : Type} {p : Tx α} (h : Evaluates p) (s : State) :
    (runTx p s).2.view.priceHistory = s.view.priceHistory
      ∧ (runTx p s).2.view.pairs = s.view.pairs := by
  refine h.run_inv backend isolated (J := fun s' => s'.view.priceHistory = s.view.priceHistory
    ∧ s'.view.pairs = s.view.pairs) ?_ ⟨rfl, rfl⟩
  intro β c s' hc hJ
  cases c with
  | query q => exact hJ
  | write w =>
      cases w with
      | addOutboxEvent id payload => exact hJ
      | setRuleLastFiredAt id t => exact hJ
      | _ => exact hc.elim
  | insert w =>
      cases w with
      | addNotification n =>
          simp only [exec]
          split
          · exact hJ
          · exact hJ
      | _ => exact hc.elim
  | commit => exact hc.elim
  | mem m => exact hJ
  | ask e => exact hc.elim

/-- The commands of one pass of the firing loop: about its pair, its rule and its
    observation. -/
def firingCommand (pairId ruleId : Uuid) (t : Instant) :
    ∀ β : Type, Cmd Database Write Generated MemOp ExtOp β → Prop
  | _, .query _ => True
  | _, .mem (.getLastFiredAt _ _) => True
  | _, .mem (.setLastFiredAt _ id at_) => id = ruleId ∧ at_ = t
  | _, .insert (.addNotification n) => n.ruleId = ruleId ∧ n.pairId = pairId
  | _, .write (.addOutboxEvent _ payload) => payload.ruleId = ruleId ∧ payload.triggeredAt = t
  | _, .write (.setRuleLastFiredAt id at_) => id = ruleId ∧ at_ = t
  | _, _ => False

theorem fireRule_commands (pair : Pair) (obs : Observation) (generation : Nat)
    (c : Candidates rt) (rule : AlertRule) :
    (fireRule rt pair obs generation c rule).Sat
      (firingCommand pair.id rule.id obs.observedAt) (fun _ => True) := by
  refine ⟨trivial, ?_⟩
  intro existing
  cases existing with
  | some id => exact trivial
  | none =>
      refine ⟨trivial, fun lastFiredAt => ⟨⟨rfl, rfl⟩, ?_⟩⟩
      intro inserted
      cases inserted with
      | none => exact trivial
      | some g =>
          show (finishFire rt pair obs generation c rule _ _ g).Sat _ _
          rw [finishFire]
          by_cases hs : inCooldown { rule with lastFiredAt } obs.observedAt = true
          · simp only [hs, if_true]
            exact ⟨⟨rfl, rfl⟩, fun _ => ⟨⟨rfl, rfl⟩, fun _ => trivial⟩⟩
          · simp only [hs]
            refine Script.Sat.bind (Q := fun _ => True) ?_
              (fun _ _ => ⟨⟨rfl, rfl⟩, fun _ => ⟨⟨rfl, rfl⟩, fun _ => trivial⟩⟩)
            exact Script.Sat.bind (Q := fun _ => True)
              (Script.Sat.lift (fun _ _ => trivial))
              (fun _ _ => ⟨⟨rfl, rfl⟩, fun _ => trivial⟩)

theorem fireRules_commands (pair : Pair) (obs : Observation) (generation : Nat)
    (c : Candidates rt) (rules : List AlertRule) :
    (fireRules rt pair obs generation c rules).Sat
      (fun β cmd => ∃ rule ∈ rules, firingCommand pair.id rule.id obs.observedAt β cmd)
      (fun _ => True) := by
  induction rules with
  | nil => exact trivial
  | cons rule rest ih =>
      have hone : (fireRule rt pair obs generation c rule).Sat
          (fun β cmd => ∃ r ∈ rule :: rest, firingCommand pair.id r.id obs.observedAt β cmd)
          (fun _ => True) :=
        (fireRule_commands rt pair obs generation c rule).mono
          (fun _ _ h => ⟨rule, List.mem_cons_self, h⟩) (fun _ _ => trivial)
      refine hone.bind (fun _ _ => ?_)
      have hrest : (fireRules rt pair obs generation c rest).Sat
          (fun β cmd => ∃ r ∈ rule :: rest, firingCommand pair.id r.id obs.observedAt β cmd)
          (fun _ => True) :=
        ih.mono (fun _ _ ⟨r, hr, h⟩ => ⟨r, List.mem_cons_of_mem _ hr, h⟩) (fun _ _ => trivial)
      exact hrest.bind (fun _ _ => trivial)

theorem ruleCommand_of_firingCommand {pairId ruleId : Uuid} {t : Instant} {β : Type}
    {c : Cmd Database Write Generated MemOp ExtOp β}
    (h : firingCommand pairId ruleId t β c) : ruleCommand β c := by
  cases c with
  | query q => exact trivial
  | mem m => exact trivial
  | write w => cases w <;> first | exact trivial | exact h.elim
  | insert w => cases w <;> first | exact trivial | exact h.elim
  | commit => exact h.elim
  | ask e => exact h.elim

theorem fireRule_evaluates (pair : Pair) (obs : Observation) (generation : Nat)
    (c : Candidates rt) (rule : AlertRule) :
    Evaluates (fireRule rt pair obs generation c rule) :=
  (fireRule_commands rt pair obs generation c rule).mono
    (fun _ _ => ruleCommand_of_firingCommand) (fun _ _ => trivial)

theorem fireRules_evaluates (pair : Pair) (obs : Observation) (generation : Nat)
    (c : Candidates rt) (rules : List AlertRule) :
    Evaluates (fireRules rt pair obs generation c rules) :=
  (fireRules_commands rt pair obs generation c rules).mono
    (fun _ _ ⟨_, _, h⟩ => ruleCommand_of_firingCommand h) (fun _ _ => trivial)

theorem evaluateRulesForPair_evaluates (pair : Pair) (obs : Observation) :
    Evaluates (evaluateRulesForPair rt settings pair obs) := by
  refine ⟨trivial, ?_⟩
  rintro ⟨generation, b⟩
  exact (evaluates_of_reads (selectCandidates_reads rt settings pair obs b)).bind
    (fun c _ => fireRules_evaluates rt pair obs generation c c.rules)

theorem fireRule_local (pair : Pair) (obs : Observation) (generation : Nat)
    (c : Candidates rt) (rule : AlertRule) :
    Local (fireRule rt pair obs generation c rule) :=
  local_of_evaluates (fireRule_evaluates rt pair obs generation c rule)

theorem fireRules_local (pair : Pair) (obs : Observation) (generation : Nat)
    (c : Candidates rt) (rules : List AlertRule) :
    Local (fireRules rt pair obs generation c rules) :=
  local_of_evaluates (fireRules_evaluates rt pair obs generation c rules)

theorem evaluateRulesForPair_local (pair : Pair) (obs : Observation) :
    Local (evaluateRulesForPair rt settings pair obs) :=
  local_of_evaluates (evaluateRulesForPair_evaluates rt settings pair obs)

end Dropwatch.Evaluator
