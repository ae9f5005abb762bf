import Dropwatch.PollerProofs
import Dropwatch.SpellingProofs

/-! # Rules do not interfere

    Two pollers get the same messages, quotes and clock over tables that agree on what
    concerns the rules of `R`.  One holds an index of `R`, the other an index of more
    rules, loaded in any order.  The extra rules change the sorted buckets, the scans,
    the shared lookups, the keys in use and the order in which candidates fire.

    `Agree` is the relation of the two: each rule of `R` has one track (`Track`) that
    both follow.  An evaluation takes both of them through the step of that track
    (`SameFor.evaluate`), whoever else fires in it, and so does a batch and a run of
    batches (`outcomes_alike`). -/

namespace Dropwatch.Interference

open Transact RuleIndex Evaluator Poller RulesApi Totality Backtest Keys Isolation Spelling

/-- The messages of a batch and what the outside world answers to it. -/
structure Batch where
  messages : List Message
  world : World

/-- What a poller has between two batches: the committed tables and its memory. -/
abbrev Poller : Type := Database × Memory

/-- A new session of a poller. -/
def session (x : Poller) (world : World) : State := ⟨x.1, x.1, x.2, world⟩

/-- The poller after each batch, every batch in a session of its own. -/
def states (rt : Runtime) (settings : Settings) : List Batch → Poller → Except PyError (List Poller)
  | [], _ => .ok []
  | b :: rest, x =>
      match runTx (processBatch rt settings b.messages) (session x b.world) with
      | (.error e, _) => .error e
      | (.ok _, s) =>
          (states rt settings rest (s.committed, s.mem)).map (fun xs => (s.committed, s.mem) :: xs)

/-- Tables that agree on all that concerns the rules of a list: the pairs and their history,
    and of each rule its rows, its notifications and the keys it may use. -/
structure Alike (rt : Runtime) (rules : List AlertRule) (db db' : Database) : Prop where
  pairs : db'.pairs = db.pairs
  history : db'.priceHistory = db.priceHistory
  present : ∀ rule ∈ rules, db'.alertRules.any (fun r => r.id == rule.id)
    = db.alertRules.any (fun r => r.id == rule.id)
  lastFiredAt : ∀ rule ∈ rules, ∃ at_, ∀ row ∈ db.alertRules ++ db'.alertRules,
    row.id = rule.id → row.lastFiredAt = at_
  notifications : ∀ rule ∈ rules,
    recordedFor rule db'.notifications = recordedFor rule db.notifications
  keys : ∀ rule ∈ rules, ∀ price at_, db'.notificationWithKey (ownKey rt rule price at_) = none
    ↔ db.notificationWithKey (ownKey rt rule price at_) = none

/-- What became of a rule is the same in both: the notifications recorded for it, with their
    prices, keys and statuses, and the time of its last fire, on the object in memory and on
    its row. -/
structure SameOutcome (rule : AlertRule) (x x' : Poller) : Prop where
  notifications : recordedFor rule x'.1.notifications = recordedFor rule x.1.notifications
  object : x'.2.lastFiredAt x'.2.generation rule.id = x.2.lastFiredAt x.2.generation rule.id
  row : ∃ at_, ∀ row ∈ x.1.alertRules ++ x'.1.alertRules,
    row.id = rule.id → row.lastFiredAt = at_

/-! ## What is stored of an evaluation -/

/-- A notification as its columns keep it. -/
def storedNotice (n : NewNotification) : NewNotification :=
  { n with detectedPrice := n.detectedPrice.numeric 8 }

section Recorded

variable {rt : Runtime} {settings : Settings} {pair : Pair} {obs : Observation}
  {generation : Nat} {c : Candidates rt} {rule : AlertRule}

theorem recordedFor_fireOne (s : State) (other : AlertRule) :
    recordedFor rule (fireOne rt pair obs generation c s other).2.view.notifications
      = recordedFor rule s.view.notifications
        ++ (recordedFor rule (fireOne rt pair obs generation c s other).1.toList).map
          storedNotice := by
  rw [fireOne]
  cases recordable rt pair obs s.view other with
  | false => exact (List.append_nil _).symm
  | true =>
      refine (recordedFor_append _ _).trans (congrArg (recordedFor rule _ ++ ·) ?_)
      rw [if_pos rfl, Option.toList_some, recordedFor, recordedFor, List.filter_singleton,
        List.filter_singleton]
      show List.map _ (bif other.id == rule.id then _ else _)
        = List.map _ (List.map _ (bif other.id == rule.id then _ else _))
      cases other.id == rule.id with
      | false => rfl
      | true => rfl

theorem recordedFor_fireAll (rules : List AlertRule) (s : State) :
    recordedFor rule (fireAll rt pair obs generation c rules s).2.view.notifications
      = recordedFor rule s.view.notifications
        ++ (recordedFor rule (fireAll rt pair obs generation c rules s).1).map storedNotice := by
  induction rules generalizing s with
  | nil => exact (List.append_nil _).symm
  | cons other rest ih =>
      refine (ih _).trans ?_
      rw [recordedFor_fireOne, List.append_assoc, ← List.map_append, ← recordedFor_append]
      rfl

/-- The table holds what was created, rounded. -/
theorem recordedFor_evaluate {rules : List AlertRule} {s s' : State}
    {created : List Notification} (hl : Loaded rules s.mem)
    (hrun : runTx (evaluateRulesForPair rt settings pair obs) s = (.ok created, s')) :
    recordedFor rule s'.view.notifications
      = recordedFor rule s.view.notifications ++ (recordedFor rule created).map storedNotice := by
  obtain ⟨c, -, rfl, rfl⟩ := evaluate_ok hl hrun
  exact recordedFor_fireAll c.rules s

end Recorded

/-! ## One rule in two stores -/

/-- Both stores show the rule with the same notifications, rows and track. -/
structure SameFor (rt : Runtime) (rule : AlertRule) (s s' : State) : Prop where
  recorded : recordedFor rule s'.view.notifications = recordedFor rule s.view.notifications
  stored : ∃ at_, StoredAt rule s at_ ∧ StoredAt rule s' at_
  tracked : ∃ present t, Watches rt rule present s t ∧ Watches rt rule present s' t

section Stores

variable {rt : Runtime} {settings : Settings} {pair : Pair} {obs : Observation}
  {rule : AlertRule} {s s' s₁ s₁' : State}

/-- Nothing that concerns a rule moves. -/
theorem SameFor.between (h : SameFor rt rule s s') (hb : Between s s₁) (hb' : Between s' s₁') :
    SameFor rt rule s₁ s₁' where
  recorded := by
    rw [hb.notifications, hb'.notifications]
    exact h.recorded
  stored := by
    obtain ⟨at_, hat, hat'⟩ := h.stored
    refine ⟨at_, ?_, ?_⟩
    · rw [StoredAt, hb.alertRules]
      exact hat
    · rw [StoredAt, hb'.alertRules]
      exact hat'
  tracked := by
    obtain ⟨present, t, hw, hw'⟩ := h.tracked
    exact ⟨present, t, hb.watches hw, hb'.watches hw'⟩

theorem SameFor.outcome (h : SameFor rt rule s s') :
    SameOutcome rule (s.view, s.mem) (s'.view, s'.mem) where
  notifications := h.recorded
  object := by
    obtain ⟨present, t, hw, hw'⟩ := h.tracked
    exact hw'.last.trans hw.last.symm
  row := by
    obtain ⟨at_, hat, hat'⟩ := h.stored
    refine ⟨at_, fun row hrow hid => ?_⟩
    rcases List.mem_append.mp hrow with hrow | hrow
    · exact hat row hrow hid
    · exact hat' row hrow hid

/-- Two evaluations of one pair over indexes that both hold the rule. -/
theorem SameFor.evaluate (hsha : Function.Injective rt.sha256) {rules rules' : List AlertRule}
    (h : SameFor rt rule s s') (hl : Loaded rules s.mem) (hl' : Loaded rules' s'.mem)
    (hr : rule ∈ rules) (hr' : rule ∈ rules')
    (hhistory : s'.view.priceHistory = s.view.priceHistory) {created created' : List Notification}
    (hrun : runTx (evaluateRulesForPair rt settings pair obs) s = (.ok created, s₁))
    (hrun' : runTx (evaluateRulesForPair rt settings pair obs) s' = (.ok created', s₁')) :
    SameFor rt rule s₁ s₁' := by
  obtain ⟨present, t, hw, hw'⟩ := h.tracked
  obtain ⟨at_, hat, hat'⟩ := h.stored
  have hsame : recordedFor rule created = recordedFor rule created' →
      recordedFor rule s₁'.view.notifications = recordedFor rule s₁.view.notifications := by
    intro heq
    rw [recordedFor_evaluate hl hrun, recordedFor_evaluate hl' hrun', h.recorded, heq]
  by_cases hp : rule.pairId = pair.id
  · -- The rule's own predicate reads the history alone, so both verdicts are one.
    obtain ⟨verdict, hv, hstep⟩ := evaluate_watched hsha hl hr hp hw hrun
    obtain ⟨verdict', hv', hstep'⟩ := evaluate_watched hsha hl' hr' hp hw' hrun'
    rw [ownPredicate_congr (historyDesc_congr hhistory pair.id), hv] at hv'
    obtain rfl := Except.ok.inj hv'
    exact ⟨hsame (hstep.recorded.trans hstep'.recorded.symm),
      ⟨_, hstep.stored at_ hat, hstep'.stored at_ hat'⟩, _, _, hstep.watches, hstep'.watches⟩
  · -- Over another pair neither index tests the rule.
    have hstay := evaluate_unwatched hsha hl hr hp hw hrun
    have hstay' := evaluate_unwatched hsha hl' hr' hp hw' hrun'
    exact ⟨hsame (hstay.recorded.trans hstay'.recorded.symm),
      ⟨at_, hstay.stored at_ hat, hstay'.stored at_ hat'⟩, _, _, hstay.watches, hstay'.watches⟩

end Stores

/-! ## Two pollers -/

/-- Two pollers over indexes of their own, alike in all that concerns the rules of `R`. -/
structure Agree (rt : Runtime) (R R' : List AlertRule) (s s' : State) : Prop where
  loaded : Loaded R s.mem
  loaded' : Loaded R' s'.mem
  pairs : s'.view.pairs = s.view.pairs
  history : s'.view.priceHistory = s.view.priceHistory
  rules : ∀ rule ∈ R, SameFor rt rule s s'

section Pollers

variable {rt : Runtime} {settings : Settings} {R R' : List AlertRule} {s s' s₁ s₁' : State}

theorem Agree.between (h : Agree rt R R' s s') (hb : Between s s₁) (hb' : Between s' s₁')
    (hpairs : s₁'.view.pairs = s₁.view.pairs)
    (hhistory : s₁'.view.priceHistory = s₁.view.priceHistory) : Agree rt R R' s₁ s₁' where
  loaded := hb.mem ▸ h.loaded
  loaded' := hb'.mem ▸ h.loaded'
  pairs := hpairs
  history := hhistory
  rules := fun rule hr => (h.rules rule hr).between hb hb'

/-- An evaluation of the same pair in both. -/
theorem Agree.evaluate (hsha : Function.Injective rt.sha256) (hsub : R ⊆ R')
    (h : Agree rt R R' s s') {pair : Pair} {obs : Observation}
    {created created' : List Notification}
    (hrun : runTx (evaluateRulesForPair rt settings pair obs) s = (.ok created, s₁))
    (hrun' : runTx (evaluateRulesForPair rt settings pair obs) s' = (.ok created', s₁')) :
    Agree rt R R' s₁ s₁' := by
  have hframe := runTx_frame_of_evaluates (evaluateRulesForPair_evaluates rt settings pair obs) s
  have hframe' := runTx_frame_of_evaluates (evaluateRulesForPair_evaluates rt settings pair obs) s'
  rw [hrun] at hframe
  rw [hrun'] at hframe'
  constructor
  · exact h.loaded.frame (evaluate_frame h.loaded hrun).2
  · exact h.loaded'.frame (evaluate_frame h.loaded' hrun').2
  · exact hframe'.2.trans (h.pairs.trans hframe.2.symm)
  · exact hframe'.1.trans (h.history.trans hframe.1.symm)
  · intro rule hr
    exact (h.rules rule hr).evaluate hsha h.loaded h.loaded' hr (hsub hr) h.history hrun hrun'

theorem between_observed (s : State) (pair : Pair) (quote : Quote) (t : Instant) :
    Between s { s with view := observed s.view pair quote t } where
  mem := rfl
  notifications := rfl
  alertRules := rfl
  pairs := by
    obtain ⟨f, hf, heq⟩ := (grows_observed s.view pair quote t).pairs
    show (observed s.view pair quote t).pairs.map Pair.id = _
    rw [heq, List.map_map]
    exact List.map_congr_left (fun p _ => (hf p).1)

/-- A quoted pair in both. -/
theorem Agree.observe (hsha : Function.Injective rt.sha256) (hsub : R ⊆ R')
    (h : Agree rt R R' s s') {pair : Pair} {quote : Quote} {t : Instant} {c c' : Candidates rt}
    (hobs : ObservedBy rt settings pair quote t c s s₁)
    (hobs' : ObservedBy rt settings pair quote t c' s' s₁') : Agree rt R R' s₁ s₁' := by
  have hobserved : Agree rt R R' { s with view := observed s.view pair quote t }
      { s' with view := observed s'.view pair quote t } := by
    refine h.between (between_observed s pair quote t) (between_observed s' pair quote t) ?_ ?_
    · show updateWhere _ _ s'.view.pairs = updateWhere _ _ s.view.pairs
      rw [h.pairs]
    · show s'.view.priceHistory ++ _ = s.view.priceHistory ++ _
      rw [h.history]
  exact hobserved.evaluate hsha hsub (hobs.evaluates h.loaded.wellFormed)
    (hobs'.evaluates h.loaded'.wellFormed)

/-- The loop of a batch in both, pair by pair. -/
theorem Agree.observeAll (hsha : Function.Injective rt.sha256) (hsub : R ⊆ R')
    {pairs : Dict String Pair} {quotes : Dict String Quote} {t : Instant}
    {entries : List (String × Message)} {toDelete toDelete' : List Message}
    (h : Agree rt R R' s s')
    (hrun : runTx (observeAll rt settings pairs quotes t entries) s = (.ok toDelete, s₁))
    (hrun' : runTx (observeAll rt settings pairs quotes t entries) s' = (.ok toDelete', s₁')) :
    Agree rt R R' s₁ s₁' := by
  induction entries generalizing s s' toDelete toDelete' with
  | nil =>
      obtain rfl := (Prod.mk.inj hrun).2
      obtain rfl := (Prod.mk.inj hrun').2
      exact h
  | cons e rest ih =>
      obtain ⟨name, message⟩ := e
      rcases observeAll_cons_ok h.loaded.wellFormed hrun with
        ⟨hnone, hloop⟩ | ⟨quote, pair, c, s₂, _, hquote, hpair, hobs, hloop⟩
      · rcases observeAll_cons_ok h.loaded'.wellFormed hrun' with
          ⟨-, hloop'⟩ | ⟨quote', _, _, _, _, hquote', _, _, _⟩
        · exact ih h hloop hloop'
        · cases hnone.symm.trans hquote'
      · -- The dictionaries are the same, so the entry has the same quote and pair.
        rcases observeAll_cons_ok h.loaded'.wellFormed hrun' with
          ⟨hnone', -⟩ | ⟨quote', pair', c', s₂', _, hquote', hpair', hobs', hloop'⟩
        · cases hnone'.symm.trans hquote
        · obtain rfl := Option.some.inj (hquote.symm.trans hquote')
          obtain rfl := Option.some.inj (hpair.symm.trans hpair')
          exact ih (h.observe hsha hsub hobs hobs') hloop hloop'

/-- The tables of a state committed, and a new session on them. -/
theorem between_session (s : State) (world : World) : Between s (session (s.view, s.mem) world) :=
  ⟨rfl, rfl, rfl, rfl⟩

/-- One batch in both. -/
theorem Agree.processBatch (hsha : Function.Injective rt.sha256) (hsub : R ⊆ R')
    {x x' : Poller} {world : World} {messages : List Message}
    (h : Agree rt R R' (session x world) (session x' world))
    (hrun : runTx (processBatch rt settings messages) (session x world) = (.ok (), s₁))
    (hrun' : runTx (processBatch rt settings messages) (session x' world) = (.ok (), s₁'))
    (next : World) :
    Agree rt R R' (session (s₁.committed, s₁.mem) next)
      (session (s₁'.committed, s₁'.mem) next) := by
  have hpairs : x'.1.pairs = x.1.pairs := h.pairs
  by_cases hobserves : ∃ byPairId quotes,
      Observes rt x.1 world.quotes messages byPairId quotes
  · -- Both get to the loop, over the same pairs and quotes, and commit what it leaves.
    obtain ⟨byPairId, quotes, hobs⟩ := hobserves
    have hobs' : Observes rt x'.1 world.quotes messages byPairId quotes := hobs.congr hpairs
    obtain ⟨toDelete, s₂, hloop, rfl⟩ := processBatch_ok_inv hobs hrun
    obtain ⟨toDelete', s₂', hloop', rfl⟩ := processBatch_ok_inv hobs' hrun'
    have hloops : batchLoop rt settings x'.1 byPairId quotes world.clock
        = batchLoop rt settings x.1 byPairId quotes world.clock := by
      rw [batchLoop, batchLoop, livePart_congr hpairs]
    have hsecond : runTx (batchLoop rt settings x.1 byPairId quotes world.clock) (session x' world)
        = (.ok toDelete', s₂') := hloops ▸ hloop'
    have hafter : Agree rt R R' s₂ s₂' := Agree.observeAll hsha hsub h hloop hsecond
    exact hafter.between (between_session s₂ next) (between_session s₂' next) hafter.pairs
      hafter.history
  · -- Neither does, and nothing is written.
    rw [not_exists] at hobserves
    have hidle : ∀ byPairId quotes, ¬ Observes rt x.1 world.quotes messages byPairId quotes :=
      fun byPairId quotes hobs => hobserves byPairId ⟨quotes, hobs⟩
    have hidle' : ∀ byPairId quotes, ¬ Observes rt x'.1 world.quotes messages byPairId quotes :=
      fun byPairId quotes hobs => hidle byPairId quotes (hobs.congr hpairs.symm)
    have hsame := (@runTx_processBatch_idle rt settings messages (session x world)
      hidle).symm.trans hrun
    have hsame' := (@runTx_processBatch_idle rt settings messages
      (session x' world) hidle').symm.trans hrun'
    cases hc : collectMessages rt messages [] with
    | error e =>
        rw [hc] at hsame
        cases (Prod.mk.inj hsame).1
    | ok byPairId =>
        rw [hc] at hsame hsame'
        obtain rfl := (Prod.mk.inj hsame).2
        obtain rfl := (Prod.mk.inj hsame').2
        exact h.between ⟨rfl, rfl, rfl, rfl⟩ ⟨rfl, rfl, rfl, rfl⟩ h.pairs h.history

/-- A run of batches that returned is a batch that returned, and a run. -/
theorem states_cons_ok {b : Batch} {rest : List Batch} {x : Poller} {xs : List Poller}
    (h : states rt settings (b :: rest) x = .ok xs) :
    ∃ s ys, runTx (processBatch rt settings b.messages) (session x b.world) = (.ok (), s)
      ∧ states rt settings rest (s.committed, s.mem) = .ok ys
      ∧ xs = (s.committed, s.mem) :: ys := by
  rw [states] at h
  cases hrun : runTx (processBatch rt settings b.messages) (session x b.world) with
  | mk r s =>
      rw [hrun] at h
      cases r with
      | error e => cases h
      | ok u =>
          have hmap : (states rt settings rest (s.committed, s.mem)).map
              (fun ys => (s.committed, s.mem) :: ys) = .ok xs := h
          cases hrest : states rt settings rest (s.committed, s.mem) with
          | error e =>
              rw [hrest] at hmap
              cases hmap
          | ok ys =>
              rw [hrest] at hmap
              exact ⟨s, ys, rfl, hrest, (Except.ok.inj hmap).symm⟩

/-- Runs of batches in both. -/
theorem Agree.states (hsha : Function.Injective rt.sha256) (hsub : R ⊆ R')
    {batches : List Batch} {x x' : Poller} {xs xs' : List Poller}
    (h : ∀ world, Agree rt R R' (session x world) (session x' world))
    (hrun : states rt settings batches x = .ok xs)
    (hrun' : states rt settings batches x' = .ok xs') :
    List.Forall₂ (fun y y' => ∀ rule ∈ R, SameOutcome rule y y') xs xs' := by
  induction batches generalizing x x' xs xs' with
  | nil =>
      obtain rfl := Except.ok.inj hrun
      obtain rfl := Except.ok.inj hrun'
      exact .nil
  | cons b rest ih =>
      obtain ⟨s, ys, hbatch, hrest, rfl⟩ := states_cons_ok hrun
      obtain ⟨s', ys', hbatch', hrest', rfl⟩ := states_cons_ok hrun'
      have hafter := fun next => (h b.world).processBatch hsha hsub hbatch hbatch' next
      exact .cons (fun rule hr => ((hafter b.world).rules rule hr).outcome)
        (ih hafter hrest hrest')

end Pollers

/-! ## Two indexes -/

section Start

variable {rt : Runtime} {settings : Settings} {R R' : List AlertRule}

/-- A loaded object has the `last_fired_at` it was loaded with. -/
theorem lastFiredAt_install (hnodup : (R.map AlertRule.id).Nodup) {rule : AlertRule}
    (hr : rule ∈ R) (buckets : Dict Uuid PairRules) (m : Memory) :
    (m.install R buckets).lastFiredAt (m.install R buckets).generation rule.id
      = rule.lastFiredAt := by
  show (if m.generation + 1 = m.generation + 1 then
    ((R.find? (fun r => r.id == rule.id)).map AlertRule.lastFiredAt).join else _) = _
  obtain ⟨row, hrow⟩ : ∃ row, R.find? (fun r => r.id == rule.id) = some row :=
    Option.isSome_iff_exists.mp (List.find?_isSome.mpr ⟨rule, hr, beq_self_eq_true _⟩)
  have hid := List.find?_some hrow
  obtain rfl : row = rule := List.inj_on_of_nodup_map hnodup (List.mem_of_find?_eq_some hrow) hr
    (beq_iff_eq.mp hid)
  rw [if_pos rfl, hrow]
  rfl

/-- Tables with unique keys are like themselves, for any rules. -/
theorem Alike.refl {db : Database} (hkeys : (db.alertRules.map AlertRule.id).Nodup) :
    Alike rt R db db where
  pairs := rfl
  history := rfl
  present := fun _ _ => rfl
  lastFiredAt := by
    intro rule _
    by_cases hrow : ∃ row ∈ db.alertRules, row.id = rule.id
    · obtain ⟨row, hmem, hid⟩ := hrow
      refine ⟨row.lastFiredAt, fun r hr hrid => ?_⟩
      have hr' : r ∈ db.alertRules := (List.mem_append.mp hr).elim id id
      rw [List.inj_on_of_nodup_map hkeys hr' hmem (hrid.trans hid.symm)]
    · refine ⟨none, fun r hr hrid => absurd ⟨r, ?_, hrid⟩ hrow⟩
      exact (List.mem_append.mp hr).elim id id
  notifications := fun _ _ => rfl
  keys := fun _ _ _ _ => Iff.rfl

/-- Alike tables under the two indexes. -/
theorem Alike.agree {db db' : Database} (h : Alike rt R db db')
    (hvalid : ∀ r ∈ R', validRule r = true) (hnodup : (R.map AlertRule.id).Nodup)
    (hnodup' : (R'.map AlertRule.id).Nodup) (hsub : R ⊆ R')
    {buckets buckets' : Dict Uuid PairRules} (hb : bucketRules R = .ok buckets)
    (hb' : bucketRules R' = .ok buckets') (m m' : Memory) (world : World) :
    Agree rt R R' (session (db, m.install R buckets) world)
      (session (db', m'.install R' buckets') world) where
  loaded := Loaded.install (fun r hr => hvalid r (hsub hr)) hnodup hb m
  loaded' := Loaded.install hvalid hnodup' hb' m'
  pairs := h.pairs
  history := h.history
  rules := by
    intro rule hr
    have hself := @watches_self rt rule (session (db, m.install R buckets) world)
    constructor
    · exact h.notifications rule hr
    · obtain ⟨at_, hat⟩ := h.lastFiredAt rule hr
      exact ⟨at_, fun row hrow => hat row (List.mem_append_left _ hrow),
        fun row hrow => hat row (List.mem_append_right _ hrow)⟩
    · refine ⟨_, _, hself, ?_, ?_, ?_⟩
      · exact (lastFiredAt_install hnodup' (hsub hr) buckets' m').trans
          (lastFiredAt_install hnodup hr buckets m).symm
      · show (db'.alertRules.any (fun r => r.id == rule.id)
          && db'.pairs.any (fun p => p.id == rule.pairId)) = _
        rw [h.present rule hr, h.pairs]
        rfl
      · exact fun price at_ => (h.keys rule hr price at_).trans (hself.keys price at_)

end Start

/-- After every batch the rules of `R` have the same notifications and the same times of
    their last fire, whether the index was loaded with `R` or with more rules, and in
    whatever order. -/
theorem outcomes_alike {rt : Runtime} {settings : Settings} (hsha : Function.Injective rt.sha256)
    {R R' : List AlertRule} (hvalid : ∀ r ∈ R', validRule r = true)
    (hnodup : (R.map AlertRule.id).Nodup) (hnodup' : (R'.map AlertRule.id).Nodup) (hsub : R ⊆ R')
    {buckets buckets' : Dict Uuid PairRules} (hb : bucketRules R = .ok buckets)
    (hb' : bucketRules R' = .ok buckets') {db db' : Database} (hdb : Alike rt R db db')
    {m m' : Memory} {batches : List Batch} {xs xs' : List Poller}
    (hrun : states rt settings batches (db, m.install R buckets) = .ok xs)
    (hrun' : states rt settings batches (db', m'.install R' buckets') = .ok xs') :
    List.Forall₂ (fun x x' => ∀ rule ∈ R, SameOutcome rule x x') xs xs' :=
  Agree.states hsha hsub (hdb.agree hvalid hnodup hnodup' hsub hb hb' m m') hrun hrun'

/-! ## A rule alone and among others -/

def belowRule : AlertRule :=
  { id := 7, pairId := 1, ruleType := .absoluteBelow, threshold := some ⟨false, 100, 0⟩
    cooldownSeconds := 3600 }

def lowerRule : AlertRule :=
  { id := 8, pairId := 1, ruleType := .absoluteBelow, threshold := some ⟨false, 99, 0⟩ }

def spreadRule : AlertRule :=
  { id := 9, pairId := 1, ruleType := .spreadWiden, percent := some ⟨false, 1, 0⟩ }

/-- The tables that both pollers start from. -/
def sharedTables : Database :=
  { pairs := [{ id := 1, krakenPairName := "XBT/USD", displayName := "XBT/USD" }]
    alertRules := [belowRule, lowerRule, spreadRule] }

/-- A batch for the pair, at a price. -/
def batchAt (price : Nat) (clock : Instant) : Batch where
  messages :=
    [{ messageId := "m", receiptHandle := "r"
       body := "\x7b\"pair_id\": \"00000000-0000-0000-0000-000000000001\"\x7d" }]
  world :=
    { clock
      quotes := fun _ => some [("XBT/USD", ⟨"XBT/USD", ⟨false, price, 0⟩, ⟨false, price - 2, 0⟩,
        ⟨false, price + 2, 0⟩, ⟨false, 1, 0⟩⟩)] }

/-- A fire, and a minute later one inside the cooldown. -/
def twoBatches : List Batch := [batchAt 95 1786710601000000, batchAt 94 1786710661000000]

def aloneStart : Poller :=
  (sharedTables, ({} : Memory).install [belowRule] [(1, { absoluteBelow := [belowRule] })])

/-- The buckets of all three rules, loaded in another order. -/
def amongBuckets : Dict Uuid PairRules :=
  (groupRules [spreadRule, lowerRule, belowRule]).map (fun e => (e.1, e.2.sorted))

def amongStart : Poller :=
  (sharedTables, ({} : Memory).install [spreadRule, lowerRule, belowRule] amongBuckets)

def aloneStates : List Poller :=
  (states Runtime.rational {} twoBatches aloneStart).toOption.getD []

def amongStates : List Poller :=
  (states Runtime.rational {} twoBatches amongStart).toOption.getD []

/-- A run that returned, by its states. -/
theorem states_eq_ok {rt : Runtime} {settings : Settings} {batches : List Batch} {x : Poller}
    (h : (states rt settings batches x).toOption.isSome = true) :
    states rt settings batches x = .ok ((states rt settings batches x).toOption.getD []) := by
  cases hs : states rt settings batches x with
  | error e =>
      rw [hs] at h
      cases h
  | ok xs => rfl

theorem alone_ok : states Runtime.rational {} twoBatches aloneStart = .ok aloneStates :=
  states_eq_ok (by decide +kernel)

theorem among_ok : states Runtime.rational {} twoBatches amongStart = .ok amongStates :=
  states_eq_ok (by decide +kernel)

theorem bucketRules_among :
    bucketRules [spreadRule, lowerRule, belowRule] = .ok amongBuckets :=
  bucketRules_ok (haveThresholds_of_valid (by decide))

theorem outcomes_alike_among :
    List.Forall₂ (fun x x' => ∀ rule ∈ [belowRule], SameOutcome rule x x') aloneStates amongStates
      ∧ aloneStates.map (fun x => x.1.notifications.map (fun n => (n.ruleId, n.status)))
        = [[(7, .pending)], [(7, .pending), (7, .suppressedCooldown)]]
      ∧ amongStates.map (fun x => x.1.notifications.length) = [3, 6] :=
  ⟨@outcomes_alike Runtime.rational {} (fun _ _ h => h) [belowRule]
      [spreadRule, lowerRule, belowRule] (by decide) (by decide) (by decide) (by decide) _ _ rfl
      bucketRules_among _ _ (Alike.refl (by decide)) {} {} twoBatches _ _ alone_ok among_ok,
    by decide +kernel, by decide +kernel⟩

end Dropwatch.Interference
