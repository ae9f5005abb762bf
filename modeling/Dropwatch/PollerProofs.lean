import Dropwatch.EvaluatorProofs
import Dropwatch.Poller

/-! # What a batch does to the tables

    `Grows` is all that a session of the poller can do to the tables other
    readers look at: notifications are appended, no rule and no pair comes or
    goes, and a pair keeps its id and its name.  On top of it come the run
    lemmas: one for a quoted pair (`runTx_observePair`), one for the loop, and
    an inversion of the whole batch (`runTx_processBatch`), which either stops
    before it observes anything or is the loop followed by its commit. -/

namespace Dropwatch.Poller

open Transact RuleIndex Evaluator

/-! ## Growth of the tables -/

/-- A change of a pair that keeps its identity. -/
def KeepsIdentity (f : Pair → Pair) : Prop :=
  ∀ p, (f p).id = p.id ∧ (f p).krakenPairName = p.krakenPairName

structure Grows (db db' : Database) : Prop where
  notifications : ∃ more, db'.notifications = db.notifications ++ more
  rules : ∀ id, db'.alertRules.any (fun r => r.id == id)
    = db.alertRules.any (fun r => r.id == id)
  pairs : ∃ f, KeepsIdentity f ∧ db'.pairs = db.pairs.map f

theorem Grows.refl (db : Database) : Grows db db where
  notifications := ⟨[], by simp⟩
  rules := fun _ => rfl
  pairs := ⟨id, fun _ => ⟨rfl, rfl⟩, by simp⟩

theorem Grows.trans {db db' db'' : Database} (h : Grows db db') (h' : Grows db' db'') :
    Grows db db'' where
  notifications := by
    obtain ⟨more, hmore⟩ := h.notifications
    obtain ⟨more', hmore'⟩ := h'.notifications
    exact ⟨more ++ more', by rw [hmore', hmore, List.append_assoc]⟩
  rules := fun id => (h'.rules id).trans (h.rules id)
  pairs := by
    obtain ⟨f, hf, heq⟩ := h.pairs
    obtain ⟨g, hg, heq'⟩ := h'.pairs
    refine ⟨g ∘ f, ?_, by rw [heq', heq, List.map_map]⟩
    intro p
    exact ⟨((hg (f p)).1).trans (hf p).1, ((hg (f p)).2).trans (hf p).2⟩

theorem Grows.mem {db db' : Database} (h : Grows db db') {n : Notification}
    (hn : n ∈ db.notifications) : n ∈ db'.notifications := by
  obtain ⟨more, hmore⟩ := h.notifications
  rw [hmore]
  exact List.mem_append_left _ hn

theorem Grows.anyPair {db db' : Database} (h : Grows db db') (pairId : Uuid) :
    db'.pairs.any (fun p => p.id == pairId) = db.pairs.any (fun p => p.id == pairId) := by
  obtain ⟨f, hf, heq⟩ := h.pairs
  rw [heq, List.any_map]
  refine congrArg db.pairs.any ?_
  funext p
  show ((f p).id == pairId) = (p.id == pairId)
  rw [(hf p).1]

/-- What can be recorded later could have been recorded before. -/
theorem Grows.recordable {db db' : Database} (h : Grows db db') {rt : Runtime}
    {pair : Pair} {obs : Observation} {rule : AlertRule}
    (hr : recordable rt pair obs db' rule = true) :
    recordable rt pair obs db rule = true := by
  rw [Evaluator.recordable] at hr ⊢
  rw [h.rules, h.anyPair, Bool.and_eq_true, Bool.and_eq_true,
    Option.isNone_iff_eq_none, notificationWithKey_eq_none_iff] at hr
  obtain ⟨⟨hkey, hrule⟩, hpair⟩ := hr
  rw [hrule, hpair, Bool.and_true, Bool.and_true, Option.isNone_iff_eq_none,
    notificationWithKey_eq_none_iff]
  intro n hn
  exact hkey n (h.mem hn)

section Loop

variable (rt : Runtime) (settings : Settings) (pair : Pair) (obs : Observation)
  (generation : Nat) (c : Candidates rt)

theorem grows_recordOne (s : State) (rule : AlertRule) :
    Grows s.view (recordOne rt pair obs generation c s rule).view where
  notifications := ⟨_, rfl⟩
  rules := recordOne_hasRule rt s rule
  pairs := ⟨id, fun _ => ⟨rfl, rfl⟩, by simp [recordOne]⟩

theorem grows_fireOne (s : State) (rule : AlertRule) :
    Grows s.view (fireOne rt pair obs generation c s rule).2.view := by
  show Grows s.view (if _ then _ else _ : Option Notification × State).2.view
  split
  · exact grows_recordOne rt pair obs generation c s rule
  · exact Grows.refl s.view

theorem grows_fireAll (rules : List AlertRule) (s : State) :
    Grows s.view (fireAll rt pair obs generation c rules s).2.view := by
  induction rules generalizing s with
  | nil => exact Grows.refl s.view
  | cons rule rest ih =>
      exact (grows_fireOne rt pair obs generation c s rule).trans (ih _)

variable {rt pair obs generation c}

/-- After the loop no candidate is recordable any more. -/
theorem settled_fireAll {rules : List AlertRule} {s : State} {rule : AlertRule}
    (hr : rule ∈ rules) :
    recordable rt pair obs (fireAll rt pair obs generation c rules s).2.view rule
      = false := by
  induction rules generalizing s with
  | nil => exact absurd hr List.not_mem_nil
  | cons head rest ih =>
      rcases List.mem_cons.mp hr with heq | hmem
      · -- The head's own pass stores its key, or finds that it cannot.
        have hhead : recordable rt pair obs
            (fireOne rt pair obs generation c s head).2.view head = false := by
          rw [← Bool.not_eq_true]
          intro hafter
          cases hbefore : recordable rt pair obs s.view head with
          | false =>
              simp only [fireOne, hbefore, Bool.false_eq_true, if_false] at hafter
          | true =>
              simp only [fireOne, hbefore, if_true] at hafter
              rw [recordable] at hafter
              rw [Bool.and_eq_true, Bool.and_eq_true, Option.isNone_iff_eq_none,
                recordOne_key] at hafter
              exact hafter.1.1.2 rfl
        rw [heq, ← Bool.not_eq_true]
        intro hlater
        rw [(grows_fireAll rt pair obs generation c rest _).recordable hlater] at hhead
        exact absurd hhead (by decide)
      · exact ih hmem

/-- A notification after the loop was there before, or was recorded for a
    candidate that was recordable before. -/
theorem origin_fireAll {rules : List AlertRule} {s : State} {n : Notification}
    (hn : n ∈ (fireAll rt pair obs generation c rules s).2.view.notifications) :
    n ∈ s.view.notifications
      ∨ ∃ rule ∈ rules, recordable rt pair obs s.view rule = true
          ∧ ∃ s', n = (recordedAs rt pair obs generation s' rule).row (nextGenerated s') := by
  induction rules generalizing s with
  | nil => exact Or.inl hn
  | cons head rest ih =>
      rcases ih hn with hhead | ⟨rule, hr, hrec, hform⟩
      · cases hbefore : recordable rt pair obs s.view head with
        | false =>
            simp only [fireOne, hbefore, Bool.false_eq_true, if_false] at hhead
            exact Or.inl hhead
        | true =>
            simp only [fireOne, hbefore, if_true] at hhead
            rcases List.mem_append.mp hhead with hold | hnew
            · exact Or.inl hold
            · exact Or.inr ⟨head, List.mem_cons_self, hbefore, s, List.mem_singleton.mp hnew⟩
      · refine Or.inr ⟨rule, List.mem_cons_of_mem _ hr, ?_, hform⟩
        exact (grows_fireOne rt pair obs generation c s head).recordable hrec

/-- An outbox event after the loop was there before, or belongs to a
    notification that was not. -/
theorem event_origin_fireAll {rules : List AlertRule} {s : State} {e : OutboxEvent}
    (he : e ∈ (fireAll rt pair obs generation c rules s).2.view.outboxEvents) :
    e ∈ s.view.outboxEvents
      ∨ ∃ n ∈ (fireAll rt pair obs generation c rules s).2.view.notifications,
          n.id = e.notificationId ∧ n ∉ s.view.notifications := by
  induction rules generalizing s with
  | nil => exact Or.inl he
  | cons head rest ih =>
      have hgrows := grows_fireOne rt pair obs generation c s head
      rcases ih he with hhead | ⟨n, hn, hid, hnew⟩
      · cases hbefore : recordable rt pair obs s.view head with
        | false =>
            simp only [fireOne, hbefore, Bool.false_eq_true, if_false] at hhead
            exact Or.inl hhead
        | true =>
            simp only [fireOne, hbefore, if_true] at hhead
            rcases List.mem_append.mp hhead with hold | hevent
            · exact Or.inl hold
            · refine Or.inr ⟨(recordedAs rt pair obs generation s head).row
                (nextGenerated s), ?_, ?_, ?_⟩
              · refine (grows_fireAll rt pair obs generation c rest _).mem ?_
                simp only [fireOne, hbefore, if_true]
                exact List.mem_append_right _ (List.mem_singleton_self _)
              · split at hevent
                · exact absurd hevent List.not_mem_nil
                · rw [List.mem_singleton.mp hevent]
                  rfl
              · intro hold
                exact absurd rfl (Nat.ne_of_lt (Database.lt_freshId hold))
      · exact Or.inr ⟨n, hn, hid, fun hold => hnew (hgrows.mem hold)⟩

end Loop

/-! ## One quoted pair -/

/-- The tables after the row of a quote was added and its pair updated. -/
def observed (db : Database) (pair : Pair) (quote : Quote) (t : Instant) : Database :=
  { db with
    priceHistory := db.priceHistory ++ [(historyRow pair quote t).stored]
    pairs := updateWhere (fun p => p.id == pair.id)
      (fun p => { p with
        currentLastPrice :=
          ((assigned pair.currentLastPrice quote.last).map (Decimal.numeric 8)).or
            p.currentLastPrice
        currentBidPrice :=
          ((assigned pair.currentBidPrice quote.bid).map (Decimal.numeric 8)).or
            p.currentBidPrice
        currentAskPrice :=
          ((assigned pair.currentAskPrice quote.ask).map (Decimal.numeric 8)).or
            p.currentAskPrice
        lastCheckedAt := some t }) db.pairs }

theorem grows_observed (db : Database) (pair : Pair) (quote : Quote) (t : Instant) :
    Grows db (observed db pair quote t) where
  notifications := ⟨[], by simp [observed]⟩
  rules := fun _ => rfl
  pairs := by
    refine ⟨_, ?_, rfl⟩
    intro p
    show (if _ then _ else _ : Pair).id = _ ∧ (if _ then _ else _ : Pair).krakenPairName = _
    split
    · exact ⟨rfl, rfl⟩
    · exact ⟨rfl, rfl⟩

/-- Whether another pair was observed before is nothing to the stage of this
    one. -/
theorem historyDesc_observed_observed {db db' : Database} {pair pair' : Pair}
    {quote quote' : Quote} {t : Instant} (h : pair.id ≠ pair'.id)
    (hdb : db'.priceHistory = (observed db pair quote t).priceHistory) :
    (observed db' pair' quote' t).historyDesc pair'.id
      = (observed db pair' quote' t).historyDesc pair'.id := by
  have hrow : ((historyRow pair quote t).stored.pairId == pair'.id) = false := by
    simpa [historyRow, PriceHistory.stored] using h
  rw [Database.historyDesc]
  show ((db'.priceHistory ++ _).filter _).insertionSort _
    = ((db.priceHistory ++ _).filter _).insertionSort _
  rw [hdb]
  show (((db.priceHistory ++ [(historyRow pair quote t).stored]) ++ _).filter _).insertionSort _
    = _
  rw [List.filter_append, List.filter_append, List.filter_append,
    List.filter_cons_of_neg (by simp [hrow]), List.filter_nil, List.append_nil]

section Batch

variable (rt : Runtime) (settings : Settings)

theorem runTx_observePair {pair : Pair} {quote : Quote} {t : Instant} {s : State}
    (hm : s.mem.Indexed) :
    runTx (observePair rt settings pair quote t) s
      = match candidatesIn rt settings (observed s.view pair quote t) pair
          (quoteObservation quote t) (s.mem.rulesForPair pair.id) with
        | .ok c => (.ok (), (fireAll rt pair (quoteObservation quote t) s.mem.generation c
            c.rules { s with view := observed s.view pair quote t }).2)
        | .error e => (.error e, { s with view := observed s.view pair quote t }) := by
  rw [observePair]
  show runTx (evaluateRulesForPair rt settings pair (quoteObservation quote t) >>= _)
    { s with view := observed s.view pair quote t } = _
  rw [runTx_bind, @runTx_evaluateRulesForPair rt settings pair (quoteObservation quote t)
    { s with view := observed s.view pair quote t } pair.id (hm pair.id)]
  show thenRun backend isolated (match candidatesIn rt settings
    (observed s.view pair quote t) pair (quoteObservation quote t)
    (s.mem.rulesForPair pair.id) with
    | .ok c => _
    | .error e => _) _ = _
  cases candidatesIn rt settings (observed s.view pair quote t) pair
      (quoteObservation quote t) (s.mem.rulesForPair pair.id) with
  | ok c => rfl
  | error e => rfl

/-- What a quoted pair whose evaluation returned leaves behind. -/
structure ObservedBy (rt : Runtime) (settings : Settings) (pair : Pair) (quote : Quote)
    (t : Instant) (c : Candidates rt) (s s₁ : State) : Prop where
  selected : candidatesIn rt settings (observed s.view pair quote t) pair
    (quoteObservation quote t) (s.mem.rulesForPair pair.id) = .ok c
  fired : s₁ = (fireAll rt pair (quoteObservation quote t) s.mem.generation c c.rules
    { s with view := observed s.view pair quote t }).2

theorem observePair_ok {pair : Pair} {quote : Quote} {t : Instant} {s s₁ : State}
    {u : Unit} (hm : s.mem.Indexed)
    (h : runTx (observePair rt settings pair quote t) s = (.ok u, s₁)) :
    ∃ c, ObservedBy rt settings pair quote t c s s₁ := by
  rw [runTx_observePair rt settings hm] at h
  cases hc : candidatesIn rt settings (observed s.view pair quote t) pair
      (quoteObservation quote t) (s.mem.rulesForPair pair.id) with
  | error e =>
      rw [hc] at h
      cases (Prod.mk.inj h).1
  | ok c =>
      rw [hc] at h
      exact ⟨c, hc, (Prod.mk.inj h).2.symm⟩

section Observed

variable {rt settings} {pair : Pair} {quote : Quote} {t : Instant} {c : Candidates rt}
  {s s₁ : State}

theorem ObservedBy.grows (h : ObservedBy rt settings pair quote t c s s₁) :
    Grows s.view s₁.view := by
  rw [h.fired]
  exact (grows_observed s.view pair quote t).trans
    (grows_fireAll rt pair (quoteObservation quote t) s.mem.generation c c.rules
      { s with view := observed s.view pair quote t })

theorem ObservedBy.frame (h : ObservedBy rt settings pair quote t c s s₁) :
    s₁.view.priceHistory = (observed s.view pair quote t).priceHistory
      ∧ s₁.mem.buckets = s.mem.buckets ∧ s₁.mem.generation = s.mem.generation
      ∧ s₁.committed = s.committed ∧ s₁.env = s.env := by
  rw [h.fired]
  exact fireAll_frame rt pair (quoteObservation quote t) s.mem.generation c c.rules
    { s with view := observed s.view pair quote t }

theorem ObservedBy.rulesForPair (h : ObservedBy rt settings pair quote t c s s₁)
    (pairId : Uuid) : s₁.mem.rulesForPair pairId = s.mem.rulesForPair pairId := by
  simp only [Memory.rulesForPair]
  rw [h.frame.2.1]

theorem ObservedBy.indexed (h : ObservedBy rt settings pair quote t c s s₁)
    (hm : s.mem.Indexed) : s₁.mem.Indexed := by
  intro pairId
  rw [h.rulesForPair]
  exact hm pairId

/-- The evaluation in it returned. -/
theorem ObservedBy.evaluates (h : ObservedBy rt settings pair quote t c s s₁)
    (hm : s.mem.Indexed) :
    runTx (evaluateRulesForPair rt settings pair (quoteObservation quote t))
        { s with view := observed s.view pair quote t }
      = (.ok (fireAll rt pair (quoteObservation quote t) s.mem.generation c c.rules
          { s with view := observed s.view pair quote t }).1, s₁) := by
  rw [@runTx_evaluateRulesForPair rt settings pair (quoteObservation quote t)
    { s with view := observed s.view pair quote t } pair.id (hm pair.id), h.selected, h.fired]

theorem ObservedBy.settled (h : ObservedBy rt settings pair quote t c s s₁) :
    ∀ rule ∈ c.rules,
      recordable rt pair (quoteObservation quote t) s₁.view rule = false := by
  intro rule hrule
  rw [h.fired]
  exact settled_fireAll hrule

end Observed

/-! ## The loop -/

/-- No two entries of the loop are about one pair. -/
def DistinctPairs (pairs : Dict String Pair) (entries : List (String × Message)) : Prop :=
  entries.Pairwise (fun e e' => ∀ p p', pairs.get? e.1 = some p →
    pairs.get? e'.1 = some p' → p.id ≠ p'.id)

variable {rt settings} {pairs : Dict String Pair} {quotes : Dict String Quote} {t : Instant}

/-- One pass of a loop that returned: a message without a quote is skipped, any
    other pass is an observed pair followed by the rest of the loop. -/
theorem observeAll_cons_ok {name : String} {message : Message}
    {rest : List (String × Message)} {s s' : State} {toDelete : List Message}
    (hm : s.mem.Indexed)
    (h : runTx (observeAll rt settings pairs quotes t ((name, message) :: rest)) s
      = (.ok toDelete, s')) :
    (quotes.get? name = none
        ∧ runTx (observeAll rt settings pairs quotes t rest) s = (.ok toDelete, s'))
      ∨ ∃ quote pair c s₁ toDelete', quotes.get? name = some quote
          ∧ pairs.get? name = some pair ∧ ObservedBy rt settings pair quote t c s s₁
          ∧ runTx (observeAll rt settings pairs quotes t rest) s₁ = (.ok toDelete', s') := by
  rw [observeAll] at h
  cases hq : quotes.get? name with
  | none =>
      rw [hq] at h
      exact Or.inl ⟨rfl, h⟩
  | some quote =>
      rw [hq] at h
      cases hp : pairs.get? name with
      | none =>
          rw [hp] at h
          cases (Prod.mk.inj h).1
      | some pair =>
          rw [hp] at h
          obtain ⟨u, s₁, hpairRun, hloop⟩ := runTx_bind_inv h
          obtain ⟨toDelete', s₂, hrun, hlast⟩ := runTx_bind_inv hloop
          rw [(Prod.mk.inj hlast).2] at hrun
          obtain ⟨c, hobs⟩ := observePair_ok rt settings hm hpairRun
          exact Or.inr ⟨quote, pair, c, s₁, toDelete', rfl, rfl, hobs, hrun⟩

theorem grows_observeAll {entries : List (String × Message)} {s s' : State}
    {toDelete : List Message} (hm : s.mem.Indexed)
    (h : runTx (observeAll rt settings pairs quotes t entries) s = (.ok toDelete, s')) :
    Grows s.view s'.view := by
  induction entries generalizing s toDelete with
  | nil =>
      rw [(Prod.mk.inj h).2]
      exact Grows.refl _
  | cons e rest ih =>
      obtain ⟨name, message⟩ := e
      rcases observeAll_cons_ok hm h with ⟨-, hrun⟩ | ⟨_, _, _, s₁, _, -, -, hobs, hrun⟩
      · exact ih hm hrun
      · exact hobs.grows.trans (ih (hobs.indexed hm) hrun)

/-- What a loop that returned has done: the candidates of every quoted pair were
    selected over the tables with that pair's own row, and none of them is
    recordable any more. -/
theorem settled_observeAll {entries : List (String × Message)} {s s' : State}
    {toDelete : List Message} (hm : s.mem.Indexed) (hd : DistinctPairs pairs entries)
    (h : runTx (observeAll rt settings pairs quotes t entries) s = (.ok toDelete, s')) :
    ∀ e ∈ entries, ∀ quote pair, quotes.get? e.1 = some quote →
      pairs.get? e.1 = some pair →
      ∃ c, candidatesIn rt settings (observed s.view pair quote t) pair
          (quoteObservation quote t) (s.mem.rulesForPair pair.id) = .ok c
        ∧ ∀ rule ∈ c.rules,
          recordable rt pair (quoteObservation quote t) s'.view rule = false := by
  induction entries generalizing s toDelete with
  | nil => exact fun e he => absurd he List.not_mem_nil
  | cons head rest ih =>
      obtain ⟨name, message⟩ := head
      obtain ⟨hhead, hrest⟩ := List.pairwise_cons.mp hd
      rcases observeAll_cons_ok hm h with
        ⟨hnone, hrun⟩ | ⟨quote, pair, c, s₁, _, hq, hp, hobs, hrun⟩
      · intro e he quote pair hquote hpair
        rcases List.mem_cons.mp he with heq | hmem
        · rw [heq, hnone] at hquote
          cases hquote
        · exact ih hm hrest hrun e hmem quote pair hquote hpair
      · have hgrows := grows_observeAll (hobs.indexed hm) hrun
        intro e he quote' pair' hquote hpair
        rcases List.mem_cons.mp he with heq | hmem
        · -- The pair of this pass: settled here, and settled for good.
          rw [heq] at hquote hpair
          rw [hq] at hquote
          rw [hp] at hpair
          rw [← Option.some.inj hquote, ← Option.some.inj hpair]
          refine ⟨c, hobs.selected, ?_⟩
          intro rule hrule
          have hsettled := hobs.settled rule hrule
          rw [← Bool.not_eq_true] at hsettled ⊢
          exact fun hlater => hsettled (hgrows.recordable hlater)
        · -- A later pair: its stage did not notice this one.
          have hne := hhead e hmem pair pair' hp hpair
          obtain ⟨c', hc', hsettled⟩ :=
            ih (hobs.indexed hm) hrest hrun e hmem quote' pair' hquote hpair
          rw [hobs.rulesForPair, candidatesIn_congr rt settings
            (historyDesc_observed_observed hne hobs.frame.1)] at hc'
          exact ⟨c', hc', hsettled⟩

/-- The notification was recorded for a candidate of some quoted pair of the loop
    that was recordable in `s`. -/
def RecordedFor (rt : Runtime) (settings : Settings) (pairs : Dict String Pair)
    (quotes : Dict String Quote) (t : Instant) (entries : List (String × Message))
    (s : State) (n : Notification) : Prop :=
  ∃ e ∈ entries, ∃ quote pair db c rule, quotes.get? e.1 = some quote
    ∧ pairs.get? e.1 = some pair
    ∧ candidatesIn rt settings db pair (quoteObservation quote t)
        (s.mem.rulesForPair pair.id) = .ok c
    ∧ rule ∈ c.rules
    ∧ recordable rt pair (quoteObservation quote t) s.view rule = true
    ∧ ∃ s', n = (recordedAs rt pair (quoteObservation quote t) s.mem.generation s' rule).row
        (nextGenerated s')

/-- A notification after a loop that returned was there before, or was recorded
    for a candidate that was recordable before. -/
theorem origin_observeAll {entries : List (String × Message)} {s s' : State}
    {toDelete : List Message} (hm : s.mem.Indexed)
    (h : runTx (observeAll rt settings pairs quotes t entries) s = (.ok toDelete, s')) :
    ∀ n ∈ s'.view.notifications, n ∈ s.view.notifications
      ∨ RecordedFor rt settings pairs quotes t entries s n := by
  induction entries generalizing s toDelete with
  | nil =>
      rw [(Prod.mk.inj h).2]
      exact fun n hn => Or.inl hn
  | cons head rest ih =>
      obtain ⟨name, message⟩ := head
      intro n hn
      rcases observeAll_cons_ok hm h with
        ⟨-, hrun⟩ | ⟨quote, pair, c, s₁, _, hq, hp, hobs, hrun⟩
      · rcases ih hm hrun n hn with hold | ⟨e, hmem, hrest⟩
        · exact Or.inl hold
        · exact Or.inr ⟨e, List.mem_cons_of_mem _ hmem, hrest⟩
      · rcases ih (hobs.indexed hm) hrun n hn with hold |
          ⟨e, hmem, quote', pair', db, c', rule, hq', hp', hc', hrule, hrec, hform⟩
        · rw [hobs.fired] at hold
          rcases origin_fireAll hold with hold | ⟨rule, hrule, hrec, hform⟩
          · exact Or.inl hold
          · refine Or.inr ⟨(name, message), List.mem_cons_self, quote, pair, _, c, rule,
              hq, hp, hobs.selected, hrule, ?_, hform⟩
            exact (grows_observed s.view pair quote t).recordable hrec
        · rw [hobs.rulesForPair] at hc'
          rw [hobs.frame.2.2.1] at hform
          exact Or.inr ⟨e, List.mem_cons_of_mem _ hmem, quote', pair', db, c', rule, hq', hp',
            hc', hrule, hobs.grows.recordable hrec, hform⟩

/-- An outbox event after a loop that returned was there before, or belongs to a
    notification that was not. -/
theorem event_origin_observeAll {entries : List (String × Message)} {s s' : State}
    {toDelete : List Message} (hm : s.mem.Indexed)
    (h : runTx (observeAll rt settings pairs quotes t entries) s = (.ok toDelete, s')) :
    ∀ e ∈ s'.view.outboxEvents, e ∈ s.view.outboxEvents
      ∨ ∃ n ∈ s'.view.notifications, n.id = e.notificationId
          ∧ n ∉ s.view.notifications := by
  induction entries generalizing s toDelete with
  | nil =>
      rw [(Prod.mk.inj h).2]
      exact fun e he => Or.inl he
  | cons head rest ih =>
      obtain ⟨name, message⟩ := head
      intro e he
      rcases observeAll_cons_ok hm h with
        ⟨-, hrun⟩ | ⟨quote, pair, c, s₁, _, hq, hp, hobs, hrun⟩
      · exact ih hm hrun e he
      · have hgrows := grows_observeAll (hobs.indexed hm) hrun
        rcases ih (hobs.indexed hm) hrun e he with hold | ⟨n, hn, hid, hnew⟩
        · rw [hobs.fired] at hold
          rcases event_origin_fireAll hold with hold | ⟨n, hn, hid, hnew⟩
          · exact Or.inl hold
          · rw [← hobs.fired] at hn
            exact Or.inr ⟨n, hgrows.mem hn, hid, hnew⟩
        · exact Or.inr ⟨n, hn, hid, fun hold => hnew (hobs.grows.mem hold)⟩

theorem observePair_local (pair : Pair) (quote : Quote) (t : Instant) :
    Local (observePair rt settings pair quote t) :=
  ⟨rfl, fun _ => ⟨rfl, fun _ =>
    (evaluateRulesForPair_local rt settings pair _).bind (fun _ _ => trivial)⟩⟩

/-- The loop stays within what its quoted pairs stay within, and returns messages of its
    entries. -/
theorem observeAll_sat {C : ∀ β : Type, Cmd Database Write Generated MemOp ExtOp β → Prop}
    {t : Instant}
    (hpair : ∀ pair quote, (observePair rt settings pair quote t).Sat C (fun _ => True))
    (pairs : Dict String Pair) (quotes : Dict String Quote) (entries : List (String × Message)) :
    (observeAll rt settings pairs quotes t entries).Sat C
      (fun toDelete => ∀ m ∈ toDelete, ∃ e ∈ entries, e.2 = m) := by
  induction entries with
  | nil => exact fun m hm => absurd hm List.not_mem_nil
  | cons e rest ih =>
      obtain ⟨name, message⟩ := e
      have hrest : ∀ toDelete : List Message, (∀ m ∈ toDelete, ∃ e ∈ rest, e.2 = m) →
          ∀ m ∈ toDelete, ∃ e ∈ (name, message) :: rest, e.2 = m := by
        intro toDelete hdel m hm
        obtain ⟨e, he, hem⟩ := hdel m hm
        exact ⟨e, List.mem_cons_of_mem _ he, hem⟩
      rw [observeAll]
      cases quotes.get? name with
      | none => exact ih.mono (fun _ _ h => h) hrest
      | some quote =>
          cases pairs.get? name with
          | none => exact trivial
          | some pair =>
              refine (hpair pair quote).bind (fun _ _ => ih.bind (fun toDelete hdel => ?_))
              intro m hm
              rcases List.mem_cons.mp hm with rfl | hm
              · exact ⟨(name, m), List.mem_cons_self, rfl⟩
              · exact hrest toDelete hdel m hm

theorem observeAll_local (pairs : Dict String Pair) (quotes : Dict String Quote)
    (t : Instant) (entries : List (String × Message)) :
    Local (observeAll rt settings pairs quotes t entries) :=
  (observeAll_sat (fun pair quote => observePair_local pair quote t) pairs quotes entries).mono
    (fun _ _ h => h) (fun _ _ => trivial)

end Batch

/-! ## The batch -/

/-- The live pairs of a batch with their messages. -/
def livePart (db : Database) (byPairId : Dict Uuid Message) : List (Pair × Message) :=
  liveEntries byPairId (pairsById (db.selectPairs byPairId.keys))

/-- The comprehension by id finds a row under its own id. -/
theorem pairsById_id {rows : List Pair} {pairId : Uuid} {p : Pair}
    (h : (pairsById rows).get? pairId = some p) : p.id = pairId := by
  rcases Dict.get?_foldl_set Pair.id id h with hnil | ⟨x, -, hid, hx⟩
  · cases hnil
  · rw [← hid, ← hx]
    rfl

/-- A live pair is what its id stands for. -/
theorem get?_of_mem_liveEntries {byPairId : Dict Uuid Message} {rows : List Pair}
    {p : Pair} {message : Message}
    (h : (p, message) ∈ liveEntries byPairId (pairsById rows)) :
    (pairsById rows).get? p.id = some p := by
  obtain ⟨e, -, he⟩ := List.mem_filterMap.mp h
  obtain ⟨q, hq, hpair⟩ := Option.map_eq_some_iff.mp he
  have hqp : q = p := (Prod.mk.inj hpair).1
  rw [hqp] at hq
  rw [pairsById_id hq]
  exact hq

/-- The comprehension by name finds a live pair under its own name. -/
theorem pairByCanonical_mem {live : List (Pair × Message)} {name : String} {p : Pair}
    (h : (pairByCanonical live).get? name = some p) :
    p.krakenPairName = name ∧ ∃ message, (p, message) ∈ live := by
  rcases Dict.get?_foldl_set (fun e : Pair × Message => e.1.krakenPairName) Prod.fst h with
    hnil | ⟨e, he, hname, hp⟩
  · cases hnil
  · rw [← hp]
    exact ⟨hname, e.2, he⟩

/-- No pair is observed twice in one batch. -/
theorem distinctPairs_liveEntries (byPairId : Dict Uuid Message) (rows : List Pair) :
    DistinctPairs (pairByCanonical (liveEntries byPairId (pairsById rows)))
      (messageByCanonical (liveEntries byPairId (pairsById rows))) := by
  have hnodup : (messageByCanonical (liveEntries byPairId (pairsById rows))).keys.Nodup :=
    Dict.nodup_keys_foldl_set _ _ List.nodup_nil
  refine (List.pairwise_map.mp hnodup).imp ?_
  intro e e' hne p p' hp hp' hid
  obtain ⟨hname, message, hmem⟩ := pairByCanonical_mem hp
  obtain ⟨hname', message', hmem'⟩ := pairByCanonical_mem hp'
  -- One id stands for one pair, and a pair has one name.
  have hget := get?_of_mem_liveEntries hmem
  rw [hid, get?_of_mem_liveEntries hmem'] at hget
  have heq : p' = p := Option.some.inj hget
  exact hne (by rw [← hname, ← hname', heq])

theorem distinctPairs_livePart (db : Database) (byPairId : Dict Uuid Message) :
    DistinctPairs (pairByCanonical (livePart db byPairId))
      (messageByCanonical (livePart db byPairId)) :=
  distinctPairs_liveEntries byPairId (db.selectPairs byPairId.keys)

/-- A batch gets as far as its loop: the bodies are read, a pair is live, and the
    provider answers. -/
structure Observes (rt : Runtime) (db : Database) (quotesOf : List String → Option (Dict String Quote))
    (messages : List Message) (byPairId : Dict Uuid Message) (quotes : Dict String Quote) :
    Prop where
  collected : collectMessages rt messages [] = .ok byPairId
  live : livePart db byPairId ≠ []
  quoted : quotesOf (messageByCanonical (livePart db byPairId)).keys = some quotes

theorem livePart_congr {db db' : Database} (h : db'.pairs = db.pairs)
    (byPairId : Dict Uuid Message) : livePart db' byPairId = livePart db byPairId := by
  rw [livePart, livePart, Database.selectPairs, Database.selectPairs, h]

/-- How far a batch gets depends on the pairs alone. -/
theorem Observes.congr {db db' : Database} (h : db'.pairs = db.pairs)
    {quotesOf : List String → Option (Dict String Quote)} {messages : List Message}
    {byPairId : Dict Uuid Message} {quotes : Dict String Quote}
    (hobs : Observes rt db quotesOf messages byPairId quotes) :
    Observes rt db' quotesOf messages byPairId quotes where
  collected := hobs.collected
  live := by
    rw [livePart_congr h]
    exact hobs.live
  quoted := by
    rw [livePart_congr h]
    exact hobs.quoted

theorem runTx_deleteBatch (messages : List Message) (s : State) :
    runTx (deleteBatch messages) s
      = (.ok (), { s with env := { s.env with deleted := s.env.deleted ++ messages } }) := by
  rw [deleteBatch]
  split
  · rename_i hempty
    rw [List.isEmpty_iff.mp hempty, List.append_nil]
    rfl
  · rfl

section Batch

variable (rt : Runtime) (settings : Settings)

/-- The loop of a batch over given tables. -/
def batchLoop (db : Database) (byPairId : Dict Uuid Message) (quotes : Dict String Quote)
    (t : Instant) : Tx (List Message) :=
  observeAll rt settings (pairByCanonical (livePart db byPairId)) quotes t
    (messageByCanonical (livePart db byPairId))

/-- What follows the loop. -/
def commitAndDelete (gone toDelete : List Message) : Tx Unit :=
  Tx.commit >>= fun _ => deleteBatch (gone ++ toDelete)

/-- The messages of a batch whose pair is gone. -/
def gonePart (db : Database) (byPairId : Dict Uuid Message) : List Message :=
  goneMessages byPairId (pairsById (db.selectPairs byPairId.keys))

variable {rt settings} {messages : List Message} {s : State}

theorem Observes.nonempty {byPairId : Dict Uuid Message} {quotes : Dict String Quote}
    (h : Observes rt s.view s.env.quotes messages byPairId quotes) :
    byPairId.isEmpty = false ∧ (livePart s.view byPairId).isEmpty = false := by
  constructor
  · cases hb : byPairId with
    | nil => exact absurd (by rw [hb]; rfl) h.live
    | cons e rest => rfl
  · rw [← Bool.not_eq_true, List.isEmpty_iff]
    exact h.live

/-- A batch that gets to its loop stands before it with nothing changed. -/
theorem uncommitted_batchLoop {byPairId : Dict Uuid Message} {quotes : Dict String Quote}
    (h : Observes rt s.view s.env.quotes messages byPairId quotes) :
    Uncommitted backend isolated (processBatch rt settings messages) s
      (batchLoop rt settings s.view byPairId quotes s.env.clock >>=
        commitAndDelete (gonePart s.view byPairId)) s := by
  obtain ⟨hne, hlive⟩ := h.nonempty
  rw [processBatch, h.collected]
  show Uncommitted backend isolated (if byPairId.isEmpty then pure () else _) s _ s
  rw [hne, if_neg Bool.false_ne_true]
  refine .query backend isolated ?_
  show Uncommitted backend isolated
    (if (livePart s.view byPairId).isEmpty then _ else
      processLive rt settings (gonePart s.view byPairId) (livePart s.view byPairId)) s _ s
  rw [hlive, if_neg Bool.false_ne_true, processLive]
  refine .ask backend isolated ?_
  have hquoted : (isolated.answer (.getQuotes (messageByCanonical (livePart s.view byPairId)).keys)
      s.env).1 = some quotes := h.quoted
  rw [hquoted]
  exact .ask backend isolated (.here _ s)

/-- A batch that gets to its loop is the loop and what follows it. -/
theorem runTx_processBatch_eq {byPairId : Dict Uuid Message} {quotes : Dict String Quote}
    (h : Observes rt s.view s.env.quotes messages byPairId quotes) :
    runTx (processBatch rt settings messages) s
      = thenRun backend isolated
          (runTx (batchLoop rt settings s.view byPairId quotes s.env.clock) s)
          (commitAndDelete (gonePart s.view byPairId)) :=
  (uncommitted_batchLoop h).run_eq.trans (runTx_bind _ _ s)

/-- The end of a batch whose loop returned. -/
theorem runTx_commitAndDelete (gone toDelete : List Message) (s : State) :
    runTx (commitAndDelete gone toDelete) s
      = (.ok (), { s with
          committed := s.view
          env := { s.env with deleted := s.env.deleted ++ (gone ++ toDelete) } }) :=
  runTx_deleteBatch (gone ++ toDelete) { s with committed := s.view }

/-- It commits what the loop leaves, or raises what the loop raises and commits
    nothing. -/
theorem runTx_processBatch_of_observes {byPairId : Dict Uuid Message}
    {quotes : Dict String Quote}
    (h : Observes rt s.view s.env.quotes messages byPairId quotes) :
    match runTx (batchLoop rt settings s.view byPairId quotes s.env.clock) s with
    | (.ok _, s') => (runTx (processBatch rt settings messages) s).1 = .ok ()
        ∧ (runTx (processBatch rt settings messages) s).2.committed = s'.view
    | (.error e, _) => (runTx (processBatch rt settings messages) s).1 = .error e
        ∧ (runTx (processBatch rt settings messages) s).2.committed = s.committed := by
  have hframe : (runTx (batchLoop rt settings s.view byPairId quotes s.env.clock) s).2.committed
      = s.committed :=
    ((@observeAll_local rt settings (pairByCanonical (livePart s.view byPairId)) quotes
      s.env.clock (messageByCanonical (livePart s.view byPairId))).run_frame
        backend isolated s).1
  rw [runTx_processBatch_eq h]
  cases hrun : runTx (batchLoop rt settings s.view byPairId quotes s.env.clock) s with
  | mk r s' =>
      cases r with
      | error e =>
          rw [hrun] at hframe
          exact ⟨rfl, hframe⟩
      | ok toDelete =>
          show (runTx (commitAndDelete _ toDelete) s').1 = _
            ∧ (runTx (commitAndDelete _ toDelete) s').2.committed = _
          rw [runTx_commitAndDelete]
          exact ⟨rfl, rfl⟩

/-- The inversion for a batch that returned after its loop. -/
theorem processBatch_ok_inv {byPairId : Dict Uuid Message} {quotes : Dict String Quote}
    (hobserves : Observes rt s.view s.env.quotes messages byPairId quotes) {s' : State}
    (h : runTx (processBatch rt settings messages) s = (.ok (), s')) :
    ∃ toDelete s₁, runTx (batchLoop rt settings s.view byPairId quotes s.env.clock) s
        = (.ok toDelete, s₁)
      ∧ s' = { s₁ with
          committed := s₁.view
          env := { s.env with
            deleted := s.env.deleted ++ (gonePart s.view byPairId ++ toDelete) } } := by
  have hlocal : Local (batchLoop rt settings s.view byPairId quotes s.env.clock) :=
    observeAll_local _ _ _ _
  have henv := (hlocal.run_frame backend isolated s).2
  rw [runTx_processBatch_eq hobserves] at h
  cases hrun : runTx (batchLoop rt settings s.view byPairId quotes s.env.clock) s with
  | mk r s₁ =>
      rw [hrun] at h
      rw [show run backend isolated _ s = (r, s₁) from hrun] at henv
      cases r with
      | error e => cases (Prod.mk.inj h).1
      | ok toDelete =>
          have hend : runTx (commitAndDelete (gonePart s.view byPairId) toDelete) s₁
              = (.ok (), s') := h
          rw [runTx_commitAndDelete, henv] at hend
          exact ⟨toDelete, s₁, rfl, (Prod.mk.inj hend).2.symm⟩

/-- A batch that does not get to its loop raises at a body it cannot read, or deletes
    the messages whose pair is gone. -/
theorem runTx_processBatch_idle
    (h : ∀ byPairId quotes, ¬ Observes rt s.view s.env.quotes messages byPairId quotes) :
    runTx (processBatch rt settings messages) s
      = match collectMessages rt messages [] with
        | .ok byPairId => (.ok (), { s with env := { s.env with
            deleted := s.env.deleted ++ gonePart s.view byPairId } })
        | .error e => (.error e, s) := by
  rw [processBatch]
  cases hc : collectMessages rt messages [] with
  | error e => rfl
  | ok byPairId =>
      show runTx (if byPairId.isEmpty then pure () else _) s = _
      split
      · rename_i hempty
        rw [List.isEmpty_iff.mp hempty]
        show _ = (Except.ok (), { s with env := { s.env with deleted := s.env.deleted ++ [] } })
        rw [List.append_nil]
        rfl
      · show runTx (if (livePart s.view byPairId).isEmpty then _ else _) s = _
        split
        · exact runTx_deleteBatch _ s
        · rename_i hlive
          show runTx (processLive rt settings (gonePart s.view byPairId)
            (livePart s.view byPairId)) s = _
          rw [processLive, runTx_ask_bind]
          cases hq : (isolated.answer
              (.getQuotes (messageByCanonical (livePart s.view byPairId)).keys) s.env).1 with
          | none => exact runTx_deleteBatch _ s
          | some quotes =>
              refine absurd ⟨hc, ?_, hq⟩ (h byPairId quotes)
              intro hnil
              exact hlive (by rw [hnil]; rfl)

theorem runTx_processBatch_of_not_observes
    (h : ∀ byPairId quotes, ¬ Observes rt s.view s.env.quotes messages byPairId quotes) :
    (runTx (processBatch rt settings messages) s).2.committed = s.committed := by
  rw [runTx_processBatch_idle h]
  cases collectMessages rt messages [] with
  | ok byPairId => rfl
  | error e => rfl

/-- The sequencing rule for a whole batch: what holds before it whatever leaves
    the process, and all along its loop, holds up to its commit. -/
theorem keeps_processBatch {J : State → Prop} (hJ : ∀ env, J { s with env })
    (hloop : ∀ byPairId quotes, Observes rt s.view s.env.quotes messages byPairId quotes →
      Keeps backend isolated J (batchLoop rt settings s.view byPairId quotes s.env.clock >>=
        commitAndDelete (gonePart s.view byPairId)) s) :
    Keeps backend isolated J (processBatch rt settings messages) s := by
  have hdelete : ∀ ms, Keeps backend isolated J (deleteBatch ms) s := by
    intro ms
    rw [deleteBatch]
    split
    · exact Keeps.done (hJ s.env)
    · exact Keeps.step (hJ s.env) (Keeps.done (hJ _))
  rw [processBatch]
  cases hc : collectMessages rt messages [] with
  | error e => exact Keeps.fail (hJ s.env)
  | ok byPairId =>
      show Keeps backend isolated J (if byPairId.isEmpty then pure () else _) s
      split
      · exact Keeps.done (hJ s.env)
      · refine Keeps.query (hJ s.env) ?_
        show Keeps backend isolated J
          (if (livePart s.view byPairId).isEmpty then deleteBatch (gonePart s.view byPairId)
            else processLive rt settings (gonePart s.view byPairId) (livePart s.view byPairId)) s
        split
        · exact hdelete _
        next hlive =>
          rw [processLive]
          refine Keeps.ask (hJ s.env) ?_
          cases hq : (isolated.answer
              (.getQuotes (messageByCanonical (livePart s.view byPairId)).keys) s.env).1 with
          | none => exact hdelete _
          | some quotes =>
              refine Keeps.ask (hJ s.env) ?_
              exact hloop byPairId quotes
                ⟨hc, fun hnil => hlive (by rw [hnil]; rfl), hq⟩

end Batch

/-! ## The commands of a batch -/

/-- What a batch can do at most: it installs no index, and of the rules it changes
    nothing but `last_fired_at`. -/
def batchCommand : ∀ β : Type, Cmd Database Write Generated MemOp ExtOp β → Prop
  | _, .mem (.install _ _) => False
  | _, .write (.addPriceHistory _) => True
  | _, .write (.setPairObservation _ _ _ _ _) => True
  | _, .write (.addOutboxEvent _ _) => True
  | _, .write (.setRuleLastFiredAt _ _) => True
  | _, .write _ => False
  | _, .insert (.addNotification _) => True
  | _, .insert _ => False
  | _, _ => True

theorem batchCommand_of_isQuery {β : Type} {cmd : Cmd Database Write Generated MemOp ExtOp β}
    (h : cmd.isQuery = true) : batchCommand β cmd := by
  obtain ⟨q, rfl⟩ := Cmd.eq_query_of_isQuery h
  trivial

theorem batchCommand_of_firingCommand {pairId ruleId : Uuid} {t : Instant} {β : Type}
    {cmd : Cmd Database Write Generated MemOp ExtOp β}
    (h : firingCommand pairId ruleId t β cmd) : batchCommand β cmd := by
  cases cmd with
  | query q => exact trivial
  | write w => cases w <;> first | exact trivial | exact h.elim
  | insert w => cases w <;> first | exact trivial | exact h.elim
  | commit => exact trivial
  | mem m => cases m <;> first | exact trivial | exact h.elim
  | ask e => exact trivial

/-- A batch takes no notification away. -/
theorem notifications_of_batchCommand {β : Type}
    {cmd : Cmd Database Write Generated MemOp ExtOp β} (h : batchCommand β cmd) (s : State)
    {n : Notification} (hn : n ∈ s.view.notifications) :
    n ∈ (exec backend isolated cmd s).2.view.notifications := by
  cases cmd with
  | query q => exact hn
  | write w => cases w <;> first | exact hn | exact h.elim
  | insert w =>
      cases w <;> first | exact h.elim | skip
      simp only [exec]
      split
      · exact hn
      · exact List.mem_append_left _ hn
  | commit => exact hn
  | mem m => exact hn
  | ask e => exact hn

section Commands

variable (rt : Runtime) (settings : Settings)

theorem evaluateRulesForPair_commands (pair : Pair) (obs : Observation) :
    (evaluateRulesForPair rt settings pair obs).Sat batchCommand (fun _ => True) := by
  refine ⟨trivial, ?_⟩
  rintro ⟨generation, b⟩
  have hselect : (selectCandidates rt settings pair obs b).Sat batchCommand (fun _ => True) :=
    (selectCandidates_reads rt settings pair obs b).mono (fun _ _ => batchCommand_of_isQuery)
      (fun _ h => h)
  exact hselect.bind (fun c _ => (fireRules_commands rt pair obs generation c c.rules).mono
    (fun _ _ ⟨_, _, h⟩ => batchCommand_of_firingCommand h) (fun _ h => h))

theorem observePair_commands (pair : Pair) (quote : Quote) (observedAt : Instant) :
    (observePair rt settings pair quote observedAt).Sat batchCommand (fun _ => True) :=
  ⟨trivial, fun _ => ⟨trivial, fun _ =>
    (evaluateRulesForPair_commands rt settings pair _).bind (fun _ _ => trivial)⟩⟩

theorem observeAll_commands (pairs : Dict String Pair) (quotes : Dict String Quote)
    (observedAt : Instant) (entries : List (String × Message)) :
    (observeAll rt settings pairs quotes observedAt entries).Sat batchCommand
      (fun _ => True) :=
  (observeAll_sat (fun pair quote => observePair_commands rt settings pair quote observedAt)
    pairs quotes entries).mono (fun _ _ h => h) (fun _ _ => trivial)

theorem deleteBatch_commands (messages : List Message) :
    (deleteBatch messages).Sat batchCommand (fun _ => True) := by
  rw [deleteBatch]
  split
  · exact trivial
  · exact ⟨trivial, fun _ => trivial⟩

/-- A batch stays within `batchCommand` on every path, its error paths included. -/
theorem processBatch_commands (messages : List Message) :
    (processBatch rt settings messages).Sat batchCommand (fun _ => True) := by
  refine Script.Sat.bind (Q := fun _ => True) (Script.Sat.lift (fun _ _ => trivial))
    (fun byPairId _ => ?_)
  split
  · exact trivial
  · refine ⟨trivial, fun rows => ?_⟩
    show (if (liveEntries byPairId (pairsById rows)).isEmpty then deleteBatch _
      else processLive rt settings _ _).Sat batchCommand (fun _ => True)
    split
    · exact deleteBatch_commands _
    · refine ⟨trivial, fun quotes => ?_⟩
      cases quotes with
      | none => exact deleteBatch_commands _
      | some quotes =>
          exact ⟨trivial, fun observedAt =>
            (observeAll_commands rt settings _ quotes observedAt _).bind
              (fun toDelete _ => ⟨trivial, fun _ => deleteBatch_commands _⟩)⟩

end Commands

end Dropwatch.Poller
