import Dropwatch.PollerProofs
import Dropwatch.RulesApi

/-! # A batch that fails — what a rollback does not undo

    The firing loop advances `last_fired_at` on the rule objects of the index
    while the batch is still uncommitted.  A rollback takes the tables back and
    leaves the objects as they are.

    The loop is a fold over the stages it gets through (`stagesIn`,
    `afterStages`), and each recorded candidate leaves the time of the batch on
    its rule object (`fired_afterStages`).  So the memory of a failed batch is
    what it was exactly when every candidate that gets recorded carried that time
    already.  What such a batch would have delivered belongs to rules without a
    cooldown, and a redelivery delivers it exactly when it detects them again;
    `cooldownIntact_iff` is the equivalence with both. -/

namespace Dropwatch.Poller

open Transact RuleIndex Evaluator Zscore

/-! ## Advancing `last_fired_at` -/

section Fire

variable {rt : Runtime} {pair : Pair} {obs : Observation} {generation : Nat}
  {c : Candidates rt}

/-- A rule object that carries the time of the batch keeps it. -/
theorem lastFiredAt_fireOne {s : State} {ruleId : Uuid} (rule : AlertRule)
    (h : s.mem.lastFiredAt generation ruleId = some obs.observedAt) :
    (fireOne rt pair obs generation c s rule).2.mem.lastFiredAt generation ruleId
      = some obs.observedAt := by
  cases hrec : recordable rt pair obs s.view rule with
  | false =>
      simp only [fireOne, hrec, Bool.false_eq_true, if_false]
      exact h
  | true =>
      simp only [fireOne, hrec, if_true]
      show (if generation = generation ∧ ruleId = rule.id then some obs.observedAt
        else s.mem.lastFiredAt generation ruleId) = _
      split
      · rfl
      · exact h

theorem lastFiredAt_fireAll {rules : List AlertRule} {s : State} {ruleId : Uuid}
    (h : s.mem.lastFiredAt generation ruleId = some obs.observedAt) :
    (fireAll rt pair obs generation c rules s).2.mem.lastFiredAt generation ruleId
      = some obs.observedAt := by
  induction rules generalizing s with
  | nil => exact h
  | cons rule rest ih => exact ih (lastFiredAt_fireOne rule h)

/-- A key that the loop stored belongs to a candidate whose rule object now
    carries the time of the batch. -/
theorem fired_fireAll {rules : List AlertRule} {s : State} {key : String}
    (hbefore : s.view.notificationWithKey key = none)
    (hafter : (fireAll rt pair obs generation c rules s).2.view.notificationWithKey key ≠ none) :
    ∃ rule ∈ rules, keyOf rt pair obs rule = key
      ∧ (fireAll rt pair obs generation c rules s).2.mem.lastFiredAt generation rule.id
          = some obs.observedAt := by
  induction rules generalizing s with
  | nil => exact absurd hbefore hafter
  | cons head rest ih =>
      cases hmid : (fireOne rt pair obs generation c s head).2.view.notificationWithKey key with
      | none =>
          obtain ⟨rule, hr, hkey, hmem⟩ := ih hmid hafter
          exact ⟨rule, List.mem_cons_of_mem _ hr, hkey, hmem⟩
      | some id =>
          -- The head stored it, so the head was recorded under it.
          cases hrec : recordable rt pair obs s.view head with
          | false =>
              simp only [fireOne, hrec, Bool.false_eq_true, if_false] at hmid
              rw [hbefore] at hmid
              cases hmid
          | true =>
              have hone : (fireOne rt pair obs generation c s head).2.mem.lastFiredAt
                  generation head.id = some obs.observedAt := by
                simp only [fireOne, hrec, if_true]
                exact if_pos ⟨rfl, rfl⟩
              have hrest : (fireAll rt pair obs generation c rest
                  (fireOne rt pair obs generation c s head).2).2.mem.lastFiredAt generation
                    head.id = some obs.observedAt := lastFiredAt_fireAll hone
              refine ⟨head, List.mem_cons_self, ?_, hrest⟩
              simp only [fireOne, hrec, if_true] at hmid
              by_contra hne
              rw [(recordOne_key rt s head key).mpr ⟨hbefore, hne⟩] at hmid
              cases hmid

end Fire

/-- What stops being recordable has had its key stored. -/
theorem stored_of_settled {rt : Runtime} {pair : Pair} {obs : Observation} {rule : AlertRule}
    {db db' : Database} (h : Grows db db') (hbefore : recordable rt pair obs db rule = true)
    (hafter : recordable rt pair obs db' rule = false) :
    db.notificationWithKey (keyOf rt pair obs rule) = none
      ∧ db'.notificationWithKey (keyOf rt pair obs rule) ≠ none := by
  rw [recordable, Bool.and_eq_true, Bool.and_eq_true, Option.isNone_iff_eq_none] at hbefore
  obtain ⟨⟨hkey, hrule⟩, hpair⟩ := hbefore
  refine ⟨hkey, ?_⟩
  intro hnone
  rw [recordable, h.rules, h.anyPair, hnone, hrule, hpair] at hafter
  cases hafter

/-! ## The stages of a loop -/

/-- A quoted pair with the candidates selected for it. -/
structure Stage (rt : Runtime) where
  pair : Pair
  quote : Quote
  candidates : Candidates rt

section Stages

variable (rt : Runtime) (settings : Settings)

/-- The stages a loop gets through, over the tables and the index it starts
    with: up to the first pair whose candidate stage raises. -/
def stagesIn (db : Database) (m : Memory) (pairs : Dict String Pair)
    (quotes : Dict String Quote) (t : Instant) : List (String × Message) → List (Stage rt)
  | [] => []
  | (name, _) :: rest =>
      match quotes.get? name with
      | none => stagesIn db m pairs quotes t rest
      | some quote =>
          match pairs.get? name with
          | none => []
          | some pair =>
              match candidatesIn rt settings (observed db pair quote t) pair
                (quoteObservation quote t) (m.rulesForPair pair.id) with
              | .error _ => []
              | .ok c => ⟨pair, quote, c⟩ :: stagesIn db m pairs quotes t rest

/-- The store after a stage. -/
def afterStage (t : Instant) (s : State) (x : Stage rt) : State :=
  (fireAll rt x.pair (quoteObservation x.quote t) s.mem.generation x.candidates
    x.candidates.rules { s with view := observed s.view x.pair x.quote t }).2

/-- The store after all stages. -/
def afterStages (t : Instant) : List (Stage rt) → State → State
  | [], s => s
  | x :: rest, s => afterStages t rest (afterStage rt t s x)

variable {rt settings} {pairs : Dict String Pair} {quotes : Dict String Quote} {t : Instant}

theorem afterStage_frame (s : State) (x : Stage rt) :
    (afterStage rt t s x).view.priceHistory = (observed s.view x.pair x.quote t).priceHistory
      ∧ (afterStage rt t s x).mem.buckets = s.mem.buckets
      ∧ (afterStage rt t s x).mem.generation = s.mem.generation := by
  obtain ⟨hhistory, hbuckets, hgeneration, -, -⟩ :=
    fireAll_frame rt x.pair (quoteObservation x.quote t) s.mem.generation x.candidates
      x.candidates.rules { s with view := observed s.view x.pair x.quote t }
  exact ⟨hhistory, hbuckets, hgeneration⟩

theorem rulesForPair_afterStage (s : State) (x : Stage rt) (pairId : Uuid) :
    (afterStage rt t s x).mem.rulesForPair pairId = s.mem.rulesForPair pairId := by
  rw [Memory.rulesForPair, (afterStage_frame s x).2.1]
  rfl

theorem grows_afterStage (s : State) (x : Stage rt) :
    Grows s.view (afterStage rt t s x).view :=
  (grows_observed s.view x.pair x.quote t).trans
    (grows_fireAll rt x.pair (quoteObservation x.quote t) s.mem.generation x.candidates
      x.candidates.rules { s with view := observed s.view x.pair x.quote t })

theorem grows_afterStages (xs : List (Stage rt)) (s : State) :
    Grows s.view (afterStages rt t xs s).view := by
  induction xs generalizing s with
  | nil => exact Grows.refl s.view
  | cons x rest ih => exact (grows_afterStage s x).trans (ih _)

theorem lastFiredAt_afterStages {xs : List (Stage rt)} {s : State} {ruleId : Uuid}
    (h : s.mem.lastFiredAt s.mem.generation ruleId = some t) :
    (afterStages rt t xs s).mem.lastFiredAt s.mem.generation ruleId = some t := by
  induction xs generalizing s with
  | nil => exact h
  | cons x rest ih =>
      have hgeneration := (afterStage_frame (t := t) s x).2.2
      have hone : (afterStage rt t s x).mem.lastFiredAt s.mem.generation ruleId
          = some (quoteObservation x.quote t).observedAt := lastFiredAt_fireAll h
      rw [← hgeneration] at hone ⊢
      exact ih hone

/-- A key that the stages stored belongs to a candidate whose rule object now
    carries the time of the batch. -/
theorem fired_afterStages {xs : List (Stage rt)} {s : State} {key : String}
    (hbefore : s.view.notificationWithKey key = none)
    (hafter : (afterStages rt t xs s).view.notificationWithKey key ≠ none) :
    ∃ x ∈ xs, ∃ rule ∈ x.candidates.rules,
      keyOf rt x.pair (quoteObservation x.quote t) rule = key
        ∧ (afterStages rt t xs s).mem.lastFiredAt s.mem.generation rule.id = some t := by
  induction xs generalizing s with
  | nil => exact absurd hbefore hafter
  | cons x rest ih =>
      have hgeneration := (afterStage_frame (t := t) s x).2.2
      cases hmid : (afterStage rt t s x).view.notificationWithKey key with
      | none =>
          obtain ⟨y, hy, rule, hr, hkey, hmem⟩ := ih hmid hafter
          rw [hgeneration] at hmem
          exact ⟨y, List.mem_cons_of_mem _ hy, rule, hr, hkey, hmem⟩
      | some id =>
          have hstored : (afterStage rt t s x).view.notificationWithKey key ≠ none := by
            rw [hmid]
            exact Option.some_ne_none id
          obtain ⟨rule, hr, hkey, hmem⟩ : ∃ rule ∈ x.candidates.rules,
              keyOf rt x.pair (quoteObservation x.quote t) rule = key
                ∧ (afterStage rt t s x).mem.lastFiredAt s.mem.generation rule.id = some t :=
            fired_fireAll hbefore hstored
          refine ⟨x, List.mem_cons_self, rule, hr, hkey, ?_⟩
          rw [← hgeneration] at hmem ⊢
          exact lastFiredAt_afterStages hmem

/-- After the stages no candidate of theirs is recordable. -/
theorem settled_afterStages {xs : List (Stage rt)} {s : State} :
    ∀ x ∈ xs, ∀ rule ∈ x.candidates.rules,
      recordable rt x.pair (quoteObservation x.quote t) (afterStages rt t xs s).view rule
        = false := by
  induction xs generalizing s with
  | nil => exact fun x hx => absurd hx List.not_mem_nil
  | cons head rest ih =>
      intro x hx rule hr
      rcases List.mem_cons.mp hx with heq | hmem
      · rw [heq] at hr ⊢
        have hhead : recordable rt head.pair (quoteObservation head.quote t)
            (afterStage rt t s head).view rule = false := settled_fireAll hr
        rw [← Bool.not_eq_true] at hhead ⊢
        exact fun hlater => hhead ((grows_afterStages rest _).recordable hlater)
      · exact ih x hmem rule hr

/-- Every candidate that was recordable has its key stored, by a candidate whose
    rule object now carries the time of the batch. -/
theorem advanced_afterStages {xs : List (Stage rt)} {s : State} {x : Stage rt}
    (hx : x ∈ xs) {rule : AlertRule} (hr : rule ∈ x.candidates.rules)
    (hrec : recordable rt x.pair (quoteObservation x.quote t) s.view rule = true) :
    ∃ y ∈ xs, ∃ rule' ∈ y.candidates.rules,
      keyOf rt y.pair (quoteObservation y.quote t) rule'
          = keyOf rt x.pair (quoteObservation x.quote t) rule
        ∧ (afterStages rt t xs s).mem.lastFiredAt s.mem.generation rule'.id = some t := by
  obtain ⟨hbefore, hafter⟩ :=
    stored_of_settled (grows_afterStages xs s) hrec (settled_afterStages x hx rule hr)
  exact fired_afterStages hbefore hafter

/-- A notification after the stages was there before, or is of a candidate that was
    recordable. -/
theorem origin_afterStages {xs : List (Stage rt)} {s : State} {n : Notification}
    (hn : n ∈ (afterStages rt t xs s).view.notifications) :
    n ∈ s.view.notifications
      ∨ ∃ x ∈ xs, ∃ rule ∈ x.candidates.rules,
          recordable rt x.pair (quoteObservation x.quote t) s.view rule = true
            ∧ ∃ s₃, n = (recordedAs rt x.pair (quoteObservation x.quote t) s.mem.generation s₃
                rule).row (nextGenerated s₃) := by
  induction xs generalizing s with
  | nil => exact Or.inl hn
  | cons x rest ih =>
      rcases ih hn with hone | ⟨y, hy, rule, hr, hrec, hform⟩
      · rcases origin_fireAll hone with hold | ⟨rule, hr, hrec, hform⟩
        · exact Or.inl hold
        · exact Or.inr ⟨x, List.mem_cons_self, rule, hr,
            (grows_observed s.view x.pair x.quote t).recordable hrec, hform⟩
      · rw [(afterStage_frame (t := t) s x).2.2] at hform
        exact Or.inr ⟨y, List.mem_cons_of_mem _ hy, rule, hr,
          (grows_afterStage s x).recordable hrec, hform⟩

/-- A stage of another pair changes nothing for the later ones. -/
theorem stagesIn_afterStage (s : State) (x : Stage rt) {entries : List (String × Message)}
    (hne : ∀ e ∈ entries, ∀ p, pairs.get? e.1 = some p → x.pair.id ≠ p.id) :
    stagesIn rt settings (afterStage rt t s x).view (afterStage rt t s x).mem pairs quotes t
        entries
      = stagesIn rt settings s.view s.mem pairs quotes t entries := by
  induction entries with
  | nil => rfl
  | cons e rest ih =>
      obtain ⟨name, message⟩ := e
      have hrest := ih (fun e he => hne e (List.mem_cons_of_mem _ he))
      rw [stagesIn, stagesIn, hrest]
      cases hq : quotes.get? name with
      | none => rfl
      | some quote' =>
          cases hp : pairs.get? name with
          | none => rfl
          | some pair' =>
              have hpair := hne (name, message) List.mem_cons_self pair' hp
              have hcandidates := @candidatesIn_congr rt settings _ _ pair'
                (quoteObservation quote' t) (s.mem.rulesForPair pair'.id)
                (@historyDesc_observed_observed _ _ _ pair' _ quote' t hpair
                  (afterStage_frame s x).1)
              simp only [rulesForPair_afterStage, hcandidates]

/-- A loop, returned or not, leaves the memory and the notifications its stages leave. -/
theorem after_observeAll {entries : List (String × Message)} {s : State}
    (hm : s.mem.Indexed) (hd : DistinctPairs pairs entries) :
    let s' := (runTx (observeAll rt settings pairs quotes t entries) s).2
    let stages := stagesIn rt settings s.view s.mem pairs quotes t entries
    s'.mem = (afterStages rt t stages s).mem
      ∧ s'.view.notifications = (afterStages rt t stages s).view.notifications := by
  induction entries generalizing s with
  | nil => exact ⟨rfl, rfl⟩
  | cons e rest ih =>
      obtain ⟨name, message⟩ := e
      obtain ⟨hhead, hrest⟩ := List.pairwise_cons.mp hd
      simp only [observeAll, stagesIn]
      cases hq : quotes.get? name with
      | none => exact ih hm hrest
      | some quote =>
          cases hp : pairs.get? name with
          | none => exact ⟨rfl, rfl⟩
          | some pair =>
              simp only []
              rw [runTx_bind, runTx_observePair rt settings hm]
              cases hc : candidatesIn rt settings (observed s.view pair quote t) pair
                  (quoteObservation quote t) (s.mem.rulesForPair pair.id) with
              | error e => exact ⟨rfl, rfl⟩
              | ok c =>
                  have hindexed : (afterStage rt t s ⟨pair, quote, c⟩).mem.Indexed := by
                    intro pairId
                    rw [rulesForPair_afterStage]
                    exact hm pairId
                  have hloop := ih hindexed hrest
                  simp only [stagesIn_afterStage s ⟨pair, quote, c⟩
                    (fun e he p hp' => hhead e he pair p hp hp')] at hloop
                  show (runTx (observeAll rt settings pairs quotes t rest >>= _)
                      (afterStage rt t s ⟨pair, quote, c⟩)).2.mem = _
                    ∧ (runTx (observeAll rt settings pairs quotes t rest >>= _)
                      (afterStage rt t s ⟨pair, quote, c⟩)).2.view.notifications = _
                  rw [runTx_bind]
                  cases hrun : runTx (observeAll rt settings pairs quotes t rest)
                      (afterStage rt t s ⟨pair, quote, c⟩) with
                  | mk r s' =>
                      rw [hrun] at hloop
                      cases r with
                      | error e => exact hloop
                      | ok toDelete => exact hloop

end Stages

/-! ## A loop that changes no memory -/

/-- Writing the value that is there. -/
theorem setLastFiredAt_self {m : Memory} {generation : Nat} {ruleId : Uuid} {t : Instant}
    (h : m.lastFiredAt generation ruleId = some t) :
    m.setLastFiredAt generation ruleId t = m := by
  have hfun : (fun g r => if g = generation ∧ r = ruleId then some t else m.lastFiredAt g r)
      = m.lastFiredAt := by
    funext g r
    split
    · next heq => rw [heq.1, heq.2, h]
    · rfl
  show { m with lastFiredAt := _ } = m
  rw [hfun]

/-- Rule objects as before the batch, and what is pending and new belongs to rules
    that no cooldown can suppress. -/
structure Intact (s₀ s : State) : Prop where
  mem : s.mem = s₀.mem
  pending : ∀ n ∈ s.view.notifications, n ∈ s₀.view.notifications
    ∨ (n.status = .pending → ∃ pairId, ∃ rule ∈ (s₀.mem.rulesForPair pairId).all,
        rule.id = n.ruleId ∧ rule.cooldownSeconds ≤ 0)

theorem Intact.refl (s : State) : Intact s s where
  mem := rfl
  pending := fun _ hn => Or.inl hn

/-- Writes to the other tables do not count. -/
theorem Intact.of_eq {s₀ s s' : State} (h : Intact s₀ s) (hmem : s'.mem = s.mem)
    (hn : s'.view.notifications = s.view.notifications) : Intact s₀ s' where
  mem := hmem.trans h.mem
  pending := by
    rw [hn]
    exact h.pending

/-- A rule last fired at this very instant is suppressed, unless it has no
    cooldown. -/
theorem cooldown_of_not_suppressed {s : State} {obs : Observation} {generation : Nat}
    {rule : AlertRule} (h : s.mem.lastFiredAt generation rule.id = some obs.observedAt)
    (hs : suppressedBy obs generation s.mem rule = false) : rule.cooldownSeconds ≤ 0 := by
  by_contra hpos
  have hlt : obs.observedAt - obs.observedAt < seconds rule.cooldownSeconds := by
    rw [Int.sub_self]
    show 0 < rule.cooldownSeconds * 1000000
    omega
  rw [suppressedBy, h] at hs
  simp only [inCooldown, if_neg hpos, hlt, decide_true] at hs
  cases hs

section Keep

variable {rt : Runtime} {settings : Settings} {pair : Pair} {obs : Observation}
  {c : Candidates rt} {s₀ s : State}

/-- The insert of a candidate whose object carries the time of the batch. -/
theorem Intact.addNotification {rule : AlertRule} (h : Intact s₀ s)
    (hr : rule ∈ (s₀.mem.rulesForPair pair.id).all)
    (hfired : s₀.mem.lastFiredAt s₀.mem.generation rule.id = some obs.observedAt) :
    Intact s₀ { s with
      view := s.view.apply (nextGenerated s)
        (.addNotification (recordedAs rt pair obs s₀.mem.generation s rule)) } where
  mem := h.mem
  pending := by
    intro n hn
    rcases List.mem_append.mp hn with hold | hnew
    · exact h.pending n hold
    · refine Or.inr ?_
      rw [List.mem_singleton.mp hnew]
      intro hpending
      refine ⟨pair.id, rule, hr, rfl, ?_⟩
      refine @cooldown_of_not_suppressed s obs s₀.mem.generation rule ?_ ?_
      · rw [h.mem]
        exact hfired
      · cases hs : suppressedBy obs s₀.mem.generation s.mem rule with
        | false => rfl
        | true =>
            simp [NewNotification.row, recordedAs, newNotification, hs] at hpending

theorem keeps_finishFire {rule : AlertRule} {suppressed : Bool} {n : NewNotification}
    {g : Generated} (h : Intact s₀ s)
    (hfired : s₀.mem.lastFiredAt s₀.mem.generation rule.id = some obs.observedAt) :
    Keeps backend isolated (Intact s₀)
      (finishFire rt pair obs s₀.mem.generation c rule suppressed n g) s := by
  -- The object is written with the value it has.
  have hlast : ∀ u : State, Intact s₀ u → Keeps backend isolated (Intact s₀)
      (.step (.mem (.setLastFiredAt s₀.mem.generation rule.id obs.observedAt)) fun _ =>
        .step (.write (.setRuleLastFiredAt rule.id obs.observedAt)) fun _ =>
          .done (some (flushed g n)) : Tx (Option Notification)) u := by
    intro u hu
    have hself : u.mem.setLastFiredAt s₀.mem.generation rule.id obs.observedAt = u.mem := by
      refine setLastFiredAt_self ?_
      rw [hu.mem]
      exact hfired
    refine Keeps.step hu (Keeps.step (hu.of_eq hself rfl) (Keeps.done ?_))
    exact hu.of_eq hself rfl
  cases suppressed with
  | true => exact hlast s h
  | false =>
      show Keeps backend isolated (Intact s₀) (Tx.lift (formatMessage rt pair rule obs
        c.zscoreResult ((c.pastPriceByRuleId.get? rule.id).join)) >>= _ >>= _) s
      cases formatMessage rt pair rule obs c.zscoreResult
          ((c.pastPriceByRuleId.get? rule.id).join) with
      | error e => exact Keeps.fail h
      | ok message => exact Keeps.step h (hlast _ (h.of_eq rfl rfl))

theorem keeps_fireRule {rule : AlertRule} (h : Intact s₀ s)
    (hr : rule ∈ (s₀.mem.rulesForPair pair.id).all)
    (hfired : recordable rt pair obs s.view rule = true →
      s₀.mem.lastFiredAt s₀.mem.generation rule.id = some obs.observedAt) :
    Keeps backend isolated (Intact s₀) (fireRule rt pair obs s₀.mem.generation c rule) s := by
  rw [fireRule]
  refine Keeps.query h ?_
  cases hkey : s.view.notificationWithKey
      (stateKey rt pair.id rule obs.last obs.observedAt) with
  | some id => exact Keeps.done h
  | none =>
      refine Keeps.step h (Keeps.insert h ?_ ?_)
      · intro _
        exact Keeps.done h
      · intro hv
        have hviolates := @violates_addNotification s
          (recordedAs rt pair obs s₀.mem.generation s rule) hkey
        have hrec : recordable rt pair obs s.view rule = true := by
          have hfree : s.view.notificationWithKey (keyOf rt pair obs rule) = none := hkey
          rw [recordable, hfree, Option.isNone_none, Bool.true_and]
          have hnot := hviolates.symm.trans hv
          rwa [Bool.not_eq_false'] at hnot
        have hfired' := hfired hrec
        exact keeps_finishFire (h.addNotification hr hfired') hfired'

theorem keeps_fireRules {rules : List AlertRule} (h : Intact s₀ s)
    (hr : ∀ rule ∈ rules, rule ∈ (s₀.mem.rulesForPair pair.id).all)
    (hm : ∀ rule ∈ rules, Messageable rt pair obs c rule)
    (hfired : ∀ rule ∈ rules, recordable rt pair obs s.view rule = true →
      s₀.mem.lastFiredAt s₀.mem.generation rule.id = some obs.observedAt) :
    Keeps backend isolated (Intact s₀) (fireRules rt pair obs s₀.mem.generation c rules) s := by
  induction rules generalizing s with
  | nil => exact Keeps.done h
  | cons rule rest ih =>
      have hone := keeps_fireRule (c := c) h (hr rule List.mem_cons_self)
        (hfired rule List.mem_cons_self)
      have hrun := @runTx_fireRule rt pair obs s₀.mem.generation c s rule
        (hm rule List.mem_cons_self)
      have hafter := hone.of_run_ok (fireRule_local rt pair obs s₀.mem.generation c rule).quiet
        hrun
      refine hone.bind ?_
      intro a s' hs'
      rw [show run backend isolated _ s = _ from hrun] at hs'
      rw [← (Prod.mk.inj hs').2]
      have hrest := ih hafter (fun r h' => hr r (List.mem_cons_of_mem _ h'))
        (fun r h' => hm r (List.mem_cons_of_mem _ h'))
        (fun r h' hrec => hfired r (List.mem_cons_of_mem _ h')
          ((grows_fireOne rt pair obs s₀.mem.generation c s rule).recordable hrec))
      exact hrest.bind (fun _ u hu => Keeps.done (hrest.of_run_ok
        (fireRules_local rt pair obs s₀.mem.generation c rest).quiet hu))

/-- A pair whose candidates, as far as they get recorded, carry the time of the
    batch. -/
theorem keeps_evaluateRulesForPair (h : Intact s₀ s) (hm : s₀.mem.Indexed)
    (hfired : ∀ c, candidatesIn rt settings s.view pair obs (s₀.mem.rulesForPair pair.id)
        = .ok c → ∀ rule ∈ c.rules, recordable rt pair obs s.view rule = true →
          s₀.mem.lastFiredAt s₀.mem.generation rule.id = some obs.observedAt) :
    Keeps backend isolated (Intact s₀) (evaluateRulesForPair rt settings pair obs) s := by
  refine Keeps.step h ?_
  show Keeps backend isolated (Intact s₀)
    (selectCandidates rt settings pair obs (s.mem.rulesForPair pair.id) >>=
      fun c => fireRules rt pair obs s.mem.generation c c.rules) s
  rw [h.mem]
  refine Keeps.bind (Keeps.of_reads (selectCandidates_reads rt settings pair obs _) h) ?_
  intro c s' hselect
  have hrun := runTx_selectCandidates rt settings pair obs (s₀.mem.rulesForPair pair.id) s
  rw [show run backend isolated _ s = _ from hrun] at hselect
  obtain ⟨hc, hs'⟩ := Prod.mk.inj hselect
  rw [← hs']
  have hrules := (candidatesIn_ok rt settings hc).2.2.1
  refine keeps_fireRules h ?_ (messageable_of_candidate rt settings (hm pair.id) hc)
    (hfired c hc)
  intro rule hrule
  rw [hrules] at hrule
  exact selectedIn_subset rt settings hrule

theorem keeps_observePair {quote : Quote} {t : Instant} (h : Intact s₀ s)
    (hm : s₀.mem.Indexed)
    (hfired : ∀ c, candidatesIn rt settings (observed s.view pair quote t) pair
        (quoteObservation quote t) (s₀.mem.rulesForPair pair.id) = .ok c →
      ∀ rule ∈ c.rules, recordable rt pair (quoteObservation quote t) s.view rule = true →
        s₀.mem.lastFiredAt s₀.mem.generation rule.id = some t) :
    Keeps backend isolated (Intact s₀) (observePair rt settings pair quote t) s := by
  have hobserved : Intact s₀ { s with view := observed s.view pair quote t } :=
    h.of_eq rfl rfl
  have hevaluate : Keeps backend isolated (Intact s₀)
      (evaluateRulesForPair rt settings pair (quoteObservation quote t))
      { s with view := observed s.view pair quote t } :=
    keeps_evaluateRulesForPair hobserved hm (fun c hc rule hr hrec =>
      hfired c hc rule hr ((grows_observed s.view pair quote t).recordable hrec))
  refine Keeps.step h (Keeps.step (h.of_eq rfl rfl) (hevaluate.bind ?_))
  intro created s' hrun
  exact Keeps.done (hevaluate.of_run_ok
    (evaluateRulesForPair_local rt settings pair (quoteObservation quote t)).quiet hrun)

theorem keeps_observeAll {pairs : Dict String Pair} {quotes : Dict String Quote}
    {t : Instant} {entries : List (String × Message)} (h : Intact s₀ s)
    (hm : s₀.mem.Indexed) (hd : DistinctPairs pairs entries)
    (hfired : ∀ x ∈ stagesIn rt settings s.view s₀.mem pairs quotes t entries,
      ∀ rule ∈ x.candidates.rules,
        recordable rt x.pair (quoteObservation x.quote t) s.view rule = true →
          s₀.mem.lastFiredAt s₀.mem.generation rule.id = some t) :
    Keeps backend isolated (Intact s₀) (observeAll rt settings pairs quotes t entries) s := by
  induction entries generalizing s with
  | nil => exact Keeps.done h
  | cons e rest ih =>
      obtain ⟨name, message⟩ := e
      obtain ⟨hhead, hrest⟩ := List.pairwise_cons.mp hd
      rw [observeAll]
      rw [stagesIn] at hfired
      cases hq : quotes.get? name with
      | none =>
          rw [hq] at hfired
          exact ih h hrest hfired
      | some quote =>
          rw [hq] at hfired
          cases hp : pairs.get? name with
          | none => exact Keeps.fail h
          | some pair =>
              rw [hp] at hfired
              have hone : Keeps backend isolated (Intact s₀)
                  (observePair rt settings pair quote t) s := by
                refine keeps_observePair h hm ?_
                intro c hc
                simp only [hc] at hfired
                exact hfired ⟨pair, quote, c⟩ List.mem_cons_self
              refine hone.bind ?_
              intro u s' hrun
              have hs' : Intact s₀ s' :=
                hone.of_run_ok (observePair_local pair quote t).quiet hrun
              -- The pair returned, so its stage is the first one.
              obtain ⟨c, hobs⟩ := observePair_ok rt settings
                (show s.mem.Indexed by rw [h.mem]; exact hm) hrun
              have hafter : s' = afterStage rt t s ⟨pair, quote, c⟩ := hobs.fired
              have hselected := hobs.selected
              rw [h.mem] at hselected
              simp only [hselected] at hfired
              have hstages := @stagesIn_afterStage rt settings pairs quotes t s
                ⟨pair, quote, c⟩ rest (fun e he p hp' => hhead e he pair p hp hp')
              rw [← hafter, hs'.mem, h.mem] at hstages
              have hloop := ih hs' hrest (by
                rw [hstages]
                intro x hx rule hr hrec
                exact hfired x (List.mem_cons_of_mem _ hx) rule hr
                  (hobs.grows.recordable hrec))
              exact hloop.bind (fun toDelete u hu =>
                Keeps.done (hloop.of_run_ok (observeAll_local pairs quotes t rest).quiet hu))

end Keep

/-! ## Failed batches -/

section Failed

variable (rt : Runtime) (settings : Settings)

/-- The stages of a batch. -/
def batchStages (messages : List Message) (s : State) : List (Stage rt) :=
  match collectMessages rt messages [] with
  | .error _ => []
  | .ok byPairId =>
      match s.env.quotes (messageByCanonical (livePart s.view byPairId)).keys with
      | none => []
      | some quotes =>
          stagesIn rt settings s.view s.mem (pairByCanonical (livePart s.view byPairId)) quotes
            s.env.clock (messageByCanonical (livePart s.view byPairId))

/-- The store of a retry: the session of the failed attempt is gone, its rule
    objects are not, the clock has gone on and the quotes are the same. -/
def retryFrom (s s' : State) (t' : Instant) : State :=
  { s'.rollback with env := { s.env with clock := t' } }

/-- The attempt records a fire of the rule for delivery, somewhere on its way. -/
def WouldDeliver (messages : List Message) (s : State) (ruleId : Uuid) : Prop :=
  ∃ p' s', Uncommitted backend isolated (processBatch rt settings messages) s p' s'
    ∧ ∃ n ∈ s'.view.notifications, n ∉ s.view.notifications ∧ n.ruleId = ruleId
      ∧ n.status = .pending

/-- What a failure in `s'` of the attempt from `s` should leave behind.
    `memory`: the rule objects as they were.
    `retried`: every later retry records for delivery what the attempt would have.
    `delivered`: a retry that returns has committed it.
    `unsuppressed`: and nothing of those rules in any other way. -/
structure FailsSafely (messages : List Message) (s s' : State) : Prop where
  memory : ∀ pairId, ∀ rule ∈ (s.mem.rulesForPair pairId).all,
    s'.mem.lastFiredAt s.mem.generation rule.id = s.mem.lastFiredAt s.mem.generation rule.id
  retried : ∀ t', s.env.clock ≤ t' → ∀ ruleId, WouldDeliver rt settings messages s ruleId →
    WouldDeliver rt settings messages (retryFrom s s' t') ruleId
  delivered : ∀ t', s.env.clock ≤ t' →
    (runTx (processBatch rt settings messages) (retryFrom s s' t')).1 = .ok () →
      ∀ ruleId, WouldDeliver rt settings messages s ruleId →
        ∃ n ∈ (runTx (processBatch rt settings messages)
            (retryFrom s s' t')).2.committed.notifications,
          n ∉ s.committed.notifications ∧ n.ruleId = ruleId ∧ n.status = .pending
  unsuppressed : ∀ t', s.env.clock ≤ t' →
    ∀ n ∈ (runTx (processBatch rt settings messages) (retryFrom s s' t')).2.committed.notifications,
      n ∉ s.committed.notifications → WouldDeliver rt settings messages s n.ruleId →
        n.status = .pending

/-- Wherever the attempt can raise before its commit, it fails safely. -/
def CooldownIntact (messages : List Message) (s : State) : Prop :=
  ∀ p' s', Uncommitted backend isolated (processBatch rt settings messages) s p' s' →
    p'.mayRaise = true → FailsSafely rt settings messages s s'

/-- Every candidate of the batch that can be recorded has fired at the very time
    of the batch already. -/
def FiredAlready (messages : List Message) (s : State) : Prop :=
  ∀ x ∈ batchStages rt settings messages s, ∀ rule ∈ x.candidates.rules,
    recordable rt x.pair (quoteObservation x.quote s.env.clock) s.view rule = true →
      s.mem.lastFiredAt s.mem.generation rule.id = some s.env.clock

/-- A rule is a candidate of the batch that can be recorded. -/
def Detected (messages : List Message) (s : State) (ruleId : Uuid) : Prop :=
  ∃ x ∈ batchStages rt settings messages s, ∃ rule ∈ x.candidates.rules, rule.id = ruleId
    ∧ recordable rt x.pair (quoteObservation x.quote s.env.clock) s.view rule = true

/-- What the batch detects of the rules without a cooldown, every later batch over the
    same tables and quotes detects again. -/
def StillDetected (messages : List Message) (s : State) : Prop :=
  ∀ t', s.env.clock ≤ t' → ∀ pairId, ∀ rule ∈ (s.mem.rulesForPair pairId).all,
    rule.cooldownSeconds ≤ 0 → Detected rt settings messages s rule.id →
      Detected rt settings messages (retryFrom s s t') rule.id

/-- Different rules have different keys in the batch: no collision of `sha256`. -/
def KeysApart (t : Instant) (xs : List (Stage rt)) : Prop :=
  ∀ x ∈ xs, ∀ y ∈ xs, ∀ rule ∈ x.candidates.rules, ∀ rule' ∈ y.candidates.rules,
    keyOf rt x.pair (quoteObservation x.quote t) rule
      = keyOf rt y.pair (quoteObservation y.quote t) rule' → rule.id = rule'.id

/-- A rule id stands for one rule of the index. -/
def DistinctIds (m : Memory) : Prop :=
  ∀ pairId pairId' rule rule', rule ∈ (m.rulesForPair pairId).all →
    rule' ∈ (m.rulesForPair pairId').all → rule.id = rule'.id → rule = rule'

/-- Loaded rules with distinct ids are told apart by them. -/
theorem distinctIds_install {rules : List AlertRule} {buckets : Dict Uuid PairRules}
    (hid : (rules.map AlertRule.id).Nodup) (hb : bucketRules rules = .ok buckets)
    (m : Memory) : DistinctIds (m.install rules buckets) := by
  intro pairId pairId' rule rule' hr hr' heq
  exact List.inj_on_of_nodup_map hid (m.mem_install hb hr) (m.mem_install hb hr') heq

variable {rt settings} {messages : List Message} {s s' : State}

theorem batchStages_of_observes {byPairId : Dict Uuid Message} {quotes : Dict String Quote}
    (h : Observes rt s.view s.env.quotes messages byPairId quotes) :
    batchStages rt settings messages s
      = stagesIn rt settings s.view s.mem (pairByCanonical (livePart s.view byPairId)) quotes
          s.env.clock (messageByCanonical (livePart s.view byPairId)) := by
  simp only [batchStages, h.collected, h.quoted]

/-- A batch with a stage gets to its loop. -/
theorem observes_of_mem_batchStages {x : Stage rt}
    (hx : x ∈ batchStages rt settings messages s) :
    ∃ byPairId quotes, Observes rt s.view s.env.quotes messages byPairId quotes := by
  rw [batchStages] at hx
  cases hc : collectMessages rt messages [] with
  | error e =>
      rw [hc] at hx
      exact absurd hx List.not_mem_nil
  | ok byPairId =>
      simp only [hc] at hx
      cases hq : s.env.quotes (messageByCanonical (livePart s.view byPairId)).keys with
      | none =>
          rw [hq] at hx
          exact absurd hx List.not_mem_nil
      | some quotes =>
          refine ⟨byPairId, quotes, hc, ?_, hq⟩
          intro hnil
          rw [hq, hnil] at hx
          exact absurd hx List.not_mem_nil

/-- A stage of a loop belongs to a quoted entry. -/
theorem mem_stagesIn {db : Database} {m : Memory} {pairs : Dict String Pair}
    {quotes : Dict String Quote} {t : Instant} {entries : List (String × Message)}
    {x : Stage rt} (hx : x ∈ stagesIn rt settings db m pairs quotes t entries) :
    ∃ e ∈ entries, quotes.get? e.1 = some x.quote ∧ pairs.get? e.1 = some x.pair
      ∧ candidatesIn rt settings (observed db x.pair x.quote t) x.pair
          (quoteObservation x.quote t) (m.rulesForPair x.pair.id) = .ok x.candidates := by
  induction entries with
  | nil => exact absurd hx List.not_mem_nil
  | cons e rest ih =>
      obtain ⟨name, message⟩ := e
      rw [stagesIn] at hx
      cases hq : quotes.get? name with
      | none =>
          rw [hq] at hx
          obtain ⟨e, he, hrest⟩ := ih hx
          exact ⟨e, List.mem_cons_of_mem _ he, hrest⟩
      | some quote =>
          rw [hq] at hx
          cases hp : pairs.get? name with
          | none =>
              rw [hp] at hx
              exact absurd hx List.not_mem_nil
          | some pair =>
              rw [hp] at hx
              cases hc : candidatesIn rt settings (observed db pair quote t) pair
                  (quoteObservation quote t) (m.rulesForPair pair.id) with
              | error e =>
                  simp only [hc] at hx
                  exact absurd hx List.not_mem_nil
              | ok c =>
                  simp only [hc] at hx
                  rcases List.mem_cons.mp hx with heq | hmem
                  · rw [heq]
                    exact ⟨(name, message), List.mem_cons_self, hq, hp, hc⟩
                  · obtain ⟨e, he, hrest⟩ := ih hmem
                    exact ⟨e, List.mem_cons_of_mem _ he, hrest⟩

/-- A loop, returned or not, is followed by a point the batch can raise at. -/
theorem mayRaise_after_loop {byPairId : Dict Uuid Message} {quotes : Dict String Quote}
    (h : Observes rt s.view s.env.quotes messages byPairId quotes) :
    ∃ p', Uncommitted backend isolated (processBatch rt settings messages) s p'
        (runTx (batchLoop rt settings s.view byPairId quotes s.env.clock) s).2
      ∧ p'.mayRaise = true := by
  have hquiet : Quiet (batchLoop rt settings s.view byPairId quotes s.env.clock) :=
    (observeAll_local _ _ _ _).quiet
  cases hrun : runTx (batchLoop rt settings s.view byPairId quotes s.env.clock) s with
  | mk r s' =>
      cases r with
      | ok toDelete =>
          exact ⟨_, .trans backend isolated (uncommitted_batchLoop h)
            (.of_run_ok backend isolated hquiet hrun), rfl⟩
      | error e =>
          exact ⟨_, .trans backend isolated (uncommitted_batchLoop h)
            (.of_run_error backend isolated hquiet hrun), rfl⟩

/-- A candidate of the batch is a rule of the index. -/
theorem indexed_of_mem_batchStages {x : Stage rt}
    (hx : x ∈ batchStages rt settings messages s) {rule : AlertRule}
    (hr : rule ∈ x.candidates.rules) : rule ∈ (s.mem.rulesForPair x.pair.id).all := by
  obtain ⟨byPairId, quotes, hobs⟩ := observes_of_mem_batchStages hx
  rw [batchStages_of_observes hobs] at hx
  obtain ⟨e, -, -, -, hc⟩ := mem_stagesIn hx
  rw [(candidatesIn_ok rt settings hc).2.2.1] at hr
  exact selectedIn_subset rt settings hr

/-- Memory intact at every point of failure takes that every recorded candidate
    carried the time of the batch. -/
theorem firedAlready_of_cooldownIntact (hm : s.mem.Indexed)
    (hkeys : KeysApart rt s.env.clock (batchStages rt settings messages s))
    (h : CooldownIntact rt settings messages s) : FiredAlready rt settings messages s := by
  intro x hx rule hr hrec
  obtain ⟨byPairId, quotes, hobs⟩ := observes_of_mem_batchStages hx
  have hstages := @batchStages_of_observes rt settings messages s byPairId quotes hobs
  obtain ⟨p', hpoint, hraise⟩ := @mayRaise_after_loop rt settings messages s _ _ hobs
  obtain ⟨hmem, -⟩ := @after_observeAll rt settings _ quotes s.env.clock _ s hm
    (distinctPairs_livePart s.view byPairId)
  -- The loop has stored the key of the rule, so it has advanced its object.
  obtain ⟨y, hy, rule', hr', hkey, hfired⟩ := advanced_afterStages hx hr hrec
  have hid : rule'.id = rule.id := hkeys y hy x hx rule' hr' rule hr hkey
  rw [hstages, ← hmem, hid] at hfired
  -- The object is the one of an indexed rule.
  rw [hstages] at hx
  obtain ⟨e, -, -, -, hc⟩ := mem_stagesIn hx
  have hindexed : rule ∈ (s.mem.rulesForPair x.pair.id).all := by
    rw [(candidatesIn_ok rt settings hc).2.2.1] at hr
    exact selectedIn_subset rt settings hr
  rw [← (h p' _ hpoint hraise).memory x.pair.id rule hindexed]
  exact hfired

/-- What is pending after a retry, if its rule has no cooldown. -/
theorem pending_of_no_cooldown {pair : Pair} {obs : Observation} {generation : Nat}
    {rule : AlertRule} (h : rule.cooldownSeconds ≤ 0) (s₃ : State) :
    (recordedAs rt pair obs generation s₃ rule).status = .pending := by
  have hs : suppressedBy obs generation s₃.mem rule = false := by
    rw [suppressedBy, inCooldown]
    cases s₃.mem.lastFiredAt generation rule.id with
    | none => rfl
    | some t => exact if_pos h
  simp [recordedAs, newNotification, hs]

/-- A batch whose recorded candidates carry its time leaves every store it can
    fail in intact. -/
theorem intact_of_firedAlready (hm : s.mem.Indexed) (h : FiredAlready rt settings messages s)
    {p' : Tx Unit}
    (hpoint : Uncommitted backend isolated (processBatch rt settings messages) s p' s') :
    Intact s s' := by
  refine keeps_processBatch (J := Intact s) ?_ ?_ p' s' hpoint
  · intro env
    exact (Intact.refl s).of_eq rfl rfl
  · intro byPairId quotes hobs
    have hloop := @keeps_observeAll rt settings s s _ quotes s.env.clock _ (Intact.refl s) hm
      (distinctPairs_livePart s.view byPairId)
      (by rw [← batchStages_of_observes hobs]; exact h)
    refine hloop.bind ?_
    intro toDelete u hrun
    exact Keeps.commit (hloop.of_run_ok (observeAll_local _ _ _ _).quiet hrun)

/-- The clauses about a retry, from an intact memory. -/
theorem retried_of_intact (hm : s.mem.Indexed)
    (hids : DistinctIds s.mem) (hcommitted : s'.committed = s.committed)
    (hmem : s'.mem = s.mem) {t' : Instant} {n : Notification}
    (hn : n ∈ (runTx (processBatch rt settings messages)
      (retryFrom s s' t')).2.committed.notifications)
    (hnew : n ∉ s.committed.notifications) {pairId : Uuid} {rule : AlertRule}
    (hrule : rule ∈ (s.mem.rulesForPair pairId).all) (hid : rule.id = n.ruleId)
    (hcooldown : rule.cooldownSeconds ≤ 0) : n.status = .pending := by
  have hretry : (retryFrom s s' t').committed = s.committed := hcommitted
  by_cases hobs : ∃ byPairId quotes, Observes rt (retryFrom s s' t').view
      (retryFrom s s' t').env.quotes messages byPairId quotes
  · obtain ⟨byPairId, quotes, hobs⟩ := hobs
    have hbatch := @runTx_processBatch_of_observes rt settings messages (retryFrom s s' t')
      byPairId quotes hobs
    cases hloop : runTx (batchLoop rt settings (retryFrom s s' t').view byPairId quotes
        (retryFrom s s' t').env.clock) (retryFrom s s' t') with
    | mk r u =>
        rw [hloop] at hbatch
        cases r with
        | error e =>
            -- A retry that raises commits nothing.
            rw [hbatch.2, hretry] at hn
            exact absurd hn hnew
        | ok toDelete =>
            have hindexed : (retryFrom s s' t').mem.Indexed := by
              show s'.mem.Indexed
              rw [hmem]
              exact hm
            rw [hbatch.2] at hn
            rcases origin_observeAll hindexed hloop n hn with hold |
              ⟨e, -, quote, pair, db, c, rule', -, -, hc, hr', -, s₃, hform⟩
            · rw [show (retryFrom s s' t').view = s.committed from hcommitted] at hold
              exact absurd hold hnew
            · -- The notification is of the one rule with that id.
              rw [(candidatesIn_ok rt settings hc).2.2.1] at hr'
              have hmem' : rule' ∈ (s.mem.rulesForPair pair.id).all := by
                have hsub := selectedIn_subset rt settings hr'
                rw [show (retryFrom s s' t').mem = s.mem from hmem] at hsub
                exact hsub
              have hsame : rule' = rule := by
                refine hids _ _ rule' rule hmem' hrule ?_
                rw [hid, hform]
                rfl
              rw [hform, hsame]
              exact @pending_of_no_cooldown rt pair _ _ rule hcooldown s₃
  · have hbatch := @runTx_processBatch_of_not_observes rt settings messages (retryFrom s s' t')
      (fun byPairId quotes h => hobs ⟨byPairId, quotes, h⟩)
    rw [hbatch, hretry] at hn
    exact absurd hn hnew

/-! ## What an attempt would deliver -/

/-- A notification that the loop leaves was there before, or is of a detected rule. -/
theorem detected_of_loop (hm : s.mem.Indexed) {byPairId : Dict Uuid Message}
    {quotes : Dict String Quote}
    (hobs : Observes rt s.view s.env.quotes messages byPairId quotes) {n : Notification}
    (hn : n ∈ (runTx (batchLoop rt settings s.view byPairId quotes s.env.clock)
      s).2.view.notifications) :
    n ∈ s.view.notifications ∨ Detected rt settings messages s n.ruleId := by
  obtain ⟨-, hnotifications⟩ := @after_observeAll rt settings _ quotes s.env.clock _ s hm
    (distinctPairs_livePart s.view byPairId)
  rw [batchLoop, hnotifications, ← batchStages_of_observes hobs] at hn
  rcases origin_afterStages hn with hold | ⟨x, hx, rule, hr, hrec, s₃, hform⟩
  · exact Or.inl hold
  · exact Or.inr ⟨x, hx, rule, hr, by rw [hform]; rfl, hrec⟩

/-- What an attempt would deliver it detects: a notification that is there on the way is
    there at the end of the loop. -/
theorem detected_of_wouldDeliver (hm : s.mem.Indexed) {ruleId : Uuid}
    (h : WouldDeliver rt settings messages s ruleId) : Detected rt settings messages s ruleId := by
  obtain ⟨p', s', hpoint, n, hn, hnew, rfl, -⟩ := h
  have hkeeps : Keeps backend isolated
      (fun u : State => ∀ n ∈ u.view.notifications,
        n ∈ s.view.notifications ∨ Detected rt settings messages s n.ruleId)
      (processBatch rt settings messages) s := by
    refine keeps_processBatch (fun env n hn => Or.inl hn) ?_
    intro byPairId quotes hobs
    have hloop := Keeps.of_final (B := backend) (H := isolated)
      (J := fun u : State => ∀ n ∈ u.view.notifications,
        n ∈ s.view.notifications ∨ Detected rt settings messages s n.ruleId) (s := s)
      (observeAll_commands rt settings (pairByCanonical (livePart s.view byPairId)) quotes
        s.env.clock (messageByCanonical (livePart s.view byPairId)))
      (fun _ _ u hc hu n hn => hu n (notifications_of_batchCommand hc u hn))
      (fun n hn => detected_of_loop hm hobs hn)
    refine hloop.bind ?_
    intro toDelete u hrun
    exact Keeps.commit (hloop.of_run_ok (observeAll_local _ _ _ _).quiet hrun)
  exact (hkeeps p' s' hpoint n hn).resolve_left hnew

/-- A detected rule without a cooldown is pending at the end of the loop, whether that
    returns or raises. -/
theorem pending_of_detected (hm : s.mem.Indexed) (hids : DistinctIds s.mem)
    (hkeys : KeysApart rt s.env.clock (batchStages rt settings messages s)) {pairId : Uuid}
    {rule : AlertRule} (hrule : rule ∈ (s.mem.rulesForPair pairId).all)
    (hcooldown : rule.cooldownSeconds ≤ 0) (h : Detected rt settings messages s rule.id) :
    ∃ byPairId quotes, Observes rt s.view s.env.quotes messages byPairId quotes
      ∧ ∃ n ∈ (runTx (batchLoop rt settings s.view byPairId quotes s.env.clock)
          s).2.view.notifications,
        n ∉ s.view.notifications ∧ n.ruleId = rule.id ∧ n.status = .pending := by
  obtain ⟨x, hx, rule₁, hr, hid, hrec⟩ := h
  obtain ⟨byPairId, quotes, hobs⟩ := observes_of_mem_batchStages hx
  refine ⟨byPairId, quotes, hobs, ?_⟩
  obtain ⟨-, hnotifications⟩ := @after_observeAll rt settings _ quotes s.env.clock _ s hm
    (distinctPairs_livePart s.view byPairId)
  rw [batchLoop, hnotifications, ← batchStages_of_observes hobs]
  -- The key of the candidate is stored at the end and was not before.
  obtain ⟨hbefore, hafter⟩ := stored_of_settled
    (grows_afterStages (batchStages rt settings messages s) s) hrec
    (settled_afterStages x hx rule₁ hr)
  rw [Ne, notificationWithKey_eq_none_iff] at hafter
  push Not at hafter
  obtain ⟨n, hn, hkey⟩ := hafter
  have hnew : n ∉ s.view.notifications := fun hold =>
    notificationWithKey_eq_none_iff.mp hbefore n hold hkey
  refine ⟨n, hn, hnew, ?_⟩
  rcases origin_afterStages hn with hold | ⟨y, hy, rule₂, hr₂, -, s₃, hform⟩
  · exact absurd hold hnew
  · -- Whoever stored it is the same rule, as keys and ids tell rules apart.
    have hsame : rule₂ = rule := by
      refine hids _ _ rule₂ rule (indexed_of_mem_batchStages hy hr₂) hrule ?_
      rw [← hid]
      refine hkeys y hy x hx rule₂ hr₂ rule₁ hr ?_
      rw [← hkey, hform]
      rfl
    rw [hform, hsame]
    exact ⟨rfl, @pending_of_no_cooldown rt y.pair _ _ rule hcooldown s₃⟩

/-- An attempt that detects a rule without a cooldown would deliver it. -/
theorem wouldDeliver_of_detected (hm : s.mem.Indexed) (hids : DistinctIds s.mem)
    (hkeys : KeysApart rt s.env.clock (batchStages rt settings messages s)) {pairId : Uuid}
    {rule : AlertRule} (hrule : rule ∈ (s.mem.rulesForPair pairId).all)
    (hcooldown : rule.cooldownSeconds ≤ 0) (h : Detected rt settings messages s rule.id) :
    WouldDeliver rt settings messages s rule.id := by
  obtain ⟨byPairId, quotes, hobs, n, hn, hrest⟩ :=
    pending_of_detected hm hids hkeys hrule hcooldown h
  obtain ⟨p', hpoint, -⟩ := @mayRaise_after_loop rt settings messages s _ _ hobs
  exact ⟨p', _, hpoint, n, hn, hrest⟩

/-- A batch that returns has committed what it detects of the rules without a
    cooldown. -/
theorem committed_of_detected (hm : s.mem.Indexed) (hids : DistinctIds s.mem)
    (hkeys : KeysApart rt s.env.clock (batchStages rt settings messages s))
    (hrun : (runTx (processBatch rt settings messages) s).1 = .ok ()) {pairId : Uuid}
    {rule : AlertRule} (hrule : rule ∈ (s.mem.rulesForPair pairId).all)
    (hcooldown : rule.cooldownSeconds ≤ 0) (h : Detected rt settings messages s rule.id) :
    ∃ n ∈ (runTx (processBatch rt settings messages) s).2.committed.notifications,
      n ∉ s.view.notifications ∧ n.ruleId = rule.id ∧ n.status = .pending := by
  obtain ⟨byPairId, quotes, hobs, hpending⟩ :=
    pending_of_detected hm hids hkeys hrule hcooldown h
  have hbatch := @runTx_processBatch_of_observes rt settings messages s byPairId quotes hobs
  cases hloop : runTx (batchLoop rt settings s.view byPairId quotes s.env.clock) s with
  | mk r s' =>
      rw [hloop] at hbatch hpending
      cases r with
      | error e =>
          rw [hbatch.1] at hrun
          cases hrun
      | ok toDelete =>
          rw [hbatch.2]
          exact hpending

/-! ## The equivalence -/

/-- A store to retry from depends on what the failure left of the tables and of the
    memory. -/
theorem retryFrom_eq (hcommitted : s'.committed = s.committed) (hmem : s'.mem = s.mem)
    (t' : Instant) : retryFrom s s' t' = retryFrom s s t' := by
  rw [retryFrom, retryFrom, Store.rollback, Store.rollback, hcommitted, hmem]

/-- A failed batch leaves the cooldown state intact, at every point it can fail
    at, exactly when each candidate it would record has fired at its very time
    before, and those without a cooldown are detected by every redelivery. -/
theorem cooldownIntact_iff (hm : s.mem.Indexed) (hids : DistinctIds s.mem)
    (hkeys : KeysApart rt s.env.clock (batchStages rt settings messages s))
    (hkeys' : ∀ t', s.env.clock ≤ t' →
      KeysApart rt t' (batchStages rt settings messages (retryFrom s s t'))) :
    CooldownIntact rt settings messages s
      ↔ FiredAlready rt settings messages s ∧ StillDetected rt settings messages s := by
  constructor
  · intro h
    have hfired := firedAlready_of_cooldownIntact hm hkeys h
    refine ⟨hfired, ?_⟩
    intro t' ht pairId rule hrule hcooldown hdetected
    obtain ⟨byPairId, quotes, hobs, -⟩ :=
      pending_of_detected hm hids hkeys hrule hcooldown hdetected
    obtain ⟨p', hpoint, hraise⟩ := @mayRaise_after_loop rt settings messages s _ _ hobs
    have hretried := (h p' _ hpoint hraise).retried t' ht rule.id
      (wouldDeliver_of_detected hm hids hkeys hrule hcooldown hdetected)
    rw [retryFrom_eq hpoint.committed_eq (intact_of_firedAlready hm hfired hpoint).mem]
      at hretried
    exact @detected_of_wouldDeliver rt settings messages (retryFrom s s t') hm _ hretried
  · rintro ⟨hfired, hstill⟩ p' s' hpoint _
    have hintact := intact_of_firedAlready hm hfired hpoint
    have hcommitted := hpoint.committed_eq
    have hretry := retryFrom_eq hcommitted hintact.mem
    -- What the attempt would deliver is of a rule without a cooldown, and detected.
    have hdeliver : ∀ ruleId, WouldDeliver rt settings messages s ruleId →
        ∃ pairId, ∃ rule ∈ (s.mem.rulesForPair pairId).all, rule.id = ruleId
          ∧ rule.cooldownSeconds ≤ 0 ∧ ∀ t', s.env.clock ≤ t' →
            Detected rt settings messages (retryFrom s s t') rule.id := by
      intro ruleId hwould
      have hdetected := detected_of_wouldDeliver hm hwould
      obtain ⟨p'', s'', hpoint', n, hn, hnew, hid, hpending⟩ := hwould
      rcases (intact_of_firedAlready hm hfired hpoint').pending n hn with hold | hnocooldown
      · exact absurd hold hnew
      · obtain ⟨pairId, rule, hrule, hrid, hcooldown⟩ := hnocooldown hpending
        have hsame := hrid.trans hid
        exact ⟨pairId, rule, hrule, hsame, hcooldown, fun t' ht =>
          hstill t' ht pairId rule hrule hcooldown (hsame ▸ hdetected)⟩
    constructor
    · intro pairId rule _
      rw [hintact.mem]
    · intro t' ht ruleId hwould
      obtain ⟨pairId, rule, hrule, rfl, hcooldown, hdetected⟩ := hdeliver ruleId hwould
      rw [hretry]
      exact @wouldDeliver_of_detected rt settings messages (retryFrom s s t') hm hids
        (hkeys' t' ht) pairId rule hrule hcooldown (hdetected t' ht)
    · intro t' ht hrun ruleId hwould
      obtain ⟨pairId, rule, hrule, rfl, hcooldown, hdetected⟩ := hdeliver ruleId hwould
      rw [hretry] at hrun ⊢
      exact @committed_of_detected rt settings messages (retryFrom s s t') hm hids
        (hkeys' t' ht) hrun pairId rule hrule hcooldown (hdetected t' ht)
    · intro t' _ n hn hnew hwould
      obtain ⟨pairId, rule, hrule, hid, hcooldown, -⟩ := hdeliver n.ruleId hwould
      exact retried_of_intact hm hids hcommitted hintact.mem hn hnew hrule hid hcooldown

end Failed

/-- A rule with a cooldown of an hour that has never fired, and a quote that is
    high enough. -/
def spikeRule : AlertRule :=
  { id := 7, pairId := 1, ruleType := .absoluteAbove, threshold := some ⟨false, 100, 0⟩
    cooldownSeconds := 3600 }

def spikeTables : Database :=
  { pairs := [{ id := 1, krakenPairName := "XBT/USD", displayName := "XBT/USD" }]
    alertRules := [spikeRule] }

def spikeMessage : Message :=
  { messageId := "1", receiptHandle := "1"
    body := "\x7b\"pair_id\": \"00000000-0000-0000-0000-000000000001\"\x7d" }

def spikeQuote : Quote :=
  let price : Decimal := ⟨false, 150, 0⟩
  ⟨"XBT/USD", price, price, price, ⟨false, 1, 0⟩⟩

def spikeState : State :=
  { committed := spikeTables
    view := spikeTables
    mem := ({} : Memory).install [spikeRule] [(1, { absoluteAbove := [spikeRule] })]
    env := { clock := seconds 1000000020
             quotes := fun _ => some [("XBT/USD", spikeQuote)] } }

/-- All the index has is the one rule. -/
theorem rule_spike {pairId : Uuid} {rule : AlertRule}
    (h : rule ∈ (spikeState.mem.rulesForPair pairId).all) : rule = spikeRule :=
  List.mem_singleton.mp (({} : Memory).mem_install rfl h)

theorem cooldownIntact_iff_spike :
    CooldownIntact Runtime.rational {} [spikeMessage] spikeState
      ↔ FiredAlready Runtime.rational {} [spikeMessage] spikeState
        ∧ StillDetected Runtime.rational {} [spikeMessage] spikeState := by
  refine cooldownIntact_iff ?_ ?_ ?_ ?_
  · exact Memory.Indexed.install (by decide) rfl {}
  · exact distinctIds_install (by decide) rfl {}
  · intro x hx y hy rule hr rule' hr' _
    rw [rule_spike (indexed_of_mem_batchStages hx hr),
      rule_spike (indexed_of_mem_batchStages hy hr')]
  · intro t' _ x hx y hy rule hr rule' hr' _
    rw [rule_spike (indexed_of_mem_batchStages hx hr),
      rule_spike (indexed_of_mem_batchStages hy hr')]

theorem observes_spike :
    Observes Runtime.rational spikeState.view spikeState.env.quotes [spikeMessage]
      [(1, spikeMessage)] [("XBT/USD", spikeQuote)] where
  collected := by decide +kernel
  live := by decide +kernel
  quoted := rfl

/-- The store the loop leaves, at the commit that fails. -/
def spikeFailed : State :=
  (runTx (batchLoop Runtime.rational {} spikeState.view
    [(1, spikeMessage)] [("XBT/USD", spikeQuote)] spikeState.env.clock)
    spikeState).2

/-- The commit of a batch fails; the rule has fired in memory only, and the retry
    a minute later suppresses the alert that was never sent. -/
theorem not_cooldownIntact_spike :
    RulesApi.validRule spikeRule = true
      ∧ ¬ CooldownIntact Runtime.rational {} [spikeMessage] spikeState
      ∧ spikeFailed.view.notifications.map (fun n => n.status) = [.pending]
      ∧ (runTx (processBatch Runtime.rational {} [spikeMessage])
          (retryFrom spikeState spikeFailed (seconds 1000000080))).2.committed.notifications.map
            (fun n => n.status) = [.suppressedCooldown] := by
  refine ⟨by decide, ?_, by decide +kernel, by decide +kernel⟩
  intro h
  obtain ⟨p', hpoint, hraise⟩ :=
    @mayRaise_after_loop Runtime.rational {} [spikeMessage] spikeState _ _ observes_spike
  have hmem := (h p' _ hpoint hraise).memory 1 spikeRule (List.mem_singleton_self _)
  have hfired : spikeFailed.mem.lastFiredAt 1 7 = some (seconds 1000000020) := by
    decide +kernel
  have hsame : spikeFailed.mem.lastFiredAt 1 7 = none := hmem
  rw [hfired] at hsame
  cases hsame

end Dropwatch.Poller
