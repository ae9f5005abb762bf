import Dropwatch.SpellingProofs

/-! # A spread that widens again within a minute

    `spread_widen` decides on bid and ask, but the key of its detected state is made of
    the printed last price and the minute.  Over a run of evaluations of a pair the key
    of an observation is taken exactly if the rule has fired before in the minute at the
    same printed last price (`taken_iff`), whatever the quotes were then; so a spread
    that was not seen before is recorded exactly if it has not (`notSwallowed_iff`).

    The run is any sequence of evaluations, with whatever others do in between that is
    not about the rule: other pairs, other rules, new history, rebuilt indexes. -/

namespace Dropwatch.Swallow

open Transact RuleIndex Evaluator Totality Backtest Isolation Keys Spelling

/-! ## Runs -/

/-- Two observations with the same numbers. -/
def SameQuotes (a b : Observation) : Prop :=
  a.last.toRat = b.last.toRat ∧ a.bid.toRat = b.bid.toRat ∧ a.ask.toRat = b.ask.toRat

/-- A notification has the key. -/
def Taken (s : State) (key : String) : Prop := ∃ n ∈ s.view.notifications, n.idempotencyKey = key

/-- The rows that a notification of the rule refers to are there. -/
def present (s : State) (rule : AlertRule) : Bool :=
  s.view.alertRules.any (fun r => r.id == rule.id) && s.view.pairs.any (fun p => p.id == rule.pairId)

/-- The rule as it is loaded at some time. -/
def loadedWith (rule : AlertRule) (lastFiredAt : Option Instant) : AlertRule :=
  { rule with lastFiredAt }

/-- The index of the process holds the rule. -/
def InIndex (rule : AlertRule) (m : Memory) : Prop :=
  ∃ rules lastFiredAt, Loaded rules m ∧ loadedWith rule lastFiredAt ∈ rules

/-- One evaluation of the pair: the store before it, the observation and what it recorded. -/
structure Call where
  state : State
  obs : Observation
  created : List Notification

section Runs

variable (rt : Runtime) (settings : Settings) (pair : Pair) (rule : AlertRule)

/-- What happens between two evaluations is not about the rule: its keys and its rows
    are there as before. -/
structure Gap (s s' : State) : Prop where
  keys : ∀ price at_, Taken s' (ownKey rt rule price at_) ↔ Taken s (ownKey rt rule price at_)
  rows : present s' rule = present s rule
  index : InIndex rule s'.mem

/-- Evaluations of the pair, one after another.  One that raises is rolled back. -/
inductive Calls : State → List Call → State → Prop where
  | nil (s : State) : Calls s [] s
  | returns {s s₁ s₂ s' : State} {obs : Observation} {created : List Notification}
      {calls : List Call} (hgap : Gap rt rule s s₁)
      (hrun : runTx (evaluateRulesForPair rt settings pair obs) s₁ = (.ok created, s₂))
      (hrest : Calls s₂ calls s') : Calls s (⟨s₁, obs, created⟩ :: calls) s'
  | raises {s s₁ s' : State} {obs : Observation} {e : PyError} {calls : List Call}
      (hgap : Gap rt rule s s₁)
      (hrun : (runTx (evaluateRulesForPair rt settings pair obs) s₁).1 = .error e)
      (hrest : Calls s₁ calls s') : Calls s (⟨s₁, obs, []⟩ :: calls) s'

/-- The observation is new: no earlier one of its minute has its numbers. -/
def New (before : List Call) (obs : Observation) : Prop :=
  ∀ call ∈ before, minuteBucket call.obs.observedAt = minuteBucket obs.observedAt →
    ¬ SameQuotes call.obs obs

/-- A new observation on which the rule fires is recorded for it, delivered or suppressed. -/
def NotSwallowed (calls : List Call) : Prop :=
  ∀ before call after, calls = before ++ call :: after →
    spreadWidenRuleFires rule call.obs.bid call.obs.ask = true → New before call.obs →
      recordedFor rule call.created ≠ []

/-- The score that the pair's `zscore_move` rules share does not raise. -/
def Scored (s : State) : Prop :=
  ∃ score, sharedScore rt settings s.view pair (s.mem.rulesForPair pair.id).zscoreMove = .ok score

/-- When an observation is recorded, in a run from `s`.
    `rows`, `scored`: the rule and the pair are there, and no score raises.
    `stored`: no notification of the rule has the price and the minute at the start.
    `first`: the rule has not fired before in the minute at the same printed last price. -/
structure Recordable (s : State) (before : List Call) (call : Call) : Prop where
  rows : present s rule = true
  scored : Scored rt settings pair call.state
  stored : ¬ Taken s (ownKey rt rule call.obs.last call.obs.observedAt)
  first : ∀ e ∈ before, minuteBucket e.obs.observedAt = minuteBucket call.obs.observedAt →
    e.obs.last.str = call.obs.last.str → Scored rt settings pair e.state →
      spreadWidenRuleFires rule e.obs.bid e.obs.ask = false

end Runs

/-! ## One evaluation -/

section Step

variable {rt : Runtime} {settings : Settings} {pair : Pair} {rule : AlertRule}
  {s s' : State} {obs : Observation} {created : List Notification}

theorem taken_iff_notificationWithKey {key : String} :
    Taken s key ↔ s.view.notificationWithKey key ≠ none := by
  rw [Ne, notificationWithKey_eq_none_iff, Taken]
  simp

/-- What the engine has recorded after a sighting. -/
theorem mem_keys_see {t : Track} {cooldownSeconds : Int} {x : Sighting} {key : String} :
    key ∈ (t.see cooldownSeconds x).2.keys ↔ key ∈ t.keys ∨ (x.fires = true ∧ key = x.key) := by
  cases hx : t.records x with
  | true =>
      rw [Track.see_of_records hx, List.mem_cons]
      have hfires := (Track.records_iff.mp hx).1
      constructor
      · rintro (heq | hmem)
        · exact Or.inr ⟨hfires, heq⟩
        · exact Or.inl hmem
      · rintro (hmem | ⟨-, heq⟩)
        · exact Or.inr hmem
        · exact Or.inl heq
  | false =>
      -- Nothing is added: the predicate fails, or the key is there already.
      rw [Track.see_of_not_records hx]
      refine ⟨Or.inl, ?_⟩
      rintro (hmem | ⟨hfires, rfl⟩)
      · exact hmem
      · by_contra hnew
        rw [Track.records_iff.mpr ⟨hfires, hnew⟩] at hx
        cases hx

/-- An evaluation returns exactly if the shared score does not raise. -/
theorem scored_iff (hindex : InIndex rule s.mem) :
    Scored rt settings pair s
      ↔ ∃ created, (runTx (evaluateRulesForPair rt settings pair obs) s).1 = .ok created := by
  obtain ⟨rules, lastFiredAt, hl, -⟩ := hindex
  exact (finishes_iff_sharedScore (hl.wellFormed pair.id) (hl.windows pair.id)).symm

theorem not_scored_of_error {e : PyError} (hindex : InIndex rule s.mem)
    (hrun : (runTx (evaluateRulesForPair rt settings pair obs) s).1 = .error e) :
    ¬ Scored rt settings pair s := by
  rw [@scored_iff rt settings pair rule s obs hindex, hrun]
  rintro ⟨created, hok⟩
  cases hok

/-- What a store knows of a rule, as the engine keeps it. -/
theorem exists_track (rt : Runtime) (rule : AlertRule) (s : State) :
    ∃ t, Watches rt rule (present s rule) s t ∧ ∀ key, key ∈ t.keys ↔ Taken s key :=
  ⟨_, watches_self s, fun _ => List.mem_map⟩

/-- An evaluation that returns records the rule's observation exactly if the rule fires, its
    rows are there and its key is free; and it takes that key. -/
theorem evaluate_spread (hsha : Function.Injective rt.sha256) (hp : rule.pairId = pair.id)
    (ht : rule.ruleType = .spreadWiden) (hindex : InIndex rule s.mem)
    (hrun : runTx (evaluateRulesForPair rt settings pair obs) s = (.ok created, s')) :
    (recordedFor rule created ≠ []
        ↔ (spreadWidenRuleFires rule obs.bid obs.ask = true ∧ present s rule = true)
          ∧ ¬ Taken s (ownKey rt rule obs.last obs.observedAt))
      ∧ present s' rule = present s rule
      ∧ ∀ price at_, Taken s' (ownKey rt rule price at_)
        ↔ Taken s (ownKey rt rule price at_)
          ∨ ((spreadWidenRuleFires rule obs.bid obs.ask = true ∧ present s rule = true)
            ∧ ownKey rt rule price at_ = ownKey rt rule obs.last obs.observedAt) := by
  obtain ⟨rules, lastFiredAt, hl, hr⟩ := hindex
  -- Neither the keys of the rule nor its verdict depend on the time of its last fire.
  obtain ⟨t, hwatch, htaken⟩ := exists_track rt (loadedWith rule lastFiredAt) s
  obtain ⟨verdict, hown, hstep⟩ := evaluate_watched hsha hl hr hp hwatch hrun
  have hspread : OfObservation (loadedWith rule lastFiredAt) := Or.inr (Or.inr ht)
  rw [ownPredicate_ofObservation hspread] at hown
  have hverdict : spreadWidenRuleFires rule obs.bid obs.ask = verdict := by
    refine Eq.trans ?_ (Except.ok.inj hown)
    rw [firesOn, if_pos (show (loadedWith rule lastFiredAt).ruleType = .spreadWiden from ht)]
    rfl
  have hfires : (verdict && present s rule) = true
      ↔ spreadWidenRuleFires rule obs.bid obs.ask = true ∧ present s rule = true := by
    rw [hverdict, Bool.and_eq_true]
  refine ⟨?_, hstep.watches.rows, ?_⟩
  · rw [← hfires, ← htaken]
    have hrecords := Track.records_iff (t := t)
      (x := sightingOf rt (loadedWith rule lastFiredAt) (present s rule) obs verdict)
    refine Iff.trans ?_ hrecords
    show recordedFor (loadedWith rule lastFiredAt) created ≠ [] ↔ _
    rw [hstep.recorded, noticesOf]
    split
    · rename_i hyes
      exact ⟨fun _ => hyes, fun _ => List.cons_ne_nil _ _⟩
    · rename_i hno
      exact ⟨fun hne => absurd rfl hne, fun h => absurd h hno⟩
  · intro price at_
    have hkeys : s'.view.notificationWithKey (ownKey rt rule price at_) = none ↔ _ :=
      hstep.watches.keys price at_
    rw [taken_iff_notificationWithKey, Ne, hkeys, not_not, ← hfires, ← htaken]
    exact mem_keys_see

end Step

/-! ## Whole runs -/

section Run

variable {rt : Runtime} {settings : Settings} {pair : Pair} {rule : AlertRule} {s s' : State}
  {calls : List Call}

/-- A key names the printed price and the minute. -/
theorem ownKey_eq_iff (hsha : Function.Injective rt.sha256) {price price' : Decimal}
    {t t' : Instant} (ht : IsDatetime t) (ht' : IsDatetime t') :
    ownKey rt rule price t = ownKey rt rule price' t'
      ↔ minuteBucket t = minuteBucket t' ∧ price.str = price'.str := by
  constructor
  · intro h
    have hstate := detectedStateParts_inj ht ht' (hsha (keyParts_inj (hsha h)).2.2)
    exact ⟨hstate.minute, hstate.price⟩
  · rintro ⟨hminute, hstr⟩
    exact (stateKey_eq_iff hsha hminute).mpr hstr

/-- An observation of a run that takes a key of the rule. -/
def Takes (rt : Runtime) (settings : Settings) (pair : Pair) (rule : AlertRule) (s : State)
    (key : String) (call : Call) : Prop :=
  Scored rt settings pair call.state
    ∧ (spreadWidenRuleFires rule call.obs.bid call.obs.ask = true ∧ present s rule = true)
    ∧ key = ownKey rt rule call.obs.last call.obs.observedAt

/-- After a run a key of the rule is taken if it was at the start, or if an observation of
    the run has taken it. -/
theorem taken_iff (hsha : Function.Injective rt.sha256) (hp : rule.pairId = pair.id)
    (ht : rule.ruleType = .spreadWiden) (h : Calls rt settings pair rule s calls s') :
    present s' rule = present s rule
      ∧ ∀ price at_, Taken s' (ownKey rt rule price at_)
        ↔ Taken s (ownKey rt rule price at_)
          ∨ ∃ call ∈ calls, Takes rt settings pair rule s (ownKey rt rule price at_) call := by
  induction h with
  | nil s => exact ⟨rfl, fun price at_ => by simp⟩
  | @returns s s₁ s₂ s' obs created calls hgap hrun _ ih =>
      obtain ⟨-, hrows, hkeys⟩ := evaluate_spread hsha hp ht hgap.index hrun
      have hscored : Scored rt settings pair s₁ :=
        (scored_iff hgap.index).mpr ⟨created, congrArg Prod.fst hrun⟩
      have hpresent : present s₂ rule = present s rule := hrows.trans hgap.rows
      refine ⟨ih.1.trans hpresent, ?_⟩
      intro price at_
      simp only [ih.2 price at_, hkeys price at_, hgap.keys price at_, hgap.rows, Takes, hpresent,
        List.mem_cons, exists_eq_or_imp, or_assoc, hscored, true_and]
  | @raises s s₁ s' obs e calls hgap hrun _ ih =>
      have hscored := not_scored_of_error hgap.index hrun
      refine ⟨ih.1.trans hgap.rows, ?_⟩
      intro price at_
      simp only [ih.2 price at_, hgap.keys price at_, Takes, hgap.rows, List.mem_cons,
        exists_eq_or_imp, hscored, false_and, false_or]

/-- One call of a run, and the run up to it. -/
theorem Calls.split {before after : List Call} {call : Call}
    (h : Calls rt settings pair rule s (before ++ call :: after) s') :
    ∃ s₁, Calls rt settings pair rule s before s₁ ∧ Gap rt rule s₁ call.state
      ∧ ((∃ s₂, runTx (evaluateRulesForPair rt settings pair call.obs) call.state
            = (.ok call.created, s₂))
        ∨ ¬ Scored rt settings pair call.state ∧ call.created = []) := by
  induction before generalizing s with
  | nil =>
      cases h with
      | returns hgap hrun _ => exact ⟨s, .nil s, hgap, Or.inl ⟨_, hrun⟩⟩
      | raises hgap hrun _ =>
          exact ⟨s, .nil s, hgap, Or.inr ⟨not_scored_of_error hgap.index hrun, rfl⟩⟩
  | cons first before ih =>
      cases h with
      | returns hgap hrun hrest =>
          obtain ⟨s₁, hbefore, hcall⟩ := ih hrest
          exact ⟨s₁, .returns hgap hrun hbefore, hcall⟩
      | raises hgap hrun hrest =>
          obtain ⟨s₁, hbefore, hcall⟩ := ih hrest
          exact ⟨s₁, .raises hgap hrun hbefore, hcall⟩

/-- An observation of a run on which the rule fires. -/
theorem recordedFor_ne_nil_iff {before after : List Call} {call : Call}
    (hsha : Function.Injective rt.sha256) (hp : rule.pairId = pair.id)
    (ht : rule.ruleType = .spreadWiden)
    (hdates : ∀ e ∈ before ++ call :: after, IsDatetime e.obs.observedAt)
    (h : Calls rt settings pair rule s (before ++ call :: after) s')
    (hfires : spreadWidenRuleFires rule call.obs.bid call.obs.ask = true) :
    recordedFor rule call.created ≠ [] ↔ Recordable rt settings pair rule s before call := by
  obtain ⟨s₁, hbefore, hgap, hcall⟩ := h.split
  obtain ⟨hpresent, htaken⟩ := taken_iff hsha hp ht hbefore
  have hrows : present call.state rule = present s rule := hgap.rows.trans hpresent
  have hdate := hdates call (List.mem_append_right _ List.mem_cons_self)
  rcases hcall with ⟨s₂, hrun⟩ | ⟨hscored, hnone⟩
  · obtain ⟨hrecorded, -⟩ := evaluate_spread hsha hp ht hgap.index hrun
    have hscored : Scored rt settings pair call.state :=
      (scored_iff hgap.index).mpr ⟨call.created, congrArg Prod.fst hrun⟩
    rw [hrecorded, hgap.keys, htaken, hrows]
    constructor
    · rintro ⟨⟨-, hthere⟩, hfree⟩
      refine ⟨hthere, hscored, fun hstored => hfree (Or.inl hstored), ?_⟩
      intro e he hminute hstr hscored'
      by_contra hfired
      refine hfree (Or.inr ⟨e, he, hscored', ⟨Bool.eq_true_of_not_eq_false hfired, hthere⟩, ?_⟩)
      exact (ownKey_eq_iff hsha hdate (hdates e (List.mem_append_left _ he))).mpr
        ⟨hminute.symm, hstr.symm⟩
    · intro hrec
      refine ⟨⟨hfires, hrec.rows⟩, ?_⟩
      rintro (hstored | ⟨e, he, hscored', ⟨hfired, -⟩, hkey⟩)
      · exact hrec.stored hstored
      · obtain ⟨hminute, hstr⟩ :=
          (ownKey_eq_iff hsha hdate (hdates e (List.mem_append_left _ he))).mp hkey
        cases hfired.symm.trans (hrec.first e he hminute.symm hstr.symm hscored')
  · -- The evaluation raised, and its transaction is rolled back.
    constructor
    · intro hne
      exact absurd (by rw [hnone]; rfl) hne
    · exact fun hrec => absurd hrec.scored hscored

/-- In every run no new spread is swallowed, exactly if each is recordable. -/
theorem notSwallowed_iff (hsha : Function.Injective rt.sha256) (hp : rule.pairId = pair.id)
    (ht : rule.ruleType = .spreadWiden)
    (hdates : ∀ call ∈ calls, IsDatetime call.obs.observedAt)
    (h : Calls rt settings pair rule s calls s') :
    NotSwallowed rule calls ↔ ∀ before call after, calls = before ++ call :: after →
      spreadWidenRuleFires rule call.obs.bid call.obs.ask = true → New before call.obs →
        Recordable rt settings pair rule s before call := by
  constructor
  · rintro hall before call after rfl hfires hnew
    exact (recordedFor_ne_nil_iff hsha hp ht hdates h hfires).mp
      (hall before call after rfl hfires hnew)
  · rintro hall before call after rfl hfires hnew
    exact (recordedFor_ne_nil_iff hsha hp ht hdates h hfires).mpr
      (hall before call after rfl hfires hnew)

end Run

/-! ## A spread that widens twice without a trade -/

def thinPair : Pair := { id := 1, krakenPairName := "SOLUSD", displayName := "SOL/USD" }

/-- One percent. -/
def spreadRule : AlertRule :=
  { id := 7, pairId := 1, ruleType := .spreadWiden, percent := some ⟨false, 1, 0⟩ }

/-- A process that has loaded the rule, on tables without a notification. -/
def thinState : State :=
  let db : Database := { pairs := [thinPair], alertRules := [spreadRule] }
  ⟨db, db, ({} : Memory).install [spreadRule] [(1, { spreadWiden := [spreadRule] })],
    { clock := 1786710601000000 }⟩

/-- A quote of bid 100. -/
def quoted (last ask : Nat) (observedAt : Instant) : Observation :=
  ⟨⟨false, last, 0⟩, ⟨false, 100, 0⟩, ⟨false, ask, 0⟩, observedAt⟩

def thinRun (obs : Observation) (s : State) : Except PyError (List Notification) × State :=
  runTx (evaluateRulesForPair Runtime.rational {} thinPair obs) s

def thinCall (obs : Observation) (s : State) : Call :=
  ⟨s, obs, (thinRun obs s).1.toOption.getD []⟩

/-- Two evaluations, ten seconds apart. -/
def twice (first second : Observation) : List Call :=
  [thinCall first thinState, thinCall second (thinRun first thinState).2]

/-- A second spread at the same last price, and at another. -/
def widened : List Call := twice (quoted 101 102 1786710601000000) (quoted 101 103 1786710611000000)

def traded : List Call := twice (quoted 101 102 1786710601000000) (quoted 102 103 1786710611000000)

theorem loaded_thin : Loaded [spreadRule] thinState.mem :=
  Loaded.install (by decide) (by decide) rfl {}

theorem calls_twice {first second : Observation}
    (h₁ : (thinRun first thinState).1.isOk = true)
    (h₂ : (thinRun second (thinRun first thinState).2).1.isOk = true) :
    Calls Runtime.rational {} thinPair spreadRule thinState (twice first second)
      (thinRun second (thinRun first thinState).2).2 := by
  have hret : ∀ {obs : Observation} {s : State}, (thinRun obs s).1.isOk = true →
      thinRun obs s = (.ok (thinCall obs s).created, (thinRun obs s).2) := by
    intro obs s h
    rw [thinCall]
    generalize thinRun obs s = r at h ⊢
    obtain ⟨result, s'⟩ := r
    cases result with
    | ok created => rfl
    | error e => cases h
  have hindex : InIndex spreadRule thinState.mem :=
    ⟨[spreadRule], none, loaded_thin, List.mem_singleton_self _⟩
  have hindex' : InIndex spreadRule (thinRun first thinState).2.mem :=
    ⟨[spreadRule], none, loaded_thin.frame (evaluate_frame loaded_thin (hret h₁)).2,
      List.mem_singleton_self _⟩
  exact .returns ⟨fun _ _ => Iff.rfl, rfl, hindex⟩ (hret h₁)
    (.returns ⟨fun _ _ => Iff.rfl, rfl, hindex'⟩ (hret h₂) (.nil _))

theorem notSwallowed_iff_traded :
    NotSwallowed spreadRule traded ↔ ∀ before call after, traded = before ++ call :: after →
      spreadWidenRuleFires spreadRule call.obs.bid call.obs.ask = true → New before call.obs →
        Recordable Runtime.rational {} thinPair spreadRule thinState before call := by
  refine notSwallowed_iff (fun _ _ h => h) rfl rfl ?_
    (calls_twice (by decide +kernel) (by decide +kernel))
  intro call hcall
  rcases List.mem_cons.mp hcall with rfl | hcall
  · exact ⟨by decide, by decide⟩
  · obtain rfl := List.mem_singleton.mp hcall
    exact ⟨by decide, by decide⟩

/-- The second spread is new, the rule fires on it, and nothing is recorded. -/
theorem not_notSwallowed_widened :
    Calls Runtime.rational {} thinPair spreadRule thinState widened
        (thinRun (quoted 101 103 1786710611000000)
          (thinRun (quoted 101 102 1786710601000000) thinState).2).2
      ∧ ¬ NotSwallowed spreadRule widened := by
  refine ⟨calls_twice (by decide +kernel) (by decide +kernel), ?_⟩
  intro hall
  refine hall [_] _ [] rfl (by decide +kernel) ?_ (by decide +kernel)
  intro call hcall _ hsame
  obtain rfl := List.mem_singleton.mp hcall
  exact absurd hsame.2.2 (by decide +kernel)

end Dropwatch.Swallow
