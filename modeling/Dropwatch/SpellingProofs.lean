import Dropwatch.IsolationProofs

/-! # Two spellings of one price

    Predicates compare numbers, keys are made of texts.  Two observations of one
    minute whose prices are equal but print differently are two detected states:
    `recordsOnce_iff` says exactly when the second one records nothing again. -/

namespace Dropwatch.Spelling

open Transact RuleIndex Evaluator Backtest Isolation Keys

/-- The rules whose predicate looks at the observation alone. -/
def OfObservation (rule : AlertRule) : Prop :=
  rule.ruleType = .absoluteBelow ∨ rule.ruleType = .absoluteAbove
    ∨ rule.ruleType = .spreadWiden

/-- Their predicates. -/
def firesOn (rule : AlertRule) (obs : Observation) : Bool :=
  if rule.ruleType = .spreadWiden then spreadWidenRuleFires rule obs.bid obs.ask
  else ruleFires rule obs.last

/-- Nothing that a notification depends on moved between two evaluations; a row of
    history may have been added. -/
structure Between (s s' : State) : Prop where
  mem : s'.mem = s.mem
  notifications : s'.view.notifications = s.view.notifications
  alertRules : s'.view.alertRules = s.view.alertRules
  pairs : s'.view.pairs.map Pair.id = s.view.pairs.map Pair.id

section Once

variable {rt : Runtime} {settings : Settings} {pair : Pair} {rule : AlertRule}
  {obs obs₁ obs₂ : Observation} {s s₁ s₂ s₃ : State} {rules : List AlertRule}
  {created₁ created₂ : List Notification}

theorem ownPredicate_ofObservation (h : OfObservation rule) (db : Database) :
    ownPredicate rt settings db pair obs rule = .ok (firesOn rule obs) := by
  rcases h with h | h | h
  · simp [ownPredicate, firesOn, h]
  · simp [ownPredicate, firesOn, h]
  · simp [ownPredicate, firesOn, h]

theorem Between.watches {s s' : State} (h : Between s s') {present : Bool} {t : Track}
    (hw : Watches rt rule present s t) : Watches rt rule present s' t where
  last := by
    rw [h.mem]
    exact hw.last
  rows := by
    have hpair : s'.view.pairs.any (fun p => p.id == rule.pairId)
        = s.view.pairs.any (fun p => p.id == rule.pairId) := by
      have hmap : ∀ ps : List Pair, ps.any (fun p => p.id == rule.pairId)
          = (ps.map Pair.id).any (fun id => id == rule.pairId) := by
        intro ps
        rw [List.any_map]
        rfl
      rw [hmap, hmap, h.pairs]
    rw [h.alertRules, hpair]
    exact hw.rows
  keys := by
    intro price at_
    rw [Database.notificationWithKey, h.notifications]
    exact hw.keys price at_

/-- A rule whose both observations are recorded: it fires on both, and for both its rows
    are there and the key is free. -/
def RecordsBoth (rt : Runtime) (pair : Pair) (obs₁ obs₂ : Observation) (s : State)
    (rule : AlertRule) : Prop :=
  (firesOn rule obs₁ = true ∧ recordable rt pair obs₁ s.view rule = true)
    ∧ firesOn rule obs₂ = true ∧ recordable rt pair obs₂ s.view rule = true

/-- A sighting is recorded where the rule fires and is recordable. -/
theorem records_sightingOf {present : Bool} {t : Track} (h : Watches rt rule present s t)
    (hp : rule.pairId = pair.id) (verdict : Bool) :
    t.records (sightingOf rt rule present obs verdict)
      = (verdict && recordable rt pair obs s.view rule) := by
  rw [h.recordable_eq hp]
  cases verdict with
  | true => rfl
  | false => rfl

theorem length_noticesOf (t : Track) (x : Sighting) :
    (noticesOf rt rule pair obs t x).length = if t.records x then 1 else 0 := by
  rw [noticesOf]
  cases t.records x with
  | true => rfl
  | false => rfl

/-- A key that is recorded is recorded once. -/
theorem records_see {t : Track} {x y : Sighting} (hx : t.records x = true) :
    (t.see rule.cooldownSeconds x).2.records y = (t.records y && (y.key != x.key)) := by
  rw [Track.see_of_records hx, Bool.eq_iff_iff, Track.records_iff, Bool.and_eq_true,
    Track.records_iff, bne_iff_ne, List.mem_cons, not_or]
  constructor
  · rintro ⟨hf, hne, hmem⟩
    exact ⟨⟨hf, hmem⟩, hne⟩
  · rintro ⟨⟨hf, hmem⟩, hne⟩
    exact ⟨hf, hne, hmem⟩

/-- Two sightings are two notifications exactly if both are recorded under keys of their
    own. -/
theorem two_sightings_le_one_iff (t : Track) (x y : Sighting) :
    (noticesOf rt rule pair obs₁ t x).length
        + (noticesOf rt rule pair obs₂ (t.see rule.cooldownSeconds x).2 y).length ≤ 1
      ↔ x.key = y.key ∨ ¬ (t.records x = true ∧ t.records y = true) := by
  rw [length_noticesOf, length_noticesOf]
  cases hx : t.records x with
  | false =>
      rw [Track.see_of_not_records hx, if_neg Bool.false_ne_true, Nat.zero_add]
      refine ⟨fun _ => Or.inr (fun hboth => Bool.false_ne_true hboth.1), fun _ => ?_⟩
      split
      · exact Nat.le_refl 1
      · exact Nat.zero_le 1
  | true =>
      rw [if_pos rfl, records_see hx]
      by_cases hkey : x.key = y.key
      · rw [hkey, bne_self_eq_false, Bool.and_false, if_neg Bool.false_ne_true]
        exact ⟨fun _ => Or.inl rfl, fun _ => Nat.le_refl 1⟩
      · rw [bne_iff_ne.mpr (fun heq => hkey heq.symm), Bool.and_true]
        cases t.records y with
        | true =>
            rw [if_pos rfl]
            refine ⟨fun hle => absurd hle (by omega), ?_⟩
            rintro (heq | hnot)
            · exact absurd heq hkey
            · exact absurd ⟨rfl, rfl⟩ hnot
        | false =>
            rw [if_neg Bool.false_ne_true]
            exact ⟨fun _ => Or.inr (fun hboth => Bool.false_ne_true hboth.2),
              fun _ => Nat.le_refl 1⟩

/-- One rule over two observations of a minute. -/
theorem length_recordedFor_le_one_iff (hsha : Function.Injective rt.sha256)
    (hl : Loaded rules s.mem) (hr : rule ∈ rules) (hp : rule.pairId = pair.id)
    (ho : OfObservation rule)
    (hminute : minuteBucket obs₁.observedAt = minuteBucket obs₂.observedAt)
    (h₁ : runTx (evaluateRulesForPair rt settings pair obs₁) s = (.ok created₁, s₁))
    (hb : Between s₁ s₂)
    (h₂ : runTx (evaluateRulesForPair rt settings pair obs₂) s₂ = (.ok created₂, s₃)) :
    (recordedFor rule (created₁ ++ created₂)).length ≤ 1
      ↔ obs₁.last.str = obs₂.last.str ∨ ¬ RecordsBoth rt pair obs₁ obs₂ s rule := by
  have hwatch := @watches_self rt rule s
  obtain ⟨v₁, hv₁, hstep₁⟩ := evaluate_watched hsha hl hr hp hwatch h₁
  have hl₂ : Loaded rules s₂.mem := by
    rw [hb.mem]
    exact hl.frame (evaluate_frame hl h₁).2
  obtain ⟨v₂, hv₂, hstep₂⟩ := evaluate_watched hsha hl₂ hr hp (hb.watches hstep₁.watches) h₂
  rw [ownPredicate_ofObservation ho] at hv₁ hv₂
  obtain rfl := Except.ok.inj hv₁
  obtain rfl := Except.ok.inj hv₂
  rw [recordedFor_append, List.length_append, hstep₁.recorded, hstep₂.recorded,
    two_sightings_le_one_iff, records_sightingOf hwatch hp, records_sightingOf hwatch hp,
    Bool.and_eq_true, Bool.and_eq_true]
  exact or_congr_left (stateKey_eq_iff hsha hminute)

/-- Both evaluations together record at most one notification for every rule that looks
    at the observation alone, exactly if the prices print the same or no such rule has
    both its observations recorded. -/
theorem recordsOnce_iff (hsha : Function.Injective rt.sha256) (hl : Loaded rules s.mem)
    (hminute : minuteBucket obs₁.observedAt = minuteBucket obs₂.observedAt)
    (h₁ : runTx (evaluateRulesForPair rt settings pair obs₁) s = (.ok created₁, s₁))
    (hb : Between s₁ s₂)
    (h₂ : runTx (evaluateRulesForPair rt settings pair obs₂) s₂ = (.ok created₂, s₃)) :
    (∀ rule ∈ rules, rule.pairId = pair.id → OfObservation rule →
        (recordedFor rule (created₁ ++ created₂)).length ≤ 1)
      ↔ obs₁.last.str = obs₂.last.str
        ∨ ∀ rule ∈ rules, rule.pairId = pair.id → OfObservation rule →
            ¬ RecordsBoth rt pair obs₁ obs₂ s rule := by
  have hone : ∀ rule ∈ rules, rule.pairId = pair.id → OfObservation rule →
      ((recordedFor rule (created₁ ++ created₂)).length ≤ 1
        ↔ obs₁.last.str = obs₂.last.str ∨ ¬ RecordsBoth rt pair obs₁ obs₂ s rule) :=
    fun rule hr hp ho => length_recordedFor_le_one_iff hsha hl hr hp ho hminute h₁ hb h₂
  constructor
  · intro h
    by_cases hstr : obs₁.last.str = obs₂.last.str
    · exact Or.inl hstr
    · exact Or.inr (fun rule hr hp ho =>
        ((hone rule hr hp ho).mp (h rule hr hp ho)).resolve_left hstr)
  · rintro (hstr | h) rule hr hp ho
    · exact (hone rule hr hp ho).mpr (Or.inl hstr)
    · exact (hone rule hr hp ho).mpr (Or.inr (h rule hr hp ho))

end Once

/-! ## A trailing zero -/

def spelledPair : Pair := { id := 1, krakenPairName := "XBT/USD", displayName := "XBT/USD" }

def spelledRule : AlertRule :=
  { id := 7, pairId := 1, ruleType := .absoluteBelow, threshold := some ⟨false, 100, 0⟩ }

/-- A process that has loaded the rule, on tables without a notification. -/
def spelledState : State :=
  let db : Database := { pairs := [spelledPair], alertRules := [spelledRule] }
  ⟨db, db, ({} : Memory).install [spelledRule] [(1, { absoluteBelow := [spelledRule] })],
    { clock := 1786710601000000 }⟩

/-- The quotes `95` and `95.0`, ten seconds apart. -/
def plainObservation : Observation :=
  ⟨⟨false, 95, 0⟩, ⟨false, 95, 0⟩, ⟨false, 95, 0⟩, 1786710601000000⟩

def zeroObservation : Observation :=
  ⟨⟨false, 950, -1⟩, ⟨false, 950, -1⟩, ⟨false, 950, -1⟩, 1786710611000000⟩

/-- An evaluation of the pair. -/
def spelledRun (obs : Observation) (s : State) : Except PyError (List Notification) × State :=
  runTx (evaluateRulesForPair Runtime.rational {} spelledPair obs) s

def plainCreated : List Notification := (spelledRun plainObservation spelledState).1.toOption.getD []

def zeroCreated : List Notification :=
  (spelledRun zeroObservation (spelledRun plainObservation spelledState).2).1.toOption.getD []

theorem loaded_spelled : Loaded [spelledRule] spelledState.mem :=
  Loaded.install (by decide) (by decide) rfl {}

theorem plain_ok : (spelledRun plainObservation spelledState).1 = .ok plainCreated := by
  decide +kernel

theorem zero_ok : (spelledRun zeroObservation (spelledRun plainObservation spelledState).2).1
    = .ok zeroCreated := by
  decide +kernel

theorem recordsOnce_iff_zero :
    (∀ rule ∈ [spelledRule], rule.pairId = spelledPair.id → OfObservation rule →
        (recordedFor rule (plainCreated ++ zeroCreated)).length ≤ 1)
      ↔ plainObservation.last.str = zeroObservation.last.str
        ∨ ∀ rule ∈ [spelledRule], rule.pairId = spelledPair.id → OfObservation rule →
            ¬ RecordsBoth Runtime.rational spelledPair plainObservation zeroObservation
              spelledState rule :=
  recordsOnce_iff (fun _ _ h => h) loaded_spelled (by decide) (Prod.ext plain_ok rfl)
    ⟨rfl, rfl, rfl, rfl⟩ (Prod.ext zero_ok rfl)

/-- Equal prices of one minute, and two notifications of one rule. -/
theorem not_recordsOnce_zero :
    plainObservation.last.toRat = zeroObservation.last.toRat
      ∧ minuteBucket plainObservation.observedAt = minuteBucket zeroObservation.observedAt
      ∧ (spelledRun plainObservation spelledState).1 = .ok plainCreated
      ∧ (spelledRun zeroObservation (spelledRun plainObservation spelledState).2).1
        = .ok zeroCreated
      ∧ ¬ (recordedFor spelledRule (plainCreated ++ zeroCreated)).length ≤ 1 := by
  refine ⟨by decide +kernel, by decide, plain_ok, zero_ok, ?_⟩
  decide +kernel

end Dropwatch.Spelling
