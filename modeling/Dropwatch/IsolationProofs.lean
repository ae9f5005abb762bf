import Dropwatch.KeyProofs
import Dropwatch.TrackProofs

/-! # One rule among others

    `Tracks` follows the only rule of an index.  Here the index holds any rules,
    and one of them is watched: the other candidates of an evaluation write other
    keys, other rows and other objects (`Watches.recordOne_other`), so the watched
    rule takes the step of its own track, on its own predicate
    (`evaluate_watched`), and an evaluation of another pair takes none
    (`evaluate_unwatched`).  Keys of different rules are different where `sha256`
    has no collisions. -/

namespace Dropwatch.Isolation

open Transact RuleIndex Evaluator RulesApi Totality Backtest Keys

/-- The index of a process was made from a list of valid rules. -/
structure Loaded (rules : List AlertRule) (m : Memory) : Prop where
  valid : ∀ r ∈ rules, validRule r = true
  nodup : (rules.map AlertRule.id).Nodup
  buckets : ∀ pairId, m.rulesForPair pairId = (bucketOf rules pairId).sorted

section Index

variable {rules : List AlertRule} {m : Memory}

theorem Loaded.install (hvalid : ∀ r ∈ rules, validRule r = true)
    (hnodup : (rules.map AlertRule.id).Nodup) {buckets : Dict Uuid PairRules}
    (h : bucketRules rules = .ok buckets) (m : Memory) :
    Loaded rules (m.install rules buckets) where
  valid := hvalid
  nodup := hnodup
  buckets := m.rulesForPair_install h

theorem Loaded.frame {m' : Memory} (h : Loaded rules m) (hb : m'.buckets = m.buckets) :
    Loaded rules m' where
  valid := h.valid
  nodup := h.nodup
  buckets := by
    intro pairId
    rw [← h.buckets pairId, Memory.rulesForPair, hb]
    rfl

theorem Loaded.wellFormed (h : Loaded rules m) (pairId : Uuid) :
    (m.rulesForPair pairId).WellFormed pairId := by
  rw [h.buckets]
  exact (wellFormed_bucketOf h.nodup pairId).sorted

theorem Loaded.scanOrder (h : Loaded rules m) (pairId : Uuid) :
    (m.rulesForPair pairId).ScanOrder := by
  rw [h.buckets]
  exact (sortable_bucketOf (haveThresholds_of_valid h.valid) pairId).scanOrder

theorem Loaded.mem_all (h : Loaded rules m) {pairId : Uuid} {rule : AlertRule} :
    rule ∈ (m.rulesForPair pairId).all ↔ rule ∈ rules ∧ rule.pairId = pairId := by
  rw [h.buckets, (bucketOf rules pairId).all_sorted_perm.mem_iff,
    (all_bucketOf_perm rules pairId).mem_iff, List.mem_filter, beq_iff_eq]

theorem Loaded.windows (h : Loaded rules m) (pairId : Uuid) :
    ∀ r ∈ (m.rulesForPair pairId).percentChange, r.windowSeconds.isSome = true := by
  rw [h.buckets]
  intro r hr
  obtain ⟨hr', -, ht⟩ := mem_rulesOfType.mp hr
  exact haveWindows_of_valid h.valid r hr' ht

end Index

/-! ## The watched rule -/

section Watch

variable (rt : Runtime) (rule : AlertRule)

/-- The key a rule has on a price of a minute. -/
abbrev ownKey (price : Decimal) (observedAt : Instant) : String :=
  stateKey rt rule.pairId rule price observedAt

/-- What a store knows of a rule is its track; `present` says that the rows a
    notification refers to are there. -/
structure Watches (present : Bool) (s : State) (t : Track) : Prop where
  last : s.mem.lastFiredAt s.mem.generation rule.id = t.lastFiredAt
  rows : (s.view.alertRules.any (fun r => r.id == rule.id)
    && s.view.pairs.any (fun p => p.id == rule.pairId)) = present
  keys : ∀ price at_, s.view.notificationWithKey (ownKey rt rule price at_) = none
    ↔ ownKey rt rule price at_ ∉ t.keys

/-- The rows of a rule show a time of its last fire. -/
def StoredAt (s : State) (at_ : Option Instant) : Prop :=
  ∀ row ∈ s.view.alertRules, row.id = rule.id → row.lastFiredAt = at_

/-- What an evaluation recorded for a rule. -/
def recordedFor (ns : List Notification) : List NewNotification :=
  (ns.filter (fun n => n.ruleId == rule.id)).map Notification.toNewNotification

/-- An observation as the watched rule sees it. -/
def sightingOf (present : Bool) (obs : Observation) (verdict : Bool) : Sighting :=
  ⟨ownKey rt rule obs.last obs.observedAt, obs.last, obs.observedAt, verdict && present⟩

/-- The notification of a recorded sighting. -/
def noticeOf (pair : Pair) (obs : Observation) (t : Track) : NewNotification :=
  newNotification rt pair obs rule (cooling rule.cooldownSeconds t.lastFiredAt obs.observedAt)

end Watch

variable {rt : Runtime} {settings : Settings} {pair : Pair} {obs : Observation}
  {generation : Nat} {c : Candidates rt} {rule : AlertRule} {present : Bool} {t : Track}

theorem recordedFor_append (ns ns' : List Notification) :
    recordedFor rule (ns ++ ns') = recordedFor rule ns ++ recordedFor rule ns' := by
  rw [recordedFor, List.filter_append, List.map_append]
  rfl

/-- A watched store always has a track: its keys and the time in memory. -/
theorem watches_self (s : State) :
    Watches rt rule (s.view.alertRules.any (fun r => r.id == rule.id)
        && s.view.pairs.any (fun p => p.id == rule.pairId)) s
      ⟨s.view.notifications.map (fun n => n.idempotencyKey),
        s.mem.lastFiredAt s.mem.generation rule.id⟩ where
  last := rfl
  rows := rfl
  keys := by
    intro price at_
    rw [notificationWithKey_eq_none_iff, List.mem_map, not_exists]
    exact forall_congr' (fun n => ⟨fun h hn => h hn.1 hn.2, fun h hn heq => h ⟨hn, heq⟩⟩)

/-! ## Other candidates -/

section Step

variable {s : State}

/-- A fire of another rule. -/
theorem Watches.recordOne_other (hsha : Function.Injective rt.sha256)
    (h : Watches rt rule present s t) {other : AlertRule} (hne : other.id ≠ rule.id) :
    Watches rt rule present (recordOne rt pair obs generation c s other) t where
  last := by
    show (if s.mem.generation = generation ∧ rule.id = other.id then _ else _) = _
    rw [if_neg (fun hboth => hne hboth.2.symm)]
    exact h.last
  rows := by
    rw [recordOne_hasRule]
    exact h.rows
  keys := by
    intro price at_
    rw [recordOne_key, h.keys]
    refine ⟨fun hboth => hboth.1, fun hnew => ⟨hnew, ?_⟩⟩
    intro heq
    exact hne (keyParts_inj (hsha heq)).1

/-- A rule row after a fire. -/
theorem recordOne_row {other row : AlertRule}
    (h : row ∈ (recordOne rt pair obs generation c s other).view.alertRules) :
    ∃ r ∈ s.view.alertRules, row.id = r.id
      ∧ (r.id = other.id → row.lastFiredAt = some obs.observedAt)
      ∧ (r.id ≠ other.id → row.lastFiredAt = r.lastFiredAt) := by
  obtain ⟨r, hr, rfl⟩ := List.mem_map.mp h
  refine ⟨r, hr, ?_⟩
  by_cases hid : r.id = other.id
  · rw [if_pos (beq_iff_eq.mpr hid)]
    exact ⟨rfl, fun _ => rfl, fun hne => absurd hid hne⟩
  · rw [if_neg (fun hbeq => hid (beq_iff_eq.mp hbeq))]
    exact ⟨rfl, fun heq => absurd heq hid, fun _ => rfl⟩

theorem StoredAt.recordOne_other {at_ : Option Instant} (h : StoredAt rule s at_) {other : AlertRule}
    (hne : other.id ≠ rule.id) :
    StoredAt rule (recordOne rt pair obs generation c s other) at_ := by
  intro row hrow hid
  obtain ⟨r, hr, hrow_id, -, hkept⟩ := recordOne_row hrow
  rw [hrow_id] at hid
  rw [hkept (fun heq => hne (heq.symm.trans hid))]
  exact h r hr hid

/-- What other rules do to a watched one: nothing. -/
structure Untouched (rt : Runtime) (rule : AlertRule) (present : Bool) (t : Track) (s : State)
    (created : List Notification) (s' : State) : Prop where
  watches : Watches rt rule present s' t
  stored : ∀ at_, StoredAt rule s at_ → StoredAt rule s' at_
  recorded : recordedFor rule created = []

/-- One candidate that is another rule. -/
theorem Watches.fireOne_other (hsha : Function.Injective rt.sha256)
    (h : Watches rt rule present s t) {other : AlertRule} (hne : other.id ≠ rule.id) :
    Untouched rt rule present t s (fireOne rt pair obs generation c s other).1.toList
      (fireOne rt pair obs generation c s other).2 := by
  rw [fireOne]
  cases recordable rt pair obs s.view other with
  | false => exact ⟨h, fun _ hat => hat, rfl⟩
  | true =>
      refine ⟨h.recordOne_other hsha hne, fun _ hat => hat.recordOne_other hne, ?_⟩
      rw [recordedFor, if_pos rfl, Option.toList_some,
        List.filter_cons_of_neg (by simpa [flushed, recordedAs, newNotification] using hne)]
      rfl

/-- Candidates that are other rules. -/
theorem Watches.fireAll_other (hsha : Function.Injective rt.sha256) {rules : List AlertRule} :
    ∀ {s : State}, Watches rt rule present s t → (∀ r ∈ rules, r.id ≠ rule.id) →
      Untouched rt rule present t s (fireAll rt pair obs generation c rules s).1
        (fireAll rt pair obs generation c rules s).2 := by
  induction rules with
  | nil => exact fun h _ => ⟨h, fun _ hat => hat, rfl⟩
  | cons other rest ih =>
      intro s h hne
      have hfirst := @Watches.fireOne_other rt pair obs generation c rule present t s hsha h other
        (hne other List.mem_cons_self)
      have hrest := ih hfirst.watches (fun r hr => hne r (List.mem_cons_of_mem _ hr))
      refine ⟨hrest.watches, fun at_ hat => hrest.stored at_ (hfirst.stored at_ hat), ?_⟩
      show recordedFor rule (_ ++ _) = []
      rw [recordedFor_append, hfirst.recorded, hrest.recorded]
      rfl

/-! ## The rule itself -/

/-- The cooldown test on the object is the track's. -/
theorem Watches.suppressedBy (h : Watches rt rule present s t) :
    suppressedBy obs s.mem.generation s.mem rule
      = cooling rule.cooldownSeconds t.lastFiredAt obs.observedAt := by
  rw [← h.last]
  rfl

theorem keyOf_eq_ownKey (hp : rule.pairId = pair.id) :
    keyOf rt pair obs rule = ownKey rt rule obs.last obs.observedAt := by
  rw [keyOf, ownKey, hp]

/-- A candidate is recorded when its track records the sighting. -/
theorem Watches.recordable_eq (h : Watches rt rule present s t)
    (hp : rule.pairId = pair.id) :
    recordable rt pair obs s.view rule = t.records (sightingOf rt rule present obs true) := by
  have hkey : (s.view.notificationWithKey (keyOf rt pair obs rule)).isNone
      = !t.keys.contains (ownKey rt rule obs.last obs.observedAt) := by
    rw [Bool.eq_iff_iff, Option.isNone_iff_eq_none, Bool.not_eq_true', ← Bool.not_eq_true,
      List.contains_iff_mem, keyOf_eq_ownKey hp]
    exact h.keys _ _
  have hrows : (s.view.alertRules.any (fun r => r.id == rule.id)
      && s.view.pairs.any (fun p => p.id == pair.id)) = present := by
    rw [← hp]
    exact h.rows
  rw [recordable, Bool.and_assoc, hkey, hrows, Bool.and_comm]
  rfl

theorem Watches.recordOne_own (h : Watches rt rule present s t) (hp : rule.pairId = pair.id) :
    Watches rt rule present (recordOne rt pair obs s.mem.generation c s rule)
      ⟨ownKey rt rule obs.last obs.observedAt :: t.keys, some obs.observedAt⟩ where
  last := by
    show (if s.mem.generation = s.mem.generation ∧ rule.id = rule.id then
      some obs.observedAt else _) = some obs.observedAt
    rw [if_pos ⟨rfl, rfl⟩]
  rows := by
    rw [recordOne_hasRule]
    exact h.rows
  keys := by
    intro price at_
    rw [recordOne_key, h.keys, keyOf_eq_ownKey hp, List.mem_cons, not_or, and_comm]
    exact and_congr_left (fun _ => ne_comm)

theorem storedAt_recordOne_own :
    StoredAt rule (recordOne rt pair obs generation c s rule) (some obs.observedAt) := by
  intro row hrow hid
  obtain ⟨r, -, hrow_id, hfired, -⟩ := recordOne_row hrow
  exact hfired (hrow_id.symm.trans hid)

/-- The time of the last fire after a sighting. -/
def timeAfter (t : Track) (x : Sighting) (at_ : Option Instant) : Option Instant :=
  if t.records x then some x.observedAt else at_

/-- The notifications of a sighting. -/
def noticesOf (rt : Runtime) (rule : AlertRule) (pair : Pair) (obs : Observation) (t : Track)
    (x : Sighting) : List NewNotification :=
  if t.records x then [noticeOf rt rule pair obs t] else []

/-- What an evaluation does to a watched rule: it takes the step of its track. -/
structure Stepped (rt : Runtime) (rule : AlertRule) (pair : Pair) (obs : Observation)
    (present : Bool) (t : Track) (x : Sighting) (s : State) (created : List Notification)
    (s' : State) : Prop where
  watches : Watches rt rule present s' (t.see rule.cooldownSeconds x).2
  stored : ∀ at_, StoredAt rule s at_ → StoredAt rule s' (timeAfter t x at_)
  recorded : recordedFor rule created = noticesOf rt rule pair obs t x

/-- A sighting that is not recorded is no step. -/
theorem Untouched.stepped {created : List Notification} {s' : State}
    (h : Untouched rt rule present t s created s') {x : Sighting} (hx : t.records x = false) :
    Stepped rt rule pair obs present t x s created s' where
  watches := by
    rw [Track.see_of_not_records hx]
    exact h.watches
  stored := by
    intro at_ hat
    rw [timeAfter, hx]
    exact h.stored at_ hat
  recorded := by
    rw [noticesOf, hx]
    exact h.recorded

/-- One candidate, the rule itself. -/
theorem Watches.fireOne_own (h : Watches rt rule present s t) (hp : rule.pairId = pair.id) :
    Stepped rt rule pair obs present t (sightingOf rt rule present obs true) s
      (fireOne rt pair obs s.mem.generation c s rule).1.toList
      (fireOne rt pair obs s.mem.generation c s rule).2 := by
  have hrec : recordable rt pair obs s.view rule
      = t.records (sightingOf rt rule present obs true) := h.recordable_eq hp
  rw [fireOne, hrec]
  cases hx : t.records (sightingOf rt rule present obs true) with
  | false =>
      have hsame : Untouched rt rule present t s [] s := ⟨h, fun _ hat => hat, rfl⟩
      exact hsame.stepped hx
  | true =>
      rw [if_pos rfl]
      constructor
      · rw [Track.see_of_records hx]
        exact h.recordOne_own hp
      · intro at_ _
        rw [timeAfter, hx]
        exact storedAt_recordOne_own
      · rw [noticesOf, if_pos hx, noticeOf, ← h.suppressedBy, recordedFor, Option.toList_some,
          List.filter_cons_of_pos (by simp [flushed, recordedAs, newNotification])]
        rfl

theorem fireOne_generation (other : AlertRule) :
    (fireOne rt pair obs generation c s other).2.mem.generation = s.mem.generation := by
  rw [fireOne]
  cases recordable rt pair obs s.view other with
  | false => rfl
  | true => rfl

end Step

/-- Candidates among which the rule is. -/
theorem Watches.fireAll_own (hsha : Function.Injective rt.sha256) (hp : rule.pairId = pair.id)
    {rules : List AlertRule} :
    ∀ {s : State}, s.mem.generation = generation → Watches rt rule present s t →
      (rules.map AlertRule.id).Nodup → rule ∈ rules →
      Stepped rt rule pair obs present t (sightingOf rt rule present obs true) s
        (fireAll rt pair obs generation c rules s).1
        (fireAll rt pair obs generation c rules s).2 := by
  induction rules with
  | nil => exact fun _ _ _ hmem => absurd hmem List.not_mem_nil
  | cons head rest ih =>
      intro s hgen h hnodup hmem
      rw [List.map_cons, List.nodup_cons] at hnodup
      by_cases hhead : head = rule
      · -- The rule comes first: what follows are other rules.
        subst hhead
        subst hgen
        have hown := @Watches.fireOne_own rt pair obs c head present t s h hp
        have hrest := @Watches.fireAll_other rt pair obs s.mem.generation c head present _ hsha
          rest _ hown.watches (fun r hr heq => hnodup.1 (heq ▸ List.mem_map_of_mem hr))
        refine ⟨hrest.watches, fun at_ hat => hrest.stored _ (hown.stored at_ hat), ?_⟩
        show recordedFor head (_ ++ _) = _
        rw [recordedFor_append, hown.recorded, hrest.recorded, List.append_nil]
      · have hrest : rule ∈ rest := (List.mem_cons.mp hmem).resolve_left (fun heq => hhead heq.symm)
        have hne : head.id ≠ rule.id := fun heq =>
          hnodup.1 (heq ▸ List.mem_map_of_mem hrest)
        have hfirst := @Watches.fireOne_other rt pair obs generation c rule present t s hsha h head
          hne
        have hlater := ih ((fireOne_generation head).trans hgen) hfirst.watches hnodup.2 hrest
        refine ⟨hlater.watches, fun at_ hat => hlater.stored at_ (hfirst.stored at_ hat), ?_⟩
        show recordedFor rule (_ ++ _) = _
        rw [recordedFor_append, hfirst.recorded, hlater.recorded, List.nil_append]

/-! ## Evaluations -/

/-- A returned evaluation over a loaded index is the loop over its candidates. -/
theorem evaluate_ok {rules : List AlertRule} {s s' : State} {created : List Notification}
    (hl : Loaded rules s.mem)
    (hrun : runTx (evaluateRulesForPair rt settings pair obs) s = (.ok created, s')) :
    ∃ c, candidatesIn rt settings s.view pair obs (s.mem.rulesForPair pair.id) = .ok c
      ∧ created = (fireAll rt pair obs s.mem.generation c c.rules s).1
      ∧ s' = (fireAll rt pair obs s.mem.generation c c.rules s).2 := by
  have hrun' := @runTx_evaluateRulesForPair rt settings pair obs s pair.id (hl.wellFormed pair.id)
  rw [hrun] at hrun'
  cases hc : candidatesIn rt settings s.view pair obs (s.mem.rulesForPair pair.id) with
  | error e =>
      rw [hc] at hrun'
      cases (Prod.mk.inj hrun').1
  | ok c =>
      rw [hc] at hrun'
      obtain ⟨hcreated, hs'⟩ := Prod.mk.inj hrun'
      exact ⟨c, rfl, Except.ok.inj hcreated, hs'⟩

/-- A watched rule takes the step of its track in every evaluation of its pair, on the
    verdict of its own predicate. -/
theorem evaluate_watched (hsha : Function.Injective rt.sha256) {rules : List AlertRule}
    {s s' : State} {created : List Notification} (hl : Loaded rules s.mem) (hr : rule ∈ rules)
    (hp : rule.pairId = pair.id) (h : Watches rt rule present s t)
    (hrun : runTx (evaluateRulesForPair rt settings pair obs) s = (.ok created, s')) :
    ∃ verdict, ownPredicate rt settings s.view pair obs rule = .ok verdict
      ∧ Stepped rt rule pair obs present t (sightingOf rt rule present obs verdict) s
        created s' := by
  have hw := hl.wellFormed pair.id
  obtain ⟨c, hc, rfl, rfl⟩ := evaluate_ok hl hrun
  obtain ⟨hscore, -, hrules, -⟩ := candidatesIn_ok rt settings hc
  have hmem : rule ∈ (s.mem.rulesForPair pair.id).all := hl.mem_all.mpr ⟨hr, hp⟩
  rw [selectedIn_eq_filter rt settings hw (hl.scanOrder pair.id)] at hrules
  refine ⟨_, ownPredicate_eq_firesIn hw hscore (hl.windows pair.id) hmem, ?_⟩
  cases hfires : firesIn rt settings s.view pair obs c.zscoreResult rule with
  | true =>
      have hnodup : (c.rules.map AlertRule.id).Nodup := by
        rw [hrules]
        exact hw.nodup.sublist (List.filter_sublist.map _)
      refine h.fireAll_own hsha hp rfl hnodup ?_
      rw [hrules]
      exact List.mem_filter.mpr ⟨hmem, hfires⟩
  | false =>
      have hother : ∀ r ∈ c.rules, r.id ≠ rule.id := by
        intro r hr' heq
        rw [hrules] at hr'
        obtain ⟨hr'mem, hr'fires⟩ := List.mem_filter.mp hr'
        obtain rfl : r = rule := List.inj_on_of_nodup_map hw.nodup hr'mem hmem heq
        rw [hfires] at hr'fires
        cases hr'fires
      exact (h.fireAll_other hsha hother).stepped rfl

/-- An evaluation of another pair does nothing to a watched rule. -/
theorem evaluate_unwatched (hsha : Function.Injective rt.sha256) {rules : List AlertRule}
    {s s' : State} {created : List Notification} (hl : Loaded rules s.mem) (hr : rule ∈ rules)
    (hp : rule.pairId ≠ pair.id) (h : Watches rt rule present s t)
    (hrun : runTx (evaluateRulesForPair rt settings pair obs) s = (.ok created, s')) :
    Untouched rt rule present t s created s' := by
  obtain ⟨c, hc, rfl, rfl⟩ := evaluate_ok hl hrun
  obtain ⟨-, -, hrules, -⟩ := candidatesIn_ok rt settings hc
  refine h.fireAll_other hsha ?_
  intro r hr' heq
  rw [hrules] at hr'
  obtain ⟨hr'rules, hr'pair⟩ := hl.mem_all.mp (selectedIn_subset rt settings hr')
  obtain rfl : r = rule := List.inj_on_of_nodup_map hl.nodup hr'rules hr heq
  exact hp hr'pair

/-- What an evaluation leaves alone. -/
theorem evaluate_frame {rules : List AlertRule} {s s' : State} {created : List Notification}
    (hl : Loaded rules s.mem)
    (hrun : runTx (evaluateRulesForPair rt settings pair obs) s = (.ok created, s')) :
    s'.view.priceHistory = s.view.priceHistory ∧ s'.mem.buckets = s.mem.buckets := by
  obtain ⟨c, -, -, rfl⟩ := evaluate_ok hl hrun
  obtain ⟨hhistory, hbuckets, -⟩ := fireAll_frame rt pair obs s.mem.generation c c.rules s
  exact ⟨hhistory, hbuckets⟩

end Dropwatch.Isolation
