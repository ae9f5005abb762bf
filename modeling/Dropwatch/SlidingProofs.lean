import Dropwatch.FailedBatchProofs

/-! # The sliding cooldown — `_in_cooldown` over a sequence of calls

    A rule's `last_fired_at` exists twice, in the index object and in its row, and
    every recorded fire sets both, suppressed or not.  Over a sequence of committed
    calls on one index they therefore agree, and each status is decided by the
    distance to the fire before it (`Slides`).

    The route: one pass of the firing loop (`advanced_fireOne`), the loop
    (`advanced_fireAll`), one call (`advanced_call`), all calls
    (`sliding_cooldown`). -/

namespace Dropwatch.Sliding

open Transact RuleIndex Evaluator Poller

/-- A recorded notification: the `observed_at` of its call, and its status. -/
abbrev Entry := Instant × Status

/-- The status of a fire at `t`, the one before it being at `previous`. -/
def statusAfter (cooldownSeconds : Int) (previous : Option Instant) (t : Instant) : Status :=
  match previous with
  | none => .pending
  | some t' =>
      if 0 < cooldownSeconds ∧ t - t' < seconds cooldownSeconds then .suppressedCooldown
      else .pending

/-- Every status is decided by the distance to the fire before it. -/
def Slides (cooldownSeconds : Int) : Option Instant → List Entry → Prop
  | _, [] => True
  | previous, (t, status) :: rest =>
      status = statusAfter cooldownSeconds previous t ∧ Slides cooldownSeconds (some t) rest

/-- The time of the last fire, from the time of the one before them. -/
def lastOf : Option Instant → List Entry → Option Instant
  | previous, [] => previous
  | _, (t, _) :: rest => lastOf (some t) rest

/-- What a call records for a rule. -/
def entriesOf (ruleId : Uuid) (t : Instant) (created : List Notification) : List Entry :=
  (created.filter (fun n => n.ruleId == ruleId)).map (fun n => (t, n.status))

theorem entriesOf_singleton (ruleId : Uuid) (t : Instant) (n : Notification) :
    entriesOf ruleId t [n] = if n.ruleId = ruleId then [(t, n.status)] else [] := by
  by_cases h : n.ruleId = ruleId
  · simp [entriesOf, h]
  · simp [entriesOf, h]

/-- Only the rule and the status of a row count. -/
theorem entriesOf_congr {ruleId : Uuid} {t : Instant} {xs ys : List Notification}
    (h : xs.map (fun n => (n.ruleId, n.status)) = ys.map (fun n => (n.ruleId, n.status))) :
    entriesOf ruleId t xs = entriesOf ruleId t ys := by
  have hmap : ∀ zs : List Notification, entriesOf ruleId t zs
      = ((zs.map (fun n => (n.ruleId, n.status))).filter (fun x => x.1 == ruleId)).map
        (fun x => (t, x.2)) := by
    intro zs
    rw [List.filter_map, List.map_map]
    rfl
  rw [hmap, hmap, h]

theorem entriesOf_append (ruleId : Uuid) (t : Instant) (xs ys : List Notification) :
    entriesOf ruleId t (xs ++ ys) = entriesOf ruleId t xs ++ entriesOf ruleId t ys := by
  rw [entriesOf, List.filter_append, List.map_append]
  rfl

section Entries

variable {cooldownSeconds : Int} {previous : Option Instant} {xs ys : List Entry}

theorem lastOf_append : lastOf previous (xs ++ ys) = lastOf (lastOf previous xs) ys := by
  induction xs generalizing previous with
  | nil => rfl
  | cons x rest ih => exact ih

theorem Slides.append (hx : Slides cooldownSeconds previous xs)
    (hy : Slides cooldownSeconds (lastOf previous xs) ys) :
    Slides cooldownSeconds previous (xs ++ ys) := by
  induction xs generalizing previous with
  | nil => exact hy
  | cons x rest ih => exact ⟨hx.1, ih hx.2 hy⟩

/-- A time that is not inside the cooldown of an earlier one. -/
theorem cooldown_over {c p t : Int} (h : ¬ (0 < c ∧ t - p < seconds c)) (hp : p ≤ t) :
    p + seconds c ≤ t := by
  rw [seconds] at h ⊢
  omega

/-- After a fire at `p` nothing is delivered before the cooldown is over. -/
theorem Slides.apart {p : Instant} (h : Slides cooldownSeconds (some p) xs)
    (hsorted : (p :: xs.map Prod.fst).Pairwise (· ≤ ·)) {t : Instant}
    (ht : (t, Status.pending) ∈ xs) : p + seconds cooldownSeconds ≤ t := by
  induction xs generalizing p with
  | nil => exact absurd ht List.not_mem_nil
  | cons x rest ih =>
      obtain ⟨t₀, status⟩ := x
      obtain ⟨hstatus, hrest⟩ := h
      obtain ⟨hfirst, hsorted'⟩ := List.pairwise_cons.mp hsorted
      have hp : p ≤ t₀ := hfirst t₀ List.mem_cons_self
      rcases List.mem_cons.mp ht with heq | hlater
      · obtain ⟨rfl, rfl⟩ := Prod.mk.inj heq
        rw [statusAfter] at hstatus
        by_cases hcool : 0 < cooldownSeconds ∧ t - p < seconds cooldownSeconds
        · rw [if_pos hcool] at hstatus
          cases hstatus
        · exact cooldown_over hcool hp
      · exact Int.le_trans (Int.add_le_add_right hp _) (ih hrest hsorted' hlater)

/-- Delivered fires are a cooldown apart. -/
theorem Slides.delivered (h : Slides cooldownSeconds previous xs)
    (hsorted : (xs.map Prod.fst).Pairwise (· ≤ ·)) :
    (xs.filter (fun x => x.2 = .pending)).Pairwise
      (fun x y => x.1 + seconds cooldownSeconds ≤ y.1) := by
  induction xs generalizing previous with
  | nil => exact List.Pairwise.nil
  | cons x rest ih =>
      obtain ⟨t, status⟩ := x
      have hrest := ih h.2 (List.pairwise_cons.mp hsorted).2
      by_cases hp : status = .pending
      · rw [List.filter_cons_of_pos (by simpa using hp)]
        refine List.pairwise_cons.mpr ⟨?_, hrest⟩
        rintro ⟨t', status'⟩ hy
        obtain ⟨hmem, hpending⟩ := List.mem_filter.mp hy
        have hstatus : status' = .pending := by simpa using hpending
        rw [hstatus] at hmem
        exact Slides.apart h.2 hsorted hmem
      · rw [List.filter_cons_of_neg (by simpa using hp)]
        exact hrest

end Entries

/-! ## One call -/

/-- Both copies of a rule's `last_fired_at` are `last`. -/
structure Advanced (s : State) (ruleId : Uuid) (last : Option Instant) : Prop where
  memory : s.mem.lastFiredAt s.mem.generation ruleId = last
  stored : ∀ row ∈ s.view.alertRules, row.id = ruleId → row.lastFiredAt = last

/-- The cooldown test decides the status. -/
theorem status_eq (rule : AlertRule) (last : Option Instant) (t : Instant) :
    (if inCooldown { rule with lastFiredAt := last } t then Status.suppressedCooldown
      else .pending) = statusAfter rule.cooldownSeconds last t := by
  cases last with
  | none => rfl
  | some t' =>
      rw [statusAfter, inCooldown]
      show (if (if rule.cooldownSeconds ≤ 0 then false
        else decide (t - t' < seconds rule.cooldownSeconds)) = true then _ else _) = _
      by_cases hzero : rule.cooldownSeconds ≤ 0
      · rw [if_pos hzero, if_neg Bool.false_ne_true, if_neg (fun h => absurd h.1 (by omega))]
      · rw [if_neg hzero]
        by_cases hsoon : t - t' < seconds rule.cooldownSeconds
        · rw [if_pos (decide_eq_true hsoon), if_pos ⟨by omega, hsoon⟩]
        · rw [if_neg (by simpa using hsoon), if_neg (fun h => hsoon h.2)]

section Call

variable {rt : Runtime} {settings : Settings} {pair : Pair} {obs : Observation}
  {c : Candidates rt} {rule : AlertRule} {s : State} {last : Option Instant}

theorem advanced_recordOne_self :
    Advanced (recordOne rt pair obs s.mem.generation c s rule) rule.id (some obs.observedAt) where
  memory := if_pos ⟨rfl, rfl⟩
  stored := by
    intro row hrow hid
    obtain ⟨r, hr, rfl⟩ := List.mem_map.mp hrow
    by_cases hrid : r.id = rule.id
    · simp [hrid]
    · simp [hrid] at hid

theorem advanced_recordOne_ne {other : AlertRule} (hne : other.id ≠ rule.id)
    (h : Advanced s rule.id last) :
    Advanced (recordOne rt pair obs s.mem.generation c s other) rule.id last where
  memory := by
    show (if s.mem.generation = s.mem.generation ∧ rule.id = other.id then some obs.observedAt
      else s.mem.lastFiredAt s.mem.generation rule.id) = last
    rw [if_neg (fun h => hne h.2.symm)]
    exact h.memory
  stored := by
    intro row hrow hid
    obtain ⟨r, hr, rfl⟩ := List.mem_map.mp hrow
    by_cases hrid : r.id = other.id
    · simp [hrid] at hid
      exact absurd hid hne
    · simp [hrid] at hid ⊢
      exact h.stored r hr hid

/-- One pass of the loop. -/
theorem advanced_fireOne {other : AlertRule} (hid : other.id = rule.id → other = rule)
    (h : Advanced s rule.id last) :
    Slides rule.cooldownSeconds last (entriesOf rule.id obs.observedAt
        (fireOne rt pair obs s.mem.generation c s other).1.toList)
      ∧ Advanced (fireOne rt pair obs s.mem.generation c s other).2 rule.id
        (lastOf last (entriesOf rule.id obs.observedAt
          (fireOne rt pair obs s.mem.generation c s other).1.toList)) := by
  cases hrec : recordable rt pair obs s.view other with
  | false =>
      simp only [fireOne, hrec, Bool.false_eq_true, if_false]
      exact ⟨trivial, h⟩
  | true =>
      simp only [fireOne, hrec, if_true]
      by_cases hother : other.id = rule.id
      · obtain rfl := hid hother
        have hentries : entriesOf other.id obs.observedAt
            [flushed (nextGenerated s) (recordedAs rt pair obs s.mem.generation s other)]
              = [(obs.observedAt, statusAfter other.cooldownSeconds last obs.observedAt)] := by
          rw [entriesOf_singleton, ← status_eq other last obs.observedAt, ← h.memory]
          exact if_pos rfl
        rw [Option.toList_some, hentries]
        exact ⟨⟨rfl, trivial⟩, advanced_recordOne_self⟩
      · have hentries : entriesOf rule.id obs.observedAt
            [flushed (nextGenerated s) (recordedAs rt pair obs s.mem.generation s other)] = [] := by
          rw [entriesOf_singleton]
          exact if_neg hother
        rw [Option.toList_some, hentries]
        exact ⟨trivial, advanced_recordOne_ne hother h⟩

/-- The rows that the loop adds are the notifications that it returns. -/
theorem rows_fireAll (rules : List AlertRule) (s : State) :
    ∃ rows, (fireAll rt pair obs s.mem.generation c rules s).2.view.notifications
        = s.view.notifications ++ rows
      ∧ rows.map (fun n => (n.ruleId, n.status))
        = (fireAll rt pair obs s.mem.generation c rules s).1.map (fun n => (n.ruleId, n.status)) := by
  generalize s.mem.generation = generation
  induction rules generalizing s with
  | nil => exact ⟨[], (List.append_nil _).symm, rfl⟩
  | cons head rest ih =>
      obtain ⟨rows, hrows, hcreated⟩ := ih (fireOne rt pair obs generation c s head).2
      cases hrec : recordable rt pair obs s.view head with
      | false =>
          have hone : fireOne rt pair obs generation c s head = (none, s) := by
            rw [fireOne, hrec]
            rfl
          rw [hone] at hrows hcreated
          rw [fireAll, hone]
          exact ⟨rows, hrows, hcreated⟩
      | true =>
          have hone : fireOne rt pair obs generation c s head
              = (some (flushed (nextGenerated s) (recordedAs rt pair obs generation s head)),
                recordOne rt pair obs generation c s head) := by
            rw [fireOne, hrec]
            rfl
          rw [hone] at hrows hcreated
          rw [fireAll, hone]
          refine ⟨(recordedAs rt pair obs generation s head).row (nextGenerated s) :: rows, ?_, ?_⟩
          · refine hrows.trans ?_
            rw [List.append_cons]
            rfl
          · show _ :: rows.map _ = _ :: _
            rw [hcreated]
            rfl

/-- The loop. -/
theorem advanced_fireAll {rules : List AlertRule}
    (hid : ∀ other ∈ rules, other.id = rule.id → other = rule) (h : Advanced s rule.id last) :
    Slides rule.cooldownSeconds last (entriesOf rule.id obs.observedAt
        (fireAll rt pair obs s.mem.generation c rules s).1)
      ∧ Advanced (fireAll rt pair obs s.mem.generation c rules s).2 rule.id
        (lastOf last (entriesOf rule.id obs.observedAt
          (fireAll rt pair obs s.mem.generation c rules s).1)) := by
  induction rules generalizing s last with
  | nil => exact ⟨trivial, h⟩
  | cons head rest ih =>
      obtain ⟨hone, hadvanced⟩ := @advanced_fireOne rt pair obs c rule s last head
        (hid head List.mem_cons_self) h
      obtain ⟨-, -, hgeneration, -⟩ := fireAll_frame rt pair obs s.mem.generation c [head] s
      have hgeneration : (fireOne rt pair obs s.mem.generation c s head).2.mem.generation
          = s.mem.generation := hgeneration
      obtain ⟨hrest, hlast⟩ := ih (fun r hr => hid r (List.mem_cons_of_mem _ hr)) hadvanced
      rw [hgeneration] at hrest hlast
      rw [fireAll, entriesOf_append, lastOf_append]
      exact ⟨hone.append hrest, hlast⟩

end Call

/-! ## All calls -/

section Calls

variable (rt : Runtime) (settings : Settings)

/-- `evaluate_rules_for_pair` in a transaction of its own. -/
def committedCall (pair : Pair) (obs : Observation) : Tx Unit := do
  let _ ← evaluateRulesForPair rt settings pair obs
  Tx.commit

/-- Between two calls others may write what they like, but for `last_fired_at` and the
    index. -/
structure Idle (s s' : State) : Prop where
  memory : s'.mem = s.mem
  fresh : s'.view = s'.committed
  lastFiredAt : s'.committed.alertRules.map (fun r => (r.id, r.lastFiredAt))
    = s.committed.alertRules.map (fun r => (r.id, r.lastFiredAt))

/-- Calls that return, one after another, with the notifications they record. -/
inductive Calls : State → List (Observation × List Notification) → State → Prop where
  | nil (s : State) : Calls s [] s
  | call {s s₁ s₂ s' : State} {pair : Pair} {obs : Observation} {recorded : List Notification}
      {calls : List (Observation × List Notification)} (hidle : Idle s s₁)
      (hrun : runTx (committedCall rt settings pair obs) s₁ = (.ok (), s₂))
      (hrecorded : s₂.committed.notifications = s₁.committed.notifications ++ recorded)
      (hrest : Calls s₂ calls s') : Calls s ((obs, recorded) :: calls) s'

/-- The recorded notifications of a rule, over all calls. -/
def entries (ruleId : Uuid) (calls : List (Observation × List Notification)) : List Entry :=
  calls.flatMap (fun call => entriesOf ruleId call.1.observedAt call.2)

variable {rt settings}

/-- Both copies of a rule's `last_fired_at` between two calls. -/
structure Settled (s : State) (ruleId : Uuid) (last : Option Instant) : Prop where
  memory : s.mem.lastFiredAt s.mem.generation ruleId = last
  stored : ∀ row ∈ s.committed.alertRules, row.id = ruleId → row.lastFiredAt = last

theorem Settled.advanced {s s₁ : State} {ruleId : Uuid} {last : Option Instant}
    (h : Settled s ruleId last) (hidle : Idle s s₁) : Advanced s₁ ruleId last where
  memory := by
    rw [hidle.memory]
    exact h.memory
  stored := by
    intro row hrow hid
    rw [hidle.fresh] at hrow
    have hmem := List.mem_map_of_mem (f := fun r : AlertRule => (r.id, r.lastFiredAt)) hrow
    rw [hidle.lastFiredAt] at hmem
    obtain ⟨row', hrow', heq⟩ := List.mem_map.mp hmem
    obtain ⟨hid', hlast⟩ := Prod.mk.inj heq
    rw [← hlast]
    exact h.stored row' hrow' (hid'.trans hid)

/-- One call. -/
theorem settled_call {s s₁ s₂ : State} {pair : Pair} {obs : Observation}
    {recorded : List Notification} {rule : AlertRule} {last : Option Instant}
    (hm : s.mem.Indexed) (hids : DistinctIds s.mem)
    (hrule : ∃ pairId, rule ∈ (s.mem.rulesForPair pairId).all) (h : Settled s rule.id last)
    (hidle : Idle s s₁)
    (hrun : runTx (committedCall rt settings pair obs) s₁ = (.ok (), s₂))
    (hrecorded : s₂.committed.notifications = s₁.committed.notifications ++ recorded) :
    Slides rule.cooldownSeconds last (entriesOf rule.id obs.observedAt recorded)
      ∧ Settled s₂ rule.id (lastOf last (entriesOf rule.id obs.observedAt recorded))
      ∧ s₂.mem.buckets = s.mem.buckets := by
  obtain ⟨created, s₃, hevaluate, hcommit⟩ := runTx_bind_inv hrun
  obtain ⟨-, rfl⟩ := Prod.mk.inj hcommit
  have hw : (s₁.mem.rulesForPair pair.id).WellFormed pair.id := by
    rw [hidle.memory]
    exact hm pair.id
  rw [runTx_evaluateRulesForPair rt settings hw] at hevaluate
  cases hc : candidatesIn rt settings s₁.view pair obs (s₁.mem.rulesForPair pair.id) with
  | error e =>
      rw [hc] at hevaluate
      cases (Prod.mk.inj hevaluate).1
  | ok c =>
      rw [hc] at hevaluate
      obtain ⟨-, rfl⟩ := Prod.mk.inj hevaluate
      -- A candidate with the id of the rule is the rule.
      have hid : ∀ other ∈ c.rules, other.id = rule.id → other = rule := by
        intro other hother heq
        obtain ⟨pairId, hmem⟩ := hrule
        rw [(candidatesIn_ok rt settings hc).2.2.1] at hother
        have hbucket := selectedIn_subset rt settings hother
        rw [hidle.memory] at hbucket
        exact hids pair.id pairId other rule hbucket hmem heq
      obtain ⟨hslides, hadvanced⟩ := advanced_fireAll (c := c) hid (h.advanced hidle)
      obtain ⟨-, hbuckets, -⟩ := fireAll_frame rt pair obs s₁.mem.generation c c.rules s₁
      -- The rows that were added are the notifications that were returned.
      obtain ⟨rows, hrows, hmap⟩ := rows_fireAll c.rules s₁
      have hadded : s₁.view.notifications ++ rows = s₁.committed.notifications ++ recorded :=
        hrows.symm.trans hrecorded
      rw [hidle.fresh] at hadded
      rw [List.append_cancel_left hadded] at hmap
      rw [entriesOf_congr hmap]
      refine ⟨hslides, ⟨hadvanced.memory, hadvanced.stored⟩, hbuckets.trans ?_⟩
      rw [hidle.memory]

theorem slides_calls {s s' : State} {rule : AlertRule} {last : Option Instant}
    {calls : List (Observation × List Notification)} (hm : s.mem.Indexed) (hids : DistinctIds s.mem)
    (hrule : ∃ pairId, rule ∈ (s.mem.rulesForPair pairId).all) (hsettled : Settled s rule.id last)
    (h : Calls rt settings s calls s') :
    Slides rule.cooldownSeconds last (entries rule.id calls)
      ∧ Settled s' rule.id (lastOf last (entries rule.id calls)) := by
  induction h generalizing last with
  | nil s => exact ⟨trivial, hsettled⟩
  | call hidle hrun hrecorded _ ih =>
      obtain ⟨hslides, hsettled', hbuckets⟩ :=
        settled_call hm hids hrule hsettled hidle hrun hrecorded
      -- The index is the same one.
      have hpairs : ∀ pairId, _ = _ := fun pairId =>
        congrArg (fun b : Dict Uuid PairRules => (b.get? pairId).getD {}) hbuckets
      obtain ⟨hrest, hlast⟩ := ih
        (fun pairId => by rw [Memory.rulesForPair, hpairs pairId]; exact hm pairId)
        (by
          intro pairId pairId' r r' hr hr'
          rw [Memory.rulesForPair, hpairs] at hr hr'
          exact hids pairId pairId' r r' hr hr')
        (by
          obtain ⟨pairId, hmem⟩ := hrule
          refine ⟨pairId, ?_⟩
          rw [Memory.rulesForPair, hpairs pairId]
          exact hmem) hsettled'
      rw [entries, List.flatMap_cons]
      refine ⟨hslides.append hrest, ?_⟩
      rw [lastOf_append]
      exact hlast

/-- The times of the entries are those of the calls. -/
theorem pairwise_entries (ruleId : Uuid) {calls : List (Observation × List Notification)}
    (hmono : (calls.map (fun call => call.1.observedAt)).Pairwise (· ≤ ·)) :
    ((entries ruleId calls).map Prod.fst).Pairwise (· ≤ ·) := by
  have hconst : ∀ t ns, ∀ x ∈ (entriesOf ruleId t ns).map Prod.fst, x = t := by
    intro t ns x hx
    obtain ⟨e, he, rfl⟩ := List.mem_map.mp hx
    obtain ⟨n, -, rfl⟩ := List.mem_map.mp he
    rfl
  induction calls with
  | nil => exact List.Pairwise.nil
  | cons call rest ih =>
      obtain ⟨hfirst, hrest⟩ := List.pairwise_cons.mp hmono
      rw [entries, List.flatMap_cons, List.map_append]
      refine List.pairwise_append.mpr ⟨?_, ih hrest, ?_⟩
      · refine List.pairwise_of_forall_mem_list ?_
        intro x hx y hy
        rw [hconst _ _ x hx, hconst _ _ y hy]
      · intro x hx y hy
        obtain ⟨e, he, rfl⟩ := List.mem_map.mp hy
        obtain ⟨call', hcall', he'⟩ := List.mem_flatMap.mp he
        rw [hconst _ _ x hx, hconst _ _ e.1 (List.mem_map_of_mem he')]
        exact hfirst _ (List.mem_map_of_mem hcall')

/-- Over any sequence of committed calls on one index, the notifications of a rule that
    had never fired are delivered or suppressed by the distance to the one before, both
    copies of `last_fired_at` are the time of the last one, and delivered ones are a
    cooldown apart. -/
theorem sliding_cooldown (rt : Runtime) (settings : Settings) {s s' : State} {pairId : Uuid}
    {rule : AlertRule} {calls : List (Observation × List Notification)}
    (hm : s.mem.Indexed) (hids : DistinctIds s.mem)
    (hrule : rule ∈ (s.mem.rulesForPair pairId).all) (hnever : Settled s rule.id none)
    (hmono : (calls.map (fun call => call.1.observedAt)).Pairwise (· ≤ ·))
    (h : Calls rt settings s calls s') :
    Slides rule.cooldownSeconds none (entries rule.id calls)
      ∧ Settled s' rule.id (lastOf none (entries rule.id calls))
      ∧ ((entries rule.id calls).filter (fun x => x.2 = .pending)).Pairwise
        (fun x y => x.1 + seconds rule.cooldownSeconds ≤ y.1) := by
  have hslides := slides_calls hm hids ⟨pairId, hrule⟩ hnever h
  refine ⟨hslides.1, hslides.2, hslides.1.delivered ?_⟩
  exact pairwise_entries rule.id hmono

end Calls

/-! ## An example -/

/-- The observed pair, and two observations of a high price a minute apart. -/
def spikePair : Pair := { id := 1, krakenPairName := "XBT/USD", displayName := "XBT/USD" }

def spikeAt (t : Int) : Observation := quoteObservation spikeQuote (seconds t)

/-- The stores after the first and the second call. -/
def slidOnce : State :=
  (runTx (committedCall Runtime.rational {} spikePair (spikeAt 1000000020)) spikeState).2

def slidTwice : State :=
  (runTx (committedCall Runtime.rational {} spikePair (spikeAt 1000000080)) slidOnce).2

/-- The first call delivers, the second a minute later does not. -/
def spikeCalls : List (Observation × List Notification) :=
  [(spikeAt 1000000020, slidOnce.committed.notifications),
    (spikeAt 1000000080, slidTwice.committed.notifications.drop 1)]

theorem calls_spike : Calls Runtime.rational {} spikeState spikeCalls slidTwice := by
  have hidle : ∀ s : State, s.view = s.committed → Idle s s := fun s h => ⟨rfl, h, rfl⟩
  have hfirst : runTx (committedCall Runtime.rational {} spikePair (spikeAt 1000000020)) spikeState
      = (.ok (), slidOnce) := Prod.ext (by decide +kernel) rfl
  have hsecond : runTx (committedCall Runtime.rational {} spikePair (spikeAt 1000000080)) slidOnce
      = (.ok (), slidTwice) := Prod.ext (by decide +kernel) rfl
  have hview : slidOnce.view = slidOnce.committed := by decide +kernel
  exact .call (hidle spikeState rfl) hfirst rfl
    (.call (hidle slidOnce hview) hsecond (by decide +kernel) (.nil slidTwice))

theorem sliding_cooldown_spike :
    Slides spikeRule.cooldownSeconds none (entries spikeRule.id spikeCalls)
      ∧ entries spikeRule.id spikeCalls
        = [(seconds 1000000020, .pending), (seconds 1000000080, .suppressedCooldown)] := by
  have hrule : spikeRule ∈ (spikeState.mem.rulesForPair 1).all := List.mem_singleton_self _
  have hnever : Settled spikeState spikeRule.id none := by
    refine ⟨rfl, ?_⟩
    intro row hrow _
    rw [List.mem_singleton.mp hrow]
    rfl
  have hmono : (spikeCalls.map (fun call => call.1.observedAt)).Pairwise (· ≤ ·) := by
    decide +kernel
  have hindexed : spikeState.mem.Indexed :=
    Memory.Indexed.install (by decide) rfl {}
  have hids : DistinctIds spikeState.mem :=
    distinctIds_install (by decide) rfl {}
  exact ⟨(sliding_cooldown Runtime.rational {} hindexed hids hrule hnever hmono calls_spike).1,
    by decide +kernel⟩

end Dropwatch.Sliding
