import Dropwatch.EvaluatorProofs
import Dropwatch.NaiveScanProofs
import Dropwatch.RulesApi
import Dropwatch.TotalityProofs

/-! # One rule on its own — the track of its fires

    What a rule does over a sequence of observations depends on little: whether
    its predicate holds, which detected states it has recorded, and when it last
    fired.  `Track` is that state and `see` its step; nothing here mentions
    tables or memory.

    The second half connects it: on an index holding a single rule,
    `evaluate_rules_for_pair` takes exactly the steps of the rule's track
    (`runTx_evaluate_single`), with the predicate evaluated over the tables of
    the moment. -/

namespace Dropwatch.Backtest

open Transact RuleIndex Zscore Evaluator RulesApi Totality

/-! ## The abstract engine -/

/-- What a rule remembers: the keys it has recorded, the latest first, and the
    instant of its last fire. -/
structure Track where
  keys : List String := []
  lastFiredAt : Option Instant := none

/-- An observation as a rule sees it: the key of the detected state, the price,
    the instant, and the verdict of the predicate. -/
structure Sighting where
  key : String
  price : Decimal
  observedAt : Instant
  fires : Bool

/-- Inside the cooldown of the last fire. -/
def cooling (cooldownSeconds : Int) (lastFiredAt : Option Instant) (now : Instant) :
    Bool :=
  match lastFiredAt with
  | none => false
  | some t => if cooldownSeconds ≤ 0 then false else now - t < seconds cooldownSeconds

/-- The fire of a sighting that is recorded. -/
def Sighting.fire (cooldownSeconds : Int) (x : Sighting) (t : Track) : Fire :=
  ⟨x.observedAt, x.price,
    if cooling cooldownSeconds t.lastFiredAt x.observedAt then .suppressedCooldown
    else .pending⟩

/-- A sighting is recorded when the predicate holds and the state is new. -/
def Track.records (t : Track) (x : Sighting) : Bool := x.fires && !t.keys.contains x.key

/-- One step of the engine. -/
def Track.see (cooldownSeconds : Int) (t : Track) (x : Sighting) : Option Fire × Track :=
  if t.records x then
    (some (x.fire cooldownSeconds t), ⟨x.key :: t.keys, some x.observedAt⟩)
  else (none, t)

/-- A run of the engine. -/
def Track.seeAll (cooldownSeconds : Int) : List Sighting → Track → List Fire
  | [], _ => []
  | x :: xs, t =>
      (t.see cooldownSeconds x).1.toList ++ seeAll cooldownSeconds xs (t.see cooldownSeconds x).2

section Engine

variable {cooldownSeconds : Int}

theorem Track.see_of_records {t : Track} {x : Sighting} (h : t.records x = true) :
    t.see cooldownSeconds x
      = (some (x.fire cooldownSeconds t), ⟨x.key :: t.keys, some x.observedAt⟩) := by
  rw [Track.see, if_pos h]

theorem Track.see_of_not_records {t : Track} {x : Sighting} (h : t.records x = false) :
    t.see cooldownSeconds x = (none, t) := by
  rw [Track.see, h, if_neg Bool.false_ne_true]

theorem Track.records_iff {t : Track} {x : Sighting} :
    t.records x = true ↔ x.fires = true ∧ x.key ∉ t.keys := by
  simp [Track.records]

theorem Track.seeAll_cons_of_records {t : Track} {x : Sighting} {xs : List Sighting}
    (h : t.records x = true) :
    t.seeAll cooldownSeconds (x :: xs)
      = x.fire cooldownSeconds t
        :: Track.seeAll cooldownSeconds xs ⟨x.key :: t.keys, some x.observedAt⟩ := by
  rw [Track.seeAll, Track.see_of_records h]
  rfl

theorem Track.seeAll_cons_of_not_records {t : Track} {x : Sighting} {xs : List Sighting}
    (h : t.records x = false) :
    t.seeAll cooldownSeconds (x :: xs) = t.seeAll cooldownSeconds xs := by
  rw [Track.seeAll, Track.see_of_not_records h]
  rfl

/-- Every fire comes from a sighting whose predicate held, at its instant. -/
theorem Track.mem_seeAll {xs : List Sighting} {t : Track} {f : Fire}
    (h : f ∈ t.seeAll cooldownSeconds xs) :
    ∃ x ∈ xs, x.fires = true ∧ x.observedAt = f.triggeredAt := by
  induction xs generalizing t with
  | nil => exact absurd h List.not_mem_nil
  | cons x xs ih =>
      cases hr : t.records x with
      | true =>
          rw [Track.seeAll_cons_of_records hr] at h
          rcases List.mem_cons.mp h with heq | hrest
          · exact ⟨x, List.mem_cons_self, (Track.records_iff.mp hr).1, by rw [heq]; rfl⟩
          · obtain ⟨y, hy, hfires⟩ := ih hrest
            exact ⟨y, List.mem_cons_of_mem _ hy, hfires⟩
      | false =>
          rw [Track.seeAll_cons_of_not_records hr] at h
          obtain ⟨y, hy, hfires⟩ := ih h
          exact ⟨y, List.mem_cons_of_mem _ hy, hfires⟩

/-- The first sighting of a state is recorded if its predicate holds. -/
theorem Track.exists_fire_of_first {done todo : List Sighting} {x : Sighting} {t : Track}
    (hfires : x.fires = true) (hkey : x.key ∉ t.keys)
    (hfirst : ∀ y ∈ done, y.key ≠ x.key) :
    ∃ f ∈ t.seeAll cooldownSeconds (done ++ x :: todo), f.triggeredAt = x.observedAt := by
  induction done generalizing t with
  | nil =>
      rw [List.nil_append,
        Track.seeAll_cons_of_records (Track.records_iff.mpr ⟨hfires, hkey⟩)]
      exact ⟨_, List.mem_cons_self, rfl⟩
  | cons y done ih =>
      have hrest := fun z hz => hfirst z (List.mem_cons_of_mem y hz)
      rw [List.cons_append]
      cases hr : t.records y with
      | true =>
          have hkey' : x.key ∉ y.key :: t.keys := by
            rw [List.mem_cons, not_or]
            exact ⟨fun h => hfirst y List.mem_cons_self h.symm, hkey⟩
          obtain ⟨f, hf, hat⟩ := ih (t := ⟨y.key :: t.keys, some y.observedAt⟩) hkey' hrest
          rw [Track.seeAll_cons_of_records hr]
          exact ⟨f, List.mem_cons_of_mem _ hf, hat⟩
      | false =>
          rw [Track.seeAll_cons_of_not_records hr]
          exact ih hkey hrest

/-- A run over which something holds of a new state is not silent. -/
theorem Track.seeAll_ne_nil {xs : List Sighting} {t : Track}
    (h : ∃ x ∈ xs, x.fires = true ∧ x.key ∉ t.keys) :
    t.seeAll cooldownSeconds xs ≠ [] := by
  induction xs generalizing t with
  | nil =>
      obtain ⟨x, hx, -⟩ := h
      exact absurd hx List.not_mem_nil
  | cons y xs ih =>
      cases hr : t.records y with
      | true =>
          rw [Track.seeAll_cons_of_records hr]
          exact List.cons_ne_nil _ _
      | false =>
          rw [Track.seeAll_cons_of_not_records hr]
          obtain ⟨x, hx, hfires, hkey⟩ := h
          rcases List.mem_cons.mp hx with heq | hmem
          · rw [heq] at hfires hkey
            rw [Track.records_iff.mpr ⟨hfires, hkey⟩] at hr
            exact absurd hr (by decide)
          · exact ih ⟨x, hmem, hfires, hkey⟩

/-! ## Two runs over the same rows -/

/-- A stored row as a rule sees it. -/
def sighting (key : PriceHistory → String) (verdict : PriceHistory → Bool)
    (row : PriceHistory) : Sighting :=
  ⟨key row, row.lastPrice, row.observedAt, verdict row⟩

/-- Two keyings that identify the same rows give the same fires. -/
theorem Track.seeAll_keying {key key' : PriceHistory → String}
    {verdict : PriceHistory → Bool} {all rows recorded : List PriceHistory}
    {last : Option Instant}
    (halike : ∀ r ∈ all, ∀ r' ∈ all, key r = key r' ↔ key' r = key' r')
    (hrows : ∀ r ∈ rows, r ∈ all) (hrecorded : ∀ r ∈ recorded, r ∈ all) :
    Track.seeAll cooldownSeconds (rows.map (sighting key verdict))
        ⟨recorded.map key, last⟩
      = Track.seeAll cooldownSeconds (rows.map (sighting key' verdict))
        ⟨recorded.map key', last⟩ := by
  induction rows generalizing recorded last with
  | nil => rfl
  | cons r rest ih =>
      have hr := hrows r List.mem_cons_self
      have hrest := fun x hx => hrows x (List.mem_cons_of_mem r hx)
      have hkey : key r ∈ recorded.map key ↔ key' r ∈ recorded.map key' := by
        constructor
        · intro h
          obtain ⟨x, hx, heq⟩ := List.mem_map.mp h
          exact List.mem_map.mpr ⟨x, hx, (halike x (hrecorded x hx) r hr).mp heq⟩
        · intro h
          obtain ⟨x, hx, heq⟩ := List.mem_map.mp h
          exact List.mem_map.mpr ⟨x, hx, (halike x (hrecorded x hx) r hr).mpr heq⟩
      have hrecords : Track.records ⟨recorded.map key, last⟩ (sighting key verdict r)
          = Track.records ⟨recorded.map key', last⟩ (sighting key' verdict r) := by
        rw [Bool.eq_iff_iff, Track.records_iff, Track.records_iff]
        exact and_congr_right (fun _ => not_congr hkey)
      rw [List.map_cons, List.map_cons]
      cases hrec : Track.records ⟨recorded.map key', last⟩ (sighting key' verdict r) with
      | true =>
          rw [hrec] at hrecords
          rw [Track.seeAll_cons_of_records hrecords, Track.seeAll_cons_of_records hrec]
          have hstep := @ih (r :: recorded) (some r.observedAt) hrest
            (fun x hx => by
              rcases List.mem_cons.mp hx with heq | hmem
              · rw [heq]; exact hr
              · exact hrecorded x hmem)
          rw [List.map_cons, List.map_cons] at hstep
          exact congrArg (List.cons _) hstep
      | false =>
          rw [hrec] at hrecords
          rw [Track.seeAll_cons_of_not_records hrecords,
            Track.seeAll_cons_of_not_records hrec]
          exact ih hrest hrecorded

/-- A verdict that holds at the first row of every state fires like the verdict
    that always holds: the remaining rows are duplicates. -/
theorem Track.seeAll_eq_of_first {key : PriceHistory → String}
    {verdict : PriceHistory → Bool} {done todo : List PriceHistory} {t : Track}
    (hkeys : ∀ k, k ∈ t.keys ↔ k ∈ done.map key)
    (hfirst : ∀ done' r todo', todo = done' ++ r :: todo' →
      (∀ r' ∈ done ++ done', key r' ≠ key r) → verdict r = true) :
    Track.seeAll cooldownSeconds (todo.map (sighting key verdict)) t
      = Track.seeAll cooldownSeconds (todo.map (sighting key (fun _ => true))) t := by
  induction todo generalizing done t with
  | nil => rfl
  | cons r rest ih =>
      have hnext : ∀ done' r' todo', rest = done' ++ r' :: todo' →
          (∀ x ∈ (done ++ [r]) ++ done', key x ≠ key r') → verdict r' = true := by
        intro done' r' todo' hsplit hnew
        refine hfirst (r :: done') r' todo' (by rw [hsplit, List.cons_append]) ?_
        intro x hx
        refine hnew x ?_
        rw [List.append_assoc]
        exact hx
      rw [List.map_cons, List.map_cons]
      by_cases hmem : key r ∈ t.keys
      · -- A duplicate: neither run records it, whatever the verdict is.
        have hskip : ∀ v : PriceHistory → Bool, t.records (sighting key v r) = false := by
          intro v
          rw [Track.records, show (sighting key v r).key = key r from rfl,
            List.contains_iff_mem.mpr hmem, Bool.not_true, Bool.and_false]
        rw [Track.seeAll_cons_of_not_records (hskip verdict),
          Track.seeAll_cons_of_not_records (hskip (fun _ => true))]
        refine @ih (done ++ [r]) t ?_ hnext
        intro k
        rw [hkeys, List.map_append, List.mem_append, List.map_singleton,
          List.mem_singleton]
        refine ⟨Or.inl, fun h => h.elim id (fun heq => ?_)⟩
        rw [heq]
        exact (hkeys (key r)).mp hmem
      · have hv : verdict r = true := by
          refine hfirst [] r rest rfl ?_
          intro x hx heq
          rw [List.append_nil] at hx
          exact hmem ((hkeys (key r)).mpr (List.mem_map.mpr ⟨x, hx, heq⟩))
        -- The first of its key: its verdict is the hypothesis, so both runs record it.
        have hrec : ∀ v : PriceHistory → Bool, v r = true →
            t.records (sighting key v r) = true := by
          intro v hvr
          exact Track.records_iff.mpr ⟨hvr, hmem⟩
        rw [Track.seeAll_cons_of_records (hrec verdict hv),
          Track.seeAll_cons_of_records (hrec (fun _ => true) rfl)]
        refine congrArg (List.cons _) (@ih (done ++ [r]) _ ?_ hnext)
        intro k
        rw [List.mem_cons, hkeys, List.map_append, List.mem_append, List.map_singleton,
          List.mem_singleton]
        exact or_comm

/-- When a run on a verdict per row fires like a run on one constant verdict. -/
theorem Track.seeAll_eq_const_iff {key : PriceHistory → String}
    {verdict : PriceHistory → Bool} {star : Bool} {rows : List PriceHistory}
    (hd : (rows.map PriceHistory.observedAt).Nodup) :
    Track.seeAll cooldownSeconds (rows.map (sighting key verdict)) {}
        = Track.seeAll cooldownSeconds (rows.map (sighting key (fun _ => star))) {}
      ↔ (∀ r ∈ rows, verdict r = true → star = true)
        ∧ (star = true → ∀ done r todo, rows = done ++ r :: todo →
            (∀ r' ∈ done, key r' ≠ key r) → verdict r = true) := by
  cases star with
  | false =>
      have hsilent : Track.seeAll cooldownSeconds
          (rows.map (sighting key (fun _ => false))) {} = [] := by
        rw [List.eq_nil_iff_forall_not_mem]
        intro f hf
        obtain ⟨x, hx, hfires, -⟩ := Track.mem_seeAll hf
        obtain ⟨r, -, rfl⟩ := List.mem_map.mp hx
        exact absurd hfires Bool.false_ne_true
      rw [hsilent]
      constructor
      · intro h
        refine ⟨fun r hr hv => ?_, fun h => absurd h (by decide)⟩
        exact absurd h (Track.seeAll_ne_nil
          ⟨_, List.mem_map_of_mem hr, hv, List.not_mem_nil⟩)
      · rintro ⟨h, -⟩
        rw [List.eq_nil_iff_forall_not_mem]
        intro f hf
        obtain ⟨x, hx, hfires, -⟩ := Track.mem_seeAll hf
        obtain ⟨r, hr, rfl⟩ := List.mem_map.mp hx
        exact absurd (h r hr hfires) (by decide)
  | true =>
      constructor
      · intro h
        refine ⟨fun _ _ _ => rfl, fun _ done r todo hsplit hfirst => ?_⟩
        -- The constant run fires at `r`, so the other run does; only `r` itself
        -- is at that instant.
        have hfire : ∃ f ∈ Track.seeAll cooldownSeconds
            (rows.map (sighting key (fun _ => true))) {}, f.triggeredAt = r.observedAt := by
          rw [hsplit, List.map_append, List.map_cons]
          refine Track.exists_fire_of_first rfl List.not_mem_nil ?_
          intro y hy
          obtain ⟨r', hr', rfl⟩ := List.mem_map.mp hy
          exact hfirst r' hr'
        obtain ⟨f, hf, hat⟩ := hfire
        rw [← h] at hf
        obtain ⟨x, hx, hfires, hxat⟩ := Track.mem_seeAll hf
        obtain ⟨r', hr', rfl⟩ := List.mem_map.mp hx
        have hr : r ∈ rows := by rw [hsplit]; simp
        have heq : r' = r := List.inj_on_of_nodup_map hd hr' hr (hxat.trans hat)
        rw [← heq]
        exact hfires
      · rintro ⟨-, h⟩
        refine @Track.seeAll_eq_of_first _ key verdict [] rows {} (fun k => by simp) ?_
        intro done' r todo' hsplit hfirst
        exact h rfl done' r todo' hsplit hfirst

/-- A row at which the verdict holds, and at no earlier row of its state. -/
def FirstAt (key : PriceHistory → String) (verdict : PriceHistory → Bool)
    (done : List PriceHistory) (row : PriceHistory) : Prop :=
  verdict row = true ∧ ∀ r ∈ done, verdict r = true → key r ≠ key row

/-- What a track has recorded of rows: the states at which the verdict has held. -/
def Track.Holds (t : Track) (key : PriceHistory → String) (verdict : PriceHistory → Bool)
    (done : List PriceHistory) : Prop :=
  ∀ k, k ∈ t.keys ↔ ∃ r ∈ done, verdict r = true ∧ key r = k

section Holds

variable {key : PriceHistory → String} {verdict : PriceHistory → Bool}
  {done todo : List PriceHistory} {row : PriceHistory} {t : Track}

/-- A row is recorded if it is the first. -/
theorem Track.Holds.records_iff (h : t.Holds key verdict done) :
    t.records (sighting key verdict row) = true ↔ FirstAt key verdict done row := by
  rw [Track.records_iff]
  refine and_congr_right (fun _ => ?_)
  show key row ∉ t.keys ↔ _
  rw [h (key row)]
  constructor
  · exact fun hnew r hr hv heq => hnew ⟨r, hr, hv, heq⟩
  · rintro hnew ⟨r, hr, hv, heq⟩
    exact hnew r hr hv heq

/-- One more row. -/
theorem Track.Holds.see (h : t.Holds key verdict done) (row : PriceHistory) :
    (t.see cooldownSeconds (sighting key verdict row)).2.Holds key verdict (done ++ [row]) := by
  intro k
  have hmore : (∃ r ∈ done ++ [row], verdict r = true ∧ key r = k)
      ↔ (∃ r ∈ done, verdict r = true ∧ key r = k) ∨ (verdict row = true ∧ key row = k) := by
    simp only [List.mem_append, List.mem_singleton]
    constructor
    · rintro ⟨r, hr | rfl, hv⟩
      · exact Or.inl ⟨r, hr, hv⟩
      · exact Or.inr hv
    · rintro (⟨r, hr, hv⟩ | hv)
      · exact ⟨r, Or.inl hr, hv⟩
      · exact ⟨row, Or.inr rfl, hv⟩
  rw [hmore, ← h k]
  cases hr : t.records (sighting key verdict row) with
  | true =>
      rw [Track.see_of_records hr]
      have hv : verdict row = true := (Track.records_iff.mp hr).1
      show k ∈ key row :: t.keys ↔ _
      rw [List.mem_cons, or_comm]
      exact or_congr_right ⟨fun heq => ⟨hv, heq.symm⟩, fun heq => heq.2.symm⟩
  | false =>
      rw [Track.see_of_not_records hr]
      refine ⟨Or.inl, ?_⟩
      rintro (hold | ⟨hv, rfl⟩)
      · exact hold
      · -- The row is not recorded although the verdict holds, so its state has been.
        by_contra hnew
        have hyes : t.records (sighting key verdict row) = true :=
          Track.records_iff.mpr ⟨hv, hnew⟩
        cases hr.symm.trans hyes

end Holds

end Engine

/-! ## Evaluation of a single rule -/

section Single

variable (rt : Runtime) (settings : Settings) (pair : Pair) (rule : AlertRule)

/-- The index holds one rule, its rows are there, and the store remembers what
    the track does. -/
structure Tracks (s : State) (t : Track) : Prop where
  indexed : s.mem.rulesForPair pair.id = (bucketOf [rule] pair.id).sorted
  last : s.mem.lastFiredAt s.mem.generation rule.id = t.lastFiredAt
  ruleRow : s.view.alertRules.any (fun r => r.id == rule.id) = true
  pairRow : s.view.pairs.any (fun p => p.id == pair.id) = true
  keys : ∀ obs, s.view.notificationWithKey (keyOf rt pair obs rule) = none
    ↔ keyOf rt pair obs rule ∉ t.keys

/-- An observation as the rule sees it. -/
def seen (obs : Observation) (verdict : Bool) : Sighting :=
  ⟨keyOf rt pair obs rule, obs.last, obs.observedAt, verdict⟩

variable {rt settings pair rule}

theorem all_bucketOf_singleton (hp : rule.pairId = pair.id) :
    (bucketOf [rule] pair.id).sorted.all = [rule] := by
  have hperm := (bucketOf [rule] pair.id).all_sorted_perm.trans
    (all_bucketOf_perm [rule] pair.id)
  rw [List.filter_cons_of_pos (by simp [hp]), List.filter_nil] at hperm
  exact List.perm_singleton.mp hperm

/-- The candidates of a single valid rule are decided by its own predicate. -/
theorem candidatesIn_singleton {db : Database} {obs : Observation}
    (hv : validRule rule = true) (hp : rule.pairId = pair.id) :
    match ownPredicate rt settings db pair obs rule with
    | .ok b => ∃ c, candidatesIn rt settings db pair obs (bucketOf [rule] pair.id).sorted
        = .ok c ∧ c.rules = if b then [rule] else []
    | .error e =>
        candidatesIn rt settings db pair obs (bucketOf [rule] pair.id).sorted = .error e := by
  have hvalid : ∀ r ∈ [rule], validRule r = true := by
    intro r hr
    rw [List.mem_singleton.mp hr]
    exact hv
  have hthr := haveThresholds_of_valid hvalid
  have hw : (bucketOf [rule] pair.id).sorted.WellFormed pair.id :=
    (wellFormed_bucketOf (by simp) pair.id).sorted
  have ho := (sortable_bucketOf hthr pair.id).scanOrder
  have hall := all_bucketOf_singleton hp
  have hmem : rule ∈ (bucketOf [rule] pair.id).sorted.all := by
    rw [hall]
    exact List.mem_singleton_self rule
  have hwin : ∀ r ∈ (bucketOf [rule] pair.id).sorted.percentChange,
      r.windowSeconds.isSome = true := by
    intro r hr
    obtain ⟨hr', -, ht⟩ := mem_rulesOfType.mp hr
    exact haveWindows_of_valid hvalid r hr' ht
  cases hc : candidatesIn rt settings db pair obs (bucketOf [rule] pair.id).sorted with
  | ok c =>
      obtain ⟨hs, -, hrules, -⟩ := candidatesIn_ok rt settings hc
      rw [selectedIn_eq_filter rt settings hw ho, hall] at hrules
      rw [ownPredicate_eq_firesIn hw hs hwin hmem]
      refine ⟨c, rfl, ?_⟩
      rw [hrules]
      cases hf : firesIn rt settings db pair obs c.zscoreResult rule with
      | true => simp [hf]
      | false => simp [hf]
  | error e =>
      obtain ⟨hne, hs⟩ := candidatesIn_error hwin hc
      obtain ⟨r, hr⟩ := List.exists_mem_of_ne_nil _ hne
      obtain ⟨hr', -, ht⟩ := mem_rulesOfType.mp hr
      rw [List.mem_singleton.mp hr'] at ht
      have hown : ownPredicate rt settings db pair obs rule = .error e := by
        simp [ownPredicate, ht, hs, Except.map]
      rw [hown]

theorem Tracks.recordable {s : State} {t : Track} (h : Tracks rt pair rule s t)
    (obs : Observation) :
    recordable rt pair obs s.view rule = true ↔ keyOf rt pair obs rule ∉ t.keys := by
  rw [Evaluator.recordable]
  rw [h.ruleRow, h.pairRow, Bool.and_true, Bool.and_true, Option.isNone_iff_eq_none]
  exact h.keys obs

/-- A recorded fire moves the store and the track together. -/
theorem Tracks.recordOne {s : State} {t : Track} (h : Tracks rt pair rule s t)
    (obs : Observation) (c : Candidates rt) :
    Tracks rt pair rule (recordOne rt pair obs s.mem.generation c s rule)
      ⟨keyOf rt pair obs rule :: t.keys, some obs.observedAt⟩ where
  indexed := h.indexed
  last := by
    show (if s.mem.generation = s.mem.generation ∧ rule.id = rule.id then
      some obs.observedAt else _) = some obs.observedAt
    rw [if_pos ⟨rfl, rfl⟩]
  ruleRow := (recordOne_hasRule rt s rule rule.id).trans h.ruleRow
  pairRow := h.pairRow
  keys := by
    intro obs'
    rw [recordOne_key, h.keys, List.mem_cons, not_or, and_comm]
    exact and_congr_left (fun _ => ne_comm)

/-- A created notification as a fire of its observation. -/
def createdFire (observedAt : Instant) (n : Notification) : Fire :=
  ⟨observedAt, n.detectedPrice, n.status⟩

/-- The cooldown test of the evaluator is the track's. -/
theorem Tracks.suppressedBy {s : State} {t : Track} (h : Tracks rt pair rule s t)
    (obs : Observation) :
    suppressedBy obs s.mem.generation s.mem rule
      = cooling rule.cooldownSeconds t.lastFiredAt obs.observedAt := by
  rw [← h.last]
  rfl

/-- Evaluation of a single rule takes the step of its track, or raises what the
    predicate raises. -/
theorem runTx_evaluate_single (hv : validRule rule = true) (hp : rule.pairId = pair.id)
    {s : State} {t : Track} (h : Tracks rt pair rule s t) (obs : Observation) :
    match ownPredicate rt settings s.view pair obs rule with
    | .error e => runTx (evaluateRulesForPair rt settings pair obs) s = (.error e, s)
    | .ok b => ∃ created s',
        runTx (evaluateRulesForPair rt settings pair obs) s = (.ok created, s')
          ∧ created.map (createdFire obs.observedAt)
            = (t.see rule.cooldownSeconds (seen rt pair rule obs b)).1.toList
          ∧ Tracks rt pair rule s' (t.see rule.cooldownSeconds (seen rt pair rule obs b)).2
          ∧ s'.view.priceHistory = s.view.priceHistory := by
  have hw : (s.mem.rulesForPair pair.id).WellFormed pair.id := by
    rw [h.indexed]
    exact (wellFormed_bucketOf (by simp) pair.id).sorted
  have hrun := @runTx_evaluateRulesForPair rt settings pair obs s pair.id hw
  have hcand := @candidatesIn_singleton rt settings pair rule s.view obs hv hp
  rw [h.indexed] at hrun
  cases hown : ownPredicate rt settings s.view pair obs rule with
  | error e =>
      rw [hown] at hcand
      rw [hcand] at hrun
      exact hrun
  | ok b =>
      rw [hown] at hcand
      obtain ⟨c, hc, hrules⟩ := hcand
      rw [hc] at hrun
      refine ⟨_, _, hrun, ?_⟩
      cases b with
      | false =>
          rw [hrules, Track.see_of_not_records (by simp [Track.records, seen])]
          exact ⟨rfl, h, rfl⟩
      | true =>
          rw [hrules, if_pos rfl]
          show _ ∧ Tracks rt pair rule (fireOne rt pair obs s.mem.generation c s rule).2 _ ∧ _
          -- The predicate holds; what is left is whether the key is in use.
          cases hr : recordable rt pair obs s.view rule with
          | true =>
              have hkey := (h.recordable obs).mp hr
              have hrec : t.records (seen rt pair rule obs true) = true :=
                Track.records_iff.mpr ⟨rfl, hkey⟩
              rw [Track.see_of_records hrec]
              simp only [fireAll, fireOne, hr, if_true]
              refine ⟨?_, h.recordOne obs c, rfl⟩
              show [(⟨obs.observedAt, obs.last,
                if suppressedBy obs s.mem.generation s.mem rule then .suppressedCooldown
                else .pending⟩ : Fire)] = _
              rw [h.suppressedBy]
              rfl
          | false =>
              have hrec : t.records (seen rt pair rule obs true) = false := by
                rw [← Bool.not_eq_true, Track.records_iff]
                rintro ⟨-, hkey⟩
                rw [(h.recordable obs).mpr hkey] at hr
                exact absurd hr (by decide)
              rw [Track.see_of_not_records hrec]
              simp only [fireAll, fireOne, hr, Bool.false_eq_true, if_false]
              exact ⟨rfl, h, trivial⟩

end Single

end Dropwatch.Backtest
