import Mathlib.Data.List.Induction
import Dropwatch.RuleIndex

/-! # The rule index is a partition — `_bucket_rules`

    Toward: indexed evaluation equals a naive scan.  The route:

    * the grouping loop puts a rule in the bucket of its own pair and type and
      nowhere else (`getD_groupRules`), so the bucket of a pair is the five
      filters of the loaded list (`bucketOf`);
    * sorting the two absolute lists moves no rule (`all_sorted_perm`) and
      succeeds as soon as those rules have thresholds (`bucketRules_ok`);
    * nothing is lost or counted twice (`bucketCount_bucketRules`).

    The second half is the invariant every index object carries
    (`Memory.Indexed`): a bucket holds rules of the right type and pair, with
    distinct ids. -/

namespace Dropwatch.RuleIndex

open Transact

/-! ## Grouping -/

/-- The rules of a list that belong to a pair and have a type. -/
def rulesOfType (rules : List AlertRule) (pairId : Uuid) (t : RuleType) :
    List AlertRule :=
  rules.filter (fun r => r.pairId == pairId && r.ruleType == t)

/-- The bucket of a pair, before sorting. -/
def bucketOf (rules : List AlertRule) (pairId : Uuid) : PairRules :=
  { absoluteBelow := rulesOfType rules pairId .absoluteBelow
    absoluteAbove := rulesOfType rules pairId .absoluteAbove
    zscoreMove := rulesOfType rules pairId .zscoreMove
    percentChange := rulesOfType rules pairId .percentChange
    spreadWiden := rulesOfType rules pairId .spreadWiden }

theorem mem_rulesOfType {rules : List AlertRule} {pairId : Uuid} {t : RuleType}
    {r : AlertRule} :
    r ∈ rulesOfType rules pairId t
      ↔ r ∈ rules ∧ r.pairId = pairId ∧ r.ruleType = t := by
  simp [rulesOfType]

theorem rulesOfType_append (rules : List AlertRule) (rule : AlertRule)
    (pairId : Uuid) (t : RuleType) :
    rulesOfType (rules ++ [rule]) pairId t
      = rulesOfType rules pairId t
        ++ if rule.pairId = pairId ∧ rule.ruleType = t then [rule] else [] := by
  simp only [rulesOfType]
  rw [List.filter_append]
  by_cases h : rule.pairId = pairId ∧ rule.ruleType = t
  · simp [h]
  · have hb : (rule.pairId == pairId && rule.ruleType == t) = false := by
      simpa using h
    rw [if_neg h, List.filter_cons_of_neg (by simp [hb]), List.filter_nil]

/-- One more rule changes the bucket of its own pair only, and there only the
    list of its own type. -/
theorem bucketOf_append (rules : List AlertRule) (rule : AlertRule)
    (pairId : Uuid) :
    bucketOf (rules ++ [rule]) pairId
      = if rule.pairId = pairId then (bucketOf rules pairId).append rule
        else bucketOf rules pairId := by
  simp only [bucketOf]
  simp only [rulesOfType_append]
  by_cases hp : rule.pairId = pairId
  · rw [if_pos hp]
    cases ht : rule.ruleType with
    | absoluteBelow => simp [PairRules.append, hp, ht]
    | absoluteAbove => simp [PairRules.append, hp, ht]
    | zscoreMove => simp [PairRules.append, hp, ht]
    | percentChange => simp [PairRules.append, hp, ht]
    | spreadWiden => simp [PairRules.append, hp, ht]
  · simp [hp]

theorem groupRules_append (rules : List AlertRule) (rule : AlertRule) :
    groupRules (rules ++ [rule])
      = (groupRules rules).set rule.pairId
          ((((groupRules rules).get? rule.pairId).getD {}).append rule) := by
  rw [groupRules]
  rw [List.foldl_append]
  rfl

/-- The grouping loop computes the five filters. -/
theorem getD_groupRules (rules : List AlertRule) (pairId : Uuid) :
    ((groupRules rules).get? pairId).getD {} = bucketOf rules pairId := by
  induction rules using List.reverseRecOn with
  | nil => rfl
  | append_singleton rules rule ih =>
      rw [groupRules_append, Dict.get?_set, bucketOf_append]
      by_cases h : rule.pairId = pairId
      · rw [if_pos h, if_pos h, h]
        show (((groupRules rules).get? pairId).getD {}).append rule = _
        rw [ih]
      · rw [if_neg h, if_neg h, ih]

theorem nodup_keys_groupRules (rules : List AlertRule) :
    (groupRules rules).keys.Nodup := by
  induction rules using List.reverseRecOn with
  | nil => exact List.nodup_nil
  | append_singleton rules rule ih =>
      rw [groupRules_append]
      exact Dict.nodup_keys_set ih

/-- Every entry of the grouping is the bucket of its key. -/
theorem mem_groupRules {rules : List AlertRule} {pairId : Uuid} {b : PairRules}
    (h : (pairId, b) ∈ groupRules rules) : b = bucketOf rules pairId := by
  have hget := Dict.get?_of_mem (nodup_keys_groupRules rules) h
  rw [← getD_groupRules, hget]
  rfl

/-! ## Counting -/

theorem PairRules.count_append (b : PairRules) (rule : AlertRule) :
    (b.append rule).count = b.count + 1 := by
  cases ht : rule.ruleType <;> simp [PairRules.append, PairRules.count, ht] <;> omega

/-- Assigning a bucket replaces the contribution of its key. -/
theorem bucketCount_set (d : Dict Uuid PairRules) (pairId : Uuid) (b : PairRules) :
    bucketCount (d.set pairId b) + ((d.get? pairId).getD {}).count
      = bucketCount d + b.count := by
  induction d with
  | nil => simp [Dict.set, bucketCount, PairRules.count]
  | cons e rest ih =>
      obtain ⟨k, b'⟩ := e
      have hcons : ∀ (x : PairRules) (d' : Dict Uuid PairRules),
          bucketCount ((k, x) :: d') = x.count + bucketCount d' := by
        intro x d'
        simp [bucketCount]
      rw [Dict.set, Dict.get?_cons]
      by_cases hk : k = pairId
      · rw [if_pos hk, if_pos hk, ← hk, hcons, hcons, Option.getD_some]
        omega
      · rw [if_neg hk, if_neg hk, hcons, hcons]
        omega

theorem bucketCount_groupRules (rules : List AlertRule) :
    bucketCount (groupRules rules) = rules.length := by
  induction rules using List.reverseRecOn with
  | nil => rfl
  | append_singleton rules rule ih =>
      have hset := bucketCount_set (groupRules rules) rule.pairId
        ((((groupRules rules).get? rule.pairId).getD {}).append rule)
      rw [PairRules.count_append, ih] at hset
      rw [groupRules_append, List.length_append, List.length_singleton]
      omega

/-! ## Sorting -/

/-- A bucket with its absolute lists in scan order. -/
def PairRules.sorted (b : PairRules) : PairRules :=
  { b with
    absoluteBelow := b.absoluteBelow.insertionSort
      (fun r r' => thresholdValue r' ≤ thresholdValue r)
    absoluteAbove := b.absoluteAbove.insertionSort
      (fun r r' => thresholdValue r ≤ thresholdValue r') }

/-- The absolute rules of a bucket have thresholds. -/
def PairRules.Sortable (b : PairRules) : Prop :=
  (∀ r ∈ b.absoluteBelow, r.threshold.isSome = true)
    ∧ ∀ r ∈ b.absoluteAbove, r.threshold.isSome = true

theorem not_any_threshold_isNone {rules : List AlertRule}
    (h : ∀ r ∈ rules, r.threshold.isSome = true) :
    ¬ (2 ≤ rules.length ∧ rules.any (fun r => r.threshold.isNone) = true) := by
  rintro ⟨-, hany⟩
  obtain ⟨r, hr, hnone⟩ := List.any_eq_true.mp hany
  rw [← Option.not_isSome, h r hr] at hnone
  exact absurd hnone (by decide)

theorem sortBucket_ok {b : PairRules} (h : b.Sortable) : sortBucket b = .ok b.sorted := by
  rw [sortBucket, sortedByThresholdDesc, sortedByThreshold]
  rw [if_neg (not_any_threshold_isNone h.1), if_neg (not_any_threshold_isNone h.2)]
  rfl

theorem sortBuckets_ok {d : Dict Uuid PairRules} (h : ∀ e ∈ d, e.2.Sortable) :
    sortBuckets d = .ok (d.map (fun e => (e.1, e.2.sorted))) := by
  induction d with
  | nil => rfl
  | cons e rest ih =>
      obtain ⟨pairId, b⟩ := e
      have hb : b.Sortable := h (pairId, b) List.mem_cons_self
      have hrest := ih (fun e he => h e (List.mem_cons_of_mem _ he))
      rw [sortBuckets, sortBucket_ok hb, hrest]
      rfl

theorem PairRules.count_sorted (b : PairRules) : b.sorted.count = b.count := by
  simp [PairRules.sorted, PairRules.count, List.length_insertionSort]

/-- Sorting moves no rule out of its bucket. -/
theorem PairRules.all_sorted_perm (b : PairRules) : b.sorted.all.Perm b.all := by
  rw [PairRules.all, PairRules.sorted]
  have hbelow := List.perm_insertionSort
    (fun r r' : AlertRule => thresholdValue r' ≤ thresholdValue r) b.absoluteBelow
  have habove := List.perm_insertionSort
    (fun r r' : AlertRule => thresholdValue r ≤ thresholdValue r') b.absoluteAbove
  exact (((hbelow.append habove).append (List.Perm.refl _)).append
    (List.Perm.refl _)).append (List.Perm.refl _)

/-! ## The whole of `_bucket_rules` -/

/-- Every absolute rule of the list has a threshold. -/
def HaveThresholds (rules : List AlertRule) : Prop :=
  ∀ r ∈ rules, r.ruleType = .absoluteBelow ∨ r.ruleType = .absoluteAbove →
    r.threshold.isSome = true

theorem sortable_bucketOf {rules : List AlertRule} (h : HaveThresholds rules)
    (pairId : Uuid) : (bucketOf rules pairId).Sortable := by
  constructor
  · intro r hr
    obtain ⟨hmem, -, ht⟩ := mem_rulesOfType.mp hr
    exact h r hmem (Or.inl ht)
  · intro r hr
    obtain ⟨hmem, -, ht⟩ := mem_rulesOfType.mp hr
    exact h r hmem (Or.inr ht)

/-- `_bucket_rules` succeeds on rules with thresholds. -/
theorem bucketRules_ok {rules : List AlertRule} (h : HaveThresholds rules) :
    bucketRules rules
      = .ok ((groupRules rules).map (fun e => (e.1, e.2.sorted))) := by
  refine sortBuckets_ok ?_
  intro e he
  obtain ⟨pairId, b⟩ := e
  show b.Sortable
  rw [mem_groupRules he]
  exact sortable_bucketOf h pairId

/-- The rules a bucketed index answers for a pair. -/
theorem rulesForPair_bucketed (rules : List AlertRule) (pairId : Uuid) :
    ((Dict.get? ((groupRules rules).map (fun e => (e.1, e.2.sorted))) pairId).getD {})
      = (bucketOf rules pairId).sorted := by
  rw [Dict.get?_map, ← getD_groupRules]
  cases (groupRules rules).get? pairId with
  | none => rfl
  | some b => rfl

theorem bucketCount_bucketRules {rules : List AlertRule}
    {buckets : Dict Uuid PairRules} (h : HaveThresholds rules)
    (hb : bucketRules rules = .ok buckets) : bucketCount buckets = rules.length := by
  rw [bucketRules_ok h] at hb
  rw [← Except.ok.inj hb, ← bucketCount_groupRules rules]
  rw [bucketCount]
  rw [List.map_map]
  congr 1
  refine List.map_congr_left ?_
  intro e _
  exact PairRules.count_sorted e.2

theorem PairRules.all_append_perm (b : PairRules) (rule : AlertRule) :
    (b.append rule).all.Perm (rule :: b.all) := by
  simp only [PairRules.append, PairRules.all]
  rw [List.perm_iff_count]
  intro x
  cases ht : rule.ruleType <;> simp [List.count_append, List.count_cons] <;> omega

/-- The bucket of a pair holds the rules of that pair, each as often as the
    loaded list does. -/
theorem all_bucketOf_perm (rules : List AlertRule) (pairId : Uuid) :
    (bucketOf rules pairId).all.Perm (rules.filter (fun r => r.pairId == pairId)) := by
  induction rules using List.reverseRecOn with
  | nil => exact List.Perm.refl _
  | append_singleton rules rule ih =>
      rw [bucketOf_append, List.filter_append]
      by_cases h : rule.pairId = pairId
      · have hf : [rule].filter (fun r => r.pairId == pairId) = [rule] := by simp [h]
        rw [if_pos h, hf]
        exact ((PairRules.all_append_perm _ rule).trans (ih.cons rule)).trans
          (List.perm_append_singleton _ _).symm
      · have hf : [rule].filter (fun r => r.pairId == pairId) = [] := by simp [h]
        rw [if_neg h, hf, List.append_nil]
        exact ih

/-! ## What an index object holds -/

/-- The bucket of a pair: its rules, each in the list of its type, with distinct
    ids. -/
structure PairRules.WellFormed (pairId : Uuid) (b : PairRules) : Prop where
  absoluteBelow : ∀ r ∈ b.absoluteBelow, r.ruleType = .absoluteBelow
  absoluteAbove : ∀ r ∈ b.absoluteAbove, r.ruleType = .absoluteAbove
  zscoreMove : ∀ r ∈ b.zscoreMove, r.ruleType = .zscoreMove
  percentChange : ∀ r ∈ b.percentChange, r.ruleType = .percentChange
  spreadWiden : ∀ r ∈ b.spreadWiden, r.ruleType = .spreadWiden
  ofPair : ∀ r ∈ b.all, r.pairId = pairId
  nodup : (b.all.map AlertRule.id).Nodup

theorem wellFormed_bucketOf {rules : List AlertRule}
    (h : (rules.map AlertRule.id).Nodup) (pairId : Uuid) :
    (bucketOf rules pairId).WellFormed pairId where
  absoluteBelow := fun _ hr => (mem_rulesOfType.mp hr).2.2
  absoluteAbove := fun _ hr => (mem_rulesOfType.mp hr).2.2
  zscoreMove := fun _ hr => (mem_rulesOfType.mp hr).2.2
  percentChange := fun _ hr => (mem_rulesOfType.mp hr).2.2
  spreadWiden := fun _ hr => (mem_rulesOfType.mp hr).2.2
  ofPair := by
    intro r hr
    have hmem := (all_bucketOf_perm rules pairId).mem_iff.mp hr
    simpa using (List.mem_filter.mp hmem).2
  nodup := by
    rw [((all_bucketOf_perm rules pairId).map AlertRule.id).nodup_iff]
    exact h.sublist (List.filter_sublist.map AlertRule.id)

theorem PairRules.WellFormed.sorted {pairId : Uuid} {b : PairRules}
    (h : b.WellFormed pairId) : b.sorted.WellFormed pairId where
  absoluteBelow := fun r hr =>
    h.absoluteBelow r ((List.perm_insertionSort _ _).mem_iff.mp hr)
  absoluteAbove := fun r hr =>
    h.absoluteAbove r ((List.perm_insertionSort _ _).mem_iff.mp hr)
  zscoreMove := h.zscoreMove
  percentChange := h.percentChange
  spreadWiden := h.spreadWiden
  ofPair := fun r hr => h.ofPair r (b.all_sorted_perm.mem_iff.mp hr)
  nodup := by
    rw [(b.all_sorted_perm.map AlertRule.id).nodup_iff]
    exact h.nodup

/-- Every bucket of the installed index is well formed. -/
def Memory.Indexed (m : Memory) : Prop :=
  ∀ pairId, (m.rulesForPair pairId).WellFormed pairId

/-- A bucket that sorts becomes its sorted form. -/
theorem eq_sorted_of_sortBucket {b b' : PairRules} (h : sortBucket b = .ok b') :
    b' = b.sorted := by
  rw [sortBucket, sortedByThresholdDesc, sortedByThreshold] at h
  split at h
  · cases h
  · split at h
    · cases h
    · exact (Except.ok.inj h).symm

theorem eq_map_of_sortBuckets {d d' : Dict Uuid PairRules} (h : sortBuckets d = .ok d') :
    d' = d.map (fun e => (e.1, e.2.sorted)) := by
  induction d generalizing d' with
  | nil => exact (Except.ok.inj h).symm
  | cons e rest ih =>
      obtain ⟨k, b⟩ := e
      rw [sortBuckets] at h
      cases hsort : sortBucket b with
      | error err =>
          rw [hsort] at h
          cases h
      | ok sorted =>
          cases hrest : sortBuckets rest with
          | error err =>
              rw [hsort, hrest] at h
              cases h
          | ok sortedRest =>
              rw [hsort, hrest] at h
              have hd : (k, sorted) :: sortedRest = d' := Except.ok.inj h
              rw [← hd, ih hrest, eq_sorted_of_sortBucket hsort, List.map_cons]

/-- The bucket a pair has after an install. -/
theorem Memory.rulesForPair_install {rules : List AlertRule}
    {buckets : Dict Uuid PairRules} (h : bucketRules rules = .ok buckets) (m : Memory)
    (pairId : Uuid) :
    (m.install rules buckets).rulesForPair pairId = (bucketOf rules pairId).sorted := by
  rw [eq_map_of_sortBuckets h]
  exact rulesForPair_bucketed rules pairId

theorem Memory.Indexed.install {rules : List AlertRule}
    {buckets : Dict Uuid PairRules} (hid : (rules.map AlertRule.id).Nodup)
    (hb : bucketRules rules = .ok buckets) (m : Memory) :
    (m.install rules buckets).Indexed := by
  intro pairId
  rw [m.rulesForPair_install hb pairId]
  exact (wellFormed_bucketOf hid pairId).sorted

/-- The rules of an installed index are the loaded rows. -/
theorem Memory.mem_install {rules : List AlertRule} {buckets : Dict Uuid PairRules}
    (h : bucketRules rules = .ok buckets) (m : Memory) {pairId : Uuid} {rule : AlertRule}
    (hr : rule ∈ ((m.install rules buckets).rulesForPair pairId).all) : rule ∈ rules := by
  rw [m.rulesForPair_install h, (bucketOf rules pairId).all_sorted_perm.mem_iff,
    (all_bucketOf_perm rules pairId).mem_iff] at hr
  exact List.mem_of_mem_filter hr

/-! ## Scan order -/

/-- The absolute lists are in the order the early-exit scan needs. -/
structure PairRules.ScanOrder (b : PairRules) : Prop where
  sortable : b.Sortable
  below : b.absoluteBelow.Pairwise (fun r r' => thresholdValue r' ≤ thresholdValue r)
  above : b.absoluteAbove.Pairwise (fun r r' => thresholdValue r ≤ thresholdValue r')

theorem PairRules.Sortable.scanOrder {b : PairRules} (h : b.Sortable) :
    b.sorted.ScanOrder where
  sortable := by
    constructor
    · intro r hr
      exact h.1 r ((List.perm_insertionSort _ _).mem_iff.mp hr)
    · intro r hr
      exact h.2 r ((List.perm_insertionSort _ _).mem_iff.mp hr)
  below := pairwise_insertionSort_key
    (fun r => OrderDual.toDual (thresholdValue r)) b.absoluteBelow
  above := pairwise_insertionSort_key thresholdValue b.absoluteAbove

end Dropwatch.RuleIndex
