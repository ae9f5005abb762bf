import Dropwatch.Lib.Dict
import Dropwatch.Lib.Sorted
import Dropwatch.Tables

/-! # The in-memory rule index — `workers/rule_index.py`

    Rules bucketed by pair and type.  `bucketRules` is a pure function of the
    loaded rows; the index object is process memory (`Memory`), reached through
    the operations of `MemOp`.

    Rule objects are mutable and detached from any session: their
    `last_fired_at` lives in memory, and a rebuild makes new objects.  An object
    is named by the load that made it (`generation`) and its rule id, so that an
    evaluation holding objects of an old load writes to those and not to the
    ones a rebuild has installed since. -/

namespace Dropwatch.RuleIndex

open Transact

/-- The rules of one pair, by type. -/
structure PairRules where
  absoluteBelow : List AlertRule := []
  absoluteAbove : List AlertRule := []
  zscoreMove : List AlertRule := []
  percentChange : List AlertRule := []
  spreadWiden : List AlertRule := []

namespace PairRules

/-- `by_type[rule.rule_type].append(rule)` -/
def append (b : PairRules) (rule : AlertRule) : PairRules :=
  match rule.ruleType with
  | .absoluteBelow => { b with absoluteBelow := b.absoluteBelow ++ [rule] }
  | .absoluteAbove => { b with absoluteAbove := b.absoluteAbove ++ [rule] }
  | .zscoreMove => { b with zscoreMove := b.zscoreMove ++ [rule] }
  | .percentChange => { b with percentChange := b.percentChange ++ [rule] }
  | .spreadWiden => { b with spreadWiden := b.spreadWiden ++ [rule] }

/-- All rules of the bucket. -/
def all (b : PairRules) : List AlertRule :=
  b.absoluteBelow ++ b.absoluteAbove ++ b.zscoreMove ++ b.percentChange
    ++ b.spreadWiden

/-- The number `rebuild` adds up. -/
def count (b : PairRules) : Nat :=
  b.absoluteBelow.length + b.absoluteAbove.length + b.zscoreMove.length
    + b.percentChange.length + b.spreadWiden.length

end PairRules

/-- The number a threshold stands for in a comparison. -/
def thresholdValue (rule : AlertRule) : ℚ :=
  (rule.threshold.map Decimal.toRat).getD 0

/-- `sorted(rules, key=lambda r: r.threshold)`: stable, and a `TypeError` as soon
    as a comparison meets a null threshold. -/
def sortedByThreshold (rules : List AlertRule) : Except PyError (List AlertRule) :=
  if 2 ≤ rules.length ∧ rules.any (fun r => r.threshold.isNone) then
    .error .typeError
  else .ok (rules.insertionSort (fun a b => thresholdValue a ≤ thresholdValue b))

/-- `sorted(rules, key=lambda r: r.threshold, reverse=True)` -/
def sortedByThresholdDesc (rules : List AlertRule) :
    Except PyError (List AlertRule) :=
  if 2 ≤ rules.length ∧ rules.any (fun r => r.threshold.isNone) then
    .error .typeError
  else .ok (rules.insertionSort (fun a b => thresholdValue b ≤ thresholdValue a))

/-- The grouping loop of `_bucket_rules`. -/
def groupRules (rules : List AlertRule) : Dict Uuid PairRules :=
  rules.foldl
    (fun grouped rule =>
      grouped.set rule.pairId (((grouped.get? rule.pairId).getD {}).append rule))
    []

/-- One entry of the dict comprehension of `_bucket_rules`. -/
def sortBucket (byType : PairRules) : Except PyError PairRules := do
  let absoluteBelow ← sortedByThresholdDesc byType.absoluteBelow
  let absoluteAbove ← sortedByThreshold byType.absoluteAbove
  pure { byType with absoluteBelow, absoluteAbove }

/-- The dict comprehension of `_bucket_rules`. -/
def sortBuckets : Dict Uuid PairRules → Except PyError (Dict Uuid PairRules)
  | [] => .ok []
  | (pairId, byType) :: rest => do
      let b ← sortBucket byType
      let bs ← sortBuckets rest
      pure ((pairId, b) :: bs)

/-- `_bucket_rules` -/
def bucketRules (rules : List AlertRule) : Except PyError (Dict Uuid PairRules) :=
  sortBuckets (groupRules rules)

/-- The sum `rebuild` returns. -/
def bucketCount (buckets : Dict Uuid PairRules) : Nat :=
  (buckets.map (fun e => e.2.count)).sum

/-! ## The index object and the rule objects -/

/-- The memory of a process: the installed buckets, the load they come from and
    the `last_fired_at` of every rule object ever loaded. -/
structure Memory where
  generation : Nat := 0
  buckets : Dict Uuid PairRules := []
  lastFiredAt : Nat → Uuid → Option Instant := fun _ _ => none

namespace Memory

/-- `rules_for_pair` -/
def rulesForPair (m : Memory) (pairId : Uuid) : PairRules :=
  (m.buckets.get? pairId).getD {}

/-- `rule.last_fired_at = at`, on an object of the given load. -/
def setLastFiredAt (m : Memory) (generation : Nat) (ruleId : Uuid)
    (at_ : Instant) : Memory :=
  { m with
    lastFiredAt := fun g r =>
      if g = generation ∧ r = ruleId then some at_ else m.lastFiredAt g r }

/-- `self._buckets = buckets`, the objects of `rules` being those in the
    buckets. -/
def install (m : Memory) (rules : List AlertRule) (buckets : Dict Uuid PairRules) :
    Memory :=
  { generation := m.generation + 1
    buckets
    lastFiredAt := fun g r =>
      if g = m.generation + 1 then
        ((rules.find? (fun rule => rule.id == r)).map AlertRule.lastFiredAt).join
      else m.lastFiredAt g r }

end Memory

/-- The operations on process memory. -/
inductive MemOp : Type → Type where
  | rulesForPair (pairId : Uuid) : MemOp (Nat × PairRules)
  | getLastFiredAt (generation : Nat) (ruleId : Uuid) : MemOp (Option Instant)
  | setLastFiredAt (generation : Nat) (ruleId : Uuid) (at_ : Instant) : MemOp Unit
  | install (rules : List AlertRule) (buckets : Dict Uuid PairRules) : MemOp Unit

/-- What an operation on process memory does. -/
def touch {β : Type} (op : MemOp β) (m : Memory) : β × Memory :=
  match op with
  | .rulesForPair pairId => ((m.generation, m.rulesForPair pairId), m)
  | .getLastFiredAt generation ruleId => (m.lastFiredAt generation ruleId, m)
  | .setLastFiredAt generation ruleId at_ =>
      ((), m.setLastFiredAt generation ruleId at_)
  | .install rules buckets => ((), m.install rules buckets)

end Dropwatch.RuleIndex
