import Dropwatch.CandidateProofs
import Dropwatch.Poller

/-! # Indexed evaluation equals the naive scan

    A naive engine tests every loaded rule of the pair on its own, with its own
    lookups and no cache (`ownPredicate`).  The indexed engine buckets, sorts,
    scans with early exits and shares two kinds of lookup.  The two select the
    same rules. -/

namespace Dropwatch.Evaluator

open Transact RuleIndex Zscore Poller

section Naive

variable (rt : Runtime) (settings : Settings)

/-- The predicate of one rule over the tables.  It raises where its own lookup
    or score does. -/
def ownPredicate (db : Database) (pair : Pair) (obs : Observation)
    (rule : AlertRule) : Except PyError Bool :=
  match rule.ruleType with
  | .absoluteBelow => .ok (ruleFires rule obs.last)
  | .absoluteAbove => .ok (ruleFires rule obs.last)
  | .zscoreMove =>
      (scoreIn rt settings db pair).map (fun score =>
        zscoreRuleFires rt rule score settings.zscoreZeroVarianceMinPercent)
  | .percentChange =>
      match rule.windowSeconds with
      | none => .error .typeError
      | some window =>
          .ok (percentChangeRuleFires rule obs.last
            (db.priceAtOrBefore pair.id (obs.observedAt - seconds window)))
  | .spreadWiden => .ok (spreadWidenRuleFires rule obs.bid obs.ask)

/-- The rules of a list have what their lookups need. -/
def HaveWindows (rules : List AlertRule) : Prop :=
  ∀ r ∈ rules, r.ruleType = .percentChange → r.windowSeconds.isSome = true

variable {rt settings} {db : Database} {pair : Pair} {obs : Observation}
  {b : PairRules}

/-- Predicates read the history of the pair, newest first, and nothing else. -/
theorem ownPredicate_congr {db' : Database} {rule : AlertRule}
    (h : db.historyDesc pair.id = db'.historyDesc pair.id) :
    ownPredicate rt settings db pair obs rule
      = ownPredicate rt settings db' pair obs rule := by
  simp only [ownPredicate, scoreIn, Database.recentPrices, Database.priceAtOrBefore]
  rw [h]

/-- On the shared score, the tested predicate is the rule's own. -/
theorem ownPredicate_eq_firesIn {pairId : Uuid} {score : Option (ZScoreResult rt)}
    (hw : b.WellFormed pairId)
    (hs : sharedScore rt settings db pair b.zscoreMove = .ok score)
    (hwin : ∀ r ∈ b.percentChange, r.windowSeconds.isSome = true)
    {r : AlertRule} (hr : r ∈ b.all) :
    ownPredicate rt settings db pair obs r
      = .ok (firesIn rt settings db pair obs score r) := by
  simp only [PairRules.all] at hr
  simp only [List.mem_append] at hr
  rcases hr with (((hr | hr) | hr) | hr) | hr
  · simp [firesIn, ownPredicate, hw.absoluteBelow r hr]
  · simp [firesIn, ownPredicate, hw.absoluteAbove r hr]
  · have hne : b.zscoreMove.isEmpty = false :=
      List.isEmpty_eq_false_iff.mpr (List.ne_nil_of_mem hr)
    rw [sharedScore, hne] at hs
    simp only [Bool.false_eq_true, if_false] at hs
    simp [firesIn, ownPredicate, hw.zscoreMove r hr, hs, Except.map]
  · obtain ⟨w, hw'⟩ := Option.isSome_iff_exists.mp (hwin r hr)
    simp [firesIn, ownPredicate, hw.percentChange r hr, pastPrice, hw']
  · simp [firesIn, ownPredicate, hw.spreadWiden r hr]

/-- Where the windows are there, the stage raises only what the score raises. -/
theorem candidatesIn_error {e : PyError}
    (hwin : ∀ r ∈ b.percentChange, r.windowSeconds.isSome = true)
    (h : candidatesIn rt settings db pair obs b = .error e) :
    b.zscoreMove ≠ [] ∧ scoreIn rt settings db pair = .error e := by
  rw [candidatesIn_eq_map rt settings hwin] at h
  cases hs : sharedScore rt settings db pair b.zscoreMove with
  | ok score =>
      rw [hs] at h
      cases h
  | error e' =>
      rw [hs] at h
      rw [← Except.error.inj h]
      rw [sharedScore] at hs
      by_cases hz : b.zscoreMove.isEmpty = true
      · rw [if_pos hz] at hs
        cases hs
      · rw [if_neg hz] at hs
        exact ⟨fun hnil => hz (by rw [hnil]; rfl), hs⟩

/-- The naive selection: who is selected, or who is to blame. -/
def NaiveSelection (rt : Runtime) (settings : Settings) (db : Database) (pair : Pair)
    (obs : Observation) (rules : List AlertRule) :
    Except PyError (Candidates rt) → Prop
  | .ok c => c.rules.Nodup ∧ ∀ r, r ∈ c.rules
      ↔ r ∈ rules ∧ r.pairId = pair.id ∧ ownPredicate rt settings db pair obs r = .ok true
  | .error e => ∃ r ∈ rules, r.pairId = pair.id
      ∧ ownPredicate rt settings db pair obs r = .error e

theorem mem_all_bucketOf_sorted {rules : List AlertRule} {pairId : Uuid}
    {r : AlertRule} :
    r ∈ (bucketOf rules pairId).sorted.all ↔ r ∈ rules ∧ r.pairId = pairId := by
  rw [(bucketOf rules pairId).all_sorted_perm.mem_iff,
    (all_bucketOf_perm rules pairId).mem_iff]
  simp

/-- The candidate stage on the sorted bucket of a pair is the naive selection. -/
theorem naiveSelection_candidatesIn {rules : List AlertRule}
    (hid : (rules.map AlertRule.id).Nodup) (hthr : HaveThresholds rules)
    (hwin : HaveWindows rules) :
    NaiveSelection rt settings db pair obs rules
      (candidatesIn rt settings db pair obs (bucketOf rules pair.id).sorted) := by
  have hw : (bucketOf rules pair.id).sorted.WellFormed pair.id :=
    (wellFormed_bucketOf hid pair.id).sorted
  have ho : (bucketOf rules pair.id).sorted.ScanOrder :=
    (sortable_bucketOf hthr pair.id).scanOrder
  have hwins : ∀ r ∈ (bucketOf rules pair.id).sorted.percentChange,
      r.windowSeconds.isSome = true := by
    intro r hr
    exact hwin r (mem_rulesOfType.mp hr).1 (hw.percentChange r hr)
  cases hc : candidatesIn rt settings db pair obs (bucketOf rules pair.id).sorted with
  | ok c =>
      obtain ⟨hs, -, hrules, -⟩ := candidatesIn_ok rt settings hc
      have hfilter := hrules.trans (selectedIn_eq_filter rt settings hw ho)
      constructor
      · rw [hfilter]
        exact (List.Nodup.of_map AlertRule.id hw.nodup).filter _
      · intro r
        rw [hfilter, List.mem_filter]
        constructor
        · rintro ⟨hmem, hfires⟩
          obtain ⟨hr, hp⟩ := mem_all_bucketOf_sorted.mp hmem
          exact ⟨hr, hp, by rw [ownPredicate_eq_firesIn hw hs hwins hmem, hfires]⟩
        · rintro ⟨hr, hp, hown⟩
          have hmem := mem_all_bucketOf_sorted.mpr ⟨hr, hp⟩
          rw [ownPredicate_eq_firesIn hw hs hwins hmem] at hown
          exact ⟨hmem, Except.ok.inj hown⟩
  | error e =>
      obtain ⟨hne, hs⟩ := candidatesIn_error hwins hc
      obtain ⟨r, hr⟩ := List.exists_mem_of_ne_nil _ hne
      obtain ⟨hmem, hp, ht⟩ := mem_rulesOfType.mp hr
      refine ⟨r, hmem, hp, ?_⟩
      simp [ownPredicate, ht, hs, Except.map]

/-- A rebuild returns the number of loaded rules and installs their buckets. -/
theorem runTx_rebuild {rules : List AlertRule} {buckets : Dict Uuid PairRules}
    (hthr : HaveThresholds rules) (hb : bucketRules rules = .ok buckets) {s : State}
    (hload : s.view.alertRules.filter (fun r => r.isEnabled) = rules) :
    runTx rebuild s = (.ok rules.length, { s with mem := s.mem.install rules buckets }) := by
  rw [rebuild]
  show runTx (Tx.lift (bucketRules (s.view.alertRules.filter (fun r => r.isEnabled)))
    >>= _) s = _
  rw [hload, hb]
  show (Except.ok (bucketCount buckets), { s with
    mem := s.mem.install (s.view.alertRules.filter (fun r => r.isEnabled)) buckets }) = _
  rw [bucketCount_bucketRules hthr hb, hload]

/-- Indexed evaluation equals the naive scan, and the index loses nothing. -/
theorem indexed_evaluation_eq_naive_scan {rules : List AlertRule}
    (hid : (rules.map AlertRule.id).Nodup) (hthr : HaveThresholds rules)
    (hwin : HaveWindows rules) :
    ∃ buckets, bucketRules rules = .ok buckets
      ∧ (∀ m : Memory, ∀ pairId, ((m.install rules buckets).rulesForPair pairId).all.Perm
          (rules.filter (fun r => r.pairId == pairId)))
      ∧ (∀ s : State, s.view.alertRules.filter (fun r => r.isEnabled) = rules →
          runTx rebuild s
            = (.ok rules.length, { s with mem := s.mem.install rules buckets }))
      ∧ ∀ (pair : Pair) (obs : Observation) (s : State), s.mem.buckets = buckets →
          NaiveSelection rt settings s.view pair obs rules
            (runTx (selectCandidates rt settings pair obs (s.mem.rulesForPair pair.id))
              s).1 := by
  refine ⟨_, bucketRules_ok hthr, ?_, ?_, ?_⟩
  · intro m pairId
    rw [m.rulesForPair_install (bucketRules_ok hthr)]
    exact (bucketOf rules pairId).all_sorted_perm.trans (all_bucketOf_perm rules pairId)
  · intro s hload
    exact runTx_rebuild hthr (bucketRules_ok hthr) hload
  · intro pair obs s hbuckets
    have hpair : s.mem.rulesForPair pair.id = (bucketOf rules pair.id).sorted := by
      rw [Memory.rulesForPair, hbuckets]
      exact rulesForPair_bucketed rules pair.id
    rw [hpair, runTx_selectCandidates]
    exact naiveSelection_candidatesIn hid hthr hwin

end Naive

/-- Two rules with one threshold, a rule of another pair and one with a window. -/
def mixedRules : List AlertRule :=
  [{ id := 1, pairId := 1, ruleType := .absoluteBelow, threshold := some ⟨false, 5, 0⟩ },
    { id := 2, pairId := 2, ruleType := .absoluteAbove, threshold := some ⟨false, 9, 0⟩ },
    { id := 3, pairId := 1, ruleType := .absoluteBelow, threshold := some ⟨false, 50, -1⟩ },
    { id := 4, pairId := 1, ruleType := .percentChange, percent := some ⟨false, 1, 0⟩,
      windowSeconds := some 60 }]

theorem indexed_evaluation_eq_naive_scan_mixed :
    ∃ buckets, bucketRules mixedRules = .ok buckets
      ∧ (∀ m : Memory, ∀ pairId,
          ((m.install mixedRules buckets).rulesForPair pairId).all.Perm
            (mixedRules.filter (fun r => r.pairId == pairId)))
      ∧ (∀ s : State, s.view.alertRules.filter (fun r => r.isEnabled) = mixedRules →
          runTx rebuild s
            = (.ok mixedRules.length, { s with mem := s.mem.install mixedRules buckets }))
      ∧ ∀ (pair : Pair) (obs : Observation) (s : State), s.mem.buckets = buckets →
          NaiveSelection Runtime.rational {} s.view pair obs mixedRules
            (runTx (selectCandidates Runtime.rational {} pair obs
              (s.mem.rulesForPair pair.id)) s).1 := by
  refine indexed_evaluation_eq_naive_scan (by decide) ?_ ?_
  · rw [HaveThresholds]
    decide
  · rw [HaveWindows]
    decide

end Dropwatch.Evaluator
