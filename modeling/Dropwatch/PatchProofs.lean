import Dropwatch.EditingProofs

/-! # One PATCH of a rule — `update_rule`

    Three layers look at the fields of a request: the request model, the validation of
    the merged fields, and the columns of the table.  The model lets a null through for
    every field, the validation asks about the fields of the rule's type only, and two
    columns are NOT NULL.  So a request has one of four outcomes (`run_updateLoaded`),
    and two of them are exceptions of the flush. -/

namespace Dropwatch.Patch

open Transact RuleIndex Evaluator RulesApi Totality Editing

/-! ## What a PATCH asks for -/

/-- The columns of a row after the request: the given ones as the table keeps them, the
    others as before.  A column that is not nullable holds a value. -/
structure Patched (body : UpdateRuleRequest) (before after : AlertRule) : Prop where
  threshold : after.threshold
    = (body.threshold.map (Option.map (Decimal.numeric 8))).getD before.threshold
  percent : after.percent = (body.percent.map (Option.map (Decimal.numeric 4))).getD before.percent
  windowSeconds : after.windowSeconds = body.windowSeconds.getD before.windowSeconds
  sigma : after.sigma = (body.sigma.map (Option.map (Decimal.numeric 3))).getD before.sigma
  direction : after.direction = body.direction.getD before.direction
  cooldownSeconds : some after.cooldownSeconds
    = body.cooldownSeconds.getD (some before.cooldownSeconds)
  isEnabled : some after.isEnabled = body.isEnabled.getD (some before.isEnabled)
  identity : identity after = identity before

/-- The request has no null for a NOT NULL column, and no changed value that its column
    does not take. -/
structure Storable (body : UpdateRuleRequest) (rule : AlertRule) : Prop where
  cooldownSeconds : body.cooldownSeconds ≠ some none
  isEnabled : body.isEnabled ≠ some none
  fits : ∀ changes, body.changes rule = some changes → changes.fits = true

/-- The request is answered: with a committed row, valid and patched, and no other row
    changed; or with a 404 or 422, and nothing changed. -/
def CleanAnswer (settings : Settings) (ruleId : Uuid) (body : UpdateRuleRequest) (s : State) :
    Prop :=
  (∃ rule row s', runTx (updateRule settings ruleId body) s = (.ok (.ok row), s')
      ∧ findRule s.committed ruleId = some rule ∧ Patched body rule row ∧ validRule row = true
      ∧ s'.committed = { s.committed with
          alertRules := updateWhere (fun r => r.id == ruleId) (fun _ => row)
            s.committed.alertRules })
    ∨ ∃ e s', runTx (updateRule settings ruleId body) s = (.ok (.error e), s')
      ∧ (e.statusCode = 404 ∨ e.statusCode = 422) ∧ s'.committed = s.committed

/-! ## The columns -/

/-- A number that is not sent, because the loaded one is equal, is stored already. -/
theorem getD_changed_number {old : Option Decimal} {given : Option (Option Decimal)} {scale : Nat}
    (hold : old.map (Decimal.numeric scale) = old) :
    ((changed sameNumber old given).map (Option.map (Decimal.numeric scale))).getD old
      = (given.map (Option.map (Decimal.numeric scale))).getD old := by
  cases given with
  | none => rfl
  | some new =>
      rw [changed, Option.filter_some]
      cases hsame : sameNumber new old with
      | false => rfl
      | true =>
          have hnumber : new.map Decimal.toRat = old.map Decimal.toRat := beq_iff_eq.mp hsame
          show old = new.map (Decimal.numeric scale)
          rw [← hold]
          cases old with
          | none =>
              cases new with
              | none => rfl
              | some d => cases hnumber
          | some d =>
              cases new with
              | none => cases hnumber
              | some d' =>
                  exact congrArg some (Decimal.numeric_congr (Option.some.inj hnumber).symm scale)

/-- The same of the other columns. -/
theorem getD_changed {α : Type} [BEq α] [LawfulBEq α] (old : α) (given : Option α) :
    (changed (· == ·) old given).getD old = given.getD old := by
  cases given with
  | none => rfl
  | some new =>
      rw [changed, Option.filter_some]
      by_cases hsame : new = old
      · rw [if_neg (by simp [hsame]), hsame]
        rfl
      · rw [if_pos (by simp [hsame])]

/-- A field that is not null. -/
theorem getD_join {α : Type} {given : Option (Option α)} {old : α} (h : given ≠ some none) :
    some (given.join.getD old) = given.getD (some old) := by
  cases given with
  | none => rfl
  | some value =>
      cases value with
      | none => exact absurd rfl h
      | some a => rfl

/-- A field over a number that is stored. -/
theorem getD_map_numeric {old : Option Decimal} {given : Option (Option Decimal)} {scale : Nat}
    (hold : old.map (Decimal.numeric scale) = old) :
    (given.map (Option.map (Decimal.numeric scale))).getD old
      = (given.getD old).map (Decimal.numeric scale) := by
  cases given with
  | none => exact hold.symm
  | some new => rfl

section Row

variable {body : UpdateRuleRequest} {rule : AlertRule} {changes : RuleChanges}

/-- The flush is refused for a null in a NOT NULL column. -/
theorem changes_eq_none :
    body.changes rule = none ↔ body.cooldownSeconds = some none ∨ body.isEnabled = some none := by
  rw [UpdateRuleRequest.changes]
  split
  · next hnull => exact iff_of_true rfl hnull
  · next hnull => exact iff_of_false (Option.some_ne_none _) hnull

theorem storable_iff :
    Storable body rule ↔ ∃ changes, body.changes rule = some changes ∧ changes.fits = true := by
  constructor
  · rintro ⟨hcooldown, henabled, hfits⟩
    cases hc : body.changes rule with
    | none =>
        rcases changes_eq_none.mp hc with hnull | hnull
        · exact absurd hnull hcooldown
        · exact absurd hnull henabled
    | some changes => exact ⟨changes, rfl, hfits changes hc⟩
  · rintro ⟨changes, hc, hfits⟩
    have hnull : ¬ (body.cooldownSeconds = some none ∨ body.isEnabled = some none) := by
      rw [← @changes_eq_none body rule, hc]
      exact Option.some_ne_none changes
    constructor
    · exact fun h => hnull (Or.inl h)
    · exact fun h => hnull (Or.inr h)
    · intro changes' hc'
      obtain rfl := Option.some.inj (hc.symm.trans hc')
      exact hfits

/-- The UPDATE makes the row that was asked for. -/
theorem patched_changes (hstored : rule.stored = rule) (hc : body.changes rule = some changes) :
    Patched body rule (changes.stored.apply rule) := by
  have hnull : ¬ (body.cooldownSeconds = some none ∨ body.isEnabled = some none) := by
    rw [← @changes_eq_none body rule, hc]
    exact Option.some_ne_none changes
  rw [UpdateRuleRequest.changes, if_neg hnull] at hc
  obtain rfl := Option.some.inj hc
  obtain ⟨hcooldown, henabled⟩ := not_or.mp hnull
  constructor
  · exact getD_changed_number (congrArg AlertRule.threshold hstored)
  · exact getD_changed_number (congrArg AlertRule.percent hstored)
  · exact getD_changed rule.windowSeconds body.windowSeconds
  · exact getD_changed_number (congrArg AlertRule.sigma hstored)
  · exact getD_changed rule.direction body.direction
  · exact (congrArg some (getD_changed rule.cooldownSeconds _)).trans (getD_join hcooldown)
  · exact (congrArg some (getD_changed rule.isEnabled _)).trans (getD_join henabled)
  · rfl

/-- A row that was asked for is valid where the merged view is. -/
theorem Patched.valid {row : AlertRule} (h : Patched body rule row) (hstored : rule.stored = rule)
    (hmerged : validRule (merged body rule) = true) : validRule row = true := by
  have htype : row.ruleType = rule.ruleType := congrArg (fun x => x.2.2.2.1) h.identity
  have hvalid := validRule_iff_wellFormed.mpr
    (wellFormed_stored (validRule_iff_wellFormed.mp hmerged))
  -- The fields that are validated are those of the merged view in its stored form.
  rw [validRule, h.threshold, h.percent, h.windowSeconds, h.sigma, h.direction, htype,
    getD_map_numeric (congrArg AlertRule.threshold hstored),
    getD_map_numeric (congrArg AlertRule.percent hstored),
    getD_map_numeric (congrArg AlertRule.sigma hstored)]
  exact hvalid

end Row

/-! ## The run -/

/-- The tables after the UPDATE. -/
def updated (ruleId : Uuid) (changes : RuleChanges) (db : Database) : Database :=
  { db with
    alertRules := updateWhere (fun r => r.id == ruleId) changes.stored.apply db.alertRules }

section Run

variable {settings : Settings} {ruleId : Uuid} {body : UpdateRuleRequest} {rule : AlertRule}
  {changes : RuleChanges} {s : State}

theorem findRule_updated (db : Database) :
    findRule (updated ruleId changes db) ruleId
      = (findRule db ruleId).map changes.stored.apply := by
  refine find?_updateWhere_self ?_ db.alertRules
  intro r
  rfl

/-- With unique keys one row is changed. -/
theorem updated_eq {db : Database} (hkeys : UniqueKeys db) (hrule : rule ∈ db.alertRules) :
    updated rule.id changes db
      = { db with
          alertRules := updateWhere (fun r => r.id == rule.id)
            (fun _ => changes.stored.apply rule) db.alertRules } := by
  have hrows : updateWhere (fun r => r.id == rule.id) changes.stored.apply db.alertRules
      = updateWhere (fun r => r.id == rule.id) (fun _ => changes.stored.apply rule)
        db.alertRules := by
    refine updateWhere_congr ?_
    intro r hr hid
    obtain rfl := List.inj_on_of_nodup_map hkeys hr hrule (beq_iff_eq.mp hid)
    rfl
  rw [updated, hrows]

theorem runTx_updateRule :
    runTx (updateRule settings ruleId body) s
      = match findRule s.view ruleId with
        | none => (.ok (.error ⟨404, "rule " ++ uuidStr ruleId ++ " not found"⟩), s)
        | some rule => runTx (updateLoaded settings rule body) s := by
  rw [updateRule, runTx_query_bind]
  cases findRule s.view ruleId with
  | none => rfl
  | some rule => rfl

/-- A flush that the columns take; an empty one changes nothing. -/
theorem runTx_flushRule (hfits : changes.fits = true) :
    runTx (flushRule ruleId changes) s
      = (.ok (), { s with view := updated ruleId changes s.view }) := by
  rw [flushRule]
  split
  · next hempty =>
      have hsame : updated ruleId changes s.view = s.view := by
        have hrows : updateWhere (fun r => r.id == ruleId) changes.stored.apply s.view.alertRules
            = s.view.alertRules := by
          refine updateWhere_id ?_
          intro r _ _
          rw [hempty]
          rfl
        rw [updated, hrows]
      rw [hsame]
      rfl
  · rfl

/-- A flush that they refuse. -/
theorem runTx_flushRule_error (hfits : changes.fits = false) :
    runTx (flushRule ruleId changes) s = (.error .dataError, s) := by
  have hsent : changes ≠ {} := by
    rintro rfl
    cases hfits
  rw [flushRule, if_neg hsent, hfits, if_neg Bool.false_ne_true]
  rfl

/-- The commit of a row that is there. -/
theorem runTx_commitRule {done : String} {row : AlertRule} (h : findRule s.view ruleId = some row) :
    runTx (commitRule settings ruleId done) s
      = (.ok (.ok row), { s with committed := s.view }) := by
  have hcommit : runTx Tx.commit s = (.ok (), { s with committed := s.view }) := rfl
  rw [commitRule, runTx_bind_ok hcommit, runTx_query_bind, h]
  rfl

/-- What becomes of a PATCH whose row is loaded. -/
inductive Outcome (body : UpdateRuleRequest) (rule : AlertRule) (s : State) :
    Except PyError (Except HttpError AlertRule) × State → Prop where
  | invalid (detail : String) (h : validRule (merged body rule) = false) :
      Outcome body rule s (.ok (.error ⟨422, detail⟩), s)
  | null (hv : validRule (merged body rule) = true) (h : body.changes rule = none) :
      Outcome body rule s (.error .integrityError, s)
  | unfit (changes : RuleChanges) (hv : validRule (merged body rule) = true)
      (hc : body.changes rule = some changes) (h : changes.fits = false) :
      Outcome body rule s (.error .dataError, s)
  | committed (changes : RuleChanges) (hv : validRule (merged body rule) = true)
      (hc : body.changes rule = some changes) (h : changes.fits = true) :
      Outcome body rule s (.ok (.ok (changes.stored.apply rule)),
        { s with committed := updated rule.id changes s.view
                 view := updated rule.id changes s.view })

/-- There are four outcomes. -/
theorem outcome_updateLoaded (hrule : findRule s.view rule.id = some rule) :
    Outcome body rule s (runTx (updateLoaded settings rule body) s) := by
  rw [updateLoaded]
  cases hvalid : validateRuleFields rule.ruleType.str (body.threshold.getD rule.threshold)
      (body.percent.getD rule.percent) (body.windowSeconds.getD rule.windowSeconds)
      (body.sigma.getD rule.sigma) (body.direction.getD rule.direction) with
  | error detail =>
      refine .invalid detail ?_
      rw [← Bool.not_eq_true, validRule_iff]
      intro hok
      cases hvalid.symm.trans hok
  | ok u =>
      have hmerged : validRule (merged body rule) = true := validRule_iff.mpr hvalid
      cases hc : body.changes rule with
      | none => exact .null hmerged hc
      | some changes =>
          cases hfits : changes.fits with
          | false =>
              have hflush : runTx (flushRule rule.id changes) s = (.error .dataError, s) :=
                runTx_flushRule_error hfits
              show Outcome body rule s (runTx (flushRule rule.id changes >>= _) s)
              rw [runTx_bind_error hflush]
              exact .unfit changes hmerged hc hfits
          | true =>
              have hfound : findRule (updated rule.id changes s.view) rule.id
                  = some (changes.stored.apply rule) := by
                rw [findRule_updated, hrule]
                rfl
              have hflush : runTx (flushRule rule.id changes) s
                  = (.ok (), { s with view := updated rule.id changes s.view }) :=
                runTx_flushRule hfits
              show Outcome body rule s (runTx (flushRule rule.id changes >>= _) s)
              rw [runTx_bind_ok hflush, runTx_commitRule hfound]
              exact .committed changes hmerged hc hfits

end Run

/-- A request that raises is not answered. -/
theorem not_cleanAnswer_of_error {settings : Settings} {ruleId : Uuid} {body : UpdateRuleRequest}
    {s s' : State} {e : PyError}
    (h : runTx (updateRule settings ruleId body) s = (.error e, s')) :
    ¬ CleanAnswer settings ruleId body s := by
  rintro (⟨_, _, _, heq, -⟩ | ⟨_, _, heq, -⟩)
  · cases h.symm.trans heq
  · cases h.symm.trans heq

/-- In a new session a request gets a clean answer exactly if the rule is not there, its
    merged fields are not valid, or the table can hold what the request asks for. -/
theorem cleanAnswer_iff {settings : Settings} {ruleId : Uuid} {body : UpdateRuleRequest} {s : State}
    (hnew : s.view = s.committed) (hkeys : UniqueKeys s.committed)
    (hstored : ∀ rule ∈ s.committed.alertRules, rule.stored = rule) :
    CleanAnswer settings ruleId body s
      ↔ ∀ rule, findRule s.committed ruleId = some rule → validRule (merged body rule) = true →
          Storable body rule := by
  have hrun := @runTx_updateRule settings ruleId body s
  rw [hnew] at hrun
  cases hrule : findRule s.committed ruleId with
  | none =>
      rw [hrule] at hrun
      refine iff_of_true (Or.inr ⟨_, _, hrun, Or.inl rfl, rfl⟩) ?_
      intro rule heq
      cases heq
  | some rule =>
      rw [hrule] at hrun
      have hmem : rule ∈ s.committed.alertRules := List.mem_of_find?_eq_some hrule
      have hid : (rule.id == ruleId) = true :=
        @List.find?_some _ (fun r : AlertRule => r.id == ruleId) _ _ hrule
      obtain rfl : rule.id = ruleId := beq_iff_eq.mp hid
      have houtcome : Outcome body rule s (runTx (updateRule settings rule.id body) s) :=
        hrun ▸ outcome_updateLoaded (by rw [hnew]; exact hrule)
      -- What is left to compare is the outcome with the condition.
      have honly : (∀ rule', some rule = some rule' → validRule (merged body rule') = true →
          Storable body rule') ↔ (validRule (merged body rule) = true → Storable body rule) := by
        constructor
        · exact fun h => h rule rfl
        · rintro h rule' heq
          obtain rfl := Option.some.inj heq
          exact h
      rw [honly, storable_iff]
      generalize hresult : runTx (updateRule settings rule.id body) s = result at houtcome
      cases houtcome with
      | invalid detail hv =>
          refine iff_of_true (Or.inr ⟨_, _, hresult, Or.inr rfl, rfl⟩) ?_
          intro hv'
          cases hv.symm.trans hv'
      | null hv hnull =>
          refine iff_of_false (not_cleanAnswer_of_error hresult) ?_
          intro h
          obtain ⟨changes, hc, -⟩ := h hv
          cases hnull.symm.trans hc
      | unfit changes hv hc hfits =>
          refine iff_of_false (not_cleanAnswer_of_error hresult) ?_
          intro h
          obtain ⟨changes', hc', hfits'⟩ := h hv
          obtain rfl := Option.some.inj (hc.symm.trans hc')
          cases hfits.symm.trans hfits'
      | committed changes hv hc hfits =>
          have hpatched := patched_changes (hstored rule hmem) hc
          refine iff_of_true (Or.inl ⟨rule, _, _, hresult, hrule, hpatched,
            hpatched.valid (hstored rule hmem) hv, ?_⟩) (fun _ => ⟨changes, hc, hfits⟩)
          rw [← updated_eq hkeys hmem, hnew]

/-! ## A null for a switch -/

/-- A stored rule on a change of five per cent within a minute. -/
def storedRule : AlertRule :=
  { id := 7, userId := 3, pairId := 1, ruleType := .percentChange
    percent := some ⟨false, 50000, -4⟩, windowSeconds := some 60 }

def stored : State :=
  let db : Database := { alertRules := [storedRule] }
  ⟨db, db, {}, { clock := 0 }⟩

theorem unset_nonneg :
    (none : Option (Option Int)).join.all (fun c => decide (0 ≤ c)) = true := rfl

/-- The rule is switched off, and its window is longer. -/
def switchOff : UpdateRuleRequest :=
  { windowSeconds := some (some 90), isEnabled := some (some false),
    cooldown_nonneg := unset_nonneg }

/-- The request has a null for the switch. -/
def switchNull : UpdateRuleRequest :=
  { isEnabled := some none, cooldown_nonneg := unset_nonneg }

theorem cleanAnswer_iff_switchOff :
    CleanAnswer {} 7 switchOff stored
      ↔ ∀ rule, findRule stored.committed 7 = some rule →
          validRule (merged switchOff rule) = true → Storable switchOff rule :=
  cleanAnswer_iff rfl (by decide) (by decide +kernel)

/-- The request model takes it, and so does the validation; the table does not. -/
theorem not_cleanAnswer_switchNull :
    runTx (updateRule {} 7 switchNull) stored = (.error .integrityError, stored)
      ∧ ¬ CleanAnswer {} 7 switchNull stored := by
  have hrun : runTx (updateRule {} 7 switchNull) stored = (.error .integrityError, stored) := rfl
  exact ⟨hrun, not_cleanAnswer_of_error hrun⟩

end Dropwatch.Patch
