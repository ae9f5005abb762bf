import Dropwatch.Lib.Trace
import Dropwatch.RedeliveryProofs
import Dropwatch.TotalityProofs
import Dropwatch.Workers

/-! # An unmoved price

    The provider quotes the same price at every poll.  A movement rule compares
    the current price with stored ones, and a stored price is the quote rounded
    to the eight decimals of its column.

    * `zscore_move` scores stored prices only: a constant list has zero variance
      and a return of zero, which is below every positive minimum.
    * `percent_change` compares the quote itself with a stored price, so a quote
      with more decimals moves against its own rounding (`roundingMove`).

    The runs are those of any number of pollers and index rebuilds, interleaved
    and stopped anywhere.  The invariant (`Still`) holds of every frame by itself,
    and each program is checked under the answers it allows. -/

namespace Dropwatch.Unmoved

open Transact RuleIndex Zscore Evaluator Poller Workers Totality

/-! ## A constant list of stored prices -/

/-- What the code relies on of float arithmetic where nothing moves: a price that is
    not zero, divided by itself, has logarithm zero, and zeros do not deviate. -/
structure FlatLaws (rt : Runtime) : Prop where
  isZero_ofDecimal : ∀ p, StoredPrice p → rt.isZero (rt.ofDecimal p) = p.isZero
  log_div_self : ∀ p, StoredPrice p → p.isZero = false →
    rt.log (rt.div (rt.ofDecimal p) (rt.ofDecimal p)) = rt.zero
  percent_zero : rt.percent (rt.abs (rt.expm1 rt.zero)) = rt.zero
  isZero_zero : rt.isZero rt.zero = true
  stdev_zeros : ∀ n, rt.isZero (rt.stdev (List.replicate n rt.zero)) = true

section Flat

variable {rt : Runtime} (laws : FlatLaws rt) {q : Decimal} (hq : StoredPrice q)

include laws hq

/-- The returns of a constant list, if it has any, are zero. -/
theorem logReturns_constant {n : Nat} {rs : List rt.F}
    (h : logReturns rt (List.replicate n (rt.ofDecimal q)) = .ok rs) :
    ∀ r ∈ rs, r = rt.zero := by
  induction n generalizing rs with
  | zero =>
      rw [← Except.ok.inj h]
      exact fun r hr => absurd hr List.not_mem_nil
  | succ n ih =>
      cases n with
      | zero =>
          rw [← Except.ok.inj h]
          exact fun r hr => absurd hr List.not_mem_nil
      | succ n =>
          rw [List.replicate_succ, List.replicate_succ, logReturns, Runtime.divide,
            laws.isZero_ofDecimal q hq] at h
          cases hz : q.isZero with
          | true =>
              rw [hz] at h
              cases h
          | false =>
              rw [hz] at h
              simp only [Bool.false_eq_true, if_false, bind, Except.bind, Runtime.mathLog] at h
              split at h
              · cases h
              · rename_i r hr
                split at hr
                · have hone : r = rt.zero := by
                    rw [← Except.ok.inj hr, laws.log_div_self q hq hz]
                  rw [← List.replicate_succ] at h
                  cases hrest : logReturns rt (List.replicate (n + 1) (rt.ofDecimal q)) with
                  | error e =>
                      rw [hrest] at h
                      cases h
                  | ok rest =>
                      rw [hrest] at h
                      rw [← Except.ok.inj h]
                      intro x hx
                      rcases List.mem_cons.mp hx with rfl | hx
                      · exact hone
                      · exact ih hrest x hx
                · cases hr

omit hq in
/-- A return of zero against returns of zero: no variance, no move. -/
theorem scoreReturn_zeros {baseline : List rt.F} (hb : ∀ r ∈ baseline, r = rt.zero)
    {result : ZScoreResult rt} (h : scoreReturn rt rt.zero baseline = .ok result) :
    result.currentReturn = rt.zero ∧ result.z = none := by
  have hstdev : rt.isZero (if 2 ≤ baseline.length then rt.stdev baseline else rt.zero)
      = true := by
    split
    · rw [List.eq_replicate_of_mem hb]
      exact laws.stdev_zeros _
    · exact laws.isZero_zero
  rw [scoreReturn] at h
  cases hmean : fmean rt baseline with
  | error e =>
      rw [hmean] at h
      cases h
  | ok mean =>
      rw [hmean] at h
      simp only [bind, Except.bind, if_pos hstdev] at h
      rw [← Except.ok.inj h]
      exact ⟨rfl, rfl⟩

omit laws hq in
theorem lastSlice_subset {α : Type} (window : Nat) (xs : List α) : lastSlice window xs ⊆ xs := by
  rw [lastSlice]
  split
  · exact List.Subset.refl xs
  · exact List.drop_subset _ xs

/-- The score of a constant list, if it has one, is that of no move. -/
theorem computeZscore_constant {prices : List Decimal} (hprices : ∀ p ∈ prices, p = q)
    {window minObservations : Nat} {result : ZScoreResult rt}
    (h : computeZscore rt prices window minObservations = .ok (some result)) :
    result.currentReturn = rt.zero ∧ result.z = none := by
  have hmap : prices.map rt.ofDecimal = List.replicate prices.length (rt.ofDecimal q) := by
    rw [List.eq_replicate_of_mem hprices, List.map_replicate, List.length_replicate]
  rw [computeZscore] at h
  split at h
  · cases h
  · cases hreturns : logReturns rt (prices.map rt.ofDecimal) with
    | error e =>
        rw [hreturns] at h
        cases h
    | ok returns =>
        have hzero : ∀ r ∈ returns, r = rt.zero := by
          rw [hmap] at hreturns
          exact logReturns_constant laws hq hreturns
        rw [hreturns] at h
        simp only [bind, Except.bind] at h
        cases hlast : returns.getLast? with
        | none =>
            rw [hlast] at h
            cases h
        | some current =>
            rw [hlast] at h
            simp only at h
            split at h
            · cases h
            · have hbaseline : ∀ r ∈ (if window < returns.dropLast.length then
                  lastSlice window returns.dropLast else returns.dropLast), r = rt.zero := by
                intro r hr
                refine hzero r (List.dropLast_subset returns ?_)
                split at hr
                · exact lastSlice_subset window _ hr
                · exact hr
              -- What is scored is a return of zero on a baseline of zeros.
              rw [hzero current (List.mem_of_getLast? hlast)] at h
              cases hscore : scoreReturn rt rt.zero (if window < returns.dropLast.length then
                  lastSlice window returns.dropLast else returns.dropLast) with
              | error e =>
                  rw [hscore] at h
                  cases h
              | ok r =>
                  rw [hscore] at h
                  rw [← Option.some.inj (Except.ok.inj h)]
                  exact scoreReturn_zeros laws hbaseline hscore

omit hq in
/-- No move is below every minimum that is positive as a float. -/
theorem zscoreRuleFires_flat {minPercent : Decimal}
    (hmin : rt.lt rt.zero (rt.ofDecimal minPercent) = true) {result : Option (ZScoreResult rt)}
    (h : ∀ r, result = some r → r.currentReturn = rt.zero ∧ r.z = none) (rule : AlertRule) :
    zscoreRuleFires rt rule result minPercent = false := by
  cases result with
  | none => rfl
  | some r =>
      obtain ⟨hcurrent, hz⟩ := h r rfl
      cases hs : rule.sigma with
      | none => simp only [zscoreRuleFires, hs]
      | some sigma =>
          simp only [zscoreRuleFires, hs, hz, hcurrent, laws.percent_zero, hmin, if_true]

end Flat

/-! ## A quote and its rounding -/

/-- The move from a stored price to the quote it was rounded from, in percent. -/
def roundingMove (p : Decimal) : ℚ := Decimal.percentOf (p.numeric 8) p

/-- A rule does not notice the rounding of a price: the price is stored as zero, or
    the move is inside the rule's percent. -/
def Unnoticed (p : Decimal) (rule : AlertRule) : Prop :=
  (p.numeric 8).isZero = true ∨ ∀ percent, rule.percent = some percent →
    if directionOrBoth rule = "down" then
      Decimal.context (-percent.toRat) < roundingMove p
    else if directionOrBoth rule = "up" then roundingMove p < percent.toRat
    else |roundingMove p| < percent.toRat

/-- Where the rounding is not noticed, the rule is silent on its own past. -/
theorem percentChangeRuleFires_unnoticed {p : Decimal} {rule : AlertRule}
    (h : Unnoticed p rule) {price : Decimal} (hprice : price.toRat = p.toRat)
    {past : Option Decimal} (hpast : ∀ x, past = some x → x = p.numeric 8) :
    percentChangeRuleFires rule price past = false := by
  cases past with
  | none => rfl
  | some x =>
      rw [hpast x rfl]
      cases hpercent : rule.percent with
      | none => simp only [percentChangeRuleFires, hpercent]
      | some percent =>
          have hmove : Decimal.percentOf (p.numeric 8) price = roundingMove p := by
            rw [roundingMove, Decimal.percentOf, Decimal.percentOf, hprice]
          simp only [percentChangeRuleFires, hpercent, hmove]
          rcases h with hzero | h
          · rw [if_pos hzero]
          · have hin := h percent hpercent
            split
            · rfl
            · split at hin
              · rename_i hd
                rw [if_pos hd]
                exact decide_eq_false (not_le.mpr hin)
              · rename_i hd
                rw [if_neg hd]
                split at hin
                · rename_i hu
                  rw [if_pos hu]
                  exact decide_eq_false (not_le.mpr hin)
                · rename_i hu
                  rw [if_neg hu]
                  exact decide_eq_false (not_le.mpr hin)

/-! ## The invariant -/

/-- A rule that is to fire on a movement only. -/
def MovementRule (rule : AlertRule) : Prop :=
  (rule.ruleType = .percentChange ∧ ∃ percent, rule.percent = some percent ∧ 0 < percent.toRat)
    ∨ (rule.ruleType = .zscoreMove ∧ ∃ sigma, rule.sigma = some sigma ∧ 0 < sigma.toRat)

/-- A movement rule, and a price whose rounding it does not notice. -/
structure Unmoving (rt : Runtime) (settings : Settings) (p : Decimal) (rule : AlertRule) :
    Prop where
  laws : FlatLaws rt
  positive : 0 < p.toRat
  stored : StoredPrice (p.numeric 8)
  minimum : rt.lt rt.zero (rt.ofDecimal settings.zscoreZeroVarianceMinPercent) = true
  movement : MovementRule rule
  quiet : rule.ruleType = .percentChange → Unnoticed p rule

/-- Whatever the provider returns, the pair of that name is quoted at `p`. -/
def QuotedAt (name : String) (p : Decimal) (β : Type) (e : ExtOp β) (b : β) : Prop :=
  match e, b with
  | .getQuotes _, some quotes =>
      ∀ quote, quotes.get? name = some quote → quote.last.toRat = p.toRat
  | _, _ => True

/-- Any number of pollers and rebuilds, each stopped anywhere, with a provider that
    quotes one price for a pair. -/
def unmoved (rt : Runtime) (settings : Settings) (name : String) (p : Decimal) :
    WorkerSystem where
  backend := backend
  answers := fun β e w b w' => Answers β e w b w' ∧ QuotedAt name p β e b
  starts := fun _ _ _ prog =>
    (∃ messages, prog = thread (processBatch rt settings messages)) ∨ prog = thread rebuild
  execs := fun _ _ _ _ _ => True
  closes := fun _ _ _ => True

section Setup

variable (name : String) (p : Decimal) (rule : AlertRule)

/-- Rows of the rule's id that are the rule, up to the time of its last fire. -/
def Defines (rules : List AlertRule) : Prop := ∀ r ∈ rules, r.id = rule.id → SameRule rule r

/-- Tables in which the pair of the rule has not moved and the rule has not fired. -/
structure StillTables (db : Database) : Prop where
  rows : ∀ row ∈ db.priceHistory, row.pairId = rule.pairId → row.lastPrice = p.numeric 8
  named : ∀ pair ∈ db.pairs, pair.id = rule.pairId → pair.krakenPairName = name
  defined : Defines rule db.alertRules
  silent : ∀ n ∈ db.notifications, n.ruleId ≠ rule.id

/-- Buckets of rows that define the rule. -/
def LoadedFrom (m : Memory) : Prop :=
  ∃ rules, Defines rule rules ∧ ∀ pairId, m.rulesForPair pairId = (bucketOf rules pairId).sorted

/-- The writes that keep the tables so. -/
def stillWrite : Write → Prop
  | .addPriceHistory row => row.pairId = rule.pairId → row.lastPrice.numeric 8 = p.numeric 8
  | .addNotification n => n.ruleId ≠ rule.id
  | .setPairObservation _ _ _ _ _ => True
  | .setRuleLastFiredAt _ _ => True
  | .addOutboxEvent _ _ => True
  | _ => False

/-- The invariant of a frame. -/
structure Still (f : Shared) : Prop where
  tables : StillTables name p rule f.db
  logs : ∀ i s, f.sessions i = some s → ∀ e ∈ s.log, stillWrite p rule e.2
  indexes : ∀ proc, LoadedFrom rule (f.mem proc)

/-- The commands that keep the invariant. -/
def stillCommand (β : Type) (cmd : Cmd Database Write Generated MemOp ExtOp β) : Prop :=
  match cmd with
  | .write w => stillWrite p rule w
  | .insert w => stillWrite p rule w
  | .mem (.install rules buckets) => bucketRules rules = .ok buckets ∧ Defines rule rules
  | _ => True

/-- The answers under the invariant. -/
def stillAnswer (β : Type) (cmd : Cmd Database Write Generated MemOp ExtOp β) (b : β) : Prop :=
  match cmd, b with
  | .query q, b => ∃ db, StillTables name p rule db ∧ b = q db
  | .mem (.rulesForPair pairId), b =>
      ∃ rules, Defines rule rules ∧ b.2 = (bucketOf rules pairId).sorted
  | .ask e, b => QuotedAt name p _ e b
  | _, _ => True

end Setup

section Invariant

variable {rt : Runtime} {settings : Settings} {name : String} {p : Decimal} {rule : AlertRule}

theorem StillTables.apply {db : Database} (h : StillTables name p rule db) {w : Write}
    (hw : stillWrite p rule w) (g : Generated) : StillTables name p rule (db.apply g w) := by
  cases w with
  | addPriceHistory row =>
      refine { h with rows := ?_ }
      intro r hr hp
      rcases List.mem_append.mp hr with hold | hnew
      · exact h.rows r hold hp
      · rw [List.mem_singleton.mp hnew] at hp ⊢
        exact hw hp
  | addNotification n =>
      refine { h with silent := ?_ }
      intro m hm
      rcases List.mem_append.mp hm with hold | hnew
      · exact h.silent m hold
      · rw [List.mem_singleton.mp hnew]
        exact hw
  | setPairObservation pairId last bid ask at_ =>
      refine { h with named := ?_ }
      intro x hx hid
      obtain ⟨y, hy, rfl⟩ := List.mem_map.mp hx
      split at hid
      · rename_i hpair
        rw [if_pos hpair]
        exact h.named y hy hid
      · rename_i hpair
        rw [if_neg hpair]
        exact h.named y hy hid
  | setRuleLastFiredAt ruleId at_ =>
      refine { h with defined := ?_ }
      intro x hx hid
      obtain ⟨y, hy, rfl⟩ := List.mem_map.mp hx
      split at hid
      · rename_i hrule
        rw [if_pos hrule]
        show { y with lastFiredAt := some at_ } = _
        rw [h.defined y hy hid]
      · rename_i hrule
        rw [if_neg hrule]
        exact h.defined y hy hid
  | addOutboxEvent id payload => exact { h with }
  | _ => exact hw.elim

theorem StillTables.replay {log : List (Generated × Write)}
    (hlog : ∀ e ∈ log, stillWrite p rule e.2) {db : Database}
    (h : StillTables name p rule db) : StillTables name p rule (backend.replay db log) :=
  backend.replay_inv (fun e he _ hdb => hdb.apply (hlog e he) e.1) h

theorem LoadedFrom.install {rules : List AlertRule} {buckets : Dict Uuid PairRules}
    (hb : bucketRules rules = .ok buckets) (hd : Defines rule rules) (m : Memory) :
    LoadedFrom rule (m.install rules buckets) :=
  ⟨rules, hd, fun pairId => m.rulesForPair_install hb pairId⟩

/-- Opening a session, closing one and writing to one keep the invariant. -/
theorem Still.put {f : Shared} (h : Still name p rule f) (i : Nat)
    {o : Option (Session Generated Write)}
    (ho : ∀ s, o = some s → ∀ e ∈ s.log, stillWrite p rule e.2) :
    Still name p rule (f.put i o) where
  tables := h.tables
  indexes := h.indexes
  logs := by
    intro j s hs
    by_cases hj : j = i
    · rw [hj, Frame.put_self] at hs
      exact ho s hs
    · rw [f.put_of_ne hj] at hs
      exact h.logs j s hs

theorem Still.keeps {i : Nat} {f f' : Shared} {β : Type}
    {cmd : Cmd Database Write Generated MemOp ExtOp β} {b : β} (h : Still name p rule f)
    (hcmd : stillCommand p rule β cmd)
    (he : Effect (unmoved rt settings name p) i f β cmd b f') : Still name p rule f' := by
  obtain ⟨s, hs, he⟩ := he
  -- A write is not committed yet: it joins the log of the session.
  have hlog : ∀ g w, stillWrite p rule w → Still name p rule (f.log i s (g, w)) := by
    intro g w hw
    refine h.put i ?_
    intro s' hs' e hmem
    rw [← Option.some.inj hs'] at hmem
    rcases List.mem_append.mp hmem with hold | hnew
    · exact h.logs i s hs e hold
    · rw [List.mem_singleton.mp hnew]
      exact hw
  cases cmd with
  | query q =>
      rw [he.2]
      exact h
  | write w =>
      obtain ⟨g, -, rfl⟩ := he
      exact hlog g w hcmd
  | insert w =>
      cases b with
      | none =>
          rw [he.2]
          exact h
      | some g =>
          rw [he.2.2]
          exact hlog g w hcmd
  | commit =>
      rw [he]
      have hput : Still name p rule (f.put i (some { s with log := [] })) := by
        refine h.put i ?_
        intro s' hs' e hmem
        rw [← Option.some.inj hs'] at hmem
        exact absurd hmem List.not_mem_nil
      exact { hput with tables := h.tables.replay (h.logs i s hs) }
  | mem m =>
      rw [he.2]
      refine { h with indexes := ?_ }
      intro proc
      show LoadedFrom rule (Function.update f.mem s.proc _ proc)
      by_cases hproc : proc = s.proc
      · rw [hproc, Function.update_self]
        cases m with
        | rulesForPair pairId => exact h.indexes s.proc
        | getLastFiredAt generation id => exact h.indexes s.proc
        | setLastFiredAt generation id at_ => exact h.indexes s.proc
        | install rules buckets => exact LoadedFrom.install hcmd.1 hcmd.2 _
      · rw [Function.update_of_ne hproc]
        exact h.indexes proc
  | ask e =>
      obtain ⟨x, -, rfl⟩ := he
      exact { h with }

theorem Still.answers {i : Nat} {f f' : Shared} {β : Type}
    {cmd : Cmd Database Write Generated MemOp ExtOp β} {b : β} (h : Still name p rule f)
    (he : Effect (unmoved rt settings name p) i f β cmd b f') :
    stillAnswer name p rule β cmd b := by
  obtain ⟨s, hs, he⟩ := he
  cases cmd with
  | query q => exact ⟨_, h.tables.replay (h.logs i s hs), he.1⟩
  | write w => exact trivial
  | insert w => cases b <;> exact trivial
  | commit => exact trivial
  | mem m =>
      cases m with
      | rulesForPair pairId =>
          obtain ⟨rules, hd, hbuckets⟩ := h.indexes s.proc
          refine ⟨rules, hd, ?_⟩
          rw [he.1]
          exact hbuckets pairId
      | getLastFiredAt generation id => exact trivial
      | setLastFiredAt generation id at_ => exact trivial
      | install rules buckets => exact trivial
  | ask e =>
      obtain ⟨x, ha, -⟩ := he
      exact ha.2

end Invariant

/-! ## The programs -/

section Programs

variable {rt : Runtime} {settings : Settings} {name : String} {p : Decimal} {rule : AlertRule}

/-- A program that keeps the invariant, and what it returns. -/
abbrev StaysStill (name : String) (p : Decimal) (rule : AlertRule) {α : Type} (prog : Tx α)
    (Q : α → Prop) : Prop :=
  prog.SatUnder (stillAnswer name p rule) (stillCommand p rule) Q

theorem stillCommand_of_isQuery {β : Type} {cmd : Cmd Database Write Generated MemOp ExtOp β}
    (h : cmd.isQuery = true) : stillCommand p rule β cmd := by
  obtain ⟨q, rfl⟩ := Cmd.eq_query_of_isQuery h
  trivial

theorem StillTables.historyDesc {db : Database} (h : StillTables name p rule db)
    {row : PriceHistory} (hrow : row ∈ db.historyDesc rule.pairId) :
    row.lastPrice = p.numeric 8 := by
  obtain ⟨hmem, hp⟩ := List.mem_filter.mp ((List.perm_insertionSort _ _).mem_iff.mp hrow)
  exact h.rows row hmem (by simpa using hp)

/-- No `zscore_move` rule is selected. -/
theorem zscore_still (h : Unmoving rt settings p rule) {pair : Pair}
    (hpair : pair.id = rule.pairId) (rules : List AlertRule) :
    StaysStill name p rule (zscoreCandidates rt settings pair rules) (fun x => x.2 = []) := by
  rw [zscoreCandidates]
  split
  · exact rfl
  · have hfetch : StaysStill name p rule
        (fetchRecentPrices pair (settings.zscoreWindow + 2))
        (fun prices => ∀ x ∈ prices, x = p.numeric 8) := by
      refine ⟨trivial, ?_⟩
      rintro pricesDesc ⟨db, htables, rfl⟩ x hx
      obtain ⟨row, hrow, rfl⟩ := List.mem_map.mp (List.mem_reverse.mp hx)
      rw [hpair] at hrow
      exact htables.historyDesc (List.mem_of_mem_take hrow)
    refine hfetch.bind (fun prices hprices => ?_)
    refine Script.SatUnder.bind (Script.SatUnder.lift (Q := fun result => ∀ r, result = some r →
      r.currentReturn = rt.zero ∧ r.z = none) ?_) (fun result hresult => ?_)
    · rintro result hscore r rfl
      exact computeZscore_constant h.laws h.stored hprices hscore
    · exact List.filter_eq_nil_iff.mpr (fun r _ => by
        rw [zscoreRuleFires_flat h.laws h.minimum hresult]
        exact Bool.false_ne_true)

/-- The rule is not selected on its own past. -/
theorem percentChange_still (hquiet : Unnoticed p rule) {pair : Pair}
    (hpair : pair.id = rule.pairId) {obs : Observation} (hobs : obs.last.toRat = p.toRat)
    {rules : List AlertRule} (hdefines : Defines rule rules)
    {cache : Dict Int (Option Decimal)}
    (hcache : ∀ w past, cache.get? w = some past → ∀ x, past = some x → x = p.numeric 8)
    (acc : Dict Uuid (Option Decimal)) :
    StaysStill name p rule (percentChangeCandidates pair obs rules cache acc)
      (fun x => ∀ r ∈ x.2, r.id ≠ rule.id) := by
  induction rules generalizing cache acc with
  | nil => exact fun r hr => absurd hr List.not_mem_nil
  | cons first rest ih =>
      rw [percentChangeCandidates]
      cases first.windowSeconds with
      | none => exact trivial
      | some w =>
          have hlookup : StaysStill name p rule (pastPriceOf pair obs cache w)
              (fun past => ∀ x, past = some x → x = p.numeric 8) := by
            rw [pastPriceOf]
            cases hw : cache.get? w with
            | some past => exact hcache w past hw
            | none =>
                -- The query returns a stored price, and those are all the one price.
                refine ⟨trivial, ?_⟩
                rintro past ⟨db, htables, rfl⟩ x hx
                obtain ⟨row, hrow, rfl⟩ := Option.map_eq_some_iff.mp hx
                have hmem := List.mem_of_find?_eq_some hrow
                rw [hpair] at hmem
                exact htables.historyDesc hmem
          refine hlookup.bind (fun past hpast => ?_)
          have hcache' : ∀ w' past', (cache.set w past).get? w' = some past' →
              ∀ x, past' = some x → x = p.numeric 8 := by
            intro w' past' hget
            rw [Dict.get?_set] at hget
            split at hget
            · rw [← Option.some.inj hget]
              exact hpast
            · exact hcache w' past' hget
          refine (ih (fun r hr => hdefines r (List.mem_cons_of_mem _ hr)) hcache' _).bind
            (fun x hx => ?_)
          show ∀ r ∈ (if percentChangeRuleFires first obs.last past then first :: x.2 else x.2),
            r.id ≠ rule.id
          intro r hr hid
          split at hr
          · rename_i hfires
            rcases List.mem_cons.mp hr with rfl | hr
            · have hown : Unnoticed p r := by
                rw [hdefines r List.mem_cons_self hid]
                exact hquiet
              rw [percentChangeRuleFires_unnoticed hown hobs hpast] at hfires
              cases hfires
            · exact hx r hr hid
          · exact hx r hr hid

/-- The rule is no candidate. -/
theorem selectCandidates_still (h : Unmoving rt settings p rule) {pair : Pair} {obs : Observation}
    (hobs : pair.id = rule.pairId → obs.last.toRat = p.toRat) {rules : List AlertRule}
    (hdefines : Defines rule rules) :
    StaysStill name p rule
      (selectCandidates rt settings pair obs (bucketOf rules pair.id).sorted)
      (fun c => ∀ r ∈ c.rules, r.id ≠ rule.id) := by
  -- A row of the rule's id in the bucket of the pair is the rule.
  have hmine : ∀ r ∈ (bucketOf rules pair.id).sorted.all, r.id = rule.id →
      SameRule rule r ∧ r.pairId = pair.id := by
    intro r hr hid
    obtain ⟨hmem, hpair⟩ := mem_all_bucketOf_sorted.mp hr
    exact ⟨hdefines r hmem hid, hpair⟩
  by_cases hpair : pair.id = rule.pairId
  · refine (zscore_still h hpair _).bind (fun x hx => ?_)
    have hpercent : StaysStill name p rule (percentChangeCandidates pair obs
        (bucketOf rules pair.id).sorted.percentChange [] [])
        (fun x => ∀ r ∈ x.2, r.id ≠ rule.id) := by
      by_cases ht : rule.ruleType = .percentChange
      · refine percentChange_still (h.quiet ht) hpair (hobs hpair) ?_ ?_ []
        · intro r hr hid
          exact hdefines r (mem_rulesOfType.mp hr).1 hid
        · intro w past hget
          cases hget
      · refine Script.Sat.under ((percentChangeCandidates_subset pair obs _ [] []).mono
          (fun _ _ => stillCommand_of_isQuery) ?_)
        intro x hsub r hr hid
        obtain ⟨hmem, -, htype⟩ := mem_rulesOfType.mp (hsub r hr)
        rw [hdefines r hmem hid] at htype
        exact ht htype
    refine hpercent.bind (fun y hy => ?_)
    show ∀ r ∈ matchingAbsoluteRules (bucketOf rules pair.id).sorted.absoluteBelow obs.last
      ++ matchingAbsoluteRules (bucketOf rules pair.id).sorted.absoluteAbove obs.last
      ++ x.2 ++ y.2 ++ (bucketOf rules pair.id).sorted.spreadWiden.filter _, r.id ≠ rule.id
    -- The lists of the other types do not hold a movement rule.
    have hother : ∀ t, t ≠ .percentChange → t ≠ .zscoreMove → ∀ r ∈ rules, r.ruleType = t →
        r.id ≠ rule.id := by
      intro t hpercent hzscore r hr ht hid
      rw [hdefines r hr hid] at ht
      rcases h.movement with ⟨htype, -⟩ | ⟨htype, -⟩
      · exact hpercent (ht.symm.trans htype)
      · exact hzscore (ht.symm.trans htype)
    intro r hr
    rw [hx] at hr
    simp only [List.mem_append, List.mem_filter, List.not_mem_nil, or_false] at hr
    rcases hr with ((hr | hr) | hr) | ⟨hr, -⟩
    · have hmem := (List.perm_insertionSort _ _).mem_iff.mp ((List.takeWhile_prefix _).subset hr)
      obtain ⟨hrules, -, ht⟩ := mem_rulesOfType.mp hmem
      exact hother _ (by decide) (by decide) r hrules ht
    · have hmem := (List.perm_insertionSort _ _).mem_iff.mp ((List.takeWhile_prefix _).subset hr)
      obtain ⟨hrules, -, ht⟩ := mem_rulesOfType.mp hmem
      exact hother _ (by decide) (by decide) r hrules ht
    · exact hy r hr
    · obtain ⟨hrules, -, ht⟩ := mem_rulesOfType.mp hr
      exact hother _ (by decide) (by decide) r hrules ht
  · refine Script.Sat.under ((selectCandidates_subset rt settings pair obs _).mono
      (fun _ _ => stillCommand_of_isQuery) ?_)
    intro c hsub r hr hid
    obtain ⟨hsame, hof⟩ := hmine r (hsub r hr) hid
    rw [hsame] at hof
    exact hpair hof.symm

theorem stillCommand_of_firingCommand {pairId ruleId : Uuid} {t : Instant} {β : Type}
    {cmd : Cmd Database Write Generated MemOp ExtOp β} (hid : ruleId ≠ rule.id)
    (h : firingCommand pairId ruleId t β cmd) : stillCommand p rule β cmd := by
  cases cmd with
  | query q => exact trivial
  | mem m =>
      cases m with
      | rulesForPair pairId => exact trivial
      | getLastFiredAt generation id => exact trivial
      | setLastFiredAt generation id at_ => exact trivial
      | install rules buckets => exact h.elim
  | write w =>
      cases w with
      | addOutboxEvent id payload => exact trivial
      | setRuleLastFiredAt id at_ => exact trivial
      | _ => exact h.elim
  | insert w =>
      cases w with
      | addNotification n =>
          show n.ruleId ≠ rule.id
          rw [h.1]
          exact hid
      | _ => exact h.elim
  | commit => exact h.elim
  | ask e => exact h.elim

/-- An evaluation does not fire the rule. -/
theorem evaluate_still (h : Unmoving rt settings p rule) {pair : Pair} {obs : Observation}
    (hobs : pair.id = rule.pairId → obs.last.toRat = p.toRat) :
    StaysStill name p rule (evaluateRulesForPair rt settings pair obs) (fun _ => True) := by
  refine ⟨trivial, ?_⟩
  rintro ⟨generation, b⟩ ⟨rules, hdefines, hb⟩
  obtain rfl : b = (bucketOf rules pair.id).sorted := hb
  refine (selectCandidates_still h hobs hdefines).bind (fun c hc => ?_)
  refine Script.Sat.under ((fireRules_commands rt pair obs generation c c.rules).mono ?_
    (fun _ _ => trivial))
  rintro β cmd ⟨r, hr, hcmd⟩
  exact stillCommand_of_firingCommand (hc r hr) hcmd

/-- The loop stores the quotes of the pair at their rounding. -/
theorem observeAll_still (h : Unmoving rt settings p rule)
    {pairs : Dict String Pair} {quotes : Dict String Quote}
    (hnamed : ∀ canonicalName pair, pairs.get? canonicalName = some pair →
      pair.id = rule.pairId → canonicalName = name)
    (hquoted : ∀ quote, quotes.get? name = some quote → quote.last.toRat = p.toRat)
    (observedAt : Instant) (entries : List (String × Message)) :
    StaysStill name p rule (observeAll rt settings pairs quotes observedAt entries)
      (fun _ => True) := by
  induction entries with
  | nil => exact trivial
  | cons e rest ih =>
      obtain ⟨canonicalName, message⟩ := e
      rw [observeAll]
      cases hquote : quotes.get? canonicalName with
      | none => exact ih
      | some quote =>
          cases hpair : pairs.get? canonicalName with
          | none => exact trivial
          | some pair =>
              have hobs : pair.id = rule.pairId → quote.last.toRat = p.toRat := by
                intro hid
                rw [hnamed canonicalName pair hpair hid] at hquote
                exact hquoted quote hquote
              have hrow : stillWrite p rule
                  (.addPriceHistory (historyRow pair quote observedAt)) :=
                fun hid => Decimal.numeric_congr (hobs hid) 8
              have hone : StaysStill name p rule
                  (observePair rt settings pair quote observedAt) (fun _ => True) :=
                ⟨hrow, fun _ _ => ⟨trivial, fun _ _ =>
                  (evaluate_still h hobs).bind (fun _ _ => trivial)⟩⟩
              exact hone.bind (fun _ _ => ih.bind (fun _ _ => trivial))

theorem deleteBatch_still (messages : List Message) :
    StaysStill name p rule (deleteBatch messages) (fun _ => True) := by
  rw [deleteBatch]
  split
  · exact trivial
  · exact ⟨trivial, fun _ _ => trivial⟩

theorem processBatch_still (h : Unmoving rt settings p rule)
    (messages : List Message) :
    StaysStill name p rule (processBatch rt settings messages) (fun _ => True) := by
  refine Script.SatUnder.bind (Script.SatUnder.lift (Q := fun _ => True) (fun _ _ => trivial))
    (fun byPairId _ => ?_)
  by_cases hempty : byPairId.isEmpty = true
  · rw [if_pos hempty]
    exact trivial
  · rw [if_neg hempty]
    refine ⟨trivial, ?_⟩
    rintro rows ⟨db, htables, rfl⟩
    show StaysStill name p rule (if (livePart db byPairId).isEmpty then deleteBatch _
      else processLive rt settings _ (livePart db byPairId)) _
    split
    · exact deleteBatch_still _
    · refine ⟨trivial, fun quotes hquotes => ?_⟩
      cases quotes with
      | none => exact deleteBatch_still _
      | some quotes =>
          refine ⟨trivial, fun observedAt _ => ?_⟩
          refine (observeAll_still h ?_ hquotes observedAt _).bind
            (fun toDelete _ => ⟨trivial, fun _ _ => deleteBatch_still _⟩)
          -- A live pair of the rule's id is a row, so it has the name.
          intro canonicalName pair hget hid
          obtain ⟨hname, message, hmem⟩ := pairByCanonical_mem hget
          rcases Dict.get?_foldl_set Pair.id id (get?_of_mem_liveEntries hmem) with
            hnil | ⟨x, hx, -, hxp⟩
          · cases hnil
          · obtain rfl : x = pair := hxp
            rw [← hname]
            exact htables.named x (List.mem_of_mem_filter hx) hid

theorem rebuild_still : StaysStill name p rule rebuild (fun _ => True) := by
  refine ⟨trivial, ?_⟩
  rintro rules ⟨db, htables, rfl⟩
  show StaysStill name p rule
    (Tx.lift (bucketRules (db.alertRules.filter (fun r => r.isEnabled))) >>= _) _
  refine Script.SatUnder.bind (Script.SatUnder.lift (Q := fun buckets =>
    bucketRules (db.alertRules.filter (fun r => r.isEnabled)) = .ok buckets)
    (fun _ h => h)) (fun buckets hbuckets => ?_)
  refine ⟨⟨hbuckets, ?_⟩, fun _ _ => trivial⟩
  exact fun r hr => htables.defined r (List.mem_of_mem_filter hr)

/-- The invariant of the system. -/
theorem invariant_still (hrule : Unmoving rt settings p rule) :
    Invariant (unmoved rt settings name p) (Still name p rule) (stillAnswer name p rule)
      (stillCommand p rule) where
  programs := by
    intro f i proc prog _ hstart
    rcases hstart with ⟨messages, rfl⟩ | rfl
    · exact (processBatch_still hrule messages).bind (fun _ _ => trivial)
    · exact rebuild_still.bind (fun _ _ => trivial)
  opens := by
    intro f i proc h
    refine h.put i ?_
    intro s hs e he
    rw [← Option.some.inj hs] at he
    exact absurd he List.not_mem_nil
  closes := by
    intro f i h
    refine h.put i ?_
    intro s hs
    cases hs
  answers := fun _ _ _ _ _ _ h he => h.answers he
  keeps := fun _ _ _ _ _ _ h hcmd he => h.keeps hcmd he

/-- Where the rounding of the quote is not noticed, an unmoved price fires no movement
    rule, over any run of polls. -/
theorem unmoved_silent (laws : FlatLaws rt) (h0 : 0 < p.toRat) (hp : StoredPrice (p.numeric 8))
    (hmin : rt.lt rt.zero (rt.ofDecimal settings.zscoreZeroVarianceMinPercent) = true)
    (hmove : MovementRule rule) (hquiet : rule.ruleType = .percentChange → Unnoticed p rule)
    {c c' : Threads} (hstill : Still name p rule c.frame)
    (hclosed : ∀ i, c.frame.sessions i = none)
    (hr : Reaches (unmoved rt settings name p) c c') :
    ∀ n ∈ c'.frame.db.notifications, n.ruleId ≠ rule.id := by
  have hend := (invariant_still ⟨laws, h0, hp, hmin, hmove, hquiet⟩).of_reaches hstill
    (fun i hi => absurd (hclosed i) hi) hr
  exact hend.tables.silent

end Programs

/-! ## Nine decimals -/

/-- A price of 14 billionths; the column keeps 10 of them. -/
def tinyPrice : Decimal := ⟨false, 14, -9⟩

/-- A rule on moves over a minute. -/
def tinyRule (percent : Nat) : AlertRule :=
  { id := 7, pairId := 1, ruleType := .percentChange, percent := some ⟨false, percent, 0⟩
    windowSeconds := some 60 }

/-- A pair without history, and processes that have loaded the rule. -/
def tinyStart (percent : Nat) : Threads where
  frame :=
    { db := { pairs := [{ id := 1, krakenPairName := "TINY/USD", displayName := "TINY/USD" }]
              alertRules := [tinyRule percent] }
      mem := fun _ => ({} : Memory).install [tinyRule percent]
        [(1, { percentChange := [tinyRule percent] })]
      ext := { clock := seconds 1000000020 }
      sessions := fun _ => none }
  prog := fun _ => .done ()

/-- The clock ticks, and the provider always quotes the one price. -/
def tinyMarket : Host Database Generated World ExtOp where
  fresh := isolated.fresh
  answer := fun e w =>
    match e with
    | .getQuotes _ =>
        (some [("TINY/USD", ⟨"TINY/USD", tinyPrice, tinyPrice, tinyPrice, ⟨false, 1, 0⟩⟩)], w)
    | e => ticking.answer e w

theorem answers_tinyMarket (β : Type) (e : ExtOp β) (w : World) :
    Answers β e w (tinyMarket.answer e w).1 (tinyMarket.answer e w).2
      ∧ QuotedAt "TINY/USD" tinyPrice β e (tinyMarket.answer e w).1 := by
  cases e with
  | getQuotes names =>
      refine ⟨rfl, ?_⟩
      intro quote hquote
      rw [← Option.some.inj hquote]
  | utcNow => exact ⟨(answers_ticking _ .utcNow w).1, trivial⟩
  | uuid4 => exact ⟨(answers_ticking _ .uuid4 w).1, trivial⟩
  | deleteMessageBatch messages =>
      exact ⟨(answers_ticking _ (.deleteMessageBatch messages) w).1, trivial⟩
  | publish event topicArn subject message =>
      exact ⟨(answers_ticking _ (.publish event topicArn subject message) w).1, trivial⟩
  | sendMessage claim body delaySeconds =>
      exact ⟨(answers_ticking _ (.sendMessage claim body delaySeconds) w).1, trivial⟩
  | publishInvalidation channel reason =>
      exact ⟨(answers_ticking _ (.publishInvalidation channel reason) w).1, trivial⟩

def tinyMessage : Message :=
  { messageId := "1", receiptHandle := "1"
    body := "\x7b\"pair_id\": \"00000000-0000-0000-0000-000000000001\"\x7d" }

/-- Two polls, a minute apart. -/
def tinyPolls : List (Move Database Write Generated MemOp ExtOp PyError) :=
  let poll := thread (processBatch Runtime.rational {} [tinyMessage])
  [.start 0 0 poll, .run 0 100, .stop 0, .start 0 0 poll, .run 0 100, .stop 0]

theorem still_tinyStart (percent : Nat) :
    Still "TINY/USD" tinyPrice (tinyRule percent) (tinyStart percent).frame where
  tables :=
    { rows := fun row hrow => absurd hrow List.not_mem_nil
      named := by
        intro pair hpair _
        rw [List.mem_singleton.mp hpair]
      defined := by
        intro r hr _
        rw [List.mem_singleton.mp hr]
        rfl
      silent := fun n hn => absurd hn List.not_mem_nil }
  logs := fun i s hs => by cases hs
  indexes := by
    intro proc
    refine LoadedFrom.install rfl ?_ {}
    intro r hr _
    rw [List.mem_singleton.mp hr]
    rfl

theorem reaches_tinyPolls (percent : Nat)
    (hready : ready backend tinyMarket commits [0] tinyPolls (tinyStart percent) = true) :
    Reaches (unmoved Runtime.rational {} "TINY/USD" tinyPrice) (tinyStart percent)
      (play backend tinyMarket commits tinyPolls (tinyStart percent)).1 := by
  have htraced : Traced (unmoved Runtime.rational {} "TINY/USD" tinyPrice) commits
      (tinyStart percent) (play backend tinyMarket commits tinyPolls (tinyStart percent)).2
      (play backend tinyMarket commits tinyPolls (tinyStart percent)).1 :=
    traced_play [0] answers_tinyMarket (fun _ _ _ _ _ => trivial) (fun _ _ => rfl) hready
      ⟨Or.inl ⟨_, rfl⟩, trivial, Or.inl ⟨_, rfl⟩, trivial, trivial⟩
  exact htraced.reaches

/-- Half is more than the rounding. -/
theorem unnoticed_tiny : Unnoticed tinyPrice (tinyRule 50) := by
  right
  intro percent hpercent
  rw [← Option.some.inj hpercent]
  decide +kernel

theorem rationalStdev_zeros (n : Nat) :
    ((List.replicate n (0 : ℚ)).map (fun x =>
      if x < (List.replicate n (0 : ℚ)).sum / (List.replicate n (0 : ℚ)).length then
        (List.replicate n (0 : ℚ)).sum / (List.replicate n (0 : ℚ)).length - x
      else x - (List.replicate n (0 : ℚ)).sum / (List.replicate n (0 : ℚ)).length)).sum
      / ((List.replicate n (0 : ℚ)).length : ℚ) = 0 := by
  simp

/-- Exact arithmetic satisfies the laws. -/
theorem flatLaws_rational : FlatLaws Runtime.rational where
  isZero_ofDecimal := storedPriceLaws_rational.isZero_ofDecimal
  log_div_self := by
    intro q hq hz
    show q.toRat / q.toRat - 1 = 0
    rw [div_self (ne_of_gt (hq.toRat_pos hz)), sub_self]
  percent_zero := by
    show (if (0 : ℚ) < 0 then -(0 : ℚ) else 0) * 100 = 0
    norm_num
  isZero_zero := rfl
  stdev_zeros := by
    intro n
    have hdev : Runtime.rational.stdev (List.replicate n (0 : ℚ)) = (0 : ℚ) :=
      rationalStdev_zeros n
    show Runtime.rational.isZero (Runtime.rational.stdev (List.replicate n (0 : ℚ))) = true
    rw [hdev]
    rfl

theorem unmoved_silent_tiny :
    Reaches (unmoved Runtime.rational {} "TINY/USD" tinyPrice) (tinyStart 50)
        (play backend tinyMarket commits tinyPolls (tinyStart 50)).1
      ∧ ∀ n ∈ (play backend tinyMarket commits tinyPolls (tinyStart 50)).1.frame.db.notifications,
        n.ruleId ≠ 7 := by
  have hr := reaches_tinyPolls 50 (by decide +kernel)
  exact ⟨hr, unmoved_silent flatLaws_rational (by decide +kernel)
    ⟨by decide +kernel, rfl, by decide +kernel⟩ (by decide +kernel)
    (Or.inl ⟨rfl, _, rfl, by decide +kernel⟩) (fun _ => unnoticed_tiny) (still_tinyStart 50)
    (fun _ => rfl) hr⟩

/-- The price never moves, and a rule on moves of five percent fires: 14 billionths
    are forty percent more than 10. -/
theorem unmoved_fires_tiny :
    0 < tinyPrice.toRat ∧ MovementRule (tinyRule 5)
      ∧ Still "TINY/USD" tinyPrice (tinyRule 5) (tinyStart 5).frame
      ∧ ∃ c', Reaches (unmoved Runtime.rational {} "TINY/USD" tinyPrice) (tinyStart 5) c'
        ∧ ∃ n ∈ c'.frame.db.notifications, n.ruleId = (tinyRule 5).id :=
  ⟨by decide +kernel, Or.inl ⟨rfl, _, rfl, by decide +kernel⟩, still_tinyStart 5, _,
    reaches_tinyPolls 5 (by decide +kernel), by decide +kernel⟩

end Dropwatch.Unmoved
