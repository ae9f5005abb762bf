import Mathlib.Data.List.Dedup
import Dropwatch.BacktestProofs

/-! # What a backtest reports — `backtest_rule`

    The track of a rule does two things at a time: it picks the sightings that are
    recorded, the first of each detected state where the predicate holds, and it gives
    each a status by its distance to the one before it.  Only the second looks at the
    cooldown (`seeAll_eq_slide`).  So a report can be counted: there is one fire for every
    detected state that held (`length_recorded`), and a span of time has room for so many
    fires outside their cooldown only (`pending_mul_le`).  And two reports that differ in
    the cooldown differ in statuses only. -/

namespace Dropwatch.Backtest

open Transact RuleIndex Zscore Evaluator RulesApi Totality

/-! ## The recorded sightings, and their statuses -/

/-- The sightings that are recorded, from the keys that have been. -/
def recorded : List String → List Sighting → List Sighting
  | _, [] => []
  | keys, x :: xs =>
      if x.fires && !keys.contains x.key then x :: recorded (x.key :: keys) xs
      else recorded keys xs

/-- Their fires, from the instant of the last one. -/
def slide (cooldownSeconds : Int) : Option Instant → List Sighting → List Fire
  | _, [] => []
  | last, x :: xs =>
      x.fire cooldownSeconds ⟨[], last⟩ :: slide cooldownSeconds (some x.observedAt) xs

section Recorded

variable {c : Int}

/-- Which sightings are recorded has nothing to do with the cooldown. -/
theorem seeAll_eq_slide (xs : List Sighting) (t : Track) :
    t.seeAll c xs = slide c t.lastFiredAt (recorded t.keys xs) := by
  induction xs generalizing t with
  | nil => rfl
  | cons x xs ih =>
      cases hr : t.records x with
      | true =>
          rw [Track.seeAll_cons_of_records hr, ih]
          rw [Track.records] at hr
          rw [recorded, if_pos hr]
          rfl
      | false =>
          rw [Track.seeAll_cons_of_not_records hr, ih]
          rw [Track.records] at hr
          rw [recorded, if_neg (by rw [hr]; exact Bool.false_ne_true)]

theorem recorded_sublist (keys : List String) (xs : List Sighting) :
    (recorded keys xs).Sublist (xs.filter Sighting.fires) := by
  induction xs generalizing keys with
  | nil => exact List.Sublist.refl _
  | cons x xs ih =>
      rw [recorded]
      split
      · next hr =>
          rw [List.filter_cons_of_pos (Bool.and_eq_true_iff.mp hr).1]
          exact (ih _).cons_cons x
      · rw [List.filter_cons]
        split
        · exact (ih keys).cons x
        · exact ih keys

/-- A key that held is recorded now, or it was. -/
theorem mem_recorded_iff {keys : List String} {xs : List Sighting} {key : String} :
    key ∈ (recorded keys xs).map Sighting.key
      ↔ key ∈ (xs.filter Sighting.fires).map Sighting.key ∧ key ∉ keys := by
  induction xs generalizing keys with
  | nil => simp [recorded]
  | cons x xs ih =>
      rw [recorded]
      cases hf : x.fires with
      | false => simp [hf, ih]
      | true =>
          cases hk : keys.contains x.key with
          | false =>
              have hnew : x.key ∉ keys := by simpa using hk
              by_cases hkey : key = x.key
              · subst hkey
                simp [hf, hnew]
              · simp [hf, ih, hkey]
          | true =>
              have hold : x.key ∈ keys := by simpa using hk
              simp only [hf, ih, Bool.not_true, Bool.and_false, Bool.false_eq_true, if_false,
                List.filter_cons_of_pos, List.map_cons, List.mem_cons]
              constructor
              · rintro ⟨hmem, hnot⟩
                exact ⟨Or.inr hmem, hnot⟩
              · rintro ⟨rfl | hmem, hnot⟩
                · exact absurd hold hnot
                · exact ⟨hmem, hnot⟩

theorem nodup_recorded (keys : List String) (xs : List Sighting) :
    ((recorded keys xs).map Sighting.key).Nodup := by
  induction xs generalizing keys with
  | nil => exact List.nodup_nil
  | cons x xs ih =>
      rw [recorded]
      split
      · rw [List.map_cons]
        refine List.nodup_cons.mpr ⟨fun hmem => ?_, ih _⟩
        exact (mem_recorded_iff.mp hmem).2 List.mem_cons_self
      · exact ih keys

/-- One of every state that held. -/
theorem length_recorded (xs : List Sighting) :
    (recorded [] xs).length = ((xs.filter Sighting.fires).map Sighting.key).dedup.length := by
  rw [← List.length_map (f := Sighting.key)]
  refine List.Perm.length_eq ?_
  refine (List.perm_ext_iff_of_nodup (nodup_recorded [] xs) (List.nodup_dedup _)).mpr ?_
  intro key
  rw [mem_recorded_iff, List.mem_dedup]
  exact and_iff_left List.not_mem_nil

theorem map_slide (last : Option Instant) (xs : List Sighting) :
    (slide c last xs).map (fun f => (f.triggeredAt, f.detectedPrice))
      = xs.map (fun x => (x.observedAt, x.price)) := by
  induction xs generalizing last with
  | nil => rfl
  | cons x xs ih =>
      rw [slide, List.map_cons, List.map_cons, ih]
      rfl

theorem length_slide (last : Option Instant) (xs : List Sighting) :
    (slide c last xs).length = xs.length := by
  have hlen := congrArg List.length (map_slide (c := c) last xs)
  rwa [List.length_map, List.length_map] at hlen

theorem cooling_mono {c' : Int} (h : c ≤ c') {last : Option Instant} {now : Instant}
    (hcool : cooling c last now = true) : cooling c' last now = true := by
  cases last with
  | none => exact hcool
  | some t =>
      simp only [cooling] at hcool ⊢
      split at hcool
      · cases hcool
      · next hpos =>
          rw [if_neg (by omega)]
          have hlt := of_decide_eq_true hcool
          exact decide_eq_true (hlt.trans_le (Int.mul_le_mul_of_nonneg_right h (by decide)))

/-- A longer cooldown only silences. -/
theorem slide_mono {c' : Int} (h : c ≤ c') (last : Option Instant) (xs : List Sighting) :
    List.Forall₂ (fun f f' : Fire => f.triggeredAt = f'.triggeredAt
        ∧ f.detectedPrice = f'.detectedPrice ∧ (f'.status = .pending → f.status = .pending))
      (slide c last xs) (slide c' last xs) := by
  induction xs generalizing last with
  | nil => exact .nil
  | cons x xs ih =>
      refine .cons ⟨rfl, rfl, fun hpending => ?_⟩ (ih _)
      simp only [Sighting.fire] at hpending ⊢
      cases hcool : cooling c last x.observedAt with
      | false => rfl
      | true =>
          rw [cooling_mono h hcool] at hpending
          cases hpending

theorem pending_iff (hc : 0 < c) {p : Instant} {x : Sighting} :
    (x.fire c ⟨[], some p⟩).status = .pending ↔ p + seconds c ≤ x.observedAt := by
  have hcooling : cooling c (some p) x.observedAt = decide (x.observedAt - p < seconds c) := by
    rw [cooling, if_neg (not_le.mpr hc)]
  rw [Sighting.fire, hcooling]
  constructor
  · intro h
    by_contra hlt
    rw [decide_eq_true (by linarith)] at h
    cases h
  · intro h
    rw [decide_eq_false (by linarith)]
    rfl

/-- From a fire at `p` on, the fires outside their cooldown are a cooldown apart. -/
theorem pending_mul_le {p e : Instant} {xs : List Sighting} (hc : 0 < c) (hpe : p ≤ e)
    (hp : ∀ x ∈ xs, p ≤ x.observedAt) (he : ∀ x ∈ xs, x.observedAt ≤ e)
    (hsorted : xs.Pairwise (fun x y => x.observedAt ≤ y.observedAt)) :
    ((slide c (some p) xs).countP (fun f => f.status = .pending) : Int) * seconds c ≤ e - p := by
  induction xs generalizing p with
  | nil =>
      rw [slide, List.countP_nil]
      simpa using hpe
  | cons x xs ih =>
      obtain ⟨hle, hrest⟩ := List.pairwise_cons.mp hsorted
      have hxp := hp x List.mem_cons_self
      have hxs := @ih x.observedAt (he x List.mem_cons_self) hle
        (fun y hy => he y (List.mem_cons_of_mem x hy)) hrest
      rw [slide, List.countP_cons]
      by_cases hpending : (x.fire c ⟨[], some p⟩).status = .pending
      · have hapart := (pending_iff hc).mp hpending
        rw [if_pos (decide_eq_true hpending)]
        push_cast
        linarith
      · rw [if_neg (by simpa using hpending)]
        push_cast
        linarith

/-- A span has room for so many fires outside their cooldown. -/
theorem pending_span {a b : Instant} {xs : List Sighting} (hc : 0 < c) (hab : a ≤ b)
    (ha : ∀ x ∈ xs, a ≤ x.observedAt) (hb : ∀ x ∈ xs, x.observedAt ≤ b)
    (hsorted : xs.Pairwise (fun x y => x.observedAt ≤ y.observedAt)) :
    ((slide c none xs).countP (fun f => f.status = .pending) - 1 : Int) * seconds c ≤ b - a := by
  have hpos : 0 ≤ seconds c := Int.mul_nonneg hc.le (by decide)
  cases xs with
  | nil =>
      rw [slide, List.countP_nil]
      push_cast
      linarith
  | cons x xs =>
      obtain ⟨hle, hrest⟩ := List.pairwise_cons.mp hsorted
      have hafter := pending_mul_le hc (hb x List.mem_cons_self) hle
        (fun y hy => hb y (List.mem_cons_of_mem x hy)) hrest
      have hfirst := ha x List.mem_cons_self
      rw [slide, List.countP_cons, if_pos (by rfl)]
      push_cast
      linarith

end Recorded

/-! ## The rows -/

section Rows

variable {rows : List PriceHistory} {a b : Instant}

theorem head_le (hsorted : rows.Pairwise (fun r r' => r.observedAt ≤ r'.observedAt))
    (ha : rows.head?.map PriceHistory.observedAt = some a) : ∀ r ∈ rows, a ≤ r.observedAt := by
  cases rows with
  | nil => cases ha
  | cons x rest =>
      obtain rfl := Option.some.inj ha
      intro r hr
      rcases List.mem_cons.mp hr with rfl | hr
      · exact le_refl _
      · exact (List.pairwise_cons.mp hsorted).1 r hr

theorem le_getLast (hsorted : rows.Pairwise (fun r r' => r.observedAt ≤ r'.observedAt))
    (hb : rows.getLast?.map PriceHistory.observedAt = some b) : ∀ r ∈ rows, r.observedAt ≤ b := by
  obtain ⟨z, hz, rfl⟩ := Option.map_eq_some_iff.mp hb
  obtain ⟨ys, rfl⟩ := List.getLast?_eq_some_iff.mp hz
  intro r hr
  rcases List.mem_append.mp hr with hr | hr
  · exact (List.pairwise_append.mp hsorted).2.2 r hr z List.mem_cons_self
  · rw [List.mem_singleton.mp hr]

/-- Some of the rows, in their order: one, where the predicate holds, for every detected state
    of such a row. -/
structure OneOfEach (key : PriceHistory → String) (verdict : PriceHistory → Bool)
    (rows fired : List PriceHistory) : Prop where
  sublist : fired.Sublist rows
  held : ∀ r ∈ fired, verdict r = true
  once : (fired.map key).Nodup
  every : ∀ r ∈ rows, verdict r = true → ∃ f ∈ fired, key f = key r

/-- The recorded sightings of rows, as rows. -/
theorem oneOfEach_recorded (key : PriceHistory → String) (verdict : PriceHistory → Bool)
    (rows : List PriceHistory) :
    ∃ fired, OneOfEach key verdict rows fired
      ∧ recorded [] (rows.map (sighting key verdict)) = fired.map (sighting key verdict) := by
  have hsub := recorded_sublist [] (rows.map (sighting key verdict))
  obtain ⟨fired, hrows, hfired⟩ := List.sublist_map_iff.mp (hsub.trans List.filter_sublist)
  refine ⟨fired, ⟨hrows, ?_, ?_, ?_⟩, hfired⟩
  · intro r hr
    have hmem : sighting key verdict r ∈ recorded [] (rows.map (sighting key verdict)) := by
      rw [hfired]
      exact List.mem_map_of_mem hr
    exact (List.mem_filter.mp (hsub.subset hmem)).2
  · have hkeys := nodup_recorded [] (rows.map (sighting key verdict))
    rw [hfired, List.map_map] at hkeys
    exact hkeys
  · intro r hr hv
    have hkey : key r ∈ (recorded [] (rows.map (sighting key verdict))).map Sighting.key := by
      rw [mem_recorded_iff]
      refine ⟨List.mem_map.mpr ⟨sighting key verdict r, ?_, rfl⟩, List.not_mem_nil⟩
      exact List.mem_filter.mpr ⟨List.mem_map_of_mem hr, hv⟩
    rw [hfired, List.map_map] at hkey
    exact List.mem_map.mp hkey

end Rows

/-! ## The report -/

section Report

variable {rt : Runtime} {settings : Settings} {body : BacktestRequest} {s : State}

/-- What a response says of the rows that were replayed, each tested over the whole table. -/
structure Reports (rt : Runtime) (settings : Settings) (db : Database) (pair : Pair)
    (rule : AlertRule) (rows : List PriceHistory) (response : BacktestResponse) : Prop where
  /-- It counts the rows. -/
  replayed : response.observationsReplayed = rows.length
  /-- The fires are rows, in their order: one for every detected state of a row where the
      predicate holds, at such a row. -/
  fires : ∃ fired, OneOfEach (rowKey rt pair rule) (passed (verdictIn rt settings db pair rule))
      rows fired
    ∧ response.fires.map (fun f => (f.triggeredAt, f.detectedPrice))
      = fired.map (fun r => (r.observedAt, r.lastPrice))
  /-- It counts the fires, which are as many as these states. -/
  states : response.fireCount = response.fires.length
    ∧ response.fireCount = ((rows.filter (passed (verdictIn rt settings db pair rule))).map
      (rowKey rt pair rule)).dedup.length
  /-- It counts those outside their cooldown: one more, at most, than the cooldowns that fit
      between the first row and the last. -/
  delivered : response.postCooldownFireCount = response.fires.countP (fun f => f.status = .pending)
    ∧ (0 < rule.cooldownSeconds → ∀ a b, response.dataStart = some a → response.dataEnd = some b →
      (response.postCooldownFireCount - 1 : Int) * seconds rule.cooldownSeconds ≤ b - a)

/-- A backtest that returns a report has found its pair and a user, its definition fits the
    columns, and none of its predicates has raised. -/
theorem response_of_backtest {response : BacktestResponse}
    (hv : ∀ id userId, validRule (body.rule id userId) = true)
    (hfresh : ∀ pair user obs, s.view.notificationWithKey
      (keyOf rt pair obs (tempRule body user s)) = none)
    (hrun : (runTx (backtestRule rt settings body) s).1 = .ok (.ok response)) :
    ∃ pair user, s.view.pairs.find? (fun p => p.id == body.pairId) = some pair
      ∧ s.view.users.head? = some user
      ∧ (∀ row ∈ comparedRows body s,
          verdictIn rt settings s.view pair (tempRule body user s) row
            = .ok (passed (verdictIn rt settings s.view pair (tempRule body user s)) row))
      ∧ response = respond body (comparedRows body s)
          (slide body.cooldownSeconds none (recorded [] ((comparedRows body s).map
            (sighting (rowKey rt pair (tempRule body user s))
              (passed (verdictIn rt settings s.view pair (tempRule body user s))))))) := by
  cases hpair : s.view.pairs.find? (fun p => p.id == body.pairId) with
  | none =>
      rw [backtestRule, runTx_query_bind, hpair] at hrun
      cases hrun
  | some pair =>
      cases huser : s.view.users.head? with
      | none =>
          rw [backtestRule, runTx_query_bind, hpair] at hrun
          dsimp only at hrun
          rw [runTx_query_bind, huser] at hrun
          cases hrun
      | some user =>
          have hfits : (tempRule body user s).columns.fits = true := by
            by_contra hno
            rw [backtestRule_of_not_fits hpair huser (Bool.eq_false_iff.mpr hno)] at hrun
            cases hrun
          rw [runTx_backtestRule hpair huser hfits (hv _ _) (hfresh pair user)] at hrun
          cases hx : sightings (rowKey rt pair (tempRule body user s))
              (verdictIn rt settings s.view pair (tempRule body user s)) (comparedRows body s) with
          | error e =>
              rw [hx] at hrun
              cases hrun
          | ok xs =>
              have hok := ok_of_sightings hx
              rw [hx] at hrun
              rw [sightings_of_ok hok] at hx
              have hresponse : respond body (comparedRows body s)
                  (Track.seeAll body.cooldownSeconds xs {}) = response :=
                Except.ok.inj (Except.ok.inj hrun)
              rw [seeAll_eq_slide, ← Except.ok.inj hx] at hresponse
              exact ⟨pair, user, rfl, rfl, hok, hresponse.symm⟩

theorem quiet_addRule (rule : AlertRule) : Quiet (addRule rule) := by
  rw [addRule]
  split
  · exact ⟨rfl, fun _ => trivial⟩
  · exact trivial

/-- No command of a backtest is a commit. -/
theorem quiet_backtestRule : Quiet (backtestRule rt settings body) := by
  refine ⟨rfl, fun pair => ?_⟩
  cases pair with
  | none => exact trivial
  | some pair =>
      refine ⟨rfl, fun user => ?_⟩
      cases user with
      | none => exact trivial
      | some user =>
          refine ⟨rfl, fun ruleId => ?_⟩
          show Quiet (addRule (body.rule ruleId user.id) >>= fun _ => _)
          refine Script.Sat.bind (quiet_addRule _) (fun _ _ => ?_)
          show Quiet (Tx.lift (bucketRules [body.rule ruleId user.id]) >>= fun buckets => _)
          refine Script.Sat.bind (Script.Sat.lift (Q := fun _ => True) (fun _ _ => trivial)) ?_
          refine fun buckets _ => ⟨rfl, fun _ => ⟨rfl, fun now => ⟨rfl, fun rows => ?_⟩⟩⟩
          show Quiet (replay rt settings pair rows >>= fun fires => _)
          refine Script.Sat.bind (Q := fun _ => True) ?_ (fun _ _ => trivial)
          induction rows with
          | nil => exact trivial
          | cons row rest ih =>
              refine Script.Sat.bind (evaluateRulesForPair_local _ _ pair (rowObservation row)).quiet ?_
              intro created _
              exact Script.Sat.bind ih (fun _ _ => trivial)

/-- What a backtest leaves and what it reports: the committed tables are as they were, every
    fire is a replayed row at its price, there is one for each detected state that held, and
    the fires outside their cooldown fit into the time between the first row and the last. -/
theorem report_of_backtest {response : BacktestResponse}
    (hv : ∀ id userId, validRule (body.rule id userId) = true)
    (hfresh : ∀ pair user obs, s.view.notificationWithKey
      (keyOf rt pair obs (tempRule body user s)) = none)
    (hrun : (runTx (backtestRule rt settings body) s).1 = .ok (.ok response)) :
    (runTx (backtestRule rt settings body) s).2.committed = s.committed
      ∧ ∃ pair user, s.view.pairs.find? (fun p => p.id == body.pairId) = some pair
        ∧ s.view.users.head? = some user
        ∧ Reports rt settings s.view pair (tempRule body user s) (comparedRows body s) response := by
  constructor
  · have hstands := Uncommitted.of_run_ok (f := Script.done) (B := backend) (H := isolated)
      quiet_backtestRule (Prod.ext hrun rfl)
    exact hstands.committed_eq
  · obtain ⟨pair, user, hpair, huser, -, rfl⟩ := response_of_backtest hv hfresh hrun
    refine ⟨pair, user, hpair, huser, ?_⟩
    have hsorted := lookbackRows_pairwise s.view body.pairId (cutoffOf body s)
    obtain ⟨fired, hfired, hrecorded⟩ := oneOfEach_recorded
      (rowKey rt pair (tempRule body user s))
      (passed (verdictIn rt settings s.view pair (tempRule body user s))) (comparedRows body s)
    have hrows := hfired.sublist
    constructor
    · rfl
    · refine ⟨fired, hfired, ?_⟩
      show (slide _ _ _).map _ = _
      rw [map_slide, hrecorded, List.map_map]
      rfl
    · refine ⟨rfl, ?_⟩
      show (slide _ _ _).length = _
      rw [length_slide, length_recorded, List.filter_map, List.map_map]
      rfl
    · refine ⟨rfl, fun hc a b ha hb => ?_⟩
      show (((slide _ _ _).countP _ : Nat) - 1 : Int) * _ ≤ _
      rw [hrecorded]
      -- The rows come in the order of time, so the first and the last bound all fires.
      have hfrom : ∀ r ∈ comparedRows body s, a ≤ r.observedAt := head_le hsorted ha
      have hto : ∀ r ∈ comparedRows body s, r.observedAt ≤ b := le_getLast hsorted hb
      obtain ⟨r, hr, hra⟩ := Option.map_eq_some_iff.mp ha
      refine pending_span hc (hra ▸ hto r (List.mem_of_mem_head? hr)) ?_ ?_ ?_
      · intro x hx
        obtain ⟨r, hr, rfl⟩ := List.mem_map.mp hx
        exact hfrom r (hrows.subset hr)
      · intro x hx
        obtain ⟨r, hr, rfl⟩ := List.mem_map.mp hx
        exact hto r (hrows.subset hr)
      · exact List.pairwise_map.mpr (hsorted.sublist hrows)

/-- A report with a longer cooldown has the same fires, and delivers none that the one with
    the shorter does not. -/
theorem cooldown_only_silences {c : Int} {response response' : BacktestResponse}
    (hv : ∀ id userId, validRule (body.rule id userId) = true)
    (hfresh : ∀ pair user obs, s.view.notificationWithKey
      (keyOf rt pair obs (tempRule body user s)) = none)
    (hc : body.cooldownSeconds ≤ c)
    (hrun : (runTx (backtestRule rt settings body) s).1 = .ok (.ok response))
    (hlonger : (runTx (backtestRule rt settings { body with cooldownSeconds := c }) s).1
      = .ok (.ok response')) :
    List.Forall₂ (fun f f' : Fire => f.triggeredAt = f'.triggeredAt
        ∧ f.detectedPrice = f'.detectedPrice ∧ (f'.status = .pending → f.status = .pending))
      response.fires response'.fires := by
  obtain ⟨pair, user, hpair, huser, -, rfl⟩ := response_of_backtest hv hfresh hrun
  obtain ⟨pair', user', hpair', huser', -, rfl⟩ :=
    @response_of_backtest rt settings { body with cooldownSeconds := c } s _ hv hfresh hlonger
  obtain rfl := Option.some.inj (hpair.symm.trans hpair')
  obtain rfl := Option.some.inj (huser.symm.trans huser')
  exact slide_mono hc none _

end Report

/-! ### The jump, with and without a cooldown -/

/-- The two fires of the jump; the second is `status`. -/
def jumpFires (status : Status) : List Fire :=
  [⟨seconds 820800, ⟨false, 10 ^ 8, -8⟩, .pending⟩,
    ⟨seconds 820860, ⟨false, 2 * 10 ^ 8, -8⟩, status⟩]

/-- An outcome whose fires are known. -/
theorem exists_response {x : Except PyError (Except HttpError BacktestResponse)} {fires : List Fire}
    (h : x.map (fun r => r.map BacktestResponse.fires) = .ok (.ok fires)) :
    ∃ response, x = .ok (.ok response) ∧ response.fires = fires := by
  rcases x with e | e | response
  · cases h
  · cases Except.ok.inj h
  · exact ⟨response, rfl, Except.ok.inj (Except.ok.inj h)⟩

theorem report_of_backtest_jump :
    ∃ response, response.fires = jumpFires .pending
      ∧ (runTx (backtestRule Runtime.rational {} jumpBody) flatApi).2.committed = flatApi.committed
      ∧ ∃ pair user, flatApi.view.pairs.find? (fun p => p.id == jumpBody.pairId) = some pair
        ∧ flatApi.view.users.head? = some user
        ∧ Reports Runtime.rational {} flatApi.view pair (tempRule jumpBody user flatApi)
          (comparedRows jumpBody flatApi) response := by
  obtain ⟨response, hrun, hfires⟩ := @exists_response
    (runTx (backtestRule Runtime.rational {} jumpBody) flatApi).1 (jumpFires .pending)
    (by decide +kernel)
  exact ⟨response, hfires, report_of_backtest (fun _ _ => rfl) (fun _ _ _ => rfl) hrun⟩

theorem cooldown_only_silences_jump :
    List.Forall₂ (fun f f' : Fire => f.triggeredAt = f'.triggeredAt
        ∧ f.detectedPrice = f'.detectedPrice ∧ (f'.status = .pending → f.status = .pending))
      (jumpFires .pending) (jumpFires .suppressedCooldown) := by
  obtain ⟨response, hrun, hfires⟩ := @exists_response
    (runTx (backtestRule Runtime.rational {} jumpBody) flatApi).1 (jumpFires .pending)
    (by decide +kernel)
  obtain ⟨response', hlonger, hfires'⟩ := @exists_response
    (runTx (backtestRule Runtime.rational {} { jumpBody with cooldownSeconds := 3600 })
      flatApi).1 (jumpFires .suppressedCooldown)
    (by decide +kernel)
  rw [← hfires, ← hfires']
  exact cooldown_only_silences (fun _ _ => rfl) (fun _ _ _ => rfl) (by decide) hrun hlonger

end Dropwatch.Backtest
