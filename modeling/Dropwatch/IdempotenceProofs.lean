import Dropwatch.DiscoveryProofs

/-! # A second run of discovery

    A market is settled when the rows of its name are what a run would make of
    them.  Every market of a snapshot is settled after one run
    (`Visited.settled`), and a run over settled markets writes each row as it is
    (`run_visitMarkets_settled`).  What fits the columns in the first run fits them in
    the second (`fits_after`); where something does not, neither changes anything. -/

namespace Dropwatch.Discovery

open Transact RuleIndex Kraken

/-- A market that has nothing to do: a name that stays untracked, or a row that is
    updated to itself. -/
def Settled (settings : Settings) (market : MarketSnapshot) (rows : List Pair) : Prop :=
  (rows = [] ∧ clearsFloor settings market = false)
    ∨ ∃ p, rows = [p] ∧ setMarket market.notional24h (assigned settings market p.isActive) p = p

section Settling

variable (settings : Settings)

/-- A row that a run has set is set to itself by the next. -/
theorem setMarket_setMarket
    (hfloors : settings.discoveryDeactivateFloorUsd.toRat ≤ settings.discoveryActivateFloorUsd.toRat)
    (m : MarketSnapshot) {p q : Pair}
    (hq : q = setMarket m.notional24h (assigned settings m p.isActive) p) :
    setMarket m.notional24h (assigned settings m q.isActive) q = q := by
  have hactive : (assigned settings m q.isActive).getD q.isActive = q.isActive := by
    have hq' : q.isActive = (assigned settings m p.isActive).getD p.isActive := by
      rw [hq]
      rfl
    rw [getD_assigned settings hfloors, hq', getD_assigned settings hfloors, latch_latch]
  calc setMarket m.notional24h (assigned settings m q.isActive) q
      = { q with notional24h := some (m.notional24h.numeric 2), isActive := q.isActive } := by
        rw [setMarket, hactive]
    _ = q := by
        rw [hq]
        rfl

/-- A new row is the row that an update of its own market leaves. -/
theorem row_newPair
    (hfloors : settings.discoveryDeactivateFloorUsd.toRat ≤ settings.discoveryActivateFloorUsd.toRat)
    {m : MarketSnapshot} (hclears : clearsFloor settings m = true) (g : Generated) :
    (newPair settings m).row g
      = setMarket m.notional24h (assigned settings m ((newPair settings m).row g).isActive)
          ((newPair settings m).row g) := by
  have hactive : (assigned settings m true).getD true = true := by
    rw [getD_assigned settings hfloors, latch, if_pos (of_decide_eq_true hclears)]
  calc (newPair settings m).row g
      = { (newPair settings m).row g with
          notional24h := some (m.notional24h.numeric 2), isActive := true } := rfl
    _ = _ := by
        rw [← hactive]
        rfl

/-- One run settles a market. -/
theorem Visited.settled
    (hfloors : settings.discoveryDeactivateFloorUsd.toRat ≤ settings.discoveryActivateFloorUsd.toRat)
    {m : MarketSnapshot} {before after : List Pair} (h : Visited settings m before after)
    (hbefore : before = [] ∨ ∃ p, before = [p]) : Settled settings m after := by
  rcases hbefore with hnil | ⟨p, hp⟩
  · cases hclears : clearsFloor settings m with
    | true =>
        -- A created pair is one that the next run finds.
        obtain ⟨g, hg⟩ := h.created hnil hclears
        exact Or.inr ⟨_, hg,
          setMarket_setMarket settings hfloors m (row_newPair settings hfloors hclears g)⟩
    | false => exact Or.inl ⟨h.ignored hnil hclears, hclears⟩
  · exact Or.inr ⟨_, h.updated p hp, setMarket_setMarket settings hfloors m rfl⟩

/-- An update of a row to itself. -/
theorem apply_setPairMarket_self {db : Database} (hk : Keyed db) (g : Generated) {p : Pair}
    (hp : p ∈ db.pairs) {notional24h : Decimal} {isActive : Option Bool}
    (hself : setMarket notional24h isActive p = p) :
    PairWrite.apply g (.setPairMarket p.id notional24h isActive) db = db := by
  have hrows : updateWhere (fun q => q.id == p.id) (setMarket notional24h isActive) db.pairs
      = db.pairs := by
    refine updateWhere_id ?_
    intro q hq hid
    obtain rfl := List.inj_on_of_nodup_map hk.ids hq hp (beq_iff_eq.mp hid)
    exact hself
  rw [PairWrite.apply, hrows]

variable {existing : Dict String Pair}

/-- The visit of a settled market. -/
theorem run_visitMarket_settled {name : String} {m : MarketSnapshot} {s : JobState}
    (hexisting : ∀ p, Dict.get? existing name = some p ↔ p ∈ rowsOf s.view name)
    (hk : Keyed s.view) (hfits : fitsMarket settings existing (name, m) = true)
    (h : Settled settings m (rowsOf s.view name)) :
    run marketBackend market (visitMarket settings existing (name, m)) s = (.ok (), s) := by
  rcases h with ⟨hnil, hlow⟩ | ⟨p, hp, hself⟩
  · have hnone : Dict.get? existing name = none := by
      refine Option.eq_none_iff_forall_ne_some.mpr ?_
      intro p hget
      have hmem := (hexisting p).mp hget
      rw [hnil] at hmem
      exact List.not_mem_nil hmem
    simp only [visitMarket, hnone, hlow, Bool.false_eq_true, if_false]
    rfl
  · have hmem : p ∈ rowsOf s.view name := by
      rw [hp]
      exact List.mem_cons_self
    have happly := apply_setPairMarket_self hk (market.fresh s.view s.env) (mem_rowsOf.mp hmem).1
      hself
    rw [fitsMarket, (hexisting p).mpr hmem] at hfits
    simp only [visitMarket, (hexisting p).mpr hmem]
    rw [run_updatePair hfits, happly]

/-- A loop over settled markets. -/
theorem run_visitMarkets_settled {snapshot : Dict String MarketSnapshot} {s : JobState}
    (hexisting : ∀ name ∈ Dict.keys snapshot, ∀ p,
      Dict.get? existing name = some p ↔ p ∈ rowsOf s.view name)
    (hk : Keyed s.view) (hfits : ∀ e ∈ snapshot, fitsMarket settings existing e = true)
    (h : ∀ e ∈ snapshot, Settled settings e.2 (rowsOf s.view e.1)) :
    run marketBackend market (visitMarkets settings existing snapshot) s = (.ok (), s) := by
  induction snapshot with
  | nil => rfl
  | cons entry rest ih =>
      have hfirst := run_visitMarket_settled settings (m := entry.2)
        (hexisting entry.1 List.mem_cons_self) hk (hfits entry List.mem_cons_self)
        (h entry List.mem_cons_self)
      rw [visitMarkets, run_bind_ok marketBackend market hfirst]
      refine ih ?_ ?_ ?_
      · intro name hname
        exact hexisting name (List.mem_cons_of_mem _ hname)
      · intro e he
        exact hfits e (List.mem_cons_of_mem _ he)
      · intro e he
        exact h e (List.mem_cons_of_mem _ he)

end Settling

section TwoRuns

variable (settings : Settings) {job job' : Job} {db : Database}
  {snapshot : Dict String MarketSnapshot}

/-- A run over a settled snapshot. -/
theorem run_of_settled (h : job.answer = .ok snapshot) (hk : Keyed db)
    (hfits : job.fits settings db = true)
    (hsettled : ∀ e ∈ snapshot, Settled settings e.2 (rowsOf db e.1)) :
    job.run settings db = (.ok (), ⟨db, db, {}, job⟩) := by
  rw [Job.fits, h, List.all_eq_true] at hfits
  refine run_of_loop settings h (run_visitMarkets_settled settings ?_ hk hfits hsettled)
  exact fun name hname p => get?_existingByName hk hname p

/-- What fits the columns fits them in a second run on the same snapshot. -/
theorem fits_after (hk : Keyed db) (h : job.answer = .ok snapshot) (hjob : job.Canonical)
    (h' : job'.answer = .ok snapshot) (hfits : job.fits settings db = true) :
    job'.fits settings (job.after settings db) = true := by
  obtain ⟨-, hk', hvisited, -⟩ := run_of_snapshot settings h hjob hk hfits
  rw [Job.fits, h, List.all_eq_true] at hfits
  rw [Job.fits, h', List.all_eq_true]
  intro e he
  have hname : e.1 ∈ Dict.keys snapshot := List.mem_map_of_mem he
  have hfirst := hfits e he
  have hrows := hvisited e he
  have hbefore := get?_existingByName hk hname
  have hafter := get?_existingByName hk' hname
  have hnew : rowsOf db e.1 = [] → clearsFloor settings e.2 = true →
      (newPair settings e.2).fits = true := by
    intro hnil hclears
    have hnone : Dict.get? (existingByName db (Dict.keys snapshot)) e.1 = none := by
      refine Option.eq_none_iff_forall_ne_some.mpr ?_
      intro p hget
      exact List.not_mem_nil (hnil ▸ (hbefore p).mp hget)
    simpa [fitsMarket, hnone, hclears] using hfirst
  rw [fitsMarket]
  cases hget : Dict.get? (existingByName (job.after settings db) (Dict.keys snapshot)) e.1 with
  | none =>
      -- A name that is still untracked is below the floor.
      have hnil : rowsOf (job.after settings db) e.1 = [] := by
        refine List.eq_nil_iff_forall_not_mem.mpr ?_
        intro p hp
        cases hget.symm.trans ((hafter p).mpr hp)
      have hlow : clearsFloor settings e.2 = false := by
        refine Bool.eq_false_iff.mpr ?_
        intro hclears
        rcases hk.rowsOf_cases e.1 with hempty | ⟨p, hp⟩
        · obtain ⟨g, hg⟩ := hrows.created hempty hclears
          cases hnil.symm.trans hg
        · cases hnil.symm.trans (hrows.updated p hp)
      simp [hlow]
  | some p' =>
      rcases hk.rowsOf_cases e.1 with hempty | ⟨p, hp⟩
      · cases hclears : clearsFloor settings e.2 with
        | true =>
            have hfit := hnew hempty hclears
            simp only [NewPair.fits, Bool.and_eq_true] at hfit
            exact hfit.1.1.1.2
        | false =>
            have hmem := (hafter p').mp hget
            rw [hrows.ignored hempty hclears] at hmem
            exact absurd hmem List.not_mem_nil
      · have hmem : p ∈ rowsOf db e.1 := by
          rw [hp]
          exact List.mem_cons_self
        simpa [fitsMarket, (hbefore p).mpr hmem] using hfirst

/-- Two runs on one snapshot leave the tables as one of them does; where the columns take
    the values, neither raises. -/
theorem after_after
    (hfloors : settings.discoveryDeactivateFloorUsd.toRat ≤ settings.discoveryActivateFloorUsd.toRat)
    (hk : Keyed db) (h : job.answer = .ok snapshot) (hjob : job.Canonical)
    (h' : job'.answer = .ok snapshot) :
    (job.fits settings db = true → (job.run settings db).1 = .ok ()
        ∧ (job'.run settings (job.after settings db)).1 = .ok ())
      ∧ job'.after settings (job.after settings db) = job.after settings db := by
  cases hfits : job.fits settings db with
  | true =>
      obtain ⟨hok, hk', hvisited, -⟩ := run_of_snapshot settings h hjob hk hfits
      have hsettled : ∀ e ∈ snapshot, Settled settings e.2 (rowsOf (job.after settings db) e.1) :=
        fun e he => (hvisited e he).settled settings hfloors (hk.rowsOf_cases e.1)
      have hsecond := run_of_settled settings h' hk' (fits_after settings hk h hjob h' hfits)
        hsettled
      refine ⟨fun _ => ⟨hok, ?_⟩, ?_⟩
      · rw [hsecond]
      · rw [Job.after, hsecond]
  | false =>
      have hagain : job'.fits settings db = false := by
        rw [← hfits, Job.fits, Job.fits, h, h']
      refine ⟨fun hyes => absurd hyes Bool.false_ne_true, ?_⟩
      rw [(after_of_not_fits settings hfits).2, (after_of_not_fits settings hagain).2]

end TwoRuns

/-- One pair falls below the deactivate floor, another reaches the activate floor. -/
def crossing : Dict String MarketSnapshot :=
  [("SOLUSD", marketAt "SOLUSD" 74999), ("XBTUSD", marketAt "XBTUSD" 100000)]

theorem canonical_crossing : (jobSeeing crossing).Canonical := by
  intro snapshot h
  obtain rfl := Except.ok.inj h
  exact ⟨by decide, by decide⟩

theorem after_after_crossing :
    (((jobSeeing crossing).run {} tracking).1 = .ok ()
        ∧ ((jobSeeing crossing).run {} ((jobSeeing crossing).after {} tracking)).1 = .ok ())
      ∧ (jobSeeing crossing).after {} ((jobSeeing crossing).after {} tracking)
        = (jobSeeing crossing).after {} tracking := by
  have htracking : Keyed tracking := ⟨by decide, by decide⟩
  obtain ⟨hreturn, hsame⟩ := after_after {} (by decide +kernel) htracking rfl
    canonical_crossing (rfl : (jobSeeing crossing).answer = .ok crossing)
  exact ⟨hreturn (by decide +kernel), hsame⟩

end Dropwatch.Discovery
