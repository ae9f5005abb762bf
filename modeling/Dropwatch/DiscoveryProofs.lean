import Dropwatch.Lib.Hysteresis
import Dropwatch.Discovery

/-! # Discovery over whole histories

    For one name, a run of the job is one step of a switch with two thresholds
    (`statusOf_after`): the rows of other names do not matter, because the loop
    finds the row of a market by its name and writes it by its key.  A run with a
    value that its column does not take is no step at all: it raises, and nothing of
    it is committed (`after_of_not_fits`).  A history of runs is then the fold of
    the steps of those that fit, which the general theory of the switch evaluates. -/

namespace Dropwatch.Discovery

open Transact RuleIndex Kraken

/-! ## The rows of a name -/

/-- The rows of a name. -/
def rowsOf (db : Database) (name : String) : List Pair :=
  db.pairs.filter (fun p => p.krakenPairName == name)

/-- No two rows share a primary key or a name. -/
structure Keyed (db : Database) : Prop where
  ids : (db.pairs.map fun p => p.id).Nodup
  names : (db.pairs.map fun p => p.krakenPairName).Nodup

theorem mem_rowsOf {db : Database} {name : String} {p : Pair} :
    p ∈ rowsOf db name ↔ p ∈ db.pairs ∧ p.krakenPairName = name := by
  rw [rowsOf, List.mem_filter, beq_iff_eq]

theorem rowsOf_eq_nil {db : Database} {name : String} :
    rowsOf db name = [] ↔ ∀ p ∈ db.pairs, p.krakenPairName ≠ name := by
  rw [rowsOf, List.filter_eq_nil_iff]
  simp only [beq_iff_eq, ne_eq]

/-- A name has the one row that is found under it. -/
theorem Keyed.rowsOf_eq {db : Database} (h : Keyed db) {p : Pair} {name : String}
    (hp : p ∈ rowsOf db name) : rowsOf db name = [p] := by
  obtain ⟨hmem, rfl⟩ := mem_rowsOf.mp hp
  exact filter_key h.names hmem

/-- A name is there at most once. -/
theorem Keyed.rowsOf_cases {db : Database} (h : Keyed db) (name : String) :
    rowsOf db name = [] ∨ ∃ p, rowsOf db name = [p] := by
  cases hrows : rowsOf db name with
  | nil => exact Or.inl rfl
  | cons p rest =>
      have hp : p ∈ rowsOf db name := by
        rw [hrows]
        exact List.mem_cons_self
      exact Or.inr ⟨p, hrows ▸ h.rowsOf_eq hp⟩

/-! ## The writes of one market -/

/-- A new row is seen under its own name only. -/
theorem rowsOf_addPair (db : Database) (g : Generated) (new : NewPair) (name : String) :
    rowsOf (PairWrite.apply g (.addPair new) db) name
      = if new.krakenPairName = name then rowsOf db name ++ [new.row g] else rowsOf db name := by
  rw [rowsOf, PairWrite.apply, List.filter_append]
  by_cases hname : new.krakenPairName = name
  · rw [if_pos hname, List.filter_cons_of_pos (by simpa [NewPair.row] using hname)]
    rfl
  · rw [if_neg hname, List.filter_cons_of_neg (by simpa [NewPair.row] using hname),
      List.filter_nil, List.append_nil]
    rfl

/-- An update keeps the names, so it acts on the rows of a name. -/
theorem rowsOf_updateWhere (db : Database) (g : Generated) (pairId : Uuid) (notional24h : Decimal)
    (isActive : Option Bool) (name : String) :
    rowsOf (PairWrite.apply g (.setPairMarket pairId notional24h isActive) db) name
      = updateWhere (fun q => q.id == pairId) (setMarket notional24h isActive) (rowsOf db name) := by
  have hkeep : ∀ q : Pair,
      (if q.id == pairId then setMarket notional24h isActive q else q).krakenPairName
        = q.krakenPairName := by
    intro q
    split
    · rfl
    · rfl
  rw [rowsOf, PairWrite.apply, updateWhere, List.filter_map, rowsOf, updateWhere]
  congr 1
  refine List.filter_congr ?_
  intro q _
  rw [Function.comp_apply, hkeep]

/-- An update by the key of a row is seen under the name of that row only. -/
theorem rowsOf_setPairMarket {db : Database} (h : Keyed db) (g : Generated) {p : Pair}
    (hp : p ∈ db.pairs) (notional24h : Decimal) (isActive : Option Bool) (name : String) :
    rowsOf (PairWrite.apply g (.setPairMarket p.id notional24h isActive) db) name
      = if p.krakenPairName = name then [setMarket notional24h isActive p] else rowsOf db name := by
  rw [rowsOf_updateWhere, updateWhere]
  by_cases hname : p.krakenPairName = name
  · rw [if_pos hname, h.rowsOf_eq (mem_rowsOf.mpr ⟨hp, hname⟩), List.map_singleton,
      if_pos (beq_self_eq_true p.id)]
  · rw [if_neg hname]
    have hother : ∀ q ∈ rowsOf db name,
        (if q.id == p.id then setMarket notional24h isActive q else q) = id q := by
      intro q hq
      rw [if_neg, id_eq]
      intro hid
      obtain rfl := List.inj_on_of_nodup_map h.ids (mem_rowsOf.mp hq).1 hp (beq_iff_eq.mp hid)
      exact hname (mem_rowsOf.mp hq).2
    rw [List.map_congr_left hother, List.map_id]

/-- An insert under an unused name and an unused key. -/
theorem Keyed.addPair {db : Database} (h : Keyed db) {g : Generated} {new : NewPair}
    (hid : ∀ p ∈ db.pairs, p.id ≠ g.id) (hname : rowsOf db new.krakenPairName = []) :
    Keyed (PairWrite.apply g (.addPair new) db) where
  ids := by
    rw [PairWrite.apply, List.map_append, List.nodup_append]
    refine ⟨h.ids, List.nodup_singleton _, ?_⟩
    intro i hi j hj
    obtain ⟨p, hp, rfl⟩ := List.mem_map.mp hi
    rw [List.mem_singleton.mp hj]
    exact hid p hp
  names := by
    rw [PairWrite.apply, List.map_append, List.nodup_append]
    refine ⟨h.names, List.nodup_singleton _, ?_⟩
    intro i hi j hj
    obtain ⟨p, hp, rfl⟩ := List.mem_map.mp hi
    rw [List.mem_singleton.mp hj]
    exact rowsOf_eq_nil.mp hname p hp

/-- An update keeps keys and names. -/
theorem Keyed.setPairMarket {db : Database} (h : Keyed db) (g : Generated) (pairId : Uuid)
    (notional24h : Decimal) (isActive : Option Bool) :
    Keyed (PairWrite.apply g (.setPairMarket pairId notional24h isActive) db) := by
  have hkeep : ∀ {κ : Type} (key : Pair → κ), (∀ q, key (setMarket notional24h isActive q) = key q) →
      (PairWrite.apply g (.setPairMarket pairId notional24h isActive) db).pairs.map key
        = db.pairs.map key := by
    intro κ key hkey
    exact map_updateWhere hkey db.pairs
  refine ⟨?_, ?_⟩
  · rw [hkeep (fun p => p.id) (fun _ => rfl)]
    exact h.ids
  · rw [hkeep (fun p => p.krakenPairName) (fun _ => rfl)]
    exact h.names

/-! ## The columns -/

/-- The columns take what a market stores. -/
def fitsMarket (settings : Settings) (existing : Dict String Pair)
    (entry : String × MarketSnapshot) : Bool :=
  match Dict.get? existing entry.1 with
  | none => !clearsFloor settings entry.2 || (newPair settings entry.2).fits
  | some _ => fitsNumeric 24 2 entry.2.notional24h

/-- The columns take what a run stores. -/
def Job.fits (settings : Settings) (job : Job) (db : Database) : Bool :=
  match job.answer with
  | .ok snapshot => snapshot.all (fitsMarket settings (existingByName db (Dict.keys snapshot)))
  | .error _ => true

theorem addPair_of_fits {new : NewPair} (h : new.fits = true) : addPair new = insertPair new :=
  if_pos h

theorem updatePair_of_fits {notional24h : Decimal} (h : fitsNumeric 24 2 notional24h = true)
    (pairId : Uuid) (isActive : Option Bool) : updatePair pairId notional24h isActive
      = Script.call (.write (.setPairMarket pairId notional24h isActive)) := if_pos h

/-! ## The loop -/

/-- What a market makes of the rows of its name. -/
structure Visited (settings : Settings) (market : MarketSnapshot) (before after : List Pair) :
    Prop where
  created : before = [] → clearsFloor settings market = true →
    ∃ g, after = [(newPair settings market).row g]
  ignored : before = [] → clearsFloor settings market = false → after = []
  updated : ∀ p, before = [p] →
    after = [setMarket market.notional24h (assigned settings market p.isActive) p]

@[simp] theorem newPair_krakenPairName (settings : Settings) (m : MarketSnapshot) :
    (newPair settings m).krakenPairName = m.canonicalName := rfl

/-- `pair is None`, and the market is above the floor. -/
theorem visited_addPair {settings : Settings} {m : MarketSnapshot} {db : Database} (g : Generated)
    (hnil : rowsOf db m.canonicalName = []) (hclears : clearsFloor settings m = true) :
    Visited settings m (rowsOf db m.canonicalName)
      (rowsOf (PairWrite.apply g (.addPair (newPair settings m)) db) m.canonicalName) where
  created := by
    intro _ _
    refine ⟨g, ?_⟩
    rw [rowsOf_addPair, newPair_krakenPairName, if_pos rfl, hnil]
    rfl
  ignored := by
    intro _ h
    cases hclears.symm.trans h
  updated := by
    intro p hp
    cases hnil.symm.trans hp

/-- `pair is None`, and the market is below the floor. -/
theorem visited_ignored {settings : Settings} {m : MarketSnapshot} {rows : List Pair}
    (hnil : rows = []) (hclears : clearsFloor settings m = false) :
    Visited settings m rows rows where
  created := by
    intro _ h
    cases hclears.symm.trans h
  ignored := fun _ _ => hnil
  updated := by
    intro p hp
    cases hnil.symm.trans hp

/-- The update of a loaded pair goes by key, and no other row has the key. -/
theorem visited_setPairMarket {settings : Settings} {m : MarketSnapshot} {db : Database}
    (hk : Keyed db) (g : Generated) {name : String} {p : Pair} (hp : p ∈ rowsOf db name) :
    Visited settings m (rowsOf db name)
      (rowsOf (PairWrite.apply g
        (.setPairMarket p.id m.notional24h (assigned settings m p.isActive)) db) name) := by
  have hsingle := hk.rowsOf_eq hp
  refine ⟨?_, ?_, ?_⟩
  · intro h
    cases hsingle.symm.trans h
  · intro h
    cases hsingle.symm.trans h
  · intro q hq
    obtain rfl := (List.cons.inj (hsingle.symm.trans hq)).1
    rw [rowsOf_setPairMarket hk g (mem_rowsOf.mp hp).1, if_pos (mem_rowsOf.mp hp).2]

section Loop

variable (settings : Settings) {existing : Dict String Pair}

/-- The state of a run of the job. -/
abbrev JobState := Store Database Memory Job

/-- The unique index refuses the names in use. -/
theorem violates_addPair {db : Database} {new : NewPair} :
    PairWrite.violates (.addPair new) db = false ↔ rowsOf db new.krakenPairName = [] := by
  rw [rowsOf_eq_nil, PairWrite.violates, List.any_eq_false]
  simp only [beq_iff_eq, ne_eq]

/-- An insert under an unused name. -/
theorem run_addPair {new : NewPair} {s : JobState} (hfits : new.fits = true)
    (h : rowsOf s.view new.krakenPairName = []) :
    run marketBackend market (addPair new) s
      = (.ok (market.fresh s.view s.env),
        { s with view := PairWrite.apply (market.fresh s.view s.env) (.addPair new) s.view }) := by
  have hfree : marketBackend.violates (market.fresh s.view s.env) (.addPair new) s.view = false :=
    violates_addPair.mpr h
  rw [addPair_of_fits hfits, insertPair, Script.call_bind,
    run_insert_ok marketBackend market hfree]
  rfl

theorem run_updatePair {pairId : Uuid} {notional24h : Decimal} {isActive : Option Bool}
    {s : JobState} (hfits : fitsNumeric 24 2 notional24h = true) :
    run marketBackend market (updatePair pairId notional24h isActive) s
      = (.ok (), ⟨s.committed, PairWrite.apply (market.fresh s.view s.env)
          (.setPairMarket pairId notional24h isActive) s.view, s.mem, s.env⟩) := by
  rw [updatePair_of_fits hfits]
  rfl

/-- The visit of one market: the rows of its name are visited, those of other names are
    left alone. -/
theorem run_visitMarket {name : String} {m : MarketSnapshot} {s : JobState}
    (hname : m.canonicalName = name)
    (hexisting : ∀ p, Dict.get? existing name = some p ↔ p ∈ rowsOf s.view name)
    (hk : Keyed s.view) (hfits : fitsMarket settings existing (name, m) = true) :
    ∃ view, run marketBackend market (visitMarket settings existing (name, m)) s
        = (.ok (), { s with view := view })
      ∧ Keyed view ∧ Visited settings m (rowsOf s.view name) (rowsOf view name)
      ∧ ∀ other, other ≠ name → rowsOf view other = rowsOf s.view other := by
  rw [visitMarket]
  rw [fitsMarket] at hfits
  cases hget : Dict.get? existing name with
  | none =>
      rw [hget] at hfits
      have hnil : rowsOf s.view name = [] := by
        refine List.eq_nil_iff_forall_not_mem.mpr ?_
        intro p hp
        cases hget.symm.trans ((hexisting p).mpr hp)
      cases hclears : clearsFloor settings m with
      | true =>
          subst hname
          have hnew : (newPair settings m).fits = true := by
            rcases Bool.or_eq_true_iff.mp hfits with hlow | hnew
            · simp [hclears] at hlow
            · exact hnew
          have hid : ∀ p ∈ s.view.pairs, p.id ≠ (market.fresh s.view s.env).id :=
            s.env.unused s.view
          refine ⟨_, ?_, @Keyed.addPair s.view hk _ (newPair settings m) hid hnil,
            visited_addPair (market.fresh s.view s.env) hnil hclears, ?_⟩
          · simp only [if_true]
            rw [run_bind_ok marketBackend market (@run_addPair (newPair settings m) s hnew hnil)]
            rfl
          · intro other hne
            rw [rowsOf_addPair, newPair_krakenPairName, if_neg (Ne.symm hne)]
      | false => exact ⟨s.view, rfl, hk, visited_ignored hnil hclears, fun _ _ => rfl⟩
  | some p =>
      rw [hget] at hfits
      have hp := (hexisting p).mp hget
      refine ⟨_, run_updatePair hfits, hk.setPairMarket (market.fresh s.view s.env) _ _ _,
        visited_setPairMarket hk (market.fresh s.view s.env) hp, ?_⟩
      intro other hne
      rw [rowsOf_setPairMarket hk (market.fresh s.view s.env) (mem_rowsOf.mp hp).1,
        (mem_rowsOf.mp hp).2, if_neg (Ne.symm hne)]

/-- The loop visits every market of the snapshot, and no other name. -/
theorem run_visitMarkets {snapshot : Dict String MarketSnapshot} {s : JobState}
    (hnames : ∀ e ∈ snapshot, e.2.canonicalName = e.1) (hkeys : (Dict.keys snapshot).Nodup)
    (hexisting : ∀ name ∈ Dict.keys snapshot, ∀ p,
      Dict.get? existing name = some p ↔ p ∈ rowsOf s.view name)
    (hk : Keyed s.view) (hfits : ∀ e ∈ snapshot, fitsMarket settings existing e = true) :
    ∃ view, run marketBackend market (visitMarkets settings existing snapshot) s
        = (.ok (), { s with view := view })
      ∧ Keyed view
      ∧ (∀ e ∈ snapshot, Visited settings e.2 (rowsOf s.view e.1) (rowsOf view e.1))
      ∧ ∀ name, name ∉ Dict.keys snapshot → rowsOf view name = rowsOf s.view name := by
  induction snapshot generalizing s with
  | nil => exact ⟨s.view, rfl, hk, fun e he => absurd he List.not_mem_nil, fun _ _ => rfl⟩
  | cons entry rest ih =>
      obtain ⟨name, m⟩ := entry
      obtain ⟨hne, hrest⟩ : name ∉ Dict.keys rest ∧ (Dict.keys rest).Nodup :=
        List.nodup_cons.mp hkeys
      obtain ⟨view₁, hrun₁, hk₁, hvisited, hothers₁⟩ := run_visitMarket settings
        (hnames _ List.mem_cons_self) (hexisting name List.mem_cons_self) hk
        (hfits _ List.mem_cons_self)
      -- The rest of the markets have other names, so their rows are still those loaded.
      have hsame : ∀ other ∈ Dict.keys rest, rowsOf view₁ other = rowsOf s.view other :=
        fun other hother => hothers₁ other (by rintro rfl; exact hne hother)
      obtain ⟨view₂, hrun₂, hk₂, hvisited₂, hothers₂⟩ := ih (s := { s with view := view₁ })
        (fun e he => hnames e (List.mem_cons_of_mem _ he)) hrest
        (fun other hother p => by
          rw [hsame other hother]
          exact hexisting other (List.mem_cons_of_mem _ hother) p) hk₁
        (fun e he => hfits e (List.mem_cons_of_mem _ he))
      refine ⟨view₂, ?_, hk₂, ?_, ?_⟩
      · rw [visitMarkets, run_bind_ok marketBackend market hrun₁]
        exact hrun₂
      · intro e he
        rcases List.mem_cons.mp he with rfl | he
        · rw [hothers₂ name hne]
          exact hvisited
        · rw [← hsame e.1 (List.mem_map_of_mem he)]
          exact hvisited₂ e he
      · intro other hother
        obtain ⟨hname, hother⟩ := not_or.mp (fun h => hother (List.mem_cons.mpr h))
        rw [hothers₂ other hother, hothers₁ other hname]

/-- A market whose values do not fit ends the loop. -/
theorem visitMarket_of_not_fits {entry : String × MarketSnapshot}
    (h : fitsMarket settings existing entry = false) :
    visitMarket settings existing entry = Script.fail outOfRange := by
  rw [fitsMarket] at h
  rw [visitMarket]
  cases hget : Dict.get? existing entry.1 with
  | none =>
      rw [hget] at h
      obtain ⟨hclears, hnew⟩ := Bool.or_eq_false_iff.mp h
      rw [Bool.not_eq_false'] at hclears
      simp [hclears, addPair, hnew]
  | some p =>
      rw [hget] at h
      simp only [updatePair]
      exact if_neg (by simpa using h)

theorem run_visitMarkets_of_not_fits {snapshot : Dict String MarketSnapshot} (s : JobState)
    (h : ∃ e ∈ snapshot, fitsMarket settings existing e = false) :
    ∃ e, (run marketBackend market (visitMarkets settings existing snapshot) s).1 = .error e := by
  induction snapshot generalizing s with
  | nil =>
      obtain ⟨e, he, -⟩ := h
      exact absurd he List.not_mem_nil
  | cons entry rest ih =>
      rw [visitMarkets]
      cases hentry : fitsMarket settings existing entry with
      | false => exact ⟨outOfRange, by rw [visitMarket_of_not_fits settings hentry]; rfl⟩
      | true =>
          have hrest : ∃ e ∈ rest, fitsMarket settings existing e = false := by
            obtain ⟨e, he, hno⟩ := h
            rcases List.mem_cons.mp he with rfl | he
            · cases hentry.symm.trans hno
            · exact ⟨e, he, hno⟩
          rcases hrun : run marketBackend market (visitMarket settings existing entry) s
            with ⟨out, s'⟩
          cases out with
          | error e => exact ⟨e, by rw [run_bind_error marketBackend market hrun]⟩
          | ok _ =>
              rw [run_bind_ok marketBackend market hrun]
              exact ih s' hrest

/-- The loop commits nothing. -/
theorem visitMarkets_inSession (snapshot : Dict String MarketSnapshot) :
    (visitMarkets settings existing snapshot).Sat (fun _ c => c.inSession = true)
      (fun _ => True) := by
  induction snapshot with
  | nil => exact trivial
  | cons entry rest ih =>
      refine Script.Sat.bind (Q := fun _ => True) ?_ (fun _ _ => ih)
      rw [visitMarket]
      cases Dict.get? existing entry.1 with
      | none =>
          simp only []
          split
          · rw [addPair]
            split
            · exact ⟨rfl, fun inserted => by cases inserted <;> exact trivial⟩
            · exact trivial
          · exact trivial
      | some p =>
          simp only [updatePair]
          split
          · exact ⟨rfl, fun _ => trivial⟩
          · exact trivial

end Loop

/-! ## One run -/

/-- A snapshot is keyed by canonical name. -/
def Job.Canonical (job : Job) : Prop :=
  ∀ snapshot, job.answer = .ok snapshot →
    (Dict.keys snapshot).Nodup ∧ ∀ e ∈ snapshot, e.2.canonicalName = e.1

/-- The market that a run sees under a name. -/
def Job.shown (job : Job) (name : String) : Option MarketSnapshot :=
  match job.answer with
  | .ok snapshot => Dict.get? snapshot name
  | .error _ => none

/-- The loaded pairs are those of the snapshot's names. -/
theorem get?_existingByName {db : Database} (hk : Keyed db) {names : List String} {name : String}
    (hname : name ∈ names) (p : Pair) :
    Dict.get? (existingByName db names) name = some p ↔ p ∈ rowsOf db name := by
  have hnodup : ((db.pairs.filter (fun p => names.contains p.krakenPairName)).map
      fun p => p.krakenPairName).Nodup := hk.names.sublist (List.filter_sublist.map _)
  rw [existingByName, Dict.foldl_set_nil (fun p : Pair => p.krakenPairName) (fun p => p) hnodup,
    Dict.get?_map_iff (fun p : Pair => p.krakenPairName) (fun p => p) hnodup, mem_rowsOf]
  constructor
  · rintro ⟨q, hq, hqname, rfl⟩
    exact ⟨(List.mem_filter.mp hq).1, hqname⟩
  · rintro ⟨hp, rfl⟩
    exact ⟨p, List.mem_filter.mpr ⟨hp, by simpa using hname⟩, rfl, rfl⟩

section Run

variable (settings : Settings) {job : Job} {db : Database}

/-- The job with the answer in hand. -/
theorem run_answered (job : Job) (db : Database) :
    job.run settings db
      = run marketBackend market (Script.lift job.answer >>= fun snapshot =>
          Script.call (.query fun db => existingByName db (Dict.keys snapshot)) >>= fun existing =>
            visitMarkets settings existing snapshot >>= fun _ => Script.call .commit)
          ⟨db, db, {}, job⟩ := rfl

/-- A run that got a snapshot commits what its loop leaves. -/
theorem run_of_loop {snapshot : Dict String MarketSnapshot} {view : Database}
    (h : job.answer = .ok snapshot)
    (hloop : run marketBackend market
        (visitMarkets settings (existingByName db (Dict.keys snapshot)) snapshot) ⟨db, db, {}, job⟩
      = (.ok (), ⟨db, view, {}, job⟩)) :
    job.run settings db = (.ok (), ⟨view, view, {}, job⟩) := by
  rw [run_answered, h,
    run_bind_ok marketBackend market (run_lift_ok marketBackend market snapshot _),
    run_query_bind, run_bind_ok marketBackend market hloop]
  rfl

/-- A run visits the markets of its snapshot, and no other name. -/
theorem run_of_snapshot {snapshot : Dict String MarketSnapshot} (h : job.answer = .ok snapshot)
    (hjob : job.Canonical) (hk : Keyed db) (hfits : job.fits settings db = true) :
    (job.run settings db).1 = .ok ()
      ∧ Keyed (job.after settings db)
      ∧ (∀ e ∈ snapshot, Visited settings e.2 (rowsOf db e.1) (rowsOf (job.after settings db) e.1))
      ∧ ∀ name, name ∉ Dict.keys snapshot →
          rowsOf (job.after settings db) name = rowsOf db name := by
  obtain ⟨hkeys, hnames⟩ := hjob snapshot h
  rw [Job.fits, h, List.all_eq_true] at hfits
  obtain ⟨view, hrun, hk', hvisited, hothers⟩ := run_visitMarkets settings (s := ⟨db, db, {}, job⟩)
    hnames hkeys (fun name hname p => get?_existingByName hk hname p) hk hfits
  rw [Job.after, run_of_loop settings h hrun]
  exact ⟨rfl, hk', hvisited, hothers⟩

/-- A run that got an exception changes nothing. -/
theorem after_of_error {e : Raised} (h : job.answer = .error e) : job.after settings db = db := by
  rw [Job.after, run_answered, h]
  rfl

/-- A run that a column refuses a value raises and changes nothing. -/
theorem after_of_not_fits (h : job.fits settings db = false) :
    (∃ e, (job.run settings db).1 = .error e) ∧ job.after settings db = db := by
  cases hanswer : job.answer with
  | error e =>
      rw [Job.fits, hanswer] at h
      cases h
  | ok snapshot =>
      rw [Job.fits, hanswer, List.all_eq_false] at h
      obtain ⟨entry, hentry, hno⟩ := h
      have hraises := run_visitMarkets_of_not_fits settings ⟨db, db, {}, job⟩
        ⟨entry, hentry, Bool.eq_false_iff.mpr hno⟩
      have hsession : (visitMarkets settings (existingByName db (Dict.keys snapshot)) snapshot).Sat
          (fun _ c => c.inSession = true) (fun _ => True) := visitMarkets_inSession settings snapshot
      have hframe := hsession.run_frame marketBackend market ⟨db, db, {}, job⟩
      rw [Job.after, run_answered, hanswer,
        run_bind_ok marketBackend market (run_lift_ok marketBackend market snapshot _),
        run_query_bind]
      rcases hrun : run marketBackend market
        (visitMarkets settings (existingByName db (Dict.keys snapshot)) snapshot)
        ⟨db, db, {}, job⟩ with ⟨out, s'⟩
      rw [hrun] at hraises hframe
      obtain ⟨e, rfl⟩ := hraises
      rw [run_bind_error marketBackend market hrun]
      exact ⟨⟨e, rfl⟩, hframe.1⟩

/-- A run keeps keys and names unique. -/
theorem Keyed.after (hk : Keyed db) (hjob : job.Canonical) : Keyed (job.after settings db) := by
  cases h : job.answer with
  | ok snapshot =>
      cases hfits : job.fits settings db with
      | true => exact (run_of_snapshot settings h hjob hk hfits).2.1
      | false =>
          rw [(after_of_not_fits settings hfits).2]
          exact hk
  | error e =>
      rw [after_of_error settings h]
      exact hk

/-- A run leaves a name alone that it does not see. -/
theorem rowsOf_after_of_none (hk : Keyed db) (hjob : job.Canonical) {name : String}
    (hnone : job.shown name = none) : rowsOf (job.after settings db) name = rowsOf db name := by
  rw [Job.shown] at hnone
  cases h : job.answer with
  | ok snapshot =>
      rw [h] at hnone
      cases hfits : job.fits settings db with
      | false => rw [(after_of_not_fits settings hfits).2]
      | true =>
          refine (run_of_snapshot settings h hjob hk hfits).2.2.2 name ?_
          intro hname
          obtain ⟨e, he, rfl⟩ := List.mem_map.mp hname
          cases hnone.symm.trans (Dict.get?_of_mem (hjob snapshot h).1 he)
  | error e => rw [after_of_error settings h]

/-- A run visits a name that it sees. -/
theorem visited_after (hk : Keyed db) (hjob : job.Canonical) (hfits : job.fits settings db = true)
    {name : String} {m : MarketSnapshot} (hshown : job.shown name = some m) :
    Visited settings m (rowsOf db name) (rowsOf (job.after settings db) name) := by
  rw [Job.shown] at hshown
  cases h : job.answer with
  | ok snapshot =>
      rw [h] at hshown
      exact (run_of_snapshot settings h hjob hk hfits).2.2.1 (name, m) (Dict.mem_of_get? hshown)
  | error e =>
      rw [h] at hshown
      cases hshown

/-- Whether the name is there, and if so whether it is active. -/
def statusOf (db : Database) (name : String) : Option Bool :=
  (rowsOf db name).head?.map fun p => p.isActive

/-- The notional value that a run sees under a name. -/
def Job.reading (job : Job) (name : String) : Option ℚ :=
  (job.shown name).map fun m => m.notional24h.toRat

/-- With the floors in order, the loop body is the switch. -/
theorem getD_assigned
    (hfloors : settings.discoveryDeactivateFloorUsd.toRat ≤ settings.discoveryActivateFloorUsd.toRat)
    (m : MarketSnapshot) (isActive : Bool) :
    (assigned settings m isActive).getD isActive
      = latch settings.discoveryDeactivateFloorUsd.toRat settings.discoveryActivateFloorUsd.toRat
          isActive m.notional24h.toRat := by
  rw [assigned, clearsFloor, belowFloor, latch]
  by_cases hclears : settings.discoveryActivateFloorUsd.toRat ≤ m.notional24h.toRat
  · have hnot : ¬ m.notional24h.toRat < settings.discoveryDeactivateFloorUsd.toRat :=
      not_lt.mpr (le_trans hfloors hclears)
    cases isActive with
    | true => simp [hclears, hnot]
    | false => simp [hclears]
  · -- Below the band an active pair is deactivated; in it neither branch assigns.
    by_cases hbelow : m.notional24h.toRat < settings.discoveryDeactivateFloorUsd.toRat
    · cases isActive with
      | true => simp [hclears, hbelow]
      | false => simp [hclears, hbelow]
    · simp [hclears, hbelow]

/-- For one name a run is a step of the switch. -/
theorem statusOf_after
    (hfloors : settings.discoveryDeactivateFloorUsd.toRat ≤ settings.discoveryActivateFloorUsd.toRat)
    (hk : Keyed db) (hjob : job.Canonical) (hfits : job.fits settings db = true) (name : String) :
    statusOf (job.after settings db) name
      = observe settings.discoveryDeactivateFloorUsd.toRat settings.discoveryActivateFloorUsd.toRat
          (statusOf db name) (job.reading name) := by
  rw [Job.reading]
  cases hshown : job.shown name with
  | none =>
      rw [statusOf, rowsOf_after_of_none settings hk hjob hshown]
      rfl
  | some m =>
      have hvisited := visited_after settings hk hjob hfits hshown
      rcases hk.rowsOf_cases name with hnil | ⟨p, hp⟩
      · -- The switch comes into being with the row.
        rw [statusOf, statusOf, hnil]
        show _ = if settings.discoveryActivateFloorUsd.toRat ≤ m.notional24h.toRat then some true
          else none
        cases hclears : clearsFloor settings m with
        | true =>
            obtain ⟨g, hg⟩ := hvisited.created hnil hclears
            rw [hg, if_pos (of_decide_eq_true hclears)]
            rfl
        | false =>
            rw [hvisited.ignored hnil hclears, if_neg (of_decide_eq_false hclears)]
            rfl
      · rw [statusOf, statusOf, hvisited.updated p hp, hp]
        exact congrArg some (getD_assigned settings hfloors m p.isActive)

/-- A tracked pair keeps its key and its name. -/
theorem tracked_after (hk : Keyed db) (hjob : job.Canonical) {p : Pair} (hp : p ∈ db.pairs) :
    ∃ p' ∈ (job.after settings db).pairs,
      p'.id = p.id ∧ p'.krakenPairName = p.krakenPairName := by
  have hrow : rowsOf db p.krakenPairName = [p] := hk.rowsOf_eq (mem_rowsOf.mpr ⟨hp, rfl⟩)
  cases hfits : job.fits settings db with
  | false =>
      rw [(after_of_not_fits settings hfits).2]
      exact ⟨p, hp, rfl, rfl⟩
  | true =>
  cases hshown : job.shown p.krakenPairName with
  | none =>
      have hsame := rowsOf_after_of_none settings hk hjob hshown
      rw [hrow] at hsame
      exact ⟨p, (mem_rowsOf.mp (hsame ▸ List.mem_cons_self)).1, rfl, rfl⟩
  | some m =>
      have hupdated := (visited_after settings hk hjob hfits hshown).updated p hrow
      have hmem : setMarket m.notional24h (assigned settings m p.isActive) p
          ∈ rowsOf (job.after settings db) p.krakenPairName := by
        rw [hupdated]
        exact List.mem_cons_self
      exact ⟨_, (mem_rowsOf.mp hmem).1, rfl, rfl⟩

end Run

/-! ## Histories -/

section History

variable (settings : Settings) {db : Database} {jobs : List Job}

/-- The tables after a sequence of runs. -/
def afterAll (db : Database) (jobs : List Job) : Database :=
  jobs.foldl (fun db job => job.after settings db) db

theorem afterAll_append (db : Database) (before after : List Job) :
    afterAll settings db (before ++ after) = afterAll settings (afterAll settings db before) after :=
  List.foldl_append

theorem Keyed.afterAll (hk : Keyed db) (hjobs : ∀ job ∈ jobs, job.Canonical) :
    Keyed (afterAll settings db jobs) := by
  induction jobs generalizing db with
  | nil => exact hk
  | cons job rest ih =>
      exact ih (hk.after settings (hjobs job List.mem_cons_self))
        (fun j hj => hjobs j (List.mem_cons_of_mem _ hj))

theorem tracked_afterAll (hk : Keyed db) (hjobs : ∀ job ∈ jobs, job.Canonical) {p : Pair}
    (hp : p ∈ db.pairs) :
    ∃ p' ∈ (afterAll settings db jobs).pairs,
      p'.id = p.id ∧ p'.krakenPairName = p.krakenPairName := by
  induction jobs generalizing db p with
  | nil => exact ⟨p, hp, rfl, rfl⟩
  | cons job rest ih =>
      have hjob := hjobs job List.mem_cons_self
      obtain ⟨p₁, hp₁, hid₁, hname₁⟩ := tracked_after settings hk hjob hp
      obtain ⟨p₂, hp₂, hid₂, hname₂⟩ := ih (hk.after settings hjob)
        (fun j hj => hjobs j (List.mem_cons_of_mem _ hj)) hp₁
      exact ⟨p₂, hp₂, hid₂.trans hid₁, hname₂.trans hname₁⟩

/-- The runs of a history whose values fit the columns where they start. -/
def fitting (db : Database) : List Job → List Job
  | [] => []
  | job :: rest =>
      if job.fits settings db then job :: fitting (job.after settings db) rest else fitting db rest

/-- For one name a history is a run of the switch over what the runs that fit have read. -/
theorem statusOf_afterAll
    (hfloors : settings.discoveryDeactivateFloorUsd.toRat ≤ settings.discoveryActivateFloorUsd.toRat)
    (hk : Keyed db) (hjobs : ∀ job ∈ jobs, job.Canonical) (name : String) :
    statusOf (afterAll settings db jobs) name
      = ((fitting settings db jobs).map fun job => job.reading name).foldl
          (observe settings.discoveryDeactivateFloorUsd.toRat
            settings.discoveryActivateFloorUsd.toRat) (statusOf db name) := by
  induction jobs generalizing db with
  | nil => rfl
  | cons job rest ih =>
      have hjob := hjobs job List.mem_cons_self
      have hrest := ih (hk.after settings hjob) (fun j hj => hjobs j (List.mem_cons_of_mem _ hj))
      rw [fitting]
      cases hfits : job.fits settings db with
      | true =>
          rw [if_pos rfl, List.map_cons, List.foldl_cons,
            ← statusOf_after settings hfloors hk hjob hfits name]
          exact hrest
      | false =>
          rw [if_neg Bool.false_ne_true]
          rw [(after_of_not_fits settings hfits).2] at hrest
          show statusOf (afterAll settings (job.after settings db) rest) name = _
          rw [(after_of_not_fits settings hfits).2]
          exact hrest

theorem statusOf_eq_none {name : String} :
    statusOf db name = none ↔ ∀ p ∈ db.pairs, p.krakenPairName ≠ name := by
  rw [statusOf, Option.map_eq_none_iff, List.head?_eq_none_iff, rowsOf_eq_nil]

theorem Keyed.statusOf_eq_some (hk : Keyed db) {p : Pair} (hp : p ∈ db.pairs) :
    statusOf db p.krakenPairName = some p.isActive := by
  rw [statusOf, hk.rowsOf_eq (mem_rowsOf.mpr ⟨hp, rfl⟩)]
  rfl

/-- A name that is not tracked and never clears the floor stays untracked. -/
theorem statusOf_untracked
    (hfloors : settings.discoveryDeactivateFloorUsd.toRat ≤ settings.discoveryActivateFloorUsd.toRat)
    (hk : Keyed db) (hjobs : ∀ job ∈ jobs, job.Canonical) {name : String}
    (hname : ∀ p ∈ db.pairs, p.krakenPairName ≠ name)
    (hlow : ∀ job ∈ fitting settings db jobs, ∀ n, job.reading name = some n →
      ¬ settings.discoveryActivateFloorUsd.toRat ≤ n) :
    statusOf (afterAll settings db jobs) name = none := by
  rw [statusOf_afterAll settings hfloors hk hjobs, statusOf_eq_none.mpr hname]
  refine foldl_observe_none ?_
  intro n hn
  obtain ⟨job, hjob, hreading⟩ := List.mem_map.mp hn
  exact hlow job hjob n hreading

/-- Whether the last reading outside the band is at or above the activate floor; without
    one, `isActive`. -/
def lastDecided (isActive : Bool) (readings : List ℚ) : Bool :=
  (((readings.filter (decisive settings.discoveryDeactivateFloorUsd.toRat
      settings.discoveryActivateFloorUsd.toRat)).getLast?).map
    (fun n => decide (settings.discoveryActivateFloorUsd.toRat ≤ n))).getD isActive

/-- What a history of runs makes of the pairs.
    `unique`: no two rows share a name.
    `tracked`: a pair that was there is active by the last reading outside the band that a
    run had whose values fit, if there is one, and as before otherwise.
    `absent`: a run leaves a pair alone that its snapshot does not show.
    `created`: an untracked name gets an active row in the first run, of those whose
    values fit, that shows it at or above the activate floor.
    `only`: and in no other way.
    `lost`: a run with a value that does not fit its column changes nothing. -/
structure Outcome (settings : Settings) (db : Database) (jobs : List Job) : Prop where
  unique : ((afterAll settings db jobs).pairs.map fun p => p.krakenPairName).Nodup
  tracked : ∀ p ∈ db.pairs, ∃ p' ∈ (afterAll settings db jobs).pairs,
    p'.id = p.id ∧ p'.krakenPairName = p.krakenPairName
      ∧ p'.isActive = lastDecided settings p.isActive
          ((fitting settings db jobs).filterMap fun job => job.reading p.krakenPairName)
  absent : ∀ before job after, jobs = before ++ job :: after →
    ∀ p ∈ (afterAll settings db before).pairs, job.shown p.krakenPairName = none →
      p ∈ (afterAll settings db (before ++ [job])).pairs
  created : ∀ before job after, jobs = before ++ job :: after →
    job.fits settings (afterAll settings db before) = true →
    ∀ name, (∀ p ∈ db.pairs, p.krakenPairName ≠ name) →
      (∀ j ∈ fitting settings db before, ∀ n, j.reading name = some n →
        ¬ settings.discoveryActivateFloorUsd.toRat ≤ n) →
      ∀ n, job.reading name = some n → settings.discoveryActivateFloorUsd.toRat ≤ n →
        ∃ p ∈ (afterAll settings db (before ++ [job])).pairs,
          p.krakenPairName = name ∧ p.isActive = true
  only : ∀ name, (∀ p ∈ db.pairs, p.krakenPairName ≠ name) →
    (∀ job ∈ fitting settings db jobs, ∀ n, job.reading name = some n →
      ¬ settings.discoveryActivateFloorUsd.toRat ≤ n) →
    ∀ p ∈ (afterAll settings db jobs).pairs, p.krakenPairName ≠ name
  lost : ∀ before job after, jobs = before ++ job :: after →
    job.fits settings (afterAll settings db before) = false →
      afterAll settings db (before ++ [job]) = afterAll settings db before

/-- Discovery over every history of snapshots. -/
theorem outcome_afterAll
    (hfloors : settings.discoveryDeactivateFloorUsd.toRat ≤ settings.discoveryActivateFloorUsd.toRat)
    (hk : Keyed db) (hjobs : ∀ job ∈ jobs, job.Canonical) : Outcome settings db jobs where
  unique := (hk.afterAll settings hjobs).names
  tracked := by
    intro p hp
    obtain ⟨p', hp', hid, hname⟩ := tracked_afterAll settings hk hjobs hp
    refine ⟨p', hp', hid, hname, ?_⟩
    have hstatus := statusOf_afterAll settings hfloors hk hjobs p.krakenPairName
    rw [← hname, (hk.afterAll settings hjobs).statusOf_eq_some hp', hname, hk.statusOf_eq_some hp,
      foldl_observe_some, foldl_latch, List.filterMap_map] at hstatus
    exact Option.some.inj hstatus
  absent := by
    rintro before job after rfl p hp hnone
    have hbefore : ∀ j ∈ before, j.Canonical := fun j hj => hjobs j (by simp [hj])
    have hk' := hk.afterAll settings hbefore
    have hsame := rowsOf_after_of_none settings hk' (hjobs job (by simp)) hnone
    have hmem : p ∈ rowsOf (afterAll settings db before) p.krakenPairName :=
      mem_rowsOf.mpr ⟨hp, rfl⟩
    rw [← hsame] at hmem
    rw [afterAll_append]
    exact (mem_rowsOf.mp hmem).1
  created := by
    rintro before job after rfl hfits name hname hlow n hreading hclears
    have hbefore : ∀ j ∈ before, j.Canonical := fun j hj => hjobs j (by simp [hj])
    have huntracked := statusOf_untracked settings hfloors hk hbefore hname hlow
    have hstatus := statusOf_after settings hfloors (hk.afterAll settings hbefore)
      (hjobs job (by simp)) hfits name
    rw [huntracked, hreading, observe, if_pos hclears] at hstatus
    obtain ⟨p, hp, hactive⟩ := Option.map_eq_some_iff.mp hstatus
    have hrow := mem_rowsOf.mp (List.mem_of_head? hp)
    rw [afterAll_append]
    exact ⟨p, hrow.1, hrow.2, hactive⟩
  only := by
    intro name hname hlow
    exact statusOf_eq_none.mp (statusOf_untracked settings hfloors hk hjobs hname hlow)
  lost := by
    rintro before job after rfl hfits
    rw [afterAll_append]
    exact (after_of_not_fits settings hfits).2

end History

/-! ## An example -/

/-- A key above those in use. -/
def freshPairId (db : Database) : Uuid := db.pairs.foldr (fun p m => max (p.id + 1) m) 0

theorem ne_freshPairId (db : Database) : ∀ p ∈ db.pairs, p.id ≠ freshPairId db := by
  intro p hp
  refine Nat.ne_of_lt ?_
  rw [freshPairId]
  revert hp
  induction db.pairs with
  | nil => intro hp; exact absurd hp List.not_mem_nil
  | cons q rest ih =>
      intro hp
      rw [List.foldr_cons]
      rcases List.mem_cons.mp hp with rfl | hrest
      · exact Nat.lt_of_lt_of_le (Nat.lt_succ_self _) (Nat.le_max_left _ _)
      · exact Nat.lt_of_lt_of_le (ih hrest) (Nat.le_max_right _ _)

/-- A market of one unit at a price. -/
def marketAt (name : String) (price : Nat) : MarketSnapshot :=
  { canonicalName := name, displayName := name, baseCurrency := name, quoteCurrency := "USD"
    last := ⟨false, price, 0⟩, bid := ⟨false, price, 0⟩, ask := ⟨false, price, 0⟩
    volume24h := ⟨false, 1, 0⟩, vwap24h := ⟨false, price, 0⟩ }

/-- A run that sees one market, or none. -/
def jobSeeing (snapshot : Dict String MarketSnapshot) : Job :=
  ⟨.ok snapshot, freshPairId, ne_freshPairId⟩

/-- A market whose notional value the column does not take. -/
def hugeMarket : MarketSnapshot :=
  { marketAt "BIGUSD" (10 ^ 11) with volume24h := ⟨false, 1, 12⟩ }

/-- Down to the deactivate floor, below it, up to the activate floor in a run that is lost,
    and back into the band. -/
def swings : List Job :=
  [jobSeeing [("SOLUSD", marketAt "SOLUSD" 75000)], jobSeeing [],
    jobSeeing [("SOLUSD", marketAt "SOLUSD" 74999)],
    jobSeeing [("SOLUSD", marketAt "SOLUSD" 100000), ("BIGUSD", hugeMarket)],
    jobSeeing [("SOLUSD", marketAt "SOLUSD" 99999)]]

def tracking : Database :=
  { pairs := [{ id := 1, krakenPairName := "SOLUSD", displayName := "SOL/USD" }] }

theorem canonical_swings : ∀ job ∈ swings, job.Canonical := by
  intro job hjob snapshot h
  simp only [swings, jobSeeing, List.mem_cons, List.not_mem_nil, or_false] at hjob
  rcases hjob with rfl | rfl | rfl | rfl | rfl
  all_goals
    obtain rfl := Except.ok.inj h
    exact ⟨by decide, by decide⟩

theorem outcome_afterAll_swings : Outcome {} tracking swings :=
  outcome_afterAll {} (by decide +kernel) ⟨by decide, by decide⟩ canonical_swings

/-- A run that shows a tracked pair below the deactivate floor, next to a market whose
    notional value does not fit: the pair stays active. -/
theorem tracked_ne_lastDecided_overflow :
    ¬ ∃ p ∈ (afterAll {} tracking
        [jobSeeing [("SOLUSD", marketAt "SOLUSD" 74999), ("BIGUSD", hugeMarket)]]).pairs,
      p.krakenPairName = "SOLUSD" ∧ p.isActive = lastDecided {} true
        ([jobSeeing [("SOLUSD", marketAt "SOLUSD" 74999), ("BIGUSD", hugeMarket)]].filterMap
          fun job => job.reading "SOLUSD") := by
  decide +kernel

end Dropwatch.Discovery
