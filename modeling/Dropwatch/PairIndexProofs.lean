import Dropwatch.Lib.Interleave
import Dropwatch.DiscoveryProofs
import Dropwatch.PairsApi

/-! # The unique index of the pairs

    The writers of `pairs` run in sessions of their own, and each sees the committed
    tables under what it has written.  An INSERT is checked against what its session
    sees, and two sessions that insert one name wait for each other; so no session
    ever sees two rows of one name, whoever else commits (`indexed_of_reaches`).  The
    rows keep their keys and names, and what a session makes of the rows of a name
    depends on those rows alone. -/

namespace Dropwatch.PairIndex

open Transact RuleIndex Kraken Discovery PairsApi

/-! ## Keys and names -/

/-- The keys and names in the table. -/
def keysOf (db : Database) : List (Uuid × String) := db.pairs.map fun p => (p.id, p.krakenPairName)

/-- The key and the name of the row that a write adds. -/
def addedKey : Generated × PairWrite → Option (Uuid × String)
  | (g, .addPair new) => some (g.id, new.krakenPairName)
  | (_, .setPairMarket ..) => none

/-- Primary keys. -/
def UniqueKeys (db : Database) : Prop := ((keysOf db).map Prod.fst).Nodup

/-- The unique index of the name. -/
def UniqueNames (db : Database) : Prop := ((keysOf db).map Prod.snd).Nodup

instance (db : Database) : Decidable (UniqueKeys db) :=
  inferInstanceAs (Decidable ((keysOf db).map Prod.fst).Nodup)

def Tracked (db : Database) (name : String) : Prop := name ∈ (keysOf db).map Prod.snd

theorem tracked_iff {db : Database} {name : String} :
    Tracked db name ↔ ∃ p ∈ db.pairs, p.krakenPairName = name := by
  rw [Tracked, keysOf, List.map_map, List.mem_map]
  rfl

theorem not_tracked_iff {db : Database} {name : String} :
    ¬ Tracked db name ↔ rowsOf db name = [] := by
  rw [tracked_iff, rowsOf_eq_nil]
  simp only [not_exists, not_and, ne_eq]

theorem Tracked.of_mem {db : Database} {pairId : Uuid} {name : String}
    (h : (pairId, name) ∈ keysOf db) : Tracked db name :=
  List.mem_map_of_mem h

theorem Tracked.mono {db db' : Database} {name : String} (h : Tracked db name)
    (hsub : keysOf db ⊆ keysOf db') : Tracked db' name := by
  obtain ⟨e, he, hname⟩ := List.mem_map.mp h
  exact List.mem_map.mpr ⟨e, hsub he, hname⟩

theorem keyed_iff {db : Database} : Keyed db ↔ UniqueKeys db ∧ UniqueNames db := by
  rw [UniqueKeys, UniqueNames, keysOf, List.map_map, List.map_map]
  exact ⟨fun h => ⟨h.ids, h.names⟩, fun h => ⟨h.1, h.2⟩⟩

theorem UniqueNames.rowsOf_length {db : Database} (h : UniqueNames db) (name : String) :
    (rowsOf db name).length ≤ 1 := by
  rw [UniqueNames, keysOf, List.map_map] at h
  have hcount := List.nodup_iff_count_le_one.mp h name
  rwa [List.count, List.countP_map, List.countP_eq_length_filter] at hcount

theorem keysOf_apply (e : Generated × PairWrite) (db : Database) :
    keysOf (PairWrite.apply e.1 e.2 db) = keysOf db ++ (addedKey e).toList := by
  obtain ⟨g, w⟩ := e
  cases w with
  | addPair new => exact List.map_append
  | setPairMarket pairId notional24h isActive =>
      show _ = keysOf db ++ []
      rw [List.append_nil]
      refine map_updateWhere ?_ db.pairs
      exact fun _ => rfl

theorem keysOf_replay (db : Database) (log : List (Generated × PairWrite)) :
    keysOf (marketBackend.replay db log) = keysOf db ++ log.filterMap addedKey :=
  marketBackend.replay_added (fun e _ db => keysOf_apply e db) db

/-- Rows are never deleted and keep their keys. -/
theorem UniqueKeys.of_replay {db : Database} {log : List (Generated × PairWrite)}
    (h : UniqueKeys (marketBackend.replay db log)) : UniqueKeys db := by
  rw [UniqueKeys, keysOf_replay, List.map_append] at h
  exact (List.nodup_append.mp h).1

/-- The rows of a name after a log are those before it, changed by the log. -/
theorem rowsOf_replay_congr {db db' : Database} {name : String}
    (h : rowsOf db name = rowsOf db' name) (log : List (Generated × PairWrite)) :
    rowsOf (marketBackend.replay db log) name = rowsOf (marketBackend.replay db' log) name := by
  induction log generalizing db db' with
  | nil => exact h
  | cons e rest ih =>
      refine @ih (PairWrite.apply e.1 e.2 db) (PairWrite.apply e.1 e.2 db') ?_
      obtain ⟨g, w⟩ := e
      cases w with
      | addPair new => rw [rowsOf_addPair, rowsOf_addPair, h]
      | setPairMarket pairId notional24h isActive =>
          rw [rowsOf_updateWhere, rowsOf_updateWhere, h]

/-- A row that a session sees it sees in larger tables too. -/
theorem mem_replay_mono {db db' : Database} (h : db.pairs ⊆ db'.pairs)
    (log : List (Generated × PairWrite)) :
    (marketBackend.replay db log).pairs ⊆ (marketBackend.replay db' log).pairs := by
  induction log generalizing db db' with
  | nil => exact h
  | cons e rest ih =>
      refine @ih (PairWrite.apply e.1 e.2 db) (PairWrite.apply e.1 e.2 db') ?_
      obtain ⟨g, w⟩ := e
      cases w with
      | addPair new =>
          intro p hp
          rcases List.mem_append.mp hp with hold | hnew
          · exact List.mem_append_left _ (h hold)
          · exact List.mem_append_right _ hnew
      | setPairMarket pairId notional24h isActive => exact List.map_subset _ h

/-! ## The index in every session -/

/-- What the writers of `pairs` share. -/
abbrev MarketFrame : Type := Frame Database PairWrite Generated Memory Unit

abbrev MarketSystem : Type 1 := System Database PairWrite Generated Memory Unit MemOp MarketOp Raised

abbrev MarketThreads : Type 1 :=
  Config Database PairWrite Generated Memory Unit MemOp MarketOp Raised

/-- No session sees two rows of one name, and no two sessions have written one. -/
structure Indexed (f : MarketFrame) : Prop where
  clashFree : ClashFree marketBackend f
  names : UniqueNames f.db
  views : ∀ i s, f.sessions i = some s → UniqueNames (marketBackend.replay f.db s.log)

theorem clash_comm (x y : Generated × PairWrite) :
    marketBackend.clash x y = marketBackend.clash y x := by
  obtain ⟨g, w⟩ := x
  obtain ⟨g', w'⟩ := y
  show w.clash w' = w'.clash w
  cases w <;> cases w' <;> simp only [PairWrite.clash, BEq.comm]

theorem addedKey_eq_some {e : Generated × PairWrite} {key : Uuid × String}
    (h : addedKey e = some key) :
    ∃ g new, e = (g, .addPair new) ∧ key = (g.id, new.krakenPairName) := by
  obtain ⟨g, w⟩ := e
  cases w with
  | addPair new => exact ⟨g, new, rfl, (Option.some.inj h).symm⟩
  | setPairMarket pairId notional24h isActive => cases h

/-- Two sessions have not inserted one name. -/
theorem ClashFree.added_ne {f : MarketFrame} (h : ClashFree marketBackend f) {i j : Nat}
    (hij : i ≠ j) {s t : Session Generated PairWrite} (hs : f.sessions i = some s)
    (ht : f.sessions j = some t) {a b : Uuid × String} (ha : a ∈ s.log.filterMap addedKey)
    (hb : b ∈ t.log.filterMap addedKey) : a.2 ≠ b.2 := by
  obtain ⟨x, hx, hxa⟩ := List.mem_filterMap.mp ha
  obtain ⟨y, hy, hyb⟩ := List.mem_filterMap.mp hb
  obtain ⟨g, new, rfl, rfl⟩ := addedKey_eq_some hxa
  obtain ⟨g', new', rfl, rfl⟩ := addedKey_eq_some hyb
  have hclash : (new.krakenPairName == new'.krakenPairName) = false := h i j s t hij hs ht _ hx _ hy
  exact beq_eq_false_iff_ne.mp hclash

theorem uniqueNames_replay {db : Database} {log : List (Generated × PairWrite)} :
    UniqueNames (marketBackend.replay db log)
      ↔ UniqueNames db ∧ ((log.filterMap addedKey).map Prod.snd).Nodup
        ∧ ∀ e ∈ log.filterMap addedKey, ¬ Tracked db e.2 := by
  rw [UniqueNames, keysOf_replay, List.map_append, List.nodup_append']
  refine and_congr_right (fun _ => and_congr_right (fun _ => ?_))
  constructor
  · intro h e he htracked
    exact h htracked (List.mem_map_of_mem he)
  · intro h name htracked hadded
    obtain ⟨e, he, rfl⟩ := List.mem_map.mp hadded
    exact h e he htracked

/-- A session that opens or closes with nothing written. -/
theorem Indexed.put {f : MarketFrame} (h : Indexed f) (i : Nat)
    {s : Option (Session Generated PairWrite)} (hs : ∀ s', s = some s' → s'.log = []) :
    Indexed (f.put i s) where
  clashFree := by
    refine ClashFree.put (f := f) h.clashFree i s ?_
    intro s' hs' x hx
    rw [hs s' hs'] at hx
    exact absurd hx List.not_mem_nil
  names := h.names
  views := by
    intro j t ht
    by_cases hji : j = i
    · rw [hji, Frame.put_self] at ht
      rw [hs t ht]
      exact h.names
    · rw [f.put_of_ne hji] at ht
      exact h.views j t ht

/-- One more write of a session: the others see nothing of it. -/
theorem Indexed.log {f : MarketFrame} {i : Nat} {s : Session Generated PairWrite}
    {e : Generated × PairWrite} (h : Indexed f)
    (hclash : ClashFree marketBackend (f.log i s e))
    (hview : UniqueNames (marketBackend.replay f.db (s.log ++ [e]))) : Indexed (f.log i s e) where
  clashFree := hclash
  names := h.names
  views := by
    intro j t ht
    by_cases hji : j = i
    · rw [hji] at ht
      obtain rfl := Option.some.inj ((f.put_self i _).symm.trans ht)
      exact hview
    · exact h.views j t ((f.put_of_ne hji _).symm.trans ht)

/-- A commit: what the other sessions have inserted are other names. -/
theorem Indexed.commit {f : MarketFrame} {i : Nat} {s : Session Generated PairWrite}
    (h : Indexed f) (hs : f.sessions i = some s)
    (hclash : ClashFree marketBackend (f.commit marketBackend i s)) :
    Indexed (f.commit marketBackend i s) where
  clashFree := hclash
  names := h.views i s hs
  views := by
    intro j t ht
    by_cases hji : j = i
    · rw [hji] at ht
      obtain rfl := Option.some.inj ((f.put_self i _).symm.trans ht)
      exact h.views i s hs
    · have ht' : f.sessions j = some t := (f.put_of_ne hji _).symm.trans ht
      obtain ⟨-, hnodup, hfree⟩ := uniqueNames_replay.mp (h.views j t ht')
      refine uniqueNames_replay.mpr ⟨h.views i s hs, hnodup, ?_⟩
      intro e he htracked
      have hkeys : e.2 ∈ (keysOf f.db ++ s.log.filterMap addedKey).map Prod.snd := by
        rw [← keysOf_replay]
        exact htracked
      rw [List.map_append] at hkeys
      rcases List.mem_append.mp hkeys with hold | hnew
      · exact hfree e he hold
      · obtain ⟨a, ha, hname⟩ := List.mem_map.mp hnew
        exact ClashFree.added_ne h.clashFree (Ne.symm hji) hs ht' ha he hname

/-- The commands that insert under the unique index, if they insert. -/
def checked (β : Type) (cmd : Cmd Database PairWrite Generated MemOp MarketOp β) : Prop :=
  match cmd with
  | .write (.addPair _) => False
  | _ => True

theorem UniqueNames.update {db : Database} {log : List (Generated × PairWrite)}
    {e : Generated × PairWrite} (h : UniqueNames (marketBackend.replay db log))
    (he : addedKey e = none) : UniqueNames (marketBackend.replay db (log ++ [e])) := by
  rw [uniqueNames_replay, List.filterMap_append, List.filterMap_cons_none he, List.filterMap_nil,
    List.append_nil]
  exact uniqueNames_replay.mp h

theorem UniqueNames.insert {db : Database} {log : List (Generated × PairWrite)} {g : Generated}
    {new : NewPair} (h : UniqueNames (marketBackend.replay db log))
    (hfree : marketBackend.violates g (.addPair new) (marketBackend.replay db log) = false) :
    UniqueNames (marketBackend.replay db (log ++ [(g, .addPair new)])) := by
  have hnew : ¬ Tracked (marketBackend.replay db log) new.krakenPairName :=
    not_tracked_iff.mpr (violates_addPair.mp hfree)
  rw [Backend.replay_concat, UniqueNames]
  show ((keysOf (PairWrite.apply g (.addPair new) (marketBackend.replay db log))).map
    Prod.snd).Nodup
  rw [keysOf_apply (g, .addPair new), List.map_append, List.nodup_append']
  refine ⟨h, List.nodup_singleton _, ?_⟩
  intro name htracked hname
  obtain rfl := List.mem_singleton.mp hname
  exact hnew htracked

/-- What one command leaves of the index, in any system over the tables. -/
theorem Indexed.effect {Y : MarketSystem} (hY : Y.backend = marketBackend) {f f' : MarketFrame}
    {i : Nat} {β : Type} {cmd : Cmd Database PairWrite Generated MemOp MarketOp β} {b : β}
    (h : Indexed f) (hcmd : checked β cmd) (he : Effect Y i f β cmd b f') : Indexed f' := by
  obtain ⟨backend, answers, starts, execs, closes⟩ := Y
  obtain rfl : backend = marketBackend := hY
  have hclash : ClashFree marketBackend f' := ClashFree.effect clash_comm h.clashFree he
  obtain ⟨s, hs, he⟩ := he
  cases cmd with
  | query q => exact he.2 ▸ h
  | write w =>
      obtain ⟨g, -, rfl⟩ := he
      cases w with
      | addPair new => exact hcmd.elim
      | setPairMarket pairId notional24h isActive =>
          exact h.log hclash ((h.views i s hs).update rfl)
  | insert w =>
      cases b with
      | none => exact he.2 ▸ h
      | some g =>
          obtain ⟨hfree, -, rfl⟩ := he
          cases w with
          | addPair new => exact h.log hclash ((h.views i s hs).insert hfree)
          | setPairMarket pairId notional24h isActive =>
              exact h.log hclash ((h.views i s hs).update rfl)
  | commit =>
      obtain rfl := he
      exact h.commit hs hclash
  | mem m =>
      obtain ⟨-, rfl⟩ := he
      exact ⟨hclash, h.names, h.views⟩
  | ask e =>
      obtain ⟨x, -, rfl⟩ := he
      exact ⟨hclash, h.names, h.views⟩

/-! ## Programs -/

/-- A program that inserts under the unique index. -/
abbrev Checked {α : Type} (p : MarketTx α) : Prop := p.Sat checked (fun _ => True)

theorem addPair_checked (new : NewPair) : Checked (addPair new) := by
  rw [addPair]
  split
  · refine ⟨trivial, fun inserted => ?_⟩
    cases inserted with
    | none => exact trivial
    | some g => exact trivial
  · exact trivial

theorem refreshPair_checked (pairId : Uuid) : Checked (refreshPair pairId) := by
  refine ⟨trivial, fun row => ?_⟩
  cases row with
  | none => exact trivial
  | some pair => exact trivial

theorem trackPair_checked (new : NewPair) : Checked (trackPair new) := by
  refine ⟨trivial, fun existing => ?_⟩
  cases existing with
  | some pair => exact trivial
  | none =>
      refine (addPair_checked new).bind ?_
      exact fun g _ => ⟨trivial, fun _ => refreshPair_checked g.id⟩

theorem visitMarkets_checked (settings : Settings) (existing : Dict String Pair)
    (markets : Dict String MarketSnapshot) : Checked (visitMarkets settings existing markets) := by
  induction markets with
  | nil => exact trivial
  | cons entry rest ih =>
      refine Script.Sat.bind (Q := fun _ => True) ?_ (fun _ _ => ih)
      rw [visitMarket]
      split
      · split
        · exact (addPair_checked _).bind (fun _ _ => trivial)
        · exact trivial
      · rw [updatePair]
        split
        · exact ⟨trivial, fun _ => trivial⟩
        · exact trivial

theorem runDiscovery_checked (settings : Settings) : Checked (runDiscovery settings) := by
  refine ⟨trivial, fun answer => ?_⟩
  show Checked (Script.lift answer >>= _)
  refine (Script.Sat.lift (Q := fun _ => True) (fun _ _ => trivial)).bind ?_
  exact fun snapshot _ => ⟨trivial, fun existing =>
    (visitMarkets_checked settings existing snapshot).bind (fun _ _ => ⟨trivial, fun _ => trivial⟩)⟩

/-- No interleaving of programs that insert under the index gets past it. -/
theorem indexed_of_reaches {Y : MarketSystem} (hY : Y.backend = marketBackend)
    (hstarts : ∀ f i proc p, Y.starts f i proc p → Checked p) {c c' : MarketThreads}
    (hc : Indexed c.frame) (hprog : ∀ i, c.frame.sessions i ≠ none → Checked (c.prog i))
    (hr : Reaches Y c c') : Indexed c'.frame := by
  have hinvariant : Invariant Y Indexed (fun _ _ _ => True) checked := by
    refine ⟨?_, ?_, ?_, fun _ _ _ _ _ _ _ _ => trivial, ?_⟩
    · exact fun f i proc p _ hp => (hstarts f i proc p hp).under
    · intro f i proc h
      refine h.put i ?_
      intro s hs
      rw [← Option.some.inj hs]
    · intro f i h
      refine h.put i ?_
      intro s hs
      cases hs
    · exact fun β f i cmd b f' h hcmd he => h.effect hY hcmd he
  exact hinvariant.of_reaches hc (fun i hi => (hprog i hi).under) hr

end Dropwatch.PairIndex
