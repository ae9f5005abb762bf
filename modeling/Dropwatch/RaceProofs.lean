import Dropwatch.Lib.Trace
import Dropwatch.PairIndexProofs

/-! # Racing for a name — `POST /pairs` against itself and the discovery job

    A request looks a name up and inserts it later; so does the job, for every market
    it does not know, in one transaction.  The unique index lets no second row in.
    What that costs is the loser: an INSERT that meets a row committed after the SELECT
    raises, which is no answer 409, and takes the whole transaction of the job with it.
    So does a value that its column does not take.  Where no INSERT meets such a row and
    the values fit, every request is answered and the job commits. -/

namespace Dropwatch.Race

open Transact RuleIndex Kraken Discovery PairsApi PairIndex
open RulesApi (HttpError)

/-! ## The system -/

/-- A run of the job over a snapshot is under way in thread 0; in the others requests
    come in whose symbols resolve to the name, for pairs that `admits` lets in.  A session
    is closed at the end of its program, or when that has raised. -/
def racing (snapshot : Dict String MarketSnapshot)
    (resolvePair : String → Except Raised ResolvedPair) (name : String)
    (admits : NewPair → Prop) : MarketSystem where
  backend := marketBackend
  answers := fun _ e _ b _ =>
    match e, b with
    | .getUsdMarketSnapshot, answer => answer = .ok snapshot
    | .respond _, _ => True
  starts := fun _ i _ p => i ≠ 0 ∧ ∃ body resolved, resolvePair body.symbol = .ok resolved
    ∧ resolved.canonicalName = name ∧ admits (body.pair resolved)
    ∧ p = answered (createPair resolvePair body)
  execs := fun _ _ _ _ _ => True
  closes := fun _ _ p => p = .done () ∨ ∃ e, p = .fail e

/-- An INSERT of the name that meets a committed row of it, and the answer to a request. -/
inductive Note where
  | crossed (i : Nat)
  | answer (i : Nat) (a : Except HttpError Pair)

def notes (name : String) :
    Observer Database PairWrite Generated Memory Unit MemOp MarketOp Note := fun _ f i cmd =>
  match cmd with
  | .insert (.addPair new) =>
      if new.krakenPairName = name ∧ rowsOf f.db name ≠ [] then [.crossed i] else []
  | .ask (.respond a) => [.answer i a]
  | _ => []

/-- The columns take what is requested. -/
def Fitting (new : NewPair) : Prop := new.fits = true

/-- The columns take what the job stores of a snapshot, whatever it finds. -/
def Storable (settings : Settings) (snapshot : Dict String MarketSnapshot) : Prop :=
  ∀ e ∈ snapshot, fitsNumeric 24 2 e.2.notional24h = true
    ∧ (clearsFloor settings e.2 = true → (newPair settings e.2).fits = true)

section Race

variable {snapshot : Dict String MarketSnapshot}
  {resolvePair : String → Except Raised ResolvedPair} {name : String} {admits : NewPair → Prop}

/-- A request whose symbol is resolved. -/
theorem createPair_of_ok {body : CreatePairRequest} {resolved : ResolvedPair}
    (h : resolvePair body.symbol = .ok resolved) :
    createPair resolvePair body = trackPair (body.pair resolved) := by
  rw [createPair, h]

/-! ## Where a request stands -/

/-- Who has created the name: no request yet, one that is still open, one that has
    answered 201. -/
inductive Standing where
  | undecided
  | won (i : Nat)
  | announced

def Standing.wonBy : Standing → Nat → Bool
  | .won i, j => i == j
  | _, _ => false

/-- An open request between two of its statements: whether it has won, the rest of its
    program and what its session has written.  The SELECT that found nothing says nothing
    of the tables of now. -/
inductive Posting (name : String) (db : Database) (said : Prop) :
    Bool → MarketTx Unit → List (Generated × PairWrite) → Prop where
  | selecting (new : NewPair) (hnew : new.krakenPairName = name) (hfits : Fitting new) :
      Posting name db said false (answered (trackPair new)) []
  | inserting (new : NewPair) (hnew : new.krakenPairName = name) :
      Posting name db said false (answered (insertPair new >>= fun g =>
        Script.call .commit >>= fun _ => refreshPair g.id)) []
  | committing (g : Generated) (new : NewPair) (hnew : new.krakenPairName = name) :
      Posting name db said false
        (answered (Script.call .commit >>= fun _ => refreshPair g.id)) [(g, .addPair new)]
  | refreshing (pairId : Uuid) (hrow : (pairId, name) ∈ keysOf db) :
      Posting name db said true (answered (refreshPair pairId)) []
  | created (pair : Pair) (hname : pair.krakenPairName = name) (hrow : Tracked db name) :
      Posting name db said true (answered (pure (.ok pair))) []
  | refused (hrow : Tracked db name) :
      Posting name db said false (answered (pure (.error (conflict name)))) []
  | finished (hsaid : said) : Posting name db said false (.done ()) []

variable {settings : Settings} {db db' : Database} {said said' : Prop} {won : Bool}
  {p : MarketTx Unit} {log : List (Generated × PairWrite)}

theorem Posting.mono (h : Posting name db said won p log) (hsub : keysOf db ⊆ keysOf db')
    (hsaid : said → said') : Posting name db' said' won p log := by
  cases h with
  | selecting new hnew hfits => exact .selecting new hnew hfits
  | inserting new hnew => exact .inserting new hnew
  | committing g new hnew => exact .committing g new hnew
  | refreshing pairId hrow => exact .refreshing pairId (hsub hrow)
  | created pair hname hrow => exact .created pair hname (hrow.mono hsub)
  | refused hrow => exact .refused (hrow.mono hsub)
  | finished h => exact .finished (hsaid h)

/-- A request never raises by itself. -/
theorem Posting.ne_fail (h : Posting name db said won p log) (e : Raised) : p ≠ .fail e := by
  rintro rfl
  cases h

/-- The row that the key of a request finds is that of its name. -/
theorem find?_key {pairId : Uuid} (hkeys : UniqueKeys db) (h : (pairId, name) ∈ keysOf db) :
    ∃ pair, db.pairs.find? (fun p => p.id == pairId) = some pair ∧ pair.krakenPairName = name := by
  obtain ⟨p, hp, hkey⟩ := List.mem_map.mp h
  obtain ⟨rfl, rfl⟩ := Prod.mk.inj hkey
  have hids : (db.pairs.map fun p => p.id).Nodup := by
    rwa [UniqueKeys, keysOf, List.map_map] at hkeys
  refine ⟨p, ?_, rfl⟩
  rw [← List.head?_filter, filter_key hids hp]
  rfl

/-- What one command of a request does to the tables and to who has won, and what is
    noted down of it. -/
inductive Turn (name : String) (i : Nat) (f f' : MarketFrame) : Bool → Bool → List Note → Prop
    where
  | quiet (won : Bool) (hdb : f'.db = f.db) : Turn name i f f' won won []
  | wins (g : Generated) (new : NewPair) (hnew : new.krakenPairName = name)
      (hfree : ¬ Tracked f.db name) (hdb : f'.db = PairWrite.apply g (.addPair new) f.db) :
      Turn name i f f' false true []
  | announces (pair : Pair) (hname : pair.krakenPairName = name) (hrow : Tracked f.db name)
      (hdb : f'.db = f.db) : Turn name i f f' true false [.answer i (.ok pair)]
  | refuses (hrow : Tracked f.db name) (hdb : f'.db = f.db) :
      Turn name i f f' false false [.answer i (.error (conflict name))]

theorem notes_insert (f : MarketFrame) (i : Nat) (new : NewPair) :
    notes name _ f i (.insert (.addPair new))
      = if new.krakenPairName = name ∧ rowsOf f.db name ≠ [] then [.crossed i] else [] := rfl

/-- An INSERT of the name that is not noted down meets no committed row. -/
theorem free_of_uncrossed {f : MarketFrame} {i : Nat} {new : NewPair}
    (hcrossed : .crossed i ∉ notes name _ f i (.insert (.addPair new))) :
    (new.krakenPairName = name → rowsOf f.db name = [])
      ∧ notes name _ f i (.insert (.addPair new)) = [] := by
  rw [notes_insert] at hcrossed ⊢
  have hmeets : ¬ (new.krakenPairName = name ∧ rowsOf f.db name ≠ []) := by
    intro hmeets
    rw [if_pos hmeets] at hcrossed
    exact hcrossed (List.mem_singleton_self _)
  constructor
  · intro hnew
    by_contra hrow
    exact hmeets ⟨hnew, hrow⟩
  · exact if_neg hmeets

/-- An INSERT of a name that its session does not see goes through. -/
theorem inserted_of_free {f f' : MarketFrame} {i : Nat} {s : Session Generated PairWrite}
    {new : NewPair} {b : Option Generated} (hs : f.sessions i = some s)
    (hfree : rowsOf (marketBackend.replay f.db s.log) new.krakenPairName = [])
    (he : Effect (racing snapshot resolvePair name admits) i f _ (.insert (.addPair new)) b f') :
    ∃ g, b = some g ∧ f' = f.log i s (g, .addPair new) := by
  obtain ⟨s₀, hs₀, he⟩ := he
  obtain rfl := Option.some.inj (hs₀.symm.trans hs)
  cases b with
  | none =>
      obtain ⟨⟨g, hviolates⟩, -⟩ := he
      have hnone : marketBackend.violates g (.addPair new) (marketBackend.replay f.db s₀.log)
          = false := violates_addPair.mpr hfree
      cases hnone.symm.trans hviolates
  | some g =>
      obtain ⟨-, -, rfl⟩ := he
      exact ⟨g, rfl, rfl⟩

/-- One command of a request whose INSERT meets no committed row. -/
theorem Posting.exec {f f' : MarketFrame} {i : Nat} {s : Session Generated PairWrite} {β : Type}
    {cmd : Cmd Database PairWrite Generated MemOp MarketOp β} {k : β → MarketTx Unit} {b : β}
    (h : Posting name f.db said won p log) (hp : p = .step cmd k)
    (hs : f.sessions i = some s) (hlog : s.log = log) (hindexed : Indexed f)
    (he : Effect (racing snapshot resolvePair name admits) i f β cmd b f') (hkeys : UniqueKeys f'.db)
    (hcrossed : .crossed i ∉ notes name β f i cmd) :
    ∃ s' won', f'.sessions i = some s'
      ∧ Posting name f'.db (said ∨ ∃ a, .answer i a ∈ notes name β f i cmd) won' (k b) s'.log
      ∧ Turn name i f f' won won' (notes name β f i cmd) := by
  obtain ⟨s₀, hs₀, he⟩ := he
  obtain rfl := Option.some.inj (hs₀.symm.trans hs)
  cases h with
  | selecting new hnew hfits =>
      cases hp
      obtain ⟨hb, rfl⟩ := he
      refine ⟨s₀, false, hs, ?_, .quiet false rfl⟩
      rw [hlog, Backend.replay_nil] at hb
      rw [hlog]
      cases b with
      | none =>
          show Posting name f'.db _ false (answered (commitPair new)) []
          rw [commitPair, addPair_of_fits hfits]
          exact .inserting new hnew
      | some pair =>
          have hfound : (pair.krakenPairName == new.krakenPairName) = true :=
            List.find?_some (p := fun p : Pair => p.krakenPairName == new.krakenPairName) hb.symm
          have hrow : Tracked f'.db name :=
            tracked_iff.mpr ⟨pair, List.mem_of_find?_eq_some hb.symm,
              (beq_iff_eq.mp hfound).trans hnew⟩
          subst hnew
          exact .refused hrow
  | inserting new hnew =>
      cases hp
      obtain ⟨hmeets, hnote⟩ := free_of_uncrossed hcrossed
      -- The committed tables do not have the name, and the session has written nothing.
      have hfree : rowsOf (marketBackend.replay f.db s₀.log) new.krakenPairName = [] := by
        rw [hlog, Backend.replay_nil, hnew]
        exact hmeets hnew
      obtain ⟨g, rfl, rfl⟩ := inserted_of_free hs hfree ⟨s₀, hs, he⟩
      rw [hnote]
      refine ⟨_, false, f.put_self i _, ?_, .quiet false rfl⟩
      show Posting name f.db _ false _ (s₀.log ++ [(g, .addPair new)])
      rw [hlog]
      exact .committing g new hnew
  | committing g new hnew =>
      cases hp
      obtain rfl := he
      have hview := hindexed.views i s₀ hs
      rw [hlog] at hview
      have hdb : (f.commit marketBackend i s₀).db = PairWrite.apply g (.addPair new) f.db := by
        show marketBackend.replay f.db s₀.log = _
        rw [hlog]
        rfl
      have hrow : (g.id, name) ∈ keysOf (f.commit marketBackend i s₀).db := by
        rw [hdb, keysOf_apply (g, .addPair new), ← hnew]
        exact List.mem_append_right _ (List.mem_singleton_self _)
      refine ⟨_, true, f.put_self i _, .refreshing g.id hrow, .wins g new hnew ?_ hdb⟩
      rw [← hnew]
      exact (uniqueNames_replay.mp hview).2.2 _ List.mem_cons_self
  | refreshing pairId hrow =>
      cases hp
      obtain ⟨hb, rfl⟩ := he
      refine ⟨s₀, true, hs, ?_, .quiet true rfl⟩
      obtain ⟨pair, hfind, hname⟩ := find?_key hkeys hrow
      rw [hlog, Backend.replay_nil] at hb
      obtain rfl := hb.trans hfind
      rw [hlog]
      exact .created pair hname (.of_mem hrow)
  | created pair hname hrow =>
      cases hp
      obtain ⟨x, -, rfl⟩ := he
      refine ⟨s₀, false, hs, ?_, .announces pair hname hrow rfl⟩
      rw [hlog]
      exact .finished (Or.inr ⟨_, List.mem_singleton_self _⟩)
  | refused hrow =>
      cases hp
      obtain ⟨x, -, rfl⟩ := he
      refine ⟨s₀, false, hs, ?_, .refuses hrow rfl⟩
      rw [hlog]
      exact .finished (Or.inr ⟨_, List.mem_singleton_self _⟩)
  | finished hsaid => cases hp

/-! ## Where the job stands -/

/-- What the job makes of the tables of its start, the name aside. -/
structure Discovered (settings : Settings) (snapshot : Dict String MarketSnapshot) (name : String)
    (db₀ db : Database) : Prop where
  visited : ∀ e ∈ snapshot, e.1 ≠ name → Visited settings e.2 (rowsOf db₀ e.1) (rowsOf db e.1)
  others : ∀ other, other ∉ Dict.keys snapshot → other ≠ name → rowsOf db other = rowsOf db₀ other

/-- What the session of the job sees after the markets `seen`: they are visited, and the
    rows of those to come are as they were loaded. -/
structure Kept (settings : Settings) (name : String) (db₀ view : Database)
    (existing : Dict String Pair) (seen rest : Dict String MarketSnapshot) : Prop where
  loaded : ∀ e ∈ rest, ∀ p, Dict.get? existing e.1 = some p → p ∈ rowsOf view e.1
  discovered : Discovered settings seen name db₀ view

/-- The job in its loop.  `absent`: what its SELECT did not find was not there at its
    start.  `base`: the requests leave all other names alone. -/
structure Visiting (settings : Settings) (snapshot : Dict String MarketSnapshot) (name : String)
    (db₀ db : Database) (log : List (Generated × PairWrite)) (existing : Dict String Pair)
    (seen rest : Dict String MarketSnapshot) : Prop where
  split : snapshot = seen ++ rest
  added : ∀ e ∈ log.filterMap addedKey, e.2 ∈ Dict.keys seen
  base : ∀ other, other ≠ name → rowsOf db other = rowsOf db₀ other
  absent : ∀ e ∈ rest, e.1 ≠ name → Dict.get? existing e.1 = none → rowsOf db₀ e.1 = []
  kept : UniqueKeys (marketBackend.replay db log) →
    Kept settings name db₀ (marketBackend.replay db log) existing seen rest

/-- The job after its provider has answered. -/
def selecting (settings : Settings) (snapshot : Dict String MarketSnapshot) : MarketTx Unit :=
  Script.call (.query fun db => existingByName db (Dict.keys snapshot)) >>= fun existing =>
    visitMarkets settings existing snapshot >>= fun _ => Script.call .commit

/-- The job in the rest of its loop. -/
def visiting (settings : Settings) (existing : Dict String Pair)
    (rest : Dict String MarketSnapshot) : MarketTx Unit :=
  visitMarkets settings existing rest >>= fun _ => Script.call .commit

/-- The job before its commit. -/
inductive Working (settings : Settings) (snapshot : Dict String MarketSnapshot) (name : String)
    (db₀ db : Database) : MarketTx Unit → List (Generated × PairWrite) → Prop where
  | asking (base : ∀ other, other ≠ name → rowsOf db other = rowsOf db₀ other) :
      Working settings snapshot name db₀ db (runDiscovery settings) []
  | selecting (base : ∀ other, other ≠ name → rowsOf db other = rowsOf db₀ other) :
      Working settings snapshot name db₀ db (selecting settings snapshot) []
  | visiting {log : List (Generated × PairWrite)} (existing : Dict String Pair)
      (seen rest : Dict String MarketSnapshot)
      (h : Visiting settings snapshot name db₀ db log existing seen rest) :
      Working settings snapshot name db₀ db (visiting settings existing rest) log

variable {db₀ view view' : Database} {existing : Dict String Pair}
  {seen rest : Dict String MarketSnapshot} {entry : String × MarketSnapshot}

/-- One more market. -/
theorem Kept.next (h : Kept settings name db₀ view existing seen (entry :: rest))
    (hnodup : (Dict.keys (seen ++ entry :: rest)).Nodup)
    (hothers : ∀ other, other ≠ entry.1 → rowsOf view' other = rowsOf view other)
    (hvisited : entry.1 ≠ name →
      Visited settings entry.2 (rowsOf view entry.1) (rowsOf view' entry.1)) :
    Kept settings name db₀ view' existing (seen ++ [entry]) rest := by
  have hkeys : (Dict.keys seen ++ entry.1 :: Dict.keys rest).Nodup := by
    rwa [Dict.keys, List.map_append] at hnodup
  obtain ⟨-, hrest, hdisjoint⟩ := List.nodup_append'.mp hkeys
  have hfresh : entry.1 ∉ Dict.keys seen := fun hmem => hdisjoint hmem List.mem_cons_self
  refine ⟨?_, ⟨?_, ?_⟩⟩
  · intro e he p hp
    have hne : e.1 ≠ entry.1 := by
      intro heq
      exact (List.nodup_cons.mp hrest).1 (heq ▸ List.mem_map_of_mem he)
    rw [hothers e.1 hne]
    exact h.loaded e (List.mem_cons_of_mem _ he) p hp
  · intro e he hname
    rcases List.mem_append.mp he with hold | hnew
    · have hne : e.1 ≠ entry.1 := fun heq => hfresh (heq ▸ List.mem_map_of_mem hold)
      rw [hothers e.1 hne]
      exact h.discovered.visited e hold hname
    · obtain rfl := List.mem_singleton.mp hnew
      rw [← h.discovered.others e.1 hfresh hname]
      exact hvisited hname
  · intro other hother hname
    rw [Dict.keys, List.map_append, List.mem_append, not_or] at hother
    obtain ⟨hseen, hne⟩ := hother
    rw [hothers other (fun heq => hne (heq ▸ List.mem_singleton_self _))]
    exact h.discovered.others other hseen hname

/-- A row of the name that another session commits. -/
theorem Discovered.grow (h : Discovered settings seen name db₀ view)
    (hothers : ∀ other, other ≠ name → rowsOf view' other = rowsOf view other) :
    Discovered settings seen name db₀ view' where
  visited := by
    intro e he hname
    rw [hothers e.1 hname]
    exact h.visited e he hname
  others := by
    intro other hother hname
    rw [hothers other hname]
    exact h.others other hother hname

/-- A request that commits its row leaves the job where it stands. -/
theorem Working.grow (h : Working settings snapshot name db₀ db p log) (g : Generated)
    {new : NewPair} (hnew : new.krakenPairName = name) :
    Working settings snapshot name db₀ (PairWrite.apply g (.addPair new) db) p log := by
  have hrows : ∀ other, other ≠ name →
      rowsOf (PairWrite.apply g (.addPair new) db) other = rowsOf db other := by
    intro other hne
    rw [rowsOf_addPair, if_neg (fun heq => hne (heq.symm.trans hnew))]
  cases h with
  | asking base => exact .asking (fun other hne => (hrows other hne).trans (base other hne))
  | selecting base => exact .selecting (fun other hne => (hrows other hne).trans (base other hne))
  | visiting existing seen rest h =>
      refine .visiting existing seen rest
        ⟨h.split, h.added, fun other hne => (hrows other hne).trans (h.base other hne), h.absent, ?_⟩
      intro hunique
      have hsub := @mem_replay_mono db (PairWrite.apply g (.addPair new) db)
        (List.subset_append_left _ _) log
      have hkeys : UniqueKeys (marketBackend.replay db log) := by
        rw [UniqueKeys, keysOf_replay, keysOf_apply (g, .addPair new), List.append_assoc,
          List.map_append, List.map_append, List.nodup_append'] at hunique
        rw [UniqueKeys, keysOf_replay, List.map_append]
        obtain ⟨hdb, hadded, hdisjoint⟩ := hunique
        refine List.nodup_append'.mpr ⟨hdb, (List.nodup_append'.mp hadded).2.1, ?_⟩
        exact fun k hk hk' => hdisjoint hk (List.mem_append_right _ hk')
      obtain ⟨hloaded, hdiscovered⟩ := h.kept hkeys
      refine ⟨?_, hdiscovered.grow (fun other hne => rowsOf_replay_congr (hrows other hne) log)⟩
      intro e he p hp
      obtain ⟨hmem, hname⟩ := mem_rowsOf.mp (hloaded e he p hp)
      exact mem_rowsOf.mpr ⟨hsub hmem, hname⟩

/-- What one command of the job does. -/
inductive Worked (settings : Settings) (snapshot : Dict String MarketSnapshot) (name : String)
    (db₀ : Database) (f f' : MarketFrame) (p : MarketTx Unit) : Prop where
  | goes (s : Session Generated PairWrite) (hs : f'.sessions 0 = some s) (hdb : f'.db = f.db)
      (h : Working settings snapshot name db₀ f'.db p s.log) :
      Worked settings snapshot name db₀ f f' p
  | commits (hsub : keysOf f.db ⊆ keysOf f'.db) (hp : p = .done ())
      (h : Discovered settings snapshot name db₀ f'.db) : Worked settings snapshot name db₀ f f' p

/-- The next market is visited. -/
theorem Visiting.next {log' : List (Generated × PairWrite)}
    (h : Visiting settings snapshot name db₀ db log existing seen (entry :: rest))
    (hadded : ∀ e ∈ log'.filterMap addedKey, e ∈ log.filterMap addedKey ∨ e.2 = entry.1)
    (hkept : UniqueKeys (marketBackend.replay db log') →
      Kept settings name db₀ (marketBackend.replay db log') existing (seen ++ [entry]) rest) :
    Visiting settings snapshot name db₀ db log' existing (seen ++ [entry]) rest where
  split := by rw [h.split, List.append_assoc, List.singleton_append]
  added := by
    intro e he
    rw [Dict.keys, List.map_append]
    rcases hadded e he with hold | hnew
    · exact List.mem_append_left _ (h.added e hold)
    · exact List.mem_append_right _ (hnew ▸ List.mem_singleton_self _)
  base := h.base
  absent := fun e he => h.absent e (List.mem_cons_of_mem _ he)
  kept := hkept

/-- A market without a row, below the floor. -/
theorem Visiting.skip (h : Visiting settings snapshot name db₀ db log existing seen (entry :: rest))
    (hnodup : (Dict.keys snapshot).Nodup) (hget : Dict.get? existing entry.1 = none)
    (hclears : clearsFloor settings entry.2 = false) :
    Visiting settings snapshot name db₀ db log existing (seen ++ [entry]) rest := by
  have hkeys : (Dict.keys (seen ++ entry :: rest)).Nodup := h.split ▸ hnodup
  refine h.next (fun e he => Or.inl he) ?_
  intro hunique
  have hkept := h.kept hunique
  refine hkept.next hkeys (fun _ _ => rfl) ?_
  intro hname
  refine visited_ignored ?_ hclears
  rw [hkept.discovered.others entry.1 ?_ hname]
  · exact h.absent entry List.mem_cons_self hname hget
  · intro hmem
    rw [Dict.keys, List.map_append] at hkeys
    exact (List.nodup_append'.mp hkeys).2.2 hmem List.mem_cons_self

/-- No committed row and no INSERT of this session has the name of a market to come. -/
theorem Visiting.free (h : Visiting settings snapshot name db₀ db log existing seen (entry :: rest))
    (hnodup : (Dict.keys snapshot).Nodup) (hget : Dict.get? existing entry.1 = none)
    (hname : entry.1 = name → rowsOf db name = []) :
    rowsOf (marketBackend.replay db log) entry.1 = [] := by
  have hkeys : (Dict.keys seen ++ entry.1 :: Dict.keys rest).Nodup := by
    rw [h.split, Dict.keys, List.map_append] at hnodup
    exact hnodup
  have hdb : rowsOf db entry.1 = [] := by
    by_cases heq : entry.1 = name
    · rw [heq]
      exact hname heq
    · rw [h.base entry.1 heq]
      exact h.absent entry List.mem_cons_self heq hget
  refine not_tracked_iff.mp ?_
  intro htracked
  rw [Tracked, keysOf_replay, List.map_append] at htracked
  rcases List.mem_append.mp htracked with hold | hnew
  · exact not_tracked_iff.mpr hdb hold
  · obtain ⟨e, he, heq⟩ := List.mem_map.mp hnew
    exact (List.nodup_append'.mp hkeys).2.2 (heq ▸ h.added e he) List.mem_cons_self

/-- A market without a row, above the floor. -/
theorem Visiting.insert
    (h : Visiting settings snapshot name db₀ db log existing seen (entry :: rest))
    (hnodup : (Dict.keys snapshot).Nodup) (hcanonical : entry.2.canonicalName = entry.1)
    (hclears : clearsFloor settings entry.2 = true) (g : Generated)
    (hfree : rowsOf (marketBackend.replay db log) entry.1 = []) :
    Visiting settings snapshot name db₀ db (log ++ [(g, .addPair (newPair settings entry.2))])
      existing (seen ++ [entry]) rest := by
  refine h.next ?_ ?_
  · intro e he
    rw [List.filterMap_append] at he
    rcases List.mem_append.mp he with hold | hnew
    · exact Or.inl hold
    · rw [List.mem_singleton.mp hnew]
      exact Or.inr hcanonical
  · intro hunique
    rw [Backend.replay_concat] at hunique ⊢
    have hkept := h.kept (@UniqueKeys.of_replay _ [(g, .addPair (newPair settings entry.2))]
      hunique)
    refine hkept.next (h.split ▸ hnodup) ?_ ?_
    · intro other hne
      show rowsOf (PairWrite.apply g (.addPair (newPair settings entry.2)) _) other = _
      rw [rowsOf_addPair, newPair_krakenPairName, hcanonical, if_neg (Ne.symm hne)]
    · intro _
      rw [← hcanonical] at hfree ⊢
      exact visited_addPair g hfree hclears

/-- A market with a row. -/
theorem Visiting.update
    (h : Visiting settings snapshot name db₀ db log existing seen (entry :: rest))
    (hnodup : (Dict.keys snapshot).Nodup) {pair : Pair}
    (hget : Dict.get? existing entry.1 = some pair) (g : Generated)
    (hnames : UniqueNames (marketBackend.replay db log)) :
    Visiting settings snapshot name db₀ db
      (log ++ [(g, .setPairMarket pair.id entry.2.notional24h
        (assigned settings entry.2 pair.isActive))]) existing (seen ++ [entry]) rest := by
  refine h.next ?_ ?_
  · intro e he
    rw [List.filterMap_append] at he
    rcases List.mem_append.mp he with hold | hnew
    · exact Or.inl hold
    · cases hnew
  · intro hunique
    rw [Backend.replay_concat] at hunique ⊢
    have hkeys : UniqueKeys (marketBackend.replay db log) := @UniqueKeys.of_replay _
      [(g, .setPairMarket pair.id entry.2.notional24h _)] hunique
    have hkeyed : Keyed (marketBackend.replay db log) := keyed_iff.mpr ⟨hkeys, hnames⟩
    have hkept := h.kept hkeys
    have hpair := hkept.loaded entry List.mem_cons_self pair hget
    refine hkept.next (h.split ▸ hnodup) ?_ (fun _ => visited_setPairMarket hkeyed g hpair)
    intro other hne
    show rowsOf (PairWrite.apply g (.setPairMarket pair.id _ _) _) other = _
    rw [rowsOf_setPairMarket hkeyed g (mem_rowsOf.mp hpair).1, (mem_rowsOf.mp hpair).2,
      if_neg (Ne.symm hne)]

/-- A snapshot is keyed by canonical name. -/
def Canonical (snapshot : Dict String MarketSnapshot) : Prop :=
  (Dict.keys snapshot).Nodup ∧ ∀ e ∈ snapshot, e.2.canonicalName = e.1

section Exec

variable {f f' : MarketFrame} {s : Session Generated PairWrite} {β : Type}
  {cmd : Cmd Database PairWrite Generated MemOp MarketOp β} {k : β → MarketTx Unit} {b : β}

/-- One command of the loop, whose INSERT of the name meets no committed row. -/
theorem Visiting.exec (hsnapshot : Canonical snapshot) (hstorable : Storable settings snapshot)
    (h : Visiting settings snapshot name db₀ f.db log existing seen rest)
    (hp : visiting settings existing rest = .step cmd k) (hs : f.sessions 0 = some s)
    (hlog : s.log = log) (hindexed : Indexed f)
    (he : Effect (racing snapshot resolvePair name admits) 0 f β cmd b f') (hkeys : UniqueKeys f'.db)
    (hcrossed : .crossed 0 ∉ notes name β f 0 cmd) :
    Worked settings snapshot name db₀ f f' (k b) ∧ notes name β f 0 cmd = [] := by
  -- On the markets that are left: one below the floor costs no statement, so the next
  -- statement may be that of a later market, or the commit.
  induction rest generalizing seen with
  | nil =>
      cases hp
      obtain ⟨s₀, hs₀, rfl⟩ := he
      obtain rfl := Option.some.inj (hs₀.symm.trans hs)
      refine ⟨.commits ?_ rfl ?_, rfl⟩
      · show keysOf f.db ⊆ keysOf (marketBackend.replay f.db s₀.log)
        rw [keysOf_replay]
        exact List.subset_append_left _ _
      · have hkept := h.kept (hlog ▸ hkeys)
        have hsplit := h.split
        rw [List.append_nil] at hsplit
        show Discovered settings snapshot name db₀ (marketBackend.replay f.db s₀.log)
        rw [hlog, hsplit]
        exact hkept.discovered
  | cons entry rest ih =>
      have hentry : entry ∈ snapshot := by
        rw [h.split]
        exact List.mem_append_right _ List.mem_cons_self
      obtain ⟨hnotional, hfits⟩ := hstorable entry hentry
      cases hget : Dict.get? existing entry.1 with
      | none =>
          cases hclears : clearsFloor settings entry.2 with
          | false =>
              refine ih (h.skip hsnapshot.1 hget hclears) ?_
              rw [← hp, visiting, visiting, visitMarkets, visitMarket, hget, hclears]
              rfl
          | true =>
              have hname := hsnapshot.2 entry hentry
              rw [visiting, visitMarkets, visitMarket, hget, hclears,
                addPair_of_fits (hfits hclears)] at hp
              cases hp
              obtain ⟨hmeets, hnote⟩ := free_of_uncrossed hcrossed
              have hfree := h.free hsnapshot.1 hget (fun heq => hmeets (hname.trans heq))
              have hseen : rowsOf (marketBackend.replay f.db s.log)
                  (newPair settings entry.2).krakenPairName = [] := by
                rw [newPair_krakenPairName, hname, hlog]
                exact hfree
              obtain ⟨g, rfl, rfl⟩ := inserted_of_free hs hseen he
              refine ⟨.goes _ (f.put_self 0 _) rfl ?_, hnote⟩
              show Working settings snapshot name db₀ f.db _ (s.log ++ [_])
              rw [hlog]
              exact .visiting existing (seen ++ [entry]) rest
                (h.insert hsnapshot.1 hname hclears g hfree)
      | some pair =>
          simp only [visiting, visitMarkets, visitMarket, hget, updatePair_of_fits hnotional] at hp
          cases hp
          obtain ⟨s₀, hs₀, g, -, rfl⟩ := he
          obtain rfl := Option.some.inj (hs₀.symm.trans hs)
          have hnames := hindexed.views 0 s₀ hs
          rw [hlog] at hnames
          refine ⟨.goes _ (f.put_self 0 _) rfl ?_, rfl⟩
          show Working settings snapshot name db₀ f.db _ (s₀.log ++ [_])
          rw [hlog]
          exact .visiting existing (seen ++ [entry]) rest (h.update hsnapshot.1 hget g hnames)

/-- What the SELECT of the job loads. -/
theorem visiting_of_select {existing : Dict String Pair} (hk : Keyed db)
    (base : ∀ other, other ≠ name → rowsOf db other = rowsOf db₀ other)
    (hexisting : existing = existingByName db (Dict.keys snapshot)) :
    Visiting settings snapshot name db₀ db [] existing [] snapshot where
  split := rfl
  added := fun e he => absurd he List.not_mem_nil
  base := base
  absent := by
    intro e he hne hnone
    rw [← base e.1 hne]
    refine List.eq_nil_iff_forall_not_mem.mpr ?_
    intro p hp
    have hget : Dict.get? (existingByName db (Dict.keys snapshot)) e.1 = some p :=
      (get?_existingByName hk (List.mem_map_of_mem he) p).mpr hp
    rw [← hexisting, hnone] at hget
    cases hget
  kept := by
    intro hkeys
    refine ⟨?_, ⟨fun e he => absurd he List.not_mem_nil, fun other _ hne => base other hne⟩⟩
    intro e he p hp
    rw [hexisting] at hp
    exact (get?_existingByName hk (List.mem_map_of_mem he) p).mp hp

/-- One command of the job. -/
theorem Working.exec (hsnapshot : Canonical snapshot) (hstorable : Storable settings snapshot)
    (h : Working settings snapshot name db₀ f.db p log) (hp : p = .step cmd k)
    (hs : f.sessions 0 = some s) (hlog : s.log = log) (hindexed : Indexed f)
    (he : Effect (racing snapshot resolvePair name admits) 0 f β cmd b f') (hkeys : UniqueKeys f'.db)
    (hcrossed : .crossed 0 ∉ notes name β f 0 cmd) :
    Worked settings snapshot name db₀ f f' (k b) ∧ notes name β f 0 cmd = [] := by
  cases h with
  | asking base =>
      cases hp
      obtain ⟨s₀, hs₀, x, hanswer, rfl⟩ := he
      obtain rfl := Option.some.inj (hs₀.symm.trans hs)
      obtain rfl : b = .ok snapshot := hanswer
      refine ⟨.goes s₀ hs rfl ?_, rfl⟩
      rw [hlog]
      exact .selecting base
  | selecting base =>
      cases hp
      obtain ⟨s₀, hs₀, hb, rfl⟩ := he
      obtain rfl := Option.some.inj (hs₀.symm.trans hs)
      rw [hlog, Backend.replay_nil] at hb
      refine ⟨.goes s₀ hs rfl ?_, rfl⟩
      rw [hlog]
      exact .visiting b [] snapshot
        (visiting_of_select (keyed_iff.mpr ⟨hkeys, hindexed.names⟩) base hb)
  | visiting existing seen rest h =>
      exact h.exec hsnapshot hstorable hp hs hlog hindexed he hkeys hcrossed

end Exec

/-! ## Whole runs -/

/-- The answers to requests. -/
def answers (xs : List Note) : List (Except HttpError Pair) :=
  xs.filterMap fun x =>
    match x with
    | .answer _ a => some a
    | .crossed _ => none

/-- The pairs of the answers 201. -/
def createdPairs (xs : List Note) : List Pair := (answers xs).filterMap Except.toOption

/-- Who has created the name, by the tables, the open requests and the answers. -/
def Counted (name : String) (c : MarketThreads) (xs : List Note) : Standing → Prop
  | .undecided => createdPairs xs = []
  | .won i => createdPairs xs = [] ∧ Tracked c.frame.db name ∧ i ≠ 0 ∧ c.frame.sessions i ≠ none
  | .announced => (createdPairs xs).length = 1 ∧ Tracked c.frame.db name

/-- The state of a run: `standing` says who has created the name, every open request and
    the job stand somewhere in their programs, and every answer so far was one of the two. -/
structure Underway (settings : Settings) (snapshot : Dict String MarketSnapshot) (name : String)
    (db₀ : Database) (standing : Standing) (xs : List Note) (c : MarketThreads) : Prop where
  counted : Counted name c xs standing
  posts : ∀ i s, i ≠ 0 → c.frame.sessions i = some s →
    Posting name c.frame.db (∃ a, .answer i a ∈ xs) (standing.wonBy i) (c.prog i) s.log
  job : (∃ s, c.frame.sessions 0 = some s
      ∧ Working settings snapshot name db₀ c.frame.db (c.prog 0) s.log)
    ∨ (c.prog 0 = .done () ∧ Discovered settings snapshot name db₀ c.frame.db)
  said : ∀ a ∈ answers xs, Tracked c.frame.db name
    ∧ ((∃ pair, a = .ok pair ∧ pair.krakenPairName = name) ∨ a = .error (conflict name))

/-- The job commits at its end, if the columns take what it stores. -/
theorem visiting_eq_step (existing : Dict String Pair) (hstorable : Storable settings rest) :
    ∃ (β : Type) (cmd : Cmd Database PairWrite Generated MemOp MarketOp β) (k : β → MarketTx Unit),
      visiting settings existing rest = .step cmd k := by
  induction rest with
  | nil => exact ⟨_, _, _, rfl⟩
  | cons entry rest ih =>
      obtain ⟨hnotional, hfits⟩ := hstorable entry List.mem_cons_self
      rw [visiting, visitMarkets, visitMarket]
      cases hget : Dict.get? existing entry.1 with
      | some pair =>
          simp only [updatePair_of_fits hnotional]
          exact ⟨_, _, _, rfl⟩
      | none =>
          cases hclears : clearsFloor settings entry.2 with
          | true =>
              rw [addPair_of_fits (hfits hclears)]
              exact ⟨_, _, _, rfl⟩
          | false => exact ih (fun e he => hstorable e (List.mem_cons_of_mem _ he))

theorem Working.eq_step (hstorable : Storable settings snapshot)
    (h : Working settings snapshot name db₀ db p log) :
    ∃ (β : Type) (cmd : Cmd Database PairWrite Generated MemOp MarketOp β) (k : β → MarketTx Unit),
      p = .step cmd k := by
  cases h with
  | asking base => exact ⟨_, _, _, rfl⟩
  | selecting base => exact ⟨_, _, _, rfl⟩
  | visiting existing seen rest h =>
      refine visiting_eq_step existing (fun e he => hstorable e ?_)
      rw [h.split]
      exact List.mem_append_right _ he

theorem answers_append (xs ys : List Note) : answers (xs ++ ys) = answers xs ++ answers ys :=
  List.filterMap_append

theorem createdPairs_append (xs ys : List Note) :
    createdPairs (xs ++ ys) = createdPairs xs ++ createdPairs ys := by
  rw [createdPairs, answers_append, List.filterMap_append]
  rfl

theorem Standing.eq_won {standing : Standing} {i : Nat} (h : standing.wonBy i = true) :
    standing = .won i := by
  cases standing with
  | undecided => cases h
  | won j => rw [beq_iff_eq.mp h]
  | announced => cases h

theorem Counted.not_won {standing : Standing} {c : MarketThreads} {xs : List Note} {i : Nat}
    (h : Counted name c xs standing) (hi : c.frame.sessions i = none) :
    standing.wonBy i = false := by
  refine Bool.eq_false_iff.mpr ?_
  intro hwon
  obtain rfl := Standing.eq_won hwon
  exact h.2.2.2 hi

/-- Where the name is not there, nobody has created it. -/
theorem Counted.undecided {standing : Standing} {c : MarketThreads} {xs : List Note}
    (h : Counted name c xs standing) (hfree : ¬ Tracked c.frame.db name) :
    standing = .undecided := by
  cases standing with
  | undecided => rfl
  | won j => exact absurd h.2.1 hfree
  | announced => exact absurd h.2 hfree

/-- What leaves the rows, the open requests and the answers 201 leaves who has created the
    name. -/
theorem Counted.mono {standing : Standing} {c c' : MarketThreads} {xs xs' : List Note}
    (h : Counted name c xs standing) (hsub : keysOf c.frame.db ⊆ keysOf c'.frame.db)
    (hopen : ∀ j, standing = .won j → c.frame.sessions j ≠ none → c'.frame.sessions j ≠ none)
    (hxs : createdPairs xs' = createdPairs xs) : Counted name c' xs' standing := by
  cases standing with
  | undecided => exact hxs.trans h
  | won j => exact ⟨hxs.trans h.1, h.2.1.mono hsub, h.2.2.1, hopen j rfl h.2.2.2⟩
  | announced => exact ⟨(congrArg List.length hxs).trans h.1, h.2.mono hsub⟩

section Steps

variable {standing standing' : Standing} {xs ys : List Note} {c c' : MarketThreads} {i : Nat}
  {f' : MarketFrame} {p' : MarketTx Unit} {s' : Session Generated PairWrite}

/-- The state after one command of a request: the job and the other requests stand where
    they stood. -/
theorem Underway.post (h : Underway settings snapshot name db₀ standing xs c) (hi : i ≠ 0)
    (hsessions : ∀ j, j ≠ i → f'.sessions j = c.frame.sessions j)
    (hs' : f'.sessions i = some s')
    (hdb : f'.db = c.frame.db ∨ ∃ g new, new.krakenPairName = name
      ∧ f'.db = PairWrite.apply g (.addPair new) c.frame.db)
    (hmine : Posting name f'.db (∃ a, .answer i a ∈ xs ++ ys) (standing'.wonBy i) p' s'.log)
    (hcounted : Counted name ⟨f', Function.update c.prog i p'⟩ (xs ++ ys) standing')
    (hwon : ∀ j, j ≠ i → standing'.wonBy j = standing.wonBy j)
    (hsaid : ∀ a ∈ answers ys, Tracked f'.db name
      ∧ ((∃ pair, a = .ok pair ∧ pair.krakenPairName = name) ∨ a = .error (conflict name))) :
    Underway settings snapshot name db₀ standing' (xs ++ ys)
      ⟨f', Function.update c.prog i p'⟩ := by
  have hsub : keysOf c.frame.db ⊆ keysOf f'.db := by
    rcases hdb with hdb | ⟨g, new, -, hdb⟩
    · rw [hdb]
      exact List.Subset.refl _
    · rw [hdb, keysOf_apply (g, .addPair new)]
      exact List.subset_append_left _ _
  refine ⟨hcounted, ?_, ?_, ?_⟩
  · intro j s hj hs
    by_cases hji : j = i
    · subst hji
      obtain rfl := Option.some.inj (hs'.symm.trans hs)
      show Posting name f'.db _ _ (Function.update c.prog j p' j) _
      rw [Function.update_self]
      exact hmine
    · show Posting name f'.db _ _ (Function.update c.prog i p' j) _
      rw [Function.update_of_ne hji, hwon j hji]
      refine (h.posts j s hj ((hsessions j hji).symm.trans hs)).mono hsub ?_
      exact fun ⟨a, ha⟩ => ⟨a, List.mem_append_left _ ha⟩
  · show (∃ s, f'.sessions 0 = some s ∧ Working settings snapshot name db₀ f'.db
        (Function.update c.prog i p' 0) s.log)
      ∨ (Function.update c.prog i p' 0 = .done () ∧ Discovered settings snapshot name db₀ f'.db)
    rw [Function.update_of_ne (Ne.symm hi)]
    rcases h.job with ⟨s, hs, hworking⟩ | ⟨hdone, hdiscovered⟩
    · refine Or.inl ⟨s, (hsessions 0 (Ne.symm hi)).trans hs, ?_⟩
      rcases hdb with hdb | ⟨g, new, hnew, hdb⟩
      · rw [hdb]
        exact hworking
      · rw [hdb]
        exact hworking.grow g hnew
    · refine Or.inr ⟨hdone, ?_⟩
      rcases hdb with hdb | ⟨g, new, hnew, hdb⟩
      · rw [hdb]
        exact hdiscovered
      · refine hdiscovered.grow ?_
        intro other hne
        rw [hdb, rowsOf_addPair, if_neg (fun heq => hne (heq.symm.trans hnew))]
  · intro a ha
    rw [answers_append] at ha
    rcases List.mem_append.mp ha with hold | hnew
    · exact ⟨(h.said a hold).1.mono hsub, (h.said a hold).2⟩
    · exact hsaid a hnew

variable {β : Type} {cmd : Cmd Database PairWrite Generated MemOp MarketOp β}
  {k : β → MarketTx Unit} {b : β}

/-- One command of a request. -/
theorem Underway.exec_post (h : Underway settings snapshot name db₀ standing xs c)
    (hindexed : Indexed c.frame) (hi : i ≠ 0) (hp : c.prog i = .step cmd k)
    (he : Effect (racing snapshot resolvePair name admits) i c.frame β cmd b f')
    (hkeys : UniqueKeys f'.db) (hcrossed : .crossed i ∉ notes name β c.frame i cmd) :
    ∃ standing', Underway settings snapshot name db₀ standing' (xs ++ notes name β c.frame i cmd)
      ⟨f', Function.update c.prog i (k b)⟩ := by
  obtain ⟨s, hs, -⟩ := he.frame_cases
  obtain ⟨s', won', hs', hposting, hturn⟩ :=
    (h.posts i s hi hs).exec hp hs rfl hindexed he hkeys hcrossed
  have hothers : ∀ j, j ≠ i → f'.sessions j = c.frame.sessions j :=
    fun j hj => he.sessions_of_ne hj
  have hopen : f'.sessions i ≠ none := by
    rw [hs']
    exact Option.some_ne_none s'
  have hsaid : (∃ a, Note.answer i a ∈ xs) ∨ (∃ a, .answer i a ∈ notes name β c.frame i cmd) →
      ∃ a, .answer i a ∈ xs ++ notes name β c.frame i cmd := by
    rintro (⟨a, ha⟩ | ⟨a, ha⟩)
    · exact ⟨a, List.mem_append_left _ ha⟩
    · exact ⟨a, List.mem_append_right _ ha⟩
  have hstay : ∀ j, standing = .won j → c.frame.sessions j ≠ none → f'.sessions j ≠ none := by
    intro j _ hj
    by_cases hji : j = i
    · rw [hji]
      exact hopen
    · rwa [hothers j hji]
  have hcounted := h.counted
  generalize hwas : standing.wonBy i = was at hturn
  generalize hys : notes name β c.frame i cmd = ys at hturn hposting hsaid ⊢
  cases hturn with
  | quiet _ hdb =>
      refine ⟨standing, h.post hi hothers hs' (Or.inl hdb)
        (hwas ▸ hposting.mono (List.Subset.refl _) hsaid) ?_ (fun _ _ => rfl) ?_⟩
      · rw [List.append_nil]
        exact hcounted.mono (hdb ▸ List.Subset.refl _) hstay rfl
      · intro a ha
        exact absurd ha List.not_mem_nil
  | wins g new hnew hfree hdb =>
      -- The name was free, so nobody had won it before.
      obtain rfl := hcounted.undecided hfree
      have hself : (Standing.won i).wonBy i = true := beq_self_eq_true i
      have htracked : Tracked f'.db name := by
        rw [hdb, Tracked, keysOf_apply (g, .addPair new), List.map_append, ← hnew]
        exact List.mem_append_right _ (List.mem_singleton_self _)
      refine ⟨.won i, h.post hi hothers hs' (Or.inr ⟨g, new, hnew, hdb⟩)
        (hself ▸ hposting.mono (List.Subset.refl _) hsaid) ?_ ?_ ?_⟩
      · rw [List.append_nil]
        exact ⟨hcounted, htracked, hi, hopen⟩
      · intro j hj
        exact beq_eq_false_iff_ne.mpr (Ne.symm hj)
      · intro a ha
        exact absurd ha List.not_mem_nil
  | announces pair hname hrow hdb =>
      obtain rfl := Standing.eq_won hwas
      refine ⟨.announced, h.post hi hothers hs' (Or.inl hdb)
        (hposting.mono (List.Subset.refl _) hsaid) ?_ ?_ ?_⟩
      · refine ⟨?_, ?_⟩
        · rw [createdPairs_append, hcounted.1]
          rfl
        · show Tracked f'.db name
          rw [hdb]
          exact hrow
      · intro j hj
        exact (beq_eq_false_iff_ne.mpr (Ne.symm hj)).symm
      · intro a ha
        rw [List.mem_singleton.mp ha, hdb]
        exact ⟨hrow, Or.inl ⟨pair, rfl, hname⟩⟩
  | refuses hrow hdb =>
      refine ⟨standing, h.post hi hothers hs' (Or.inl hdb)
        (hwas ▸ hposting.mono (List.Subset.refl _) hsaid) ?_ (fun _ _ => rfl) ?_⟩
      · refine hcounted.mono (hdb ▸ List.Subset.refl _) hstay ?_
        rw [createdPairs_append]
        exact List.append_nil _
      · intro a ha
        rw [List.mem_singleton.mp ha, hdb]
        exact ⟨hrow, Or.inr rfl⟩

/-- One command of the job. -/
theorem Underway.exec_job (hsnapshot : Canonical snapshot) (hstorable : Storable settings snapshot)
    (h : Underway settings snapshot name db₀ standing xs c) (hindexed : Indexed c.frame)
    (hp : c.prog 0 = .step cmd k)
    (he : Effect (racing snapshot resolvePair name admits) 0 c.frame β cmd b f')
    (hkeys : UniqueKeys f'.db) (hcrossed : .crossed 0 ∉ notes name β c.frame 0 cmd) :
    Underway settings snapshot name db₀ standing (xs ++ notes name β c.frame 0 cmd)
      ⟨f', Function.update c.prog 0 (k b)⟩ := by
  obtain ⟨s, hs, hworking⟩ : ∃ s, c.frame.sessions 0 = some s
      ∧ Working settings snapshot name db₀ c.frame.db (c.prog 0) s.log := by
    rcases h.job with hworking | ⟨hdone, -⟩
    · exact hworking
    · cases hdone.symm.trans hp
  obtain ⟨hworked, hnone⟩ := hworking.exec hsnapshot hstorable hp hs rfl hindexed he hkeys hcrossed
  have hsub : keysOf c.frame.db ⊆ keysOf f'.db := by
    cases hworked with
    | goes s' hs' hdb h' =>
        rw [hdb]
        exact List.Subset.refl _
    | commits hsub hp h' => exact hsub
  rw [hnone, List.append_nil]
  refine ⟨?_, ?_, ?_, ?_⟩
  · refine h.counted.mono hsub ?_ rfl
    intro j hj hopen
    have hcounted := h.counted
    rw [hj] at hcounted
    show f'.sessions j ≠ none
    rwa [he.sessions_of_ne hcounted.2.2.1]
  · intro j t hj ht
    show Posting name f'.db _ _ (Function.update c.prog 0 (k b) j) _
    rw [Function.update_of_ne hj]
    exact (h.posts j t hj ((he.sessions_of_ne hj).symm.trans ht)).mono hsub id
  · show (∃ s, f'.sessions 0 = some s ∧ Working settings snapshot name db₀ f'.db
        (Function.update c.prog 0 (k b) 0) s.log)
      ∨ (Function.update c.prog 0 (k b) 0 = .done () ∧ Discovered settings snapshot name db₀ f'.db)
    rw [Function.update_self]
    cases hworked with
    | goes s' hs' hdb h' => exact Or.inl ⟨s', hs', h'⟩
    | commits hsub hp h' => exact Or.inr ⟨hp, h'⟩
  · intro a ha
    exact ⟨(h.said a ha).1.mono hsub, (h.said a ha).2⟩

/-- A request comes in. -/
theorem Underway.start (h : Underway settings snapshot name db₀ standing xs c) (hi : i ≠ 0)
    (hclosed : c.frame.sessions i = none) (proc : Nat) {new : NewPair}
    (hnew : new.krakenPairName = name) (hfits : Fitting new) :
    Underway settings snapshot name db₀ standing xs
      ⟨c.frame.put i (some ⟨proc, []⟩), Function.update c.prog i (answered (trackPair new))⟩ := by
  refine ⟨?_, ?_, ?_, h.said⟩
  · refine h.counted.mono (List.Subset.refl _) ?_ rfl
    intro j _ hj
    have hji : j ≠ i := by
      rintro rfl
      exact hj hclosed
    show (c.frame.put i _).sessions j ≠ none
    rwa [c.frame.put_of_ne hji]
  · intro j s hj hs
    by_cases hji : j = i
    · rw [hji, Frame.put_self] at hs
      obtain rfl := Option.some.inj hs
      subst hji
      show Posting name c.frame.db _ _ (Function.update c.prog j _ j) []
      rw [Function.update_self, h.counted.not_won hclosed]
      exact .selecting new hnew hfits
    · show Posting name c.frame.db _ _ (Function.update c.prog i _ j) _
      rw [Function.update_of_ne hji]
      exact h.posts j s hj ((c.frame.put_of_ne hji _).symm.trans hs)
  · show (∃ s, (c.frame.put i _).sessions 0 = some s ∧ Working settings snapshot name db₀
        c.frame.db (Function.update c.prog i _ 0) s.log)
      ∨ (Function.update c.prog i _ 0 = .done ()
        ∧ Discovered settings snapshot name db₀ c.frame.db)
    rw [Function.update_of_ne (Ne.symm hi), c.frame.put_of_ne (Ne.symm hi)]
    exact h.job

/-- A session that is through is closed; a request that has won has still to answer. -/
theorem Underway.close (hstorable : Storable settings snapshot)
    (h : Underway settings snapshot name db₀ standing xs c)
    (hclose : c.prog i = .done () ∨ ∃ e, c.prog i = .fail e) :
    Underway settings snapshot name db₀ standing xs ⟨c.frame.put i none, c.prog⟩ := by
  refine ⟨?_, ?_, ?_, h.said⟩
  · refine h.counted.mono (List.Subset.refl _) ?_ rfl
    intro j hj hopen
    show (c.frame.put i none).sessions j ≠ none
    by_cases hji : j = i
    · subst hji
      have hcounted := h.counted
      rw [hj] at hcounted
      obtain ⟨s, hs⟩ := Option.ne_none_iff_exists'.mp hopen
      have hposting := h.posts j s hcounted.2.2.1 hs
      rw [hj, show (Standing.won j).wonBy j = true from beq_self_eq_true j] at hposting
      rcases hclose with hdone | ⟨e, hfail⟩
      · rw [hdone] at hposting
        cases hposting
      · exact absurd hfail (hposting.ne_fail e)
    · rwa [c.frame.put_of_ne hji]
  · intro j s hj hs
    by_cases hji : j = i
    · rw [hji, Frame.put_self] at hs
      cases hs
    · exact h.posts j s hj ((c.frame.put_of_ne hji none).symm.trans hs)
  · rcases h.job with ⟨s, hs, hworking⟩ | hdone
    · by_cases hi : 0 = i
      · subst hi
        obtain ⟨β, cmd, k, hp⟩ := hworking.eq_step hstorable
        rcases hclose with hdone | ⟨e, hfail⟩
        · cases hp.symm.trans hdone
        · cases hp.symm.trans hfail
      · exact Or.inl ⟨s, (c.frame.put_of_ne hi none).trans hs, hworking⟩
    · exact Or.inr hdone

/-- One step of the system. -/
theorem Underway.step (hsnapshot : Canonical snapshot) (hstorable : Storable settings snapshot)
    (hadmits : ∀ new, admits new → Fitting new)
    (h : Underway settings snapshot name db₀ standing xs c) (hindexed : Indexed c.frame)
    (hs : TracedStep ((racing snapshot resolvePair name admits).constrained UniqueKeys)
      (notes name) c ys c')
    (hcrossed : ∀ i, .crossed i ∉ ys) :
    ∃ standing', Underway settings snapshot name db₀ standing' (xs ++ ys) c' := by
  cases hs with
  | start i proc p hclosed hp =>
      obtain ⟨hi, body, resolved, hresolved, hname, hnew, rfl⟩ := hp
      rw [createPair_of_ok hresolved, List.append_nil]
      exact ⟨standing, h.start hi hclosed proc hname (hadmits _ hnew)⟩
  | close i hclose =>
      rw [List.append_nil]
      exact ⟨standing, h.close hstorable hclose⟩
  | exec i cmd k b f hp he ha =>
      have he : Effect (racing snapshot resolvePair name admits) i c.frame _ cmd b f := he
      by_cases hi : i = 0
      · subst hi
        exact ⟨standing, h.exec_job hsnapshot hstorable hindexed hp he ha.2 (hcrossed 0)⟩
      · exact h.exec_post hindexed hi hp he ha.2 (hcrossed i)

end Steps

/-- A race for a name that is resolved cleanly.
    `unique`, `tracked`: there is never a second row of the name, and there is one as soon
    as a request is answered.
    `winner`, `losers`: at most one answer is 201, with the row of the name; all others
    are 409.
    `unraised`, `said`: no program raises, so a request that is through has answered.
    `discovered`: when the job is through, its work on all other names is committed. -/
structure Clean (settings : Settings) (snapshot : Dict String MarketSnapshot) (name : String)
    (db₀ : Database) (xs : List Note) (c : MarketThreads) : Prop where
  unique : (rowsOf c.frame.db name).length ≤ 1
  tracked : answers xs ≠ [] → (rowsOf c.frame.db name).length = 1
  winner : (createdPairs xs).length ≤ 1
  losers : ∀ a ∈ answers xs,
    (∃ pair, a = .ok pair ∧ pair.krakenPairName = name) ∨ a = .error (conflict name)
  unraised : ∀ i, c.frame.sessions i ≠ none → ∀ e, c.prog i ≠ .fail e
  said : ∀ i, i ≠ 0 → c.frame.sessions i ≠ none → c.prog i = .done () → ∃ a, .answer i a ∈ xs
  discovered : c.prog 0 = .done () → Discovered settings snapshot name db₀ c.frame.db

/-- A run of the job that is about to start, and no request yet. -/
structure Starting (settings : Settings) (c : MarketThreads) : Prop where
  job : ∃ proc, c.frame.sessions 0 = some ⟨proc, []⟩
  prog : c.prog 0 = runDiscovery settings
  others : ∀ i, i ≠ 0 → c.frame.sessions i = none

theorem Starting.indexed {c : MarketThreads} (h : Starting settings c) (hk : Keyed c.frame.db) :
    Indexed c.frame := by
  have hempty : ∀ i s, c.frame.sessions i = some s → s.log = [] := by
    intro i s hs
    by_cases hi : i = 0
    · obtain ⟨proc, hjob⟩ := h.job
      rw [hi, hjob] at hs
      rw [← Option.some.inj hs]
    · cases (h.others i hi).symm.trans hs
  refine ⟨?_, (keyed_iff.mp hk).2, ?_⟩
  · intro i j s t _ hs _ x hx
    rw [hempty i s hs] at hx
    exact absurd hx List.not_mem_nil
  · intro i s hs
    rw [hempty i s hs]
    exact (keyed_iff.mp hk).2

theorem Starting.underway {c : MarketThreads} (h : Starting settings c) :
    Underway settings snapshot name c.frame.db .undecided [] c where
  counted := rfl
  posts := by
    intro i s hi hs
    cases (h.others i hi).symm.trans hs
  job := by
    obtain ⟨proc, hjob⟩ := h.job
    refine Or.inl ⟨_, hjob, ?_⟩
    rw [h.prog]
    exact .asking (fun _ _ => rfl)
  said := fun a ha => absurd ha List.not_mem_nil

theorem Underway.clean (hstorable : Storable settings snapshot) {standing : Standing}
    {xs : List Note} {c : MarketThreads}
    (h : Underway settings snapshot name db₀ standing xs c) (hindexed : Indexed c.frame) :
    Clean settings snapshot name db₀ xs c where
  unique := hindexed.names.rowsOf_length name
  tracked := by
    intro hxs
    obtain ⟨a, ha⟩ := List.exists_mem_of_ne_nil _ hxs
    have hrow : rowsOf c.frame.db name ≠ [] :=
      fun hnil => not_tracked_iff.mpr hnil (h.said a ha).1
    have hpos := List.length_pos_iff.mpr hrow
    have hle := hindexed.names.rowsOf_length name
    omega
  winner := by
    have hcounted := h.counted
    cases standing with
    | undecided =>
        rw [show createdPairs xs = [] from hcounted]
        exact Nat.zero_le 1
    | won i =>
        rw [hcounted.1]
        exact Nat.zero_le 1
    | announced => exact Nat.le_of_eq hcounted.1
  losers := fun a ha => (h.said a ha).2
  unraised := by
    intro i hopen e hfail
    obtain ⟨s, hs⟩ := Option.ne_none_iff_exists'.mp hopen
    -- Neither the job nor a request ever stands before a raise.
    by_cases hi : i = 0
    · subst hi
      rcases h.job with ⟨t, -, hworking⟩ | ⟨hdone, -⟩
      · obtain ⟨β, cmd, k, hp⟩ := hworking.eq_step hstorable
        cases hp.symm.trans hfail
      · cases hdone.symm.trans hfail
    · exact (h.posts i s hi hs).ne_fail e hfail
  said := by
    intro i hi hopen hdone
    obtain ⟨s, hs⟩ := Option.ne_none_iff_exists'.mp hopen
    have hposting := h.posts i s hi hs
    rw [hdone] at hposting
    generalize standing.wonBy i = won at hposting
    generalize s.log = log at hposting
    cases hposting with
    | finished hsaid => exact hsaid
  discovered := by
    intro hdone
    rcases h.job with ⟨s, -, hworking⟩ | ⟨-, hdiscovered⟩
    · obtain ⟨β, cmd, k, hp⟩ := hworking.eq_step hstorable
      cases hp.symm.trans hdone
    · exact hdiscovered

/-- In every run whose values fit their columns and in which no INSERT of the name meets a
    committed row of it, the race is resolved cleanly. -/
theorem clean_of_uncrossed {c c' : MarketThreads} {xs : List Note} (hsnapshot : Canonical snapshot)
    (hstorable : Storable settings snapshot) (hstart : Starting settings c)
    (hk : Keyed c.frame.db)
    (h : Traced ((racing snapshot resolvePair name Fitting).constrained UniqueKeys) (notes name) c
      xs c')
    (hcrossed : ∀ i, .crossed i ∉ xs) : Clean settings snapshot name c.frame.db xs c' := by
  have hindexed : ∀ {c'' : MarketThreads} {ys : List Note},
      Traced ((racing snapshot resolvePair name Fitting).constrained UniqueKeys) (notes name) c
        ys c'' → Indexed c''.frame := by
    intro c'' ys h
    refine indexed_of_reaches rfl ?_ (hstart.indexed hk) ?_ h.reaches
    · rintro f i proc p ⟨-, body, resolved, hresolved, -, -, rfl⟩
      rw [createPair_of_ok hresolved]
      exact (trackPair_checked _).bind (fun _ _ => ⟨trivial, fun _ => trivial⟩)
    · intro i hopen
      by_cases hi : i = 0
      · rw [hi, hstart.prog]
        exact runDiscovery_checked settings
      · exact absurd (hstart.others i hi) hopen
  have hunderway : ∃ standing, Underway settings snapshot name c.frame.db standing xs c' := by
    induction h with
    | refl => exact ⟨.undecided, hstart.underway⟩
    | tail hrun hs ih =>
        obtain ⟨standing, hunderway⟩ := ih (fun i hi => hcrossed i (List.mem_append_left _ hi))
        exact hunderway.step hsnapshot hstorable (fun _ hnew => hnew) (hindexed hrun) hs
          (fun i hi => hcrossed i (List.mem_append_right _ hi))
  obtain ⟨standing, hunderway⟩ := hunderway
  exact hunderway.clean hstorable (hindexed h)

/-- An INSERT that meets a committed row of its name is refused, whatever its session has
    written. -/
theorem refused_of_committed {f f' : MarketFrame} {i : Nat} {new : NewPair}
    {b : Option Generated} (hrow : rowsOf f.db new.krakenPairName ≠ [])
    (he : Effect (racing snapshot resolvePair name admits) i f _ (.insert (.addPair new)) b f') :
    b = none := by
  obtain ⟨s, -, he⟩ := he
  cases b with
  | none => rfl
  | some g =>
      have hfree : rowsOf (marketBackend.replay f.db s.log) new.krakenPairName = [] :=
        violates_addPair.mp he.1
      have htracked : Tracked f.db new.krakenPairName := by
        by_contra hnone
        exact hrow (not_tracked_iff.mp hnone)
      refine absurd (htracked.mono ?_) (not_tracked_iff.mpr hfree)
      rw [keysOf_replay]
      exact List.subset_append_left _ _

/-- Two rows of one key stay. -/
theorem uniqueKeys_of_effect {f f' : MarketFrame} {i : Nat} {β : Type}
    {cmd : Cmd Database PairWrite Generated MemOp MarketOp β} {b : β}
    (he : Effect (racing snapshot resolvePair name admits) i f β cmd b f') (h : UniqueKeys f'.db) :
    UniqueKeys f.db := by
  obtain ⟨s, -, rfl | ⟨e, -, rfl⟩ | rfl | ⟨m, rfl⟩ | ⟨_, _, _, x, -, rfl⟩⟩ := he.frame_cases
  · exact h
  · exact h
  · exact UniqueKeys.of_replay h
  · exact h
  · exact h

end Race

/-! ## A request between the SELECT and the INSERTs of the job -/

/-- One tracked pair, and the job about to start. -/
def raceStart : MarketThreads where
  frame :=
    { db := { pairs := [{ id := 1, krakenPairName := "ADAUSD", displayName := "ADA/USD" }] }
      mem := fun _ => {}
      ext := ()
      sessions := fun i => if i = 0 then some ⟨0, []⟩ else none }
  prog := fun i => if i = 0 then runDiscovery {} else .done ()

/-- A tracked pair below the deactivate floor, and two unknown ones above the other. -/
def raceSnapshot : Dict String MarketSnapshot :=
  [("ADAUSD", marketAt "ADAUSD" 74999), ("XRPUSD", marketAt "XRPUSD" 200000),
    ("SOLUSD", marketAt "SOLUSD" 100000)]

def resolveSol (symbol : String) : Except Raised ResolvedPair :=
  if symbol = "SOL" ∨ symbol = "SOL/USD" then .ok ⟨"SOLUSD", "SOL/USD", "SOL", "USD"⟩
  else .error ⟨.valueError, "unknown symbol"⟩

def request (symbol : String) : MarketTx Unit :=
  answered (createPair resolveSol { symbol := symbol })

theorem fitting_request (symbol : String) :
    Fitting (CreatePairRequest.pair { symbol := symbol }
      ⟨"SOLUSD", "SOL/USD", "SOL", "USD"⟩) := by
  have hrow : (CreatePairRequest.pair { symbol := "SOL" }
      ⟨"SOLUSD", "SOL/USD", "SOL", "USD"⟩).fits = true := by decide
  exact hrow

def surroundings : Host Database Generated Unit MarketOp where
  fresh := fun db _ => ⟨freshPairId db, 0⟩
  answer := fun e x =>
    match e with
    | .getUsdMarketSnapshot => (.ok raceSnapshot, x)
    | .respond _ => ((), x)

/-- The exception of a program that has raised. -/
def raised : MarketTx Unit → Option Raised
  | .fail e => some e
  | _ => none

theorem eq_fail_of_raised {p : MarketTx Unit} {e : Raised} (h : raised p = some e) :
    p = .fail e := by
  cases p with
  | done a => cases h
  | fail e' => rw [Option.some.inj h]
  | step cmd k => cases h

abbrev RaceMove : Type 1 := Move Database PairWrite Generated MemOp MarketOp Raised

/-- Two requests one after the other, between the snapshot and the SELECT of the job. -/
def inTurn : List RaceMove :=
  [.run 0 1, .start 1 0 (request "SOL"), .run 1 10, .stop 1, .start 2 0 (request "SOL/USD"),
    .run 2 10, .run 0 10]

/-- The job and a request select; another request goes through; then they insert. -/
def crossing : List RaceMove :=
  [.run 0 2, .start 1 0 (request "SOL"), .run 1 1, .start 2 0 (request "SOL/USD"), .run 2 10,
    .run 1 10, .run 0 10]

theorem traced_race {moves : List RaceMove}
    (hready : ready marketBackend surroundings (notes "SOLUSD") [0, 1, 2] moves raceStart = true)
    (hpermits : Permits (racing raceSnapshot resolveSol "SOLUSD" Fitting) surroundings
      (notes "SOLUSD") moves raceStart)
    (hkeys : UniqueKeys
      (play marketBackend surroundings (notes "SOLUSD") moves raceStart).1.frame.db) :
    Traced ((racing raceSnapshot resolveSol "SOLUSD" Fitting).constrained UniqueKeys) (notes "SOLUSD")
      raceStart (play marketBackend surroundings (notes "SOLUSD") moves raceStart).2
      (play marketBackend surroundings (notes "SOLUSD") moves raceStart).1 := by
  refine Traced.constrained (fun _ _ _ _ _ _ he h => uniqueKeys_of_effect he h)
    (traced_play [0, 1, 2] ?_ (fun _ _ _ _ _ => trivial) ?_ hready hpermits) hkeys
  · intro β e x
    cases e with
    | getUsdMarketSnapshot => rfl
    | respond a => trivial
  · intro j hj
    have hne : j ≠ 0 := by
      rintro rfl
      exact hj List.mem_cons_self
    exact if_neg hne

theorem clean_of_uncrossed_inTurn :
    Clean {} raceSnapshot "SOLUSD" raceStart.frame.db
      (play marketBackend surroundings (notes "SOLUSD") inTurn raceStart).2
      (play marketBackend surroundings (notes "SOLUSD") inTurn raceStart).1 := by
  have hstart : Starting {} raceStart := ⟨⟨0, rfl⟩, rfl, fun i hi => if_neg hi⟩
  have htraced := @traced_race inTurn (by decide +kernel)
    ⟨⟨by decide, _, _, rfl, rfl, fitting_request "SOL", rfl⟩, Or.inl rfl,
      ⟨by decide, _, _, rfl, rfl, fitting_request "SOL/USD", rfl⟩, trivial⟩
    (by decide +kernel)
  have hanswers : (play marketBackend surroundings (notes "SOLUSD") inTurn raceStart).2.all
      (fun x => match x with | .crossed _ => false | .answer _ _ => true) = true := by
    decide +kernel
  have hstorable : Storable {} raceSnapshot := by
    rw [Storable]
    decide +kernel
  refine clean_of_uncrossed ⟨by decide, by decide⟩ hstorable hstart ⟨by decide, by decide⟩ htraced
    ?_
  intro i hi
  exact Bool.false_ne_true (List.all_eq_true.mp hanswers _ hi)

/-- A request and the job lose against another request: they raise, and with the INSERT
    that is refused the job loses all it has done. -/
theorem not_clean_crossing :
    ∃ xs c', Traced ((racing raceSnapshot resolveSol "SOLUSD" Fitting).constrained UniqueKeys)
        (notes "SOLUSD") raceStart xs c'
      ∧ ¬ Clean {} raceSnapshot "SOLUSD" raceStart.frame.db xs c'
      ∧ raised (c'.prog 0) = some ⟨.integrityError,
        "duplicate key value violates unique constraint \"ix_pairs_kraken_pair_name\""⟩
      ∧ raised (c'.prog 1) = some ⟨.integrityError,
        "duplicate key value violates unique constraint \"ix_pairs_kraken_pair_name\""⟩
      ∧ c'.frame.db.pairs.map (fun p => (p.krakenPairName, p.isActive))
        = [("ADAUSD", true), ("SOLUSD", true)] := by
  have htraced := @traced_race crossing (by decide +kernel)
    ⟨⟨by decide, _, _, rfl, rfl, fitting_request "SOL", rfl⟩,
      ⟨by decide, _, _, rfl, rfl, fitting_request "SOL/USD", rfl⟩, trivial⟩
    (by decide +kernel)
  have hlost : raised ((play marketBackend surroundings (notes "SOLUSD") crossing
      raceStart).1.prog 1) = some ⟨.integrityError,
        "duplicate key value violates unique constraint \"ix_pairs_kraken_pair_name\""⟩ := by
    decide +kernel
  have hopen : ((play marketBackend surroundings (notes "SOLUSD") crossing
      raceStart).1.frame.sessions 1).isSome = true := by decide +kernel
  refine ⟨_, _, htraced, ?_, by decide +kernel, hlost, by decide +kernel⟩
  intro hclean
  exact hclean.unraised 1 (Option.isSome_iff_ne_none.mp hopen) _ (eq_fail_of_raised hlost)

end Dropwatch.Race
