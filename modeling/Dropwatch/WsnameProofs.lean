import Dropwatch.DiscoveryProofs

/-! # Entries without a wsname

    `resolve_pair` skips entries without a `wsname` when it builds its second
    lookup table, and then subscripts the entry it found; the snapshot subscripts
    every USD entry of the ticker.  So the first fails for a symbol that is the
    canonical name of such an entry, and the second, with the whole discovery run,
    as soon as the ticker lists such an entry. -/

namespace Dropwatch.Kraken

open Transact

/-! ## Splitting at the slash -/

/-- A text with two parts, joined by its only slash. -/
structure SplitsAt (ws base quote : String) : Prop where
  joined : ws = base ++ "/" ++ quote
  base : '/' ∉ base.toList
  quote : '/' ∉ quote.toList

theorem toList_join (base quote : String) :
    (base ++ "/" ++ quote).toList = base.toList ++ '/' :: quote.toList := by
  rw [String.toList_append, String.toList_append, List.append_assoc]
  rfl

theorem SplitsAt.splitSlash_eq {ws base quote : String} (h : SplitsAt ws base quote) :
    splitSlash ws = [base, quote] := by
  rw [splitSlash, h.joined, toList_join, List.splitOn_append_cons_self_of_not_mem h.base,
    List.splitOn_eq_singleton h.quote]
  simp

theorem SplitsAt.count_eq {ws base quote : String} (h : SplitsAt ws base quote) :
    ws.toList.count '/' = 1 := by
  rw [h.joined, toList_join, List.count_append, List.count_cons_self,
    List.count_eq_zero_of_not_mem h.base, List.count_eq_zero_of_not_mem h.quote]

/-- What `split` makes of a text, by the number of its slashes. -/
theorem splitSlash_cases (ws : String) :
    (ws.toList.count '/' = 0 ∧ splitSlash ws = [ws])
      ∨ (∃ base quote, SplitsAt ws base quote)
      ∨ 2 ≤ ws.toList.count '/' ∧ ∃ a b c rest, splitSlash ws = a :: b :: c :: rest := by
  by_cases hfirst : '/' ∈ ws.toList
  · obtain ⟨base, back, hws, hbase⟩ := List.eq_append_cons_of_mem hfirst
    by_cases hsecond : '/' ∈ back
    · right; right
      obtain ⟨quote, rest, rfl, hquote⟩ := List.eq_append_cons_of_mem hsecond
      refine ⟨?_, ?_⟩
      · rw [hws, List.count_append, List.count_cons_self, List.count_append, List.count_cons_self]
        omega
      · obtain ⟨c, cs, hc⟩ := List.exists_cons_of_ne_nil (List.splitOn_ne_nil '/' rest)
        rw [splitSlash, hws, List.splitOn_append_cons_self_of_not_mem hbase,
          List.splitOn_append_cons_self_of_not_mem hquote, hc]
        exact ⟨_, _, _, _, rfl⟩
    · right; left
      refine ⟨String.ofList base, String.ofList back, ?_, by simpa using hbase, by simpa using hsecond⟩
      rw [← String.toList_inj, toList_join, hws]
      simp
  · left
    refine ⟨List.count_eq_zero_of_not_mem hfirst, ?_⟩
    rw [splitSlash, List.splitOn_eq_singleton hfirst]
    simp

/-- A name unpacks exactly into the parts around its only slash. -/
theorem unpackPair_eq_ok {ws base quote : String} :
    unpackPair ws = .ok (base, quote) ↔ SplitsAt ws base quote := by
  constructor
  · intro h
    rcases splitSlash_cases ws with ⟨-, hone⟩ | ⟨b, q, hsplit⟩ | ⟨-, a, b, c, rest, hmany⟩
    · rw [unpackPair, hone] at h
      cases h
    · rw [unpackPair, hsplit.splitSlash_eq] at h
      obtain ⟨rfl, rfl⟩ := Prod.mk.inj (Except.ok.inj h)
      exact hsplit
    · rw [unpackPair, hmany] at h
      cases h
  · intro h
    rw [unpackPair, h.splitSlash_eq]

/-- Anything else is a `ValueError`. -/
theorem unpackPair_cases (ws : String) :
    (∃ base quote, unpackPair ws = .ok (base, quote))
      ∨ ws.toList.count '/' ≠ 1 ∧ ∃ text, unpackPair ws = .error ⟨.valueError, text⟩ := by
  rcases splitSlash_cases ws with ⟨hcount, hone⟩ | ⟨b, q, hsplit⟩ | ⟨hcount, a, b, c, rest, hmany⟩
  · right
    refine ⟨by omega, ?_⟩
    rw [unpackPair, hone]
    exact ⟨_, rfl⟩
  · exact Or.inl ⟨b, q, unpackPair_eq_ok.mpr hsplit⟩
  · right
    refine ⟨by omega, ?_⟩
    rw [unpackPair, hmany]
    exact ⟨_, rfl⟩

/-! ## Resolving -/

section Resolve

variable (u : Unicode) (iter : SetOrder) (assetPairs : AssetPairs) (symbol : String)

/-- `resolve_pair` returns an entry of the table or raises a `ValueError`. -/
def ResolvesOrValueError : Prop :=
  (∃ r info, resolvePair u iter assetPairs symbol = .ok r
      ∧ (r.canonicalName, info) ∈ assetPairs.entries)
    ∨ ∃ text, resolvePair u iter assetPairs symbol = .error ⟨.valueError, text⟩

/-- The entry that has the symbol as its canonical name, the last one if there are
    several, has a `wsname`. -/
def CanonicalNamed : Prop :=
  ∀ e, (assetPairs.entries.filter (fun e => u.upper e.1 = u.upper (strip symbol))).getLast? = some e →
    e.2.wsname.isSome

variable {u iter assetPairs symbol}

/-- A match is canonical, or it has a `wsname`. -/
theorem findMatch_cases {cleaned : String} {e : String × AssetInfo}
    (h : findMatch u iter assetPairs cleaned = some e) :
    (assetPairs.entries.filter (fun e => u.upper e.1 = cleaned)).getLast? = some e
      ∨ e ∈ assetPairs.entries ∧ e.2.wsname.isSome := by
  have hwsname : ∀ key, Dict.get? (byWsname u assetPairs) key = some e →
      e ∈ assetPairs.entries ∧ e.2.wsname.isSome := by
    intro key hget
    obtain ⟨x, hx, -, rfl⟩ := (Dict.get?_foldl_set (fun e : String × AssetInfo =>
      u.upper (e.2.wsname.getD "")) (fun e => e) hget).resolve_left (fun h => by cases h)
    obtain ⟨hmem, hnamed⟩ := List.mem_filter.mp hx
    exact ⟨hmem, Option.isSome_of_any hnamed⟩
  rw [findMatch] at h
  split at h
  · obtain ⟨quote, -, hquote⟩ := List.exists_of_findSome?_eq_some h
    split at hquote
    · exact Or.inr (hwsname _ hquote)
    · cases hquote
  · rcases Option.or_eq_some_iff.mp h with hcanonical | ⟨-, hget⟩
    · left
      rw [byCanonical, Dict.get?_foldl_set_eq (fun e : String × AssetInfo => u.upper e.1)
        (fun e => e)] at hcanonical
      simpa using hcanonical
    · exact Or.inr (hwsname _ hget)

/-- A canonical match is what `resolve_pair` settles on. -/
theorem findMatch_of_canonical {cleaned : String} {e : String × AssetInfo}
    (h : (assetPairs.entries.filter (fun e => u.upper e.1 = cleaned)).getLast? = some e) :
    findMatch u iter assetPairs cleaned = some e := by
  have hget : Dict.get? (byCanonical u assetPairs) cleaned = some e := by
    rw [byCanonical, Dict.get?_foldl_set_eq (fun e : String × AssetInfo => u.upper e.1)
      (fun e => e), h]
    rfl
  rw [findMatch, hget]
  rfl

/-- A match without a `wsname` is a `KeyError`. -/
theorem resolvePair_of_unnamed {e : String × AssetInfo}
    (h : findMatch u iter assetPairs (u.upper (strip symbol)) = some e) (hws : e.2.wsname = none) :
    resolvePair u iter assetPairs symbol = .error ⟨.keyError, "'wsname'"⟩ := by
  obtain ⟨name, info⟩ := e
  rw [resolvePair, h]
  show (info.getWsname >>= _) = _
  rw [AssetInfo.getWsname, hws]
  rfl

/-- A match with a `wsname` is resolved to what its `wsname` unpacks to. -/
theorem resolvePair_of_named {e : String × AssetInfo} {ws : String}
    (h : findMatch u iter assetPairs (u.upper (strip symbol)) = some e)
    (hws : e.2.wsname = some ws) :
    resolvePair u iter assetPairs symbol
      = (unpackPair ws).map (fun parts => ⟨e.1, strip symbol, parts.1, parts.2⟩) := by
  obtain ⟨name, info⟩ := e
  rw [resolvePair, h]
  show (info.getWsname >>= _) = _
  rw [AssetInfo.getWsname, hws]
  show (unpackPair ws >>= _) = _
  cases unpackPair ws with
  | error x => rfl
  | ok parts => rfl

/-- Resolving fails with a `KeyError` exactly on the canonical name of an entry that
    has no `wsname`. -/
theorem resolvesOrValueError_iff :
    ResolvesOrValueError u iter assetPairs symbol ↔ CanonicalNamed u assetPairs symbol := by
  constructor
  · intro h e he
    by_contra hnone
    rw [Option.not_isSome_iff_eq_none] at hnone
    have hraised : resolvePair u iter assetPairs symbol = _ :=
      resolvePair_of_unnamed (findMatch_of_canonical he) hnone
    rcases h with ⟨r, info, hok, -⟩ | ⟨text, herror⟩
    · cases hraised.symm.trans hok
    · have hkind := congrArg Raised.error (Except.error.inj (hraised.symm.trans herror))
      cases hkind
  · intro h
    cases hmatch : findMatch u iter assetPairs (u.upper (strip symbol)) with
    | none =>
        right
        rw [resolvePair, hmatch]
        exact ⟨_, rfl⟩
    | some e =>
        obtain ⟨hmem, hnamed⟩ : e ∈ assetPairs.entries ∧ e.2.wsname.isSome := by
          rcases findMatch_cases hmatch with hlast | hother
          · exact ⟨List.mem_of_mem_filter (List.mem_of_getLast? hlast), h e hlast⟩
          · exact hother
        obtain ⟨ws, hws⟩ := Option.isSome_iff_exists.mp hnamed
        have hresolved := resolvePair_of_named hmatch hws
        rcases unpackPair_cases ws with ⟨base, quote, hok⟩ | ⟨-, text, herror⟩
        · left
          rw [hok] at hresolved
          exact ⟨⟨e.1, strip symbol, base, quote⟩, e.2, hresolved, hmem⟩
        · right
          rw [herror] at hresolved
          exact ⟨text, hresolved⟩

end Resolve

/-! ## The snapshot -/

section Snapshot

variable (assetPairs : AssetPairs)

/-- The USD entry of a name, if there is one, has a `wsname` with one slash. -/
def Listable (name : String) : Prop :=
  ∀ info, (name, info) ∈ assetPairs.entries → info.isUsd = true →
    ∃ ws, info.wsname = some ws ∧ ws.toList.count '/' = 1

/-- The snapshot is built, and has every pair of the ticker that the table quotes in
    USD and names. -/
def SnapshotComplete (ticker : Ticker) : Prop :=
  ∃ snapshot, getUsdMarketSnapshot assetPairs ticker = .ok snapshot
    ∧ ∀ name ∈ Dict.keys ticker.entries, ∀ info, (name, info) ∈ assetPairs.entries →
        info.isUsd = true → info.wsname.isSome → name ∈ Dict.keys snapshot

/-- A dictionary of markets is keyed by canonical name. -/
structure Canonical (snapshot : Dict String MarketSnapshot) : Prop where
  distinct : (Dict.keys snapshot).Nodup
  named : ∀ e ∈ snapshot, e.2.canonicalName = e.1

theorem Canonical.nil : Canonical [] := ⟨List.nodup_nil, fun _ h => absurd h List.not_mem_nil⟩

variable {assetPairs} {snapshot snapshot' : Dict String MarketSnapshot}

theorem get?_usdPairs {name : String} {info : AssetInfo} :
    Dict.get? (usdPairs assetPairs) name = some info
      ↔ (name, info) ∈ assetPairs.entries ∧ info.isUsd = true := by
  have hkeys : (Dict.keys (usdPairs assetPairs)).Nodup :=
    assetPairs.distinct.sublist (List.filter_sublist.map _)
  constructor
  · intro h
    exact List.mem_filter.mp (Dict.mem_of_get? h)
  · intro h
    exact Dict.get?_of_mem hkeys (List.mem_filter.mpr h)

/-- One entry of the ticker: it is listed under its name, or it is not a USD pair. -/
theorem addMarket_of_listable (snapshot : Dict String MarketSnapshot) (t : TickerInfo)
    {name : String} (h : Listable assetPairs name) :
    (∃ m : MarketSnapshot, m.canonicalName = name
        ∧ addMarket assetPairs snapshot (name, t) = .ok (Dict.set snapshot name m))
      ∨ (∀ info, (name, info) ∈ assetPairs.entries → info.isUsd = false)
        ∧ addMarket assetPairs snapshot (name, t) = .ok snapshot := by
  rw [addMarket]
  cases hget : Dict.get? (usdPairs assetPairs) name with
  | none =>
      right
      refine ⟨?_, rfl⟩
      intro info hmem
      by_contra husd
      cases hget.symm.trans (get?_usdPairs.mpr ⟨hmem, eq_true_of_ne_false husd⟩)
  | some info =>
      left
      obtain ⟨hmem, husd⟩ := get?_usdPairs.mp hget
      obtain ⟨ws, hws, hcount⟩ := h info hmem husd
      rcases unpackPair_cases ws with ⟨base, quote, hok⟩ | ⟨hne, -⟩
      · refine ⟨⟨name, ws, base, quote, t.last, t.bid, t.ask, t.volume24h, t.vwap24h⟩, rfl, ?_⟩
        show (info.getWsname >>= _) = _
        rw [AssetInfo.getWsname, hws]
        show (unpackPair ws >>= _) = _
        rw [hok]
        rfl
      · exact absurd hcount hne

/-- Only listable entries do not raise. -/
theorem listable_of_addMarket {name : String} {t : TickerInfo}
    (h : addMarket assetPairs snapshot (name, t) = .ok snapshot') : Listable assetPairs name := by
  intro info hmem husd
  rw [addMarket, get?_usdPairs.mpr ⟨hmem, husd⟩] at h
  replace h : (info.getWsname >>= _) = .ok snapshot' := h
  rw [AssetInfo.getWsname] at h
  cases hws : info.wsname with
  | none =>
      rw [hws] at h
      cases h
  | some ws =>
      rw [hws] at h
      replace h : (unpackPair ws >>= _) = .ok snapshot' := h
      rcases unpackPair_cases ws with ⟨base, quote, hok⟩ | ⟨-, text, herror⟩
      · exact ⟨ws, rfl, (unpackPair_eq_ok.mp hok).count_eq⟩
      · rw [herror] at h
        cases h

/-- A loop over listable entries does not raise; it keeps the snapshot keyed by
    canonical name and lists every USD pair it meets. -/
theorem addMarkets_of_listable {entries : Dict String TickerInfo}
    (h : ∀ name ∈ Dict.keys entries, Listable assetPairs name) (hs : Canonical snapshot) :
    ∃ snapshot', entries.foldlM (addMarket assetPairs) snapshot = .ok snapshot'
      ∧ Canonical snapshot' ∧ Dict.keys snapshot ⊆ Dict.keys snapshot'
      ∧ ∀ name ∈ Dict.keys entries, ∀ info, (name, info) ∈ assetPairs.entries →
          info.isUsd = true → name ∈ Dict.keys snapshot' := by
  induction entries generalizing snapshot with
  | nil => exact ⟨snapshot, rfl, hs, List.Subset.refl _, fun _ h => absurd h List.not_mem_nil⟩
  | cons entry rest ih =>
      obtain ⟨name, t⟩ := entry
      have hrest : ∀ other ∈ Dict.keys rest, Listable assetPairs other :=
        fun other hother => h other (List.mem_cons_of_mem _ hother)
      -- A USD pair is set in the dictionary, any other is skipped.
      rcases addMarket_of_listable snapshot t (h name List.mem_cons_self)
        with ⟨m, hm, hok⟩ | ⟨hnot, hok⟩
      · have hset : Canonical (Dict.set snapshot name m) := by
          refine ⟨Dict.nodup_keys_set hs.distinct, ?_⟩
          intro e he
          rcases Dict.mem_set he with rfl | hold
          · exact hm
          · exact hs.named e hold
        obtain ⟨snapshot', hrun, hs', hsub, hall⟩ := ih hrest hset
        refine ⟨snapshot', ?_, hs', ?_, ?_⟩
        · rw [List.foldlM_cons, hok]
          exact hrun
        · exact fun key hkey => hsub (Dict.mem_keys_set.mpr (Or.inr hkey))
        · intro other hother info hmem husd
          rcases List.mem_cons.mp hother with rfl | hother
          · exact hsub (Dict.mem_keys_set.mpr (Or.inl rfl))
          · exact hall other hother info hmem husd
      · obtain ⟨snapshot', hrun, hs', hsub, hall⟩ := ih hrest hs
        refine ⟨snapshot', ?_, hs', hsub, ?_⟩
        · rw [List.foldlM_cons, hok]
          exact hrun
        · intro other hother info hmem husd
          rcases List.mem_cons.mp hother with rfl | hother
          · cases husd.symm.trans (hnot info hmem)
          · exact hall other hother info hmem husd

/-- A loop that did not raise has met listable entries only. -/
theorem listable_of_addMarkets {entries : Dict String TickerInfo}
    (h : entries.foldlM (addMarket assetPairs) snapshot = .ok snapshot') :
    ∀ name ∈ Dict.keys entries, Listable assetPairs name := by
  induction entries generalizing snapshot with
  | nil => exact fun _ h => absurd h List.not_mem_nil
  | cons entry rest ih =>
      obtain ⟨name, t⟩ := entry
      rw [List.foldlM_cons] at h
      cases hone : addMarket assetPairs snapshot (name, t) with
      | error x =>
          rw [hone] at h
          cases h
      | ok mid =>
          rw [hone] at h
          intro other hother
          rcases List.mem_cons.mp hother with rfl | hother
          · exact listable_of_addMarket hone
          · exact ih h other hother

/-- The snapshot is complete exactly if every entry of the ticker is listable. -/
theorem snapshotComplete_iff {ticker : Ticker} :
    SnapshotComplete assetPairs ticker
      ↔ ∀ name ∈ Dict.keys ticker.entries, Listable assetPairs name := by
  constructor
  · rintro ⟨snapshot, hok, -⟩
    exact listable_of_addMarkets hok
  · intro h
    obtain ⟨snapshot, hok, -, -, hall⟩ := addMarkets_of_listable h Canonical.nil
    exact ⟨snapshot, hok, fun name hname info hmem husd _ => hall name hname info hmem husd⟩

/-- Discovery is given snapshots that are keyed by canonical name. -/
theorem canonical_getUsdMarketSnapshot {ticker : Ticker}
    (h : getUsdMarketSnapshot assetPairs ticker = .ok snapshot) : Canonical snapshot := by
  obtain ⟨snapshot', hok, hs', -⟩ := addMarkets_of_listable (listable_of_addMarkets h)
    Canonical.nil
  rw [Except.ok.inj (h.symm.trans hok)]
  exact hs'

end Snapshot

/-! ## Both, and the discovery run on top -/

section Both

variable (u : Unicode) (iter : SetOrder) (assetPairs : AssetPairs) (symbol : String)
  (ticker : Ticker)

/-- The discovery run on Kraken's answers is not aborted, where the columns take their
    numbers. -/
def DiscoveryReturns : Prop :=
  ∀ settings (job : Discovery.Job) db,
    job.answer = getUsdMarketSnapshot assetPairs ticker → Discovery.Keyed db →
      job.fits settings db = true → (job.run settings db).1 = .ok ()

/-- Entries without a `wsname` are handled: by the lookup, by the snapshot and by the
    discovery run. -/
structure Handled : Prop where
  resolves : ResolvesOrValueError u iter assetPairs symbol
  complete : SnapshotComplete assetPairs ticker
  returns : DiscoveryReturns assetPairs ticker

variable {assetPairs ticker} in
theorem discoveryReturns_of_complete (h : SnapshotComplete assetPairs ticker) :
    DiscoveryReturns assetPairs ticker := by
  intro settings job db hanswer hk hfits
  obtain ⟨snapshot, hok, -⟩ := h
  rw [hok] at hanswer
  refine (Discovery.run_of_snapshot settings hanswer ?_ hk hfits).1
  intro other hother
  obtain rfl := Except.ok.inj (hanswer.symm.trans hother)
  obtain ⟨hdistinct, hnamed⟩ := canonical_getUsdMarketSnapshot hok
  exact ⟨hdistinct, hnamed⟩

/-- They are handled exactly if the entry with the symbol as its canonical name has a
    `wsname`, and every USD entry of the ticker has one with one slash. -/
theorem handled_iff :
    Handled u iter assetPairs symbol ticker
      ↔ CanonicalNamed u assetPairs symbol
        ∧ ∀ name ∈ Dict.keys ticker.entries, Listable assetPairs name := by
  constructor
  · rintro ⟨hresolves, hcomplete, -⟩
    exact ⟨resolvesOrValueError_iff.mp hresolves, snapshotComplete_iff.mp hcomplete⟩
  · rintro ⟨hnamed, hlistable⟩
    have hcomplete := snapshotComplete_iff.mpr hlistable
    exact ⟨resolvesOrValueError_iff.mpr hnamed, hcomplete, discoveryReturns_of_complete hcomplete⟩

end Both

/-! ## A new listing -/

/-- The ASCII part of the tables. -/
def ascii : Unicode where
  upperChar := fun c => [c.toUpper]
  repr := fun s => "'" ++ s ++ "'"
  upper_slash := by decide
  slash_of_upper := by
    intro c h
    have hc : c.toUpper = '/' := (List.mem_singleton.mp h).symm
    delta Char.toUpper at hc
    split at hc
    · -- A small letter does not become a slash.
      rename_i hlower
      have hval := congrArg (fun c => c.val.toNat) hc
      have hlow := UInt32.le_iff_toNat_le.mp hlower.1
      have hhigh := UInt32.le_iff_toNat_le.mp hlower.2
      simp at hval hlow hhigh
      omega
    · exact hc

def asGiven : SetOrder := ⟨id, fun _ => List.Perm.refl _⟩

/-- A USD pair that has no `wsname` yet. -/
def newlyListed : AssetPairs where
  entries :=
    [("XXBTZUSD", ⟨some "XBT/USD", some "ZUSD"⟩), ("NEWUSD", ⟨none, some "USD"⟩)]
  distinct := by decide

def newlyTraded : Ticker where
  entries :=
    let one : Decimal := ⟨false, 1, 0⟩
    [("XXBTZUSD", ⟨one, one, one, one, one⟩), ("NEWUSD", ⟨one, one, one, one, one⟩)]
  distinct := by decide

/-- The symbol is answered with a `KeyError`, and there is no snapshot of any pair. -/
theorem not_handled_newlyListed :
    resolvePair ascii asGiven newlyListed "NEWUSD" = .error ⟨.keyError, "'wsname'"⟩
      ∧ getUsdMarketSnapshot newlyListed newlyTraded = .error ⟨.keyError, "'wsname'"⟩
      ∧ ¬ Handled ascii asGiven newlyListed "NEWUSD" newlyTraded := by
  have hraised : resolvePair ascii asGiven newlyListed "NEWUSD"
      = .error ⟨.keyError, "'wsname'"⟩ := by decide +kernel
  refine ⟨hraised, by decide +kernel, ?_⟩
  rintro ⟨⟨r, info, hok, -⟩ | ⟨text, herror⟩, -, -⟩
  · cases hraised.symm.trans hok
  · have hkind := congrArg Raised.error (Except.error.inj (hraised.symm.trans herror))
    cases hkind

end Dropwatch.Kraken
