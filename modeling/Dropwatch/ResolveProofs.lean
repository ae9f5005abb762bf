import Mathlib.Data.List.Dedup
import Dropwatch.WsnameProofs

/-! # What a symbol resolves to

    `Matches` says which entry a symbol stands for: the one with that canonical
    name, else the one with that wsname, else, for a symbol without a slash, the
    one that splits it with the longest quote.  On a table whose names are
    distinct the lookup finds exactly that entry (`findMatch_eq_some`), so the
    order of the table and of the set of quote codes does not show. -/

namespace Dropwatch.Kraken

open Transact

section Resolve

variable (u : Unicode) (iter : SetOrder) (assetPairs : AssetPairs)

/-- The entry has a `wsname` that reads `text` in upper case. -/
def HasWsname (e : String × AssetInfo) (text : String) : Prop :=
  ∃ ws, e.2.wsname = some ws ∧ u.upper ws = text

/-- Upper-cased names are distinct, and a `wsname` is two parts around a slash. -/
structure Listed : Prop where
  canonical : (assetPairs.entries.map fun e => u.upper e.1).Nodup
  wsnames : ((assetPairs.entries.filterMap fun e => e.2.wsname).map u.upper).Nodup
  form : ∀ e ∈ assetPairs.entries, ∀ ws, e.2.wsname = some ws →
    ∃ base quote, SplitsAt (u.upper ws) base quote ∧ base ≠ "" ∧ quote ≠ ""

/-- The entry splits the symbol at `base` and `quote`. -/
structure Splits (cleaned : String) (e : String × AssetInfo) (base quote : String) : Prop where
  mem : e ∈ assetPairs.entries
  joined : cleaned = base ++ quote
  name : HasWsname u e (base ++ "/" ++ quote)

/-- The symbol, cleaned, stands for the entry: by its canonical name, else by its
    `wsname`, else, without a slash, by the split with the longest quote. -/
inductive Matches (cleaned : String) (e : String × AssetInfo) : Prop where
  | canonical (hmem : e ∈ assetPairs.entries) (hname : u.upper e.1 = cleaned)
  | wsname (hcanonical : ∀ x ∈ assetPairs.entries, u.upper x.1 ≠ cleaned)
      (hmem : e ∈ assetPairs.entries) (hname : HasWsname u e cleaned)
  | split (hcanonical : ∀ x ∈ assetPairs.entries, u.upper x.1 ≠ cleaned)
      (hwsname : ∀ x ∈ assetPairs.entries, ¬ HasWsname u x cleaned)
      (hslash : '/' ∉ cleaned.toList) {base quote : String}
      (hsplit : Splits u assetPairs cleaned e base quote)
      (hlongest : ∀ x base' quote', Splits u assetPairs cleaned x base' quote' →
        quote'.length ≤ quote.length)

variable {u iter assetPairs}

/-- A listed `wsname` is not empty. -/
theorem Listed.isNamed (h : Listed u assetPairs) {e : String × AssetInfo}
    (he : e ∈ assetPairs.entries) {ws : String} (hws : e.2.wsname = some ws) :
    e.2.isNamed = true := by
  obtain ⟨base, quote, hsplit, -, -⟩ := h.form e he ws hws
  have hne : ws ≠ "" := by
    rintro rfl
    have hcount := hsplit.count_eq
    simp [Unicode.upper] at hcount
  simp [AssetInfo.isNamed, hws, hne]

theorem get?_byCanonical (h : Listed u assetPairs) {key : String} {e : String × AssetInfo} :
    Dict.get? (byCanonical u assetPairs) key = some e
      ↔ e ∈ assetPairs.entries ∧ u.upper e.1 = key := by
  rw [byCanonical, Dict.foldl_set_nil (fun e : String × AssetInfo => u.upper e.1) (fun e => e)
      h.canonical,
    Dict.get?_map_iff (fun e : String × AssetInfo => u.upper e.1) (fun e => e) h.canonical]
  constructor
  · rintro ⟨x, hx, hkey, rfl⟩
    exact ⟨hx, hkey⟩
  · rintro ⟨he, hkey⟩
    exact ⟨e, he, hkey, rfl⟩

/-- The filter of `by_wsname` drops the entries without a `wsname`, and no other. -/
theorem map_named {entries : List (String × AssetInfo)}
    (h : ∀ e ∈ entries, ∀ ws, e.2.wsname = some ws → e.2.isNamed = true) :
    (entries.filter (fun e => e.2.isNamed)).map (fun e => u.upper (e.2.wsname.getD ""))
      = (entries.filterMap fun e => e.2.wsname).map u.upper := by
  induction entries with
  | nil => rfl
  | cons e rest ih =>
      have ih' := ih (fun x hx => h x (List.mem_cons_of_mem _ hx))
      cases hws : e.2.wsname with
      | none =>
          have hnot : ¬ (e.2.isNamed = true) := by simp [AssetInfo.isNamed, hws]
          rw [List.filter_cons, if_neg hnot, List.filterMap_cons, hws]
          exact ih'
      | some ws =>
          rw [List.filter_cons, if_pos (h e List.mem_cons_self ws hws), List.filterMap_cons, hws,
            List.map_cons, List.map_cons, ih', hws]
          rfl

theorem get?_byWsname (h : Listed u assetPairs) {key : String} {e : String × AssetInfo} :
    Dict.get? (byWsname u assetPairs) key = some e
      ↔ e ∈ assetPairs.entries ∧ HasWsname u e key := by
  have hnodup : ((assetPairs.entries.filter (fun e => e.2.isNamed)).map
      (fun e => u.upper (e.2.wsname.getD ""))).Nodup := by
    rw [map_named (fun e he ws hws => h.isNamed he hws)]
    exact h.wsnames
  rw [byWsname, Dict.foldl_set_nil (fun e : String × AssetInfo => u.upper (e.2.wsname.getD ""))
      (fun e => e) hnodup,
    Dict.get?_map_iff (fun e : String × AssetInfo => u.upper (e.2.wsname.getD "")) (fun e => e) hnodup]
  constructor
  · rintro ⟨x, hx, hkey, rfl⟩
    obtain ⟨hmem, hnamed⟩ := List.mem_filter.mp hx
    obtain ⟨ws, hws⟩ := Option.isSome_iff_exists.mp (Option.isSome_of_any hnamed)
    rw [hws] at hkey
    exact ⟨hmem, ws, hws, hkey⟩
  · rintro ⟨hmem, ws, hws, hkey⟩
    refine ⟨e, List.mem_filter.mpr ⟨hmem, h.isNamed hmem hws⟩, ?_, rfl⟩
    rw [hws]
    exact hkey

theorem mem_keys_byWsname (h : Listed u assetPairs) {text : String} :
    text ∈ Dict.keys (byWsname u assetPairs) ↔ ∃ e ∈ assetPairs.entries, HasWsname u e text := by
  have hnodup : (Dict.keys (byWsname u assetPairs)).Nodup :=
    Dict.nodup_keys_foldl_set _ _ List.nodup_nil
  constructor
  · intro hmem
    obtain ⟨⟨key, e⟩, he, rfl⟩ := List.mem_map.mp hmem
    exact ⟨e, (get?_byWsname h).mp (Dict.get?_of_mem hnodup he)⟩
  · rintro ⟨e, he⟩
    exact List.mem_map.mpr ⟨_, Dict.mem_of_get? ((get?_byWsname h).mpr he), rfl⟩

/-- Two entries do not share a `wsname`. -/
theorem HasWsname.unique (h : Listed u assetPairs) {e x : String × AssetInfo} {text : String}
    (he : e ∈ assetPairs.entries) (hx : x ∈ assetPairs.entries) (hname : HasWsname u e text)
    (hname' : HasWsname u x text) : e = x := by
  have hget := (get?_byWsname h).mpr ⟨he, hname⟩
  rw [(get?_byWsname h).mpr ⟨hx, hname'⟩] at hget
  exact (Option.some.inj hget).symm

/-! ## The loop over the quote codes -/

/-- The quote codes are the quotes of the listed names. -/
theorem mem_quoteCodes (h : Listed u assetPairs) {quote : String} :
    quote ∈ quoteCodes u iter assetPairs
      ↔ ∃ e ∈ assetPairs.entries, ∃ base, HasWsname u e (base ++ "/" ++ quote)
          ∧ '/' ∉ base.toList ∧ '/' ∉ quote.toList := by
  rw [quoteCodes, List.mem_insertionSort, (iter.perm _).mem_iff, List.mem_dedup, List.mem_filterMap]
  constructor
  · rintro ⟨text, htext, hsecond⟩
    obtain ⟨e, he, ws, hws, rfl⟩ := (mem_keys_byWsname h).mp (List.mem_of_mem_filter htext)
    obtain ⟨base, quote', hsplit, -, -⟩ := h.form e he ws hws
    rw [hsplit.splitSlash_eq] at hsecond
    obtain rfl : quote' = quote := Option.some.inj hsecond
    exact ⟨e, he, base, ⟨ws, hws, hsplit.joined⟩, hsplit.base, hsplit.quote⟩
  · rintro ⟨e, he, base, hname, hbase, hquote⟩
    have hsplit : SplitsAt (base ++ "/" ++ quote) base quote := ⟨rfl, hbase, hquote⟩
    refine ⟨base ++ "/" ++ quote, List.mem_filter.mpr ⟨?_, ?_⟩, ?_⟩
    · exact (mem_keys_byWsname h).mpr ⟨e, he, hname⟩
    · rw [hasSlash, toList_join]
      simp
    · rw [hsplit.splitSlash_eq]
      rfl

variable (u iter assetPairs) in
theorem pairwise_quoteCodes :
    (quoteCodes u iter assetPairs).Pairwise (fun a b => b.length ≤ a.length) := by
  have : Std.Total (fun a b : String => b.length ≤ a.length) :=
    ⟨fun a b => Nat.le_total b.length a.length⟩
  have : IsTrans String (fun a b => b.length ≤ a.length) :=
    ⟨fun _ _ _ hab hbc => Nat.le_trans hbc hab⟩
  exact List.pairwise_insertionSort _ _

theorem endsWith_iff {s suffix : String} : endsWith s suffix = true ↔ ∃ base, s = base ++ suffix := by
  rw [endsWith, List.isSuffixOf_iff_suffix]
  constructor
  · rintro ⟨front, hfront⟩
    refine ⟨String.ofList front, ?_⟩
    rw [← String.toList_inj, String.toList_append, String.toList_ofList, hfront]
  · rintro ⟨base, rfl⟩
    exact ⟨base.toList, String.toList_append.symm⟩

/-- Cutting a nonempty end off leaves what is before it. -/
theorem dropLast_append (base : String) {quote : String} (h : quote ≠ "") :
    dropLast (base ++ quote) quote.length = base := by
  have hpos : quote.length ≠ 0 := by simpa using h
  rw [dropLast, if_neg hpos, ← String.toList_inj, String.toList_ofList, String.toList_append,
    List.length_append, String.length_toList, String.length_toList, Nat.add_sub_cancel]
  exact List.take_left' String.length_toList

/-- The loop body finds the entry that a quote splits the symbol for. -/
theorem splitStep_eq_some (h : Listed u assetPairs) {cleaned quote : String}
    {e : String × AssetInfo} (hquote : quote ≠ "") :
    (if endsWith cleaned quote && decide (quote.length < cleaned.length) then
        Dict.get? (byWsname u assetPairs) (dropLast cleaned quote.length ++ "/" ++ quote)
      else none) = some e
      ↔ ∃ base, cleaned = base ++ quote ∧ base ≠ "" ∧ e ∈ assetPairs.entries
          ∧ HasWsname u e (base ++ "/" ++ quote) := by
  have hlonger : ∀ base : String, quote.length < (base ++ quote).length ↔ base ≠ "" := by
    intro base
    rw [String.length_append, Nat.lt_add_left_iff_pos, Nat.pos_iff_ne_zero, ne_eq,
      String.length_eq_zero_iff]
  constructor
  · intro hstep
    split at hstep
    · rename_i hcond
      rw [Bool.and_eq_true, decide_eq_true_eq] at hcond
      obtain ⟨base, rfl⟩ := endsWith_iff.mp hcond.1
      rw [dropLast_append base hquote] at hstep
      exact ⟨base, rfl, (hlonger base).mp hcond.2, (get?_byWsname h).mp hstep⟩
    · cases hstep
  · rintro ⟨base, rfl, hbase, hmem⟩
    rw [endsWith_iff.mpr ⟨base, rfl⟩, decide_eq_true ((hlonger base).mpr hbase),
      dropLast_append base hquote]
    exact (get?_byWsname h).mpr hmem

/-- A listed name without further slashes has two parts that are not empty. -/
theorem HasWsname.parts (h : Listed u assetPairs) {e : String × AssetInfo}
    (he : e ∈ assetPairs.entries) {base quote : String} (hname : HasWsname u e (base ++ "/" ++ quote))
    (hbase : '/' ∉ base.toList) (hquote : '/' ∉ quote.toList) : base ≠ "" ∧ quote ≠ "" := by
  obtain ⟨ws, hws, hupper⟩ := hname
  obtain ⟨b, q, hsplit, hb, hq⟩ := h.form e he ws hws
  have hsplit' : SplitsAt (u.upper ws) base quote := ⟨hupper, hbase, hquote⟩
  have hparts := hsplit.splitSlash_eq.symm.trans hsplit'.splitSlash_eq
  obtain ⟨rfl, hrest⟩ := List.cons.inj hparts
  obtain ⟨rfl, -⟩ := List.cons.inj hrest
  exact ⟨hb, hq⟩

section Loop

variable {cleaned : String} {e : String × AssetInfo} {base quote : String}

/-- The parts of a symbol without a slash. -/
theorem Splits.parts (h : Listed u assetPairs) (hslash : '/' ∉ cleaned.toList)
    (hs : Splits u assetPairs cleaned e base quote) :
    '/' ∉ base.toList ∧ '/' ∉ quote.toList ∧ base ≠ "" ∧ quote ≠ "" := by
  have hparts : '/' ∉ base.toList ∧ '/' ∉ quote.toList := by
    rw [hs.joined, String.toList_append, List.mem_append, not_or] at hslash
    exact hslash
  exact ⟨hparts.1, hparts.2, hs.name.parts h hs.mem hparts.1 hparts.2⟩

/-- Two splits with quotes of one length are the same. -/
theorem Splits.unique (h : Listed u assetPairs) {e' : String × AssetInfo} {base' quote' : String}
    (hs : Splits u assetPairs cleaned e base quote)
    (hs' : Splits u assetPairs cleaned e' base' quote') (hlen : quote'.length = quote.length) :
    e' = e := by
  have hjoined : base'.toList ++ quote'.toList = base.toList ++ quote.toList := by
    rw [← String.toList_append, ← String.toList_append, ← hs.joined, ← hs'.joined]
  obtain ⟨hb, hq⟩ := List.append_inj' hjoined
    (by rw [String.length_toList, String.length_toList, hlen])
  obtain rfl := String.toList_inj.mp hb
  obtain rfl := String.toList_inj.mp hq
  exact hs'.name.unique h hs'.mem hs.mem hs.name

/-- A quote that splits the symbol is among the quote codes, and the loop body finds it. -/
theorem Splits.found (iter : SetOrder) (h : Listed u assetPairs) (hslash : '/' ∉ cleaned.toList)
    (hs : Splits u assetPairs cleaned e base quote) :
    quote ∈ quoteCodes u iter assetPairs
      ∧ (if endsWith cleaned quote && decide (quote.length < cleaned.length) then
          Dict.get? (byWsname u assetPairs) (dropLast cleaned quote.length ++ "/" ++ quote)
        else none) = some e := by
  obtain ⟨hbase, hquote, hb, hq⟩ := hs.parts h hslash
  refine ⟨(mem_quoteCodes h).mpr ⟨e, hs.mem, base, hs.name, hbase, hquote⟩, ?_⟩
  exact (splitStep_eq_some h hq).mpr ⟨base, hs.joined, hb, hs.mem, hs.name⟩

/-- What the loop finds is a split, and the longest one: an earlier quote found nothing,
    and a later one is not longer. -/
theorem splits_of_splitMatch (h : Listed u assetPairs) (hslash : '/' ∉ cleaned.toList)
    (hfound : splitMatch u iter assetPairs cleaned = some e) :
    ∃ base quote, Splits u assetPairs cleaned e base quote
      ∧ ∀ x base' quote', Splits u assetPairs cleaned x base' quote' →
          quote'.length ≤ quote.length := by
  obtain ⟨earlier, quote, later, hcodes, hstep, hnone⟩ := List.findSome?_eq_some_iff.mp hfound
  have hquote : quote ≠ "" := by
    have hmem : quote ∈ quoteCodes u iter assetPairs := by
      rw [hcodes]
      exact List.mem_append_right _ List.mem_cons_self
    obtain ⟨x, hx, base, hname, hb, hq⟩ := (mem_quoteCodes h).mp hmem
    exact (hname.parts h hx hb hq).2
  obtain ⟨base, hjoined, -, hmem, hname⟩ := (splitStep_eq_some h hquote).mp hstep
  refine ⟨base, quote, ⟨hmem, hjoined, hname⟩, ?_⟩
  intro x base' quote' hs
  obtain ⟨hcode, hfinds⟩ := hs.found iter h hslash
  have hsorted := pairwise_quoteCodes u iter assetPairs
  rw [hcodes] at hcode hsorted
  rcases List.mem_append.mp hcode with hearlier | hlater
  · cases (hnone quote' hearlier).symm.trans hfinds
  · rcases List.mem_cons.mp hlater with rfl | hlater
    · exact Nat.le_refl _
    · exact (List.pairwise_cons.mp (List.pairwise_append.mp hsorted).2.1).1 quote' hlater

/-- The loop finds the longest split. -/
theorem splitMatch_of_splits (h : Listed u assetPairs) (hslash : '/' ∉ cleaned.toList)
    (hs : Splits u assetPairs cleaned e base quote)
    (hlongest : ∀ x base' quote', Splits u assetPairs cleaned x base' quote' →
      quote'.length ≤ quote.length) : splitMatch u iter assetPairs cleaned = some e := by
  obtain ⟨hcode, hfinds⟩ := hs.found iter h hslash
  cases hfound : splitMatch u iter assetPairs cleaned with
  | none => cases (List.findSome?_eq_none_iff.mp hfound quote hcode).symm.trans hfinds
  | some e' =>
      obtain ⟨base', quote', hs', hlongest'⟩ := splits_of_splitMatch h hslash hfound
      have hlen := Nat.le_antisymm (hlongest e' base' quote' hs') (hlongest' e base quote hs)
      rw [hs.unique h hs' hlen]

end Loop

/-! ## The lookup -/

section Lookup

variable {cleaned : String} {e : String × AssetInfo}

theorem get?_byCanonical_eq_none (h : Listed u assetPairs)
    (hcanonical : ∀ x ∈ assetPairs.entries, u.upper x.1 ≠ cleaned) :
    Dict.get? (byCanonical u assetPairs) cleaned = none := by
  refine Option.eq_none_iff_forall_ne_some.mpr ?_
  intro x hx
  obtain ⟨hmem, hname⟩ := (get?_byCanonical h).mp hx
  exact hcanonical x hmem hname

theorem get?_byWsname_eq_none (h : Listed u assetPairs)
    (hwsname : ∀ x ∈ assetPairs.entries, ¬ HasWsname u x cleaned) :
    Dict.get? (byWsname u assetPairs) cleaned = none := by
  refine Option.eq_none_iff_forall_ne_some.mpr ?_
  intro x hx
  obtain ⟨hmem, hname⟩ := (get?_byWsname h).mp hx
  exact hwsname x hmem hname

theorem hasSlash_eq_false : hasSlash cleaned = false ↔ '/' ∉ cleaned.toList := by
  rw [hasSlash, List.contains_eq_mem, decide_eq_false_iff_not]

/-- The lookup settles on the entry that the symbol stands for. -/
theorem findMatch_of_matches (iter : SetOrder) (h : Listed u assetPairs)
    (hm : Matches u assetPairs cleaned e) : findMatch u iter assetPairs cleaned = some e := by
  rw [findMatch]
  -- Each rule of the source is tried after the earlier ones have found nothing.
  cases hm with
  | canonical hmem hname =>
      rw [(get?_byCanonical h).mpr ⟨hmem, hname⟩]
      rfl
  | wsname hcanonical hmem hname =>
      rw [get?_byCanonical_eq_none h hcanonical, (get?_byWsname h).mpr ⟨hmem, hname⟩]
      rfl
  | split hcanonical hwsname hslash hsplit hlongest =>
      rw [get?_byCanonical_eq_none h hcanonical, get?_byWsname_eq_none h hwsname,
        hasSlash_eq_false.mpr hslash]
      exact splitMatch_of_splits h hslash hsplit hlongest

theorem matches_of_findMatch (h : Listed u assetPairs)
    (hfound : findMatch u iter assetPairs cleaned = some e) : Matches u assetPairs cleaned e := by
  rw [findMatch] at hfound
  cases hcanonical : Dict.get? (byCanonical u assetPairs) cleaned with
  | some x =>
      rw [hcanonical] at hfound
      obtain rfl : x = e := Option.some.inj hfound
      obtain ⟨hmem, hname⟩ := (get?_byCanonical h).mp hcanonical
      exact .canonical hmem hname
  | none =>
      have hno : ∀ x ∈ assetPairs.entries, u.upper x.1 ≠ cleaned := by
        intro x hx hname
        cases hcanonical.symm.trans ((get?_byCanonical h).mpr ⟨hx, hname⟩)
      cases hwsname : Dict.get? (byWsname u assetPairs) cleaned with
      | some x =>
          rw [hcanonical, hwsname] at hfound
          obtain rfl : x = e := Option.some.inj hfound
          obtain ⟨hmem, hname⟩ := (get?_byWsname h).mp hwsname
          exact .wsname hno hmem hname
      | none =>
          have hno' : ∀ x ∈ assetPairs.entries, ¬ HasWsname u x cleaned := by
            intro x hx hname
            cases hwsname.symm.trans ((get?_byWsname h).mpr ⟨hx, hname⟩)
          rw [hcanonical, hwsname] at hfound
          cases hslash : hasSlash cleaned with
          | true =>
              rw [hslash] at hfound
              cases hfound
          | false =>
              rw [hslash] at hfound
              have hfree := hasSlash_eq_false.mp hslash
              obtain ⟨base, quote, hsplit, hlongest⟩ := splits_of_splitMatch h hfree hfound
              exact .split hno hno' hfree hsplit hlongest

/-- Upper case keeps the slashes. -/
theorem count_upper (ws : String) : (u.upper ws).toList.count '/' = ws.toList.count '/' := by
  rw [Unicode.upper, String.toList_ofList]
  induction ws.toList with
  | nil => rfl
  | cons c cs ih =>
      rw [List.flatMap_cons, List.count_append, ih, List.count_cons]
      by_cases hc : c = '/'
      · rw [hc, u.upper_slash]
        simp
        omega
      · rw [List.count_eq_zero_of_not_mem (fun h => hc (u.slash_of_upper c h))]
        simp [hc]

/-- A listed `wsname` is two parts around a slash, as it is spelled. -/
theorem Listed.splitsAt (h : Listed u assetPairs) (he : e ∈ assetPairs.entries) {ws : String}
    (hws : e.2.wsname = some ws) : ∃ base quote, SplitsAt ws base quote := by
  obtain ⟨b, q, hsplit, -, -⟩ := h.form e he ws hws
  have hone : ws.toList.count '/' = 1 := (count_upper ws).symm.trans hsplit.count_eq
  rcases splitSlash_cases ws with ⟨hzero, -⟩ | hsplit | ⟨htwo, -⟩
  · omega
  · exact hsplit
  · omega

/-- The order of the table does not matter to what is listed and matched. -/
theorem Listed.perm {assetPairs' : AssetPairs} (h : Listed u assetPairs)
    (hp : assetPairs'.entries.Perm assetPairs.entries) : Listed u assetPairs' where
  canonical := (hp.map _).nodup_iff.mpr h.canonical
  wsnames := ((hp.filterMap _).map _).nodup_iff.mpr h.wsnames
  form := fun e he => h.form e (hp.mem_iff.mp he)

theorem Splits.perm {assetPairs' : AssetPairs} {base quote : String}
    (hs : Splits u assetPairs cleaned e base quote)
    (hp : assetPairs'.entries.Perm assetPairs.entries) : Splits u assetPairs' cleaned e base quote :=
  ⟨hp.mem_iff.mpr hs.mem, hs.joined, hs.name⟩

theorem Matches.perm {assetPairs' : AssetPairs} (hm : Matches u assetPairs cleaned e)
    (hp : assetPairs'.entries.Perm assetPairs.entries) : Matches u assetPairs' cleaned e := by
  cases hm with
  | canonical hmem hname => exact .canonical (hp.mem_iff.mpr hmem) hname
  | wsname hcanonical hmem hname =>
      exact .wsname (fun x hx => hcanonical x (hp.mem_iff.mp hx)) (hp.mem_iff.mpr hmem) hname
  | split hcanonical hwsname hslash hsplit hlongest =>
      exact .split (fun x hx => hcanonical x (hp.mem_iff.mp hx))
        (fun x hx => hwsname x (hp.mem_iff.mp hx)) hslash (hsplit.perm hp)
        (fun x base' quote' hs => hlongest x base' quote' (hs.perm hp.symm))

theorem Matches.mem (hm : Matches u assetPairs cleaned e) : e ∈ assetPairs.entries := by
  cases hm with
  | canonical hmem hname => exact hmem
  | wsname hcanonical hmem hname => exact hmem
  | split hcanonical hwsname hslash hsplit hlongest => exact hsplit.mem

/-- A match is named: by the hypothesis if it is canonical, and otherwise by its kind. -/
theorem Matches.isSome_wsname (hm : Matches u assetPairs cleaned e)
    (hnamed : ∀ x ∈ assetPairs.entries, u.upper x.1 = cleaned → x.2.wsname.isSome) :
    e.2.wsname.isSome := by
  cases hm with
  | canonical hmem hname => exact hnamed e hmem hname
  | wsname hcanonical hmem hname =>
      obtain ⟨ws, hws, -⟩ := hname
      exact Option.isSome_of_eq_some hws
  | split hcanonical hwsname hslash hsplit hlongest =>
      obtain ⟨ws, hws, -⟩ := hsplit.name
      exact Option.isSome_of_eq_some hws

/-- The lookup settles on nothing if the symbol stands for nothing. -/
theorem findMatch_eq_none (iter : SetOrder) (h : Listed u assetPairs)
    (hm : ∀ e, ¬ Matches u assetPairs cleaned e) : findMatch u iter assetPairs cleaned = none :=
  Option.eq_none_iff_forall_ne_some.mpr (fun e he => hm e (matches_of_findMatch h he))

/-- Neither the order of the table nor that of the set of quote codes shows. -/
theorem findMatch_perm {assetPairs' : AssetPairs} (iter iter' : SetOrder)
    (h : Listed u assetPairs) (hp : assetPairs'.entries.Perm assetPairs.entries) :
    findMatch u iter' assetPairs' cleaned = findMatch u iter assetPairs cleaned := by
  cases hfound : findMatch u iter assetPairs cleaned with
  | some e => exact findMatch_of_matches iter' (h.perm hp) ((matches_of_findMatch h hfound).perm hp)
  | none =>
      refine findMatch_eq_none iter' (h.perm hp) ?_
      intro e hm
      cases hfound.symm.trans (findMatch_of_matches iter h (hm.perm hp.symm))

end Lookup

/-- Resolving meets its specification: the entry that the cleaned symbol stands for is
    returned, with the parts of its `wsname`; a symbol that stands for no entry is a
    `ValueError`; and no order shows in the result. -/
theorem resolvePair_spec {symbol : String} (h : Listed u assetPairs)
    (hnamed : ∀ e ∈ assetPairs.entries, u.upper e.1 = u.upper (strip symbol) → e.2.wsname.isSome) :
    (∀ e, Matches u assetPairs (u.upper (strip symbol)) e →
        ∃ ws base quote, e.2.wsname = some ws ∧ SplitsAt ws base quote
          ∧ resolvePair u iter assetPairs symbol = .ok ⟨e.1, strip symbol, base, quote⟩)
      ∧ ((∀ e, ¬ Matches u assetPairs (u.upper (strip symbol)) e) →
          resolvePair u iter assetPairs symbol
            = .error ⟨.valueError, "Could not resolve pair for " ++ u.repr symbol⟩)
      ∧ ∀ (iter' : SetOrder) (assetPairs' : AssetPairs),
          assetPairs'.entries.Perm assetPairs.entries →
            resolvePair u iter' assetPairs' symbol = resolvePair u iter assetPairs symbol := by
  refine ⟨?_, ?_, ?_⟩
  · intro e hm
    obtain ⟨ws, hws⟩ := Option.isSome_iff_exists.mp (hm.isSome_wsname hnamed)
    obtain ⟨base, quote, hsplit⟩ := h.splitsAt hm.mem hws
    refine ⟨ws, base, quote, hws, hsplit, ?_⟩
    rw [resolvePair_of_named (findMatch_of_matches iter h hm) hws, unpackPair_eq_ok.mpr hsplit]
    rfl
  · intro hm
    rw [resolvePair, findMatch_eq_none iter h hm]
  · intro iter' assetPairs' hp
    rw [resolvePair, resolvePair, findMatch_perm iter iter' h hp]

/-! ## Two readings of one symbol -/

/-- `ABCUSD` is `ABC/USD` or `AB/CUSD`. -/
def ambiguous : AssetPairs where
  entries :=
    [("ABCZUSD", ⟨some "ABC/USD", some "ZUSD"⟩), ("ABXCUSD", ⟨some "AB/CUSD", some "XCUSD"⟩)]
  distinct := by decide

theorem listed_ambiguous : Listed ascii ambiguous where
  canonical := by decide +kernel
  wsnames := by decide +kernel
  form := by
    intro e he ws hws
    rcases List.mem_pair.mp he with rfl | rfl
    · obtain rfl := Option.some.inj hws
      exact ⟨"ABC", "USD", ⟨by decide +kernel, by decide, by decide⟩, by decide, by decide⟩
    · obtain rfl := Option.some.inj hws
      exact ⟨"AB", "CUSD", ⟨by decide +kernel, by decide, by decide⟩, by decide, by decide⟩

/-- The same table, the other way round. -/
def ambiguousReversed : AssetPairs := ⟨ambiguous.entries.reverse, by decide⟩

/-- The longest quote wins in either order, and a quote that is not listed is none. -/
theorem resolvePair_spec_ambiguous :
    (∃ base quote, SplitsAt "AB/CUSD" base quote
        ∧ resolvePair ascii asGiven ambiguous " abcusd "
          = .ok ⟨"ABXCUSD", strip " abcusd ", base, quote⟩)
      ∧ resolvePair ascii asGiven ambiguousReversed " abcusd "
        = resolvePair ascii asGiven ambiguous " abcusd "
      ∧ resolvePair ascii asGiven ambiguous "abceur"
        = .error ⟨.valueError, "Could not resolve pair for 'abceur'"⟩ := by
  have hnamed : ∀ cleaned, ∀ e ∈ ambiguous.entries, ascii.upper e.1 = cleaned →
      e.2.wsname.isSome := by
    intro cleaned e he _
    rcases List.mem_pair.mp he with rfl | rfl
    · rfl
    · rfl
  obtain ⟨hfound, -, horder⟩ :=
    @resolvePair_spec ascii asGiven ambiguous " abcusd " listed_ambiguous (hnamed _)
  have hlongest : Matches ascii ambiguous (ascii.upper (strip " abcusd "))
      ("ABXCUSD", ⟨some "AB/CUSD", some "XCUSD"⟩) :=
    @matches_of_findMatch _ asGiven _ _ _ listed_ambiguous (by decide +kernel)
  obtain ⟨ws, base, quote, hws, hsplit, hresult⟩ := hfound _ hlongest
  obtain rfl := Option.some.inj hws
  refine ⟨⟨base, quote, hsplit, hresult⟩,
    horder asGiven ambiguousReversed (List.reverse_perm _), ?_⟩
  refine (resolvePair_spec listed_ambiguous (hnamed _)).2.1 ?_
  intro e hmatch
  have hnone : findMatch ascii asGiven ambiguous (ascii.upper (strip "abceur")) = none := by
    decide +kernel
  cases hnone.symm.trans (findMatch_of_matches asGiven listed_ambiguous hmatch)

end Resolve

example : resolvePair ascii asGiven ambiguous " abcusd " = .ok ⟨"ABXCUSD", "abcusd", "AB", "CUSD"⟩ := by
  decide +kernel

end Dropwatch.Kraken
