import Dropwatch.Lib.JsonText
import Dropwatch.Provider

/-! # The ticker as a document

    Kraken spells its numbers out, in arrays of texts.  What the client reads of such a
    document is what the ticker says, to the last digit of every number: the quotes that
    the poller stores, and the snapshot that discovery works with. -/

namespace Dropwatch.Provider

open Transact Kraken
open Poller (subscript)

/-! ## Writing -/

/-- The entry of a pair in `/Ticker`: price and volume today come before those of the last
    24 hours, and a lot size after a price; `other` stands for the numbers nobody reads. -/
def tickerEntry (other : Decimal) (info : TickerInfo) : Json.Value :=
  .obj
    [("p", .arr [.str other.str, .str info.vwap24h.str]),
      ("v", .arr [.str other.str, .str info.volume24h.str]),
      ("c", .arr [.str info.last.str, .str other.str]),
      ("b", .arr [.str info.bid.str, .str other.str, .str other.str]),
      ("a", .arr [.str info.ask.str, .str other.str, .str other.str])]

/-- The result of `/Ticker`; the entries of an object are kept backwards. -/
def tickerDocument (other : Decimal) (ticker : Ticker) : Json.Value :=
  .obj (ticker.entries.map (fun e => (e.1, tickerEntry other e.2))).reverse

/-! ## What a document says -/

/-- The array under `key` has a text of the decimal at `i`. -/
def Shows (info : Json.Value) (key : String) (i : Nat) (d : Decimal) : Prop :=
  ∃ values text, subscript info key = .ok (.arr values) ∧ values[i]? = some (.str text)
    ∧ Decimal.ofString text = some d

/-- An entry of `/Ticker`, whatever else is in it. -/
structure Line (value : Json.Value) (info : TickerInfo) : Prop where
  last : Shows value "c" 0 info.last
  bid : Shows value "b" 0 info.bid
  ask : Shows value "a" 0 info.ask
  volume24h : Shows value "v" 1 info.volume24h
  vwap24h : Shows value "p" 1 info.vwap24h

def IsLine (e : String × Json.Value) (line : String × TickerInfo) : Prop :=
  e.1 = line.1 ∧ Line e.2 line.2

/-- A result of `/Ticker`. -/
def Says (result : Json.Value) (ticker : Ticker) : Prop :=
  ∃ entries, result = .obj entries ∧ List.Forall₂ IsLine entries.reverse ticker.entries

theorem line_entry (other : Decimal) (info : TickerInfo) : Line (tickerEntry other info) info where
  last := ⟨_, _, rfl, rfl, Decimal.ofString_str _⟩
  bid := ⟨_, _, rfl, rfl, Decimal.ofString_str _⟩
  ask := ⟨_, _, rfl, rfl, Decimal.ofString_str _⟩
  volume24h := ⟨_, _, rfl, rfl, Decimal.ofString_str _⟩
  vwap24h := ⟨_, _, rfl, rfl, Decimal.ofString_str _⟩

theorem says_document (other : Decimal) (ticker : Ticker) :
    Says (tickerDocument other ticker) ticker := by
  refine ⟨_, rfl, ?_⟩
  rw [List.reverse_reverse, List.forall₂_map_left_iff]
  exact List.forall₂_same.mpr (fun line _ => ⟨rfl, line_entry other line.2⟩)

/-! ## Reading it -/

theorem numberAt_of_shows {info : Json.Value} {key : String} {i : Nat} {d : Decimal}
    (h : Shows info key i d) : numberAt info key i = .ok d := by
  obtain ⟨values, text, hkey, hi, htext⟩ := h
  have hnumber : subscriptAt (.arr values) i = .ok (.str text) := by rw [subscriptAt, hi]
  have hread : decimalOf (.str text) = .ok d := by rw [decimalOf, decimalOfText, htext]
  simp only [numberAt, item, hkey, Except.mapError, bind, Except.bind, hnumber, hread]

theorem Line.tickerInfoOf {value : Json.Value} {info : TickerInfo} (h : Line value info) :
    tickerInfoOf value = .ok info := by
  rw [Provider.tickerInfoOf, numberAt_of_shows h.last, numberAt_of_shows h.bid,
    numberAt_of_shows h.ask, numberAt_of_shows h.volume24h, numberAt_of_shows h.vwap24h]
  rfl

/-- The quote of a line of the ticker. -/
def quoteFrom (pair : String) (info : TickerInfo) : Quote where
  canonicalName := pair
  last := info.last
  bid := info.bid
  ask := info.ask
  volume24h := info.volume24h

theorem Line.quoteOf {value : Json.Value} {info : TickerInfo} (h : Line value info)
    (pair : String) : quoteOf pair value = .ok (quoteFrom pair info) := by
  rw [Provider.quoteOf, numberAt_of_shows h.last, numberAt_of_shows h.bid,
    numberAt_of_shows h.ask, numberAt_of_shows h.volume24h]
  rfl

section Lines

variable {entries : Dict String Json.Value} {lines : Dict String TickerInfo}

theorem keys_of_lines (h : List.Forall₂ IsLine entries lines) :
    entries.map Prod.fst = lines.map Prod.fst := by
  induction h with
  | nil => rfl
  | cons hline _ ih => rw [List.map_cons, List.map_cons, hline.1, ih]

theorem readEntries_of_lines (h : List.Forall₂ IsLine entries lines) :
    readEntries quoteOf entries = .ok (lines.map (fun e => (e.1, quoteFrom e.1 e.2))) := by
  induction h with
  | nil => rfl
  | @cons e line rest lines hline _ ih =>
      obtain ⟨pair, value⟩ := e
      obtain ⟨rfl, hline⟩ := hline
      rw [readEntries, hline.quoteOf, ih]
      rfl

/-- An entry of the document is taken up as its line of the ticker. -/
theorem addEntry_of_line (assetPairs : AssetPairs) (snapshot : Dict String MarketSnapshot)
    {e : String × Json.Value} {line : String × TickerInfo} (h : IsLine e line) :
    addEntry assetPairs snapshot e
      = (addMarket assetPairs snapshot line).mapError Failure.raised := by
  obtain ⟨pair, value⟩ := e
  obtain ⟨name, info⟩ := line
  obtain ⟨rfl, hline⟩ := h
  rw [addEntry, addMarket]
  cases hpair : Dict.get? (usdPairs assetPairs) pair with
  | none => rfl
  | some pairInfo =>
      cases hws : pairInfo.getWsname with
      | error e => simp [hws, bind, Except.bind, Except.mapError]
      | ok ws =>
          cases hunpack : unpackPair ws with
          | error e => simp [hws, hunpack, bind, Except.bind, Except.mapError]
          | ok parts =>
              simp [hws, hunpack, bind, Except.bind, Except.mapError, hline.tickerInfoOf,
                addMarket, hpair]

theorem foldlM_of_lines (assetPairs : AssetPairs) (h : List.Forall₂ IsLine entries lines)
    (snapshot : Dict String MarketSnapshot) : entries.foldlM (addEntry assetPairs) snapshot
      = (lines.foldlM (addMarket assetPairs) snapshot).mapError Failure.raised := by
  induction h generalizing snapshot with
  | nil => rfl
  | @cons e line rest lines hline _ ih =>
      rw [List.foldlM_cons, List.foldlM_cons, addEntry_of_line assetPairs snapshot hline]
      cases hadd : addMarket assetPairs snapshot line with
      | error raised => rfl
      | ok snapshot' => exact ih snapshot'

end Lines

/-- The dictionary of a result has the lines of the ticker. -/
theorem Says.items {result : Json.Value} {ticker : Ticker} (h : Says result ticker) :
    ∃ entries, items result = .ok entries ∧ List.Forall₂ IsLine entries ticker.entries := by
  obtain ⟨entries, rfl, hlines⟩ := h
  have hnodup : (entries.reverse.map Prod.fst).Nodup := keys_of_lines hlines ▸ ticker.distinct
  refine ⟨entries.reverse, ?_, hlines⟩
  show Except.ok (List.foldl _ [] (List.reverse _)) = _
  rw [Dict.foldl_set_nil Prod.fst Prod.snd hnodup, List.map_id'']
  exact fun _ => rfl

/-- Every pair of the ticker is quoted, with the numbers that it says. -/
theorem Says.quotesOf {result : Json.Value} {ticker : Ticker} (h : Says result ticker) :
    quotesOf result = .ok (ticker.entries.map (fun e => (e.1, quoteFrom e.1 e.2))) := by
  obtain ⟨entries, hitems, hlines⟩ := h.items
  rw [Provider.quotesOf, hitems]
  exact readEntries_of_lines hlines

/-- The snapshot of the document is the snapshot of the ticker, with its exceptions. -/
theorem Says.snapshotOf {result : Json.Value} {ticker : Ticker} (h : Says result ticker)
    (assetPairs : AssetPairs) : snapshotOf assetPairs result
      = (Kraken.getUsdMarketSnapshot assetPairs ticker).mapError Failure.raised := by
  obtain ⟨entries, hitems, hlines⟩ := h.items
  rw [Provider.snapshotOf, hitems]
  exact foldlM_of_lines assetPairs hlines []

/-- What the poller and discovery read of a document is what the ticker says. -/
theorem document_read (other : Decimal) (ticker : Ticker) :
    quotesOf (tickerDocument other ticker)
        = .ok (ticker.entries.map (fun e => (e.1, quoteFrom e.1 e.2)))
      ∧ ∀ assetPairs, snapshotOf assetPairs (tickerDocument other ticker)
        = (Kraken.getUsdMarketSnapshot assetPairs ticker).mapError Failure.raised :=
  ⟨(says_document other ticker).quotesOf, (says_document other ticker).snapshotOf⟩

/-! ## From the text -/

variable {nestingLimit : Nat}

/-- A response to `/Ticker` that is no error, in any JSON text that nests no deeper than
    the decoder goes. -/
structure Reply (nestingLimit : Nat) (resp : Response) (ticker : Ticker) : Prop where
  success : 200 ≤ resp.status ∧ resp.status < 300
  text : ∃ n result, n ≤ nestingLimit
    ∧ Json.Text n (.obj [("result", result), ("error", .arr [])]) resp.text ∧ Says result ticker

theorem Reply.resultOf {resp : Response} {ticker : Ticker} (h : Reply nestingLimit resp ticker)
    (path : String) :
    ∃ result, resultOf nestingLimit path resp = .ok result ∧ Says result ticker := by
  obtain ⟨n, result, hdepth, htext, hsays⟩ := h.text
  have hstatus : ¬ (resp.status < 200 ∨ 300 ≤ resp.status) := by
    have := h.success
    omega
  refine ⟨result, ?_, hsays⟩
  rw [Provider.resultOf, if_neg hstatus, Json.loads_of_text htext hdepth]
  rfl

/-- What `get_quotes` makes of a reply. -/
theorem Reply.quotes {resp : Response} {ticker : Ticker} (h : Reply nestingLimit resp ticker)
    (path : String) : (Provider.resultOf nestingLimit path resp >>= quotesOf)
      = .ok (ticker.entries.map (fun e => (e.1, quoteFrom e.1 e.2))) := by
  obtain ⟨result, hresult, hsays⟩ := h.resultOf path
  rw [hresult]
  exact hsays.quotesOf

end Dropwatch.Provider
