import Dropwatch.DecimalText
import Dropwatch.Lib.Asyncio

/-! # The Kraken client — `providers/kraken.py`

    One `KrakenProvider` serves every request of the API process.  Its methods are
    coroutines: `_throttle` spaces the requests behind a lock, `_get_asset_pairs` keeps
    the table of asset pairs behind another, and any of them can be cancelled, or fail
    with its request, wherever it awaits.  What they make of the documents Kraken sends
    is pure; `Kraken` has the part of it that follows the reading of a document.

    The clock is exact, where `time.monotonic()` is a float. -/

namespace Dropwatch.Provider

open Transact Asyncio Kraken
open Poller (subscript)

/-- How a coroutine of the client can end badly: an exception of its own code, the
    errors of Kraken and of HTTP, a connection that failed, a cancellation. -/
inductive Failure where
  | raised (r : Raised)
  | krakenApiError (path : String) (error : Json.Value)
  | httpStatusError (status : Nat)
  | invalidOperation
  | indexError
  | transportError
  | cancelledError

/-- An `httpx` response. -/
structure Response where
  status : Nat
  text : String

/-- The fields that the methods assign. -/
structure Fields where
  lastRequestAt : ℚ := 0
  assetPairsCache : Option Json.Value := none

inductive Lock where
  | throttle
  | assetPairs
  deriving DecidableEq

/-- The arguments of `KrakenProvider`, and how deep the JSON decoder of its process
    goes. -/
structure Params where
  baseUrl : String := "https://api.kraken.com/0/public"
  requestsPerSecond : ℚ := 1
  nestingLimit : Nat := 900

/-- `_min_interval` -/
def Params.minInterval (params : Params) : ℚ := 1 / params.requestsPerSecond

/-- `base_url.rstrip("/")` -/
def rstripSlash (s : String) : String :=
  String.ofList (s.toList.reverse.dropWhile (· == '/')).reverse

/-- `f"{self._base_url}{path}"` -/
def Params.url (params : Params) (path : String) : String := rstripSlash params.baseUrl ++ path

/-! ## Reading the documents -/

/-- An exception of the client's own code. -/
def raise (error : PyError) (text : String) : Except Failure α := .error (.raised ⟨error, text⟩)

/-- `value[key]` -/
def item (value : Json.Value) (key : String) : Except Failure Json.Value :=
  (subscript value key).mapError (fun e => .raised ⟨e, key⟩)

/-- The truth value of what `json` loads; a number is false if it is zero. -/
def truthy : Json.Value → Bool
  | .null => false
  | .bool b => b
  | .num text =>
      text == "NaN" || text == "Infinity" || text == "-Infinity"
        || (text.toList.takeWhile (fun c => !Json.isExponentMark c)).any
          (fun c => c.isDigit && c != '0')
  | .str s => s != ""
  | .arr items => !items.isEmpty
  | .obj entries => !entries.isEmpty

/-- The rest of `_get`, once there is a response. -/
def resultOf (nestingLimit : Nat) (path : String) (resp : Response) :
    Except Failure Json.Value :=
  if resp.status < 200 ∨ 300 ≤ resp.status then .error (.httpStatusError resp.status)
  else
    match Json.loads nestingLimit resp.text with
    | .error .decode => raise .valueError "Expecting value"
    | .error .recursion => raise .recursionError "maximum recursion depth exceeded"
    | .ok data => do
        let error ← item data "error"
        if truthy error then .error (.krakenApiError path error) else item data "result"

/-- `value.items()`; the entries of an object are kept backwards, and the last of two equal
    keys counts. -/
def items : Json.Value → Except Failure (Dict String Json.Value)
  | .obj entries => .ok (entries.reverse.foldl (fun d e => Dict.set d e.1 e.2) [])
  | _ => raise .attributeError "items"

/-- The entry of an asset pair, by what is read of it; a `wsname` that is null counts as
    absent, as whoever needs it raises on both. -/
def assetInfoOf (info : Json.Value) : Except Failure AssetInfo :=
  match info with
  | .obj entries => do
      let wsname ← match entries.find? (fun e => e.1 == "wsname") with
        | none => .ok none
        | some (_, .null) => .ok none
        | some (_, .str s) => .ok (some s)
        | some _ => raise .attributeError "upper"
      let quote := match entries.find? (fun e => e.1 == "quote") with
        | some (_, .str s) => some s
        | _ => none
      .ok ⟨wsname, quote⟩
  | _ => raise .attributeError "get"

/-- The entries of an object, each read by `f`. -/
def readEntries (f : String → Json.Value → Except Failure α) :
    Dict String Json.Value → Except Failure (Dict String α)
  | [] => .ok []
  | (key, value) :: rest =>
      match f key value with
      | .error e => .error e
      | .ok a =>
          match readEntries f rest with
          | .error e => .error e
          | .ok rest => .ok ((key, a) :: rest)

theorem keys_readEntries {f : String → Json.Value → Except Failure α}
    {d : Dict String Json.Value} {d' : Dict String α} (h : readEntries f d = .ok d') :
    Dict.keys d' = Dict.keys d := by
  induction d generalizing d' with
  | nil =>
      obtain rfl := Except.ok.inj h
      rfl
  | cons entry rest ih =>
      obtain ⟨key, value⟩ := entry
      rw [readEntries] at h
      cases hvalue : f key value with
      | error e => rw [hvalue] at h; cases h
      | ok a =>
          cases hrest : readEntries f rest with
          | error e => rw [hvalue, hrest] at h; cases h
          | ok rest' =>
              rw [hvalue, hrest] at h
              obtain rfl := Except.ok.inj h
              exact congrArg (key :: ·) (ih hrest)

theorem nodup_items {value : Json.Value} {d : Dict String Json.Value}
    (h : items value = .ok d) : (Dict.keys d).Nodup := by
  cases value with
  | obj entries =>
      obtain rfl := Except.ok.inj h
      exact Dict.nodup_keys_foldl_set _ _ List.nodup_nil
  | null => cases h
  | bool b => cases h
  | num text => cases h
  | str text => cases h
  | arr values => cases h

/-- The table of asset pairs. -/
def assetPairsOf (table : Json.Value) : Except Failure AssetPairs :=
  match hitems : items table with
  | .error e => .error e
  | .ok entries =>
      match hread : readEntries (fun _ => assetInfoOf) entries with
      | .error e => .error e
      | .ok infos =>
          .ok ⟨infos, by rw [keys_readEntries hread]; exact nodup_items hitems⟩

/-- `Decimal(text)` -/
def decimalOfText (text : String) : Except Failure Decimal :=
  match Decimal.ofString text with
  | none => .error .invalidOperation
  | some d => .ok d

/-- `Decimal(value)`: of a float all its binary digits; the integer `-0` is 0 and `True` 1.
    A decimal here is finite, so that the names of the infinities and of NaN do not read. -/
def decimalOf : Json.Value → Except Failure Decimal
  | .str text => decimalOfText text
  | .num text =>
      if Decimal.isFloatText text then
        match Decimal.ofFloatText text with
        | none => .error .invalidOperation
        | some d => .ok d
      else (decimalOfText text).map (fun d => ⟨d.negative && !d.isZero, d.coeff, d.exp⟩)
  | .bool b => .ok ⟨false, b.toNat, 0⟩
  | .null => raise .typeError "conversion from NoneType to Decimal is not supported"
  | .arr _ => raise .valueError "argument must be a sequence of length 3"
  | .obj _ => raise .typeError "conversion from dict to Decimal is not supported"

/-- `value[i]`: a list has items and a string characters. -/
def subscriptAt (value : Json.Value) (i : Nat) : Except Failure Json.Value :=
  match value with
  | .arr values =>
      match values[i]? with
      | none => .error .indexError
      | some v => .ok v
  | .str text =>
      match text.toList[i]? with
      | none => .error .indexError
      | some c => .ok (.str (String.singleton c))
  | .obj _ => raise .keyError (Nat.repr i)
  | _ => raise .typeError "object is not subscriptable"

/-- `Decimal(info[key][i])` -/
def numberAt (info : Json.Value) (key : String) (i : Nat) : Except Failure Decimal := do
  let value ← item info key
  let number ← subscriptAt value i
  decimalOf number

/-- The quote of one entry of `/Ticker`. -/
def quoteOf (pair : String) (info : Json.Value) : Except Failure Quote := do
  let last ← numberAt info "c" 0
  let bid ← numberAt info "b" 0
  let ask ← numberAt info "a" 0
  let volume24h ← numberAt info "v" 1
  .ok { canonicalName := pair, last, bid, ask, volume24h }

/-- The comprehension of `get_quotes`. -/
def quotesOf (result : Json.Value) : Except Failure (Dict String Quote) := do
  let entries ← items result
  readEntries quoteOf entries

/-- The numbers of one entry of `/Ticker` that a snapshot reads. -/
def tickerInfoOf (info : Json.Value) : Except Failure TickerInfo := do
  let last ← numberAt info "c" 0
  let bid ← numberAt info "b" 0
  let ask ← numberAt info "a" 0
  let volume24h ← numberAt info "v" 1
  let vwap24h ← numberAt info "p" 1
  .ok { last, bid, ask, volume24h, vwap24h }

/-- The loop body of `get_usd_market_snapshot` for one entry of the ticker: the numbers are
    read after the wsname is split, and only for a USD pair. -/
def addEntry (assetPairs : AssetPairs) (snapshot : Dict String MarketSnapshot)
    (entry : String × Json.Value) : Except Failure (Dict String MarketSnapshot) :=
  match Dict.get? (usdPairs assetPairs) entry.1 with
  | none => .ok snapshot
  | some pairInfo => do
      let _ ← (pairInfo.getWsname >>= unpackPair).mapError Failure.raised
      let info ← tickerInfoOf entry.2
      (addMarket assetPairs snapshot (entry.1, info)).mapError Failure.raised

/-- The rest of `get_usd_market_snapshot`, once there is a ticker. -/
def snapshotOf (assetPairs : AssetPairs) (result : Json.Value) :
    Except Failure (Dict String MarketSnapshot) := do
  let entries ← items result
  entries.foldlM (addEntry assetPairs) []

/-! ## The coroutines -/

/-- The outcome of a call, as its caller gets it. -/
inductive Answer where
  | resolved (symbol : String) (outcome : Except Failure ResolvedPair)
  | quoted (names : List String) (outcome : Except Failure (Dict String Quote))
  | surveyed (outcome : Except Failure (Dict String MarketSnapshot))

/-- What leaves a coroutine: a request with its query, or the outcome of the call. -/
inductive Out where
  | get (url : String) (query : List (String × String))
  | answer (a : Answer)

/-- A coroutine of the client. -/
abbrev Coroutine (α : Type) : Type 1 := Task Fields Lock ℚ Out Response Failure α

section Client

variable (params : Params)

/-- `if wait > 0: await asyncio.sleep(wait)` -/
def sleepFor (wait : ℚ) : Coroutine Unit := if 0 < wait then Task.sleep wait else pure ()

/-- The block of `_throttle` under its lock. -/
def spaceOut : Coroutine Unit := do
  let now ← Task.call .clock
  let lastRequestAt ← Task.call (.touch fun p => (p.lastRequestAt, p))
  sleepFor (lastRequestAt + params.minInterval - now)
  let now ← Task.call .clock
  Task.call (.touch fun p => ((), { p with lastRequestAt := now }))

/-- `_throttle` -/
def throttle : Coroutine Unit := Task.withLock .throttle (spaceOut params)

/-- `_get` -/
def get (path : String) (query : List (String × String)) : Coroutine Json.Value := do
  throttle params
  Task.call (.emit (.get (params.url path) query))
  let resp ← Task.await (.receive (.get (params.url path) query))
  Task.lift (resultOf params.nestingLimit path resp)

/-- The value of the field: `None` is `null`. -/
def cacheable : Json.Value → Option Json.Value
  | .null => none
  | value => some value

/-- `if self._asset_pairs_cache is None: ...` -/
def fillAssetPairs : Option Json.Value → Coroutine Unit
  | some _ => pure ()
  | none => do
      let table ← get params "/AssetPairs" []
      Task.call (.touch fun p => ((), { p with assetPairsCache := cacheable table }))

/-- The block of `_get_asset_pairs` under its lock. -/
def cachedAssetPairs : Coroutine Json.Value := do
  let cached ← Task.call (.touch fun p => (p.assetPairsCache, p))
  fillAssetPairs params cached
  Task.call (.touch fun p => (p.assetPairsCache.getD .null, p))

/-- `_get_asset_pairs` -/
def getAssetPairs : Coroutine Json.Value := Task.withLock .assetPairs (cachedAssetPairs params)

variable (u : Unicode) (iter : SetOrder)

/-- The rest of `resolve_pair`, once there is a table. -/
def resolveIn (table : Json.Value) (symbol : String) : Except Failure ResolvedPair := do
  let assetPairs ← assetPairsOf table
  (Kraken.resolvePair u iter assetPairs symbol).mapError Failure.raised

/-- `resolve_pair` -/
def resolvePair (symbol : String) : Coroutine ResolvedPair := do
  let table ← getAssetPairs params
  Task.lift (resolveIn u iter table symbol)

/-- `get_quotes` -/
def getQuotes (canonicalNames : List String) : Coroutine (Dict String Quote) := do
  let result ← get params "/Ticker" [("pair", ",".intercalate canonicalNames)]
  Task.lift (quotesOf result)

/-- `get_usd_market_snapshot` -/
def getUsdMarketSnapshot : Coroutine (Dict String MarketSnapshot) := do
  let table ← getAssetPairs params
  let assetPairs ← Task.lift (assetPairsOf table)
  let result ← get params "/Ticker" []
  Task.lift (snapshotOf assetPairs result)

/-- A call of a method by its caller. -/
def answering (answer : Except Failure α → Answer) (method : Coroutine α) : Coroutine Unit := do
  let outcome ← method.attempt
  Task.call (.emit (.answer (answer outcome)))

/-- The calls that callers make. -/
inductive IsCall : Coroutine Unit → Prop where
  | resolvePair (symbol : String) :
      IsCall (answering (.resolved symbol) (resolvePair params u iter symbol))
  | getQuotes (names : List String) : IsCall (answering (.quoted names) (getQuotes params names))
  | getUsdMarketSnapshot : IsCall (answering .surveyed (getUsdMarketSnapshot params))

/-- What the client depends on: how early a timer of the event loop may fire, and how a
    request can end. -/
structure World where
  resolution : ℚ
  nonneg : 0 ≤ resolution
  kraken : Out → Except Failure Response → Prop

/-- Any calls at any time; every await may be cancelled. -/
def client (world : World) : Loop Fields Lock ℚ Out Response Failure where
  resolution := world.resolution
  answers := world.kraken
  interrupts := fun e => e = .cancelledError
  spawns := IsCall params u iter

/-- A provider that has just been constructed. -/
def constructed (now : ℚ) : Config Fields Lock ℚ Out Response Failure :=
  ⟨⟨now, {}, fun _ => none, []⟩, none, []⟩

end Client

end Dropwatch.Provider
