import Dropwatch.Poller

/-! # The market data provider — `providers/base.py`, `providers/kraken.py`

    `resolvePair` looks a user's symbol up in Kraken's table of asset pairs;
    `getUsdMarketSnapshot` joins that table with the ticker.  Both read an entry's
    `wsname`, which an entry may lack.  The requests themselves, their throttle and
    the cache of the table are left out: the functions get what Kraken answered. -/

namespace Dropwatch.Kraken

open Transact

/-! ## Strings -/

/-- Python's tables of Unicode: the upper case of a character, which may be several,
    and the `repr` of a string.  The slash is its own upper case, and nobody else's. -/
structure Unicode where
  upperChar : Char → List Char
  repr : String → String
  upper_slash : upperChar '/' = ['/']
  slash_of_upper : ∀ c, '/' ∈ upperChar c → c = '/'

/-- `s.upper()` -/
def Unicode.upper (u : Unicode) (s : String) : String :=
  String.ofList (s.toList.flatMap u.upperChar)

/-- `s.strip()` -/
def strip (s : String) : String :=
  let front := s.toList.dropWhile Poller.isSpace
  String.ofList (front.reverse.dropWhile Poller.isSpace).reverse

/-- `"/" in s` -/
def hasSlash (s : String) : Bool := s.toList.contains '/'

/-- `s.split("/")` -/
def splitSlash (s : String) : List String := (s.toList.splitOn '/').map String.ofList

/-- `s.endswith(suffix)` -/
def endsWith (s suffix : String) : Bool := suffix.toList.isSuffixOf s.toList

/-- `s[:-n]`; `-0` is `0`. -/
def dropLast (s : String) (n : Nat) : String :=
  if n = 0 then "" else String.ofList (s.toList.take (s.toList.length - n))

/-! ## The answers of Kraken -/

/-- An exception and its text. -/
structure Raised where
  error : PyError
  text : String
  deriving DecidableEq, Repr

/-- An entry of `AssetPairs`, by what the code reads of it; an absent key is `none`. -/
structure AssetInfo where
  wsname : Option String
  quote : Option String
  deriving DecidableEq, Repr

/-- The result of `/AssetPairs`: the keys of a JSON object are distinct. -/
structure AssetPairs where
  entries : Dict String AssetInfo
  distinct : (Dict.keys entries).Nodup

/-- An entry of `/Ticker`: the numbers `c[0]`, `b[0]`, `a[0]`, `v[1]` and `p[1]`, as
    `Decimal` reads them. -/
structure TickerInfo where
  last : Decimal
  bid : Decimal
  ask : Decimal
  volume24h : Decimal
  vwap24h : Decimal
  deriving DecidableEq, Repr

/-- The result of `/Ticker`. -/
structure Ticker where
  entries : Dict String TickerInfo
  distinct : (Dict.keys entries).Nodup

/-- `info["wsname"]` -/
def AssetInfo.getWsname (info : AssetInfo) : Except Raised String :=
  match info.wsname with
  | none => .error ⟨.keyError, "'wsname'"⟩
  | some ws => .ok ws

/-- `info.get("wsname")` as a condition. -/
def AssetInfo.isNamed (info : AssetInfo) : Bool := info.wsname.any (· ≠ "")

/-- `base, quote = ws.split("/")` -/
def unpackPair (ws : String) : Except Raised (String × String) :=
  match splitSlash ws with
  | [base, quote] => .ok (base, quote)
  | _ :: _ :: _ => .error ⟨.valueError, "too many values to unpack (expected 2)"⟩
  | _ => .error ⟨.valueError, "not enough values to unpack (expected 2, got 1)"⟩

/-! ## `resolve_pair` -/

/-- `ResolvedPair` -/
structure ResolvedPair where
  canonicalName : String
  displayName : String
  baseCurrency : String
  quoteCurrency : String
  deriving DecidableEq, Repr

/-- The order in which a set of strings is iterated. -/
structure SetOrder where
  order : List String → List String
  perm : ∀ l, (order l).Perm l

section Resolve

variable (u : Unicode) (iter : SetOrder) (assetPairs : AssetPairs)

/-- `by_canonical` -/
def byCanonical : Dict String (String × AssetInfo) :=
  assetPairs.entries.foldl (fun d e => Dict.set d (u.upper e.1) e) []

/-- `by_wsname` -/
def byWsname : Dict String (String × AssetInfo) :=
  (assetPairs.entries.filter (fun e => e.2.isNamed)).foldl
    (fun d e => Dict.set d (u.upper (e.2.wsname.getD "")) e) []

/-- `quote_codes`: a set, sorted by length, the longest first. -/
def quoteCodes : List String :=
  let codes := ((Dict.keys (byWsname u assetPairs)).filter hasSlash).filterMap
    (fun ws => (splitSlash ws)[1]?)
  (iter.order codes.dedup).insertionSort (fun a b => b.length ≤ a.length)

/-- The loop over the quote codes, up to its `break`. -/
def splitMatch (cleaned : String) : Option (String × AssetInfo) :=
  (quoteCodes u iter assetPairs).findSome? (fun quote =>
    if endsWith cleaned quote && decide (quote.length < cleaned.length) then
      Dict.get? (byWsname u assetPairs) (dropLast cleaned quote.length ++ "/" ++ quote)
    else none)

/-- The entry that `resolve_pair` settles on, if any. -/
def findMatch (cleaned : String) : Option (String × AssetInfo) :=
  let found := (Dict.get? (byCanonical u assetPairs) cleaned).or
    (Dict.get? (byWsname u assetPairs) cleaned)
  if found.isNone && !hasSlash cleaned then splitMatch u iter assetPairs cleaned else found

/-- `resolve_pair` -/
def resolvePair (symbol : String) : Except Raised ResolvedPair :=
  match findMatch u iter assetPairs (u.upper (strip symbol)) with
  | none => .error ⟨.valueError, "Could not resolve pair for " ++ u.repr symbol⟩
  | some (canonicalName, info) => do
      let ws ← info.getWsname
      let (base, quote) ← unpackPair ws
      .ok
        { canonicalName
          displayName := strip symbol
          baseCurrency := base
          quoteCurrency := quote }

end Resolve

/-! ## `get_usd_market_snapshot` -/

/-- `MarketSnapshot` -/
structure MarketSnapshot where
  canonicalName : String
  displayName : String
  baseCurrency : String
  quoteCurrency : String
  last : Decimal
  bid : Decimal
  ask : Decimal
  volume24h : Decimal
  vwap24h : Decimal
  deriving DecidableEq, Repr

/-- `notional_24h` -/
def MarketSnapshot.notional24h (market : MarketSnapshot) : Decimal :=
  market.volume24h.mul market.vwap24h

/-- `USD_QUOTE_CODES` -/
def usdQuoteCodes : List String := ["ZUSD", "USD"]

/-- `info.get("quote") in USD_QUOTE_CODES` -/
def AssetInfo.isUsd (info : AssetInfo) : Bool := info.quote.any (fun q => usdQuoteCodes.contains q)

section Snapshot

variable (assetPairs : AssetPairs)

/-- `usd_pairs` -/
def usdPairs : Dict String AssetInfo := assetPairs.entries.filter (fun e => e.2.isUsd)

/-- The loop body for one entry of the ticker. -/
def addMarket (snapshot : Dict String MarketSnapshot) (entry : String × TickerInfo) :
    Except Raised (Dict String MarketSnapshot) :=
  let (pair, info) := entry
  match Dict.get? (usdPairs assetPairs) pair with
  | none => .ok snapshot
  | some pairInfo => do
      let ws ← pairInfo.getWsname
      let (base, quote) ← unpackPair ws
      .ok (Dict.set snapshot pair
        { canonicalName := pair
          displayName := ws
          baseCurrency := base
          quoteCurrency := quote
          last := info.last
          bid := info.bid
          ask := info.ask
          volume24h := info.volume24h
          vwap24h := info.vwap24h })

/-- `get_usd_market_snapshot` -/
def getUsdMarketSnapshot (result : Ticker) : Except Raised (Dict String MarketSnapshot) :=
  result.entries.foldlM (addMarket assetPairs) []

end Snapshot

end Dropwatch.Kraken
