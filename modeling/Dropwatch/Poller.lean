import Dropwatch.Evaluator
import Dropwatch.Lib.Json

/-! # The poller — `workers/poller.py`

    `parsePairId` reads a message body, `processBatch` turns a batch of messages
    into observations, notifications and acknowledgements.  Logging is left out;
    a branch that only logs is kept for its control flow. -/

namespace Dropwatch.Poller

open Transact RuleIndex Evaluator

/-! ## Reading a message -/

/-- `s.replace(pat, "")`; `skip` counts the characters of a match still to be
    dropped. -/
def removeAll (pat : List Char) : Nat → List Char → List Char
  | _, [] => []
  | skip + 1, _ :: cs => removeAll pat skip cs
  | 0, c :: cs =>
      if pat.isPrefixOf (c :: cs) then removeAll pat (pat.length - 1) cs
      else c :: removeAll pat 0 cs

/-- `s.strip(chars)` -/
def stripChars (chars : List Char) (s : List Char) : List Char :=
  let front := s.dropWhile (fun c => chars.contains c)
  (front.reverse.dropWhile (fun c => chars.contains c)).reverse

/-- The blanks `int` ignores around a number. -/
def isSpace (c : Char) : Bool :=
  let n := c.toNat
  (9 ≤ n && n ≤ 13) || (28 ≤ n && n ≤ 32) || n == 133 || n == 160 || n == 5760
    || (8192 ≤ n && n ≤ 8202) || n == 8232 || n == 8233 || n == 8239 || n == 8287
    || n == 12288

/-- Hexadecimal digits with single underscores between them. -/
def hexDigits : Nat → Bool → List Char → Option Nat
  | acc, afterDigit, [] => if afterDigit then some acc else none
  | acc, afterDigit, c :: cs =>
      if c == '_' then if afterDigit then hexDigits acc false cs else none
      else
        match Json.hexValue c with
        | none => none
        | some d => hexDigits (acc * 16 + d) true cs

/-- The digits after an optional `0x`, which an underscore may follow. -/
def hexBody : List Char → Option Nat
  | '0' :: x :: rest =>
      if x == 'x' || x == 'X' then hexDigits 0 (rest.head? == some '_') rest
      else hexDigits 0 false ('0' :: x :: rest)
  | cs => hexDigits 0 false cs

/-- `int(s, 16)`, for the ASCII digits; `none` is a `ValueError`. -/
def intBase16 (s : List Char) : Option Int :=
  let trimmed := ((s.dropWhile isSpace).reverse.dropWhile isSpace).reverse
  match trimmed with
  | '-' :: rest => (hexBody rest).map (fun n => -(n : Int))
  | '+' :: rest => (hexBody rest).map (fun n => (n : Int))
  | cs => (hexBody cs).map (fun n => (n : Int))

/-- `UUID(hex)` of a string. -/
def uuidOfString (text : String) : Except PyError Uuid :=
  let hex := removeAll "uuid:".toList 0 (removeAll "urn:".toList 0 text.toList)
  let hex := (stripChars [Char.ofNat 123, Char.ofNat 125] hex).filter (· != '-')
  if hex.length ≠ 32 then .error .valueError
  else
    match intBase16 hex with
    | none => .error .valueError
    | some n => if 0 ≤ n ∧ n < 2 ^ 128 then .ok n.toNat else .error .valueError

/-- `UUID(x)`: `None` is no argument at all, and what is not a string has no
    `replace`. -/
def uuidOf : Json.Value → Except PyError Uuid
  | .str text => uuidOfString text
  | .null => .error .typeError
  | _ => .error .attributeError

/-- `value[key]` with a string key: only an object can be subscripted so. -/
def subscript (value : Json.Value) (key : String) : Except PyError Json.Value :=
  match value with
  | .obj entries =>
      match entries.find? (fun e => e.1 == key) with
      | some e => .ok e.2
      | none => .error .keyError
  | _ => .error .typeError

/-- The exception of a text that `json.loads` does not read; a decode error is a
    `ValueError`. -/
def loadError : Json.LoadError → PyError
  | .decode => .valueError
  | .recursion => .recursionError

section Parse

variable (rt : Runtime)

/-- `UUID(json.loads(message["Body"])["pair_id"])` -/
def pairIdOfBody (body : String) : Except PyError Uuid :=
  match Json.loads rt.nestingLimit body with
  | .error e => .error (loadError e)
  | .ok value => do
      let pairId ← subscript value "pair_id"
      uuidOf pairId

/-- `_parse_pair_id`: a `KeyError` and a `ValueError` are caught, anything else
    goes on. -/
def parsePairId (message : Message) : Except PyError (Option Uuid) :=
  match pairIdOfBody rt message.body with
  | .ok pairId => .ok (some pairId)
  | .error .keyError => .ok none
  | .error .valueError => .ok none
  | .error e => .error e

/-- The parsing loop of `process_batch`. -/
def collectMessages : List Message → Dict Uuid Message →
    Except PyError (Dict Uuid Message)
  | [], byPairId => .ok byPairId
  | message :: rest, byPairId => do
      let pairId ← parsePairId rt message
      match pairId with
      | none => collectMessages rest byPairId
      | some pairId => collectMessages rest (byPairId.set pairId message)

end Parse

/-! ## Processing a batch -/

/-- `_delete_batch` -/
def deleteBatch (messages : List Message) : Tx Unit :=
  if messages.isEmpty then pure () else Tx.ask (.deleteMessageBatch messages)

/-- `{pair.id: pair for pair in rows}` -/
def pairsById (rows : List Pair) : Dict Uuid Pair :=
  rows.foldl (fun d p => d.set p.id p) []

/-- The live pairs of the batch, with their messages, in message order. -/
def liveEntries (byPairId : Dict Uuid Message) (pairs : Dict Uuid Pair) :
    List (Pair × Message) :=
  byPairId.filterMap (fun e => (pairs.get? e.1).map (fun p => (p, e.2)))

/-- The messages whose pair is gone. -/
def goneMessages (byPairId : Dict Uuid Message) (pairs : Dict Uuid Pair) :
    List Message :=
  (byPairId.filter (fun e => (pairs.get? e.1).isNone)).map Prod.snd

/-- `message_by_canonical` -/
def messageByCanonical (live : List (Pair × Message)) : Dict String Message :=
  live.foldl (fun d e => d.set e.1.krakenPairName e.2) []

/-- `pair_by_canonical` -/
def pairByCanonical (live : List (Pair × Message)) : Dict String Pair :=
  live.foldl (fun d e => d.set e.1.krakenPairName e.1) []

/-- The row of a quote. -/
def historyRow (pair : Pair) (quote : Quote) (observedAt : Instant) : PriceHistory :=
  { pairId := pair.id
    lastPrice := quote.last
    bidPrice := quote.bid
    askPrice := quote.ask
    volume24h := some quote.volume24h
    observedAt }

/-- What is evaluated for a quote. -/
def quoteObservation (quote : Quote) (observedAt : Instant) : Observation :=
  ⟨quote.last, quote.bid, quote.ask, observedAt⟩

/-- The column of an assigned attribute in the UPDATE of a pair. -/
def assigned (loaded : Option Decimal) (value : Decimal) : Option Decimal :=
  if sameNumber loaded (some value) then none else some value

section Batch

variable (rt : Runtime) (settings : Settings)

/-- One quoted pair: the observation is added and its rules are evaluated. -/
def observePair (pair : Pair) (quote : Quote) (observedAt : Instant) : Tx Unit := do
  Tx.write (.addPriceHistory (historyRow pair quote observedAt))
  Tx.write (.setPairObservation pair.id (assigned pair.currentLastPrice quote.last)
    (assigned pair.currentBidPrice quote.bid) (assigned pair.currentAskPrice quote.ask)
    observedAt)
  let _ ← evaluateRulesForPair rt settings pair (quoteObservation quote observedAt)
  pure ()

/-- The loop over `message_by_canonical`; it returns the messages it appended to
    `to_delete`. -/
def observeAll (pairs : Dict String Pair) (quotes : Dict String Quote)
    (observedAt : Instant) : List (String × Message) → Tx (List Message)
  | [] => pure []
  | (canonicalName, message) :: rest =>
      match quotes.get? canonicalName with
      | none => observeAll pairs quotes observedAt rest
      | some quote =>
          match pairs.get? canonicalName with
          | none => Script.fail .keyError
          | some pair => do
              observePair rt settings pair quote observedAt
              let toDelete ← observeAll pairs quotes observedAt rest
              pure (message :: toDelete)

/-- From the provider call to the end of `process_batch`. -/
def processLive (gone : List Message) (live : List (Pair × Message)) : Tx Unit := do
  let quotes ← Tx.ask (.getQuotes (messageByCanonical live).keys)
  match quotes with
  | none => deleteBatch gone
  | some quotes => do
      let observedAt ← Tx.ask .utcNow
      let toDelete ← observeAll rt settings (pairByCanonical live) quotes observedAt
        (messageByCanonical live)
      Tx.commit
      deleteBatch (gone ++ toDelete)

/-- `process_batch` -/
def processBatch (messages : List Message) : Tx Unit := do
  let byPairId ← Tx.lift (collectMessages rt messages [])
  if byPairId.isEmpty then pure ()
  else do
    let rows ← Tx.query (fun db => db.selectPairs byPairId.keys)
    let pairs := pairsById rows
    let gone := goneMessages byPairId pairs
    let live := liveEntries byPairId pairs
    if live.isEmpty then deleteBatch gone else processLive rt settings gone live

end Batch

/-- `RuleIndex.rebuild`: the SELECT, the bucketing and the swap. -/
def rebuild : Tx Nat := do
  let rules ← Tx.query (fun db => db.alertRules.filter (fun r => r.isEnabled))
  let buckets ← Tx.lift (bucketRules rules)
  Tx.mem (.install rules buckets)
  pure (bucketCount buckets)

end Dropwatch.Poller
