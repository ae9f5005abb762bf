import Dropwatch.Discovery

/-! # The pair endpoint — `api/routes/pairs.py`

    `createPair` looks the canonical name up and inserts it if it is not there.  The
    SELECT and the INSERT are two statements: what is committed in between the
    unique index sees and the SELECT did not. -/

namespace Dropwatch.PairsApi

open Transact RuleIndex Kraken Discovery
open RulesApi (HttpError)

/-- `CreatePairRequest` -/
structure CreatePairRequest where
  symbol : String
  pollIntervalSeconds : Int := 60
  positive : 0 < pollIntervalSeconds := by decide

/-- The pair that a request asks for. -/
def CreatePairRequest.pair (body : CreatePairRequest) (resolved : ResolvedPair) : NewPair where
  krakenPairName := resolved.canonicalName
  displayName := resolved.displayName
  baseCurrency := resolved.baseCurrency
  quoteCurrency := resolved.quoteCurrency
  pollIntervalSeconds := body.pollIntervalSeconds
  isActive := true

/-- The refusal of a name that is there. -/
def conflict (canonicalName : String) : HttpError := ⟨409, canonicalName ++ " is already tracked"⟩

/-- `session.refresh(pair)` -/
def refreshPair (pairId : Uuid) : MarketTx (Except HttpError Pair) := do
  let row ← Script.call (.query fun db => db.pairs.find? (fun p => p.id == pairId))
  match row with
  | none => Script.fail ⟨.invalidRequestError, "Could not refresh instance"⟩
  | some pair => pure (.ok pair)

/-- The commit of a new pair, whose INSERT goes out with it. -/
def commitPair (new : NewPair) : MarketTx (Except HttpError Pair) := do
  let inserted ← addPair new
  Script.call .commit
  refreshPair inserted.id

/-- The request after its symbol is resolved. -/
def trackPair (new : NewPair) : MarketTx (Except HttpError Pair) := do
  let existing ← Script.call (.query fun db =>
    db.pairs.find? (fun p => p.krakenPairName == new.krakenPairName))
  match existing with
  | some _ => pure (.error (conflict new.krakenPairName))
  | none => commitPair new

/-- `create_pair`; the provider's `resolve_pair` raises a `ValueError` on a symbol that it
    does not know. -/
def createPair (resolvePair : String → Except Raised ResolvedPair) (body : CreatePairRequest) :
    MarketTx (Except HttpError Pair) :=
  match resolvePair body.symbol with
  | .error raised =>
      if raised.error = .valueError then pure (.error ⟨422, raised.text⟩) else Script.fail raised
  | .ok resolved => trackPair (body.pair resolved)

/-- The thread of a request: what the endpoint returns is sent. -/
def answered (endpoint : MarketTx (Except HttpError Pair)) : MarketTx Unit := do
  let answer ← endpoint
  Script.call (.ask (.respond answer))

end Dropwatch.PairsApi
