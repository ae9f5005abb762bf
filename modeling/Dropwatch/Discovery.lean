import Dropwatch.Kraken
import Dropwatch.RulesApi

/-! # Discovery — `workers/discovery.py`

    The daily job reads the market, creates the pairs it does not know and moves
    those it knows in and out of activity.  It is a script over the two write
    statements of the `pairs` table, which the other writer of pairs shares, the
    request that tracks a pair.  The statements of a run go out with its commit: a
    value that its column does not take raises there, and so does an INSERT that the
    unique index of the name refuses. -/

namespace Dropwatch.Discovery

open Transact RuleIndex Kraken
open RulesApi (HttpError)

/-- The columns of a new pair. -/
structure NewPair where
  krakenPairName : String
  displayName : String
  baseCurrency : String
  quoteCurrency : String
  pollIntervalSeconds : Int
  isActive : Bool
  notional24h : Option Decimal := none
  currentLastPrice : Option Decimal := none
  currentBidPrice : Option Decimal := none
  currentAskPrice : Option Decimal := none

/-- Every column of `pairs` takes its value. -/
def NewPair.fits (new : NewPair) : Bool :=
  fitsString new.krakenPairName
    && fitsString new.displayName
    && fitsString new.baseCurrency
    && fitsString new.quoteCurrency
    && fitsInteger new.pollIntervalSeconds
    && new.notional24h.all (fitsNumeric 24 2)
    && new.currentLastPrice.all (fitsNumeric 24 8)
    && new.currentBidPrice.all (fitsNumeric 24 8)
    && new.currentAskPrice.all (fitsNumeric 24 8)

/-- The row of an insert, as the columns of `pairs` keep it. -/
def NewPair.row (g : Generated) (new : NewPair) : Pair :=
  { id := g.id
    krakenPairName := new.krakenPairName
    displayName := new.displayName
    baseCurrency := new.baseCurrency
    quoteCurrency := new.quoteCurrency
    pollIntervalSeconds := new.pollIntervalSeconds
    isActive := new.isActive
    notional24h := new.notional24h.map (Decimal.numeric 2)
    currentLastPrice := new.currentLastPrice.map (Decimal.numeric 8)
    currentBidPrice := new.currentBidPrice.map (Decimal.numeric 8)
    currentAskPrice := new.currentAskPrice.map (Decimal.numeric 8) }

/-- The writes to `pairs`; `is_active` is left out of an UPDATE that does not assign it. -/
inductive PairWrite where
  | addPair (new : NewPair)
  | setPairMarket (pairId : Uuid) (notional24h : Decimal) (isActive : Option Bool)

/-- A loaded pair as the UPDATE leaves it. -/
def setMarket (notional24h : Decimal) (isActive : Option Bool) (pair : Pair) : Pair :=
  { pair with
    notional24h := some (notional24h.numeric 2)
    isActive := isActive.getD pair.isActive }

def PairWrite.apply (g : Generated) (w : PairWrite) (db : Database) : Database :=
  match w with
  | .addPair new => { db with pairs := db.pairs ++ [new.row g] }
  | .setPairMarket pairId notional24h isActive =>
      { db with
        pairs := updateWhere (fun p => p.id == pairId) (setMarket notional24h isActive) db.pairs }

/-- The unique index of the name. -/
def PairWrite.violates (w : PairWrite) (db : Database) : Bool :=
  match w with
  | .addPair new => db.pairs.any (fun p => p.krakenPairName == new.krakenPairName)
  | .setPairMarket .. => false

/-- Inserts of one name and updates of one row wait for each other. -/
def PairWrite.clash : PairWrite → PairWrite → Bool
  | .addPair new, .addPair new' => new.krakenPairName == new'.krakenPairName
  | .setPairMarket pairId .., .setPairMarket pairId' .. => pairId == pairId'
  | _, _ => false

/-- The calls that leave the process: the job asks the provider, a request is answered. -/
inductive MarketOp : Type → Type where
  | getUsdMarketSnapshot : MarketOp (Except Raised (Dict String MarketSnapshot))
  | respond (answer : Except HttpError Pair) : MarketOp Unit

/-- A program that writes pairs. -/
abbrev MarketTx (α : Type) : Type 1 :=
  Script Database PairWrite Generated MemOp MarketOp Raised α

/-- The exception of a value that its column does not take; which one it is, its text
    says in Postgres's words. -/
def outOfRange : Raised := ⟨.dataError, "value out of range"⟩

/-- The INSERT of a pair whose columns take their values. -/
def insertPair (new : NewPair) : MarketTx Generated := do
  let inserted ← Script.call (.insert (.addPair new))
  match inserted with
  | none =>
      Script.fail ⟨.integrityError,
        "duplicate key value violates unique constraint \"ix_pairs_kraken_pair_name\""⟩
  | some g => pure g

/-- The INSERT of a pair. -/
def addPair (new : NewPair) : MarketTx Generated :=
  if new.fits then insertPair new else Script.fail outOfRange

/-- The UPDATE of a pair. -/
def updatePair (pairId : Uuid) (notional24h : Decimal) (isActive : Option Bool) : MarketTx Unit :=
  if fitsNumeric 24 2 notional24h then
    Script.call (.write (.setPairMarket pairId notional24h isActive))
  else Script.fail outOfRange

/-- `existing_by_name` -/
def existingByName (db : Database) (names : List String) : Dict String Pair :=
  (db.pairs.filter (fun p => names.contains p.krakenPairName)).foldl
    (fun d p => Dict.set d p.krakenPairName p) []

section Run

variable (settings : Settings)

/-- `market.notional_24h >= settings.discovery_activate_floor_usd` -/
def clearsFloor (market : MarketSnapshot) : Bool :=
  decide (settings.discoveryActivateFloorUsd.toRat ≤ market.notional24h.toRat)

/-- `market.notional_24h < settings.discovery_deactivate_floor_usd` -/
def belowFloor (market : MarketSnapshot) : Bool :=
  decide (market.notional24h.toRat < settings.discoveryDeactivateFloorUsd.toRat)

/-- The pair that a market starts as. -/
def newPair (market : MarketSnapshot) : NewPair where
  krakenPairName := market.canonicalName
  displayName := market.displayName
  baseCurrency := market.baseCurrency
  quoteCurrency := market.quoteCurrency
  pollIntervalSeconds := settings.defaultPollIntervalSeconds
  isActive := true
  notional24h := some market.notional24h
  currentLastPrice := some market.last
  currentBidPrice := some market.bid
  currentAskPrice := some market.ask

/-- What a market assigns to `is_active`; between the floors nothing. -/
def assigned (market : MarketSnapshot) (isActive : Bool) : Option Bool :=
  if clearsFloor settings market && !isActive then some true
  else if belowFloor settings market && isActive then some false
  else none

/-- The loop body for one market. -/
def visitMarket (existing : Dict String Pair) (entry : String × MarketSnapshot) : MarketTx Unit :=
  match Dict.get? existing entry.1 with
  | none =>
      if clearsFloor settings entry.2 then do
        let _ ← addPair (newPair settings entry.2)
        pure ()
      else pure ()
  | some pair =>
      updatePair pair.id entry.2.notional24h (assigned settings entry.2 pair.isActive)

/-- The loop over the snapshot. -/
def visitMarkets (existing : Dict String Pair) : Dict String MarketSnapshot → MarketTx Unit
  | [] => pure ()
  | entry :: rest => do
      visitMarket settings existing entry
      visitMarkets existing rest

/-- `run_discovery` -/
def runDiscovery : MarketTx Unit := do
  let answer ← Script.call (.ask .getUsdMarketSnapshot)
  let snapshot ← Script.lift answer
  let existing ← Script.call (.query (fun db => existingByName db (Dict.keys snapshot)))
  visitMarkets settings existing snapshot
  Script.call .commit

end Run

/-! ## Runs -/

def marketBackend : Backend Database PairWrite Generated Memory MemOp where
  apply := PairWrite.apply
  violates := fun _ w db => w.violates db
  clash := fun e e' => e.2.clash e'.2
  touch := touch

/-- What one run of the job meets: the provider's answer, and the keys that `uuid4`
    draws, none of which is in use. -/
structure Job where
  answer : Except Raised (Dict String MarketSnapshot)
  uuid4 : Database → Uuid
  unused : ∀ db : Database, ∀ p ∈ db.pairs, p.id ≠ uuid4 db

/-- The job as the surroundings of its run. -/
def market : Host Database Generated Job MarketOp where
  fresh := fun db job => ⟨job.uuid4 db, 0⟩
  answer := fun e job =>
    match e with
    | .getUsdMarketSnapshot => (job.answer, job)
    | .respond _ => ((), job)

/-- A run of the job on the tables. -/
def Job.run (settings : Settings) (job : Job) (db : Database) :
    Except Raised Unit × Store Database Memory Job :=
  Transact.run marketBackend market (runDiscovery settings) ⟨db, db, {}, job⟩

/-- The tables after a run: a run that raised has committed nothing. -/
def Job.after (settings : Settings) (job : Job) (db : Database) : Database :=
  (job.run settings db).2.committed

end Dropwatch.Discovery
