import Dropwatch.Session

/-! # The scheduler — `workers/scheduler.py`

    A tick selects the due pairs, sends a staggered message for each, and claims
    them by their `last_checked_at` in one commit.  Logging is left out. -/

namespace Dropwatch.Scheduler

open Transact RuleIndex

/-- `MAX_SQS_DELAY_SECONDS` -/
def maxSqsDelaySeconds : Int := 900

/-- The pairs that are due at an instant. -/
def isDue (now : Instant) (pair : Pair) : Bool :=
  match pair.lastCheckedAt with
  | none => true
  | some lastCheckedAt => seconds pair.pollIntervalSeconds ≤ now - lastCheckedAt

/-- What `get_due_pairs` selects. -/
def duePairs (db : Database) (now : Instant) : List Pair :=
  (db.pairs.filter (fun p => p.isActive)).filter (isDue now)

/-- `get_due_pairs` -/
def getDuePairs : Tx (List Pair) := do
  let now ← Tx.ask .utcNow
  Tx.query (fun db => duePairs db now)

/-- `_stagger_delay_seconds`.  The step `window_seconds / total` is a float in the source and
    the exact quotient here. -/
def staggerDelaySeconds (index total : Nat) (windowSeconds : Int) : Int :=
  if total ≤ 1 then 0
  else min ((index * windowSeconds).tdiv total) maxSqsDelaySeconds

/-- `json.dumps({"pair_id": str(pair.id)})` -/
def messageBody (pairId : Uuid) : String :=
  "\x7b\"pair_id\": \"" ++ uuidStr pairId ++ "\"\x7d"

/-- The messages of a tick. -/
def sendAll (windowSeconds : Int) (claimedAt : Instant) (total : Nat) :
    Nat → List Pair → Tx Unit
  | _, [] => pure ()
  | index, pair :: rest => do
      Tx.ask (.sendMessage (pair.id, claimedAt) (messageBody pair.id)
        (staggerDelaySeconds index total windowSeconds))
      sendAll windowSeconds claimedAt total (index + 1) rest

/-- The claims of a tick.  The loop assigns each after its message; the statements go
    out with the commit. -/
def claimAll (claimedAt : Instant) : List Pair → Tx Unit
  | [] => pure ()
  | pair :: rest => do
      Tx.write (.claimPair pair.id claimedAt)
      claimAll claimedAt rest

/-- `enqueue_due_pairs` -/
def enqueueDuePairs (settings : Settings) : Tx Nat := do
  let due ← getDuePairs
  if due.isEmpty then pure 0
  else do
    let claimedAt ← Tx.ask .utcNow
    sendAll settings.defaultPollIntervalSeconds claimedAt due.length 0 due
    claimAll claimedAt due
    Tx.commit
    pure due.length

/-! ## What a tick can do -/

/-- It reads, claims pairs, commits, and sends messages that name the pair they are for. -/
def tickCommand : ∀ β : Type, Cmd Database Write Generated MemOp ExtOp β → Prop
  | _, .query _ => True
  | _, .write (.claimPair _ _) => True
  | _, .commit => True
  | _, .ask .utcNow => True
  | _, .ask (.sendMessage claim body _) => body = messageBody claim.1
  | _, _ => False

theorem sendAll_commands (windowSeconds : Int) (claimedAt : Instant) (total index : Nat)
    (due : List Pair) :
    (sendAll windowSeconds claimedAt total index due).Sat tickCommand (fun _ => True) := by
  induction due generalizing index with
  | nil => exact trivial
  | cons pair rest ih => exact ⟨rfl, fun _ => ih (index + 1)⟩

theorem claimAll_commands (claimedAt : Instant) (due : List Pair) :
    (claimAll claimedAt due).Sat tickCommand (fun _ => True) := by
  induction due with
  | nil => exact trivial
  | cons pair rest ih => exact ⟨trivial, fun _ => ih⟩

theorem enqueueDuePairs_commands (settings : Settings) :
    (enqueueDuePairs settings).Sat tickCommand (fun _ => True) := by
  refine ⟨trivial, fun now => ⟨trivial, fun due => ?_⟩⟩
  show Script.Sat tickCommand _ (if due.isEmpty then pure 0 else _)
  split
  · exact trivial
  · refine ⟨trivial, fun claimedAt => ?_⟩
    exact (sendAll_commands _ claimedAt _ 0 due).bind (fun _ _ =>
      (claimAll_commands claimedAt due).bind (fun _ _ => ⟨trivial, fun _ => trivial⟩))

end Dropwatch.Scheduler
