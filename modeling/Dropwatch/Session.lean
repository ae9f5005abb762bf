import Dropwatch.RuleIndex

/-! # Sessions — the commands of the workers

    A worker's code is a `Tx`: a script over the tables, over the memory of its
    process and over the outside world (`ExtOp`: the clock, `uuid4`, the market
    data provider, SQS and SNS).  A call that the code wraps in `try` answers
    with an `Option`; any other command may also fail, which is not part of the
    script (see `Transact.Uncommitted` and `Transact.Step`). -/

namespace Dropwatch

open Transact RuleIndex

/-- `providers.base.Quote` -/
structure Quote where
  canonicalName : String
  last : Decimal
  bid : Decimal
  ask : Decimal
  volume24h : Decimal
  deriving DecidableEq, Repr

/-- An SQS message, as `receive_message` returns it. -/
structure Message where
  messageId : String
  receiptHandle : String
  body : String
  deriving DecidableEq, Repr

/-- The calls that leave the process. -/
inductive ExtOp : Type → Type where
  | utcNow : ExtOp Instant
  | uuid4 : ExtOp Uuid
  /-- `none` is an exception of the provider. -/
  | getQuotes (names : List String) : ExtOp (Option (Dict String Quote))
  | deleteMessageBatch (messages : List Message) : ExtOp Unit
  /-- `sns.publish` on behalf of an outbox event; `some` is the text of the
      exception it raised, `none` an accepted message. -/
  | publish (event : Uuid) (topicArn subject message : String) :
      ExtOp (Option String)
  /-- `sqs_client.send_message` on behalf of a claim: the pair and its
      `claimed_at`. -/
  | sendMessage (claim : Uuid × Instant) (body : String) (delaySeconds : Int) : ExtOp Unit
  /-- `redis_client.publish`; `none` is an exception. -/
  | publishInvalidation (channel reason : String) : ExtOp (Option Nat)

/-- A program of a worker. -/
abbrev Tx (α : Type) : Type 1 :=
  Script Database Write Generated MemOp ExtOp PyError α

namespace Tx

abbrev query {β : Type} (q : Database → β) : Tx β := Script.call (.query q)
abbrev write (w : Write) : Tx Unit := Script.call (.write w)
abbrev insert (w : Write) : Tx (Option Generated) := Script.call (.insert w)
abbrev commit : Tx Unit := Script.call .commit
abbrev mem {β : Type} (m : MemOp β) : Tx β := Script.call (.mem m)
abbrev ask {β : Type} (e : ExtOp β) : Tx β := Script.call (.ask e)
abbrev lift {α : Type} (x : Except PyError α) : Tx α := Script.lift x

end Tx

/-- Postgres and the process under a session. -/
def backend : Backend Database Write Generated Memory MemOp where
  apply := Database.apply
  violates := Database.violates
  clash := Database.clash
  touch := touch

/-- The surroundings of an isolated run: one reading of the clock serves the
    whole call, the provider is a function of the names it is asked for (`none`
    when it fails), and what leaves the process is recorded. -/
structure World where
  clock : Instant
  quotes : List String → Option (Dict String Quote) := fun _ => some []
  nextUuid : Uuid := 0
  deleted : List Message := []
  accepted : List Uuid := []
  snsDown : Option String := none
  sent : List (Uuid × Instant) := []

/-- The answers of an isolated run. -/
def World.answer {β : Type} (e : ExtOp β) (w : World) : β × World :=
  match e with
  | .utcNow => (w.clock, w)
  | .uuid4 => (w.nextUuid, { w with nextUuid := w.nextUuid + 1 })
  | .getQuotes names => (w.quotes names, w)
  | .deleteMessageBatch messages => ((), { w with deleted := w.deleted ++ messages })
  | .publish event _ _ _ =>
      (w.snsDown,
        if w.snsDown.isNone then { w with accepted := w.accepted ++ [event] } else w)
  | .sendMessage claim _ _ => ((), { w with sent := w.sent ++ [claim] })
  | .publishInvalidation _ _ => (some 1, w)

/-- An isolated run: new rows get an unused key and the transaction's time. -/
def isolated : Host Database Generated World ExtOp where
  fresh := fun db w => ⟨db.freshId, w.clock⟩
  answer := World.answer

/-- The state of an isolated run. -/
abbrev State := Store Database Memory World

/-- An isolated run of a worker's program. -/
abbrev runTx {α : Type} (p : Tx α) (s : State) : Except PyError α × State :=
  run backend isolated p s

theorem runTx_bind {α β : Type} (p : Tx α) (f : α → Tx β) (s : State) :
    runTx (p >>= f) s = thenRun backend isolated (runTx p s) f :=
  run_bind backend isolated p f s

theorem runTx_query_bind {α β : Type} (q : Database → β) (f : β → Tx α) (s : State) :
    runTx (Tx.query q >>= f) s = runTx (f (q s.view)) s := run_query_bind backend isolated q f s

theorem runTx_ask_bind {α β : Type} (e : ExtOp β) (f : β → Tx α) (s : State) :
    runTx (Tx.ask e >>= f) s
      = runTx (f (isolated.answer e s.env).1) { s with env := (isolated.answer e s.env).2 } :=
  run_ask_bind backend isolated e f s

theorem runTx_bind_ok {α β : Type} {p : Tx α} {f : α → Tx β} {s s' : State} {a : α}
    (h : runTx p s = (.ok a, s')) : runTx (p >>= f) s = runTx (f a) s' :=
  run_bind_ok backend isolated h

theorem runTx_bind_error {α β : Type} {p : Tx α} {f : α → Tx β} {s s' : State}
    {e : PyError} (h : runTx p s = (.error e, s')) :
    runTx (p >>= f) s = (.error e, s') :=
  run_bind_error backend isolated h

theorem runTx_bind_inv {α β : Type} {p : Tx α} {f : α → Tx β} {s s' : State} {b : β}
    (h : runTx (p >>= f) s = (.ok b, s')) :
    ∃ a s₁, runTx p s = (.ok a, s₁) ∧ runTx (f a) s₁ = (.ok b, s') :=
  run_bind_inv backend isolated h

theorem runTx_map_fst {α β : Type} (p : Tx α) (f : α → β) (s : State) :
    (runTx (p >>= fun a => pure (f a)) s).1 = (runTx p s).1.map f :=
  run_map_fst backend isolated p f s

end Dropwatch
