import Dropwatch.ConvergenceProofs

/-! # The listener — `_listen_for_invalidations`

    A request that has committed a rule publishes a signal on a channel of Redis, and the
    listener of each poller rebuilds the index of its process on every message.  Redis
    keeps no message for anybody: it goes to those who are subscribed at that moment, and a
    connection can be gone long before the listener learns of it.

    A listener is a loop of awaits (`Stage`), and each await is a place where everything
    else goes on: requests, batches, ticks, the periodic refresh, other pollers.  The
    rebuild it awaits is a thread of its process like any other.  What `get_message`
    returns for lack of a message changes nothing and is no step. -/

namespace Dropwatch.Listener

open Transact RuleIndex Poller RulesApi Workers Integrity Convergence

/-- The awaits of the loop. -/
inductive Stage where
  /-- `pubsub.subscribe(channel)` -/
  | subscribing
  /-- `pubsub.get_message(...)` -/
  | polling
  /-- `index.rebuild()`, which is a thread -/
  | rebuilding (thread : Nat)
  /-- `pubsub.unsubscribe(channel)`, in the `finally` -/
  | unsubscribing
  /-- `asyncio.sleep(RECONNECT_BACKOFF_SECONDS)` -/
  | sleeping
  deriving DecidableEq

/-- The listener of a process, and the messages on their way to it; `none` where nothing
    published now would arrive. -/
structure Subscriber where
  stage : Stage := .subscribing
  inbox : Option (List String) := none

def Subscriber.deliver (message : String) (l : Subscriber) : Subscriber :=
  { l with inbox := l.inbox.map (fun messages => messages ++ [message]) }

/-- The turns of a listener other than from a message to the end of its rebuild: an
    exception at any of its awaits, the backoff, and a connection that is lost. -/
inductive Reconnects : Subscriber → Subscriber → Prop where
  | subscribed (inbox : Option (List String)) :
      Reconnects ⟨.subscribing, inbox⟩ ⟨.polling, some []⟩
  | refused (inbox : Option (List String)) : Reconnects ⟨.subscribing, inbox⟩ ⟨.sleeping, none⟩
  | raised (inbox : Option (List String)) : Reconnects ⟨.polling, inbox⟩ ⟨.unsubscribing, inbox⟩
  | unsubscribed (inbox : Option (List String)) :
      Reconnects ⟨.unsubscribing, inbox⟩ ⟨.sleeping, none⟩
  | woken (inbox : Option (List String)) : Reconnects ⟨.sleeping, inbox⟩ ⟨.subscribing, inbox⟩
  | dropped (stage : Stage) (inbox : Option (List String)) :
      Reconnects ⟨stage, inbox⟩ ⟨stage, none⟩

/-- The threads, and the listener of every process. -/
structure Network where
  threads : Threads
  listener : Nat → Subscriber

def Network.setListener (n : Network) (proc : Nat) (l : Subscriber) : Network :=
  { n with listener := Function.update n.listener proc l }

/-- What is noted down of a run: what a thread does, a signal that is lost or taken, a
    message that is received, a listener that is not at its messages, and a thread that is
    stopped before its end. -/
inductive Signal where
  | mark (thread : Nat) (m : Mark)
  | unsent (thread : Nat)
  | sent (thread : Nat)
  | heard (thread proc : Nat)
  | away (proc : Nat)
  | stopped (thread : Nat)
  deriving DecidableEq

def markOf : Signal → Option Mark
  | .mark _ m => some m
  | _ => none

def signals : Observer Database Write Generated Memory World MemOp ExtOp Signal :=
  fun β f i cmd =>
    match cmd with
    | .ask (.publishInvalidation _ _) => [.unsent i]
    | cmd => (marks β f i cmd).map (.mark i)

/-- The policy of threads that go to their end. -/
def finishing (rt : Runtime) (settings : Settings) : WorkerSystem :=
  { programs rt settings with closes := fun _ _ p => p = .done () }

/-- A step of the network. -/
inductive NetStep (rt : Runtime) (settings : Settings) :
    Network → List Signal → Network → Prop where
  /-- A step of a thread; a signal it publishes reaches nobody. -/
  | turn (n : Network) {ys : List Signal} {c : Threads}
      (h : TracedStep (finishing rt settings) signals n.threads ys c) :
      NetStep rt settings n ys { n with threads := c }
  /-- Redis takes the signal of a thread, whatever the thread is told.  The reason is only
      logged. -/
  | publish (n : Network) (i : Nat) {reason : String} {k : Option Nat → Tx Unit}
      {b : Option Nat} {f : Shared}
      (hi : n.threads.prog i
        = .step (.ask (.publishInvalidation settings.ruleIndexInvalidationChannel reason)) k)
      (he : Effect (programs rt settings) i n.threads.frame (Option Nat)
        (.ask (.publishInvalidation settings.ruleIndexInvalidationChannel reason)) b f) :
      NetStep rt settings n [.sent i]
        ⟨⟨f, Function.update n.threads.prog i (k b)⟩, fun p => (n.listener p).deliver "invalidate"⟩
  /-- An exception or a crash. -/
  | stop (n : Network) (i : Nat) (hi : n.threads.prog i ≠ .done ()) :
      NetStep rt settings n [.stopped i]
        { n with threads := ⟨n.threads.frame.put i none, n.threads.prog⟩ }
  | receive (n : Network) (p i : Nat) {message : String} {rest : List String}
      (hp : n.listener p = ⟨.polling, some (message :: rest)⟩)
      (hi : n.threads.frame.sessions i = none) :
      NetStep rt settings n [.heard i p]
        ⟨⟨n.threads.frame.put i (some ⟨p, []⟩), Function.update n.threads.prog i (thread rebuild)⟩,
          Function.update n.listener p ⟨.rebuilding i, some rest⟩⟩
  /-- The rebuild has returned or raised. -/
  | rebuilt (n : Network) (p i : Nat) (hp : (n.listener p).stage = .rebuilding i)
      (hi : n.threads.frame.sessions i = none) :
      NetStep rt settings n [] (n.setListener p ⟨.polling, (n.listener p).inbox⟩)
  | reconnect (n : Network) (p : Nat) {l : Subscriber} (hp : Reconnects (n.listener p) l) :
      NetStep rt settings n [.away p] (n.setListener p l)

/-- A run of the network. -/
inductive Run (rt : Runtime) (settings : Settings) : Network → List Signal → Network → Prop where
  | refl (n : Network) : Run rt settings n [] n
  | tail {n n' n'' : Network} {xs ys : List Signal} (h : Run rt settings n xs n')
      (hs : NetStep rt settings n' ys n'') : Run rt settings n (xs ++ ys) n''

end Dropwatch.Listener
