import Dropwatch.Lib.Interleave
import Dropwatch.Poller
import Dropwatch.Publisher

/-! # The workers over one database

    Pollers and publishers are processes of their own; inside a poller the
    rebuilds of the rule index run between the awaits of a batch.  All of them
    are threads over one Postgres (`Transact.Step`), and what the outside world
    answers is a relation: the clock may read anything, the provider may return
    anything, and a publish call may fail before or after SNS took the
    message. -/

namespace Dropwatch.Workers

open Transact RuleIndex

/-- The answers of the outside world, and how it moves on.  `accepted` collects the
    events of the publish calls that SNS took, whatever the caller was told. -/
def Answers (β : Type) (e : ExtOp β) (w : World) (b : β) (w' : World) : Prop :=
  match e, b with
  | .utcNow, t => w' = { w with clock := t }
  | .uuid4, n => w' = { w with nextUuid := n + 1 }
  | .getQuotes _, _ => w' = w
  | .deleteMessageBatch messages, _ => w' = { w with deleted := w.deleted ++ messages }
  | .publish event _ _ _, none => w' = { w with accepted := w.accepted ++ [event] }
  | .publish event _ _ _, some _ => w' = w ∨ w' = { w with accepted := w.accepted ++ [event] }
  | .sendMessage claim _ _, _ => w' = { w with sent := w.sent ++ [claim] }
  | .publishInvalidation _ _, _ => w' = w

/-- An isolated run gets answers it may get. -/
theorem answers_isolated (β : Type) (e : ExtOp β) (w : World) :
    Answers β e w (isolated.answer e w).1 (isolated.answer e w).2 := by
  cases e with
  | utcNow => rfl
  | uuid4 => rfl
  | getQuotes names => rfl
  | deleteMessageBatch messages => rfl
  | publish event topicArn subject message =>
      obtain ⟨clock, quotes, nextUuid, deleted, accepted, snsDown, sent⟩ := w
      cases snsDown with
      | none => rfl
      | some error => exact Or.inl rfl
  | sendMessage claim body delaySeconds => rfl
  | publishInvalidation channel reason => rfl

/-- Nothing SNS took is forgotten. -/
theorem Answers.accepted_subset {β : Type} {e : ExtOp β} {w w' : World} {b : β}
    (h : Answers β e w b w') : w.accepted ⊆ w'.accepted := by
  cases e with
  | utcNow => exact h ▸ List.Subset.refl _
  | uuid4 => exact h ▸ List.Subset.refl _
  | getQuotes names => exact h ▸ List.Subset.refl _
  | deleteMessageBatch messages => exact h ▸ List.Subset.refl _
  | publish event topicArn subject message =>
      cases b with
      | none => exact h ▸ List.subset_append_left _ _
      | some error =>
          rcases h with hsame | htaken
          · exact hsame ▸ List.Subset.refl _
          · exact htaken ▸ List.subset_append_left _ _
  | sendMessage claim body delaySeconds => exact h ▸ List.Subset.refl _
  | publishInvalidation channel reason => exact h ▸ List.Subset.refl _

/-- What the workers share. -/
abbrev Shared : Type := Frame Database Write Generated Memory World

/-- A policy over the workers' threads. -/
abbrev WorkerSystem : Type 1 :=
  System Database Write Generated Memory World MemOp ExtOp PyError

/-- A state of all threads. -/
abbrev Threads : Type 1 := Config Database Write Generated Memory World MemOp ExtOp PyError

/-- A worker's program as a thread: nobody reads what it returns. -/
def thread {α : Type} (p : Tx α) : Tx Unit := p >>= fun _ => pure ()

/-- Contention is mutual. -/
theorem clash_comm (x y : Generated × Write) : backend.clash x y = backend.clash y x := by
  obtain ⟨g, w⟩ := x
  obtain ⟨g', w'⟩ := y
  show Database.clash (g, w) (g', w') = Database.clash (g', w') (g, w)
  cases w <;> cases w' <;> simp only [Database.clash, BEq.comm]

/-! ## The loops of a batch -/

section Loops

open Evaluator Poller

variable {rt : Runtime} {settings : Settings} {Y : WorkerSystem} {Δ : Discipline Y} {i : Nat}
  {P : Shared → Prop}

/-- Firing keeps what each of its rules keeps. -/
theorem triple_rules {pair : Pair} {obs : Observation} {generation : Nat} {c : Candidates rt}
    {rules : List AlertRule}
    (hrule : ∀ rule ∈ rules,
      Δ.Triple i P (fireRule rt pair obs generation c rule) (fun _ => P)) :
    Δ.Triple i P (fireRules rt pair obs generation c rules) (fun _ => P) := by
  induction rules with
  | nil => exact Discipline.Triple.done (fun _ _ h => h)
  | cons rule rest ih =>
      refine Discipline.Triple.bind (hrule rule List.mem_cons_self) ?_
      intro _
      refine Discipline.Triple.bind (ih (fun r hr => hrule r (List.mem_cons_of_mem _ hr))) ?_
      exact fun _ => Discipline.Triple.done (fun _ _ h => h)

/-- Observing keeps what each quoted pair keeps. -/
theorem triple_entries {pairs : Dict String Pair} {quotes : Dict String Quote} {t : Instant}
    (hpair : ∀ pair quote, Δ.Triple i P (observePair rt settings pair quote t) (fun _ => P))
    (entries : List (String × Message)) :
    Δ.Triple i P (observeAll rt settings pairs quotes t entries) (fun _ => P) := by
  induction entries with
  | nil => exact Discipline.Triple.done (fun _ _ h => h)
  | cons entry rest ih =>
      obtain ⟨name, message⟩ := entry
      rw [observeAll]
      cases quotes.get? name with
      | none => exact ih
      | some quote =>
          cases pairs.get? name with
          | none => exact Discipline.Triple.fail
          | some pair =>
              refine Discipline.Triple.bind (hpair pair quote) ?_
              intro _
              exact Discipline.Triple.bind ih (fun _ => Discipline.Triple.done (fun _ _ h => h))

end Loops

/-! ## Examples -/

/-- A world whose clock moves on by a minute whenever it is read. -/
def ticking : Host Database Generated World ExtOp where
  fresh := isolated.fresh
  answer := fun e w =>
    match e with
    | .utcNow => (w.clock + seconds 60, { w with clock := w.clock + seconds 60 })
    | e => isolated.answer e w

theorem answers_ticking (β : Type) (e : ExtOp β) (w : World) :
    Answers β e w (ticking.answer e w).1 (ticking.answer e w).2
      ∧ w.clock ≤ (ticking.answer e w).2.clock := by
  cases e with
  | utcNow => exact ⟨rfl, Int.le_add_of_nonneg_right (by decide)⟩
  | uuid4 => exact ⟨answers_isolated _ .uuid4 w, Int.le_refl _⟩
  | getQuotes names => exact ⟨answers_isolated _ (.getQuotes names) w, Int.le_refl _⟩
  | deleteMessageBatch messages =>
      exact ⟨answers_isolated _ (.deleteMessageBatch messages) w, Int.le_refl _⟩
  | publish event topicArn subject message =>
      refine ⟨answers_isolated _ (.publish event topicArn subject message) w, ?_⟩
      show w.clock ≤ (if w.snsDown.isNone then { w with accepted := w.accepted ++ [event] }
        else w).clock
      split
      · exact Int.le_refl _
      · exact Int.le_refl _
  | sendMessage claim body delaySeconds =>
      exact ⟨answers_isolated _ (.sendMessage claim body delaySeconds) w, Int.le_refl _⟩
  | publishInvalidation channel reason =>
      exact ⟨answers_isolated _ (.publishInvalidation channel reason) w, Int.le_refl _⟩

/-- A fire that waits for its delivery. -/
def waitingNotification : Notification :=
  { ruleId := 7, pairId := 1, type := .absoluteAbove, detectedPrice := ⟨false, 150, 0⟩
    detectedStateHash := "state", idempotencyKey := "key", status := .pending
    id := 3, triggeredAt := seconds 1000000020, sentAt := none }

def waitingEvent : OutboxEvent :=
  outboxRow ⟨0, seconds 1000000020⟩ 3
    { notificationId := 3, ruleId := 7, pairId := 1, pairDisplayName := "XBT/USD"
      ruleType := .absoluteAbove, threshold := some "100", percent := none
      windowSeconds := none, sigma := none, direction := none, zScore := none
      pastPrice := none, bidPrice := none, askPrice := none, detectedPrice := "150"
      triggeredAt := seconds 1000000020, message := "XBT/USD is above 100" }

/-- Nobody has a session; one event waits. -/
def waiting : Threads where
  frame :=
    { db := { notifications := [waitingNotification], outboxEvents := [waitingEvent] }
      mem := fun _ => {}
      ext := { clock := seconds 1000000030 }
      sessions := fun _ => none }
  prog := fun _ => .done ()

/-- A rule on prices above 50, with a cooldown of two minutes. -/
def watchRule : AlertRule :=
  { id := 7, pairId := 1, ruleType := .absoluteAbove, threshold := some ⟨false, 5000000000, -8⟩
    cooldownSeconds := 120 }

/-- The message of its pair. -/
def watchMessage : Message :=
  { messageId := "1", receiptHandle := "1"
    body := "\x7b\"pair_id\": \"00000000-0000-0000-0000-000000000001\"\x7d" }

/-- A fresh process over that rule, whose pair is quoted at 100. -/
def watched : Threads where
  frame :=
    { db := { pairs := [{ id := 1, krakenPairName := "XBT/USD", displayName := "XBT/USD" }]
              alertRules := [watchRule] }
      mem := fun _ => {}
      ext :=
        { clock := seconds 1000000020
          quotes := fun _ => some [("XBT/USD", ⟨"XBT/USD", ⟨false, 100, 0⟩, ⟨false, 99, 0⟩,
            ⟨false, 101, 0⟩, ⟨false, 1, 0⟩⟩)] }
      sessions := fun _ => none }
  prog := fun _ => .done ()

end Dropwatch.Workers
