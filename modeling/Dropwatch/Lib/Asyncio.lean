import Mathlib.Algebra.Order.Group.Defs
import Mathlib.Logic.Function.Basic
import Mathlib.Logic.Relation

/-! # Cooperative tasks — coroutines on one event loop

    A task runs alone until it reaches an operation that may suspend it: taking a
    lock, sleeping, waiting for an answer.  Between two of these nobody else moves
    and only the clock goes on.  An operation that suspends may end in an exception
    instead (a cancellation, a timeout, a failed request), and what a task holds
    then is given back by the code around it, `withLock`.

    What the tasks put out and the answers they get are noted down in order.

    Reasoning is that of a monitor: an invariant `J` holds whenever no task runs, and
    for every task a relation `R` contains what the others do while it is suspended.
    `Safe` is the weakest precondition of a task under that interference, `Triple`
    its Hoare form, and `Monitor.valid_of_reaches` the soundness. -/

namespace Asyncio

/-- One operation, indexed by its answer: `M` the fields of the shared object, `L` its
    locks, `T` the time, `Q` what is put out and `A` what is answered, `ε` the
    exceptions. -/
inductive Op (M L T Q A ε : Type) : Type → Type 1 where
  | clock : Op M L T Q A ε T
  | touch {β : Type} (m : M → β × M) : Op M L T Q A ε β
  | release (l : L) : Op M L T Q A ε Unit
  | emit (q : Q) : Op M L T Q A ε Unit
  | acquire (l : L) : Op M L T Q A ε (Except ε Unit)
  | wake (deadline : T) : Op M L T Q A ε (Except ε Unit)
  | receive (q : Q) : Op M L T Q A ε (Except ε A)

/-- The operations at which a task may be suspended. -/
def Op.awaits {M L T Q A ε β : Type} : Op M L T Q A ε β → Bool
  | .acquire _ => true
  | .wake _ => true
  | .receive _ => true
  | _ => false

/-- A coroutine: `fail` is an exception that it does not catch. -/
inductive Task (M L T Q A ε α : Type) : Type 1 where
  | done (a : α)
  | fail (e : ε)
  | step {β : Type} (op : Op M L T Q A ε β) (k : β → Task M L T Q A ε α)

variable {M L T Q A ε α β γ : Type}

namespace Task

/-- Sequencing. -/
def bind (p : Task M L T Q A ε α) (f : α → Task M L T Q A ε β) : Task M L T Q A ε β :=
  match p with
  | done a => f a
  | fail e => fail e
  | step op k => step op (fun b => (k b).bind f)

instance : Monad (Task M L T Q A ε) where
  pure := done
  bind := bind

@[simp] theorem pure_eq (a : α) : (pure a : Task M L T Q A ε α) = done a := rfl

@[simp] theorem done_bind (a : α) (f : α → Task M L T Q A ε β) : (done a >>= f) = f a := rfl

@[simp] theorem fail_bind (e : ε) (f : α → Task M L T Q A ε β) : (fail e >>= f) = fail e := rfl

@[simp] theorem step_bind (op : Op M L T Q A ε γ) (k : γ → Task M L T Q A ε α)
    (f : α → Task M L T Q A ε β) : (step op k >>= f) = step op (fun b => k b >>= f) := rfl

/-- Raise the error of a pure computation, if it has one. -/
def lift : Except ε α → Task M L T Q A ε α
  | .ok a => done a
  | .error e => fail e

/-- An operation that never suspends. -/
def call (op : Op M L T Q A ε β) : Task M L T Q A ε β := step op done

/-- `await op`: what ends it may be an exception. -/
def await (op : Op M L T Q A ε (Except ε β)) : Task M L T Q A ε β := step op lift

/-- The outcome of a task as a value, `try: ...`. -/
def attempt : Task M L T Q A ε α → Task M L T Q A ε (Except ε α)
  | done a => done (.ok a)
  | fail e => done (.error e)
  | step op k => step op (fun b => (k b).attempt)

/-- `async with lock: body`: the lock is released whatever the body's outcome. -/
def withLock (l : L) (body : Task M L T Q A ε α) : Task M L T Q A ε α := do
  await (.acquire l)
  let outcome ← body.attempt
  call (.release l)
  lift outcome

/-- `asyncio.sleep(d)`: the timer is set when the coroutine gets there. -/
def sleep [Add T] (d : T) : Task M L T Q A ε Unit := do
  let now ← call .clock
  await (.wake (now + d))

/-- A task that nobody has to wait for: it is over, or may be suspended where it is. -/
def rests : Task M L T Q A ε α → Bool
  | step op _ => op.awaits
  | _ => true

/-- A task that is over. -/
def ended : Task M L T Q A ε α → Bool
  | step _ _ => false
  | _ => true

theorem rests_of_ended {p : Task M L T Q A ε α} (h : p.ended = true) : p.rests = true := by
  cases p with
  | done a => rfl
  | fail e => rfl
  | step op k => cases h

end Task

/-! ## The loop -/

/-- What is noted down of a run. -/
inductive Event (T Q A ε : Type) where
  | sent (i : Nat) (t : T) (q : Q)
  | received (i : Nat) (t : T) (q : Q) (r : Except ε A)

/-- What the tasks of a loop share: the clock, the fields of the object, the task that
    holds each lock, and the events so far. -/
structure Frame (M L T Q A ε : Type) where
  clock : T
  mem : M
  owner : L → Option Nat
  hist : List (Event T Q A ε)

namespace Frame

variable (f : Frame M L T Q A ε)

def setClock (t : T) : Frame M L T Q A ε := { f with clock := t }

def setMem (m : M) : Frame M L T Q A ε := { f with mem := m }

def setOwner [DecidableEq L] (l : L) (i : Option Nat) : Frame M L T Q A ε :=
  { f with owner := Function.update f.owner l i }

def note (e : Event T Q A ε) : Frame M L T Q A ε := { f with hist := f.hist ++ [e] }

@[simp] theorem setOwner_self [DecidableEq L] (l : L) (i : Option Nat) :
    (f.setOwner l i).owner l = i := by
  show Function.update f.owner l i l = i
  exact Function.update_self ..

theorem setOwner_of_ne [DecidableEq L] {l l' : L} (h : l' ≠ l) (i : Option Nat) :
    (f.setOwner l i).owner l' = f.owner l' := by
  show Function.update f.owner l i l' = f.owner l'
  exact Function.update_of_ne h ..

end Frame

/-- The surroundings of the tasks: how early a timer may fire, the answers a request can
    get, the exceptions that can end a wait, and the tasks that may be started. -/
structure Loop (M L T Q A ε : Type) where
  resolution : T
  answers : Q → Except ε A → Prop
  interrupts : ε → Prop
  spawns : Task M L T Q A ε Unit → Prop

/-- A frame, the task that is running, and what every task still has to do. -/
structure Config (M L T Q A ε : Type) where
  frame : Frame M L T Q A ε
  running : Option Nat
  tasks : List (Task M L T Q A ε Unit)

section Semantics

variable [Preorder T] [Add T] [DecidableEq L]

/-- One operation of task `i`: its answer and what it does to the frame. -/
def Effect (Y : Loop M L T Q A ε) (i : Nat) (f : Frame M L T Q A ε) (β : Type)
    (op : Op M L T Q A ε β) (b : β) (f' : Frame M L T Q A ε) : Prop :=
  match op, b with
  | .clock, b => b = f.clock ∧ f' = f
  | .touch m, b => b = (m f.mem).1 ∧ f' = f.setMem (m f.mem).2
  | .release l, _ => f' = f.setOwner l none
  | .emit q, _ => f' = f.note (.sent i f.clock q)
  | .acquire l, .ok _ => f.owner l = none ∧ f' = f.setOwner l (some i)
  | .acquire _, .error e => Y.interrupts e ∧ f' = f
  | .wake deadline, .ok _ => deadline ≤ f.clock + Y.resolution ∧ f' = f
  | .wake _, .error e => Y.interrupts e ∧ f' = f
  | .receive q, r => Y.answers q r ∧ f' = f.note (.received i f.clock q r)

/-- Time passes, a task is started, takes a step, or lets another one run. -/
inductive Step (Y : Loop M L T Q A ε) : Config M L T Q A ε → Config M L T Q A ε → Prop where
  | tick (c : Config M L T Q A ε) (t : T) (ht : c.frame.clock ≤ t) :
      Step Y c { c with frame := c.frame.setClock t }
  | spawn (c : Config M L T Q A ε) (p : Task M L T Q A ε Unit) (hp : Y.spawns p) :
      Step Y c { c with tasks := c.tasks ++ [p] }
  | exec (c : Config M L T Q A ε) (i : Nat) {β : Type} (op : Op M L T Q A ε β)
      (k : β → Task M L T Q A ε Unit) (b : β) (f : Frame M L T Q A ε)
      (hi : c.tasks[i]? = some (.step op k)) (hrun : c.running = none ∨ c.running = some i)
      (he : Effect Y i c.frame β op b f) :
      Step Y c ⟨f, some i, c.tasks.set i (k b)⟩
  | park (c : Config M L T Q A ε) (i : Nat) (p : Task M L T Q A ε Unit)
      (hrun : c.running = some i) (hi : c.tasks[i]? = some p) (hp : p.rests = true) :
      Step Y c { c with running := none }

/-- Any number of steps. -/
abbrev Reaches (Y : Loop M L T Q A ε) : Config M L T Q A ε → Config M L T Q A ε → Prop :=
  Relation.ReflTransGen (Step Y)

/-! ## Monitors -/

/-- The clock has gone on and nothing else has happened. -/
def Ticked (f f' : Frame M L T Q A ε) : Prop := ∃ t, f.clock ≤ t ∧ f' = f.setClock t

/-- An invariant that holds whenever no task runs, and for every task what its own
    operations do (`Own`) and what happens to it while others run (`R`). -/
structure Monitor (Y : Loop M L T Q A ε) where
  J : Frame M L T Q A ε → Prop
  R : Nat → Frame M L T Q A ε → Frame M L T Q A ε → Prop
  Own : Nat → Frame M L T Q A ε → Frame M L T Q A ε → Prop
  refl : ∀ i f, R i f f
  trans : ∀ {i f f' f''}, R i f f' → R i f' f'' → R i f f''
  ticks : ∀ {i f f'}, Ticked f f' → R i f f'
  keeps : ∀ {f f'}, J f → Ticked f f' → J f'
  others : ∀ {i j : Nat} {β : Type} {f f' : Frame M L T Q A ε} {op : Op M L T Q A ε β} {b : β},
    Effect Y i f β op b f' → Own i f f' → j ≠ i → R j f f'

namespace Monitor

variable {Y : Loop M L T Q A ε} (Δ : Monitor Y) (i : Nat)

/-- What may happen before an operation is carried out. -/
def Between (op : Op M L T Q A ε β) (f f' : Frame M L T Q A ε) : Prop :=
  if op.awaits then Δ.R i f f' ∧ Δ.J f' else Ticked f f'

/-- Wherever the rest of the task may be suspended the invariant holds, and it ends in
    `Post`, with its value or its exception. -/
def Safe (Post : Except ε α → Frame M L T Q A ε → Prop) :
    Task M L T Q A ε α → Frame M L T Q A ε → Prop
  | .done a, f => Post (.ok a) f
  | .fail e, f => Post (.error e) f
  | .step (β := β) op k, f =>
      (op.awaits = true → Δ.J f) ∧
        ∀ f', Δ.Between i op f f' → ∀ b f'', Effect Y i f' β op b f'' →
          Δ.Own i f' f'' ∧ Safe Post (k b) f''

/-- Started in `P` the task is safe and ends in `Post`. -/
def Triple (P : Frame M L T Q A ε → Prop) (p : Task M L T Q A ε α)
    (Post : Except ε α → Frame M L T Q A ε → Prop) : Prop :=
  ∀ f, P f → Δ.Safe i Post p f

variable {Δ i} {P B : Frame M L T Q A ε → Prop}
  {Post Post' : Except ε α → Frame M L T Q A ε → Prop}

theorem Safe.mono {p : Task M L T Q A ε α} {f : Frame M L T Q A ε} (hp : Δ.Safe i Post p f)
    (h : ∀ r f, Post r f → Post' r f) : Δ.Safe i Post' p f := by
  induction p generalizing f with
  | done a => exact h _ _ hp
  | fail e => exact h _ _ hp
  | step op k ih =>
      refine ⟨hp.1, ?_⟩
      intro f' hf b f'' he
      obtain ⟨hown, hrest⟩ := hp.2 f' hf b f'' he
      exact ⟨hown, ih b hrest⟩

/-- The rule of consequence. -/
theorem Triple.conseq {p : Task M L T Q A ε α} (hp : Δ.Triple i P p Post)
    (hP : ∀ f, B f → P f) (hPost : ∀ r f, Post r f → Post' r f) : Δ.Triple i B p Post' :=
  fun f hf => (hp f (hP f hf)).mono hPost

theorem Triple.done {a : α} (h : ∀ f, P f → Post (.ok a) f) : Δ.Triple i P (.done a) Post := h

theorem Triple.fail {e : ε} (h : ∀ f, P f → Post (.error e) f) : Δ.Triple i P (.fail e) Post := h

theorem Triple.lift {x : Except ε α} (h : ∀ f, P f → Post x f) :
    Δ.Triple i P (Task.lift x : Task M L T Q A ε α) Post := by
  cases x with
  | ok a => exact h
  | error e => exact h

/-- The rule of sequencing; an exception of the first part is one of the whole. -/
theorem Triple.bind {Post'' : Except ε β → Frame M L T Q A ε → Prop} {p : Task M L T Q A ε α}
    {k : α → Task M L T Q A ε β} (hp : Δ.Triple i P p Post)
    (hk : ∀ a, Δ.Triple i (Post (.ok a)) (k a) Post'')
    (hfail : ∀ e f, Post (.error e) f → Post'' (.error e) f) : Δ.Triple i P (p >>= k) Post'' := by
  intro f hf
  have hsafe := hp f hf
  clear hf hp
  induction p generalizing f with
  | done a => exact hk a f hsafe
  | fail e => exact hfail e f hsafe
  | step op k' ih =>
      refine ⟨hsafe.1, ?_⟩
      intro f' hf b f'' he
      obtain ⟨hown, hrest⟩ := hsafe.2 f' hf b f'' he
      exact ⟨hown, ih b f'' hrest⟩

/-- The outcome of an attempt is the one of its task, and it raises nothing. -/
theorem Triple.attempt {p : Task M L T Q A ε α} (hp : Δ.Triple i P p Post) :
    Δ.Triple i P p.attempt (fun r f => ∃ r', r = .ok r' ∧ Post r' f) := by
  intro f hf
  have hsafe := hp f hf
  clear hf hp
  induction p generalizing f with
  | done a => exact ⟨_, rfl, hsafe⟩
  | fail e => exact ⟨_, rfl, hsafe⟩
  | step op k ih =>
      refine ⟨hsafe.1, ?_⟩
      intro f' hf b f'' he
      obtain ⟨hown, hrest⟩ := hsafe.2 f' hf b f'' he
      exact ⟨hown, ih b f'' hrest⟩

/-- The rule of an operation that never suspends: only the clock may go on before it. -/
theorem Triple.call {op : Op M L T Q A ε α} (hop : op.awaits = false)
    (htick : ∀ f f', P f → Ticked f f' → P f')
    (hcmd : ∀ f b f', P f → Effect Y i f α op b f' → Δ.Own i f f' ∧ Post (.ok b) f') :
    Δ.Triple i P (Task.call op) Post := by
  intro f hP
  refine ⟨(fun h => by rw [hop] at h; cases h), ?_⟩
  intro f' hf b f'' he
  rw [Between, hop, if_neg Bool.false_ne_true] at hf
  exact hcmd f' b f'' (htick f f' hP hf) he

/-- The same, followed by the rest. -/
theorem Triple.step {op : Op M L T Q A ε β} {k : β → Task M L T Q A ε α}
    {S : β → Frame M L T Q A ε → Prop} (hop : op.awaits = false)
    (htick : ∀ f f', P f → Ticked f f' → P f')
    (hcmd : ∀ f b f', P f → Effect Y i f β op b f' → Δ.Own i f f' ∧ S b f')
    (hk : ∀ b, Δ.Triple i (S b) (k b) Post) : Δ.Triple i P (Task.call op >>= k) Post := by
  have hcall : Δ.Triple i P (Task.call op)
      (fun r f => match r with | .ok b => S b f | .error _ => False) :=
    Triple.call hop htick hcmd
  exact Triple.bind hcall hk (fun e f h => h.elim)

/-- The rule of an operation that may suspend: the invariant holds before and the
    assertion survives what the others do. -/
theorem Triple.await {op : Op M L T Q A ε (Except ε α)} (hop : op.awaits = true)
    (hJ : ∀ f, P f → Δ.J f) (hstable : ∀ f f', P f → Δ.R i f f' → Δ.J f' → B f')
    (hcmd : ∀ f r f', Δ.J f → B f → Effect Y i f _ op r f' → Δ.Own i f f' ∧ Post r f') :
    Δ.Triple i P (Task.await op) Post := by
  intro f hP
  refine ⟨fun _ => hJ f hP, ?_⟩
  intro f' hf r f'' he
  rw [Between, hop, if_pos rfl] at hf
  obtain ⟨hown, hpost⟩ := hcmd f' r f'' hf.2 (hstable f f' hP hf.1 hf.2) he
  refine ⟨hown, ?_⟩
  cases r with
  | ok a => exact hpost
  | error e => exact hpost

/-- The rule of a locked block: what the body ends in must allow the release, with a value
    and with an exception. -/
theorem Triple.withLock {l : L} {body : Task M L T Q A ε α} {Inside : Frame M L T Q A ε → Prop}
    (hJ : ∀ f, P f → Δ.J f) (hstable : ∀ f f', P f → Δ.R i f f' → Δ.J f' → B f')
    (hacquire : ∀ f, Δ.J f → B f → f.owner l = none →
      Δ.Own i f (f.setOwner l (some i)) ∧ Inside (f.setOwner l (some i)))
    (hinterrupt : ∀ f e, Δ.J f → B f → Δ.Own i f f ∧ Post (.error e) f)
    (hbody : Δ.Triple i Inside body Post')
    (htick : ∀ r f f', Post' r f → Ticked f f' → Post' r f')
    (hrelease : ∀ r f, Post' r f →
      Δ.Own i f (f.setOwner l none) ∧ Post r (f.setOwner l none)) :
    Δ.Triple i P (Task.withLock l body) Post := by
  have hlock : Δ.Triple i P (Task.await (.acquire l))
      (fun r f => match r with | .ok _ => Inside f | .error e => Post (.error e) f) := by
    refine Triple.await rfl hJ hstable ?_
    intro f r f' hJf hP he
    cases r with
    | ok u =>
        obtain ⟨hfree, rfl⟩ := he
        exact hacquire f hJf hP hfree
    | error e =>
        obtain ⟨-, rfl⟩ := he
        exact hinterrupt f' e hJf hP
  refine Triple.bind hlock (fun _ => ?_) (fun e f h => h)
  refine Triple.bind (Triple.attempt hbody) (fun r => ?_) ?_
  · have hgive : Δ.Triple i (Post' r) (Task.call (.release l))
        (fun b f => ∃ u, b = .ok u ∧ Post r f) := by
      refine Triple.call rfl (fun f f' => htick r f f') ?_
      intro f b f' hpost he
      obtain rfl := he
      obtain ⟨hown, hrel⟩ := hrelease r f hpost
      exact ⟨hown, b, rfl, hrel⟩
    refine Triple.bind (hgive.conseq ?_ (fun _ _ h => h)) (fun _ => Triple.lift ?_) ?_
    · rintro f ⟨r', hr, hpost⟩
      obtain rfl := Except.ok.inj hr
      exact hpost
    · rintro f ⟨u, -, hpost⟩
      exact hpost
    · rintro e f ⟨u, hu, -⟩
      cases hu
  · rintro e f ⟨r', hr, -⟩
    cases hr

/-! ### Soundness -/

variable (Δ i)

/-- A task that is suspended is safe wherever the others leave it. -/
def Parked (p : Task M L T Q A ε Unit) (f : Frame M L T Q A ε) : Prop :=
  ∀ f', Δ.R i f f' → Δ.J f' → Δ.Safe i (fun _ => Δ.J) p f'

/-- Every task that may be started is safe wherever the invariant holds. -/
def Verified : Prop :=
  ∀ i p, Y.spawns p → Δ.Triple i Δ.J p (fun _ => Δ.J)

/-- The running task is safe from here, and every other one where it is resumed; the
    invariant holds if no task runs. -/
structure Valid (c : Config M L T Q A ε) : Prop where
  known : ∀ i, c.running = some i → i < c.tasks.length
  idle : c.running = none → Δ.J c.frame
  active : ∀ i p, c.running = some i → c.tasks[i]? = some p →
    Δ.Safe i (fun _ => Δ.J) p c.frame
  parked : ∀ i p, c.running ≠ some i → c.tasks[i]? = some p → Δ.Parked i p c.frame

variable {Δ i}

theorem Parked.rely {p : Task M L T Q A ε Unit} {f f' : Frame M L T Q A ε}
    (h : Δ.Parked i p f) (hr : Δ.R i f f') : Δ.Parked i p f' :=
  fun f'' hr' => h f'' (Δ.trans hr hr')

/-- A task that stops where it may be suspended leaves the invariant behind, and is safe
    where it is resumed. -/
theorem Safe.park {p : Task M L T Q A ε Unit} {f : Frame M L T Q A ε}
    (h : Δ.Safe i (fun _ => Δ.J) p f) (hp : p.rests = true) : Δ.J f ∧ Δ.Parked i p f := by
  cases p with
  | done a => exact ⟨h, fun _ _ hJ => hJ⟩
  | fail e => exact ⟨h, fun _ _ hJ => hJ⟩
  | step op k =>
      refine ⟨h.1 hp, ?_⟩
      intro f' hr hJ
      refine ⟨fun _ => hJ, ?_⟩
      intro f₁ hf
      have hp' : op.awaits = true := hp
      rw [Between, hp', if_pos rfl] at hf
      refine h.2 f₁ ?_
      rw [Between, hp', if_pos rfl]
      exact ⟨Δ.trans hr hf.1, hf.2⟩

/-- A running task is safe however long it takes. -/
theorem Safe.tick {p : Task M L T Q A ε Unit} {f f' : Frame M L T Q A ε}
    (h : Δ.Safe i (fun _ => Δ.J) p f) (hf : Ticked f f') : Δ.Safe i (fun _ => Δ.J) p f' := by
  cases p with
  | done a => exact Δ.keeps h hf
  | fail e => exact Δ.keeps h hf
  | step op k =>
      refine ⟨fun ha => Δ.keeps (h.1 ha) hf, ?_⟩
      intro f₁ hf₁
      refine h.2 f₁ ?_
      cases hop : op.awaits with
      | true =>
          rw [Between, hop, if_pos rfl] at hf₁ ⊢
          exact ⟨Δ.trans (Δ.ticks hf) hf₁.1, hf₁.2⟩
      | false =>
          rw [Between, hop, if_neg Bool.false_ne_true] at hf₁ ⊢
          obtain ⟨t, ht, rfl⟩ := hf
          obtain ⟨t', ht', rfl⟩ := hf₁
          exact ⟨t', le_trans ht ht', rfl⟩

/-- The task that takes a step was running, or is resumed where it may be. -/
theorem Valid.exec {c : Config M L T Q A ε} (h : Δ.Valid c) {op : Op M L T Q A ε β}
    {k : β → Task M L T Q A ε Unit} {b : β} {f : Frame M L T Q A ε}
    (hi : c.tasks[i]? = some (.step op k)) (hrun : c.running = none ∨ c.running = some i)
    (he : Effect Y i c.frame β op b f) :
    Δ.Own i c.frame f ∧ Δ.Safe i (fun _ => Δ.J) (k b) f := by
  have hsafe : Δ.Safe i (fun _ => Δ.J) (.step op k) c.frame := by
    rcases hrun with hnone | hsome
    · refine h.parked i _ ?_ hi c.frame (Δ.refl i c.frame) (h.idle hnone)
      rw [hnone]
      exact (Option.some_ne_none i).symm
    · exact h.active i _ hsome hi
  refine hsafe.2 c.frame ?_ b f he
  cases hop : op.awaits with
  | true =>
      rw [Between, hop, if_pos rfl]
      exact ⟨Δ.refl i c.frame, hsafe.1 hop⟩
  | false =>
      rw [Between, hop, if_neg Bool.false_ne_true]
      exact ⟨c.frame.clock, le_rfl, rfl⟩

theorem valid_step {c c' : Config M L T Q A ε} (hv : Δ.Verified) (h : Δ.Valid c)
    (hs : Step Y c c') : Δ.Valid c' := by
  cases hs with
  | tick t ht =>
      have hf : Ticked c.frame (c.frame.setClock t) := ⟨t, ht, rfl⟩
      exact
        { known := h.known
          idle := fun hrun => Δ.keeps (h.idle hrun) hf
          active := fun i p hrun hi => (h.active i p hrun hi).tick hf
          parked := fun i p hrun hi => (h.parked i p hrun hi).rely (Δ.ticks hf) }
  | spawn p hp =>
      refine { known := ?_, idle := h.idle, active := ?_, parked := ?_ }
      · intro i hrun
        rw [List.length_append]
        exact Nat.lt_add_right _ (h.known i hrun)
      · intro i q hrun hi
        rw [List.getElem?_append_left (h.known i hrun)] at hi
        exact h.active i q hrun hi
      · intro i q hrun hi
        rcases Nat.lt_or_ge i c.tasks.length with hlt | hge
        · rw [List.getElem?_append_left hlt] at hi
          exact h.parked i q hrun hi
        · -- The new task is the last one.
          rw [List.getElem?_append_right hge] at hi
          obtain rfl := List.mem_singleton.mp (List.mem_of_getElem? hi)
          exact fun f' _ hJ => hv i q hp f' hJ
  | exec i op k b f hi hrun he =>
      -- The task that runs follows its own proof; those that wait rely on what it may do.
      have hlt : i < c.tasks.length := (List.getElem?_eq_some_iff.mp hi).1
      obtain ⟨hown, hrest⟩ := h.exec hi hrun he
      refine { known := ?_, idle := ?_, active := ?_, parked := ?_ }
      · intro j hj
        rw [List.length_set, ← Option.some.inj hj]
        exact hlt
      · intro hnone
        cases hnone
      · intro j p hj hp
        obtain rfl := Option.some.inj hj
        rw [List.getElem?_set_self hlt] at hp
        rw [← Option.some.inj hp]
        exact hrest
      · intro j p hj hp
        have hji : j ≠ i := fun hji => hj (by rw [hji])
        rw [List.getElem?_set_ne hji.symm] at hp
        refine Parked.rely ?_ (Δ.others he hown hji)
        refine h.parked j p ?_ hp
        rcases hrun with hnone | hsome
        · rw [hnone]
          exact (Option.some_ne_none j).symm
        · rw [hsome]
          exact fun hij => hji (Option.some.inj hij).symm
  | park i p hrun hi hp =>
      -- To wait a task must have restored the invariant, with which any other goes on.
      obtain ⟨hJ, hparked⟩ := (h.active i p hrun hi).park hp
      refine { known := ?_, idle := fun _ => hJ, active := ?_, parked := ?_ }
      · intro j hj
        cases hj
      · intro j q hj
        cases hj
      · intro j q _ hq
        by_cases hji : j = i
        · subst hji
          rw [Option.some.inj (hi.symm.trans hq)] at hparked
          exact hparked
        · refine h.parked j q ?_ hq
          rw [hrun]
          exact fun hij => hji (Option.some.inj hij).symm

/-- Soundness: every interleaving of verified tasks keeps the invariant. -/
theorem valid_of_reaches {c c' : Config M L T Q A ε} (hv : Δ.Verified) (h : Δ.Valid c)
    (hr : Reaches Y c c') : Δ.Valid c' := by
  induction hr with
  | refl => exact h
  | tail _ hs ih => exact valid_step hv ih hs

/-- What the clock and every task's own operations keep holds at every moment, also while
    a task runs. -/
theorem always_of_reaches {I : Frame M L T Q A ε → Prop} {c c' : Config M L T Q A ε}
    (htick : ∀ {f f'}, I f → Ticked f f' → I f') (hown : ∀ {i f f'}, I f → Δ.Own i f f' → I f')
    (hv : Δ.Verified) (h : Δ.Valid c) (hI : I c.frame) (hr : Reaches Y c c') : I c'.frame := by
  induction hr with
  | refl => exact hI
  | tail hr hs ih =>
      cases hs with
      | tick t ht => exact htick ih ⟨t, ht, rfl⟩
      | spawn p hp => exact ih
      | exec i op k b f hi hrun he =>
          exact hown ih ((valid_of_reaches hv h hr).exec hi hrun he).1
      | park i p hrun hi hp => exact ih

/-- A loop that has started nothing is valid. -/
theorem Valid.initial {f : Frame M L T Q A ε} (hJ : Δ.J f) : Δ.Valid ⟨f, none, []⟩ where
  known := fun _ h => absurd h (Option.some_ne_none _).symm
  idle := fun _ => hJ
  active := fun _ _ h => absurd h (Option.some_ne_none _).symm
  parked := fun _ _ _ h => absurd h (Option.some_ne_none _).symm

end Monitor

end Semantics

end Asyncio
