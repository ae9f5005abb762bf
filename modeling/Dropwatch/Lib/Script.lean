import Mathlib.Logic.Basic

/-! # Transactional scripts — programs that talk to a database session

    A script is the tree of everything a program may do next: finish, raise,
    or issue one command and continue on the answer.  Commands are the ones a
    worker over an ORM session has: read the session's view of the tables,
    write, insert under a unique constraint, commit, touch process memory, ask
    the outside world.

    The same script has two meanings.  This file gives the SEQUENTIAL one
    (`run`): nobody else moves, so the answer to every command is a function of
    the store.  `Interleave` gives the other, where many scripts share one
    database.  Faults are not commands: a fault before command `c` is the
    script standing at `c`, which is what `Uncommitted` collects. -/

namespace Transact

/-- One command, indexed by the type of its answer.  `D` is the database, `W`
    its write statements, `G` the values generated by a write, `L` and `E` the
    operations on process memory and on the outside world. -/
inductive Cmd (D W G : Type) (L E : Type → Type) : Type → Type 1 where
  | query {β : Type} (q : D → β) : Cmd D W G L E β
  | write (w : W) : Cmd D W G L E Unit
  | insert (w : W) : Cmd D W G L E (Option G)
  | commit : Cmd D W G L E Unit
  | mem {β : Type} (m : L β) : Cmd D W G L E β
  | ask {β : Type} (e : E β) : Cmd D W G L E β

/-- A script: `fail` is an exception raised by the program's own code. -/
inductive Script (D W G : Type) (L E : Type → Type) (ε α : Type) : Type 1 where
  | done (a : α)
  | fail (e : ε)
  | step {β : Type} (c : Cmd D W G L E β) (k : β → Script D W G L E ε α)

variable {D W G M S ε α β γ : Type} {L E : Type → Type}

/-- The command that ends a transaction. -/
def Cmd.isCommit : Cmd D W G L E β → Bool
  | .commit => true
  | _ => false

/-- The commands that stay inside the open session: no commit, and nothing that
    leaves the process. -/
def Cmd.inSession : Cmd D W G L E β → Bool
  | .commit => false
  | .ask _ => false
  | _ => true

/-- The commands that only read the tables. -/
def Cmd.isQuery : Cmd D W G L E β → Bool
  | .query _ => true
  | _ => false

/-- The commands that neither write nor commit. -/
def Cmd.silent : Cmd D W G L E β → Bool
  | .write _ => false
  | .insert _ => false
  | .commit => false
  | _ => true

theorem Cmd.eq_query_of_isQuery {c : Cmd D W G L E β} (h : c.isQuery = true) :
    ∃ q, c = .query q := by
  cases c with
  | query q => exact ⟨q, rfl⟩
  | write w => cases h
  | insert w => cases h
  | commit => cases h
  | mem m => cases h
  | ask e => cases h

theorem Cmd.silent_of_isQuery {c : Cmd D W G L E β} (h : c.isQuery = true) : c.silent = true := by
  obtain ⟨q, rfl⟩ := Cmd.eq_query_of_isQuery h
  rfl

/-- The uncommitted writes after a command. -/
def Cmd.logged (ws : List W) (c : Cmd D W G L E β) (b : β) : List W :=
  match c, b with
  | .write w, _ => ws ++ [w]
  | .insert w, some _ => ws ++ [w]
  | .commit, _ => []
  | _, _ => ws

theorem Cmd.logged_of_silent {c : Cmd D W G L E β} (h : c.silent = true) (ws : List W) (b : β) :
    c.logged ws b = ws := by
  cases c with
  | query q => rfl
  | write w => cases h
  | insert w => cases h
  | commit => cases h
  | mem m => rfl
  | ask e => rfl

namespace Script

/-- Sequencing. -/
def bind (p : Script D W G L E ε α) (f : α → Script D W G L E ε β) :
    Script D W G L E ε β :=
  match p with
  | done a => f a
  | fail e => fail e
  | step c k => step c (fun b => (k b).bind f)

instance : Monad (Script D W G L E ε) where
  pure := done
  bind := bind

/-- Issue one command and return its answer. -/
def call (c : Cmd D W G L E β) : Script D W G L E ε β := step c done

/-- Raise the error of a pure computation, if it has one. -/
def lift : Except ε α → Script D W G L E ε α
  | .ok a => done a
  | .error e => fail e

@[simp] theorem pure_eq (a : α) : (pure a : Script D W G L E ε α) = done a := rfl

@[simp] theorem done_bind (a : α) (f : α → Script D W G L E ε β) :
    (done a >>= f) = f a := rfl

@[simp] theorem fail_bind (e : ε) (f : α → Script D W G L E ε β) :
    (fail e >>= f) = fail e := rfl

@[simp] theorem step_bind (c : Cmd D W G L E γ) (k : γ → Script D W G L E ε α)
    (f : α → Script D W G L E ε β) :
    (step c k >>= f) = step c (fun b => k b >>= f) := rfl

@[simp] theorem call_bind (c : Cmd D W G L E γ) (f : γ → Script D W G L E ε β) :
    (call c >>= f) = step c f := rfl

/-- Whatever the answers are, every command of the script satisfies `P` and
    every value it returns satisfies `Q`. -/
def Sat (P : ∀ β : Type, Cmd D W G L E β → Prop) (Q : α → Prop) :
    Script D W G L E ε α → Prop
  | done a => Q a
  | fail _ => True
  | step c k => P _ c ∧ ∀ b, Sat P Q (k b)

variable {P : ∀ β : Type, Cmd D W G L E β → Prop}

theorem Sat.bind {Q : α → Prop} {R : β → Prop} {p : Script D W G L E ε α}
    {f : α → Script D W G L E ε β} (hp : p.Sat P Q) (hf : ∀ a, Q a → (f a).Sat P R) :
    (p >>= f).Sat P R := by
  induction p with
  | done a => exact hf a hp
  | fail e => exact trivial
  | step c k ih => exact ⟨hp.1, fun b => ih b (hp.2 b)⟩

theorem Sat.call {Q : β → Prop} {c : Cmd D W G L E β} (h : P _ c) (hq : ∀ b, Q b) :
    (call c : Script D W G L E ε β).Sat P Q :=
  ⟨h, hq⟩

theorem Sat.lift {Q : α → Prop} {x : Except ε α} (h : ∀ a, x = .ok a → Q a) :
    (lift x : Script D W G L E ε α).Sat P Q := by
  cases x with
  | ok a => exact h a rfl
  | error e => exact trivial

/-- The rule of consequence. -/
theorem Sat.mono {P' : ∀ β : Type, Cmd D W G L E β → Prop} {Q Q' : α → Prop}
    {p : Script D W G L E ε α} (hp : p.Sat P Q) (hP : ∀ β c, P β c → P' β c)
    (hQ : ∀ a, Q a → Q' a) : p.Sat P' Q' := by
  induction p with
  | done a => exact hQ a hp
  | fail e => exact trivial
  | step c k ih => exact ⟨hP _ c hp.1, fun b => ih b (hp.2 b)⟩

/-- One way through a script, whatever the answers: its commands and its outcome. -/
inductive Path : Script D W G L E ε α → List (Σ β : Type, Cmd D W G L E β) → Except ε α → Prop
    where
  | done (a : α) : Path (done a) [] (.ok a)
  | fail (e : ε) : Path (fail e) [] (.error e)
  | step {β : Type} (c : Cmd D W G L E β) (k : β → Script D W G L E ε α) (b : β)
      {cmds : List (Σ β : Type, Cmd D W G L E β)} {r : Except ε α} (h : Path (k b) cmds r) :
      Path (step c k) (⟨β, c⟩ :: cmds) r

/-- A way through a sequence stops in its first part or goes on in the second. -/
theorem Path.bind_inv {p : Script D W G L E ε α} {f : α → Script D W G L E ε β}
    {cmds : List (Σ β : Type, Cmd D W G L E β)} {r : Except ε β} (h : Path (p >>= f) cmds r) :
    (∃ e, Path p cmds (.error e) ∧ r = .error e)
      ∨ ∃ a before after, Path p before (.ok a) ∧ Path (f a) after r ∧ cmds = before ++ after := by
  induction p generalizing cmds with
  | done a => exact Or.inr ⟨a, [], cmds, .done a, h, rfl⟩
  | fail e =>
      cases h with
      | fail => exact Or.inl ⟨e, .fail e, rfl⟩
  | step c k ih =>
      cases h with
      | step _ _ b h =>
          rcases ih b h with ⟨e, he, hr⟩ | ⟨a, before, after, hbefore, hafter, rfl⟩
          · exact Or.inl ⟨e, .step c k b he, hr⟩
          · exact Or.inr ⟨a, _, after, .step c k b hbefore, hafter, rfl⟩

/-- What every command satisfies, holds of the commands of one way through. -/
theorem Path.sat {Q : α → Prop} {p : Script D W G L E ε α}
    {cmds : List (Σ β : Type, Cmd D W G L E β)} {r : Except ε α} (h : Path p cmds r)
    (hp : p.Sat P Q) : ∀ c ∈ cmds, P c.1 c.2 := by
  induction h with
  | done a => exact fun _ hc => absurd hc List.not_mem_nil
  | fail e => exact fun _ hc => absurd hc List.not_mem_nil
  | step c k b h ih =>
      intro x hx
      rcases List.mem_cons.mp hx with rfl | hx
      · exact hp.1
      · exact ih (hp.2 b) x hx

/-- As `Sat`, for the answers that `allows` admits. -/
def SatUnder (allows : ∀ β : Type, Cmd D W G L E β → β → Prop)
    (P : ∀ β : Type, Cmd D W G L E β → Prop) (Q : α → Prop) : Script D W G L E ε α → Prop
  | done a => Q a
  | fail _ => True
  | step c k => P _ c ∧ ∀ b, allows _ c b → SatUnder allows P Q (k b)

variable {allows : ∀ β : Type, Cmd D W G L E β → β → Prop}

theorem SatUnder.bind {Q : α → Prop} {R : β → Prop} {p : Script D W G L E ε α}
    {f : α → Script D W G L E ε β} (hp : p.SatUnder allows P Q)
    (hf : ∀ a, Q a → (f a).SatUnder allows P R) : (p >>= f).SatUnder allows P R := by
  induction p with
  | done a => exact hf a hp
  | fail e => exact trivial
  | step c k ih => exact ⟨hp.1, fun b hb => ih b (hp.2 b hb)⟩

theorem SatUnder.lift {Q : α → Prop} {x : Except ε α} (h : ∀ a, x = .ok a → Q a) :
    (lift x : Script D W G L E ε α).SatUnder allows P Q := by
  cases x with
  | ok a => exact h a rfl
  | error e => exact trivial

/-- What holds whatever the answers are, holds under any assumption on them. -/
theorem Sat.under {Q : α → Prop} {p : Script D W G L E ε α} (hp : p.Sat P Q) :
    p.SatUnder allows P Q := by
  induction p with
  | done a => exact hp
  | fail e => exact trivial
  | step c k ih => exact ⟨hp.1, fun b _ => ih b (hp.2 b)⟩

/-- Whatever the answers are, the uncommitted writes satisfy `C` at every commit, and
    `Q` in the end; `ws` are those the script starts with. -/
def Logs (C : List W → Prop) (Q : α → List W → Prop) :
    Script D W G L E ε α → List W → Prop
  | done a, ws => Q a ws
  | fail _, _ => True
  | step c k, ws => (c.isCommit = true → C ws) ∧ ∀ b, Logs C Q (k b) (c.logged ws b)

variable {C : List W → Prop}

theorem Logs.silent {c : Cmd D W G L E β} {k : β → Script D W G L E ε α}
    {Q : α → List W → Prop} {ws : List W} (hc : c.silent = true)
    (hk : ∀ b, (k b).Logs C Q ws) : (step c k).Logs C Q ws := by
  refine ⟨?_, ?_⟩
  · intro hcommit
    cases c with
    | commit => cases hc
    | query q => cases hcommit
    | write w => cases hcommit
    | insert w => cases hcommit
    | mem m => cases hcommit
    | ask e => cases hcommit
  · intro b
    rw [Cmd.logged_of_silent hc]
    exact hk b

theorem Logs.write {w : W} {k : Unit → Script D W G L E ε α} {Q : α → List W → Prop}
    {ws : List W} (hk : (k ()).Logs C Q (ws ++ [w])) : (step (.write w) k).Logs C Q ws :=
  ⟨(fun h => by cases h), fun _ => hk⟩

theorem Logs.insert {w : W} {k : Option G → Script D W G L E ε α} {Q : α → List W → Prop}
    {ws : List W} (hnone : (k none).Logs C Q ws)
    (hsome : ∀ g, (k (some g)).Logs C Q (ws ++ [w])) : (step (.insert w) k).Logs C Q ws := by
  refine ⟨(fun h => by cases h), ?_⟩
  intro b
  cases b with
  | none => exact hnone
  | some g => exact hsome g

theorem Logs.commit {k : Unit → Script D W G L E ε α} {Q : α → List W → Prop} {ws : List W}
    (hws : C ws) (hk : (k ()).Logs C Q []) : (step .commit k).Logs C Q ws :=
  ⟨(fun _ => hws), fun _ => hk⟩

theorem Logs.bind {Q : α → List W → Prop} {R : β → List W → Prop} {p : Script D W G L E ε α}
    {f : α → Script D W G L E ε β} {ws : List W} (hp : p.Logs C Q ws)
    (hf : ∀ a ws, Q a ws → (f a).Logs C R ws) : (p >>= f).Logs C R ws := by
  induction p generalizing ws with
  | done a => exact hf a ws hp
  | fail e => exact trivial
  | step c k ih => exact ⟨hp.1, fun b => ih b (hp.2 b)⟩

theorem Logs.mono {Q Q' : α → List W → Prop} {p : Script D W G L E ε α} {ws : List W}
    (hp : p.Logs C Q ws) (hQ : ∀ a ws, Q a ws → Q' a ws) : p.Logs C Q' ws := by
  induction p generalizing ws with
  | done a => exact hQ a ws hp
  | fail e => exact trivial
  | step c k ih => exact ⟨hp.1, fun b => ih b (hp.2 b)⟩

/-- A script that writes nothing. -/
theorem Logs.of_silent {Q : α → Prop} {p : Script D W G L E ε α}
    (hp : p.Sat (fun _ c => c.silent = true) Q) (ws : List W) :
    p.Logs C (fun a ws' => Q a ∧ ws' = ws) ws := by
  induction p with
  | done a => exact ⟨hp, rfl⟩
  | fail e => exact trivial
  | step c k ih => exact Logs.silent hp.1 (fun b => ih b (hp.2 b))

end Script

/-! ## The sequential meaning -/

/-- What a database and a process do with the commands: `apply` runs a write
    with the values generated for it, `violates` is the unique or foreign key
    check of an insert, `clash` says when two uncommitted writes contend for one
    entry, and `touch` runs an operation on process memory. -/
structure Backend (D W G M : Type) (L : Type → Type) where
  apply : G → W → D → D
  violates : G → W → D → Bool
  clash : G × W → G × W → Bool
  touch : {β : Type} → L β → M → β × M

/-- The surroundings of one isolated run: the values generated by a write and
    the answers of the outside world, as functions of the state. -/
structure Host (D G S : Type) (E : Type → Type) where
  fresh : D → S → G
  answer : {β : Type} → E β → S → β × S

/-- The state of an isolated run.  `view` is what the open session sees: the
    committed tables and its own writes. -/
structure Store (D M S : Type) where
  committed : D
  view : D
  mem : M
  env : S

/-- A new session after the old one was closed without a commit: the writes are
    gone, process memory is not. -/
def Store.rollback (s : Store D M S) : Store D M S := { s with view := s.committed }

section Sequential

variable (B : Backend D W G M L) (H : Host D G S E)

/-- One command in an isolated run. -/
def exec : Cmd D W G L E β → Store D M S → β × Store D M S
  | .query q, s => (q s.view, s)
  | .write w, s => ((), { s with view := B.apply (H.fresh s.view s.env) w s.view })
  | .insert w, s =>
      if B.violates (H.fresh s.view s.env) w s.view then (none, s)
      else (some (H.fresh s.view s.env),
        { s with view := B.apply (H.fresh s.view s.env) w s.view })
  | .commit, s => ((), { s with committed := s.view })
  | .mem m, s => ((B.touch m s.mem).1, { s with mem := (B.touch m s.mem).2 })
  | .ask e, s => ((H.answer e s.env).1, { s with env := (H.answer e s.env).2 })

/-- An isolated run to the end: the result or the exception, and the store left
    behind. -/
def run : Script D W G L E ε α → Store D M S → Except ε α × Store D M S
  | .done a, s => (.ok a, s)
  | .fail e, s => (.error e, s)
  | .step c k, s => run (k (exec B H c s).1) (exec B H c s).2

@[simp] theorem run_done (a : α) (s : Store D M S) :
    run B H (.done a : Script D W G L E ε α) s = (.ok a, s) := rfl

@[simp] theorem run_fail (e : ε) (s : Store D M S) :
    run B H (.fail e : Script D W G L E ε α) s = (.error e, s) := rfl

theorem run_step (c : Cmd D W G L E β) (k : β → Script D W G L E ε α)
    (s : Store D M S) :
    run B H (.step c k) s = run B H (k (exec B H c s).1) (exec B H c s).2 := rfl

@[simp] theorem run_query (q : D → β) (k : β → Script D W G L E ε α)
    (s : Store D M S) :
    run B H (.step (.query q) k) s = run B H (k (q s.view)) s := rfl

@[simp] theorem run_write (w : W) (k : Unit → Script D W G L E ε α)
    (s : Store D M S) :
    run B H (.step (.write w) k) s
      = run B H (k ()) { s with view := B.apply (H.fresh s.view s.env) w s.view } :=
  rfl

@[simp] theorem run_commit (k : Unit → Script D W G L E ε α) (s : Store D M S) :
    run B H (.step .commit k) s = run B H (k ()) { s with committed := s.view } :=
  rfl

@[simp] theorem run_mem (m : L β) (k : β → Script D W G L E ε α)
    (s : Store D M S) :
    run B H (.step (.mem m) k) s
      = run B H (k (B.touch m s.mem).1) { s with mem := (B.touch m s.mem).2 } :=
  rfl

@[simp] theorem run_ask (e : E β) (k : β → Script D W G L E ε α)
    (s : Store D M S) :
    run B H (.step (.ask e) k) s
      = run B H (k (H.answer e s.env).1) { s with env := (H.answer e s.env).2 } :=
  rfl

/-- An insert that breaks a constraint answers `none` and leaves no trace. -/
theorem run_insert_dup {w : W} {k : Option G → Script D W G L E ε α}
    {s : Store D M S} (h : B.violates (H.fresh s.view s.env) w s.view = true) :
    run B H (.step (.insert w) k) s = run B H (k none) s := by
  rw [run_step]
  simp only [exec, h, if_true]

/-- Any other insert is written. -/
theorem run_insert_ok {w : W} {k : Option G → Script D W G L E ε α}
    {s : Store D M S} (h : B.violates (H.fresh s.view s.env) w s.view = false) :
    run B H (.step (.insert w) k) s
      = run B H (k (some (H.fresh s.view s.env)))
          { s with view := B.apply (H.fresh s.view s.env) w s.view } := by
  rw [run_step]
  simp only [exec, h, Bool.false_eq_true, if_false]

/-- Continue an isolated run with the rest of the program, unless it raised. -/
def thenRun (r : Except ε α × Store D M S)
    (f : α → Script D W G L E ε β) : Except ε β × Store D M S :=
  match r with
  | (.ok a, s) => run B H (f a) s
  | (.error e, s) => (.error e, s)

@[simp] theorem thenRun_ok (a : α) (s : Store D M S)
    (f : α → Script D W G L E ε β) :
    thenRun B H (.ok a, s) f = run B H (f a) s := rfl

@[simp] theorem thenRun_error (e : ε) (s : Store D M S)
    (f : α → Script D W G L E ε β) :
    thenRun B H (.error e, s) f = (.error e, s) := rfl

theorem run_bind (p : Script D W G L E ε α) (f : α → Script D W G L E ε β)
    (s : Store D M S) :
    run B H (p >>= f) s = thenRun B H (run B H p s) f := by
  induction p generalizing s with
  | done a => rfl
  | fail e => rfl
  | step c k ih =>
      rw [Script.step_bind, run_step, run_step]
      exact ih _ _

/-- Sequencing after a run that returned. -/
theorem run_bind_ok {p : Script D W G L E ε α} {f : α → Script D W G L E ε β}
    {s s' : Store D M S} {a : α} (h : run B H p s = (.ok a, s')) :
    run B H (p >>= f) s = run B H (f a) s' := by
  rw [run_bind, h, thenRun_ok]

/-- Sequencing after a run that raised. -/
theorem run_bind_error {p : Script D W G L E ε α}
    {f : α → Script D W G L E ε β} {s s' : Store D M S} {e : ε}
    (h : run B H p s = (.error e, s')) :
    run B H (p >>= f) s = (.error e, s') := by
  rw [run_bind, h, thenRun_error]

/-- A sequence returned only if both parts did. -/
theorem run_bind_inv {p : Script D W G L E ε α} {f : α → Script D W G L E ε β}
    {s s' : Store D M S} {b : β} (h : run B H (p >>= f) s = (.ok b, s')) :
    ∃ a s₁, run B H p s = (.ok a, s₁) ∧ run B H (f a) s₁ = (.ok b, s') := by
  rw [run_bind] at h
  cases hp : run B H p s with
  | mk r s₁ =>
      rw [hp] at h
      cases r with
      | error e => cases (Prod.mk.inj h).1
      | ok a => exact ⟨a, s₁, rfl, h⟩

/-- The result of a program that ends by mapping the result of another. -/
theorem run_map_fst (p : Script D W G L E ε α) (f : α → β) (s : Store D M S) :
    (run B H (p >>= fun a => Script.done (f a)) s).1 = (run B H p s).1.map f := by
  rw [run_bind]
  obtain ⟨r, s'⟩ := run B H p s
  cases r with
  | error e => rfl
  | ok a => rfl

@[simp] theorem run_lift_ok (a : α) (s : Store D M S) :
    run B H (Script.lift (.ok a) : Script D W G L E ε α) s = (.ok a, s) := rfl

@[simp] theorem run_lift_error (e : ε) (s : Store D M S) :
    run B H (Script.lift (.error e) : Script D W G L E ε α) s = (.error e, s) := rfl

/-- The invariant rule: what every command of a script keeps, its run keeps. -/
theorem Script.Sat.run_inv {P : ∀ β : Type, Cmd D W G L E β → Prop} {Q : α → Prop}
    {J : Store D M S → Prop} {p : Script D W G L E ε α} (hp : p.Sat P Q)
    (hstep : ∀ β (c : Cmd D W G L E β) s, P β c → J s → J (exec B H c s).2)
    {s : Store D M S} (hJ : J s) : J (run B H p s).2 := by
  induction p generalizing s with
  | done a => exact hJ
  | fail e => exact hJ
  | step c k ih => exact ih _ (hp.2 _) (hstep _ c s hp.1 hJ)

/-- A script that stays in its session leaves the committed tables and the
    outside world alone. -/
theorem Script.Sat.run_frame {Q : α → Prop} {p : Script D W G L E ε α}
    (hp : p.Sat (fun _ c => c.inSession = true) Q) (s : Store D M S) :
    (run B H p s).2.committed = s.committed ∧ (run B H p s).2.env = s.env := by
  refine hp.run_inv B H (J := fun s' => s'.committed = s.committed ∧ s'.env = s.env)
    ?_ ⟨rfl, rfl⟩
  intro β c s' hc hJ
  cases c with
  | query q => exact hJ
  | write w => exact hJ
  | insert w =>
      simp only [exec]
      split
      · exact hJ
      · exact hJ
  | commit => exact absurd hc (by simp [Cmd.inSession])
  | mem m => exact hJ
  | ask e => exact absurd hc (by simp [Cmd.inSession])

/-- A script that starts with a question goes on with its answer. -/
theorem run_query_bind (q : D → β) (f : β → Script D W G L E ε α) (s : Store D M S) :
    run B H (Script.call (.query q) >>= f) s = run B H (f (q s.view)) s := rfl

theorem run_ask_bind (e : E β) (f : β → Script D W G L E ε α) (s : Store D M S) :
    run B H (Script.call (.ask e) >>= f) s
      = run B H (f (H.answer e s.env).1) { s with env := (H.answer e s.env).2 } := rfl

/-! ## Faults: the points a run can stop at before its commit -/

/-- `Uncommitted B H p s p' s'`: an isolated run of `p` from `s` comes to stand
    at `p'` in `s'` and no command before that was a commit.  A fault there
    leaves `s'.rollback`. -/
inductive Uncommitted : Script D W G L E ε α → Store D M S →
    Script D W G L E ε α → Store D M S → Prop where
  | here (p : Script D W G L E ε α) (s : Store D M S) : Uncommitted p s p s
  | next {β : Type} (c : Cmd D W G L E β) (k : β → Script D W G L E ε α)
      (s : Store D M S) {p' : Script D W G L E ε α} {s' : Store D M S}
      (hc : c.isCommit = false)
      (h : Uncommitted (k (exec B H c s).1) (exec B H c s).2 p' s') :
      Uncommitted (.step c k) s p' s'

theorem Uncommitted.query {q : D → β} {f : β → Script D W G L E ε α} {s s' : Store D M S}
    {p' : Script D W G L E ε α} (h : Uncommitted B H (f (q s.view)) s p' s') :
    Uncommitted B H (Script.call (.query q) >>= f) s p' s' := .next _ _ s rfl h

theorem Uncommitted.ask {e : E β} {f : β → Script D W G L E ε α} {s s' : Store D M S}
    {p' : Script D W G L E ε α} (h : Uncommitted B H (f (H.answer e s.env).1)
      { s with env := (H.answer e s.env).2 } p' s') :
    Uncommitted B H (Script.call (.ask e) >>= f) s p' s' := .next _ _ s rfl h

/-- The rest of a run is the run of the rest. -/
theorem Uncommitted.run_eq {p p' : Script D W G L E ε α} {s s' : Store D M S}
    (h : Uncommitted B H p s p' s') : run B H p s = run B H p' s' := by
  induction h with
  | here _ _ => rfl
  | next c k s _ _ ih => exact ih

/-- Nothing is committed on the way. -/
theorem Uncommitted.committed_eq {p p' : Script D W G L E ε α} {s s' : Store D M S}
    (h : Uncommitted B H p s p' s') : s'.committed = s.committed := by
  induction h with
  | here _ _ => rfl
  | next c k s hc _ ih =>
      rw [ih]
      cases c with
      | query q => rfl
      | write w => rfl
      | insert w =>
          simp only [exec]
          split
          · rfl
          · rfl
      | commit => exact absurd hc (by simp [Cmd.isCommit])
      | mem m => rfl
      | ask e => rfl

/-- The commands that can raise: all but those on process memory. -/
def Cmd.mayRaise : Cmd D W G L E β → Bool
  | .mem _ => false
  | _ => true

/-- A run can raise where its program does, or where its next command can. -/
def Script.mayRaise : Script D W G L E ε α → Bool
  | .done _ => false
  | .fail _ => true
  | .step c _ => c.mayRaise

/-- A script that never commits. -/
def Quiet (p : Script D W G L E ε α) : Prop :=
  p.Sat (fun _ c => c.isCommit = false) (fun _ => True)

/-- Where a returned run of a quiet prefix leaves the whole program. -/
theorem Uncommitted.of_run_ok {p : Script D W G L E ε α}
    {f : α → Script D W G L E ε β} {s s' : Store D M S} {a : α}
    (hq : Quiet p) (h : run B H p s = (.ok a, s')) :
    Uncommitted B H (p >>= f) s (f a) s' := by
  induction p generalizing s with
  | done x =>
      obtain ⟨hx, hs⟩ := Prod.mk.inj h
      rw [Script.done_bind, Except.ok.inj hx, hs]
      exact .here _ _
  | fail e => exact absurd (congrArg Prod.fst h) (by simp)
  | step c k ih =>
      rw [Script.step_bind]
      exact .next c _ s hq.1 (ih _ (hq.2 _) h)

/-- Where a run of a quiet program that raised leaves the whole program. -/
theorem Uncommitted.of_run_error {p : Script D W G L E ε α}
    {f : α → Script D W G L E ε β} {s s' : Store D M S} {e : ε}
    (hq : Quiet p) (h : run B H p s = (.error e, s')) :
    Uncommitted B H (p >>= f) s (.fail e) s' := by
  induction p generalizing s with
  | done x => exact absurd (congrArg Prod.fst h) (by simp)
  | fail e' =>
      obtain ⟨he, hs⟩ := Prod.mk.inj h
      rw [Script.fail_bind, Except.error.inj he, hs]
      exact .here _ _
  | step c k ih =>
      rw [Script.step_bind]
      exact .next c _ s hq.1 (ih _ (hq.2 _) h)

/-- Two stretches of a run join. -/
theorem Uncommitted.trans {p₁ p₂ p₃ : Script D W G L E ε α}
    {s₁ s₂ s₃ : Store D M S} (h₁ : Uncommitted B H p₁ s₁ p₂ s₂)
    (h₂ : Uncommitted B H p₂ s₂ p₃ s₃) : Uncommitted B H p₁ s₁ p₃ s₃ := by
  induction h₁ with
  | here _ _ => exact h₂
  | next c k s hc _ ih => exact .next c k s hc (ih h₂)

/-- A script that stays in its session is quiet. -/
theorem Script.Sat.quiet {Q : α → Prop} {p : Script D W G L E ε α}
    (hp : p.Sat (fun _ c => c.inSession = true) Q) : Quiet p := by
  refine hp.mono ?_ (fun _ _ => trivial)
  intro β c hc
  cases c with
  | commit => exact absurd hc (by simp [Cmd.inSession])
  | query q => rfl
  | write w => rfl
  | insert w => rfl
  | mem m => rfl
  | ask e => rfl

/-- `J` holds wherever a run of `p` from `s` can stand before its commit. -/
def Keeps (J : Store D M S → Prop) (p : Script D W G L E ε α)
    (s : Store D M S) : Prop :=
  ∀ p' s', Uncommitted B H p s p' s' → J s'

variable {B H} {J : Store D M S → Prop}

theorem Keeps.done {a : α} {s : Store D M S} (hJ : J s) :
    Keeps B H J (.done a : Script D W G L E ε α) s := by
  intro p' s' h
  cases h
  exact hJ

theorem Keeps.fail {e : ε} {s : Store D M S} (hJ : J s) :
    Keeps B H J (.fail e : Script D W G L E ε α) s := by
  intro p' s' h
  cases h
  exact hJ

theorem Keeps.step {c : Cmd D W G L E β} {k : β → Script D W G L E ε α}
    {s : Store D M S} (hJ : J s)
    (h : Keeps B H J (k (exec B H c s).1) (exec B H c s).2) :
    Keeps B H J (.step c k) s := by
  intro p' s' hu
  cases hu with
  | here _ _ => exact hJ
  | next _ _ _ _ hrest => exact h p' s' hrest

theorem Keeps.query {q : D → β} {f : β → Script D W G L E ε α} {s : Store D M S} (hJ : J s)
    (h : Keeps B H J (f (q s.view)) s) : Keeps B H J (Script.call (.query q) >>= f) s :=
  Keeps.step hJ h

theorem Keeps.ask {e : E β} {f : β → Script D W G L E ε α} {s : Store D M S} (hJ : J s)
    (h : Keeps B H J (f (H.answer e s.env).1) { s with env := (H.answer e s.env).2 }) :
    Keeps B H J (Script.call (.ask e) >>= f) s :=
  Keeps.step hJ h

/-- An insert goes on in one of two ways. -/
theorem Keeps.insert {w : W} {k : Option G → Script D W G L E ε α} {s : Store D M S}
    (hJ : J s)
    (hdup : B.violates (H.fresh s.view s.env) w s.view = true → Keeps B H J (k none) s)
    (hok : B.violates (H.fresh s.view s.env) w s.view = false →
      Keeps B H J (k (some (H.fresh s.view s.env)))
        { s with view := B.apply (H.fresh s.view s.env) w s.view }) :
    Keeps B H J (.step (.insert w) k) s := by
  refine Keeps.step hJ ?_
  cases hv : B.violates (H.fresh s.view s.env) w s.view with
  | true =>
      simp only [exec, hv, if_true]
      exact hdup hv
  | false =>
      simp only [exec, hv, Bool.false_eq_true, if_false]
      exact hok hv

/-- A script that only reads stays where it is. -/
theorem Keeps.of_reads {Q : α → Prop} {p : Script D W G L E ε α} {s : Store D M S}
    (hp : p.Sat (fun _ c => c.isQuery = true) Q) (hJ : J s) : Keeps B H J p s := by
  induction p with
  | done a => exact Keeps.done hJ
  | fail e => exact Keeps.fail hJ
  | step c k ih =>
      obtain ⟨q, rfl⟩ := Cmd.eq_query_of_isQuery hp.1
      exact Keeps.step hJ (ih _ (hp.2 _))

/-- What holds all along holds where a quiet run returned. -/
theorem Keeps.of_run_ok {p : Script D W G L E ε α} {s s' : Store D M S} {a : α}
    (hp : Keeps B H J p s) (hq : Quiet p) (h : run B H p s = (.ok a, s')) : J s' := by
  induction p generalizing s with
  | done x =>
      rw [← (Prod.mk.inj h).2]
      exact hp _ _ (.here _ _)
  | fail e => exact absurd (congrArg Prod.fst h) (by simp)
  | step c k ih =>
      refine ih _ ?_ (hq.2 _) h
      intro p' s' hu
      exact hp p' s' (.next c k s hq.1 hu)

/-- What a run ends with, and none of its commands can bring back, it has had all along. -/
theorem Keeps.of_final {P : ∀ β : Type, Cmd D W G L E β → Prop} {Q : α → Prop}
    {p : Script D W G L E ε α} (hp : p.Sat P Q)
    (hback : ∀ β (c : Cmd D W G L E β) s, P β c → J (exec B H c s).2 → J s)
    {s : Store D M S} (hJ : J (run B H p s).2) : Keeps B H J p s := by
  induction p generalizing s with
  | done a => exact Keeps.done hJ
  | fail e => exact Keeps.fail hJ
  | step c k ih =>
      have hrest := ih _ (hp.2 _) hJ
      exact Keeps.step (hback _ c s hp.1 (hrest _ _ (.here _ _))) hrest

/-- A commit ends the stretch that `Keeps` speaks about. -/
theorem Keeps.commit {k : Unit → Script D W G L E ε α} {s : Store D M S}
    (hJ : J s) : Keeps B H J (.step .commit k) s := by
  intro p' s' hu
  cases hu with
  | here _ _ => exact hJ
  | next _ _ _ hc _ => exact absurd hc (by simp [Cmd.isCommit])

/-- The sequencing rule: the second program starts where the first returned. -/
theorem Keeps.bind {p : Script D W G L E ε α} {f : α → Script D W G L E ε β}
    {s : Store D M S} (hp : Keeps B H J p s)
    (hf : ∀ a s', run B H p s = (.ok a, s') → Keeps B H J (f a) s') :
    Keeps B H J (p >>= f) s := by
  induction p generalizing s with
  | done a => exact hf a s rfl
  | fail e => exact Keeps.fail (hp _ _ (.here _ _))
  | step c k ih =>
      rw [Script.step_bind]
      cases hc : c.isCommit with
      | true =>
          cases c with
          | commit => exact Keeps.commit (hp _ _ (.here _ _))
          | query q => exact absurd hc (by simp [Cmd.isCommit])
          | write w => exact absurd hc (by simp [Cmd.isCommit])
          | insert w => exact absurd hc (by simp [Cmd.isCommit])
          | mem m => exact absurd hc (by simp [Cmd.isCommit])
          | ask e => exact absurd hc (by simp [Cmd.isCommit])
      | false =>
          refine Keeps.step (hp _ _ (.here _ _)) ?_
          refine ih _ ?_ ?_
          · intro p' s' hu
            exact hp p' s' (.next c k s hc hu)
          · intro a s' hr
            exact hf a s' hr

end Sequential

end Transact
