import Mathlib.Logic.Function.Basic
import Mathlib.Logic.Relation
import Dropwatch.Lib.Script

/-! # Interleaved scripts — many threads over one database

    A thread runs a script over a session of its own.  A session reads the
    committed tables under its own uncommitted writes (`Backend.replay`), so two
    sessions see each other's commits and nothing else; a write waits for the
    sessions whose uncommitted writes contend with it (`Frame.Clear`); a commit
    replays the session's writes onto the tables of that moment.  A session can
    be closed at any point, which is a rollback: an exception, a lost
    connection, a crash.

    Reasoning is rely-guarantee.  A `Discipline` has an invariant `J` of the
    shared frame and, for every thread, a relation `R` that contains the steps of
    all others and a relation `Own` that contains its own.  `Safe` is the weakest
    precondition of a script under interference, `Triple` its Hoare form with one
    rule for each way a script is built, and `Discipline.valid_of_reaches` the
    soundness: what every program keeps, every interleaving keeps. -/

namespace Transact

variable {D W G M S ε α β γ : Type} {L E : Type → Type}

/-- An open session: the process that holds it, and its uncommitted writes with
    the values generated for them. -/
structure Session (G W : Type) where
  proc : Nat
  log : List (G × W)

/-- What threads share: the committed tables, the memories of the processes, the
    outside world, and who has a session open. -/
structure Frame (D W G M S : Type) where
  db : D
  mem : Nat → M
  ext : S
  sessions : Nat → Option (Session G W)

/-- Uncommitted writes over committed tables. -/
def Backend.replay (B : Backend D W G M L) (db : D) (log : List (G × W)) : D :=
  log.foldl (fun d e => B.apply e.1 e.2 d) db

@[simp] theorem Backend.replay_nil (B : Backend D W G M L) (db : D) :
    B.replay db [] = db := rfl

theorem Backend.replay_append (B : Backend D W G M L) (db : D) (log log' : List (G × W)) :
    B.replay db (log ++ log') = B.replay (B.replay db log) log' :=
  List.foldl_append

theorem Backend.replay_concat (B : Backend D W G M L) (db : D) (log : List (G × W))
    (e : G × W) : B.replay db (log ++ [e]) = B.apply e.1 e.2 (B.replay db log) := by
  rw [Backend.replay_append]
  rfl

/-- What every write of a log keeps, its replay keeps. -/
theorem Backend.replay_inv (B : Backend D W G M L) {P : D → Prop} {log : List (G × W)}
    (h : ∀ e ∈ log, ∀ db, P db → P (B.apply e.1 e.2 db)) {db : D} (hP : P db) :
    P (B.replay db log) :=
  List.foldlRecOn log _ hP (fun db hdb e he => h e he db hdb)

/-- A column that every write of a log extends by what it adds, the replay extends by all
    that is added. -/
theorem Backend.replay_added (B : Backend D W G M L) {V : D → List α} {A : G × W → Option α}
    {log : List (G × W)}
    (h : ∀ e ∈ log, ∀ db, V (B.apply e.1 e.2 db) = V db ++ (A e).toList) (db : D) :
    V (B.replay db log) = V db ++ log.filterMap A := by
  induction log generalizing db with
  | nil => exact (List.append_nil _).symm
  | cons e rest ih =>
      refine (ih (fun e' he' => h e' (List.mem_cons_of_mem e he')) (B.apply e.1 e.2 db)).trans ?_
      rw [h e List.mem_cons_self, List.append_assoc]
      cases hadded : A e with
      | none =>
          rw [List.filterMap_cons_none hadded]
          rfl
      | some a =>
          rw [List.filterMap_cons_some hadded]
          rfl

namespace Frame

/-- Open, change or close a session. -/
def put (f : Frame D W G M S) (i : Nat) (s : Option (Session G W)) : Frame D W G M S :=
  { f with sessions := Function.update f.sessions i s }

/-- One more uncommitted write. -/
def log (f : Frame D W G M S) (i : Nat) (s : Session G W) (e : G × W) : Frame D W G M S :=
  f.put i (some { s with log := s.log ++ [e] })

/-- The writes of a session become the tables. -/
def commit (B : Backend D W G M L) (f : Frame D W G M S) (i : Nat) (s : Session G W) :
    Frame D W G M S :=
  { f.put i (some { s with log := [] }) with db := B.replay f.db s.log }

def setMem (f : Frame D W G M S) (proc : Nat) (m : M) : Frame D W G M S :=
  { f with mem := Function.update f.mem proc m }

def setExt (f : Frame D W G M S) (x : S) : Frame D W G M S := { f with ext := x }

/-- No other session has an uncommitted write that contends with this one. -/
def Clear (B : Backend D W G M L) (f : Frame D W G M S) (i : Nat) (e : G × W) : Prop :=
  ∀ j s, j ≠ i → f.sessions j = some s → ∀ e' ∈ s.log, B.clash e e' = false

@[simp] theorem put_self (f : Frame D W G M S) (i : Nat) (s : Option (Session G W)) :
    (f.put i s).sessions i = s := by
  show Function.update f.sessions i s i = s
  exact Function.update_self ..

theorem put_of_ne (f : Frame D W G M S) {i j : Nat} (h : j ≠ i) (s : Option (Session G W)) :
    (f.put i s).sessions j = f.sessions j := by
  show Function.update f.sessions i s j = f.sessions j
  exact Function.update_of_ne h ..

@[simp] theorem put_db (f : Frame D W G M S) (i : Nat) (s : Option (Session G W)) :
    (f.put i s).db = f.db := rfl

@[simp] theorem put_ext (f : Frame D W G M S) (i : Nat) (s : Option (Session G W)) :
    (f.put i s).ext = f.ext := rfl

@[simp] theorem put_mem (f : Frame D W G M S) (i : Nat) (s : Option (Session G W)) :
    (f.put i s).mem = f.mem := rfl

end Frame

/-! ## Steps -/

/-- A system of threads: the database and the outside world, and the policy of
    who may start what, take which step and stop where. -/
structure System (D W G M S : Type) (L E : Type → Type) (ε : Type) where
  backend : Backend D W G M L
  answers : ∀ β : Type, E β → S → β → S → Prop
  starts : Frame D W G M S → Nat → Nat → Script D W G L E ε Unit → Prop
  execs : ∀ β : Type, Frame D W G M S → Nat → Cmd D W G L E β → Frame D W G M S → Prop
  closes : Frame D W G M S → Nat → Script D W G L E ε Unit → Prop

/-- One command of thread `i`, which has a session: its answer and what it does to
    the frame. -/
def Effect (Y : System D W G M S L E ε) (i : Nat) (f : Frame D W G M S) (β : Type)
    (cmd : Cmd D W G L E β) (b : β) (f' : Frame D W G M S) : Prop :=
  ∃ s, f.sessions i = some s ∧
    match cmd, b with
    | .query q, b => b = q (Y.backend.replay f.db s.log) ∧ f' = f
    | .write w, _ => ∃ g, f.Clear Y.backend i (g, w) ∧ f' = f.log i s (g, w)
    | .insert w, none => (∃ g, Y.backend.violates g w (Y.backend.replay f.db s.log) = true)
        ∧ f' = f
    | .insert w, some g => Y.backend.violates g w (Y.backend.replay f.db s.log) = false
        ∧ f.Clear Y.backend i (g, w) ∧ f' = f.log i s (g, w)
    | .commit, _ => f' = f.commit Y.backend i s
    | .mem m, b => b = (Y.backend.touch m (f.mem s.proc)).1
        ∧ f' = f.setMem s.proc (Y.backend.touch m (f.mem s.proc)).2
    | .ask e, b => ∃ x, Y.answers _ e f.ext b x ∧ f' = f.setExt x

/-- A frame and what every thread still has to do. -/
structure Config (D W G M S : Type) (L E : Type → Type) (ε : Type) where
  frame : Frame D W G M S
  prog : Nat → Script D W G L E ε Unit

/-- A thread starts, takes a step, or stops. -/
inductive Step (Y : System D W G M S L E ε) :
    Config D W G M S L E ε → Config D W G M S L E ε → Prop where
  | start (c : Config D W G M S L E ε) (i proc : Nat) (p : Script D W G L E ε Unit)
      (hi : c.frame.sessions i = none) (hp : Y.starts c.frame i proc p) :
      Step Y c ⟨c.frame.put i (some ⟨proc, []⟩), Function.update c.prog i p⟩
  | exec (c : Config D W G M S L E ε) (i : Nat) {β : Type} (cmd : Cmd D W G L E β)
      (k : β → Script D W G L E ε Unit) (b : β) (f : Frame D W G M S)
      (hi : c.prog i = .step cmd k) (he : Effect Y i c.frame β cmd b f)
      (ha : Y.execs β c.frame i cmd f) :
      Step Y c ⟨f, Function.update c.prog i (k b)⟩
  | close (c : Config D W G M S L E ε) (i : Nat) (hc : Y.closes c.frame i (c.prog i)) :
      Step Y c ⟨c.frame.put i none, c.prog⟩

/-- Any number of steps of any threads. -/
abbrev Reaches (Y : System D W G M S L E ε) :
    Config D W G M S L E ε → Config D W G M S L E ε → Prop :=
  Relation.ReflTransGen (Step Y)

/-- The system that refuses a command which would break a constraint of the committed
    tables. -/
def System.constrained (Y : System D W G M S L E ε) (K : D → Prop) :
    System D W G M S L E ε where
  backend := Y.backend
  answers := Y.answers
  starts := Y.starts
  execs := fun β f i cmd f' => Y.execs β f i cmd f' ∧ K f'.db
  closes := Y.closes

/-- A run whose tables satisfy a constraint in the end, where none of its commands could
    have repaired it, is a run under the constraint. -/
theorem Reaches.constrained {Y : System D W G M S L E ε} {K : D → Prop}
    (hback : ∀ (i : Nat) (β : Type) f (cmd : Cmd D W G L E β) b f',
      Effect Y i f β cmd b f' → K f'.db → K f.db)
    {c c' : Config D W G M S L E ε} (h : Reaches Y c c') (hK : K c'.frame.db) :
    Reaches (Y.constrained K) c c' := by
  induction h with
  | refl => exact .refl
  | tail _ hs ih =>
      cases hs with
      | start i proc p hi hp => exact (ih hK).tail (.start _ i proc p hi hp)
      | exec i cmd k b f hi he ha =>
          exact (ih (hback i _ _ cmd b f he hK)).tail (.exec _ i cmd k b f hi he ⟨ha, hK⟩)
      | close i hc => exact (ih hK).tail (.close _ i hc)

/-- A run under a constraint ends where the constraint holds. -/
theorem Reaches.satisfies {Y : System D W G M S L E ε} {K : D → Prop}
    {c c' : Config D W G M S L E ε} (h : Reaches (Y.constrained K) c c') (hK : K c.frame.db) :
    K c'.frame.db := by
  induction h with
  | refl => exact hK
  | tail _ hs ih =>
      cases hs with
      | start i proc p hi hp => exact ih
      | exec i cmd k b f hi he ha => exact ha.2
      | close i hc => exact ih

section Effects

variable {Y : System D W G M S L E ε} {i : Nat} {f f' : Frame D W G M S}

/-- What a command can do to the frame. -/
theorem Effect.frame_cases {cmd : Cmd D W G L E β} {b : β} (h : Effect Y i f β cmd b f') :
    ∃ s, f.sessions i = some s ∧
      (f' = f
        ∨ (∃ e, f.Clear Y.backend i e ∧ f' = f.log i s e)
        ∨ f' = f.commit Y.backend i s
        ∨ (∃ m, f' = f.setMem s.proc m)
        ∨ ∃ β e b x, Y.answers β e f.ext b x ∧ f' = f.setExt x) := by
  obtain ⟨s, hs, h⟩ := h
  refine ⟨s, hs, ?_⟩
  cases cmd with
  | query q => exact Or.inl h.2
  | write w =>
      obtain ⟨g, hclear, hlog⟩ := h
      exact Or.inr (Or.inl ⟨_, hclear, hlog⟩)
  | insert w =>
      cases b with
      | none => exact Or.inl h.2
      | some g => exact Or.inr (Or.inl ⟨_, h.2⟩)
  | commit => exact Or.inr (Or.inr (Or.inl h))
  | mem m => exact Or.inr (Or.inr (Or.inr (Or.inl ⟨_, h.2⟩)))
  | ask e =>
      obtain ⟨x, ha, hext⟩ := h
      exact Or.inr (Or.inr (Or.inr (Or.inr ⟨_, e, b, x, ha, hext⟩)))

/-- A command leaves the other sessions alone. -/
theorem Effect.sessions_of_ne {cmd : Cmd D W G L E β} {b : β} (h : Effect Y i f β cmd b f')
    {j : Nat} (hj : j ≠ i) : f'.sessions j = f.sessions j := by
  obtain ⟨s, -, heq | ⟨e, -, heq⟩ | heq | ⟨m, heq⟩ | ⟨_, _, _, x, -, heq⟩⟩ := h.frame_cases
  · rw [heq]
  · rw [heq]
    exact f.put_of_ne hj _
  · rw [heq]
    exact f.put_of_ne hj _
  · rw [heq]
    rfl
  · rw [heq]
    rfl

/-- Uncommitted writes of different sessions do not contend. -/
def ClashFree (B : Backend D W G M L) (f : Frame D W G M S) : Prop :=
  ∀ i j s s', i ≠ j → f.sessions i = some s → f.sessions j = some s' →
    ∀ x ∈ s.log, ∀ y ∈ s'.log, B.clash x y = false

/-- A session with no more writes than before keeps the others' writes clear. -/
theorem ClashFree.put {B : Backend D W G M L} (h : ClashFree B f) (i : Nat)
    (s : Option (Session G W))
    (hsub : ∀ s', s = some s' → ∀ x ∈ s'.log, ∀ j t, j ≠ i → f.sessions j = some t →
      ∀ y ∈ t.log, B.clash x y = false ∧ B.clash y x = false) :
    ClashFree B (f.put i s) := by
  intro a b t t' hab ha hb x hx y hy
  by_cases hai : a = i
  · rw [hai, Frame.put_self] at ha
    have hbi : b ≠ i := fun hbi => hab (hai.trans hbi.symm)
    rw [f.put_of_ne hbi] at hb
    exact (hsub t ha x hx b t' hbi hb y hy).1
  · rw [f.put_of_ne hai] at ha
    by_cases hbi : b = i
    · rw [hbi, Frame.put_self] at hb
      exact (hsub t' hb y hy a t hai ha x hx).2
    · rw [f.put_of_ne hbi] at hb
      exact h a b t t' hab ha hb x hx y hy

/-- A command keeps them so, where contention is mutual. -/
theorem ClashFree.effect (hsymm : ∀ x y, Y.backend.clash x y = Y.backend.clash y x)
    {cmd : Cmd D W G L E β} {b : β} (h : ClashFree Y.backend f)
    (he : Effect Y i f β cmd b f') : ClashFree Y.backend f' := by
  obtain ⟨s, hs, heq | ⟨e, hclear, heq⟩ | heq | ⟨m, heq⟩ | ⟨_, _, _, x, -, heq⟩⟩ := he.frame_cases
  · rw [heq]
    exact h
  · rw [heq]
    refine h.put i _ ?_
    intro s' hs' x hx j t hj ht y hy
    rw [← Option.some.inj hs'] at hx
    rcases List.mem_append.mp hx with hold | hnew
    · have hclash := h i j s t (Ne.symm hj) hs ht x hold y hy
      exact ⟨hclash, (hsymm y x).trans hclash⟩
    · rw [List.mem_singleton.mp hnew]
      have hclash := hclear j t hj ht y hy
      exact ⟨hclash, (hsymm y e).trans hclash⟩
  · rw [heq]
    refine ClashFree.put (f := f) h i _ ?_
    intro s' hs' x hx
    rw [← Option.some.inj hs'] at hx
    exact absurd hx List.not_mem_nil
  · rw [heq]
    exact h
  · rw [heq]
    exact h

end Effects

/-! ## Rely and guarantee -/

/-- An invariant of the frame, and for every thread what it may do (`Own`) and what
    the others do to it (`R`) as long as the invariant holds. -/
structure Discipline (Y : System D W G M S L E ε) where
  J : Frame D W G M S → Prop
  R : Nat → Frame D W G M S → Frame D W G M S → Prop
  Own : Nat → Frame D W G M S → Frame D W G M S → Prop
  refl : ∀ i f, R i f f
  trans : ∀ {i f f' f''}, R i f f' → R i f' f'' → R i f f''
  idle : ∀ i f, Own i f f
  others : ∀ {i j : Nat} {β : Type} {f f' : Frame D W G M S} {cmd : Cmd D W G L E β} {b : β},
    J f → Effect Y i f β cmd b f' → Own i f f' → J f' →
      j ≠ i → f.sessions j ≠ none → R j f f'
  opens : ∀ {i proc : Nat} {f : Frame D W G M S} {p : Script D W G L E ε Unit},
    J f → f.sessions i = none → Y.starts f i proc p →
      J (f.put i (some ⟨proc, []⟩))
        ∧ ∀ j, j ≠ i → f.sessions j ≠ none → R j f (f.put i (some ⟨proc, []⟩))
  closes : ∀ {i : Nat} {f : Frame D W G M S} {p : Script D W G L E ε Unit},
    J f → Y.closes f i p →
      J (f.put i none) ∧ ∀ j, j ≠ i → f.sessions j ≠ none → R j f (f.put i none)

namespace Discipline

variable {Y : System D W G M S L E ε} (Δ : Discipline Y) (i : Nat)

/-- The rest of the script keeps the invariant whatever the others do between its
    commands, and ends in `Q` unless it raises. -/
def Safe (Q : α → Frame D W G M S → Prop) :
    Script D W G L E ε α → Frame D W G M S → Prop
  | .done a, f => Q a f
  | .fail _, _ => True
  | .step (β := β) cmd k, f =>
      ∀ f', Δ.R i f f' → Δ.J f' → ∀ b f'', Effect Y i f' β cmd b f'' → Y.execs β f' i cmd f'' →
        Δ.J f'' ∧ Δ.Own i f' f'' ∧ Safe Q (k b) f''

variable {Δ i}

/-- What others do in between is covered. -/
theorem Safe.rely {p : Script D W G L E ε α} {f f' : Frame D W G M S}
    (h : Δ.Safe i (fun _ _ => True) p f) (hr : Δ.R i f f') :
    Δ.Safe i (fun _ _ => True) p f' := by
  cases p with
  | done a => exact trivial
  | fail e => exact trivial
  | step cmd k => exact fun f'' hr' => h f'' (Δ.trans hr hr')

theorem Safe.bind {Q : α → Frame D W G M S → Prop} {Q' : β → Frame D W G M S → Prop}
    {p : Script D W G L E ε α} {k : α → Script D W G L E ε β} {f : Frame D W G M S}
    (hJ : Δ.J f) (hp : Δ.Safe i Q p f)
    (hk : ∀ a f, Δ.J f → Q a f → Δ.Safe i Q' (k a) f) : Δ.Safe i Q' (p >>= k) f := by
  induction p generalizing f with
  | done a => exact hk a f hJ hp
  | fail e => exact trivial
  | step cmd k' ih =>
      intro f' hr hJ' b f'' he ha
      obtain ⟨hJ'', hown, hrest⟩ := hp f' hr hJ' b f'' he ha
      exact ⟨hJ'', hown, ih b hJ'' hrest⟩

theorem Safe.mono {Q Q' : α → Frame D W G M S → Prop} {p : Script D W G L E ε α}
    {f : Frame D W G M S} (hp : Δ.Safe i Q p f) (hQ : ∀ a f, Q a f → Q' a f) :
    Δ.Safe i Q' p f := by
  induction p generalizing f with
  | done a => exact hQ a f hp
  | fail e => exact trivial
  | step cmd k ih =>
      intro f' hr hJ' b f'' he ha
      obtain ⟨hJ'', hown, hrest⟩ := hp f' hr hJ' b f'' he ha
      exact ⟨hJ'', hown, ih b hrest⟩

variable (Δ i)

/-- An assertion that the others keep. -/
def Stable (P : Frame D W G M S → Prop) : Prop :=
  ∀ f f', P f → Δ.R i f f' → Δ.J f' → P f'

/-- Started under the invariant in `P`, the script keeps the invariant and ends in
    `Q`. -/
def Triple (P : Frame D W G M S → Prop) (p : Script D W G L E ε α)
    (Q : α → Frame D W G M S → Prop) : Prop :=
  ∀ f, Δ.J f → P f → Δ.Safe i Q p f

variable {Δ i}

theorem Triple.bind {P : Frame D W G M S → Prop} {Q : α → Frame D W G M S → Prop}
    {Q' : β → Frame D W G M S → Prop} {p : Script D W G L E ε α}
    {k : α → Script D W G L E ε β} (hp : Δ.Triple i P p Q)
    (hk : ∀ a, Δ.Triple i (Q a) (k a) Q') : Δ.Triple i P (p >>= k) Q' :=
  fun f hJ hP => Safe.bind hJ (hp f hJ hP) (fun a f' hJ' hQ => hk a f' hJ' hQ)

theorem Triple.done {P : Frame D W G M S → Prop} {Q : α → Frame D W G M S → Prop} {a : α}
    (h : ∀ f, Δ.J f → P f → Q a f) : Δ.Triple i P (.done a) Q := h

theorem Triple.fail {P : Frame D W G M S → Prop} {Q : α → Frame D W G M S → Prop} {e : ε} :
    Δ.Triple i P (.fail e : Script D W G L E ε α) Q := fun _ _ _ => trivial

theorem Triple.lift {P : Frame D W G M S → Prop} {Q : α → Frame D W G M S → Prop}
    {x : Except ε α} (h : ∀ a, x = .ok a → ∀ f, Δ.J f → P f → Q a f) :
    Δ.Triple i P (Script.lift x : Script D W G L E ε α) Q := by
  cases x with
  | ok a => exact h a rfl
  | error e => exact Triple.fail

/-- The rule of a command, followed by the rest. -/
theorem Triple.step {P : Frame D W G M S → Prop} {R : β → Frame D W G M S → Prop}
    {Q : α → Frame D W G M S → Prop} {cmd : Cmd D W G L E β}
    {k : β → Script D W G L E ε α} (hP : Δ.Stable i P)
    (hcmd : ∀ f b f', Δ.J f → P f → Effect Y i f β cmd b f' → Y.execs β f i cmd f' →
      Δ.J f' ∧ Δ.Own i f f' ∧ R b f')
    (hk : ∀ b, Δ.Triple i (R b) (k b) Q) : Δ.Triple i P (.step cmd k) Q := by
  intro f hJ hPf f' hr hJ' b f'' he ha
  obtain ⟨hJ'', hown, hR⟩ := hcmd f' b f'' hJ' (hP f f' hPf hr hJ') he ha
  exact ⟨hJ'', hown, hk b f'' hJ'' hR⟩

/-- The rule of consequence. -/
theorem Triple.conseq {P P' : Frame D W G M S → Prop} {Q Q' : α → Frame D W G M S → Prop}
    {p : Script D W G L E ε α} (h : Δ.Triple i P p Q) (hP : ∀ f, P' f → P f)
    (hQ : ∀ a f, Q a f → Q' a f) : Δ.Triple i P' p Q' :=
  fun f hJ hP' => (h f hJ (hP f hP')).mono hQ

/-- A script whose every command keeps the invariant and a stable assertion by itself. -/
theorem Triple.of_sat {C : ∀ β : Type, Cmd D W G L E β → Prop} {P : Frame D W G M S → Prop}
    {Q : α → Prop} {p : Script D W G L E ε α} (hp : p.Sat C Q) (hP : Δ.Stable i P)
    (hcmd : ∀ (β : Type) (cmd : Cmd D W G L E β) f b f', C β cmd → Δ.J f → P f →
      Effect Y i f β cmd b f' → Y.execs β f i cmd f' → Δ.J f' ∧ Δ.Own i f f' ∧ P f') :
    Δ.Triple i P p (fun a f => Q a ∧ P f) := by
  induction p with
  | done a => exact Triple.done (fun _ _ h => ⟨hp, h⟩)
  | fail e => exact Triple.fail
  | step cmd k ih =>
      refine Triple.step hP ?_ (fun b => ih b (hp.2 b))
      intro f b f' hJ hPf he ha
      exact hcmd _ cmd f b f' hp.1 hJ hPf he ha

/-- Reading keeps every stable assertion. -/
theorem Triple.of_reads {P : Frame D W G M S → Prop} {Q : α → Prop}
    {p : Script D W G L E ε α} (hp : p.Sat (fun _ c => c.isQuery = true) Q)
    (hP : Δ.Stable i P) : Δ.Triple i P p (fun a f => Q a ∧ P f) := by
  refine Triple.of_sat hp hP ?_
  intro β cmd f b f' hread hJ hPf he _
  obtain ⟨q, rfl⟩ := Cmd.eq_query_of_isQuery hread
  obtain ⟨s, -, -, hf⟩ := he
  rw [hf]
  exact ⟨hJ, Δ.idle i f, hPf⟩

variable (Δ)

/-- Every program that may start is safe where it starts. -/
def Verified : Prop :=
  ∀ f i proc p, Δ.J f → f.sessions i = none → Y.starts f i proc p →
    Δ.Safe i (fun _ _ => True) p (f.put i (some ⟨proc, []⟩))

/-- The invariant holds and every open thread is safe from here on. -/
def Valid (c : Config D W G M S L E ε) : Prop :=
  Δ.J c.frame ∧ ∀ i, c.frame.sessions i ≠ none →
    Δ.Safe i (fun _ _ => True) (c.prog i) c.frame

variable {Δ}

theorem valid_step {c c' : Config D W G M S L E ε} (hv : Δ.Verified) (h : Δ.Valid c)
    (hs : Step Y c c') : Δ.Valid c' := by
  obtain ⟨hJ, hsafe⟩ := h
  cases hs with
  | start i proc p hi hp =>
      obtain ⟨hJ', hothers⟩ := Δ.opens hJ hi hp
      refine ⟨hJ', ?_⟩
      intro j hj
      by_cases hji : j = i
      · rw [hji]
        show Δ.Safe i _ (Function.update c.prog i p i) _
        rw [Function.update_self]
        exact hv c.frame i proc p hJ hi hp
      · show Δ.Safe j _ (Function.update c.prog i p j) _
        rw [Function.update_of_ne hji]
        have hopen : c.frame.sessions j ≠ none := by
          rw [← c.frame.put_of_ne hji]
          exact hj
        exact (hsafe j hopen).rely (hothers j hji hopen)
  | exec i cmd k b f hi he ha =>
      obtain ⟨s, hopen, -⟩ := he.frame_cases
      have hprog := hsafe i (by rw [hopen]; exact Option.some_ne_none s)
      rw [hi] at hprog
      -- What the command may do its own program guarantees, and the others rely on it.
      obtain ⟨hJ', hown, hrest⟩ := hprog c.frame (Δ.refl i c.frame) hJ b f he ha
      refine ⟨hJ', ?_⟩
      intro j hj
      by_cases hji : j = i
      · rw [hji]
        show Δ.Safe i _ (Function.update c.prog i (k b) i) _
        rw [Function.update_self]
        exact hrest
      · show Δ.Safe j _ (Function.update c.prog i (k b) j) _
        rw [Function.update_of_ne hji]
        have hopenj : c.frame.sessions j ≠ none := by
          rw [← he.sessions_of_ne hji]
          exact hj
        exact (hsafe j hopenj).rely (Δ.others hJ he hown hJ' hji hopenj)
  | close i hc =>
      obtain ⟨hJ', hothers⟩ := Δ.closes hJ hc
      refine ⟨hJ', ?_⟩
      intro j hj
      by_cases hji : j = i
      · rw [hji] at hj
        exact absurd (c.frame.put_self i none) hj
      · have hopen : c.frame.sessions j ≠ none := by
          rw [← c.frame.put_of_ne hji none]
          exact hj
        exact (hsafe j hopen).rely (hothers j hji hopen)

/-- Soundness: every interleaving of verified programs keeps the invariant. -/
theorem valid_of_reaches {c c' : Config D W G M S L E ε} (hv : Δ.Verified)
    (h : Δ.Valid c) (hr : Reaches Y c c') : Δ.Valid c' := by
  induction hr with
  | refl => exact h
  | tail _ hs ih => exact valid_step hv ih hs

end Discipline

/-! ## Invariants of the frame

    Where an invariant alone decides which answers a command can get, no relation
    between threads is needed: every program is checked by itself, under these
    answers. -/

/-- An invariant that every command of every program keeps, as long as answers are
    those the invariant allows. -/
structure Invariant (Y : System D W G M S L E ε) (J : Frame D W G M S → Prop)
    (allows : ∀ β : Type, Cmd D W G L E β → β → Prop)
    (P : ∀ β : Type, Cmd D W G L E β → Prop) : Prop where
  programs : ∀ f i proc p, J f → Y.starts f i proc p → p.SatUnder allows P (fun _ => True)
  opens : ∀ f i proc, J f → J (f.put i (some ⟨proc, []⟩))
  closes : ∀ f i, J f → J (f.put i none)
  answers : ∀ (β : Type) f i (cmd : Cmd D W G L E β) b f', J f → Effect Y i f β cmd b f' →
    allows β cmd b
  keeps : ∀ (β : Type) f i (cmd : Cmd D W G L E β) b f', J f → P β cmd →
    Effect Y i f β cmd b f' → J f'

/-- The rest of every open thread's program. -/
def Under (allows : ∀ β : Type, Cmd D W G L E β → β → Prop)
    (P : ∀ β : Type, Cmd D W G L E β → Prop) (c : Config D W G M S L E ε) : Prop :=
  ∀ i, c.frame.sessions i ≠ none → (c.prog i).SatUnder allows P (fun _ => True)

section Invariants

variable {Y : System D W G M S L E ε} {J : Frame D W G M S → Prop}
  {allows : ∀ β : Type, Cmd D W G L E β → β → Prop} {P : ∀ β : Type, Cmd D W G L E β → Prop}
  {c c' : Config D W G M S L E ε}

theorem Invariant.step (h : Invariant Y J allows P) (hJ : J c.frame) (hc : Under allows P c)
    (hs : Step Y c c') : J c'.frame ∧ Under allows P c' := by
  cases hs with
  | start i proc p hi hp =>
      refine ⟨h.opens c.frame i proc hJ, ?_⟩
      intro j hj
      by_cases hji : j = i
      · rw [hji]
        show (Function.update c.prog i p i).SatUnder allows P _
        rw [Function.update_self]
        exact h.programs c.frame i proc p hJ hp
      · show (Function.update c.prog i p j).SatUnder allows P _
        rw [Function.update_of_ne hji]
        exact hc j (by rwa [← c.frame.put_of_ne hji])
  | exec i cmd k b f hi he ha =>
      obtain ⟨s, hopen, -⟩ := he.frame_cases
      have hprog := hc i (by rw [hopen]; exact Option.some_ne_none s)
      rw [hi] at hprog
      refine ⟨h.keeps _ c.frame i cmd b f hJ hprog.1 he, ?_⟩
      intro j hj
      by_cases hji : j = i
      · rw [hji]
        show (Function.update c.prog i (k b) i).SatUnder allows P _
        rw [Function.update_self]
        exact hprog.2 b (h.answers _ c.frame i cmd b f hJ he)
      · show (Function.update c.prog i (k b) j).SatUnder allows P _
        rw [Function.update_of_ne hji]
        exact hc j (by rwa [← he.sessions_of_ne hji])
  | close i _ =>
      refine ⟨h.closes c.frame i hJ, ?_⟩
      intro j hj
      by_cases hji : j = i
      · rw [hji] at hj
        exact absurd (c.frame.put_self i none) hj
      · exact hc j (by rwa [← c.frame.put_of_ne hji none])

/-- What every program keeps by itself, every interleaving keeps. -/
theorem Invariant.of_reaches (h : Invariant Y J allows P) (hJ : J c.frame)
    (hc : Under allows P c) (hr : Reaches Y c c') : J c'.frame := by
  have hall : J c'.frame ∧ Under allows P c' := by
    induction hr with
    | refl => exact ⟨hJ, hc⟩
    | tail _ hs ih => exact h.step ih.1 ih.2 hs
  exact hall.1

end Invariants

/-! ## Logs

    What a session has written so far and what its thread still does are one
    stretch of its script. -/

/-- Every open thread goes on from what it has written, with `C` at its commits. -/
def Logging (C : List W → Prop) (c : Config D W G M S L E ε) : Prop :=
  ∀ i s, c.frame.sessions i = some s →
    (c.prog i).Logs C (fun _ _ => True) (s.log.map Prod.snd)

section Logging

variable {Y : System D W G M S L E ε} {C : List W → Prop} {c c' : Config D W G M S L E ε}

/-- What a command leaves in the log of its session. -/
theorem Effect.logged {i : Nat} {f f' : Frame D W G M S} {cmd : Cmd D W G L E β} {b : β}
    (h : Effect Y i f β cmd b f') :
    ∃ s s', f.sessions i = some s ∧ f'.sessions i = some s'
      ∧ s'.log.map Prod.snd = cmd.logged (s.log.map Prod.snd) b := by
  obtain ⟨s, hs, h⟩ := h
  cases cmd with
  | query q => exact ⟨s, s, hs, by rw [h.2]; exact hs, rfl⟩
  | write w =>
      obtain ⟨g, -, rfl⟩ := h
      exact ⟨s, _, hs, f.put_self i _, List.map_append⟩
  | insert w =>
      cases b with
      | none => exact ⟨s, s, hs, by rw [h.2]; exact hs, rfl⟩
      | some g =>
          obtain ⟨-, -, rfl⟩ := h
          exact ⟨s, _, hs, f.put_self i _, List.map_append⟩
  | commit =>
      obtain rfl := h
      exact ⟨s, _, hs, f.put_self i _, rfl⟩
  | mem m =>
      obtain ⟨-, rfl⟩ := h
      exact ⟨s, s, hs, hs, rfl⟩
  | ask e =>
      obtain ⟨x, -, rfl⟩ := h
      exact ⟨s, s, hs, hs, rfl⟩

theorem Logging.step
    (hstarts : ∀ f i proc p, Y.starts f i proc p → p.Logs C (fun _ _ => True) [])
    (h : Logging C c) (hs : Step Y c c') : Logging C c' := by
  cases hs with
  | start i proc p hi hp =>
      intro j s hj
      by_cases hji : j = i
      · rw [hji] at hj ⊢
        rw [Frame.put_self] at hj
        obtain rfl := Option.some.inj hj
        show (Function.update c.prog i p i).Logs C _ _
        rw [Function.update_self]
        exact hstarts c.frame i proc p hp
      · show (Function.update c.prog i p j).Logs C _ _
        rw [Function.update_of_ne hji]
        rw [c.frame.put_of_ne hji] at hj
        exact h j s hj
  | exec i cmd k b f hi he ha =>
      intro j s hj
      by_cases hji : j = i
      · obtain ⟨s₀, s₁, hs₀, hs₁, hlog⟩ := he.logged
        have hprog := h i s₀ hs₀
        rw [hi] at hprog
        rw [hji] at hj ⊢
        obtain rfl := Option.some.inj (hs₁.symm.trans hj)
        show (Function.update c.prog i (k b) i).Logs C _ _
        rw [Function.update_self, hlog]
        exact hprog.2 b
      · show (Function.update c.prog i (k b) j).Logs C _ _
        rw [Function.update_of_ne hji]
        exact h j s (by rwa [← he.sessions_of_ne hji])
  | close i _ =>
      intro j s hj
      by_cases hji : j = i
      · rw [hji, Frame.put_self] at hj
        cases hj
      · rw [c.frame.put_of_ne hji] at hj
        exact h j s hj

theorem Logging.of_reaches
    (hstarts : ∀ f i proc p, Y.starts f i proc p → p.Logs C (fun _ _ => True) [])
    (h : Logging C c) (hr : Reaches Y c c') : Logging C c' := by
  induction hr with
  | refl => exact h
  | tail _ hs ih => exact ih.step hstarts hs

/-- At a commit the log of its session is in `C`. -/
theorem Logging.at_commit (h : Logging C c) {i : Nat} {s : Session G W}
    (hs : c.frame.sessions i = some s) {cmd : Cmd D W G L E β}
    {k : β → Script D W G L E ε Unit} (hi : c.prog i = .step cmd k)
    (hcmd : cmd.isCommit = true) : C (s.log.map Prod.snd) := by
  have hprog := h i s hs
  rw [hi] at hprog
  exact hprog.1 hcmd

end Logging

/-! ## One thread at a time

    While the other sessions have no uncommitted writes, an isolated run of a
    thread's script is a sequence of its steps. -/

/-- The store a session sees. -/
def Frame.store (B : Backend D W G M L) (f : Frame D W G M S) (s : Session G W) :
    Store D M S :=
  ⟨f.db, B.replay f.db s.log, f.mem s.proc, f.ext⟩

/-- The other sessions have written nothing. -/
def Frame.Alone (f : Frame D W G M S) (i : Nat) : Prop :=
  ∀ j s, j ≠ i → f.sessions j = some s → s.log = []

theorem Frame.Alone.clear {f : Frame D W G M S} {i : Nat} (h : f.Alone i)
    (B : Backend D W G M L) (e : G × W) : f.Clear B i e := by
  intro j s hj hs e' he'
  rw [h j s hj hs] at he'
  exact absurd he' List.not_mem_nil

/-- A stretch of an isolated run, commits included. -/
inductive Stretch (B : Backend D W G M L) (H : Host D G S E) :
    Script D W G L E ε α → Store D M S → Script D W G L E ε α → Store D M S → Prop where
  | here (p : Script D W G L E ε α) (s : Store D M S) : Stretch B H p s p s
  | next {β : Type} (c : Cmd D W G L E β) (k : β → Script D W G L E ε α) (s : Store D M S)
      {p' : Script D W G L E ε α} {s' : Store D M S}
      (h : Stretch B H (k (exec B H c s).1) (exec B H c s).2 p' s') :
      Stretch B H (.step c k) s p' s'

theorem Stretch.of_uncommitted {B : Backend D W G M L} {H : Host D G S E}
    {p p' : Script D W G L E ε α} {s s' : Store D M S} (h : Uncommitted B H p s p' s') :
    Stretch B H p s p' s' := by
  induction h with
  | here p s => exact .here p s
  | next c k s _ _ ih => exact .next c k s ih

/-- A stretch of a script that starts with a question has not begun, or has its answer. -/
theorem Stretch.ask_inv {B : Backend D W G M L} {H : Host D G S E} {e : E β}
    {f : β → Script D W G L E ε α} {p' : Script D W G L E ε α} {s s' : Store D M S}
    (h : Stretch B H (Script.call (.ask e) >>= f) s p' s') :
    (p' = (Script.call (.ask e) >>= f) ∧ s' = s)
      ∨ Stretch B H (f (H.answer e s.env).1) { s with env := (H.answer e s.env).2 } p' s' := by
  cases h with
  | here => exact Or.inl ⟨rfl, rfl⟩
  | next _ _ _ h => exact Or.inr h

theorem Stretch.of_run {B : Backend D W G M L} {H : Host D G S E}
    {p : Script D W G L E ε α} {s s' : Store D M S} {a : α}
    (h : run B H p s = (.ok a, s')) : Stretch B H p s (.done a) s' := by
  induction p generalizing s with
  | done x =>
      obtain ⟨hx, hs⟩ := Prod.mk.inj h
      rw [Except.ok.inj hx, hs]
      exact .here _ _
  | fail e => exact absurd (congrArg Prod.fst h) (by simp)
  | step c k ih => exact .next c k s (ih _ h)

/-- Where a stretch of a sequence stands whose first part stays in its session: inside
    that part, with nothing committed, or in the rest. -/
theorem Stretch.bind_inSession {B : Backend D W G M L} {H : Host D G S E}
    {Q : α → Prop} {p : Script D W G L E ε α} (hp : p.Sat (fun _ c => c.inSession = true) Q)
    {f : α → Script D W G L E ε γ} {p' : Script D W G L E ε γ} {s s' : Store D M S}
    (h : Stretch B H (p >>= f) s p' s') :
    (s'.committed = s.committed ∧ s'.env = s.env
        ∧ ∀ (β : Type) (c : Cmd D W G L E β) k, p' = .step c k → c.inSession = true)
      ∨ ∃ a s₁, run B H p s = (.ok a, s₁) ∧ Stretch B H (f a) s₁ p' s' := by
  induction p generalizing s with
  | done a => exact Or.inr ⟨a, s, rfl, h⟩
  | fail e =>
      cases h with
      | here => exact Or.inl ⟨rfl, rfl, fun _ _ _ heq => by cases heq⟩
  | step c k ih =>
      cases h with
      | here =>
          refine Or.inl ⟨rfl, rfl, ?_⟩
          intro β c' k' heq
          cases heq
          exact hp.1
      | next _ _ _ hrest =>
          rcases ih _ (hp.2 _) hrest with ⟨hcommitted, henv, hnext⟩ | hdone
          · have hone : Script.Sat (fun _ c => c.inSession = true) (fun _ => True)
                (.step c .done : Script D W G L E ε _) := ⟨hp.1, fun _ => trivial⟩
            obtain ⟨hcommitted', henv'⟩ := hone.run_frame B H s
            exact Or.inl ⟨hcommitted.trans hcommitted', henv.trans henv', hnext⟩
          · exact Or.inr hdone

section Alone

variable {Y : System D W G M S L E ε} {H : Host D G S E} {i : Nat}

/-- One command of an isolated run is a command of the thread. -/
theorem effect_of_exec
    (hH : ∀ (β : Type) (e : E β) x, Y.answers β e x (H.answer e x).1 (H.answer e x).2)
    {f : Frame D W G M S} {s : Session G W} (hs : f.sessions i = some s) (ha : f.Alone i)
    (cmd : Cmd D W G L E β) :
    ∃ f' s', Effect Y i f β cmd (exec Y.backend H cmd (f.store Y.backend s)).1 f'
      ∧ f'.sessions i = some s' ∧ s'.proc = s.proc
      ∧ f'.store Y.backend s' = (exec Y.backend H cmd (f.store Y.backend s)).2 := by
  -- A write adds to the log what it adds to the view.
  have hlog : ∀ e : G × W, (f.log i s e).store Y.backend { s with log := s.log ++ [e] }
      = { f.store Y.backend s with
          view := Y.backend.apply e.1 e.2 (Y.backend.replay f.db s.log) } := by
    intro e
    show Store.mk f.db (Y.backend.replay f.db (s.log ++ [e])) (f.mem s.proc) f.ext = _
    rw [Backend.replay_concat]
    rfl
  cases cmd with
  | query q => exact ⟨f, s, ⟨s, hs, rfl, rfl⟩, hs, rfl, rfl⟩
  | write w =>
      exact ⟨_, _, ⟨s, hs, _, ha.clear _ _, rfl⟩, f.put_self i _, rfl, hlog _⟩
  | insert w =>
      cases hv : Y.backend.violates (H.fresh (Y.backend.replay f.db s.log) f.ext) w
          (Y.backend.replay f.db s.log) with
      | true =>
          have hexec : exec Y.backend H (.insert w) (f.store Y.backend s)
              = (none, f.store Y.backend s) := by
            simp only [exec, Frame.store, hv, if_true]
          rw [hexec]
          exact ⟨f, s, ⟨s, hs, ⟨_, hv⟩, rfl⟩, hs, rfl, rfl⟩
      | false =>
          have hexec : exec Y.backend H (.insert w) (f.store Y.backend s)
              = (some (H.fresh (Y.backend.replay f.db s.log) f.ext),
                { f.store Y.backend s with
                  view := Y.backend.apply (H.fresh (Y.backend.replay f.db s.log) f.ext) w
                    (Y.backend.replay f.db s.log) }) := by
            simp only [exec, Frame.store, hv, Bool.false_eq_true, if_false]
          rw [hexec]
          exact ⟨_, _, ⟨s, hs, hv, ha.clear _ _, rfl⟩, f.put_self i _, rfl, hlog _⟩
  | commit => exact ⟨_, _, ⟨s, hs, rfl⟩, f.put_self i _, rfl, rfl⟩
  | mem m =>
      refine ⟨_, s, ⟨s, hs, rfl, rfl⟩, hs, rfl, ?_⟩
      show Store.mk f.db _ (Function.update f.mem s.proc _ s.proc) f.ext = _
      rw [Function.update_self]
      rfl
  | ask e => exact ⟨_, s, ⟨s, hs, _, hH _ e f.ext, rfl⟩, hs, rfl, rfl⟩

/-- A stretch of an isolated run is a run of the thread. -/
theorem reaches_of_stretch
    (hH : ∀ (β : Type) (e : E β) x, Y.answers β e x (H.answer e x).1 (H.answer e x).2)
    (hexecs : ∀ (β : Type) f (cmd : Cmd D W G L E β) f', Y.execs β f i cmd f')
    {c : Config D W G M S L E ε} {s : Session G W} (hs : c.frame.sessions i = some s)
    (ha : c.frame.Alone i) {p p' : Script D W G L E ε Unit} {σ σ' : Store D M S}
    (h : Stretch Y.backend H p σ p' σ') (hp : c.prog i = p)
    (hσ : c.frame.store Y.backend s = σ) :
    ∃ c' s', Reaches Y c c' ∧ c'.frame.sessions i = some s' ∧ s'.proc = s.proc
      ∧ c'.frame.store Y.backend s' = σ' ∧ c'.prog i = p'
      ∧ ∀ j, j ≠ i → c'.frame.sessions j = c.frame.sessions j ∧ c'.prog j = c.prog j := by
  induction h generalizing c s with
  | here p σ => exact ⟨c, s, .refl, hs, rfl, hσ, hp, fun _ _ => ⟨rfl, rfl⟩⟩
  | next cmd k σ _ ih =>
      obtain ⟨f, s₁, heffect, hs₁, hproc, hstore⟩ := effect_of_exec hH hs ha cmd
      rw [hσ] at heffect hstore
      have hstep : Step Y c ⟨f, Function.update c.prog i (k (exec Y.backend H cmd σ).1)⟩ :=
        .exec c i cmd k _ f hp heffect (hexecs _ _ _ _)
      have halone : f.Alone i := by
        intro j t hj ht
        rw [heffect.sessions_of_ne hj] at ht
        exact ha j t hj ht
      obtain ⟨c', s', hreach, hs', hproc', hstore', hprog', hothers⟩ :=
        @ih ⟨f, Function.update c.prog i (k (exec Y.backend H cmd σ).1)⟩ s₁ hs₁ halone
          (Function.update_self ..) hstore
      refine ⟨c', s', .head hstep hreach, hs', hproc'.trans hproc, hstore', hprog', ?_⟩
      intro j hj
      obtain ⟨hsession, hprog⟩ := hothers j hj
      refine ⟨hsession.trans (heffect.sessions_of_ne hj), hprog.trans ?_⟩
      exact Function.update_of_ne hj ..

/-- While the others have written nothing, an open thread can run a stretch and
    stop. -/
theorem reaches_of_rest
    (hH : ∀ (β : Type) (e : E β) x, Y.answers β e x (H.answer e x).1 (H.answer e x).2)
    (hexecs : ∀ (β : Type) f (cmd : Cmd D W G L E β) f', Y.execs β f i cmd f')
    {c : Config D W G M S L E ε} {s : Session G W} (hs : c.frame.sessions i = some s)
    (ha : c.frame.Alone i) {p p' : Script D W G L E ε Unit} (hp : c.prog i = p)
    (hclose : ∀ f, Y.closes f i p') {σ' : Store D M S}
    (h : Stretch Y.backend H p (c.frame.store Y.backend s) p' σ') :
    ∃ c', Reaches Y c c' ∧ c'.frame.sessions i = none
      ∧ (∀ j, j ≠ i → c'.frame.sessions j = c.frame.sessions j ∧ c'.prog j = c.prog j)
      ∧ c'.frame.db = σ'.committed ∧ c'.frame.mem s.proc = σ'.mem ∧ c'.frame.ext = σ'.env := by
  obtain ⟨c', s', hreach, -, hproc, hstore, hprog, hothers⟩ :=
    reaches_of_stretch hH hexecs hs ha h hp rfl
  have hclosed : Step Y c' ⟨c'.frame.put i none, c'.prog⟩ :=
    .close c' i (by rw [hprog]; exact hclose c'.frame)
  refine ⟨_, hreach.tail hclosed, c'.frame.put_self i none, ?_,
    congrArg Store.committed hstore, ?_, congrArg Store.env hstore⟩
  · intro j hj
    obtain ⟨hsession, hprogj⟩ := hothers j hj
    exact ⟨(c'.frame.put_of_ne hj none).trans hsession, hprogj⟩
  · rw [← hproc]
    exact congrArg Store.mem hstore

/-- The same from the start of a thread. -/
theorem reaches_of_turn
    (hH : ∀ (β : Type) (e : E β) x, Y.answers β e x (H.answer e x).1 (H.answer e x).2)
    (hexecs : ∀ (β : Type) f (cmd : Cmd D W G L E β) f', Y.execs β f i cmd f')
    {c : Config D W G M S L E ε} (hi : c.frame.sessions i = none) (ha : c.frame.Alone i)
    {proc : Nat} {p p' : Script D W G L E ε Unit} (hstart : Y.starts c.frame i proc p)
    (hclose : ∀ f, Y.closes f i p') {σ' : Store D M S}
    (h : Stretch Y.backend H p ⟨c.frame.db, c.frame.db, c.frame.mem proc, c.frame.ext⟩ p' σ') :
    ∃ c', Reaches Y c c' ∧ c'.frame.sessions i = none
      ∧ (∀ j, j ≠ i → c'.frame.sessions j = c.frame.sessions j ∧ c'.prog j = c.prog j)
      ∧ c'.frame.db = σ'.committed ∧ c'.frame.mem proc = σ'.mem ∧ c'.frame.ext = σ'.env := by
  have hstep : Step Y c ⟨c.frame.put i (some ⟨proc, []⟩), Function.update c.prog i p⟩ :=
    .start c i proc p hi hstart
  have halone : (c.frame.put i (some ⟨proc, []⟩)).Alone i := by
    intro j s hj hs
    rw [c.frame.put_of_ne hj] at hs
    exact ha j s hj hs
  obtain ⟨c', hreach, hclosed, hothers, hdata⟩ :=
    @reaches_of_rest _ _ _ _ _ _ _ _ Y H i hH hexecs
      ⟨c.frame.put i (some ⟨proc, []⟩), Function.update c.prog i p⟩ ⟨proc, []⟩
      (c.frame.put_self i _) halone p p' (Function.update_self ..) hclose σ' h
  refine ⟨c', .head hstep hreach, hclosed, ?_, hdata⟩
  intro j hj
  obtain ⟨hsession, hprogj⟩ := hothers j hj
  exact ⟨hsession.trans (c.frame.put_of_ne hj _), hprogj.trans (Function.update_of_ne hj ..)⟩

end Alone

end Transact
