import Dropwatch.Lib.Interleave

/-! # Observed runs of interleaved scripts

    A property of a whole run may speak of what is in no table: the order of two
    reads, the writes of a commit.  An observer is a function from a command about to
    be executed to what it notes down, and `Traced` is a run with its notes.

    The second half runs one thread for a number of commands against given
    surroundings (`turn`), and a schedule of such turns (`play`).  Both compute, and
    what they compute is a run (`traced_play`), so an interleaving can be written
    down and evaluated. -/

namespace Transact

variable {D W G M S ε α β ω : Type} {L E : Type → Type}

/-- What is noted down of a command of thread `i` in a frame. -/
abbrev Observer (D W G M S : Type) (L E : Type → Type) (ω : Type) : Type 1 :=
  (β : Type) → Frame D W G M S → Nat → Cmd D W G L E β → List ω

/-- The observer of the commits: the writes of each. -/
def commits : Observer D W G M S L E (List (G × W)) := fun _ f i cmd =>
  match cmd with
  | .commit => ((f.sessions i).map Session.log).toList
  | _ => []

/-- The observer of the commits with the tables before each. -/
def transactions : Observer D W G M S L E (D × List (G × W)) := fun _ f i cmd =>
  match cmd with
  | .commit => ((f.sessions i).map fun s => (f.db, s.log)).toList
  | _ => []

/-- A step with its notes. -/
inductive TracedStep (Y : System D W G M S L E ε) (obs : Observer D W G M S L E ω) :
    Config D W G M S L E ε → List ω → Config D W G M S L E ε → Prop where
  | start (c : Config D W G M S L E ε) (i proc : Nat) (p : Script D W G L E ε Unit)
      (hi : c.frame.sessions i = none) (hp : Y.starts c.frame i proc p) :
      TracedStep Y obs c [] ⟨c.frame.put i (some ⟨proc, []⟩), Function.update c.prog i p⟩
  | exec (c : Config D W G M S L E ε) (i : Nat) {β : Type} (cmd : Cmd D W G L E β)
      (k : β → Script D W G L E ε Unit) (b : β) (f : Frame D W G M S)
      (hi : c.prog i = .step cmd k) (he : Effect Y i c.frame β cmd b f)
      (ha : Y.execs β c.frame i cmd f) :
      TracedStep Y obs c (obs β c.frame i cmd) ⟨f, Function.update c.prog i (k b)⟩
  | close (c : Config D W G M S L E ε) (i : Nat) (hc : Y.closes c.frame i (c.prog i)) :
      TracedStep Y obs c [] ⟨c.frame.put i none, c.prog⟩

/-- A run with its notes. -/
inductive Traced (Y : System D W G M S L E ε) (obs : Observer D W G M S L E ω) :
    Config D W G M S L E ε → List ω → Config D W G M S L E ε → Prop where
  | refl (c : Config D W G M S L E ε) : Traced Y obs c [] c
  | tail {c c' c'' : Config D W G M S L E ε} {xs ys : List ω} (h : Traced Y obs c xs c')
      (hs : TracedStep Y obs c' ys c'') : Traced Y obs c (xs ++ ys) c''

variable {Y : System D W G M S L E ε} {obs : Observer D W G M S L E ω}
  {c c' c'' : Config D W G M S L E ε} {xs ys : List ω}

theorem TracedStep.step (h : TracedStep Y obs c xs c') : Step Y c c' := by
  cases h with
  | start i proc p hi hp => exact .start c i proc p hi hp
  | exec i cmd k b f hi he ha => exact .exec c i cmd k b f hi he ha
  | close i hc => exact .close c i hc

theorem Traced.reaches (h : Traced Y obs c xs c') : Reaches Y c c' := by
  induction h with
  | refl => exact .refl
  | tail _ hs ih => exact ih.tail hs.step

theorem Traced.single (h : TracedStep Y obs c xs c') : Traced Y obs c xs c' :=
  .tail (.refl c) h

theorem Traced.trans (h : Traced Y obs c xs c') (h' : Traced Y obs c' ys c'') :
    Traced Y obs c (xs ++ ys) c'' := by
  induction h' with
  | refl => rwa [List.append_nil]
  | tail _ hs ih =>
      rw [← List.append_assoc]
      exact ih.tail hs

/-- An observed run whose tables satisfy a constraint in the end, where none of its commands
    could have repaired it, is an observed run under the constraint. -/
theorem Traced.constrained {K : D → Prop}
    (hback : ∀ (i : Nat) (β : Type) f (cmd : Cmd D W G L E β) b f',
      Effect Y i f β cmd b f' → K f'.db → K f.db)
    (h : Traced Y obs c xs c') (hK : K c'.frame.db) : Traced (Y.constrained K) obs c xs c' := by
  induction h with
  | refl => exact .refl _
  | tail _ hs ih =>
      cases hs with
      | start i proc p hi hp => exact (ih hK).tail (.start _ i proc p hi hp)
      | exec i cmd k b f hi he ha =>
          exact (ih (hback i _ _ cmd b f he hK)).tail (.exec _ i cmd k b f hi he ⟨ha, hK⟩)
      | close i hc => exact (ih hK).tail (.close _ i hc)

/-- An observed run is a run of another system that allows each of its steps, as their notes
    tell. -/
theorem Traced.reaches_of_notes {Y' : System D W G M S L E ε} {good : ω → Prop}
    (hstep : ∀ {c c' xs}, TracedStep Y obs c xs c' → (∀ x ∈ xs, good x) → Step Y' c c')
    (h : Traced Y obs c xs c') (hxs : ∀ x ∈ xs, good x) : Reaches Y' c c' := by
  induction h with
  | refl => exact .refl
  | tail _ hs ih =>
      have hearlier := ih (fun x hx => hxs x (List.mem_append_left _ hx))
      exact hearlier.tail (hstep hs (fun x hx => hxs x (List.mem_append_right _ hx)))

/-- The invariant rule of observed runs: what a session may come and go by, and every
    command keeps where `V` holds, holds of all notes and the frame in the end. -/
theorem Traced.invariant {V : Config D W G M S L E ε → Prop}
    (hV : ∀ {c c'}, V c → Step Y c c' → V c') {P : List ω → Frame D W G M S → Prop}
    (hput : ∀ zs f i s, P zs f → P zs (f.put i s))
    (hexec : ∀ zs (c : Config D W G M S L E ε) i (β : Type) (cmd : Cmd D W G L E β) b f, V c →
      P zs c.frame → Effect Y i c.frame β cmd b f → P (zs ++ obs β c.frame i cmd) f)
    (hc : V c) (hP : P [] c.frame) (h : Traced Y obs c xs c') : V c' ∧ P xs c'.frame := by
  induction h with
  | refl => exact ⟨hc, hP⟩
  | tail _ hs ih =>
      obtain ⟨hvalid, hP'⟩ := ih
      refine ⟨hV hvalid hs.step, ?_⟩
      cases hs with
      | start i proc p hi hp =>
          rw [List.append_nil]
          exact hput _ _ i _ hP'
      | exec i cmd k b f hi he ha => exact hexec _ _ i _ cmd b f hvalid hP' he
      | close i hc =>
          rw [List.append_nil]
          exact hput _ _ i _ hP'

/-- Only a commit changes the tables, and only of a commit do its observers note anything. -/
theorem Effect.commit_cases {i : Nat} {f f' : Frame D W G M S} {cmd : Cmd D W G L E β} {b : β}
    (h : Effect Y i f β cmd b f') :
    (f'.db = f.db ∧ commits β f i cmd = [] ∧ transactions β f i cmd = [])
      ∨ ∃ s, f.sessions i = some s ∧ cmd.isCommit = true
        ∧ f'.db = Y.backend.replay f.db s.log
        ∧ commits β f i cmd = [s.log] ∧ transactions β f i cmd = [(f.db, s.log)] := by
  obtain ⟨s, hs, h⟩ := h
  cases cmd with
  | query q =>
      rw [h.2]
      exact Or.inl ⟨rfl, rfl, rfl⟩
  | write w =>
      obtain ⟨g, -, rfl⟩ := h
      exact Or.inl ⟨rfl, rfl, rfl⟩
  | insert w =>
      cases b with
      | none =>
          rw [h.2]
          exact Or.inl ⟨rfl, rfl, rfl⟩
      | some g =>
          obtain ⟨-, -, rfl⟩ := h
          exact Or.inl ⟨rfl, rfl, rfl⟩
  | commit =>
      refine Or.inr ⟨s, hs, rfl, by rw [show f' = _ from h]; rfl, ?_, ?_⟩
      · rw [commits, hs]
        rfl
      · rw [transactions, hs]
        rfl
  | mem m =>
      obtain ⟨-, rfl⟩ := h
      exact Or.inl ⟨rfl, rfl, rfl⟩
  | ask e =>
      obtain ⟨x, -, rfl⟩ := h
      exact Or.inl ⟨rfl, rfl, rfl⟩

/-- The rule for what only commits change: where the programs commit writes in `C`, it is
    enough to check such a commit. -/
theorem Traced.of_commits {C : List W → Prop} {P : List (D × List (G × W)) → D → Prop}
    {xs : List (D × List (G × W))}
    (hstarts : ∀ f i proc p, Y.starts f i proc p → p.Logs C (fun _ _ => True) [])
    (hcommit : ∀ xs db log, C (log.map Prod.snd) → P xs db →
      P (xs ++ [(db, log)]) (Y.backend.replay db log))
    (hc : Logging C c) (hP : P [] c.frame.db) (h : Traced Y transactions c xs c') :
    P xs c'.frame.db := by
  induction h with
  | refl => exact hP
  | @tail c' c'' xs ys hrun hs ih =>
      have hlog := hc.of_reaches hstarts hrun.reaches
      cases hs with
      | start i proc p hi hp =>
          rw [List.append_nil]
          exact ih
      | close i hclose =>
          rw [List.append_nil]
          exact ih
      | exec i cmd k b f hi he ha =>
          rcases he.commit_cases with ⟨hdb, -, hnone⟩ | ⟨s, hs, hcmd, hdb, -, hone⟩
          · show P _ f.db
            rw [hnone, hdb, List.append_nil]
            exact ih
          · show P _ f.db
            rw [hone, hdb]
            exact hcommit xs c'.frame.db s.log (hlog.at_commit hs hi hcmd) ih

/-! ## Turns -/

section Turn

variable (B : Backend D W G M L) (H : Host D G S E)

/-- One command of thread `i` against the host: its answer and the frame after it. -/
def Frame.exec (i : Nat) (f : Frame D W G M S) (s : Session G W) :
    Cmd D W G L E β → β × Frame D W G M S
  | .query q => (q (B.replay f.db s.log), f)
  | .write w => ((), f.log i s (H.fresh (B.replay f.db s.log) f.ext, w))
  | .insert w =>
      if B.violates (H.fresh (B.replay f.db s.log) f.ext) w (B.replay f.db s.log) then (none, f)
      else (some (H.fresh (B.replay f.db s.log) f.ext),
        f.log i s (H.fresh (B.replay f.db s.log) f.ext, w))
  | .commit => ((), f.commit B i s)
  | .mem m => ((B.touch m (f.mem s.proc)).1, f.setMem s.proc (B.touch m (f.mem s.proc)).2)
  | .ask e => ((H.answer e f.ext).1, f.setExt (H.answer e f.ext).2)

/-- At most `n` commands of thread `i`: the rest of its script, the frame, and what was
    noted down. -/
def turn (obs : Observer D W G M S L E ω) (i : Nat) :
    Nat → Script D W G L E ε α → Frame D W G M S →
      Script D W G L E ε α × Frame D W G M S × List ω
  | 0, p, f => (p, f, [])
  | _ + 1, .done a, f => (.done a, f, [])
  | _ + 1, .fail e, f => (.fail e, f, [])
  | n + 1, .step cmd k, f =>
      match f.sessions i with
      | none => (.step cmd k, f, [])
      | some s =>
          let rest := turn obs i n (k (f.exec B H i s cmd).1) (f.exec B H i s cmd).2
          (rest.1, rest.2.1, obs _ f i cmd ++ rest.2.2)

end Turn

variable {H : Host D G S E} {i : Nat}

theorem effect_frame_exec
    (hH : ∀ (β : Type) (e : E β) x, Y.answers β e x (H.answer e x).1 (H.answer e x).2)
    {f : Frame D W G M S} {s : Session G W} (hs : f.sessions i = some s) (ha : f.Alone i)
    (cmd : Cmd D W G L E β) :
    Effect Y i f β cmd (f.exec Y.backend H i s cmd).1 (f.exec Y.backend H i s cmd).2 := by
  refine ⟨s, hs, ?_⟩
  cases cmd with
  | query q => exact ⟨rfl, rfl⟩
  | write w => exact ⟨_, ha.clear _ _, rfl⟩
  | insert w =>
      cases hv : Y.backend.violates (H.fresh (Y.backend.replay f.db s.log) f.ext) w
          (Y.backend.replay f.db s.log) with
      | true =>
          have hexec : f.exec Y.backend H i s (.insert w) = (none, f) := by
            simp only [Frame.exec, hv, if_true]
          rw [hexec]
          exact ⟨⟨_, hv⟩, rfl⟩
      | false =>
          have hexec : f.exec Y.backend H i s (.insert w)
              = (some (H.fresh (Y.backend.replay f.db s.log) f.ext),
                f.log i s (H.fresh (Y.backend.replay f.db s.log) f.ext, w)) := by
            simp only [Frame.exec, hv, Bool.false_eq_true, if_false]
          rw [hexec]
          exact ⟨hv, ha.clear _ _, rfl⟩
  | commit => rfl
  | mem m => exact ⟨rfl, rfl⟩
  | ask e => exact ⟨_, hH _ e f.ext, rfl⟩

/-- A turn of a thread whose rivals have written nothing is a run. -/
theorem traced_turn
    (hH : ∀ (β : Type) (e : E β) x, Y.answers β e x (H.answer e x).1 (H.answer e x).2)
    (hexecs : ∀ (β : Type) f (cmd : Cmd D W G L E β) f', Y.execs β f i cmd f') (n : Nat)
    {c : Config D W G M S L E ε} (ha : c.frame.Alone i) {p : Script D W G L E ε Unit}
    (hp : c.prog i = p) :
    Traced Y obs c (turn Y.backend H obs i n p c.frame).2.2
        ⟨(turn Y.backend H obs i n p c.frame).2.1,
          Function.update c.prog i (turn Y.backend H obs i n p c.frame).1⟩
      ∧ ∀ j, j ≠ i →
        (turn Y.backend H obs i n p c.frame).2.1.sessions j = c.frame.sessions j := by
  have hstay : ∀ {c : Config D W G M S L E ε} {p : Script D W G L E ε Unit}, c.prog i = p →
      Traced Y obs c [] ⟨c.frame, Function.update c.prog i p⟩ := by
    intro c p hp
    rw [← hp, Function.update_eq_self]
    exact .refl c
  induction n generalizing c p with
  | zero => exact ⟨hstay hp, fun _ _ => rfl⟩
  | succ n ih =>
      cases p with
      | done a => exact ⟨hstay hp, fun _ _ => rfl⟩
      | fail e => exact ⟨hstay hp, fun _ _ => rfl⟩
      | step cmd k =>
          cases hs : c.frame.sessions i with
          | none =>
              have hturn : turn Y.backend H obs i (n + 1) (.step cmd k) c.frame
                  = (.step cmd k, c.frame, []) := by
                simp only [turn, hs]
              rw [hturn]
              exact ⟨hstay hp, fun _ _ => rfl⟩
          | some s =>
              -- Alone with its writes, the thread is never refused.
              have heffect := effect_frame_exec (Y := Y) hH hs ha cmd
              have hstep : TracedStep Y obs c (obs _ c.frame i cmd)
                  ⟨(c.frame.exec Y.backend H i s cmd).2,
                    Function.update c.prog i (k (c.frame.exec Y.backend H i s cmd).1)⟩ :=
                .exec c i cmd k _ _ hp heffect (hexecs _ _ _ _)
              have halone : (c.frame.exec Y.backend H i s cmd).2.Alone i := by
                intro j t hj ht
                rw [heffect.sessions_of_ne hj] at ht
                exact ha j t hj ht
              have hself : Function.update c.prog i (k (c.frame.exec Y.backend H i s cmd).1) i
                  = k (c.frame.exec Y.backend H i s cmd).1 := Function.update_self ..
              obtain ⟨htraced, hothers⟩ :=
                @ih ⟨_, Function.update c.prog i (k (c.frame.exec Y.backend H i s cmd).1)⟩
                  halone _ hself
              rw [Function.update_idem] at htraced
              simp only [turn, hs]
              refine ⟨(Traced.single hstep).trans htraced, ?_⟩
              intro j hj
              exact (hothers j hj).trans (heffect.sessions_of_ne hj)

/-! ## Schedules -/

/-- A thread starts, runs for a number of commands, or stops. -/
inductive Move (D W G : Type) (L E : Type → Type) (ε : Type) : Type 1 where
  | start (i proc : Nat) (p : Script D W G L E ε Unit)
  | run (i n : Nat)
  | stop (i : Nat)

section Play

variable (B : Backend D W G M L) (H : Host D G S E)

/-- What a schedule leads to, and what is noted down on the way. -/
def play (obs : Observer D W G M S L E ω) : List (Move D W G L E ε) → Config D W G M S L E ε →
    Config D W G M S L E ε × List ω
  | [], c => (c, [])
  | .start i proc p :: rest, c =>
      play obs rest ⟨c.frame.put i (some ⟨proc, []⟩), Function.update c.prog i p⟩
  | .run i n :: rest, c =>
      let moved := turn B H obs i n (c.prog i) c.frame
      let later := play obs rest ⟨moved.2.1, Function.update c.prog i moved.1⟩
      (later.1, moved.2.2 ++ later.2)
  | .stop i :: rest, c => play obs rest ⟨c.frame.put i none, c.prog⟩

/-- Only the given threads move, none starts twice, and none runs while another has
    uncommitted writes. -/
def ready (obs : Observer D W G M S L E ω) (ids : List Nat) :
    List (Move D W G L E ε) → Config D W G M S L E ε → Bool
  | [], _ => true
  | .start i proc p :: rest, c =>
      ids.contains i && (c.frame.sessions i).isNone
        && ready obs ids rest ⟨c.frame.put i (some ⟨proc, []⟩), Function.update c.prog i p⟩
  | .run i n :: rest, c =>
      let moved := turn B H obs i n (c.prog i) c.frame
      ids.contains i
        && ids.all (fun j => j == i || (c.frame.sessions j).all (fun s => s.log.isEmpty))
        && ready obs ids rest ⟨moved.2.1, Function.update c.prog i moved.1⟩
  | .stop i :: rest, c => ids.contains i && ready obs ids rest ⟨c.frame.put i none, c.prog⟩

end Play

theorem Frame.exec_sessions_of_ne {B : Backend D W G M L} {f : Frame D W G M S}
    {s : Session G W} (cmd : Cmd D W G L E β) {j : Nat} (hj : j ≠ i) :
    (f.exec B H i s cmd).2.sessions j = f.sessions j := by
  cases cmd with
  | write w => exact f.put_of_ne hj _
  | insert w =>
      simp only [Frame.exec]
      split
      · rfl
      · exact f.put_of_ne hj _
  | commit => exact f.put_of_ne hj _
  | _ => rfl

theorem turn_sessions_of_ne {B : Backend D W G M L} (obs : Observer D W G M S L E ω) (n : Nat)
    (p : Script D W G L E ε α) (f : Frame D W G M S) {j : Nat} (hj : j ≠ i) :
    (turn B H obs i n p f).2.1.sessions j = f.sessions j := by
  induction n generalizing p f with
  | zero => rfl
  | succ n ih =>
      cases p with
      | done a => rfl
      | fail e => rfl
      | step cmd k =>
          rw [turn]
          cases f.sessions i with
          | none => rfl
          | some s => exact (ih _ _).trans (Frame.exec_sessions_of_ne cmd hj)

/-- A schedule opens a session of the given threads only. -/
theorem play_closed {B : Backend D W G M L} {obs : Observer D W G M S L E ω} {ids : List Nat}
    {moves : List (Move D W G L E ε)} {c : Config D W G M S L E ε}
    (hids : ∀ j, j ∉ ids → c.frame.sessions j = none)
    (hready : ready B H obs ids moves c = true) :
    ∀ j, j ∉ ids → (play B H obs moves c).1.frame.sessions j = none := by
  induction moves generalizing c with
  | nil => exact hids
  | cons move rest ih =>
      cases move with
      | start i proc p =>
          obtain ⟨hmine, hrest⟩ := Bool.and_eq_true_iff.mp hready
          refine ih ?_ hrest
          intro j hj
          have hji : j ≠ i := fun heq =>
            hj (heq ▸ List.contains_iff_mem.mp (Bool.and_eq_true_iff.mp hmine).1)
          exact (c.frame.put_of_ne hji _).trans (hids j hj)
      | run i n =>
          obtain ⟨hmine, hrest⟩ := Bool.and_eq_true_iff.mp hready
          refine ih ?_ hrest
          intro j hj
          have hji : j ≠ i := fun heq =>
            hj (heq ▸ List.contains_iff_mem.mp (Bool.and_eq_true_iff.mp hmine).1)
          exact (turn_sessions_of_ne obs n _ c.frame hji).trans (hids j hj)
      | stop i =>
          obtain ⟨hid, hrest⟩ := Bool.and_eq_true_iff.mp hready
          refine ih ?_ hrest
          intro j hj
          have hji : j ≠ i := fun heq => hj (heq ▸ List.contains_iff_mem.mp hid)
          exact (c.frame.put_of_ne hji _).trans (hids j hj)

/-- A schedule that stops its threads leaves no session open. -/
theorem play_idle {B : Backend D W G M L} {obs : Observer D W G M S L E ω} {ids : List Nat}
    {moves : List (Move D W G L E ε)} {c : Config D W G M S L E ε}
    (hids : ∀ j, j ∉ ids → c.frame.sessions j = none)
    (hready : ready B H obs ids moves c = true)
    (hstopped : ids.all (fun j => ((play B H obs moves c).1.frame.sessions j).isNone) = true) :
    ∀ j, (play B H obs moves c).1.frame.sessions j = none := by
  intro j
  by_cases hj : j ∈ ids
  · exact Option.isNone_iff_eq_none.mp (List.all_eq_true.mp hstopped j hj)
  · exact play_closed hids hready j hj

/-- The policy lets the threads start and stop. -/
def Permits (Y : System D W G M S L E ε) (H : Host D G S E) (obs : Observer D W G M S L E ω) :
    List (Move D W G L E ε) → Config D W G M S L E ε → Prop
  | [], _ => True
  | .start i proc p :: rest, c =>
      Y.starts c.frame i proc p
        ∧ Permits Y H obs rest ⟨c.frame.put i (some ⟨proc, []⟩), Function.update c.prog i p⟩
  | .run i n :: rest, c =>
      Permits Y H obs rest ⟨(turn Y.backend H obs i n (c.prog i) c.frame).2.1,
        Function.update c.prog i (turn Y.backend H obs i n (c.prog i) c.frame).1⟩
  | .stop i :: rest, c =>
      Y.closes c.frame i (c.prog i) ∧ Permits Y H obs rest ⟨c.frame.put i none, c.prog⟩

/-- Whoever runs is alone with its writes. -/
theorem ready_run {B : Backend D W G M L} {obs : Observer D W G M S L E ω} {ids : List Nat}
    {n : Nat} {rest : List (Move D W G L E ε)} {c : Config D W G M S L E ε}
    (hids : ∀ j, j ∉ ids → c.frame.sessions j = none)
    (hready : ready B H obs ids (.run i n :: rest) c = true) :
    ids.contains i = true ∧ c.frame.Alone i
      ∧ ready B H obs ids rest ⟨(turn B H obs i n (c.prog i) c.frame).2.1,
        Function.update c.prog i (turn B H obs i n (c.prog i) c.frame).1⟩ = true := by
  obtain ⟨hmine, hrest⟩ := Bool.and_eq_true_iff.mp hready
  obtain ⟨hid, hquiet⟩ := Bool.and_eq_true_iff.mp hmine
  refine ⟨hid, ?_, hrest⟩
  intro j s hj hs
  by_cases hjs : j ∈ ids
  · have hempty := List.all_eq_true.mp hquiet j hjs
    rw [hs, beq_eq_false_iff_ne.mpr hj, Bool.false_or] at hempty
    exact List.isEmpty_iff.mp hempty
  · cases hs.symm.trans (hids j hjs)

/-- The thread has a session and a command to execute. -/
def Config.stepping (c : Config D W G M S L E ε) (i : Nat) : Bool :=
  (c.frame.sessions i).isSome && (match c.prog i with | .step _ _ => true | _ => false)

/-- One command of a thread that is ready is one step. -/
theorem step_play (ids : List Nat)
    (hH : ∀ (β : Type) (e : E β) x, Y.answers β e x (H.answer e x).1 (H.answer e x).2)
    (hexecs : ∀ (β : Type) f i (cmd : Cmd D W G L E β) f', Y.execs β f i cmd f')
    {c : Config D W G M S L E ε} (hids : ∀ j, j ∉ ids → c.frame.sessions j = none)
    (hready : ready Y.backend H obs ids [.run i 1] c = true) (hstepping : c.stepping i = true) :
    Step Y c (play Y.backend H obs [.run i 1] c).1 := by
  obtain ⟨-, halone, -⟩ := ready_run hids hready
  obtain ⟨hopen, hprog⟩ := Bool.and_eq_true_iff.mp hstepping
  obtain ⟨s, hs⟩ := Option.isSome_iff_exists.mp hopen
  cases hp : c.prog i with
  | done a =>
      rw [hp] at hprog
      cases hprog
  | fail e =>
      rw [hp] at hprog
      cases hprog
  | step cmd k =>
      have heffect := effect_frame_exec (Y := Y) hH hs halone cmd
      simp only [play, hp, turn, hs]
      exact .exec c i cmd k _ _ hp heffect (hexecs _ _ _ _ _)

/-- Whether a script has come to its end. -/
def Script.isDone : Script D W G L E ε α → Bool
  | .done _ => true
  | _ => false

theorem Script.eq_done_of_isDone {p : Script D W G L E ε Unit} (h : p.isDone = true) :
    p = .done () := by
  cases p with
  | done u => rfl
  | fail e => cases h
  | step cmd k => cases h

/-- A schedule that is ready and permitted is a run. -/
theorem traced_play (ids : List Nat)
    (hH : ∀ (β : Type) (e : E β) x, Y.answers β e x (H.answer e x).1 (H.answer e x).2)
    (hexecs : ∀ (β : Type) f i (cmd : Cmd D W G L E β) f', Y.execs β f i cmd f')
    {moves : List (Move D W G L E ε)} {c : Config D W G M S L E ε}
    (hids : ∀ j, j ∉ ids → c.frame.sessions j = none)
    (hready : ready Y.backend H obs ids moves c = true) (hpermits : Permits Y H obs moves c) :
    Traced Y obs c (play Y.backend H obs moves c).2 (play Y.backend H obs moves c).1 := by
  induction moves generalizing c with
  | nil => exact .refl c
  | cons move rest ih =>
      cases move with
      | start i proc p =>
          obtain ⟨hmine, hrest⟩ := Bool.and_eq_true_iff.mp hready
          obtain ⟨hid, hclosed⟩ := Bool.and_eq_true_iff.mp hmine
          have hstep : TracedStep Y obs c [] _ :=
            .start c i proc p (Option.isNone_iff_eq_none.mp hclosed) hpermits.1
          refine (Traced.single hstep).trans (ih ?_ hrest hpermits.2)
          intro j hj
          have hji : j ≠ i := fun heq => hj (heq ▸ List.contains_iff_mem.mp hid)
          exact (c.frame.put_of_ne hji _).trans (hids j hj)
      | run i n =>
          obtain ⟨hid, halone, hrest⟩ := ready_run hids hready
          obtain ⟨htraced, hothers⟩ :=
            @traced_turn _ _ _ _ _ _ _ _ _ Y obs H i hH (fun β f cmd f' => hexecs β f i cmd f') n
              c halone _ rfl
          refine htraced.trans (ih ?_ hrest hpermits)
          intro j hj
          have hji : j ≠ i := fun heq => hj (heq ▸ List.contains_iff_mem.mp hid)
          exact (hothers j hji).trans (hids j hj)
      | stop i =>
          obtain ⟨hid, hrest⟩ := Bool.and_eq_true_iff.mp hready
          have hstep : TracedStep Y obs c [] _ := .close c i hpermits.1
          refine (Traced.single hstep).trans (ih ?_ hrest hpermits.2)
          intro j hj
          have hji : j ≠ i := fun heq => hj (heq ▸ List.contains_iff_mem.mp hid)
          exact (c.frame.put_of_ne hji _).trans (hids j hj)

end Transact
