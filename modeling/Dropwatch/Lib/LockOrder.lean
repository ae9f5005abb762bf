import Mathlib.Order.GameAdd
import Dropwatch.Lib.Asyncio

/-! # Locks in order — no deadlock among cooperative tasks

    Where every task takes its locks in the order of a rank and gives them back in the
    reverse order, whatever the outcome of what it does under them, no set of tasks can
    block each other.  From every reachable configuration on, if nothing more is started
    and no wait is interrupted, all tasks come to their end, whoever moves next and
    however the requests are answered, and then no lock is held (`Tidy.inevitably_over`).

    The argument is in two parts.  A task is a tree and every step goes down one branch of
    it, so the tasks cannot advance forever (`acc_oneNext`).  And they can always advance:
    who holds the highest lock that is held asks for none that is taken
    (`Tidy.not_blocked`). -/

namespace Asyncio

variable {M L T Q A ε α β : Type}

/-- The operations on locks. -/
def Op.locks : Op M L T Q A ε β → Bool
  | .acquire _ => true
  | .release _ => true
  | _ => false

/-- What an operation needs of the locks that its task holds, those taken last first: a lock
    is above them all, and the last one is given back. -/
def Op.Allowed (rank : L → Nat) (held : List L) : Op M L T Q A ε β → Prop
  | .acquire l => ∀ l' ∈ held, rank l' < rank l
  | .release l => held.head? = some l
  | _ => True

/-- The locks that a task holds after an operation. -/
def Op.leaves (held : List L) (op : Op M L T Q A ε β) (b : β) : List L :=
  match op, b with
  | .acquire l, .ok _ => l :: held
  | .release _, _ => held.tail
  | _, _ => held

/-- The lock that an operation asks for. -/
def Op.asksFor : Op M L T Q A ε β → Option L
  | .acquire l => some l
  | _ => none

theorem Op.awaits_of_asksFor {op : Op M L T Q A ε β} {l : L} (h : op.asksFor = some l) :
    op.awaits = true := by
  cases op with
  | acquire l' => rfl
  | clock => cases h
  | touch m => cases h
  | release l' => cases h
  | emit q => cases h
  | wake deadline => cases h
  | receive q => cases h

theorem Op.Allowed.above {rank : L → Nat} {held : List L} {op : Op M L T Q A ε β} {l : L}
    (h : op.Allowed rank held) (hl : op.asksFor = some l) : ∀ l' ∈ held, rank l' < rank l := by
  cases op with
  | acquire l' =>
      rw [← Option.some.inj hl]
      exact h
  | clock => cases hl
  | touch m => cases hl
  | release l' => cases hl
  | emit q => cases hl
  | wake deadline => cases hl
  | receive q => cases hl

/-- The locks are taken upwards and given back in reverse, and the task ends with those
    of `End`. -/
def Task.Nested (rank : L → Nat) (End : Except ε α → List L → Prop) :
    List L → Task M L T Q A ε α → Prop
  | held, .done a => End (.ok a) held
  | held, .fail e => End (.error e) held
  | held, .step op k => op.Allowed rank held ∧ ∀ b, (k b).Nested rank End (op.leaves held b)

section Rules

variable {rank : L → Nat} {End End' : Except ε α → List L → Prop} {held : List L}

theorem Task.Nested.mono {p : Task M L T Q A ε α} (h : p.Nested rank End held)
    (hmono : ∀ r held, End r held → End' r held) : p.Nested rank End' held := by
  induction p generalizing held with
  | done a => exact hmono _ _ h
  | fail e => exact hmono _ _ h
  | step op k ih => exact ⟨h.1, fun b => ih b (h.2 b)⟩

theorem Task.Nested.bind {End'' : Except ε β → List L → Prop} {p : Task M L T Q A ε α}
    {k : α → Task M L T Q A ε β} (hp : p.Nested rank End held)
    (hk : ∀ a held, End (.ok a) held → (k a).Nested rank End'' held)
    (hfail : ∀ e held, End (.error e) held → End'' (.error e) held) :
    (p >>= k).Nested rank End'' held := by
  induction p generalizing held with
  | done a => exact hk a held hp
  | fail e => exact hfail e held hp
  | step op k' ih => exact ⟨hp.1, fun b => ih b (hp.2 b)⟩

theorem Task.Nested.attempt {p : Task M L T Q A ε α} (h : p.Nested rank End held) :
    p.attempt.Nested rank (fun r held => ∃ r', r = .ok r' ∧ End r' held) held := by
  induction p generalizing held with
  | done a => exact ⟨_, rfl, h⟩
  | fail e => exact ⟨_, rfl, h⟩
  | step op k ih => exact ⟨h.1, fun b => ih b (h.2 b)⟩

theorem Task.Nested.lift {x : Except ε α} (h : End x held) :
    (Task.lift x : Task M L T Q A ε α).Nested rank End held := by
  cases x with
  | ok a => exact h
  | error e => exact h

/-- Ends with the locks it began with. -/
def Task.Balanced (rank : L → Nat) (held : List L) (p : Task M L T Q A ε α) : Prop :=
  p.Nested rank (fun _ held' => held' = held) held

theorem Task.Balanced.done {a : α} : (.done a : Task M L T Q A ε α).Balanced rank held := rfl

theorem Task.Balanced.lift {x : Except ε α} :
    (Task.lift x : Task M L T Q A ε α).Balanced rank held := Task.Nested.lift rfl

theorem Task.Balanced.step {op : Op M L T Q A ε β} {k : β → Task M L T Q A ε α}
    (hop : op.locks = false) (hk : ∀ b, (k b).Balanced rank held) :
    (Task.step op k).Balanced rank held := by
  cases op with
  | acquire l => cases hop
  | release l => cases hop
  | clock => exact ⟨trivial, hk⟩
  | touch m => exact ⟨trivial, hk⟩
  | emit q => exact ⟨trivial, hk⟩
  | wake deadline => exact ⟨trivial, hk⟩
  | receive q => exact ⟨trivial, hk⟩

theorem Task.Balanced.call {op : Op M L T Q A ε α} (hop : op.locks = false) :
    (Task.call op).Balanced rank held :=
  Task.Balanced.step hop (fun _ => Task.Balanced.done)

theorem Task.Balanced.await {op : Op M L T Q A ε (Except ε α)} (hop : op.locks = false) :
    (Task.await op).Balanced rank held :=
  Task.Balanced.step hop (fun _ => Task.Balanced.lift)

theorem Task.Balanced.bind {p : Task M L T Q A ε α} {k : α → Task M L T Q A ε β}
    (hp : p.Balanced rank held) (hk : ∀ a, (k a).Balanced rank held) :
    (p >>= k).Balanced rank held :=
  Task.Nested.bind hp (fun a _ h => h ▸ hk a) (fun _ _ h => h)

theorem Task.Balanced.attempt {p : Task M L T Q A ε α} (hp : p.Balanced rank held) :
    p.attempt.Balanced rank held := by
  refine Task.Nested.mono (Task.Nested.attempt hp) ?_
  rintro r held' ⟨r', -, h⟩
  exact h

/-- A locked block: the lock is above those that are held. -/
theorem Task.Balanced.withLock {l : L} {body : Task M L T Q A ε α}
    (hrank : ∀ l' ∈ held, rank l' < rank l) (hbody : body.Balanced rank (l :: held)) :
    (Task.withLock l body).Balanced rank held := by
  have hrest : (body.attempt >>= fun r => Task.call (.release l) >>= fun _ =>
      (Task.lift r : Task M L T Q A ε α)).Nested rank (fun _ held' => held' = held)
      (l :: held) := by
    refine Task.Nested.bind (Task.Nested.attempt hbody) ?_ ?_
    · rintro r held' ⟨r', -, rfl⟩
      exact ⟨rfl, fun _ => Task.Nested.lift rfl⟩
    · rintro e held' ⟨r', hr, -⟩
      cases hr
  refine ⟨hrank, ?_⟩
  intro b
  cases b with
  | ok u => exact hrest
  | error e => exact rfl

end Rules

/-! ## Getting on -/

/-- One step of a task. -/
def Task.Next (p' p : Task M L T Q A ε α) : Prop :=
  ∃ (β : Type) (op : Op M L T Q A ε β) (k : β → Task M L T Q A ε α) (b : β),
    p = .step op k ∧ p' = k b

/-- One step of one of some tasks. -/
def OneNext (ts' ts : List (Task M L T Q A ε α)) : Prop :=
  ∃ i p p', ts[i]? = some p ∧ Task.Next p' p ∧ ts' = ts.set i p'

/-- A task has an end. -/
theorem Task.acc_next (p : Task M L T Q A ε α) : Acc Task.Next p := by
  induction p with
  | done a =>
      refine ⟨_, ?_⟩
      rintro p' ⟨β, op, k, b, h, -⟩
      cases h
  | fail e =>
      refine ⟨_, ?_⟩
      rintro p' ⟨β, op, k, b, h, -⟩
      cases h
  | step op k ih =>
      refine ⟨_, ?_⟩
      rintro p' ⟨β, op', k', b, h, rfl⟩
      cases h
      exact ih b

/-- So do some tasks that take their steps in any order. -/
theorem acc_oneNext (ts : List (Task M L T Q A ε α)) : Acc OneNext ts := by
  induction ts with
  | nil =>
      refine ⟨_, ?_⟩
      rintro ts' ⟨i, p, p', hi, -⟩
      cases hi
  | cons p rest ih =>
      have hcons : ∀ e : Task M L T Q A ε α × List (Task M L T Q A ε α),
          Acc (Prod.GameAdd Task.Next OneNext) e → Acc OneNext (e.1 :: e.2) := by
        intro e he
        induction he with
        | intro e _ ih =>
            obtain ⟨q, qs⟩ := e
            refine ⟨_, ?_⟩
            rintro ts' ⟨i, r, r', hi, hnext, rfl⟩
            cases i with
            | zero =>
                obtain rfl := Option.some.inj hi
                exact ih (r', qs) (.fst hnext)
            | succ i => exact ih (q, qs.set i r') (.snd ⟨i, r, r', hi, hnext, rfl⟩)
      exact hcons (p, rest) ((Task.acc_next p).prod_gameAdd ih)

section Progress

variable [Preorder T] [Add T] [DecidableEq L]

/-- The loop from here on: nothing more is started, and no wait is interrupted. -/
def Loop.calm (Y : Loop M L T Q A ε) : Loop M L T Q A ε :=
  { Y with interrupts := fun _ => False, spawns := fun _ => False }

/-- A run in which one task has taken one step: time may have passed, and another task may have
    been let run. -/
def Advances (Y : Loop M L T Q A ε) (c c' : Config M L T Q A ε) : Prop :=
  Reaches Y c c' ∧ OneNext c'.tasks c.tasks

/-- Whoever runs and whatever is answered: until `Goal` holds the tasks can advance, and
    however they do, they do not advance forever. -/
inductive Inevitably (Y : Loop M L T Q A ε) (Goal : Config M L T Q A ε → Prop) :
    Config M L T Q A ε → Prop where
  | now {c : Config M L T Q A ε} (h : Goal c) : Inevitably Y Goal c
  | later {c : Config M L T Q A ε} (hgo : ∃ c', Advances Y c c')
      (hall : ∀ c', Advances Y c c' → Inevitably Y Goal c') : Inevitably Y Goal c

end Progress

/-- All tasks have ended and no lock is held. -/
structure Config.Over (c : Config M L T Q A ε) : Prop where
  ended : ∀ p ∈ c.tasks, p.ended = true
  free : ∀ l, c.frame.owner l = none

/-! ## Who holds what -/

/-- Every task is in order with the locks that it holds. -/
structure Tidy (rank : L → Nat) (c : Config M L T Q A ε) (held : Nat → List L) : Prop where
  nested : ∀ i (p : Task M L T Q A ε Unit), c.tasks[i]? = some p →
    p.Nested rank (fun _ h => h = []) (held i)
  owner : ∀ l i, c.frame.owner l = some i ↔ l ∈ held i
  sorted : ∀ i, (held i).Pairwise (fun l l' => rank l' < rank l)
  unborn : ∀ i, c.tasks.length ≤ i → held i = []

/-- Nothing has been started and no lock is held. -/
theorem Tidy.initial {rank : L → Nat} {f : Frame M L T Q A ε} (hfree : ∀ l, f.owner l = none) :
    Tidy rank ⟨f, none, []⟩ (fun _ => []) where
  nested := fun _ _ h => by cases h
  owner := fun l i => by simp [hfree]
  sorted := fun _ => List.Pairwise.nil
  unborn := fun _ _ => rfl

section Tidy

variable {rank : L → Nat} {c : Config M L T Q A ε} {held : Nat → List L} {i : Nat}

/-- A task that is over holds nothing. -/
theorem Tidy.held_of_ended (h : Tidy rank c held) {p : Task M L T Q A ε Unit}
    (hi : c.tasks[i]? = some p) (hp : p.ended = true) : held i = [] := by
  have hend := h.nested i p hi
  cases p with
  | done a => exact hend
  | fail e => exact hend
  | step op k => cases hp

theorem Tidy.over (h : Tidy rank c held) (hended : ∀ p ∈ c.tasks, p.ended = true) : c.Over where
  ended := hended
  free := by
    intro l
    cases hown : c.frame.owner l with
    | none => rfl
    | some i =>
        have hmem := (h.owner l i).mp hown
        have hnil : held i = [] := by
          rcases Nat.lt_or_ge i c.tasks.length with hlt | hge
          · exact h.held_of_ended (List.getElem?_eq_getElem hlt)
              (hended _ (List.getElem_mem hlt))
          · exact h.unborn i hge
        rw [hnil] at hmem
        exact absurd hmem List.not_mem_nil

/-- If every task asks for a lock that is taken there are no tasks: who holds the highest lock
    that is held asks for a higher one. -/
theorem Tidy.not_blocked (h : Tidy rank c held) {N : Nat} (hbound : ∀ l, rank l < N)
    (hblocked : ∀ (i : Nat) (β : Type) (op : Op M L T Q A ε β) (k : β → Task M L T Q A ε Unit),
      c.tasks[i]? = some (.step op k) → ∃ l, op.asksFor = some l ∧ c.frame.owner l ≠ none) :
    ∀ l, c.frame.owner l = none := by
  have hbelow : ∀ n l i, N ≤ rank l + n → c.frame.owner l ≠ some i := by
    intro n
    induction n with
    | zero => exact fun l i hn => absurd (hbound l) (Nat.not_lt.mpr hn)
    | succ n ih =>
        intro l i hn hown
        have hmem := (h.owner l i).mp hown
        have hlt : i < c.tasks.length := by
          by_contra hge
          rw [h.unborn i (Nat.le_of_not_lt hge)] at hmem
          exact absurd hmem List.not_mem_nil
        have hi : c.tasks[i]? = some c.tasks[i] := List.getElem?_eq_getElem hlt
        cases hp : c.tasks[i] with
        | step op k =>
            rw [hp] at hi
            obtain ⟨l', hasks, htaken⟩ := hblocked i _ op k hi
            obtain ⟨j, hown'⟩ := Option.ne_none_iff_exists'.mp htaken
            have habove := (h.nested i _ hi).1.above hasks l hmem
            exact ih l' j (by omega) hown'
        | done a =>
            rw [h.held_of_ended hi (by rw [hp]; rfl)] at hmem
            exact absurd hmem List.not_mem_nil
        | fail e =>
            rw [h.held_of_ended hi (by rw [hp]; rfl)] at hmem
            exact absurd hmem List.not_mem_nil
  intro l
  cases hown : c.frame.owner l with
  | none => rfl
  | some i => exact absurd hown (hbelow N l i (Nat.le_add_left _ _))

end Tidy

section Holding

variable [Preorder T] [Add T] [DecidableEq L]

variable {Y : Loop M L T Q A ε} {rank : L → Nat} {c c' : Config M L T Q A ε}
  {held : Nat → List L} {i : Nat}

/-- What an operation does to the owners. -/
theorem Effect.owner {f f' : Frame M L T Q A ε} {op : Op M L T Q A ε β} {b : β}
    (he : Effect Y i f β op b f') {held : List L} (hown : ∀ l, f.owner l = some i ↔ l ∈ held)
    (hsorted : held.Pairwise (fun l l' => rank l' < rank l)) (hallowed : op.Allowed rank held) :
    (∀ l, f'.owner l = some i ↔ l ∈ op.leaves held b)
      ∧ (∀ l j, j ≠ i → (f'.owner l = some j ↔ f.owner l = some j))
      ∧ (op.leaves held b).Pairwise (fun l l' => rank l' < rank l) := by
  have hsame : ∀ {g : Frame M L T Q A ε}, g.owner = f.owner →
      (∀ l, g.owner l = some i ↔ l ∈ held)
        ∧ (∀ l j, j ≠ i → (g.owner l = some j ↔ f.owner l = some j))
        ∧ held.Pairwise (fun l l' => rank l' < rank l) := by
    intro g hg
    rw [hg]
    exact ⟨hown, fun _ _ _ => Iff.rfl, hsorted⟩
  cases op with
  | clock =>
      obtain ⟨-, rfl⟩ := he
      exact hsame rfl
  | touch m =>
      obtain ⟨-, rfl⟩ := he
      exact hsame rfl
  | emit q =>
      obtain rfl := he
      exact hsame rfl
  | receive q =>
      obtain ⟨-, rfl⟩ := he
      exact hsame rfl
  | wake deadline =>
      cases b with
      | ok u =>
          obtain ⟨-, rfl⟩ := he
          exact hsame rfl
      | error e =>
          obtain ⟨-, rfl⟩ := he
          exact hsame rfl
  | acquire l =>
      cases b with
      | error e =>
          obtain ⟨-, rfl⟩ := he
          exact hsame rfl
      | ok u =>
          obtain ⟨hfree, rfl⟩ := he
          -- The new lock ranks above those held, so it goes in front of them.
          refine ⟨?_, ?_, List.pairwise_cons.mpr ⟨hallowed, hsorted⟩⟩
          · intro l'
            by_cases hl : l' = l
            · rw [hl]
              exact iff_of_true (f.setOwner_self l _) List.mem_cons_self
            · rw [f.setOwner_of_ne hl, hown]
              exact (List.mem_cons.trans (or_iff_right hl)).symm
          · intro l' j hj
            by_cases hl : l' = l
            · rw [hl, f.setOwner_self, hfree]
              exact iff_of_false (fun h => hj (Option.some.inj h).symm) (by simp)
            · rw [f.setOwner_of_ne hl]
  | release l =>
      obtain rfl := he
      -- What is given back is the lock in front; the ones behind it rank below, so none of them
      -- is the same.
      obtain ⟨rest, rfl⟩ : ∃ rest, held = l :: rest := by
        cases held with
        | nil => cases hallowed
        | cons l' rest => exact ⟨rest, by rw [Option.some.inj hallowed]⟩
      obtain ⟨hbelow, hrest⟩ := List.pairwise_cons.mp hsorted
      refine ⟨?_, ?_, hrest⟩
      · intro l'
        show _ ↔ l' ∈ rest
        by_cases hl : l' = l
        · rw [hl, f.setOwner_self]
          exact iff_of_false (by simp) (fun hmem => lt_irrefl _ (hbelow l hmem))
        · rw [f.setOwner_of_ne hl, hown]
          exact List.mem_cons.trans (or_iff_right hl)
      · intro l' j hj
        by_cases hl : l' = l
        · rw [hl, f.setOwner_self, (hown l).mpr List.mem_cons_self]
          exact iff_of_false (by simp) (fun h => hj (Option.some.inj h).symm)
        · rw [f.setOwner_of_ne hl]

/-- A step leaves its task in order with the locks it then holds. -/
theorem Tidy.exec (h : Tidy rank c held) {op : Op M L T Q A ε β}
    {k : β → Task M L T Q A ε Unit} {b : β} {f : Frame M L T Q A ε}
    (hi : c.tasks[i]? = some (.step op k)) (he : Effect Y i c.frame β op b f) :
    Tidy rank ⟨f, some i, c.tasks.set i (k b)⟩
      (Function.update held i (op.leaves (held i) b)) := by
  have hlt : i < c.tasks.length := (List.getElem?_eq_some_iff.mp hi).1
  obtain ⟨hallowed, hrest⟩ := h.nested i _ hi
  obtain ⟨hown, hothers, hsorted⟩ :=
    he.owner (fun l => h.owner l i) (h.sorted i) hallowed
  refine { nested := ?_, owner := ?_, sorted := ?_, unborn := ?_ }
  · intro j p hj
    by_cases hji : j = i
    · rw [hji] at hj ⊢
      rw [List.getElem?_set_self hlt] at hj
      rw [Function.update_self, ← Option.some.inj hj]
      exact hrest b
    · rw [List.getElem?_set_ne (Ne.symm hji)] at hj
      rw [Function.update_of_ne hji]
      exact h.nested j p hj
  · intro l j
    by_cases hji : j = i
    · rw [hji, Function.update_self]
      exact hown l
    · rw [Function.update_of_ne hji]
      exact (hothers l j hji).trans (h.owner l j)
  · intro j
    by_cases hji : j = i
    · rw [hji, Function.update_self]
      exact hsorted
    · rw [Function.update_of_ne hji]
      exact h.sorted j
  · intro j hj
    rw [List.length_set] at hj
    rw [Function.update_of_ne (by omega)]
    exact h.unborn j hj

theorem Tidy.step (h : Tidy rank c held)
    (hspawns : ∀ p, Y.spawns p → p.Balanced rank []) (hs : Step Y c c') :
    ∃ held', Tidy rank c' held' := by
  cases hs with
  | tick t ht => exact ⟨held, h.nested, h.owner, h.sorted, h.unborn⟩
  | park i p hrun hi hp => exact ⟨held, h.nested, h.owner, h.sorted, h.unborn⟩
  | exec i op k b f hi hrun he => exact ⟨_, h.exec hi he⟩
  | spawn p hp =>
      refine ⟨held, ?_, h.owner, h.sorted, ?_⟩
      · intro i q hi
        rcases Nat.lt_or_ge i c.tasks.length with hlt | hge
        · rw [List.getElem?_append_left hlt] at hi
          exact h.nested i q hi
        · rw [List.getElem?_append_right hge] at hi
          obtain rfl := List.mem_singleton.mp (List.mem_of_getElem? hi)
          rw [h.unborn i hge]
          exact hspawns q hp
      · intro i hi
        rw [List.length_append] at hi
        exact h.unborn i (le_trans (Nat.le_add_right _ _) hi)

theorem Tidy.of_reaches (h : Tidy rank c held)
    (hspawns : ∀ p, Y.spawns p → p.Balanced rank []) (hr : Reaches Y c c') :
    ∃ held', Tidy rank c' held' := by
  induction hr with
  | refl => exact ⟨held, h⟩
  | tail _ hs ih =>
      obtain ⟨held', h'⟩ := ih
      exact h'.step hspawns hs

/-- Only a task that is there runs. -/
theorem known_of_reaches (h : ∀ i, c.running = some i → i < c.tasks.length)
    (hr : Reaches Y c c') : ∀ i, c'.running = some i → i < c'.tasks.length := by
  induction hr with
  | refl => exact h
  | tail _ hs ih =>
      intro i hi
      cases hs with
      | tick t ht => exact ih i hi
      | spawn p hp =>
          rw [List.length_append]
          exact Nat.lt_add_right _ (ih i hi)
      | exec j op k b f hj hrun he =>
          rw [List.length_set, ← Option.some.inj hi]
          exact (List.getElem?_eq_some_iff.mp hj).1
      | park j p hrun hj hp => cases hi

/-! ## No task is stuck -/

/-- Every wait can end: a timer fires when the clock gets there, a request is answered. -/
structure Responsive (Y : Loop M L T Q A ε) : Prop where
  timers : ∀ now deadline : T, ∃ t, now ≤ t ∧ deadline ≤ t + Y.resolution
  answers : ∀ q, ∃ r, Y.answers q r

/-- An operation can be carried out, after some time, unless it asks for a lock that is
    taken. -/
theorem Responsive.effect (hY : Responsive Y) (i : Nat) (f : Frame M L T Q A ε)
    (op : Op M L T Q A ε β) (hfree : ∀ l, op.asksFor = some l → f.owner l = none) :
    ∃ t b f', f.clock ≤ t ∧ Effect Y i (f.setClock t) β op b f' := by
  cases op with
  | clock => exact ⟨f.clock, _, _, le_rfl, rfl, rfl⟩
  | touch m => exact ⟨f.clock, _, _, le_rfl, rfl, rfl⟩
  | release l => exact ⟨f.clock, (), _, le_rfl, rfl⟩
  | emit q => exact ⟨f.clock, (), _, le_rfl, rfl⟩
  | acquire l => exact ⟨f.clock, .ok (), _, le_rfl, hfree l rfl, rfl⟩
  | wake deadline =>
      obtain ⟨t, ht, hdeadline⟩ := hY.timers f.clock deadline
      exact ⟨t, .ok (), _, ht, hdeadline, rfl⟩
  | receive q =>
      obtain ⟨r, hr⟩ := hY.answers q
      exact ⟨f.clock, r, _, le_rfl, hr, rfl⟩

/-- With a task that may take its step the tasks advance. -/
theorem Responsive.advances (hY : Responsive Y) {op : Op M L T Q A ε β}
    {k : β → Task M L T Q A ε Unit} (hi : c.tasks[i]? = some (.step op k))
    (hrun : c.running = none ∨ c.running = some i)
    (hfree : ∀ l, op.asksFor = some l → c.frame.owner l = none) : ∃ c', Advances Y c c' := by
  obtain ⟨t, b, f', ht, he⟩ := hY.effect i c.frame op hfree
  have hsteps : Reaches Y c ⟨f', some i, c.tasks.set i (k b)⟩ :=
    (Relation.ReflTransGen.single (Step.tick c t ht)).tail
      (Step.exec { c with frame := c.frame.setClock t } i op k b f' hi hrun he)
  exact ⟨_, hsteps, i, _, _, hi, ⟨_, op, k, b, rfl, rfl⟩, rfl⟩

/-- As long as a task is not over, the tasks can advance. -/
theorem Tidy.advances (hY : Responsive Y) {N : Nat} (hbound : ∀ l, rank l < N)
    (h : Tidy rank c held) (hknown : ∀ i, c.running = some i → i < c.tasks.length)
    (hlive : ∃ p ∈ c.tasks, p.ended = false) : ∃ c', Advances Y c c' := by
  by_cases hrests : ∀ i p, c.running = some i → c.tasks[i]? = some p → p.rests = true
  · -- Whoever runs lets the others run.
    have hidle : Reaches Y c { c with running := none } := by
      cases hrun : c.running with
      | none => rw [← hrun]
      | some i =>
          have hi := List.getElem?_eq_getElem (hknown i hrun)
          exact .single (.park c i _ hrun hi (hrests i _ hrun hi))
    have hfrom : (∃ c', Advances Y { c with running := none } c') → ∃ c', Advances Y c c' := by
      rintro ⟨c', hreach, hnext⟩
      exact ⟨c', hidle.trans hreach, hnext⟩
    refine hfrom ?_
    by_contra hstuck
    have htaken : ∀ (i : Nat) (β : Type) (op : Op M L T Q A ε β)
        (k : β → Task M L T Q A ε Unit), c.tasks[i]? = some (.step op k) →
          ∃ l, op.asksFor = some l ∧ c.frame.owner l ≠ none := by
      intro i β op k hi
      by_contra hfree
      refine hstuck (hY.advances (c := { c with running := none }) hi (Or.inl rfl) ?_)
      intro l hl
      by_contra hown
      exact hfree ⟨l, hl, hown⟩
    obtain ⟨p, hp, hended⟩ := hlive
    obtain ⟨i, hi⟩ := List.mem_iff_getElem?.mp hp
    cases p with
    | step op k =>
        obtain ⟨l, -, hown⟩ := htaken i _ op k hi
        exact hown (h.not_blocked hbound htaken l)
    | done a => cases hended
    | fail e => cases hended
  · push Not at hrests
    obtain ⟨i, p, hrun, hi, hp⟩ := hrests
    cases p with
    | step op k =>
        refine hY.advances hi (Or.inr hrun) ?_
        intro l hl
        exact absurd (Op.awaits_of_asksFor hl) hp
    | done a => exact absurd rfl hp
    | fail e => exact absurd rfl hp

/-- No deadlock: in a loop that starts nothing more, all tasks come to their end, and then no
    lock is held. -/
theorem Tidy.inevitably_over (hY : Responsive Y) (hspawns : ∀ p, ¬ Y.spawns p) {N : Nat}
    (hbound : ∀ l, rank l < N) (h : Tidy rank c held)
    (hknown : ∀ i, c.running = some i → i < c.tasks.length) : Inevitably Y Config.Over c := by
  -- Every advance takes the tasks one step on, and each of them has an end.
  generalize htasks : c.tasks = ts
  induction acc_oneNext ts generalizing c held with
  | intro ts _ ih =>
      by_cases hended : ∀ p ∈ c.tasks, p.ended = true
      · exact .now (h.over hended)
      · push Not at hended
        obtain ⟨p, hp, hlive⟩ := hended
        refine .later (h.advances hY hbound hknown ⟨p, hp, Bool.eq_false_iff.mpr hlive⟩) ?_
        rintro c' ⟨hreach, hnext⟩
        obtain ⟨held', h'⟩ := h.of_reaches (fun p hp => absurd hp (hspawns p)) hreach
        exact ih c'.tasks (htasks ▸ hnext) h' (known_of_reaches hknown hreach) rfl

end Holding

/-! ## One task at a time -/

/-- Task `i` holds these locks, and nobody else holds any. -/
structure Alone (rank : L → Nat) (i : Nat) (held : List L) (f : Frame M L T Q A ε) : Prop where
  sorted : held.Pairwise (fun l l' => rank l' < rank l)
  mine : ∀ l, f.owner l = some i ↔ l ∈ held
  only : ∀ l j, j ≠ i → f.owner l ≠ some j

theorem Alone.free {rank : L → Nat} {i : Nat} {held : List L} {f : Frame M L T Q A ε}
    (h : Alone rank i held f) {l : L} (hl : l ∉ held) : f.owner l = none := by
  cases hown : f.owner l with
  | none => rfl
  | some j =>
      by_cases hji : j = i
      · rw [hji] at hown
        exact absurd ((h.mine l).mp hown) hl
      · exact absurd hown (h.only l j hji)

section Solo

variable [LinearOrder T] [Add T] [DecidableEq L]

/-- What a task does that nobody interrupts: its timers fire on time, and its requests are
    answered by `reply`. -/
def Task.solo (reply : Q → Except ε A) (i : Nat) :
    Task M L T Q A ε α → Frame M L T Q A ε → Frame M L T Q A ε
  | .step .clock k, f => (k f.clock).solo reply i f
  | .step (.touch m) k, f => (k (m f.mem).1).solo reply i (f.setMem (m f.mem).2)
  | .step (.release l) k, f => (k ()).solo reply i (f.setOwner l none)
  | .step (.emit q) k, f => (k ()).solo reply i (f.note (.sent i f.clock q))
  | .step (.acquire l) k, f => (k (.ok ())).solo reply i (f.setOwner l (some i))
  | .step (.wake deadline) k, f => (k (.ok ())).solo reply i (f.setClock (max f.clock deadline))
  | .step (.receive q) k, f =>
      (k (reply q)).solo reply i (f.note (.received i f.clock q (reply q)))
  | .done _, f => f
  | .fail _, f => f

variable {Y : Loop M L T Q A ε} {rank : L → Nat} {reply : Q → Except ε A} {i : Nat}
  {held : List L} {c : Config M L T Q A ε}

/-- A task that is over and holds nothing. -/
theorem Alone.park (h : Alone rank i [] c.frame) {p : Task M L T Q A ε Unit}
    (hi : c.tasks[i]? = some p) (hrun : c.running = none ∨ c.running = some i)
    (hover : p.ended = true) :
    ∃ p', p'.ended = true ∧ (∀ l, c.frame.owner l = none)
      ∧ Reaches Y c ⟨c.frame, none, c.tasks.set i p'⟩ := by
  refine ⟨p, hover, fun l => h.free List.not_mem_nil, ?_⟩
  obtain ⟨hlt, rfl⟩ := List.getElem?_eq_some_iff.mp hi
  rw [List.set_getElem_self hlt]
  rcases hrun with hnone | hsome
  · rw [← hnone]
  · exact .single (.park c i _ hsome hi (Task.rests_of_ended hover))

/-- The rest of a task that is the only one to hold locks. -/
theorem Alone.reaches_solo (hreply : ∀ q, Y.answers q (reply q))
    (htimer : ∀ t : T, t ≤ t + Y.resolution) {p : Task M L T Q A ε Unit}
    (h : Alone rank i held c.frame) (hp : p.Nested rank (fun _ h => h = []) held)
    (hi : c.tasks[i]? = some p) (hrun : c.running = none ∨ c.running = some i) :
    ∃ p', p'.ended = true ∧ (∀ l, (p.solo reply i c.frame).owner l = none)
      ∧ Reaches Y c ⟨p.solo reply i c.frame, none, c.tasks.set i p'⟩ := by
  induction p generalizing c held with
  | done a =>
      obtain rfl : held = [] := hp
      exact h.park hi hrun rfl
  | fail e =>
      obtain rfl : held = [] := hp
      exact h.park hi hrun rfl
  | step op k ih =>
      have hlt : i < c.tasks.length := (List.getElem?_eq_some_iff.mp hi).1
      -- After some time one step, and the task is alone as before.
      have hnext : ∀ (t : T) b f', c.frame.clock ≤ t → Effect Y i (c.frame.setClock t) _ op b f' →
          ∃ p', p'.ended = true ∧ (∀ l, ((k b).solo reply i f').owner l = none)
            ∧ Reaches Y c ⟨(k b).solo reply i f', none, c.tasks.set i p'⟩ := by
        intro t b f' ht he
        obtain ⟨hmine, hothers, hsorted⟩ := he.owner h.mine h.sorted hp.1
        obtain ⟨p', hover, hfree, hreach⟩ :=
          @ih b _ ⟨f', some i, c.tasks.set i (k b)⟩
            ⟨hsorted, hmine, fun l j hj hown => h.only l j hj ((hothers l j hj).mp hown)⟩
            (hp.2 b) (List.getElem?_set_self hlt) (Or.inr rfl)
        have hstep : Reaches Y c ⟨f', some i, c.tasks.set i (k b)⟩ :=
          (Relation.ReflTransGen.single (Step.tick c t ht)).tail
            (Step.exec { c with frame := c.frame.setClock t } i op k b f' hi hrun he)
        have hset : (c.tasks.set i (k b)).set i p' = c.tasks.set i p' := List.set_set ..
        refine ⟨p', hover, hfree, hstep.trans ?_⟩
        rw [← hset]
        exact hreach
      cases op with
      | clock => exact hnext c.frame.clock _ _ le_rfl ⟨rfl, rfl⟩
      | touch m => exact hnext c.frame.clock _ _ le_rfl ⟨rfl, rfl⟩
      | release l => exact hnext c.frame.clock () _ le_rfl rfl
      | emit q => exact hnext c.frame.clock () _ le_rfl rfl
      | receive q => exact hnext c.frame.clock (reply q) _ le_rfl ⟨hreply q, rfl⟩
      | wake deadline =>
          exact hnext (max c.frame.clock deadline) (.ok ()) _ (le_max_left _ _)
            ⟨(le_max_right _ _).trans (htimer _), rfl⟩
      | acquire l =>
          have hfree : c.frame.owner l = none :=
            h.free (fun hmem => lt_irrefl _ (hp.1 l hmem))
          exact hnext c.frame.clock (.ok ()) _ le_rfl ⟨hfree, rfl⟩

/-- A task that is started while no lock is held can run to its end. -/
theorem reaches_solo (hreply : ∀ q, Y.answers q (reply q))
    (htimer : ∀ t : T, t ≤ t + Y.resolution) (hfree : ∀ l, c.frame.owner l = none)
    (hrun : c.running = none) {p : Task M L T Q A ε Unit} (hspawn : Y.spawns p)
    (hp : p.Balanced rank []) :
    ∃ p', (∀ l, (p.solo reply c.tasks.length c.frame).owner l = none)
      ∧ Reaches Y c ⟨p.solo reply c.tasks.length c.frame, none, c.tasks ++ [p']⟩ := by
  have halone : Alone rank c.tasks.length [] c.frame :=
    ⟨List.Pairwise.nil, fun l => by simp [hfree], fun l j _ => by simp [hfree]⟩
  obtain ⟨p', -, hfree', hreach⟩ :=
    @Alone.reaches_solo _ _ _ _ _ _ _ _ _ Y rank reply _ _ { c with tasks := c.tasks ++ [p] }
      hreply htimer p halone hp (List.getElem?_concat_length) (Or.inl hrun)
  refine ⟨p', hfree', Relation.ReflTransGen.head (Step.spawn c p hspawn) ?_⟩
  have hset : (c.tasks ++ [p]).set c.tasks.length p' = c.tasks ++ [p'] := by
    rw [List.set_append_right _ _ le_rfl, Nat.sub_self]
    rfl
  rw [← hset]
  exact hreach

end Solo

end Asyncio
