import Mathlib.Data.List.Induction
import Mathlib.Logic.Function.Basic

/-! # Readers that publish — when a published snapshot goes back

    Threads read a changing store and publish, each into a slot, what they made of
    their last read; commits change the store in between.  Nothing orders a read
    and the publication that follows it: where a commit came after the read of a
    thread, and another thread reads and publishes first, the slot is given a snapshot
    older than the one it has.

    The books of a run count the commits before each read and before the read that each
    slot was last published from; `NeverOlder` compares the two at every publication. -/

namespace Transact

variable {α β : Type}

/-- What is noted down of a run: a read with what it returned, a publication, and a
    commit of the store. -/
inductive Event (α β : Type) where
  | read (thread : Nat) (a : α)
  | publish (thread slot : Nat) (b : β)
  | commit
  deriving DecidableEq

/-- The number of commits, by thread the last read with the commits before it, and by
    slot the commits before the read it was published from. -/
structure Books (α : Type) where
  now : Nat := 0
  seen : Nat → Option (Nat × α) := fun _ => none
  shown : Nat → Option Nat := fun _ => none

def Books.note (k : Books α) : Event α β → Books α
  | .read i a => { k with seen := Function.update k.seen i (some (k.now, a)) }
  | .publish i slot _ =>
      { k with shown := Function.update k.shown slot ((k.seen i).map Prod.fst) }
  | .commit => { k with now := k.now + 1 }

theorem Books.seen_read (k : Books α) (i j : Nat) (a : α) :
    (k.note (.read i a : Event α β)).seen j = if j = i then some (k.now, a) else k.seen j :=
  Function.update_apply ..

theorem Books.shown_publish (k : Books α) (i slot s : Nat) (b : β) :
    (k.note (.publish i slot b)).shown s
      = if s = slot then (k.seen i).map Prod.fst else k.shown s :=
  Function.update_apply ..

/-- The books after a run. -/
def books (xs : List (Event α β)) : Books α := xs.foldl Books.note {}

theorem books_concat (xs : List (Event α β)) (x : Event α β) :
    books (xs ++ [x]) = (books xs).note x := by
  rw [books, List.foldl_append]
  rfl

/-- No publication gives a slot an older snapshot than the one it has. -/
def NeverOlder (xs : List (Event α β)) : Prop :=
  ∀ pre i slot b suf, xs = pre ++ .publish i slot b :: suf →
    ∀ m, (books pre).shown slot = some m → ∃ n a, (books pre).seen i = some (n, a) ∧ m ≤ n

/-- What is published is made of the last read of the thread. -/
def Published (R : α → β → Prop) (xs : List (Event α β)) : Prop :=
  ∀ pre i slot b suf, xs = pre ++ .publish i slot b :: suf →
    ∃ n a, (books pre).seen i = some (n, a) ∧ R a b

section Books

variable {xs : List (Event α β)} {i : Nat}

/-- A read is not of the future. -/
theorem seen_le_now {n : Nat} {a : α} (h : (books xs).seen i = some (n, a)) :
    n ≤ (books xs).now := by
  induction xs using List.reverseRecOn with
  | nil => cases h
  | append_singleton xs y ih =>
      rw [books_concat] at h ⊢
      cases y with
      | read j a' =>
          rw [Books.seen_read] at h
          by_cases hj : i = j
          · rw [if_pos hj] at h
            exact Nat.le_of_eq (Prod.mk.inj (Option.some.inj h)).1.symm
          · rw [if_neg hj] at h
            exact ih h
      | publish j s b => exact ih h
      | commit => exact Nat.le_succ_of_le (ih h)

end Books

theorem NeverOlder.concat {xs : List (Event α β)} (h : NeverOlder xs) {y : Event α β}
    (hy : ∀ i slot b, y = .publish i slot b → ∀ m, (books xs).shown slot = some m →
      ∃ n a, (books xs).seen i = some (n, a) ∧ m ≤ n) : NeverOlder (xs ++ [y]) := by
  intro pre i slot b suf heq
  rcases List.eq_nil_or_concat suf with rfl | ⟨suf', z, rfl⟩
  · obtain ⟨rfl, hlast⟩ := List.append_inj' heq rfl
    exact hy i slot b (List.cons.inj hlast).1
  · rw [List.concat_eq_append, ← List.cons_append, ← List.append_assoc] at heq
    exact h pre i slot b suf' (List.append_inj' heq rfl).1

theorem Published.concat {R : α → β → Prop} {xs : List (Event α β)} (h : Published R xs)
    {y : Event α β} (hy : ∀ i slot b, y = .publish i slot b →
      ∃ n a, (books xs).seen i = some (n, a) ∧ R a b) : Published R (xs ++ [y]) := by
  intro pre i slot b suf heq
  rcases List.eq_nil_or_concat suf with rfl | ⟨suf', z, rfl⟩
  · obtain ⟨rfl, hlast⟩ := List.append_inj' heq rfl
    exact hy i slot b (List.cons.inj hlast).1
  · rw [List.concat_eq_append, ← List.cons_append, ← List.append_assoc] at heq
    exact h pre i slot b suf' (List.append_inj' heq rfl).1

end Transact
