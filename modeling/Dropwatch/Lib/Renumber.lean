import Mathlib.Logic.Equiv.Basic
import Mathlib.Algebra.Group.End
import Mathlib.Data.List.Perm.Basic

/-! # Numbers handed out in order

    A table gives every new row the next number.  Rows that come in another order get
    other numbers, and nothing else differs: a permutation of the numbers, which
    leaves the earlier ones alone, takes the one table to the other. -/

namespace Transact

variable {α β : Type}

theorem map_zipIdx_fixed {σ : Equiv.Perm Nat} {k : Nat} (h : ∀ n, k ≤ n → σ n = n)
    (xs : List α) : (xs.zipIdx k).map (fun e => (e.1, σ e.2)) = xs.zipIdx k := by
  conv_rhs => rw [← List.map_id (xs.zipIdx k)]
  refine List.map_congr_left ?_
  rintro ⟨x, n⟩ hx
  show (x, σ n) = (x, n)
  rw [h n (List.le_snd_of_mem_zipIdx hx)]

/-- The renumbering of a permuted list. -/
theorem exists_renumber {xs ys : List α} (h : xs.Perm ys) (k : Nat) :
    ∃ σ : Equiv.Perm Nat, (∀ n, n < k → σ n = n)
      ∧ ((xs.zipIdx k).map (fun e => (e.1, σ e.2))).Perm (ys.zipIdx k) := by
  induction h generalizing k with
  | nil => exact ⟨1, fun _ _ => rfl, List.Perm.refl _⟩
  | cons x _ ih =>
      obtain ⟨σ, hfixed, hperm⟩ := ih (k + 1)
      refine ⟨σ, fun n hn => hfixed n (Nat.lt_succ_of_lt hn), ?_⟩
      rw [List.zipIdx_cons, List.zipIdx_cons, List.map_cons]
      show ((x, σ k) :: _).Perm _
      rw [hfixed k (Nat.lt_succ_self k)]
      exact hperm.cons (x, k)
  | swap x y l =>
      refine ⟨Equiv.swap k (k + 1), ?_, ?_⟩
      · intro n hn
        exact Equiv.swap_apply_of_ne_of_ne (Nat.ne_of_lt hn) (Nat.ne_of_lt (Nat.lt_succ_of_lt hn))
      · have hrest : ∀ n, k + 1 + 1 ≤ n → Equiv.swap k (k + 1) n = n := by
          intro n hn
          exact Equiv.swap_apply_of_ne_of_ne (by omega) (by omega)
        simp only [List.zipIdx_cons, List.map_cons, map_zipIdx_fixed hrest,
          Equiv.swap_apply_left, Equiv.swap_apply_right]
        exact List.Perm.swap _ _ _
  | trans _ _ ih₁ ih₂ =>
      obtain ⟨σ₁, hfixed₁, hperm₁⟩ := ih₁ k
      obtain ⟨σ₂, hfixed₂, hperm₂⟩ := ih₂ k
      refine ⟨σ₂ * σ₁, ?_, ?_⟩
      · intro n hn
        rw [Equiv.Perm.mul_apply, hfixed₁ n hn, hfixed₂ n hn]
      · have hmap := hperm₁.map (fun e => (e.1, σ₂ e.2))
        rw [List.map_map] at hmap
        exact hmap.trans hperm₂

end Transact
