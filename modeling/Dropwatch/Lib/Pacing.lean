import Mathlib.Algebra.Order.Group.Nat
import Mathlib.Algebra.Order.Ring.Rat
import Mathlib.Tactic.Linarith
import Mathlib.Tactic.Ring

/-! # Pacing — a stamp before every departure

    A sender writes down a time and departs some time after that; the next one writes
    its time down only then, and not before the last stamp is `d` old.  Departures need
    not be `d` apart, since one may be late and the next on time; but every stretch of
    them is as long as its stamps in between allow (`Paced.spaced`). -/

namespace Pacing

/-- Departures in order, with the last stamp. -/
inductive Paced (d : ℚ) : List ℚ → ℚ → Prop where
  | start (last : ℚ) : Paced d [] last
  | depart {times : List ℚ} {last stamp t : ℚ} (h : Paced d times last)
      (hstamp : times ≠ [] → last + d ≤ stamp) (hafter : ∀ t' ∈ times, t' ≤ stamp)
      (ht : stamp ≤ t) : Paced d (times ++ [t]) stamp

/-- A stamp has been written down, and its departure is still to come. -/
def Stamped (d : ℚ) (times : List ℚ) (stamp : ℚ) : Prop :=
  ∀ t, stamp ≤ t → Paced d (times ++ [t]) stamp

variable {d last stamp t t' : ℚ} {times : List ℚ} {i k : Nat}

theorem Paced.stamped (h : Paced d times last) (hstamp : last + d ≤ stamp)
    (hafter : ∀ t' ∈ times, t' ≤ stamp) : Stamped d times stamp :=
  fun _ ht => h.depart (fun _ => hstamp) hafter ht

/-- A stamp comes after the departures before it. -/
theorem Stamped.before (h : Stamped d times stamp) : ∀ t ∈ times, t ≤ stamp := by
  have hall := h stamp le_rfl
  generalize hlist : times ++ [stamp] = all at hall
  cases hall with
  | start => exact absurd hlist (List.concat_ne_nil _ _)
  | depart hpaced hstamp hafter ht =>
      rw [(List.append_inj_left' hlist rfl)]
      exact hafter

/-- Between an earlier departure and the last stamp there are the stamps after that
    departure. -/
theorem Paced.before_last (h : Paced d times last) (hi : times[i]? = some t)
    (hlen : times.length = i + k + 2) : t + k * d ≤ last := by
  induction h generalizing k with
  | start last => cases hi
  | @depart times last stamp t₁ h hstamp hafter ht ih =>
      rw [List.length_append, List.length_singleton] at hlen
      have hlt : i < times.length := by omega
      rw [List.getElem?_append_left hlt] at hi
      cases k with
      | zero =>
          rw [Nat.cast_zero, zero_mul, add_zero]
          exact hafter t (List.mem_of_getElem? hi)
      | succ k =>
          have hne : times ≠ [] := List.ne_nil_of_mem (List.mem_of_getElem? hi)
          have hlast := ih hi (k := k) (by omega)
          have hnext := hstamp hne
          push_cast
          linarith

/-- Any `k + 2` departures in a row span `k` intervals. -/
theorem Paced.spaced (h : Paced d times last) (hi : times[i]? = some t)
    (hj : times[i + k + 1]? = some t') : t + k * d ≤ t' := by
  induction h with
  | start last => cases hi
  | @depart times last stamp t₁ h hstamp hafter ht ih =>
      have hj' := (List.getElem?_eq_some_iff.mp hj).1
      rw [List.length_append, List.length_singleton] at hj'
      have hlt : i < times.length := by omega
      rw [List.getElem?_append_left hlt] at hi
      by_cases hold : i + k + 1 < times.length
      · rw [List.getElem?_append_left hold] at hj
        exact ih hi hj
      · -- The later departure is the last one.
        have hlen : times.length = i + k + 1 := by omega
        rw [← hlen, List.getElem?_concat_length] at hj
        obtain rfl := Option.some.inj hj
        have hi' : (times ++ [t₁])[i]? = some t := by
          rw [List.getElem?_append_left hlt]
          exact hi
        have hlast := (h.depart hstamp hafter ht).before_last hi' (k := k) (by
          rw [List.length_append, List.length_singleton, hlen])
        exact le_trans hlast ht

end Pacing
