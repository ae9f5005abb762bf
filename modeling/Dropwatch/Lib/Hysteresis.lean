import Mathlib.Order.Lattice
import Mathlib.Data.List.Induction

/-! # Hysteresis — a switch with two thresholds

    A reading at or above the high threshold switches on, one below the low
    threshold switches off, and one in between changes nothing.  After any
    readings the switch stands where the last reading outside the band put it
    (`foldl_latch`).

    `observe` is the same switch for something that may not be there yet: it
    comes into being, switched on, with the first reading that reaches the high
    threshold.  A missing reading changes nothing. -/

namespace Transact

section Hysteresis

variable {α : Type} [LinearOrder α] (low high : α)

/-- The readings that decide: outside the band `[low, high)`. -/
def decisive (n : α) : Bool := !(decide (low ≤ n) && decide (n < high))

/-- The switch after a reading. -/
def latch (on : Bool) (n : α) : Bool :=
  if high ≤ n then true else if n < low then false else on

variable {low high}

theorem latch_of_decisive {n : α} (h : decisive low high n = true)
    (on : Bool) : latch low high on n = decide (high ≤ n) := by
  by_cases hhigh : high ≤ n
  · rw [latch, if_pos hhigh, decide_eq_true hhigh]
  · have hbelow : n < low := by
      by_contra hle
      simp [decisive, not_lt.mp hle, not_le.mp hhigh] at h
    rw [latch, if_neg hhigh, if_pos hbelow, decide_eq_false hhigh]

theorem latch_of_not_decisive {n : α} (h : decisive low high n = false) (on : Bool) :
    latch low high on n = on := by
  obtain ⟨hle, hlt⟩ : low ≤ n ∧ n < high := by simpa [decisive] using h
  rw [latch, if_neg (not_le.mpr hlt), if_neg (not_lt.mpr hle)]

/-- A reading that is repeated changes nothing more. -/
theorem latch_latch (on : Bool) (n : α) : latch low high (latch low high on n) n = latch low high on n := by
  cases h : decisive low high n with
  | true => rw [latch_of_decisive h, latch_of_decisive h]
  | false => rw [latch_of_not_decisive h]

/-- The switch after a run of readings is decided by the last one outside the band. -/
theorem foldl_latch (on : Bool) (ns : List α) :
    ns.foldl (latch low high) on
      = (((ns.filter (decisive low high)).getLast?).map (fun n => decide (high ≤ n))).getD on := by
  induction ns using List.reverseRecOn with
  | nil => rfl
  | append_singleton ns n ih =>
      rw [List.foldl_append, List.foldl_cons, List.foldl_nil, List.filter_append]
      cases h : decisive low high n with
      | true =>
          rw [latch_of_decisive h, List.filter_cons_of_pos h, List.filter_nil,
            List.getLast?_concat]
          rfl
      | false =>
          rw [latch_of_not_decisive h, ih, List.filter_cons_of_neg (by simp [h]), List.filter_nil,
            List.append_nil]

variable (low high) in
/-- The switch of something that may not be there, after a reading that may be
    missing. -/
def observe (state : Option Bool) (reading : Option α) : Option Bool :=
  match reading, state with
  | none, _ => state
  | some n, some on => some (latch low high on n)
  | some n, none => if high ≤ n then some true else none

/-- What is there stays there, and its missing readings do not count. -/
theorem foldl_observe_some (on : Bool) (readings : List (Option α)) :
    readings.foldl (observe low high) (some on)
      = some ((readings.filterMap id).foldl (latch low high) on) := by
  induction readings generalizing on with
  | nil => rfl
  | cons r rest ih =>
      cases r with
      | none => exact ih on
      | some n => exact ih (latch low high on n)

/-- What is not there stays away as long as no reading reaches the high threshold. -/
theorem foldl_observe_none {readings : List (Option α)}
    (h : ∀ n, some n ∈ readings → ¬ high ≤ n) :
    readings.foldl (observe low high) none = none := by
  induction readings with
  | nil => rfl
  | cons r rest ih =>
      have hrest := ih (fun n hn => h n (List.mem_cons_of_mem _ hn))
      cases r with
      | none => exact hrest
      | some n =>
          rw [List.foldl_cons, observe, if_neg (h n List.mem_cons_self)]
          exact hrest

end Hysteresis

end Transact
