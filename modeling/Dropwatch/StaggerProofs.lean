import Mathlib.Data.Finset.Max
import Mathlib.Data.Rat.Floor
import Mathlib.Order.Interval.Finset.Nat
import Dropwatch.Scheduler

/-! # The stagger of a tick — `_stagger_delay_seconds`

    The delays of a tick are the floors of the first multiples of `window / total`.
    Two of them that fall in one second are less than one second apart, so their
    indices are less than `total / window` apart (`index_lt_of_same_delay`), and a
    set of numbers so close together is small (`card_le_of_close`).  The messages of
    a tick have these delays and no others (`delays_enqueueDuePairs`). -/

namespace Dropwatch.Scheduler

open Transact RuleIndex

/-- Numbers less than `c` apart are at most `c`. -/
theorem card_le_of_close {c : Nat} {S : Finset Nat} (h : ∀ i ∈ S, ∀ j ∈ S, j < i + c) :
    S.card ≤ c := by
  rcases S.eq_empty_or_nonempty with rfl | hS
  · exact Nat.zero_le c
  · have hsub : S ⊆ Finset.Ico (S.min' hS) (S.min' hS + c) := by
      intro j hj
      rw [Finset.mem_Ico]
      constructor
      · exact S.min'_le j hj
      · exact h _ (S.min'_mem hS) j hj
    calc S.card ≤ (Finset.Ico (S.min' hS) (S.min' hS + c)).card := Finset.card_le_card hsub
      _ = c := by rw [Nat.card_Ico, Nat.add_sub_cancel_left]

section Delays

variable {index total : Nat} {window : Int}

/-- Within the longest delay of SQS no delay is cut. -/
theorem staggerDelaySeconds_eq (hw : 1 ≤ window) (hmax : window ≤ maxSqsDelaySeconds)
    (hi : index < total) : staggerDelaySeconds index total window = index * window / total := by
  rw [staggerDelaySeconds]
  split
  · next hone =>
      obtain rfl : index = 0 := by omega
      simp
  · have hnonneg : 0 ≤ (index : Int) * window := Int.mul_nonneg (by omega) (by omega)
    rw [Int.tdiv_eq_ediv_of_nonneg hnonneg]
    refine min_eq_left ?_
    have hlt : (index : Int) * window / total < window := by
      refine Int.ediv_lt_of_lt_mul (by omega) ?_
      rw [Int.mul_comm]
      exact Int.mul_lt_mul_of_pos_left (by omega) (by omega)
    omega

/-- The indices of one delay are close together. -/
theorem index_lt_of_same_delay (hw : 1 ≤ window) {i j : Nat} (ht : 1 ≤ total)
    (h : (i : Int) * window / total = j * window / total) :
    j < i + ⌈(total : ℚ) / window⌉₊ := by
  have hpos : (0 : Int) < total := by omega
  -- Both lie in the same interval of length `total`.
  have hlow := Int.ediv_mul_le (i * window) (ne_of_gt hpos)
  have hhigh := Int.lt_ediv_add_one_mul_self (j * window) hpos
  rw [← h] at hhigh
  have hclose : (j : Int) * window - i * window < total := by linarith
  have hdiff : (j : ℚ) - i < (total : ℚ) / window := by
    rw [lt_div_iff₀ (by exact_mod_cast hw), sub_mul]
    exact_mod_cast hclose
  have hceil : (j : ℚ) < i + ⌈(total : ℚ) / window⌉₊ := by
    have := Nat.le_ceil ((total : ℚ) / window)
    linarith
  exact_mod_cast hceil

end Delays

/-- The delays of a tick over `total` pairs: they start at 0, never decrease, stay
    below the window, and no second gets more than its share. -/
structure Staggered (total : Nat) (window : Int) : Prop where
  start : staggerDelaySeconds 0 total window = 0
  monotone : ∀ i j, i ≤ j → j < total →
    staggerDelaySeconds i total window ≤ staggerDelaySeconds j total window
  below : ∀ i < total, staggerDelaySeconds i total window < window
  share : ∀ second : Int, ((Finset.range total).filter
    (fun i => staggerDelaySeconds i total window = second)).card ≤ ⌈(total : ℚ) / window⌉₊

/-- The load of a tick is spread evenly. -/
theorem staggered {total : Nat} {window : Int} (ht : 1 ≤ total) (hw : 1 ≤ window)
    (hmax : window ≤ maxSqsDelaySeconds) : Staggered total window where
  start := by
    rw [staggerDelaySeconds_eq hw hmax (by omega)]
    simp
  monotone := by
    intro i j hij hj
    rw [staggerDelaySeconds_eq hw hmax (by omega), staggerDelaySeconds_eq hw hmax hj]
    refine Int.ediv_le_ediv (by omega) ?_
    exact Int.mul_le_mul_of_nonneg_right (by omega) (by omega)
  below := by
    intro i hi
    rw [staggerDelaySeconds_eq hw hmax hi]
    refine Int.ediv_lt_of_lt_mul (by omega) ?_
    rw [Int.mul_comm]
    exact Int.mul_lt_mul_of_pos_left (by omega) (by omega)
  share := by
    intro second
    refine card_le_of_close ?_
    intro i hi j hj
    obtain ⟨hit, hi⟩ := Finset.mem_filter.mp hi
    obtain ⟨hjt, hj⟩ := Finset.mem_filter.mp hj
    rw [staggerDelaySeconds_eq hw hmax (Finset.mem_range.mp hit)] at hi
    rw [staggerDelaySeconds_eq hw hmax (Finset.mem_range.mp hjt)] at hj
    exact index_lt_of_same_delay hw ht (hi.trans hj.symm)

/-- Seven pairs in three seconds. -/
theorem staggered_seven : Staggered 7 3 := staggered (by decide) (by decide) (by decide)

example : (List.range 7).map (fun i => staggerDelaySeconds i 7 3) = [0, 0, 0, 1, 1, 2, 2] := by
  decide

/-! ## The messages of a tick -/

/-- The delay of a message. -/
def delayOf (cmd : Σ β : Type, Cmd Database Write Generated MemOp ExtOp β) : Option Int :=
  match cmd with
  | ⟨_, .ask (.sendMessage _ _ delaySeconds)⟩ => some delaySeconds
  | _ => none

section Messages

variable {cmds : List (Σ β : Type, Cmd Database Write Generated MemOp ExtOp β)}

/-- One message for each pair, with the delay of its index. -/
theorem delays_sendAll {window : Int} {claimedAt : Instant} {total index : Nat} {pairs : List Pair}
    {r : Except PyError Unit}
    (h : Script.Path (sendAll window claimedAt total index pairs) cmds r) :
    r = .ok () ∧ cmds.filterMap delayOf
      = (List.range' index pairs.length).map fun i => staggerDelaySeconds i total window := by
  induction pairs generalizing index cmds with
  | nil =>
      cases h with
      | done => exact ⟨rfl, rfl⟩
  | cons pair rest ih =>
      cases h with
      | step _ _ _ hrest =>
          obtain ⟨hr, hdelays⟩ := ih hrest
          rw [List.length_cons, List.range'_succ, List.map_cons, ← hdelays]
          exact ⟨hr, rfl⟩

/-- The claims send nothing. -/
theorem delays_claimAll {claimedAt : Instant} {pairs : List Pair} {r : Except PyError Unit}
    (h : Script.Path (claimAll claimedAt pairs) cmds r) :
    r = .ok () ∧ cmds.filterMap delayOf = [] := by
  induction pairs generalizing cmds with
  | nil =>
      cases h with
      | done => exact ⟨rfl, rfl⟩
  | cons pair rest ih =>
      cases h with
      | step _ _ _ hrest =>
          obtain ⟨hr, hdelays⟩ := ih hrest
          exact ⟨hr, hdelays⟩

/-- A tick sends one message for each pair it counts, with the delays of their indices. -/
theorem delays_enqueueDuePairs {settings : Settings} {r : Except PyError Nat}
    (h : Script.Path (enqueueDuePairs settings) cmds r) :
    ∃ total : Nat, r = .ok total
      ∧ cmds.filterMap delayOf = (List.range total).map fun i =>
          staggerDelaySeconds i total settings.defaultPollIntervalSeconds := by
  rw [enqueueDuePairs] at h
  rcases h.bind_inv with ⟨e, hdue, -⟩ | ⟨due, before, after, hdue, hrest, rfl⟩
  · cases hdue with
    | step _ _ now hdue =>
        cases hdue with
        | step _ _ due hdue => cases hdue
  · have hquiet : before.filterMap delayOf = [] := by
      cases hdue with
      | step _ _ now hdue =>
          cases hdue with
          | step _ _ due hdue =>
              cases hdue with
              | done => rfl
    rw [List.filterMap_append, hquiet, List.nil_append]
    by_cases hnone : due.isEmpty = true
    · rw [if_pos hnone] at hrest
      cases hrest with
      | done => exact ⟨0, rfl, rfl⟩
    · rw [if_neg hnone] at hrest
      cases hrest with
      | step _ _ claimedAt hrest =>
          -- The messages, then the claims, then the commit.
          replace hrest : Script.Path
            (sendAll settings.defaultPollIntervalSeconds claimedAt due.length 0 due >>= _) _ r :=
              hrest
          rcases hrest.bind_inv with ⟨e, hsend, -⟩ | ⟨_, sends, _, hsend, hclaims, rfl⟩
          · cases (delays_sendAll hsend).1
          · rcases hclaims.bind_inv with ⟨e, hclaim, -⟩ | ⟨_, claims, _, hclaim, hcommit, rfl⟩
            · cases (delays_claimAll hclaim).1
            · cases hcommit with
              | step _ _ _ hdone =>
                  cases hdone with
                  | done =>
                      refine ⟨due.length, rfl, ?_⟩
                      rw [List.range_eq_range', ← (delays_sendAll hsend).2]
                      show (sends ++ (claims ++ _)).filterMap delayOf = _
                      rw [List.filterMap_append, List.filterMap_append, (delays_claimAll hclaim).2]
                      exact List.append_nil _

end Messages

end Dropwatch.Scheduler
