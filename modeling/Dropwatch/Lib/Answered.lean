import Mathlib.Data.List.Basic

/-! # What has followed

    Of a run, noted down as a list, a property may say that every note of a kind has been
    answered by now, or that the state still owes the answer.  `Since P` is the form of
    such invariants: what stands after a note satisfies `P`.  A step appends its own
    notes and changes what is owed, and has to be checked for both (`Since.append`). -/

namespace Answered

variable {ω : Type}

/-- What follows any note satisfies `P`. -/
def Since (P : ω → List ω → Prop) (zs : List ω) : Prop :=
  ∀ q x r, zs = q ++ x :: r → P x r

theorem Since.nil (P : ω → List ω → Prop) : Since P [] := by
  intro q x r h
  simp at h

theorem Since.of_length_le_one {P : ω → List ω → Prop} {ys : List ω} (hlen : ys.length ≤ 1)
    (h : ∀ y ∈ ys, P y []) : Since P ys := by
  rintro q x r rfl
  rw [List.length_append, List.length_cons] at hlen
  have hr : r = [] := by
    refine List.length_eq_zero_iff.mp ?_
    omega
  subst hr
  exact h x (List.mem_append_right q List.mem_cons_self)

/-- The old notes as the step leaves them, and the notes of the step. -/
theorem Since.append {P P' : ω → List ω → Prop} {zs ys : List ω} (h : Since P zs)
    (hold : ∀ x r, P x r → P' x (r ++ ys)) (hnew : Since P' ys) : Since P' (zs ++ ys) := by
  intro q x r heq
  rcases List.append_eq_append_iff.mp heq with ⟨a, -, hys⟩ | ⟨a, hzs, hxr⟩
  · exact hnew a x r hys
  · cases a with
    | nil => exact hnew [] x r hxr.symm
    | cons y a =>
        obtain ⟨rfl, rfl⟩ := List.cons.inj hxr
        exact hold x a (h q x a hzs)

/-- The last note of a kind. -/
theorem exists_last {P : ω → Prop} {zs : List ω} (h : ∃ x ∈ zs, P x) :
    ∃ q x r, zs = q ++ x :: r ∧ P x ∧ ∀ y ∈ r, ¬ P y := by
  induction zs with
  | nil =>
      obtain ⟨x, hx, -⟩ := h
      exact absurd hx List.not_mem_nil
  | cons a rest ih =>
      by_cases hrest : ∃ x ∈ rest, P x
      · obtain ⟨q, x, r, rfl, hx, hr⟩ := ih hrest
        exact ⟨a :: q, x, r, rfl, hx, hr⟩
      · obtain ⟨x, hx, hP⟩ := h
        rcases List.mem_cons.mp hx with rfl | hx
        · exact ⟨[], x, rest, rfl, hP, fun y hy hPy => hrest ⟨y, hy, hPy⟩⟩
        · exact absurd ⟨x, hx, hP⟩ hrest

end Answered
