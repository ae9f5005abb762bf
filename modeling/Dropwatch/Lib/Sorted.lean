import Mathlib.Data.List.Sort

/-! # Sorted lists — scans and lookups

    Facts about lists sorted by a key.  An early-exit scan, in an order along
    which a predicate can only be lost, finds every element that satisfies it.
    Where keys are distinct, a lookup in the sorted list depends only on which
    elements there are, not on the order they came in.  Insertion sort is
    stable, so sorting and filtering commute whatever the keys are. -/

namespace Transact

/-- Where a predicate can only be lost along the order of a list, the scan that
    stops at the first miss finds every element that satisfies it. -/
theorem takeWhile_eq_filter {α : Type} {p : α → Bool} {r : α → α → Prop}
    {l : List α} (hl : l.Pairwise r)
    (hlost : ∀ a ∈ l, ∀ b ∈ l, r a b → p b = true → p a = true) :
    l.takeWhile p = l.filter p := by
  induction l with
  | nil => rfl
  | cons a rest ih =>
      obtain ⟨hhead, hrest⟩ := List.pairwise_cons.mp hl
      have ih' := ih hrest (fun x hx y hy =>
        hlost x (List.mem_cons_of_mem _ hx) y (List.mem_cons_of_mem _ hy))
      cases ha : p a with
      | true => rw [List.takeWhile_cons_of_pos ha, List.filter_cons_of_pos ha, ih']
      | false =>
          rw [List.takeWhile_cons_of_neg (by simp [ha]),
            List.filter_cons_of_neg (by simp [ha])]
          symm
          rw [List.filter_eq_nil_iff]
          intro b hb hpb
          have hpa := hlost a List.mem_cons_self b (List.mem_cons_of_mem _ hb)
            (hhead b hb) hpb
          exact absurd hpa (by simp [ha])

/-- Sorting by a key that is totally preordered. -/
theorem pairwise_insertionSort_key {α κ : Type} [LinearOrder κ] (key : α → κ)
    (l : List α) :
    (l.insertionSort (fun a b => key a ≤ key b)).Pairwise
      (fun a b => key a ≤ key b) := by
  have : Std.Total (fun a b : α => key a ≤ key b) :=
    ⟨fun a b => le_total (key a) (key b)⟩
  have : IsTrans α (fun a b : α => key a ≤ key b) :=
    ⟨fun a b c => le_trans⟩
  exact List.pairwise_insertionSort _ l

/-- Two orderings by a key agree where the keys are distinct. -/
theorem eq_of_perm_of_pairwise_key {α κ : Type} [PartialOrder κ] (key : α → κ)
    {l₁ l₂ : List α} (hd : (l₁.map key).Nodup) (hp : l₁.Perm l₂)
    (h₁ : l₁.Pairwise (fun a b => key b ≤ key a))
    (h₂ : l₂.Pairwise (fun a b => key b ≤ key a)) : l₁ = l₂ := by
  refine hp.eq_of_pairwise ?_ h₁ h₂
  intro a b ha hb hab hba
  exact List.inj_on_of_nodup_map hd ha (hp.mem_iff.mpr hb) (le_antisymm hba hab)

/-- An element that stands once in a list is among the first `n` if less than `n`
    stand before it. -/
theorem mem_take_split {α : Type} {a : α} {before after : List α} {n : Nat}
    (h : a ∉ before) : a ∈ (before ++ a :: after).take n ↔ before.length < n := by
  rw [List.take_append, List.mem_append]
  constructor
  · rintro (hin | hin)
    · exact absurd (List.mem_of_mem_take hin) h
    · by_contra hle
      rw [Nat.sub_eq_zero_of_le (Nat.le_of_not_lt hle), List.take_zero] at hin
      exact List.not_mem_nil hin
  · intro hlt
    right
    obtain ⟨m, hm⟩ := Nat.exists_eq_succ_of_ne_zero (Nat.sub_ne_zero_of_lt hlt)
    rw [hm, List.take_succ_cons]
    exact List.mem_cons_self

/-- What a sorted list has behind its first `n` has `n` ahead of it. -/
theorem ahead_of_not_mem_take {α : Type} {r : α → α → Prop} {l : List α} (hl : l.Pairwise r)
    {a : α} {n : Nat} (ha : a ∈ l) (hnot : a ∉ l.take n) :
    (l.take n).length = n ∧ ∀ b ∈ l.take n, r b a := by
  have hdrop : a ∈ l.drop n := by
    rw [← List.take_append_drop n l] at ha
    exact (List.mem_append.mp ha).resolve_left hnot
  have hlt : n < l.length := by
    by_contra hle
    rw [List.drop_eq_nil_of_le (Nat.le_of_not_lt hle)] at hdrop
    exact List.not_mem_nil hdrop
  rw [← List.take_append_drop n l, List.pairwise_append] at hl
  exact ⟨List.length_take_of_le (Nat.le_of_lt hlt), fun b hb => hl.2.2 b hb a hdrop⟩

section Stable

variable {α : Type} {r : α → α → Prop} [DecidableRel r] [IsTrans α r]

/-- An element is inserted before everything it is related to, so what a filter
    drops from a sorted list does not change the place of the others. -/
theorem filter_orderedInsert (p : α → Bool) (a : α) {l : List α} (hl : l.Pairwise r) :
    (l.orderedInsert r a).filter p
      = if p a then (l.filter p).orderedInsert r a else l.filter p := by
  induction l with
  | nil => simp [List.filter_cons]
  | cons b rest ih =>
      obtain ⟨hb, hrest⟩ := List.pairwise_cons.mp hl
      by_cases hab : r a b
      · have hall : ∀ x ∈ (b :: rest).filter p, r a x := by
          intro x hx
          rcases List.mem_cons.mp (List.mem_of_mem_filter hx) with rfl | hx
          · exact hab
          · exact IsTrans.trans a b x hab (hb x hx)
        rw [List.orderedInsert_cons_of_le r rest hab, List.filter_cons]
        -- The filtered list still begins with something `a` is related to.
        have hfront : ((b :: rest).filter p).orderedInsert r a
            = a :: (b :: rest).filter p := by
          cases hf : (b :: rest).filter p with
          | nil => rfl
          | cons c cs =>
              exact List.orderedInsert_cons_of_le r cs
                (hall c (by rw [hf]; exact List.mem_cons_self))
        rw [hfront]
      · rw [List.orderedInsert_of_not_le r rest hab, List.filter_cons, ih hrest]
        by_cases hpa : p a = true
        · by_cases hpb : p b = true
          · rw [if_pos hpb, if_pos hpa, if_pos hpa, List.filter_cons_of_pos hpb,
              List.orderedInsert_of_not_le r _ hab]
          · rw [if_neg hpb, if_pos hpa, if_pos hpa, List.filter_cons_of_neg hpb]
        · rw [if_neg hpa, if_neg hpa, List.filter_cons]

/-- Sorting keeps the order of related elements, so it commutes with a filter. -/
theorem filter_insertionSort [Std.Total r] (p : α → Bool) (l : List α) :
    (l.insertionSort r).filter p = (l.filter p).insertionSort r := by
  induction l with
  | nil => rfl
  | cons a rest ih =>
      rw [List.insertionSort_cons,
        filter_orderedInsert p a (List.pairwise_insertionSort r rest), ih]
      by_cases hpa : p a = true
      · rw [if_pos hpa, List.filter_cons_of_pos hpa, List.insertionSort_cons]
      · rw [if_neg hpa, List.filter_cons_of_neg hpa]

/-- Inserting an element into a sorted list moves another one back by a place if
    the new element is related to it, and leaves its place otherwise. -/
theorem orderedInsert_split (x a : α) (before after : List α)
    (hs : (before ++ a :: after).Pairwise r) :
    ∃ before' after', (before ++ a :: after).orderedInsert r x = before' ++ a :: after'
      ∧ before'.length = before.length + if r x a then 1 else 0 := by
  induction before with
  | nil =>
      by_cases hxa : r x a
      · exact ⟨[x], after, List.orderedInsert_cons_of_le r after hxa, by simp [hxa]⟩
      · exact ⟨[], after.orderedInsert r x, List.orderedInsert_of_not_le r after hxa, by simp [hxa]⟩
  | cons b rest ih =>
      obtain ⟨hb, hrest⟩ := List.pairwise_cons.mp hs
      by_cases hxb : r x b
      · -- Everything behind `b` is behind the new element too.
        have hxa : r x a := IsTrans.trans x b a hxb (hb a (by simp))
        refine ⟨x :: b :: rest, after, List.orderedInsert_cons_of_le r _ hxb, ?_⟩
        simp [hxa]
      · obtain ⟨before', after', heq, hlen⟩ := ih hrest
        refine ⟨b :: before', after', ?_, ?_⟩
        · rw [List.cons_append, List.orderedInsert_of_not_le r _ hxb, heq, List.cons_append]
        · rw [List.length_cons, List.length_cons, hlen]
          omega

/-- The place of an element in the sorted list: what stands before it is what it
    is not related to, and what is related to it and came first. -/
theorem insertionSort_split [Std.Total r] (a : α) (above below : List α) :
    ∃ before after, (above ++ a :: below).insertionSort r = before ++ a :: after
      ∧ before.length
        = above.countP (fun x => decide (r x a)) + below.countP (fun x => !decide (r a x)) := by
  induction above with
  | nil =>
      have hscan := takeWhile_eq_filter (p := fun x => !decide (r a x))
        (List.pairwise_insertionSort r below) (fun x _ y _ hxy hy => by
          rw [Bool.not_eq_true', decide_eq_false_iff_not] at hy ⊢
          exact fun hax => hy (IsTrans.trans a x y hax hxy))
      refine ⟨_, _, List.orderedInsert_eq_take_drop r a (below.insertionSort r), ?_⟩
      rw [List.countP_nil, Nat.zero_add, ← List.Perm.countP_eq _ (List.perm_insertionSort r below),
        List.countP_eq_length_filter, ← hscan]
      simp
  | cons x rest ih =>
      obtain ⟨before, after, heq, hlen⟩ := ih
      have hsorted := List.pairwise_insertionSort r (rest ++ a :: below)
      rw [heq] at hsorted
      obtain ⟨before', after', heq', hlen'⟩ := orderedInsert_split x a before after hsorted
      refine ⟨before', after', ?_, ?_⟩
      · rw [List.cons_append, List.insertionSort_cons, heq, heq']
      · rw [hlen', hlen, List.countP_cons]
        simp only [decide_eq_true_eq]
        omega

end Stable

end Transact
