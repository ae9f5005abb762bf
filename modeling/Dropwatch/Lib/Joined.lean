import Mathlib.Data.List.Induction

/-! # Texts joined by a separator

    Fields that have no separator in them can be read off a joined text from
    either end.  So one field of a record may hold anything: the fields before
    it are read from the front, those after it from the back, and it is what
    remains (`intercalate_frame_inj`). -/

namespace Transact

variable {α : Type} {x : α}

/-- A text up to its first separator. -/
theorem append_sep_inj {a a' r r' : List α} (ha : x ∉ a) (ha' : x ∉ a')
    (h : a ++ x :: r = a' ++ x :: r') : a = a' ∧ r = r' := by
  induction a generalizing a' with
  | nil =>
      cases a' with
      | nil => exact ⟨rfl, (List.cons.inj h).2⟩
      | cons c rest => exact absurd ((List.cons.inj h).1 ▸ List.mem_cons_self) ha'
  | cons c rest ih =>
      cases a' with
      | nil => exact absurd ((List.cons.inj h).1 ▸ List.mem_cons_self) ha
      | cons c' rest' =>
          obtain ⟨rfl, htail⟩ := List.cons.inj h
          obtain ⟨rfl, hr⟩ := ih (fun hm => ha (List.mem_cons_of_mem _ hm))
            (fun hm => ha' (List.mem_cons_of_mem _ hm)) htail
          exact ⟨rfl, hr⟩

/-- A text from its last separator. -/
theorem append_sep_inj_last {a a' r r' : List α} (hr : x ∉ r) (hr' : x ∉ r')
    (h : a ++ x :: r = a' ++ x :: r') : a = a' ∧ r = r' := by
  have hreverse := congrArg List.reverse h
  rw [List.reverse_append, List.reverse_append, List.reverse_cons, List.reverse_cons,
    List.append_assoc, List.append_assoc, List.singleton_append, List.singleton_append]
    at hreverse
  obtain ⟨hback, hfront⟩ := append_sep_inj (fun hm => hr (List.mem_reverse.mp hm))
    (fun hm => hr' (List.mem_reverse.mp hm)) hreverse
  exact ⟨List.reverse_inj.mp hfront, List.reverse_inj.mp hback⟩

theorem intercalate_append_singleton {l : List (List α)} (hl : l ≠ []) (b : List α) :
    [x].intercalate (l ++ [b]) = [x].intercalate l ++ x :: b := by
  induction l with
  | nil => exact absurd rfl hl
  | cons a rest ih =>
      cases rest with
      | nil => simp
      | cons a' rest =>
          rw [List.cons_append, List.intercalate_cons_of_ne_nil (by simp),
            List.intercalate_cons_of_ne_nil (by simp), ih (by simp)]
          simp

/-- Fields after a free one. -/
theorem intercalate_free_inj {m m' : List α} {post post' : List (List α)}
    (hlen : post.length = post'.length) (hx : ∀ f ∈ post, x ∉ f) (hx' : ∀ f ∈ post', x ∉ f)
    (h : [x].intercalate (m :: post) = [x].intercalate (m' :: post')) :
    m = m' ∧ post = post' := by
  induction post using List.reverseRecOn generalizing post' with
  | nil =>
      obtain rfl := List.length_eq_zero_iff.mp hlen.symm
      rw [List.intercalate_singleton, List.intercalate_singleton] at h
      exact ⟨h, rfl⟩
  | append_singleton post b ih =>
      obtain ⟨rest, b', rfl⟩ : ∃ rest b', post' = rest ++ [b'] := by
        rcases List.eq_nil_or_concat post' with rfl | hconcat
        · exact absurd hlen (by simp)
        · simpa using hconcat
      rw [← List.cons_append, ← List.cons_append,
        intercalate_append_singleton (List.cons_ne_nil _ _),
        intercalate_append_singleton (List.cons_ne_nil _ _)] at h
      -- The last field goes first.
      obtain ⟨hfront, rfl⟩ := append_sep_inj_last (hx b (by simp)) (hx' b' (by simp)) h
      obtain ⟨rfl, rfl⟩ := ih (by simpa using hlen) (fun f hf => hx f (by simp [hf]))
        (fun f hf => hx' f (by simp [hf])) hfront
      exact ⟨rfl, rfl⟩

/-- Records with one free field: joined texts are equal only for equal fields. -/
theorem intercalate_frame_inj {pre pre' post post' : List (List α)} {m m' : List α}
    (hpre : pre.length = pre'.length) (hpost : post.length = post'.length)
    (hx : ∀ f ∈ pre ++ post, x ∉ f) (hx' : ∀ f ∈ pre' ++ post', x ∉ f)
    (h : [x].intercalate (pre ++ m :: post) = [x].intercalate (pre' ++ m' :: post')) :
    pre = pre' ∧ m = m' ∧ post = post' := by
  induction pre generalizing pre' with
  | nil =>
      obtain rfl := List.length_eq_zero_iff.mp hpre.symm
      exact ⟨rfl, intercalate_free_inj hpost hx hx' h⟩
  | cons a rest ih =>
      cases pre' with
      | nil => exact absurd hpre (by simp)
      | cons a' rest' =>
          rw [List.cons_append, List.cons_append,
            List.intercalate_cons_of_ne_nil (by simp),
            List.intercalate_cons_of_ne_nil (by simp), List.append_assoc, List.append_assoc,
            List.singleton_append, List.singleton_append] at h
          obtain ⟨rfl, htail⟩ := append_sep_inj (hx a (by simp)) (hx' a' (by simp)) h
          obtain ⟨rfl, hm, hpost⟩ := ih (by simpa using hpre)
            (fun f hf => hx f (List.mem_cons_of_mem _ hf))
            (fun f hf => hx' f (List.mem_cons_of_mem _ hf)) htail
          exact ⟨rfl, hm, hpost⟩

end Transact
