import Mathlib.Data.List.Induction
import Mathlib.Data.List.Nodup

/-! # Insertion-ordered dictionaries

    A dictionary is an association list in insertion order: assigning to a key
    that is present keeps its place. -/

namespace Transact

/-- An insertion-ordered dictionary. -/
abbrev Dict (κ ν : Type) := List (κ × ν)

namespace Dict

variable {κ ν : Type} [DecidableEq κ]

/-- `d.get(k)` -/
def get? (d : Dict κ ν) (k : κ) : Option ν :=
  (d.find? (fun e => e.1 == k)).map Prod.snd

/-- `d[k] = v` -/
def set (d : Dict κ ν) (k : κ) (v : ν) : Dict κ ν :=
  match d with
  | [] => [(k, v)]
  | (k', v') :: rest => if k' = k then (k, v) :: rest else (k', v') :: set rest k v

/-- `list(d)` -/
def keys (d : Dict κ ν) : List κ := d.map Prod.fst

@[simp] theorem get?_nil (k : κ) : get? ([] : Dict κ ν) k = none := rfl

theorem get?_cons (k' : κ) (v' : ν) (d : Dict κ ν) (k : κ) :
    get? ((k', v') :: d) k = if k' = k then some v' else get? d k := by
  simp only [get?]
  rw [List.find?_cons]
  by_cases h : k' = k
  · simp [h]
  · have hb : (k' == k) = false := by simp [h]
    rw [hb, if_neg h]

theorem get?_set (d : Dict κ ν) (k : κ) (v : ν) (k₂ : κ) :
    get? (set d k v) k₂ = if k = k₂ then some v else get? d k₂ := by
  induction d with
  | nil => rw [set, get?_cons]
  | cons hd rest ih =>
      obtain ⟨k', v'⟩ := hd
      rw [set]
      by_cases hk : k' = k
      · rw [if_pos hk, get?_cons, get?_cons, hk]
        by_cases h₂ : k = k₂
        · rw [if_pos h₂, if_pos h₂]
        · rw [if_neg h₂, if_neg h₂, if_neg h₂]
      · rw [if_neg hk, get?_cons, get?_cons, ih]
        by_cases h' : k' = k₂
        · rw [if_pos h', if_pos h', if_neg (fun h => hk (h'.trans h.symm))]
        · rw [if_neg h', if_neg h']

/-- An entry of the updated dictionary is the assigned one or an old one. -/
theorem mem_set {d : Dict κ ν} {k : κ} {v : ν} {e : κ × ν} (h : e ∈ set d k v) :
    e = (k, v) ∨ e ∈ d := by
  induction d with
  | nil => exact Or.inl (List.mem_singleton.mp h)
  | cons hd rest ih =>
      obtain ⟨k', v'⟩ := hd
      rw [set] at h
      by_cases hk : k' = k
      · rw [if_pos hk] at h
        rcases List.mem_cons.mp h with heq | hrest
        · exact Or.inl heq
        · exact Or.inr (List.mem_cons_of_mem _ hrest)
      · rw [if_neg hk] at h
        rcases List.mem_cons.mp h with heq | hrest
        · exact Or.inr (heq ▸ List.mem_cons_self)
        · rcases ih hrest with heq | hold
          · exact Or.inl heq
          · exact Or.inr (List.mem_cons_of_mem _ hold)

/-- A key of the updated dictionary is the assigned one or an old one. -/
theorem mem_keys_set {d : Dict κ ν} {k : κ} {v : ν} {k₂ : κ} :
    k₂ ∈ keys (set d k v) ↔ k₂ = k ∨ k₂ ∈ keys d := by
  induction d with
  | nil => simp [set, keys]
  | cons hd rest ih =>
      obtain ⟨k', v'⟩ := hd
      rw [set]
      by_cases hk : k' = k
      · rw [if_pos hk]
        simp [keys, hk]
      · rw [if_neg hk]
        have hcons : ∀ (v'' : ν) (d' : Dict κ ν),
            keys ((k', v'') :: d') = k' :: keys d' := fun _ _ => rfl
        rw [hcons, hcons, List.mem_cons, List.mem_cons, ih]
        tauto

/-- Assignment keeps the keys distinct. -/
theorem nodup_keys_set {d : Dict κ ν} {k : κ} {v : ν} (h : (keys d).Nodup) :
    (keys (set d k v)).Nodup := by
  induction d with
  | nil => simp [set, keys]
  | cons hd rest ih =>
      obtain ⟨k', v'⟩ := hd
      have hcons : ∀ (v'' : ν) (d' : Dict κ ν),
          keys ((k', v'') :: d') = k' :: keys d' := fun _ _ => rfl
      rw [hcons, List.nodup_cons] at h
      rw [set]
      by_cases hk : k' = k
      · rw [if_pos hk]
        show (k :: keys rest).Nodup
        rw [← hk, List.nodup_cons]
        exact h
      · rw [if_neg hk, hcons, List.nodup_cons, mem_keys_set]
        refine ⟨?_, ih h.2⟩
        rintro (heq | hmem)
        · exact hk heq
        · exact h.1 hmem

/-- An entry is what a lookup of its key finds, when the keys are distinct. -/
theorem get?_of_mem {d : Dict κ ν} (h : (keys d).Nodup) {k : κ} {v : ν}
    (hm : (k, v) ∈ d) : get? d k = some v := by
  induction d with
  | nil => exact absurd hm List.not_mem_nil
  | cons hd rest ih =>
      obtain ⟨k', v'⟩ := hd
      have hnd : k' ∉ keys rest ∧ (keys rest).Nodup := List.nodup_cons.mp h
      rw [get?_cons]
      rcases List.mem_cons.mp hm with heq | hrest
      · obtain ⟨hk, hv⟩ := Prod.mk.inj heq
        rw [if_pos hk.symm, hv]
      · have hkm : k ∈ keys rest := List.mem_map.mpr ⟨(k, v), hrest, rfl⟩
        rw [if_neg (fun h' : k' = k => hnd.1 (h' ▸ hkm))]
        exact ih hnd.2 hrest

theorem mem_of_get? {d : Dict κ ν} {k : κ} {v : ν} (h : get? d k = some v) :
    (k, v) ∈ d := by
  induction d with
  | nil => cases h
  | cons hd rest ih =>
      obtain ⟨k', v'⟩ := hd
      rw [get?_cons] at h
      by_cases hk : k' = k
      · rw [if_pos hk] at h
        rw [hk, Option.some.inj h]
        exact List.mem_cons_self
      · rw [if_neg hk] at h
        exact List.mem_cons_of_mem _ (ih h)

/-- A lookup in a dictionary whose values were mapped, each with its key. -/
theorem get?_map_key {μ : Type} (f : κ → ν → μ) (d : Dict κ ν) (k : κ) :
    get? (d.map (fun e => (e.1, f e.1 e.2))) k = (get? d k).map (f k) := by
  induction d with
  | nil => rfl
  | cons hd rest ih =>
      obtain ⟨k', v'⟩ := hd
      rw [List.map_cons, get?_cons, get?_cons, ih]
      by_cases hk : k' = k
      · rw [if_pos hk, if_pos hk, Option.map_some, hk]
      · rw [if_neg hk, if_neg hk]

theorem get?_map {μ : Type} (f : ν → μ) (d : Dict κ ν) (k : κ) :
    get? (d.map (fun e => (e.1, f e.2))) k = (get? d k).map f :=
  get?_map_key (fun _ => f) d k

/-- Assignment commutes with a map of the values. -/
theorem set_map {μ : Type} (f : ν → μ) (d : Dict κ ν) (k : κ) (v : ν) :
    set (d.map (fun e => (e.1, f e.2))) k (f v)
      = (set d k v).map (fun e => (e.1, f e.2)) := by
  induction d with
  | nil => rfl
  | cons hd rest ih =>
      obtain ⟨k', v'⟩ := hd
      rw [List.map_cons, set, set]
      by_cases hk : k' = k
      · rw [if_pos hk, if_pos hk]
        rfl
      · rw [if_neg hk, if_neg hk, ih]
        rfl

/-! ## Comprehensions

    `{k(x): v(x) for x in xs}` assigns in the order of `xs`. -/

section Comprehension

variable {α : Type} (k : α → κ) (v : α → ν)

/-- What a comprehension answers was there before, or comes from an element. -/
theorem get?_foldl_set {xs : List α} {d : Dict κ ν} {key : κ} {val : ν}
    (h : get? (xs.foldl (fun d x => set d (k x) (v x)) d) key = some val) :
    get? d key = some val ∨ ∃ x ∈ xs, k x = key ∧ v x = val := by
  induction xs generalizing d with
  | nil => exact Or.inl h
  | cons x rest ih =>
      rcases ih h with hset | ⟨y, hy, hkey⟩
      · rw [get?_set] at hset
        by_cases hx : k x = key
        · rw [if_pos hx] at hset
          exact Or.inr ⟨x, List.mem_cons_self, hx, Option.some.inj hset⟩
        · rw [if_neg hx] at hset
          exact Or.inl hset
      · exact Or.inr ⟨y, List.mem_cons_of_mem _ hy, hkey⟩

/-- A comprehension answers with the last element of a key. -/
theorem get?_foldl_set_eq (xs : List α) (d : Dict κ ν) (key : κ) :
    get? (xs.foldl (fun d x => set d (k x) (v x)) d) key
      = (((xs.filter (fun x => k x = key)).getLast?).map v).or (get? d key) := by
  induction xs using List.reverseRecOn with
  | nil => rfl
  | append_singleton xs x ih =>
      rw [List.foldl_append, List.foldl_cons, List.foldl_nil, get?_set, List.filter_append, ih]
      by_cases hx : k x = key
      · rw [if_pos hx, List.filter_cons_of_pos (by simpa using hx), List.filter_nil,
          List.getLast?_concat]
        rfl
      · rw [if_neg hx, List.filter_cons_of_neg (by simpa using hx), List.filter_nil,
          List.append_nil]

theorem nodup_keys_foldl_set {xs : List α} {d : Dict κ ν} (h : (keys d).Nodup) :
    (keys (xs.foldl (fun d x => set d (k x) (v x)) d)).Nodup := by
  induction xs generalizing d with
  | nil => exact h
  | cons x rest ih => exact ih (nodup_keys_set h)

theorem set_of_not_mem {d : Dict κ ν} {key : κ} {val : ν} (h : key ∉ keys d) :
    set d key val = d ++ [(key, val)] := by
  induction d with
  | nil => rfl
  | cons hd rest ih =>
      obtain ⟨key', val'⟩ := hd
      obtain ⟨hne, hrest⟩ := not_or.mp (fun hor => h (List.mem_cons.mpr hor))
      rw [set, if_neg (Ne.symm hne), ih hrest, List.cons_append]

/-- A comprehension over distinct keys lists them. -/
theorem foldl_set_append {xs : List α} {d : Dict κ ν} (h : (keys d ++ xs.map k).Nodup) :
    xs.foldl (fun d x => set d (k x) (v x)) d = d ++ xs.map (fun x => (k x, v x)) := by
  induction xs generalizing d with
  | nil => exact (List.append_nil d).symm
  | cons x rest ih =>
      have hx : k x ∉ keys d := fun hmem =>
        List.disjoint_of_nodup_append h hmem List.mem_cons_self
      have hkeys : keys (d ++ [(k x, v x)]) = keys d ++ [k x] := List.map_append
      rw [List.foldl_cons, set_of_not_mem hx, ih, List.map_cons, List.append_assoc]
      · rfl
      · rw [hkeys, List.append_assoc]
        exact h

theorem foldl_set_nil {xs : List α} (h : (xs.map k).Nodup) :
    xs.foldl (fun d x => set d (k x) (v x)) [] = xs.map (fun x => (k x, v x)) :=
  foldl_set_append k v h

/-- What such a listing answers comes from an element. -/
theorem get?_map_iff {xs : List α} (h : (xs.map k).Nodup) {key : κ} {val : ν} :
    get? (xs.map (fun x => (k x, v x))) key = some val ↔ ∃ x ∈ xs, k x = key ∧ v x = val := by
  have hkeys : (keys (xs.map (fun x => (k x, v x)))).Nodup := by
    rw [keys, List.map_map]
    exact h
  constructor
  · intro hget
    obtain ⟨x, hx, heq⟩ := List.mem_map.mp (mem_of_get? hget)
    exact ⟨x, hx, Prod.mk.inj heq⟩
  · rintro ⟨x, hx, rfl, rfl⟩
    exact get?_of_mem hkeys (List.mem_map.mpr ⟨x, hx, rfl⟩)

/-- A comprehension commutes with a map of its values. -/
theorem foldl_set_map {μ : Type} (f : ν → μ) (xs : List α) (d : Dict κ ν) :
    xs.foldl (fun d x => set d (k x) (f (v x))) (d.map (fun e => (e.1, f e.2)))
      = (xs.foldl (fun d x => set d (k x) (v x)) d).map (fun e => (e.1, f e.2)) := by
  induction xs generalizing d with
  | nil => rfl
  | cons x rest ih =>
      rw [List.foldl_cons, List.foldl_cons, set_map]
      exact ih _

end Comprehension

end Dict

end Transact
