import Dropwatch.Lib.Sorted

/-! # Paging — LIMIT and OFFSET over an order with ties

    Every page is a query of its own.  `ORDER BY key DESC` leaves the order of rows
    with one key open, and each query may settle it differently.

    Up to a place where the key changes all orders have the same rows
    (`take_perm_take`), so a page boundary there cuts them all alike.  Where a boundary
    stands between two rows with one key, two orders that differ in these rows show one
    of them twice and the other never.  So paging is exact just where no boundary does
    (`exactPaging_iff`). -/

namespace Transact

variable {α κ ι : Type} [LinearOrder κ]

/-- The rows of a query in an order that `ORDER BY key DESC` allows. -/
structure Ordered (key : α → κ) (rows : List α) where
  list : List α
  perm : list.Perm rows
  descending : list.Pairwise (fun a b => key b ≤ key a)

/-- `LIMIT limit OFFSET offset` -/
def page (list : List α) (limit offset : Nat) : List α := (list.drop offset).take limit

/-- The first `count` pages, one after the other. -/
def pages (lists : Nat → List α) (limit : Nat) : Nat → List α
  | 0 => []
  | count + 1 => pages lists limit count ++ page (lists count) limit (count * limit)

/-- However each query orders its rows, enough pages show every row once; a row is known
    by its label. -/
def ExactPaging (key : α → κ) (label : α → ι) (rows : List α) (limit : Nat) : Prop :=
  ∀ (orders : Nat → Ordered key rows) (count : Nat), rows.length ≤ count * limit →
    ((pages (fun k => (orders k).list) limit count).map label).Perm (rows.map label)

/-- The keys of the rows, the greatest first. -/
def descendingKeys (key : α → κ) (rows : List α) : List κ :=
  (rows.map key).insertionSort (fun a b => b ≤ a)

/-- No boundary of a page stands between two rows with one key. -/
def BoundariesApart (key : α → κ) (rows : List α) (limit : Nat) : Prop :=
  ∀ k x y, (descendingKeys key rows)[(k + 1) * limit - 1]? = some x →
    (descendingKeys key rows)[(k + 1) * limit]? = some y → x ≠ y

/-! ## Orders -/

section Orders

variable {key : α → κ} {rows : List α}

theorem descendingKeys_pairwise (key : α → κ) (rows : List α) :
    (descendingKeys key rows).Pairwise (fun a b => b ≤ a) :=
  @pairwise_insertionSort_key κ κᵒᵈ _ OrderDual.toDual (rows.map key)

/-- All orders have the keys in one order. -/
theorem Ordered.map_key (order : Ordered key rows) :
    order.list.map key = descendingKeys key rows := by
  refine List.Perm.eq_of_pairwise ?_ (List.pairwise_map.mpr order.descending)
    (descendingKeys_pairwise key rows) ?_
  · intro a b _ _ hab hba
    exact le_antisymm hba hab
  · exact (order.perm.map key).trans (List.perm_insertionSort _ _).symm

/-- There is an order. -/
def Ordered.sorted (key : α → κ) (rows : List α) : Ordered key rows where
  list := rows.insertionSort (fun a b => key b ≤ key a)
  perm := List.perm_insertionSort _ _
  descending := @pairwise_insertionSort_key α κᵒᵈ _ (fun a => OrderDual.toDual (key a)) rows

/-- Two rows with one key may change places. -/
def Ordered.swap (order : Ordered key rows) {a b : α} {before after : List α}
    (h : order.list = before ++ a :: b :: after) (hkey : key a = key b) : Ordered key rows where
  list := before ++ b :: a :: after
  perm := by
    refine List.Perm.trans ?_ order.perm
    rw [h]
    exact (List.Perm.swap a b after).append_left before
  descending := by
    have hkeys : (before ++ b :: a :: after).map key = order.list.map key := by
      simp only [h, List.map_append, List.map_cons, hkey]
    have hsorted : (order.list.map key).Pairwise (fun a b => b ≤ a) :=
      List.pairwise_map.mpr order.descending
    rw [← hkeys] at hsorted
    exact List.pairwise_map.mp hsorted

/-- Where the key falls, the rows above are those with a greater key. -/
theorem filter_eq_above {a b : α} {before after : List α}
    (h : (before ++ a :: b :: after).Pairwise (fun a b => key b ≤ key a)) (hne : key a ≠ key b) :
    (before ++ a :: b :: after).filter (fun c => decide (key b < key c)) = before ++ [a] := by
  obtain ⟨-, hrest, hacross⟩ := List.pairwise_append.mp h
  obtain ⟨ha, hb⟩ := List.pairwise_cons.mp hrest
  have hlt : key b < key a := lt_of_le_of_ne (ha b List.mem_cons_self) (Ne.symm hne)
  have habove : before.filter (fun c => decide (key b < key c)) = before := by
    refine List.filter_eq_self.mpr ?_
    intro c hc
    exact decide_eq_true (lt_of_lt_of_le hlt (hacross c hc a List.mem_cons_self))
  have hbelow : (b :: after).filter (fun c => decide (key b < key c)) = [] := by
    refine List.filter_eq_nil_iff.mpr ?_
    intro c hc
    rw [decide_eq_true_eq, not_lt]
    rcases List.mem_cons.mp hc with rfl | hc
    · exact le_refl _
    · exact (List.pairwise_cons.mp hb).1 c hc
  rw [List.filter_append, habove, List.filter_cons_of_pos (by simpa using hlt), hbelow]

/-- The rows on both sides of a place. -/
theorem Ordered.split (order : Ordered key rows) {n : Nat} (hn : n + 1 < rows.length) :
    ∃ before a b after, order.list = before ++ a :: b :: after ∧ before.length = n
      ∧ (descendingKeys key rows)[n]? = some (key a)
      ∧ (descendingKeys key rows)[n + 1]? = some (key b) := by
  rw [← order.perm.length_eq] at hn
  have hn' : n < order.list.length := by omega
  have hlist : order.list = order.list.take n
      ++ order.list[n] :: order.list[n + 1] :: order.list.drop (n + 2) := by
    rw [← List.drop_eq_getElem_cons hn, ← List.drop_eq_getElem_cons hn', List.take_append_drop]
  refine ⟨_, _, _, _, hlist, ?_, ?_, ?_⟩
  · rw [List.length_take]
    omega
  · rw [← order.map_key, List.getElem?_map, List.getElem?_eq_getElem hn']
    rfl
  · rw [← order.map_key, List.getElem?_map, List.getElem?_eq_getElem hn]
    rfl

/-- The rows before a place where the key falls. -/
theorem Ordered.take_eq_filter (order : Ordered key rows) {n : Nat} (hn : n + 1 < rows.length)
    (hne : ∀ x y, (descendingKeys key rows)[n]? = some x →
      (descendingKeys key rows)[n + 1]? = some y → x ≠ y) :
    ∃ y, (descendingKeys key rows)[n + 1]? = some y
      ∧ order.list.take (n + 1) = order.list.filter (fun c => decide (y < key c)) := by
  obtain ⟨before, a, b, after, hlist, hlength, ha, hb⟩ := order.split hn
  have hsorted := order.descending
  rw [hlist] at hsorted
  refine ⟨key b, hb, ?_⟩
  rw [hlist, filter_eq_above hsorted (hne _ _ ha hb), List.take_append, hlength,
    Nat.add_sub_cancel_left, List.take_of_length_le (by omega)]
  rfl

/-- All orders agree on the rows before a place where the key falls. -/
theorem Ordered.take_perm (order order' : Ordered key rows) {n : Nat}
    (hne : ∀ x y, (descendingKeys key rows)[n]? = some x →
      (descendingKeys key rows)[n + 1]? = some y → x ≠ y) :
    (order.list.take (n + 1)).Perm (order'.list.take (n + 1)) := by
  have hperm : order.list.Perm order'.list := order.perm.trans order'.perm.symm
  by_cases hn : n + 1 < rows.length
  · obtain ⟨y, hy, hfilter⟩ := order.take_eq_filter hn hne
    obtain ⟨y', hy', hfilter'⟩ := order'.take_eq_filter hn hne
    obtain rfl := Option.some.inj (hy.symm.trans hy')
    rw [hfilter, hfilter']
    exact hperm.filter _
  · -- There is no such place: all the rows are before it.
    rw [List.take_of_length_le (by rw [order.perm.length_eq]; omega),
      List.take_of_length_le (by rw [order'.perm.length_eq]; omega)]
    exact hperm

end Orders

/-! ## Pages -/

section Pages

theorem pages_eq_flatMap (lists : Nat → List α) (limit count : Nat) :
    pages lists limit count
      = (List.range count).flatMap fun k => page (lists k) limit (k * limit) := by
  induction count with
  | zero => rfl
  | succ count ih => rw [pages, ih, List.range_succ, List.flatMap_append, List.flatMap_singleton]

/-- The pages of one list. -/
theorem pages_const (list : List α) (limit count : Nat) :
    pages (fun _ => list) limit count = list.take (count * limit) := by
  induction count with
  | zero =>
      rw [Nat.zero_mul, List.take_zero]
      rfl
  | succ count ih => rw [pages, ih, page, Nat.succ_mul, List.take_add]

/-- The first pages see the first lists only. -/
theorem pages_congr {lists lists' : Nat → List α} {limit count : Nat}
    (h : ∀ k < count, lists k = lists' k) : pages lists limit count = pages lists' limit count := by
  induction count with
  | zero => rfl
  | succ count ih =>
      rw [pages, pages, h count (Nat.lt_succ_self count),
        ih (fun k hk => h k (Nat.lt_succ_of_lt hk))]

/-- Pages of one list, and from some page on of another. -/
theorem pages_switch (list list' : List α) (limit k more : Nat) :
    pages (fun j => if j < k then list else list') limit (k + more)
      = list.take (k * limit) ++ (list'.drop (k * limit)).take (more * limit) := by
  induction more with
  | zero =>
      have hfirst : pages (fun j => if j < k then list else list') limit k
          = pages (fun _ => list) limit k := pages_congr (fun j hj => if_pos hj)
      rw [Nat.add_zero, hfirst, pages_const, Nat.zero_mul, List.take_zero, List.append_nil]
  | succ more ih =>
      have hlater : ¬ k + more < k := by omega
      rw [← Nat.add_assoc, pages, ih, if_neg hlater, page, Nat.succ_mul, List.take_add,
        List.append_assoc, List.drop_drop, Nat.add_mul]

variable {key : α → κ} {rows : List α} {limit : Nat}

/-- Pages that are cut where the key falls have the rows that any one order has. -/
theorem pages_perm_take (hapart : BoundariesApart key rows limit) (hlimit : 1 ≤ limit)
    (orders : Nat → Ordered key rows) (order : Ordered key rows) (count : Nat) :
    (pages (fun k => (orders k).list) limit count).Perm (order.list.take (count * limit)) := by
  induction count generalizing order with
  | zero => simp [pages]
  | succ count ih =>
      have hpages : (pages (fun k => (orders k).list) limit (count + 1)).Perm
          ((orders count).list.take ((count + 1) * limit)) := by
        rw [pages, page, Nat.succ_mul, List.take_add]
        exact (ih (orders count)).append_right _
      refine hpages.trans ?_
      have hpos : (count + 1) * limit ≠ 0 := Nat.ne_of_gt (Nat.mul_pos (Nat.succ_pos count) hlimit)
      obtain ⟨n, hn⟩ := Nat.exists_eq_succ_of_ne_zero hpos
      rw [hn]
      refine Ordered.take_perm _ _ ?_
      intro x y hx hy
      refine hapart count x y ?_ ?_
      · rw [hn]
        exact hx
      · rw [hn]
        exact hy

variable {label : α → ι}

/-- Where paging is exact, all orders have the same rows before a boundary. -/
theorem take_perm_of_exact (hexact : ExactPaging key label rows limit) (hlimit : 1 ≤ limit)
    (order order' : Ordered key rows) (k : Nat) :
    ((order.list.take (k * limit)).map label).Perm ((order'.list.take (k * limit)).map label) := by
  have hlong : rows.length ≤ rows.length * limit := Nat.le_mul_of_pos_right _ hlimit
  have hpages := hexact (fun j => if j < k then order else order') (k + rows.length)
    (by rw [Nat.add_mul]; omega)
  have hlists : (fun j => (if j < k then order else order').list)
      = fun j => if j < k then order.list else order'.list := by
    funext j
    split
    · rfl
    · rfl
  -- The pages before the boundary by one order, those behind it by the other.
  rw [hlists, pages_switch, List.take_of_length_le (l := order'.list.drop (k * limit)) (by
    rw [List.length_drop, order'.perm.length_eq]; omega), List.map_append] at hpages
  have hall : ((order'.list.take (k * limit)).map label
      ++ (order'.list.drop (k * limit)).map label).Perm (rows.map label) := by
    rw [← List.map_append, List.take_append_drop]
    exact order'.perm.map label
  exact (List.perm_append_right_iff _).mp (hpages.trans hall.symm)

/-- Paging is exact exactly if no boundary stands between two rows with one key. -/
theorem exactPaging_iff (hlabel : (rows.map label).Nodup) (hlimit : 1 ≤ limit) :
    ExactPaging key label rows limit ↔ BoundariesApart key rows limit := by
  constructor
  · rintro hexact k x y hx hy rfl
    have hpos : (k + 1) * limit ≠ 0 := Nat.ne_of_gt (Nat.mul_pos (Nat.succ_pos k) hlimit)
    obtain ⟨n, hn⟩ := Nat.exists_eq_succ_of_ne_zero hpos
    rw [hn, Nat.succ_sub_one] at hx
    rw [hn] at hy
    have hshort : n + 1 < rows.length := by
      have hget := (List.getElem?_eq_some_iff.mp hy).1
      rwa [← (Ordered.sorted key rows).map_key, List.length_map,
        (Ordered.sorted key rows).perm.length_eq] at hget
    obtain ⟨before, a, b, after, hlist, hlength, ha, hb⟩ := (Ordered.sorted key rows).split hshort
    have hkey : key a = key b :=
      (Option.some.inj (hx.symm.trans ha)).symm.trans (Option.some.inj (hy.symm.trans hb))
    -- The two rows at the boundary change places.
    have htake := take_perm_of_exact hexact hlimit (Ordered.sorted key rows)
      ((Ordered.sorted key rows).swap hlist hkey) (k + 1)
    have hcut : ∀ c d : α, (before ++ c :: d :: after).take (n + 1) = before ++ [c] := by
      intro c d
      rw [List.take_append, hlength, Nat.add_sub_cancel_left, List.take_of_length_le (by omega)]
      rfl
    rw [hn, hlist, hcut] at htake
    have hswapped : ((Ordered.sorted key rows).swap hlist hkey).list.take (n + 1)
        = before ++ [b] := hcut b a
    rw [hswapped, List.map_append, List.map_append] at htake
    have hsame : label a = label b :=
      List.singleton_perm_singleton.mp ((List.perm_append_left_iff _).mp htake)
    have hnodup : ((Ordered.sorted key rows).list.map label).Nodup :=
      ((Ordered.sorted key rows).perm.map label).nodup_iff.mpr hlabel
    rw [hlist, List.map_append, List.map_cons, List.map_cons, hsame] at hnodup
    exact (List.nodup_cons.mp hnodup.of_append_right).1 List.mem_cons_self
  · intro hapart orders count hcount
    refine List.Perm.map label ?_
    have hpages := pages_perm_take hapart hlimit orders (orders 0) count
    rw [List.take_of_length_le (by rw [(orders 0).perm.length_eq]; exact hcount)] at hpages
    exact hpages.trans (orders 0).perm

end Pages

end Transact
