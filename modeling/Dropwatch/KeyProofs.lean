import Mathlib.Tactic.IntervalCases
import Dropwatch.Evaluator
import Dropwatch.Lib.Joined
import Dropwatch.Lib.Json

/-! # What a key says

    The detected-state text joins eight printed fields with `|`.  Seven of them
    cannot contain a `|`; the eighth, `direction`, may be any string, and is what
    remains between the five fields before it and the two after it.  Printed
    numbers, dates and UUIDs are read back here, each by what its characters are
    and what its digits say. -/

namespace Dropwatch.Keys

open Transact Evaluator

/-! ## UUIDs -/

theorem hexDigit_ne : ∀ n < 16, hexDigit n ≠ '-' ∧ hexDigit n ≠ ':'
    ∧ Json.hexValue (hexDigit n) = some n := by
  decide

theorem mem_uuidHex {u : Uuid} {c : Char} (h : c ∈ uuidHex u) : ∃ n < 16, c = hexDigit n := by
  rw [uuidHex, List.mem_reverse] at h
  rcases List.mem_append.mp h with h | h
  · obtain ⟨n, hn, rfl⟩ := List.mem_map.mp h
    exact ⟨n, Nat.digits_lt_base (by decide) hn, rfl⟩
  · exact ⟨0, by decide, List.eq_of_mem_replicate h⟩

theorem length_uuidHex (u : Uuid) : 24 ≤ (uuidHex u).length := by
  rw [uuidHex, List.length_reverse, List.length_append, List.length_replicate]
  omega

/-- The digits give the number back. -/
theorem uuidHex_inj {u v : Uuid} (h : uuidHex u = uuidHex v) : u = v := by
  have hvalue : ∀ w : Uuid, Nat.ofDigits 16
      (((uuidHex w).reverse).map (fun c => (Json.hexValue c).getD 0)) = w := by
    intro w
    have hdigits : ((Nat.digits 16 w).map hexDigit).map (fun c => (Json.hexValue c).getD 0)
        = Nat.digits 16 w := by
      rw [List.map_map]
      refine (List.map_congr_left ?_).trans (List.map_id _)
      intro n hn
      show (Json.hexValue (hexDigit n)).getD 0 = n
      rw [(hexDigit_ne n (Nat.digits_lt_base (by decide) hn)).2.2]
      rfl
    rw [uuidHex, List.reverse_reverse, List.map_append, hdigits, List.map_replicate]
    exact Nat.ofDigits_append_replicate_zero _ |>.trans (Nat.ofDigits_digits 16 w)
  rw [← hvalue u, ← hvalue v, h]

/-- A printed UUID is its digits in five groups. -/
theorem uuidStr_groups (u : Uuid) : ∃ a b c d e : List Char,
    (uuidStr u).toList = a ++ '-' :: b ++ '-' :: c ++ '-' :: d ++ '-' :: e
      ∧ a ++ b ++ c ++ d ++ e = uuidHex u := by
  have hlen := length_uuidHex u
  refine ⟨_, _, _, _, _, String.toList_ofList, ?_⟩
  have hjoin : ∀ i j, i + 4 = j → ((uuidHex u).drop i).take 4 ++ (uuidHex u).drop j
      = (uuidHex u).drop i := by
    intro i j hij
    rw [← hij, ← List.drop_drop]
    exact List.take_append_drop 4 _
  rw [List.append_assoc, List.append_assoc, List.append_assoc, hjoin _ _ (by omega),
    hjoin _ _ (by omega), hjoin _ _ (by omega)]
  exact List.take_append_drop _ _

/-- Without its dashes a printed UUID is its digits. -/
theorem filter_uuidStr (u : Uuid) : (uuidStr u).toList.filter (· != '-') = uuidHex u := by
  obtain ⟨a, b, c, d, e, htext, hhex⟩ := uuidStr_groups u
  have hfilter : (uuidStr u).toList.filter (· != '-') = (uuidHex u).filter (· != '-') := by
    rw [htext, ← hhex]
    simp
  rw [hfilter]
  refine List.filter_eq_self.mpr ?_
  intro digit hdigit
  obtain ⟨n, hn, rfl⟩ := mem_uuidHex hdigit
  exact bne_iff_ne.mpr (hexDigit_ne n hn).1

theorem colon_notMem_uuidStr (u : Uuid) : ':' ∉ (uuidStr u).toList := by
  intro hmem
  have hdigit : ':' ∈ (uuidStr u).toList.filter (· != '-') :=
    List.mem_filter.mpr ⟨hmem, by decide⟩
  rw [filter_uuidStr] at hdigit
  obtain ⟨n, hn, heq⟩ := mem_uuidHex hdigit
  exact (hexDigit_ne n hn).2.1 heq.symm

/-! ## Numbers -/

theorem digits_eq (n : Nat) : Decimal.digits n = Nat.toDigits 10 n := Nat.toList_repr

/-- The characters of a printed natural number. -/
theorem isDigit_of_mem_digits {n : Nat} {c : Char} (h : c ∈ Decimal.digits n) :
    c.isDigit = true := by
  rw [digits_eq] at h
  exact Nat.isDigit_of_mem_toDigits (by decide) (by decide) h

theorem digits_ne_nil (n : Nat) : Decimal.digits n ≠ [] := by
  rw [digits_eq]
  exact Nat.toDigits_ne_nil

/-- A padded number consists of digits. -/
theorem isDigit_of_mem_zeroPad {width n : Nat} {c : Char} (h : c ∈ (zeroPad width n).toList) :
    c.isDigit = true := by
  rw [zeroPad, String.toList_ofList] at h
  rcases List.mem_append.mp h with h | h
  · rw [List.eq_of_mem_replicate h]
    decide
  · exact isDigit_of_mem_digits h

/-- Padding does not change what a number reads as. -/
theorem zeroPad_inj {width m n : Nat} (h : zeroPad width m = zeroPad width n) : m = n := by
  have hvalue : ∀ k, Nat.ofDigitChars 10 (zeroPad width k).toList 0 = k := by
    intro k
    rw [zeroPad, String.toList_ofList, Nat.ofDigitChars_append,
      Nat.ofDigitChars_replicate_zero, Nat.mul_zero, digits_eq, Nat.ofDigitChars_ten_toDigits]
  rw [← hvalue m, ← hvalue n, h]

/-- A printed decimal: a sign, the digits around a point, an exponent. -/
theorem str_shape (d : Decimal) : ∃ dotplace leftdigits : Int, d.str.toList
    = (if d.negative then ['-'] else [])
      ++ (if dotplace ≤ 0 then
            '0' :: '.' :: (List.replicate (-dotplace).toNat '0' ++ Decimal.digits d.coeff)
          else if ((Decimal.digits d.coeff).length : Int) ≤ dotplace then
            Decimal.digits d.coeff
              ++ List.replicate (dotplace - (Decimal.digits d.coeff).length).toNat '0'
          else (Decimal.digits d.coeff).take dotplace.toNat
            ++ '.' :: (Decimal.digits d.coeff).drop dotplace.toNat)
      ++ (if leftdigits = dotplace then []
          else 'E' :: (if leftdigits < dotplace then '-' else '+')
            :: Decimal.digits (leftdigits - dotplace).natAbs) :=
  ⟨_, _, String.toList_ofList⟩

/-- The characters of `str(d)`. -/
theorem mem_str {d : Decimal} {c : Char} (h : c ∈ d.str.toList) :
    c.isDigit = true ∨ c = '-' ∨ c = '.' ∨ c = 'E' ∨ c = '+' := by
  have hzeros : ∀ n, c ∈ List.replicate n '0' → c.isDigit = true := by
    intro n hc
    rw [List.eq_of_mem_replicate hc]
    decide
  obtain ⟨dotplace, leftdigits, hshape⟩ := str_shape d
  rw [hshape] at h
  rcases List.mem_append.mp h with h | hexp
  · rcases List.mem_append.mp h with hsign | hbody
    · split at hsign
      · exact Or.inr (Or.inl (List.mem_singleton.mp hsign))
      · exact absurd hsign List.not_mem_nil
    · -- The three places the point can have: before, after and among the digits.
      split at hbody
      · rcases List.mem_cons.mp hbody with h0 | hbody
        · exact Or.inl (by rw [h0]; decide)
        · rcases List.mem_cons.mp hbody with hpoint | hbody
          · exact Or.inr (Or.inr (Or.inl hpoint))
          · rcases List.mem_append.mp hbody with hz | hd
            · exact Or.inl (hzeros _ hz)
            · exact Or.inl (isDigit_of_mem_digits hd)
      · split at hbody
        · rcases List.mem_append.mp hbody with hd | hz
          · exact Or.inl (isDigit_of_mem_digits hd)
          · exact Or.inl (hzeros _ hz)
        · rcases List.mem_append.mp hbody with hd | hbody
          · exact Or.inl (isDigit_of_mem_digits (List.mem_of_mem_take hd))
          · rcases List.mem_cons.mp hbody with hpoint | hd
            · exact Or.inr (Or.inr (Or.inl hpoint))
            · exact Or.inl (isDigit_of_mem_digits (List.mem_of_mem_drop hd))
  · split at hexp
    · exact absurd hexp List.not_mem_nil
    · rcases List.mem_cons.mp hexp with hE | hexp
      · exact Or.inr (Or.inr (Or.inr (Or.inl hE)))
      · rcases List.mem_cons.mp hexp with hsign | hd
        · split at hsign
          · exact Or.inr (Or.inl hsign)
          · exact Or.inr (Or.inr (Or.inr (Or.inr hsign)))
        · exact Or.inl (isDigit_of_mem_digits hd)

theorem pipe_notMem_str (d : Decimal) : '|' ∉ d.str.toList := by
  intro h
  rcases mem_str h with h | h | h | h | h
  all_goals exact absurd h (by decide)

theorem str_ne_empty (d : Decimal) : d.str ≠ "" := by
  intro h
  obtain ⟨dotplace, leftdigits, hshape⟩ := str_shape d
  rw [h] at hshape
  obtain ⟨hfront, -⟩ := List.append_eq_nil_iff.mp hshape.symm
  obtain ⟨-, hbody⟩ := List.append_eq_nil_iff.mp hfront
  split at hbody
  · exact absurd hbody (List.cons_ne_nil _ _)
  · split at hbody
    · exact digits_ne_nil _ (List.append_eq_nil_iff.mp hbody).1
    · exact absurd (List.append_eq_nil_iff.mp hbody).2 (List.cons_ne_nil _ _)

/-- A null field is printed as nothing, and a number is not. -/
theorem strOrEmpty_inj {a b : Option Decimal} (h : strOrEmpty a = strOrEmpty b) :
    a.map Decimal.str = b.map Decimal.str := by
  cases a with
  | none =>
      cases b with
      | none => rfl
      | some d => exact absurd h.symm (str_ne_empty d)
  | some d =>
      cases b with
      | none => exact absurd h (str_ne_empty d)
      | some d' => exact congrArg some h

theorem pipe_notMem_strOrEmpty (a : Option Decimal) : '|' ∉ (strOrEmpty a).toList := by
  cases a with
  | none => exact List.not_mem_nil
  | some d => exact pipe_notMem_str d

theorem toString_negSucc (n : Nat) :
    (toString (Int.negSucc n)).toList = '-' :: Decimal.digits (n + 1) := by
  show ("-" ++ Nat.repr (n + 1)).toList = _
  rw [String.toList_append]
  rfl

/-- The characters of a printed integer. -/
theorem mem_toString_int {n : Int} {c : Char} (h : c ∈ (toString n).toList) :
    c.isDigit = true ∨ c = '-' := by
  cases n with
  | ofNat n => exact Or.inl (isDigit_of_mem_digits h)
  | negSucc n =>
      rw [toString_negSucc] at h
      rcases List.mem_cons.mp h with hsign | hd
      · exact Or.inr hsign
      · exact Or.inl (isDigit_of_mem_digits hd)

theorem digits_inj {m n : Nat} (h : Decimal.digits m = Decimal.digits n) : m = n := by
  rw [digits_eq, digits_eq] at h
  rw [← Nat.ofDigitChars_ten_toDigits (n := m), h, Nat.ofDigitChars_ten_toDigits]

theorem toString_int_inj {a b : Int} (h : toString a = toString b) : a = b := by
  have hsign : ∀ m n : Nat, (toString (Int.negSucc m)).toList ≠ Decimal.digits n := by
    intro m n heq
    have hminus : '-' ∈ Decimal.digits n := by
      rw [← heq, toString_negSucc]
      exact List.mem_cons_self
    exact absurd (isDigit_of_mem_digits hminus) (by decide)
  have hlist := congrArg String.toList h
  cases a with
  | ofNat m =>
      cases b with
      | ofNat n => exact congrArg Int.ofNat (digits_inj hlist)
      | negSucc n => exact absurd hlist.symm (hsign n m)
  | negSucc m =>
      cases b with
      | ofNat n => exact absurd hlist (hsign m n)
      | negSucc n =>
          rw [toString_negSucc, toString_negSucc] at hlist
          have := digits_inj (List.cons.inj hlist).2
          exact congrArg Int.negSucc (Nat.succ.inj this)

theorem toString_int_ne_empty (n : Int) : toString n ≠ "" := by
  intro h
  have hlist := congrArg String.toList h
  cases n with
  | ofNat n => exact digits_ne_nil n hlist
  | negSucc n =>
      rw [toString_negSucc] at hlist
      cases hlist

/-! ## Dates -/

/-- The instants a `datetime` can hold: years 1 to 9999. -/
def IsDatetime (t : Instant) : Prop :=
  (-62135596800000000 : Int) ≤ t ∧ (t : Int) < (253402300800000000 : Int)

/-- A day of a 400-year era lies in one of its years. -/
theorem dayOfYear_bounds {doe yoe : Nat} (h : doe ≤ 146096)
    (hyoe : yoe = (doe - doe / 1460 + doe / 36524 - doe / 146096) / 365) :
    yoe ≤ 399 ∧ 365 * yoe + yoe / 4 - yoe / 100 ≤ doe
      ∧ doe - (365 * yoe + yoe / 4 - yoe / 100) ≤ 365 := by
  have hcentury : doe / 36524 ≤ 4 := by omega
  have hlast : doe / 146096 ≤ 1 := by omega
  have hhundred : yoe / 100 ≤ 3 := by omega
  -- Century by century the leap days are linear.
  generalize hE : doe / 36524 = e at *
  generalize hF : doe / 146096 = f at *
  generalize hC : yoe / 100 = c at *
  interval_cases e <;> interval_cases f <;> interval_cases c <;> omega

/-- The calendar of a day number: era, year of the era, day of the year and month
    counted from March. -/
structure Civil (days : Int) (era : Int) (yoe doy mp : Nat) : Prop where
  yoe_le : yoe ≤ 399
  doy_le : doy ≤ 365
  mp_le : mp ≤ 11
  start : (153 * mp + 2) / 5 ≤ doy
  number : days + 719468 = era * 146097 + (365 * yoe + yoe / 4 - yoe / 100 + doy : Nat)
  civil : civilFromDays days
    = (yoe + era * 400 + (if (if mp < 10 then mp + 3 else mp - 9) ≤ 2 then 1 else 0),
      if mp < 10 then mp + 3 else mp - 9, doy - (153 * mp + 2) / 5 + 1)

theorem exists_civil (days : Int) : ∃ era yoe doy mp, Civil days era yoe doy mp := by
  have hdoe : (days + 719468 - (days + 719468) / 146097 * 146097).toNat ≤ 146096 := by omega
  obtain ⟨hyoe, hstart, hdoy⟩ := dayOfYear_bounds hdoe rfl
  refine ⟨(days + 719468) / 146097, _, _, _, hyoe, hdoy, ?_, ?_, ?_, rfl⟩
  · omega
  · omega
  · omega

/-- A date names one day. -/
theorem civilFromDays_inj {a b : Int} (h : civilFromDays a = civilFromDays b) : a = b := by
  obtain ⟨era, yoe, doy, mp, ha⟩ := exists_civil a
  obtain ⟨era', yoe', doy', mp', hb⟩ := exists_civil b
  rw [ha.civil, hb.civil, Prod.mk.injEq, Prod.mk.injEq] at h
  obtain ⟨hy, hm, hd⟩ := h
  have hmp : mp = mp' := by
    have := ha.mp_le
    have := hb.mp_le
    split at hm
    · split at hm
      · omega
      · omega
    · split at hm
      · omega
      · omega
  subst hmp
  have hdoy : doy = doy' := by
    have := ha.start
    have := hb.start
    omega
  have hyear : (yoe : Int) + era * 400 = yoe' + era' * 400 := by omega
  have hyoe := ha.yoe_le
  have hyoe' := hb.yoe_le
  have hera : era = era' := by omega
  have hsame : yoe = yoe' := by omega
  have hdays := ha.number
  rw [hera, hsame, hdoy, ← hb.number] at hdays
  omega

theorem firstDay_le {n : Int} (h : -62135596800000000 ≤ n) : -719162 ≤ n / 86400000000 := by
  omega

theorem year_nonneg {t : Instant} (h : IsDatetime t) :
    0 ≤ (civilFromDays (t / 86400000000)).1 := by
  obtain ⟨era, yoe, doy, mp, hc⟩ := exists_civil (t / 86400000000)
  have hnumber := hc.number
  have hyoe := hc.yoe_le
  have hdoy := hc.doy_le
  have hday := firstDay_le h.1
  have hera : 0 ≤ era := by omega
  rw [hc.civil]
  show 0 ≤ (yoe : Int) + era * 400 + _
  split
  · omega
  · omega

/-- Whole minutes, seconds and the zone follow the date and the hour. -/
theorem isoformat_shape (t : Instant) : ∃ rest : List Char,
    (isoformat t).toList
      = (zeroPad 4 (civilFromDays (t / 86400000000)).1.toNat).toList ++ '-' ::
        ((zeroPad 2 (civilFromDays (t / 86400000000)).2.1).toList ++ '-' ::
        ((zeroPad 2 (civilFromDays (t / 86400000000)).2.2).toList ++ 'T' ::
        ((zeroPad 2 ((t - t / 86400000000 * 86400000000).toNat / 1000000 / 3600)).toList ++ ':' ::
        ((zeroPad 2 ((t - t / 86400000000 * 86400000000).toNat / 1000000 / 60 % 60)).toList
          ++ ':' :: rest)))) := by
  refine ⟨(zeroPad 2 ((t - t / 86400000000 * 86400000000).toNat / 1000000 % 60)
    ++ (if (t - t / 86400000000 * 86400000000).toNat % 1000000 = 0 then ""
      else "." ++ zeroPad 6 ((t - t / 86400000000 * 86400000000).toNat % 1000000))
    ++ "+00:00").toList, ?_⟩
  have hdash : ("-" : String).toList = ['-'] := rfl
  have hT : ("T" : String).toList = ['T'] := rfl
  have hcolon : (":" : String).toList = [':'] := rfl
  rw [isoformat]
  rcases civilFromDays (t / 86400000000) with ⟨y, m, d⟩
  simp only [String.toList_append, hdash, hT, hcolon, List.append_assoc, List.cons_append,
    List.nil_append]

theorem minute_bounds {n : Int} (hlow : -62135596800000000 ≤ n)
    (hhigh : n < 253402300800000000) :
    -62135596800000000 ≤ n / 60000000 * 60000000
      ∧ n / 60000000 * 60000000 < 253402300800000000 := by
  omega

theorem minuteBucket_isDatetime {t : Instant} (h : IsDatetime t) :
    IsDatetime (minuteBucket t) := minute_bounds h.1 h.2

/-- Day, hour and minute fix a whole minute. -/
theorem minute_of_parts {a b m n : Int} (ha : m = a * 60000000) (hb : n = b * 60000000)
    (hday : m / 86400000000 = n / 86400000000)
    (hhour : (m - m / 86400000000 * 86400000000).toNat / 1000000 / 3600
      = (n - n / 86400000000 * 86400000000).toNat / 1000000 / 3600)
    (hminute : (m - m / 86400000000 * 86400000000).toNat / 1000000 / 60 % 60
      = (n - n / 86400000000 * 86400000000).toNat / 1000000 / 60 % 60) : m = n := by
  omega

/-- The text of a minute names the minute. -/
theorem isoformat_bucket_inj {t t' : Instant} (h : IsDatetime t) (h' : IsDatetime t')
    (heq : isoformat (minuteBucket t) = isoformat (minuteBucket t')) :
    minuteBucket t = minuteBucket t' := by
  have hnot : ∀ (c : Char) (width n : Nat), c.isDigit = false → c ∉ (zeroPad width n).toList := by
    intro c width n hc hmem
    rw [isDigit_of_mem_zeroPad hmem] at hc
    exact absurd hc (by decide)
  obtain ⟨rest, hshape⟩ := isoformat_shape (minuteBucket t)
  obtain ⟨rest', hshape'⟩ := isoformat_shape (minuteBucket t')
  have hlist := congrArg String.toList heq
  rw [hshape, hshape'] at hlist
  obtain ⟨hy, hlist⟩ := append_sep_inj (hnot _ _ _ (by decide)) (hnot _ _ _ (by decide)) hlist
  obtain ⟨hm, hlist⟩ := append_sep_inj (hnot _ _ _ (by decide)) (hnot _ _ _ (by decide)) hlist
  obtain ⟨hd, hlist⟩ := append_sep_inj (hnot _ _ _ (by decide)) (hnot _ _ _ (by decide)) hlist
  obtain ⟨hhour, hlist⟩ := append_sep_inj (hnot _ _ _ (by decide)) (hnot _ _ _ (by decide)) hlist
  obtain ⟨hminute, -⟩ := append_sep_inj (hnot _ _ _ (by decide)) (hnot _ _ _ (by decide)) hlist
  have hread : ∀ {width m n : Nat}, (zeroPad width m).toList = (zeroPad width n).toList → m = n :=
    fun h => zeroPad_inj (String.toList_inj.mp h)
  have hdays : minuteBucket t / 86400000000 = minuteBucket t' / 86400000000 := by
    refine civilFromDays_inj ?_
    have hyear := hread hy
    have h0 := year_nonneg (minuteBucket_isDatetime h)
    have h0' := year_nonneg (minuteBucket_isDatetime h')
    refine Prod.ext ?_ (Prod.ext (hread hm) (hread hd))
    omega
  exact minute_of_parts rfl rfl hdays (hread hhour) (hread hminute)

/-! ## The detected state -/

/-- Two detected states that are one: every field prints the same, and a null field
    is null in both.  A null direction counts as an empty one. -/
structure SameState (rule rule' : AlertRule) (price price' : Decimal) (t t' : Instant) :
    Prop where
  ruleType : rule.ruleType = rule'.ruleType
  threshold : rule.threshold.map Decimal.str = rule'.threshold.map Decimal.str
  percent : rule.percent.map Decimal.str = rule'.percent.map Decimal.str
  windowSeconds : rule.windowSeconds = rule'.windowSeconds
  sigma : rule.sigma.map Decimal.str = rule'.sigma.map Decimal.str
  direction : rule.direction.getD "" = rule'.direction.getD ""
  price : price.str = price'.str
  minute : minuteBucket t = minuteBucket t'

theorem ruleTypeStr_inj {a b : RuleType} (h : a.str = b.str) : a = b := by
  revert h
  cases a <;> cases b <;> decide

/-- A null window is printed as nothing, and a number is not. -/
theorem windowText_inj {a b : Option Int}
    (h : (a.map (fun n => toString n)).getD "" = (b.map (fun n => toString n)).getD "") :
    a = b := by
  cases a with
  | none =>
      cases b with
      | none => rfl
      | some n => exact absurd h.symm (toString_int_ne_empty n)
  | some m =>
      cases b with
      | none => exact absurd h (toString_int_ne_empty m)
      | some n => exact congrArg some (toString_int_inj h)

theorem pipe_notMem_windowText (a : Option Int) :
    '|' ∉ ((a.map (fun n => toString n)).getD "").toList := by
  cases a with
  | none => exact List.not_mem_nil
  | some n =>
      intro h
      rcases mem_toString_int h with h | h
      · exact absurd h (by decide)
      · exact absurd h (by decide)

theorem pipe_notMem_ruleTypeStr (a : RuleType) : '|' ∉ a.str.toList := by
  cases a <;> decide

theorem pipe_notMem_isoformat (t : Instant) : '|' ∉ (isoformat t).toList := by
  have hpad : ∀ width n, '|' ∉ (zeroPad width n).toList := by
    intro width n hmem
    exact absurd (isDigit_of_mem_zeroPad hmem) (by decide)
  rw [isoformat]
  rcases civilFromDays (t / 86400000000) with ⟨y, m, d⟩
  have hsign : '|' ∉ ("-" : String).toList ∧ '|' ∉ ("T" : String).toList
      ∧ '|' ∉ (":" : String).toList ∧ '|' ∉ ("+00:00" : String).toList := by decide
  obtain ⟨hdash, hT, hcolon, hzone⟩ := hsign
  simp only [String.toList_append, List.mem_append, not_or, hpad, hdash, hT, hcolon, hzone,
    not_false_eq_true, true_and, and_true]
  split
  · exact List.not_mem_nil
  · rw [String.toList_append, List.mem_append, not_or]
    exact ⟨by decide, hpad _ _⟩

/-- The fields before the direction. -/
def partsBefore (rule : AlertRule) : List String :=
  [rule.ruleType.str, strOrEmpty rule.threshold, strOrEmpty rule.percent,
    (rule.windowSeconds.map (fun n => toString n)).getD "", strOrEmpty rule.sigma]

/-- The fields after the direction. -/
def partsAfter (price : Decimal) (t : Instant) : List String :=
  [price.str, isoformat (minuteBucket t)]

theorem pipe_notMem_parts (rule : AlertRule) (price : Decimal) (t : Instant) :
    ∀ f ∈ (partsBefore rule).map String.toList ++ (partsAfter price t).map String.toList,
      '|' ∉ f := by
  rw [← List.map_append]
  intro f hf
  obtain ⟨text, htext, rfl⟩ := List.mem_map.mp hf
  simp only [partsBefore, partsAfter, List.cons_append, List.nil_append, List.mem_cons,
    List.not_mem_nil, or_false] at htext
  rcases htext with rfl | rfl | rfl | rfl | rfl | rfl | rfl
  · exact pipe_notMem_ruleTypeStr _
  · exact pipe_notMem_strOrEmpty _
  · exact pipe_notMem_strOrEmpty _
  · exact pipe_notMem_windowText _
  · exact pipe_notMem_strOrEmpty _
  · exact pipe_notMem_str _
  · exact pipe_notMem_isoformat _

theorem toList_detectedState (rule : AlertRule) (price : Decimal) (t : Instant) :
    ("|".intercalate (detectedStateParts rule price t)).toList
      = ['|'].intercalate ((partsBefore rule).map String.toList
        ++ (rule.direction.getD "").toList :: (partsAfter price t).map String.toList) := by
  rw [String.toList_intercalate]
  rfl

/-- The fields are read off the joined text, the free one in the middle. -/
theorem detectedStateParts_fields {rule rule' : AlertRule} {price price' : Decimal}
    {t t' : Instant} (h : "|".intercalate (detectedStateParts rule price t)
      = "|".intercalate (detectedStateParts rule' price' t')) :
    partsBefore rule = partsBefore rule' ∧ rule.direction.getD "" = rule'.direction.getD ""
      ∧ partsAfter price t = partsAfter price' t' := by
  have hlist := congrArg String.toList h
  rw [toList_detectedState, toList_detectedState] at hlist
  obtain ⟨hbefore, hdir, hafter⟩ := intercalate_frame_inj (by simp [partsBefore])
    (by simp [partsAfter]) (pipe_notMem_parts rule price t) (pipe_notMem_parts rule' price' t')
    hlist
  have htexts : Function.Injective (List.map String.toList) :=
    List.map_injective_iff.mpr (fun _ _ => String.toList_inj.mp)
  exact ⟨htexts hbefore, String.toList_inj.mp hdir, htexts hafter⟩

/-- The joined text of a detected state names the state. -/
theorem detectedStateParts_inj {rule rule' : AlertRule} {price price' : Decimal}
    {t t' : Instant} (ht : IsDatetime t) (ht' : IsDatetime t')
    (h : "|".intercalate (detectedStateParts rule price t)
      = "|".intercalate (detectedStateParts rule' price' t')) :
    SameState rule rule' price price' t t' := by
  obtain ⟨hbefore, hdir, hafter⟩ := detectedStateParts_fields h
  simp only [partsBefore, List.cons.injEq, and_true] at hbefore
  simp only [partsAfter, List.cons.injEq, and_true] at hafter
  obtain ⟨htype, hthr, hpct, hwin, hsig⟩ := hbefore
  exact {
    ruleType := ruleTypeStr_inj htype
    threshold := strOrEmpty_inj hthr
    percent := strOrEmpty_inj hpct
    windowSeconds := windowText_inj hwin
    sigma := strOrEmpty_inj hsig
    direction := hdir
    price := hafter.1
    minute := isoformat_bucket_inj ht ht' hafter.2 }

/-- The text of a key names the rule, the pair and the state hash. -/
theorem keyParts_inj {ruleId ruleId' pairId pairId' : Uuid} {hash hash' : String}
    (h : uuidStr ruleId ++ ":" ++ uuidStr pairId ++ ":" ++ hash
      = uuidStr ruleId' ++ ":" ++ uuidStr pairId' ++ ":" ++ hash') :
    ruleId = ruleId' ∧ pairId = pairId' ∧ hash = hash' := by
  have hcolon : (":" : String).toList = [':'] := rfl
  have hlist := congrArg String.toList h
  simp only [String.toList_append, hcolon, List.append_assoc, List.singleton_append] at hlist
  -- The rule, the pair and the hash are separated by colons, which an id has none of.
  obtain ⟨hrule, htail⟩ := append_sep_inj (colon_notMem_uuidStr ruleId)
    (colon_notMem_uuidStr ruleId') hlist
  obtain ⟨hpair, hhash⟩ := append_sep_inj (colon_notMem_uuidStr pairId)
    (colon_notMem_uuidStr pairId') htail
  refine ⟨uuidHex_inj ?_, uuidHex_inj ?_, String.toList_inj.mp hhash⟩
  · rw [← filter_uuidStr, ← filter_uuidStr, hrule]
  · rw [← filter_uuidStr, ← filter_uuidStr, hpair]

variable {rt : Runtime}

/-- Within a minute the keys of a rule differ exactly as its prices print. -/
theorem stateKey_eq_iff (hsha : Function.Injective rt.sha256) {pairId : Uuid} {rule : AlertRule}
    {price price' : Decimal} {t t' : Instant} (hminute : minuteBucket t = minuteBucket t') :
    stateKey rt pairId rule price t = stateKey rt pairId rule price' t'
      ↔ price.str = price'.str := by
  constructor
  · intro h
    have hhash := (keyParts_inj (hsha h)).2.2
    have hafter := (detectedStateParts_fields (hsha hhash)).2.2
    exact (List.cons.inj hafter).1
  · intro h
    rw [stateKey, stateKey, computeDetectedStateHash, computeDetectedStateHash,
      detectedStateParts, detectedStateParts, h, hminute]

/-- Where `sha256` has no collisions, a state hash names the detected state and a key
    names the rule, the pair and the hash. -/
theorem detectedStateHash_inj (hsha : Function.Injective rt.sha256) :
    (∀ (rule rule' : AlertRule) (price price' : Decimal) (t t' : Instant),
        IsDatetime t → IsDatetime t' →
        computeDetectedStateHash rt rule price t = computeDetectedStateHash rt rule' price' t' →
        SameState rule rule' price price' t t')
      ∧ ∀ (ruleId ruleId' pairId pairId' : Uuid) (hash hash' : String),
        computeIdempotencyKey rt ruleId pairId hash
            = computeIdempotencyKey rt ruleId' pairId' hash' →
        ruleId = ruleId' ∧ pairId = pairId' ∧ hash = hash' := by
  constructor
  · intro rule rule' price price' t t' ht ht' h
    exact detectedStateParts_inj ht ht' (hsha h)
  · intro ruleId ruleId' pairId pairId' hash hash' h
    exact keyParts_inj (hsha h)

/-- Two rules whose directions, null and empty, are one state, seen twice in a minute. -/
def pipedRule (direction : Option String) : AlertRule :=
  { id := 7, pairId := 1, ruleType := .absoluteBelow, threshold := some ⟨false, 100, 0⟩
    direction }

theorem detectedStateHash_inj_piped :
    SameState (pipedRule none) (pipedRule (some "")) ⟨false, 95, 0⟩ ⟨false, 95, 0⟩
        1786710601000000 1786710647000000
      ∧ SameState (pipedRule (some "up|95")) (pipedRule (some "up|95")) ⟨false, 95, 0⟩
        ⟨false, 95, 0⟩ 1786710601000000 1786710647000000
      ∧ (7 : Uuid) = 7 ∧ (1 : Uuid) = 1 ∧ "hash" = "hash" := by
  obtain ⟨hstate, hkey⟩ := @detectedStateHash_inj Runtime.rational (fun _ _ h => h)
  have hrange : IsDatetime 1786710601000000 ∧ IsDatetime 1786710647000000 := by
    constructor
    · exact ⟨by decide, by decide⟩
    · exact ⟨by decide, by decide⟩
  exact ⟨hstate _ _ _ _ _ _ hrange.1 hrange.2 rfl, hstate _ _ _ _ _ _ hrange.1 hrange.2 rfl,
    hkey 7 7 1 1 "hash" "hash" rfl⟩

end Dropwatch.Keys
