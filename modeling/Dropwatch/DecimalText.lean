import Dropwatch.KeyProofs
import Dropwatch.Kraken

/-! # Decimals as text

    `Decimal(text)` reads what Kraken's ticker and the fixture spell out.  A decimal
    keeps sign, coefficient and exponent, and so does its text: `ofString_str` is the
    round trip through `str`, whatever the notation. -/

namespace Dropwatch.Decimal

open Keys
open Kraken (strip)

/-! ## Reading -/

/-- The exponent after a number, if there is one. -/
def readExponent : List Char → Option Int
  | [] => some 0
  | mark :: sign :: rest =>
      if Json.isExponentMark mark then
        if sign = '-' then
          if Json.allDigits rest then some (-(Nat.ofDigitChars 10 rest 0 : Int)) else none
        else if sign = '+' then
          if Json.allDigits rest then some (Nat.ofDigitChars 10 rest 0 : Int) else none
        else if Json.allDigits (sign :: rest) then some (Nat.ofDigitChars 10 (sign :: rest) 0 : Int)
        else none
      else none
  | [_] => none

/-- The digits after a point, if there is one, and what follows them. -/
def readFraction : List Char → List Char × List Char
  | '.' :: rest => (rest.takeWhile Char.isDigit, rest.dropWhile Char.isDigit)
  | rest => ([], rest)

/-- An unsigned number: digits around a point, at least one of them, and an exponent. -/
def readNumber (negative : Bool) (cs : List Char) : Option Decimal :=
  let whole := cs.takeWhile Char.isDigit
  let (frac, rest) := readFraction (cs.dropWhile Char.isDigit)
  if whole.isEmpty && frac.isEmpty then none
  else
    (readExponent rest).map (fun exp =>
      ⟨negative, Nat.ofDigitChars 10 (whole ++ frac) 0, exp - frac.length⟩)

/-- `Decimal(text)`, for the ASCII digits and finite numbers; `none` is an
    `InvalidOperation`. -/
def ofString (text : String) : Option Decimal :=
  match (strip text).toList.filter (· != '_') with
  | '-' :: rest => readNumber true rest
  | '+' :: rest => readNumber false rest
  | cs => readNumber false cs

/-! ## Floats

    A number of a document that is more than an integer comes as a float, and `Decimal`
    writes that out. -/

/-- More than digits and a minus spells the number. -/
def isFloatText (text : String) : Bool := text.toList.any (fun c => !c.isDigit && c != '-')

/-- The binary64 closest to a number that is not negative, ties to even; `none` is
    infinity. -/
def nearestFloat (q : ℚ) : Option ℚ :=
  let ulp : ℚ := 2 ^ max (Int.log 2 q - 52) (-1074)
  let f := roundHalfEven (q / ulp) * ulp
  if f < 2 ^ 1024 then some f else none

/-- `Decimal(float(text))`, for finite floats. -/
def ofFloatText (text : String) : Option Decimal :=
  (ofString text).bind (fun d =>
    (nearestFloat |d.toRat|).map (fun f =>
      ⟨d.negative, f.num.toNat * 5 ^ f.den.log2, -(f.den.log2 : Int)⟩))

example : ofFloatText "-0.3"
      = some ⟨true, 299999999999999988897769753748434595763683319091796875, -54⟩
    ∧ ofFloatText "1e400" = none ∧ ofFloatText "1E2" = some ⟨false, 100, 0⟩ := by
  decide +kernel

/-! ## The round trip -/

theorem isDigit_bounds {c : Char} (h : c.isDigit = true) : 48 ≤ c.toNat ∧ c.toNat ≤ 57 := by
  rw [Char.isDigit, Bool.and_eq_true, decide_eq_true_iff, decide_eq_true_iff] at h
  exact ⟨UInt32.le_iff_toNat_le.mp h.1, UInt32.le_iff_toNat_le.mp h.2⟩

/-- A character that the reader neither strips nor skips. -/
theorem plain_of_mem_str {d : Decimal} {c : Char} (h : c ∈ d.str.toList) :
    Poller.isSpace c = false ∧ (c != '_') = true := by
  rcases mem_str h with h | rfl | rfl | rfl | rfl
  · obtain ⟨hlow, hhigh⟩ := isDigit_bounds h
    constructor
    · simp only [Poller.isSpace, Bool.or_eq_false_iff, Bool.and_eq_false_iff,
        decide_eq_false_iff_not, beq_eq_false_iff_ne]
      omega
    · rw [bne_iff_ne]
      rintro rfl
      exact absurd hhigh (by decide)
  all_goals decide

/-- A text without blanks is not stripped. -/
theorem strip_of_plain {text : String} (h : ∀ c ∈ text.toList, Poller.isSpace c = false) :
    strip text = text := by
  have hnone : ∀ cs : List Char, (∀ c ∈ cs, Poller.isSpace c = false) →
      cs.dropWhile Poller.isSpace = cs := by
    intro cs hcs
    cases cs with
    | nil => rfl
    | cons c rest => rw [List.dropWhile_cons_of_neg (by rw [hcs c List.mem_cons_self]; decide)]
  show String.ofList (((text.toList.dropWhile Poller.isSpace).reverse.dropWhile
    Poller.isSpace).reverse) = text
  rw [hnone _ h, hnone _ (fun c hc => h c (List.mem_reverse.mp hc)), List.reverse_reverse,
    String.ofList_toList]

/-- What `Decimal` reads of a printed decimal are its characters. -/
theorem chars_str (d : Decimal) : (strip d.str).toList.filter (· != '_') = d.str.toList := by
  rw [strip_of_plain (fun c hc => (plain_of_mem_str hc).1)]
  exact List.filter_eq_self.mpr (fun c hc => (plain_of_mem_str hc).2)

/-- Digits end where something else begins. -/
theorem takeWhile_digits {ds rest : List Char} (hds : ∀ c ∈ ds, c.isDigit = true)
    (hrest : ∀ c, rest.head? = some c → c.isDigit = false) :
    (ds ++ rest).takeWhile Char.isDigit = ds ∧ (ds ++ rest).dropWhile Char.isDigit = rest := by
  rw [List.takeWhile_append_of_pos hds, List.dropWhile_append_of_pos hds]
  cases rest with
  | nil => exact ⟨List.append_nil ds, rfl⟩
  | cons c cs =>
      have hc := hrest c rfl
      rw [List.takeWhile_cons_of_neg (by rw [hc]; decide),
        List.dropWhile_cons_of_neg (by rw [hc]; decide), List.append_nil]
      exact ⟨rfl, rfl⟩

theorem readExponent_head {rest : List Char} {e : Int} (h : readExponent rest = some e) :
    ∀ c, rest.head? = some c → c.isDigit = false ∧ c ≠ '.' := by
  intro c hc
  match rest with
  | [] => cases hc
  | [_] => cases h
  | mark :: sign :: more =>
      obtain rfl := Option.some.inj hc
      rw [readExponent] at h
      split at h
      · rename_i hmark
        rw [Json.isExponentMark, Bool.or_eq_true, beq_iff_eq, beq_iff_eq] at hmark
        rcases hmark with rfl | rfl
        · decide
        · decide
      · cases h

/-- A number without a point. -/
theorem readNumber_whole (negative : Bool) {ds rest : List Char} {e : Int} (hne : ds ≠ [])
    (hds : ∀ c ∈ ds, c.isDigit = true) (hrest : readExponent rest = some e) :
    readNumber negative (ds ++ rest) = some ⟨negative, Nat.ofDigitChars 10 ds 0, e⟩ := by
  obtain ⟨htake, hdrop⟩ := takeWhile_digits hds (fun c hc => (readExponent_head hrest c hc).1)
  have hfrac : readFraction rest = ([], rest) := by
    cases rest with
    | nil => rfl
    | cons c cs =>
        have hc := (readExponent_head hrest c rfl).2
        rw [readFraction]
        intro more hmore
        exact hc (List.cons.inj hmore).1
  simp only [readNumber, htake, hdrop, hfrac, hrest]
  simp [hne]

/-- A number with a point. -/
theorem readNumber_point (negative : Bool) {whole frac rest : List Char} {e : Int}
    (hne : whole ≠ []) (hwhole : ∀ c ∈ whole, c.isDigit = true)
    (hfrac : ∀ c ∈ frac, c.isDigit = true) (hrest : readExponent rest = some e) :
    readNumber negative (whole ++ '.' :: (frac ++ rest))
      = some ⟨negative, Nat.ofDigitChars 10 (whole ++ frac) 0, e - frac.length⟩ := by
  obtain ⟨htake, hdrop⟩ := @takeWhile_digits whole ('.' :: (frac ++ rest)) hwhole
    (fun c hc => by rw [← Option.some.inj hc]; decide)
  obtain ⟨htake', hdrop'⟩ := takeWhile_digits hfrac
    (fun c hc => (readExponent_head hrest c hc).1)
  simp only [readNumber, htake, hdrop, readFraction, htake', hdrop', hrest]
  simp [hne]

/-- The exponent that `str` prints, for a point that stands at `dot`. -/
theorem readExponent_str (left dot : Int) :
    readExponent (if left = dot then []
      else 'E' :: (if left < dot then '-' else '+') :: digits (left - dot).natAbs)
      = some (left - dot) := by
  have hdigits : Json.allDigits (digits (left - dot).natAbs) = true := by
    rw [Json.allDigits, Bool.and_eq_true, List.all_eq_true]
    exact ⟨by simpa using digits_ne_nil _, fun c hc => isDigit_of_mem_digits hc⟩
  have hvalue : Nat.ofDigitChars 10 (digits (left - dot).natAbs) 0 = (left - dot).natAbs := by
    rw [digits_eq, Nat.ofDigitChars_ten_toDigits]
  have hmark : Json.isExponentMark 'E' = true := rfl
  by_cases heq : left = dot
  · rw [if_pos heq, heq, Int.sub_self]
    rfl
  · rw [if_neg heq]
    by_cases hlt : left < dot
    · rw [if_pos hlt, readExponent, if_pos hmark, if_pos rfl, if_pos hdigits, hvalue,
        Option.some_inj]
      omega
    · rw [if_neg hlt, readExponent, if_pos hmark, if_neg (by decide), if_pos rfl,
        if_pos hdigits, hvalue, Option.some_inj]
      omega

/-- The digits with the point of `str` among them read as the number; they begin with a
    digit. -/
theorem readNumber_body {d : Decimal} {left dot : Int} {rest : List Char}
    (hleft : left = d.exp + (digits d.coeff).length)
    (hdot : dot = if d.exp ≤ 0 ∧ -6 < left then left else 1)
    (hrest : readExponent rest = some (left - dot)) {body : List Char}
    (hbody : body = if dot ≤ 0 then
            '0' :: '.' :: (List.replicate (-dot).toNat '0' ++ digits d.coeff)
          else if ((digits d.coeff).length : Int) ≤ dot then
            digits d.coeff ++ List.replicate (dot - (digits d.coeff).length).toNat '0'
          else (digits d.coeff).take dot.toNat ++ '.' :: (digits d.coeff).drop dot.toNat)
    (negative : Bool) :
    readNumber negative (body ++ rest) = some ⟨negative, d.coeff, d.exp⟩
      ∧ ∃ c cs, body ++ rest = c :: cs ∧ c.isDigit = true := by
  have hds : ∀ c ∈ digits d.coeff, c.isDigit = true := fun c hc => isDigit_of_mem_digits hc
  have hvalue : Nat.ofDigitChars 10 (digits d.coeff) 0 = d.coeff := by
    rw [digits_eq, Nat.ofDigitChars_ten_toDigits]
  obtain ⟨c₀, ds₀, hcons⟩ := List.exists_cons_of_ne_nil (digits_ne_nil d.coeff)
  have hc₀ : c₀.isDigit = true := hds c₀ (by rw [hcons]; exact List.mem_cons_self)
  have hlen : 0 < (digits d.coeff).length := by rw [hcons]; exact Nat.succ_pos _
  by_cases hsmall : dot ≤ 0
  · -- The point comes before the digits, after zeros that count for nothing.
    rw [if_pos hsmall] at hbody
    have hzeros : ∀ c ∈ List.replicate (-dot).toNat '0' ++ digits d.coeff, c.isDigit = true := by
      intro c hc
      rcases List.mem_append.mp hc with hz | hd
      · rw [List.eq_of_mem_replicate hz]
        decide
      · exact hds c hd
    have hread := @readNumber_point negative ['0'] _ _ _ (by simp)
      (List.all_eq_true.mp (by decide)) hzeros hrest
    subst hbody
    refine ⟨?_, '0', _, rfl, by decide⟩
    refine hread.trans ?_
    have hsum : Nat.ofDigitChars 10 ('0' :: (List.replicate (-dot).toNat '0' ++ digits d.coeff)) 0
        = d.coeff := by
      rw [← List.cons_append, ← List.replicate_succ, Nat.ofDigitChars_append,
        Nat.ofDigitChars_replicate_zero, Nat.mul_zero, hvalue]
    have hexp : left - dot - ((List.replicate (-dot).toNat '0' ++ digits d.coeff).length : Int)
        = d.exp := by
      rw [List.length_append, List.length_replicate]
      split at hdot <;> omega
    rw [List.singleton_append, hsum, hexp]
  · rw [if_neg hsmall] at hbody
    by_cases hlong : ((digits d.coeff).length : Int) ≤ dot
    · -- No point: the number is whole, or has one digit before its exponent.
      have hnone : (dot - (digits d.coeff).length).toNat = 0 ∧ left - dot = d.exp := by
        split at hdot <;> omega
      rw [if_pos hlong, hnone.1, List.replicate_zero, List.append_nil] at hbody
      subst hbody
      refine ⟨?_, c₀, ds₀ ++ rest, by rw [hcons]; rfl, hc₀⟩
      rw [readNumber_whole negative (digits_ne_nil _) hds hrest, hvalue, hnone.2]
    · rw [if_neg hlong] at hbody
      -- The point comes between two of the digits.
      have hpos : 0 < dot.toNat := by omega
      have htake : (digits d.coeff).take dot.toNat ≠ [] := by
        rw [hcons, ← Nat.succ_pred_eq_of_pos hpos, List.take_succ_cons]
        exact List.cons_ne_nil _ _
      have hread := @readNumber_point negative _ ((digits d.coeff).drop dot.toNat) _ _ htake
        (fun c hc => hds c (List.mem_of_mem_take hc))
        (fun c hc => hds c (List.mem_of_mem_drop hc)) hrest
      subst hbody
      rw [List.append_assoc, List.cons_append]
      refine ⟨?_, c₀, _, by rw [hcons, ← Nat.succ_pred_eq_of_pos hpos, List.take_succ_cons]; rfl,
        hc₀⟩
      refine hread.trans ?_
      have hexp : left - dot - (((digits d.coeff).drop dot.toNat).length : Int) = d.exp := by
        rw [List.length_drop]
        split at hdot <;> omega
      rw [List.take_append_drop, hvalue, hexp]

/-- The text of a decimal reads back as that decimal: sign, coefficient and exponent. -/
theorem ofString_str (d : Decimal) : ofString d.str = some d := by
  have hstr : d.str.toList = _ := String.toList_ofList
  obtain ⟨hread, c, rest, hcons, hc⟩ :=
    readNumber_body (d := d) rfl rfl (readExponent_str _ _) rfl d.negative
  rw [List.append_assoc, hcons] at hstr
  rw [hcons] at hread
  rw [ofString, chars_str, hstr]
  cases hneg : d.negative with
  | true =>
      rw [if_pos rfl]
      show readNumber true (c :: rest) = some d
      rw [← hneg, hread]
  | false =>
      rw [if_neg Bool.false_ne_true, List.nil_append]
      have hminus : c ≠ '-' := by rintro rfl; exact absurd hc (by decide)
      have hplus : c ≠ '+' := by rintro rfl; exact absurd hc (by decide)
      have hother : readNumber false (c :: rest) = some d := by rw [← hneg, hread]
      split
      · rename_i h
        exact absurd (List.cons.inj h).1 hminus
      · rename_i h
        exact absurd (List.cons.inj h).1 hplus
      · exact hother

end Dropwatch.Decimal
