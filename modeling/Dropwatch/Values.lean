import Mathlib.Data.Rat.Floor
import Mathlib.Data.Int.Log
import Mathlib.Data.Nat.Digits.Defs

/-! # The Python values the program computes with

    `Decimal` keeps sign, coefficient and exponent, because two spellings of one
    number print differently and the printed form is hashed.  Arithmetic goes
    through `toRat` and is rounded to the default context's 28 digits
    (`context`); the context's exponent range (±999999) is not modelled.

    Instants are whole microseconds since the epoch in UTC, the resolution of
    both `datetime` and `timestamptz`.  Binary floating point, the C library's
    `log` and `expm1` and `hashlib` are a parameter, `Runtime`. -/

namespace Dropwatch

/-! ## Exceptions -/

/-- The exceptions the modelled code can raise by itself. -/
inductive PyError where
  | assertionError
  | attributeError
  | dataError
  | integrityError
  | invalidRequestError
  | keyError
  | recursionError
  | statisticsError
  | typeError
  | valueError
  | zeroDivisionError
  deriving DecidableEq, Repr

/-! ## Decimals -/

/-- A finite `decimal.Decimal`. -/
structure Decimal where
  negative : Bool
  coeff : Nat
  exp : Int
  deriving DecidableEq, Repr

namespace Decimal

/-- The number a decimal stands for. -/
def toRat (d : Decimal) : ℚ :=
  (if d.negative then -1 else 1) * (d.coeff : ℚ) * (10 : ℚ) ^ d.exp

/-- `d == 0`: comparison is by value, so every exponent counts. -/
def isZero (d : Decimal) : Bool := d.coeff == 0

/-- Rounding of ties to the even neighbour, `ROUND_HALF_EVEN`. -/
def roundHalfEven (q : ℚ) : Int :=
  if q - ⌊q⌋ < 1 / 2 then ⌊q⌋
  else if 1 / 2 < q - ⌊q⌋ then ⌊q⌋ + 1
  else if ⌊q⌋ % 2 = 0 then ⌊q⌋ else ⌊q⌋ + 1

/-- The result of an arithmetic operation in the default context: the exact
    value rounded to 28 significant digits. -/
def context (q : ℚ) : ℚ :=
  if q = 0 then 0
  else (roundHalfEven (q / (10 : ℚ) ^ (Int.log 10 |q| - 27)) : ℚ)
    * (10 : ℚ) ^ (Int.log 10 |q| - 27)

/-- `(b - a) / a * 100`, rounded by the context after each operation.  The
    callers have excluded `a == 0`. -/
def percentOf (a b : Decimal) : ℚ :=
  context (context (context (b.toRat - a.toRat) / a.toRat) * 100)

/-- `a * b`: the exact product, cut to 28 digits where it has more. -/
def mul (a b : Decimal) : Decimal :=
  let coeff := a.coeff * b.coeff
  let excess := (Nat.repr coeff).length - 28
  let rounded := (roundHalfEven ((coeff : ℚ) / 10 ^ excess)).toNat
  -- Rounding up may leave `1` and 28 zeros.
  if rounded = 10 ^ 28 then ⟨a.negative != b.negative, 10 ^ 27, a.exp + b.exp + excess + 1⟩
  else ⟨a.negative != b.negative, rounded, a.exp + b.exp + excess⟩

/-- Storing into a `Numeric(_, scale)` column: Postgres rounds to the column's
    scale, halves away from zero, and has no negative zero. -/
def numeric (scale : Nat) (d : Decimal) : Decimal :=
  let n := ⌊|d.toRat| * 10 ^ scale + 1 / 2⌋.toNat
  ⟨d.negative && n != 0, n, -scale⟩

theorem negative_iff {d : Decimal} (h : d.toRat ≠ 0) : d.negative = true ↔ d.toRat < 0 := by
  have hsize : (0 : ℚ) ≤ (d.coeff : ℚ) * (10 : ℚ) ^ d.exp :=
    mul_nonneg (Nat.cast_nonneg _) (zpow_nonneg (by norm_num) _)
  have hvalue : d.toRat = (if d.negative then -1 else 1) * ((d.coeff : ℚ) * (10 : ℚ) ^ d.exp) := by
    rw [toRat, mul_assoc]
  cases hn : d.negative with
  | true =>
      rw [hn, if_pos rfl, neg_one_mul] at hvalue
      refine iff_of_true rfl (lt_of_le_of_ne ?_ h)
      rw [hvalue]
      exact neg_nonpos.mpr hsize
  | false =>
      rw [hn, if_neg Bool.false_ne_true, one_mul] at hvalue
      refine iff_of_false Bool.false_ne_true (not_lt.mpr ?_)
      rw [hvalue]
      exact hsize

/-- A column keeps the number, not its spelling. -/
theorem numeric_congr {d p : Decimal} (h : d.toRat = p.toRat) (scale : Nat) :
    d.numeric scale = p.numeric scale := by
  rw [numeric, numeric, h]
  by_cases hp : p.toRat = 0
  · -- There is no negative zero.
    have hzero : ⌊|p.toRat| * 10 ^ scale + 1 / 2⌋.toNat = 0 := by
      rw [hp, abs_zero, zero_mul, zero_add]
      norm_num
    simp only [hzero, bne_self_eq_false, Bool.and_false]
  · have hsign : d.negative = p.negative := by
      rw [Bool.eq_iff_iff, negative_iff (h ▸ hp), negative_iff hp, h]
    rw [hsign]

/-- Decimal digits of a natural number. -/
def digits (n : Nat) : List Char := (Nat.repr n).toList

/-- `str(d)`: plain notation unless the exponent is positive or the number is
    below `1e-6`, and then one digit before the point. -/
def str (d : Decimal) : String :=
  let ds := digits d.coeff
  let leftdigits : Int := d.exp + ds.length
  let dotplace : Int := if d.exp ≤ 0 ∧ -6 < leftdigits then leftdigits else 1
  let body : List Char :=
    if dotplace ≤ 0 then '0' :: '.' :: (List.replicate (-dotplace).toNat '0' ++ ds)
    else if (ds.length : Int) ≤ dotplace then
      ds ++ List.replicate (dotplace - ds.length).toNat '0'
    else ds.take dotplace.toNat ++ '.' :: ds.drop dotplace.toNat
  let expo : List Char :=
    if leftdigits = dotplace then []
    else 'E' :: (if leftdigits < dotplace then '-' else '+')
      :: digits (leftdigits - dotplace).natAbs
  String.ofList ((if d.negative then ['-'] else []) ++ body ++ expo)

/-- `f"{q:.3f}"`, or `f"{q:+.3f}"` with `plus`, of an exact number. -/
def fixed3 (plus : Bool) (q : ℚ) : String :=
  let n := roundHalfEven (q * 1000)
  let ds := digits n.natAbs
  let padded := List.replicate (4 - ds.length) '0' ++ ds
  let sign := if n < 0 ∨ (n = 0 ∧ q < 0) then ['-'] else if plus then ['+'] else []
  String.ofList (sign ++ padded.take (padded.length - 3)
    ++ '.' :: padded.drop (padded.length - 3))

end Decimal

example : Decimal.str ⟨false, 15000, -2⟩ = "150.00" := by decide
example : Decimal.str ⟨false, 0, -8⟩ = "0E-8" := by decide
example : Decimal.str ⟨true, 15, 2⟩ = "-1.5E+3" := by decide

/-! ## Identifiers -/

/-- A `UUID`, as its 128-bit integer. -/
abbrev Uuid := Nat

/-- A lower-case hexadecimal digit. -/
def hexDigit (n : Nat) : Char :=
  if n < 10 then Char.ofNat (48 + n) else Char.ofNat (87 + n)

/-- The digits of a UUID, padded to 32. -/
def uuidHex (u : Uuid) : List Char :=
  let ds := (Nat.digits 16 u).map hexDigit
  (ds ++ List.replicate (32 - ds.length) '0').reverse

/-- `str(u)`: groups of 8, 4, 4, 4 and 12 digits. -/
def uuidStr (u : Uuid) : String :=
  let h := uuidHex u
  let n := h.length
  String.ofList (h.take (n - 24) ++ '-' :: (h.drop (n - 24)).take 4
    ++ '-' :: (h.drop (n - 20)).take 4 ++ '-' :: (h.drop (n - 16)).take 4
    ++ '-' :: h.drop (n - 12))

/-! ## Instants -/

/-- Microseconds since the epoch, UTC. -/
abbrev Instant := Int

/-- `timedelta(seconds=n)` in microseconds. -/
def seconds (n : Int) : Int := n * 1000000

/-- `observed_at.replace(second=0, microsecond=0)`. -/
def minuteBucket (t : Instant) : Instant := t / 60000000 * 60000000

/-- A number printed with at least `width` digits. -/
def zeroPad (width n : Nat) : String :=
  let ds := Decimal.digits n
  String.ofList (List.replicate (width - ds.length) '0' ++ ds)

/-- Year, month and day of a day number counted from 1970-01-01, by the
    proleptic Gregorian calendar in 400-year eras of 146097 days. -/
def civilFromDays (days : Int) : Int × Nat × Nat :=
  let z := days + 719468
  let era := z / 146097
  let doe := (z - era * 146097).toNat
  let yoe := (doe - doe / 1460 + doe / 36524 - doe / 146096) / 365
  let doy := doe - (365 * yoe + yoe / 4 - yoe / 100)
  let mp := (5 * doy + 2) / 153
  let m := if mp < 10 then mp + 3 else mp - 9
  (yoe + era * 400 + (if m ≤ 2 then 1 else 0), m, doy - (153 * mp + 2) / 5 + 1)

/-- `t.astimezone(UTC).isoformat()`. -/
def isoformat (t : Instant) : String :=
  let days := t / 86400000000
  let micros := (t - days * 86400000000).toNat
  let secs := micros / 1000000
  let (y, m, d) := civilFromDays days
  zeroPad 4 y.toNat ++ "-" ++ zeroPad 2 m ++ "-" ++ zeroPad 2 d ++ "T"
    ++ zeroPad 2 (secs / 3600) ++ ":" ++ zeroPad 2 (secs / 60 % 60) ++ ":"
    ++ zeroPad 2 (secs % 60)
    ++ (if micros % 1000000 = 0 then "" else "." ++ zeroPad 6 (micros % 1000000))
    ++ "+00:00"

example : isoformat 1786795205000000 = "2026-08-15T12:00:05+00:00" := by
  decide +kernel

/-! ## Floats and hashing -/

/-- The runtime under the program: binary floats with the operations used on
    them, `sha256(...).hexdigest()`, and how many arrays and objects `json.loads`
    goes into before the interpreter's `RecursionError`.  The operations that raise
    in Python (division, `log`, the statistics of an empty list) are guarded by the
    code that models them, so the fields here are total. -/
structure Runtime where
  F : Type
  zero : F
  ofDecimal : Decimal → F
  neg : F → F
  abs : F → F
  sub : F → F → F
  div : F → F → F
  /-- `x * 100` -/
  percent : F → F
  log : F → F
  expm1 : F → F
  fmean : List F → F
  stdev : List F → F
  lt : F → F → Bool
  /-- `repr(x)`, `f"{x:+.2f}"` and `f"{x:+.3f}"` -/
  repr : F → String
  fixed2 : F → String
  fixed3 : F → String
  sha256 : String → String
  nestingLimit : Nat
  nestingLimit_pos : 0 < nestingLimit

namespace Runtime

variable (rt : Runtime)

/-- `x == 0.0` for a float that is not a NaN. -/
def isZero (x : rt.F) : Bool := !rt.lt x rt.zero && !rt.lt rt.zero x

/-- `x <= y` for floats that are not NaNs. -/
def le (x y : rt.F) : Bool := !rt.lt y x

/-- `x / y`. -/
def divide (x y : rt.F) : Except PyError rt.F :=
  if rt.isZero y then .error .zeroDivisionError else .ok (rt.div x y)

/-- `math.log(x)`. -/
def mathLog (x : rt.F) : Except PyError rt.F :=
  if rt.lt rt.zero x then .ok (rt.log x) else .error .valueError

end Runtime

/-- A runtime that can be evaluated: exact rationals for the floats, the tangent
    `x - 1` for `log` with its own inverse for `expm1` (so that `expm1 (log x)`
    is `x - 1`, as in the reals), the mean absolute deviation for `stdev` (zero
    on the same lists), a hash without collisions, and a recursion limit of 1000 less
    the frames under the call. -/
def Runtime.rational : Runtime where
  F := ℚ
  zero := 0
  ofDecimal := Decimal.toRat
  neg := fun x => -x
  abs := fun x => if x < 0 then -x else x
  sub := fun x y => x - y
  div := fun x y => x / y
  percent := fun x => x * 100
  log := fun x => x - 1
  expm1 := fun x => x
  fmean := fun xs => xs.sum / xs.length
  stdev := fun xs =>
    (xs.map (fun x =>
      if x < xs.sum / xs.length then xs.sum / xs.length - x
      else x - xs.sum / xs.length)).sum / xs.length
  lt := fun x y => decide (x < y)
  repr := fun x => Decimal.fixed3 false x
  fixed2 := fun x => Decimal.fixed3 true x
  fixed3 := fun x => Decimal.fixed3 true x
  sha256 := fun text => text
  nestingLimit := 900
  nestingLimit_pos := by decide

end Dropwatch
