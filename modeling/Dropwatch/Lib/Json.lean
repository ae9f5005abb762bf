import Mathlib.Logic.Basic

/-! # JSON texts

    `Json.loads` reads a text the way a permissive loader does: the grammar of
    the standard, `NaN` and the infinities, the last of two equal keys wins.  It
    is a lexer and a pushdown parser, each one pass over its input.  A loader that
    descends into the text with its own stack gives up on one that nests too deep:
    `limit` is how many arrays and objects may be open at once, and whatever is
    wrong first in the text is what is reported.  A lone surrogate escape, which
    has no character here, becomes the replacement character. -/

namespace Json

/-- A JSON value; numbers keep their text. -/
inductive Value where
  | null
  | bool (b : Bool)
  | num (text : String)
  | str (s : String)
  | arr (items : List Value)
  | obj (entries : List (String × Value))

/-- Why a text is not read: it is no JSON, or it nests too deep. -/
inductive LoadError where
  | decode
  | recursion
  deriving DecidableEq

/-! ## Tokens -/

inductive Token where
  | open (square : Bool)
  | close (square : Bool)
  | colon
  | comma
  | str (s : List Char)
  | atom (s : List Char)
  /-- What is no token. -/
  | invalid
  deriving DecidableEq

/-- The lexer's state: between tokens, inside a string (its code units collected
    backwards), after a backslash, inside a `\u` escape, inside a number or a word,
    behind what is no token. -/
inductive Lex where
  | start
  | inString (acc : List Nat)
  | escape (acc : List Nat)
  | unicode (left code : Nat) (acc : List Nat)
  | inAtom (acc : List Char)
  | dead

def isBlank (c : Char) : Bool := c == ' ' || c == '\t' || c == '\n' || c == '\r'

def isAtomChar (c : Char) : Bool := c.isAlphanum || c == '-' || c == '+' || c == '.'

/-- The character an escape letter stands for. -/
def escapeChar (c : Char) : Option Char :=
  if c == '"' || c == '\\' || c == '/' then some c
  else if c == 'b' then some (Char.ofNat 8)
  else if c == 'f' then some (Char.ofNat 12)
  else if c == 'n' then some '\n'
  else if c == 'r' then some '\r'
  else if c == 't' then some '\t'
  else none

def hexValue (c : Char) : Option Nat :=
  if '0' ≤ c ∧ c ≤ '9' then some (c.toNat - 48)
  else if 'a' ≤ c ∧ c ≤ 'f' then some (c.toNat - 87)
  else if 'A' ≤ c ∧ c ≤ 'F' then some (c.toNat - 55)
  else none

/-- The character of a code unit; half of a surrogate pair has none. -/
def unitChar (unit : Nat) : Char :=
  if 0xD800 ≤ unit ∧ unit < 0xE000 then Char.ofNat 0xFFFD else Char.ofNat unit

/-- The two halves of a surrogate pair, next to each other, are one character. -/
def unitChars : List Nat → List Char
  | high :: low :: rest =>
      if 0xD800 ≤ high ∧ high < 0xDC00 ∧ 0xDC00 ≤ low ∧ low < 0xE000 then
        Char.ofNat (0x10000 + (high - 0xD800) * 0x400 + (low - 0xDC00)) :: unitChars rest
      else unitChar high :: unitChars (low :: rest)
  | [unit] => [unitChar unit]
  | [] => []

/-- A character read between tokens: the token it is, or the state it opens. -/
def lexStart (c : Char) : List Token × Lex :=
  if isBlank c then ([], .start)
  else if c == '{' then ([.open false], .start)
  else if c == '}' then ([.close false], .start)
  else if c == '[' then ([.open true], .start)
  else if c == ']' then ([.close true], .start)
  else if c == ':' then ([.colon], .start)
  else if c == ',' then ([.comma], .start)
  else if c == '"' then ([], .inString [])
  else if isAtomChar c then ([], .inAtom [c])
  else ([.invalid], .dead)

/-- One character. -/
def lexStep (st : Lex) (c : Char) : List Token × Lex :=
  match st with
  | .start => lexStart c
  | .inString acc =>
      if c == '"' then ([.str (unitChars acc.reverse)], .start)
      else if c == '\\' then ([], .escape acc)
      else if c.toNat < 32 then ([.invalid], .dead)
      else ([], .inString (c.toNat :: acc))
  | .escape acc =>
      if c == 'u' then ([], .unicode 3 0 acc)
      else
        match escapeChar c with
        | none => ([.invalid], .dead)
        | some e => ([], .inString (e.toNat :: acc))
  | .unicode left code acc =>
      match hexValue c with
      | none => ([.invalid], .dead)
      | some d =>
          ([], match left with
            | 0 => .inString ((code * 16 + d) :: acc)
            | n + 1 => .unicode n (code * 16 + d) acc)
  | .inAtom acc =>
      if isAtomChar c then ([], .inAtom (c :: acc))
      else (.atom acc.reverse :: (lexStart c).1, (lexStart c).2)
  | .dead => ([], .dead)

/-- The tokens of a text, up to the first that is none. -/
def lex : Lex → List Char → List Token
  | .start, [] => []
  | .inAtom acc, [] => [.atom acc.reverse]
  | .dead, [] => []
  | _, [] => [.invalid]
  | st, c :: cs => (lexStep st c).1 ++ lex (lexStep st c).2 cs

/-! ## Atoms -/

/-- A nonempty run of digits. -/
def allDigits (cs : List Char) : Bool := !cs.isEmpty && cs.all Char.isDigit

/-- `e5`, `E+5` or nothing. -/
def validExponent : List Char → Bool
  | [] => true
  | e :: sign :: rest =>
      (e == 'e' || e == 'E')
        && (if sign == '+' || sign == '-' then allDigits rest else allDigits (sign :: rest))
  | [_] => false

def isExponentMark (c : Char) : Bool := c == 'e' || c == 'E'

/-- An unsigned number: an integer without a leading zero, perhaps a fraction,
    perhaps an exponent. -/
def validUnsigned (cs : List Char) : Bool :=
  let whole := cs.takeWhile Char.isDigit
  let rest := cs.dropWhile Char.isDigit
  (whole == ['0'] || (allDigits whole && whole.head? != some '0'))
    && (match rest with
      | '.' :: frac =>
          allDigits (frac.takeWhile Char.isDigit)
            && validExponent (frac.dropWhile Char.isDigit)
      | _ => validExponent rest)

/-- The digits `int` takes of a text. -/
def maxStrDigits : Nat := 4300

/-- An integer that `int` refuses. -/
def isLongInteger (cs : List Char) : Bool :=
  cs.all Char.isDigit && decide (maxStrDigits < cs.length)

/-- A word or a number; an integer too long is a `ValueError` as what is no atom is. -/
def atomValue (cs : List Char) : Option Value :=
  let s := String.ofList cs
  if s = "null" then some .null
  else if s = "true" then some (.bool true)
  else if s = "false" then some (.bool false)
  else if s = "NaN" ∨ s = "Infinity" ∨ s = "-Infinity" then some (.num s)
  else
    match cs with
    | '-' :: rest =>
        if validUnsigned rest && !isLongInteger rest then some (.num s) else none
    | _ => if validUnsigned cs && !isLongInteger cs then some (.num s) else none

/-! ## The parser -/

/-- An open array or object, its content collected backwards. -/
inductive Frame where
  | arr (items : List Value)
  | obj (entries : List (String × Value)) (key : String)

/-- What the parser expects next. -/
inductive Mode where
  | value
  | valueOrClose
  | key (entries : List (String × Value)) (first : Bool)
  | colon (entries : List (String × Value)) (key : String)
  | next (frame : Frame)
  | finished (v : Value)

/-- A value is complete: it belongs to the innermost open frame. -/
def complete (v : Value) : List Frame → Mode × List Frame
  | [] => (.finished v, [])
  | .arr items :: rest => (.next (.arr (v :: items)), rest)
  | .obj entries key :: rest => (.next (.obj ((key, v) :: entries) key), rest)

/-- A token that begins a value. -/
def beginValue (t : Token) (stack : List Frame) : Option (Mode × List Frame) :=
  match t with
  | .open true => some (.valueOrClose, .arr [] :: stack)
  | .open false => some (.key [] true, stack)
  | .str s => some (complete (.str (String.ofList s)) stack)
  | .atom s => (atomValue s).map (fun v => complete v stack)
  | _ => none

/-- One token. -/
def parseStep (st : Mode × List Frame) (t : Token) : Option (Mode × List Frame) :=
  match st, t with
  | (.valueOrClose, .arr items :: stack), .close true =>
      some (complete (.arr items.reverse) stack)
  | (.value, stack), t => beginValue t stack
  | (.valueOrClose, stack), t => beginValue t stack
  | (.key entries true, stack), .close false => some (complete (.obj entries) stack)
  | (.key entries _, stack), .str k => some (.colon entries (String.ofList k), stack)
  | (.colon entries k, stack), .colon => some (.value, .obj entries k :: stack)
  | (.next (.arr items), stack), .comma => some (.value, .arr items :: stack)
  | (.next (.arr items), stack), .close true => some (complete (.arr items.reverse) stack)
  | (.next (.obj entries _), stack), .comma => some (.key entries false, stack)
  | (.next (.obj entries _), stack), .close false => some (complete (.obj entries) stack)
  | _, _ => none

/-- A token that opens an array or object inside as many as may be open. -/
def tooDeep (limit : Nat) (st : Mode × List Frame) (t : Token) : Bool :=
  match st, t with
  | (.value, stack), .open _ => decide (limit ≤ stack.length)
  | (.valueOrClose, stack), .open _ => decide (limit ≤ stack.length)
  | _, _ => false

def parse (limit : Nat) : Mode × List Frame → List Token → Except LoadError Value
  | (.finished v, []), [] => .ok v
  | _, [] => .error .decode
  | st, t :: ts =>
      if tooDeep limit st t then .error .recursion
      else
        match parseStep st t with
        | none => .error .decode
        | some st' => parse limit st' ts

/-- `json.loads(text)` -/
def loads (limit : Nat) (text : String) : Except LoadError Value :=
  parse limit (.value, []) (lex .start text.toList)

end Json
