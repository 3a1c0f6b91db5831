import ScriptTyping.Decimal
import ScriptTyping.Text.Characters

/-! # Numerals as property names

A numeric property name stands for the number it spells: `0x10` and `16` name one property. An
integer numeral may have a base mark, a decimal one no leading zeros unless it is zero; any other
numeral is read as a double.
-/
namespace ScriptTyping.Numeral

/-- The most digits a decimal integer may have, read or written. -/
def maxDigits : Nat := 4300

def digitValue? (base : Nat) (c : Char) : Option Nat :=
  let value :=
    if '0' ≤ c ∧ c ≤ '9' then some (c.toNat - '0'.toNat)
    else if 'a' ≤ c ∧ c ≤ 'z' then some (c.toNat - 'a'.toNat + 10)
    else if 'A' ≤ c ∧ c ≤ 'Z' then some (c.toNat - 'A'.toNat + 10)
    else none
  value.filter (· < base)

/-- The value of digits read from the left, after those already worth `n`. -/
def accumulate (base : Nat) : Nat → List Char → Option Nat
  | n, [] => some n
  | n, c :: cs => (digitValue? base c).bind fun d => accumulate base (base * n + d) cs

def natural? (base : Nat) (cs : List Char) : Option Nat :=
  if cs.isEmpty then none else accumulate base 0 cs

/-- A decimal numeral of at most `maxDigits` digits, without leading zeros unless it is zero. -/
def decimal? (cs : List Char) : Option Nat :=
  if maxDigits < cs.length then none
  else (natural? 10 cs).filter fun n => n == 0 || cs.head? != some '0'

def unsigned? (cs : List Char) : Option Nat :=
  match cs with
  | '0' :: 'x' :: rest | '0' :: 'X' :: rest => natural? 16 rest
  | '0' :: 'o' :: rest | '0' :: 'O' :: rest => natural? 8 rest
  | '0' :: 'b' :: rest | '0' :: 'B' :: rest => natural? 2 rest
  | cs => decimal? cs

def splitSign : List Char → Bool × List Char
  | '-' :: rest => (true, rest)
  | '+' :: rest => (false, rest)
  | cs => (false, cs)

def negateIf (negative : Bool) (n : Int) : Int := if negative then -n else n

/-- Digits of every script count, and blanks around a numeral do not. -/
def normalize (cs : List Char) : List Char :=
  Text.trimBy Text.isBlank (cs.map Text.asciiDigit)

def integer? (cs : List Char) : Option Int :=
  let (negative, digits) := splitSign (normalize cs)
  (unsigned? digits).map fun n => negateIf negative n

def written? (n : Int) : Option String :=
  if maxDigits < Decimal.digitCount n.natAbs then none else some (toString n)

/-- The exponent after a mantissa; a mantissa alone has exponent zero. -/
def exponent? : List Char → Option Int
  | [] => some 0
  | c :: rest =>
    if c == 'e' || c == 'E' then
      let (negative, digits) := splitSign rest
      (natural? 10 digits).map fun n => negateIf negative n
    else none

/-- A decimal fraction without sign: digits, a point, digits, an exponent; one digit at least. -/
def fraction? (cs : List Char) : Option Float :=
  let whole := cs.takeWhile Char.isDigit
  let afterWhole := cs.dropWhile Char.isDigit
  let tail :=
    match afterWhole with
    | '.' :: rest => (rest.takeWhile Char.isDigit, rest.dropWhile Char.isDigit)
    | rest => ([], rest)
  (natural? 10 (whole ++ tail.1)).bind fun m =>
    (exponent? tail.2).map fun e => Decimal.nearest m (e - tail.1.length)

def double? (cs : List Char) : Option Float :=
  let (negative, body) := splitSign (normalize cs)
  let word := String.ofList (body.map Char.toLower)
  let size :=
    if word == "inf" || word == "infinity" then some (1.0 / 0.0)
    else if word == "nan" then some (0.0 / 0.0)
    else fraction? body
  size.map fun x => if negative then -x else x

def doubleKey (x : Float) : String :=
  match (Decimal.parts x).integer? with
  | some n => toString n
  | none => Decimal.Format.plain.write x

/-- The property name that a numeral stands for. Underscores are dropped, and a text that spells no
number stands for itself. -/
def key (text : String) : String :=
  let cs := text.toList.filter (· != '_')
  match (integer? cs).bind written? with
  | some s => s
  | none =>
    match double? cs with
    | some x => doubleKey x
    | none => String.ofList cs

end ScriptTyping.Numeral
