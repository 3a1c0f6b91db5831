import ScriptTyping.Config.Variables
import ScriptTyping.Json.Value
import ScriptTyping.Numeral
import ScriptTyping.Text.Characters

/-! # Checks of single settings

Each check turns a given value into the value of a setting, or complains.
-/
namespace ScriptTyping

/-- What is wrong with the value given for a setting. -/
inductive Complaint where
  | notBoolean
  | unclearBoolean
  | notString
  | notUnicode
  | malformedVersion (version : String)
  | unknownProvider
  | notInteger
  | fractionalInteger
  | unclearInteger
  | oversizedInteger
  | infiniteInteger
  | notPositive
  | notList
  | notSection
  | withoutVariables (error : VariableError)
deriving DecidableEq, Repr

namespace Complaint

def code : Complaint → String
  | notBoolean => "bool_type"
  | unclearBoolean => "bool_parsing"
  | notString => "string_type"
  | notUnicode => "string_unicode"
  | malformedVersion _ => "value_error"
  | unknownProvider => "literal_error"
  | notInteger => "int_type"
  | fractionalInteger => "int_from_float"
  | unclearInteger => "int_parsing"
  | oversizedInteger => "int_parsing_size"
  | infiniteInteger => "finite_number"
  | notPositive => "greater_than"
  | notList => "list_type"
  | notSection => "model_type"
  | withoutVariables _ => "value_error"

def message : Complaint → String
  | notBoolean => "Input should be a valid boolean"
  | unclearBoolean => "Input should be a valid boolean, unable to interpret input"
  | notString => "Input should be a valid string"
  | notUnicode => "Input should be a valid string, unable to parse raw data as a unicode string"
  | malformedVersion version =>
    "Value error, target_ts_version must be in format \"X.Y\" (e.g., \"5.0\"): " ++ version
  | unknownProvider => "Input should be 'openai', 'anthropic' or 'local'"
  | notInteger => "Input should be a valid integer"
  | fractionalInteger => "Input should be a valid integer, got a number with a fractional part"
  | unclearInteger => "Input should be a valid integer, unable to parse string as an integer"
  | oversizedInteger => "Unable to parse input string as an integer, exceeded maximum size"
  | infiniteInteger => "Input should be a finite number"
  | notPositive => "Input should be greater than 0"
  | notList => "Input should be a valid list"
  | notSection => "Input should be a valid dictionary or instance of AISettings"
  | withoutVariables error => "Value error, " ++ error.message

end Complaint

structure Issue where
  setting : List String
  complaint : Complaint
deriving DecidableEq, Repr

inductive Provider where
  | openai
  | anthropic
  | selfHosted
deriving DecidableEq, Repr

def Provider.name : Provider → String
  | openai => "openai"
  | anthropic => "anthropic"
  | selfHosted => "local"

namespace Check

/-- The integer that a double is equal to, within the range of words of 64 bits. -/
def integerOfFloat (x : Float) : Except Complaint Int :=
  match Decimal.parts x with
  | .finite negative m q =>
    match (Decimal.Parts.finite negative m q).integer? with
    | some n => if n.natAbs < Nat.pow 2 63 then .ok n else .error .oversizedInteger
    | none => .error .fractionalInteger
  | _ => .error .infiniteInteger

def trueWords : List String := ["1", "true", "t", "yes", "y", "on"]

def falseWords : List String := ["0", "false", "f", "no", "n", "off"]

/-- Zero and one stand for the two booleans. Other integers could, if they fit in a word of 64
bits. -/
def boolOfInt (n : Int) : Except Complaint Bool :=
  if n == 0 then .ok false
  else if n == 1 then .ok true
  else if -(Nat.pow 2 63 : Int) ≤ n && n < Nat.pow 2 63 then .error .unclearBoolean
  else .error .notBoolean

def bool : Json → Except Complaint Bool
  | .bool b => .ok b
  | .int n => boolOfInt n
  | .float x =>
    match integerOfFloat x with
    | .ok n => boolOfInt n
    | .error _ => .error .notBoolean
  | .string (.plain s) =>
    if trueWords.contains s.toLower then .ok true
    else if falseWords.contains s.toLower then .ok false
    else .error .unclearBoolean
  | .string (.unpaired _) => .error .notUnicode
  | _ => .error .notBoolean

def string : Json → Except Complaint Wording
  | .string s => .ok s
  | _ => .error .notString

def secret : Json → Except Complaint (Option Wording)
  | .null => .ok none
  | .string s => .ok (some s)
  | _ => .error .notString

def isVersion (s : String) : Bool :=
  let major := s.toList.takeWhile (· != '.')
  match s.toList.dropWhile (· != '.') with
  | _ :: minor =>
    !major.isEmpty && major.all Text.isDigit && !minor.isEmpty && minor.all Text.isDigit
  | [] => false

def version (value : Json) : Except Complaint String :=
  (string value).bind fun
    | .plain s => if isVersion s then .ok s else .error (.malformedVersion s)
    | .unpaired points => .error (.malformedVersion (Wording.unpaired points).replaced)

def provider : Json → Except Complaint Provider
  | .string (.plain "openai") => .ok .openai
  | .string (.plain "anthropic") => .ok .anthropic
  | .string (.plain "local") => .ok .selfHosted
  | .string (.unpaired _) => .error .notUnicode
  | _ => .error .unknownProvider

/-! ## Integers in texts

A text that is not quite an integer is tidied first: blanks around it, a plus sign, leading zeros,
a fraction of zeros and underscores between digits do not count.
-/

def splitMinus : List Char → Bool × List Char
  | '-' :: rest => (true, rest)
  | cs => (false, cs)

/-- The integer that a text spells as it stands: a minus sign or none, and digits without leading
zeros, not too many. -/
def exactInteger? (cs : List Char) : Option Int :=
  let (negative, digits) := splitMinus cs
  if digits.all Char.isDigit && (digits == ['0'] || digits.head? != some '0') then
    (Numeral.decimal? digits).map fun n => Numeral.negateIf negative n
  else none

/-- Whether too many digits stand at the start of a text, whatever comes after them. -/
def hasExcessDigits (cs : List Char) : Bool :=
  let digits := (splitMinus cs).2.takeWhile Char.isDigit
  digits.head? != some '0' && Numeral.maxDigits < digits.length

/-- A plus sign does not count, unless a minus sign follows. -/
def dropPlus? : List Char → Option (List Char)
  | '+' :: '-' :: _ => none
  | '+' :: rest => some rest
  | cs => some cs

/-- The text after leading zeros and underscores, the first argument being the last of these. It is
kept before a point and at the end. -/
def skipZeros? : Char → List Char → Option (List Char)
  | last, [] => some [last]
  | last, c :: rest =>
    if c == '0' || c == '_' then skipZeros? c rest
    else if c == '.' then some (last :: c :: rest)
    else if c.isDigit || c == '-' then some (c :: rest)
    else none

def dropZeros? : List Char → Option (List Char)
  | [] => none
  | '0' :: rest => skipZeros? '0' rest
  | c :: rest => if c.isDigit || c == '-' then some (c :: rest) else none

/-- The text before a point that one or more zeros follow, and nothing else; any other text is kept
whole, also one that ends in its point. -/
def dropZeroFraction (cs : List Char) : List Char :=
  match cs.dropWhile (· != '.') with
  | _ :: fraction =>
    if !fraction.isEmpty && fraction.all (· == '0') then cs.takeWhile (· != '.') else cs
  | [] => cs

def hasDoubleUnderscore : List Char → Bool
  | '_' :: '_' :: _ => true
  | _ :: rest => hasDoubleUnderscore rest
  | [] => false

/-- The text without underscores, if they stand one by one and not at an end. -/
def joinGroups (cs : List Char) : List Char :=
  if cs.head? == some '_' || cs.getLast? == some '_' || hasDoubleUnderscore cs then cs
  else cs.filter (· != '_')

def tidy? (cs : List Char) : Option (List Char) :=
  ((dropPlus? (Text.trimBy Text.isBlank cs)).bind dropZeros?).map fun digits =>
    joinGroups (dropZeroFraction digits)

def integerOfText (s : String) : Except Complaint Int :=
  match exactInteger? s.toList with
  | some n => .ok n
  | none =>
    if hasExcessDigits s.toList then .error .oversizedInteger
    else
      match (tidy? s.toList).bind exactInteger? with
      | some n => .ok n
      | none => .error .unclearInteger

def integer : Json → Except Complaint Int
  | .bool b => .ok (if b then 1 else 0)
  | .int n => .ok n
  | .float x => integerOfFloat x
  | .string (.plain s) => integerOfText s
  | .string (.unpaired _) => .error .notUnicode
  | _ => .error .notInteger

def positive (value : Json) : Except Complaint Int :=
  (integer value).bind fun n => if 0 < n then .ok n else .error .notPositive

end Check

end ScriptTyping
