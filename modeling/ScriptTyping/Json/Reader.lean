import ScriptTyping.Json.Failure
import ScriptTyping.Json.Value
import ScriptTyping.Text.Quoting

/-! # Reading JSON

Besides the standard's values, `NaN`, `Infinity` and `-Infinity` are numbers. The last of several
fields with one name counts, at the place of the first. Numeric escapes in a string spell units of
UTF-16, so two of them may make up one character. A name has no unpaired surrogates: they are
replaced.
-/
namespace ScriptTyping.Json

def shortEscape? (c : Char) : Option Char :=
  match c with
  | '\x22' => some '\x22'
  | '\\' => some '\\'
  | '/' => some '/'
  | 'b' => some '\x08'
  | 'f' => some '\x0c'
  | 'n' => some '\n'
  | 'r' => some '\r'
  | 't' => some '\t'
  | _ => none

def unit? (a b c d : Char) : Option Nat := do
  let a ← Text.hexValue? a
  let b ← Text.hexValue? b
  let c ← Text.hexValue? c
  let d ← Text.hexValue? d
  return ((a * 16 + b) * 16 + c) * 16 + d

/-- The units of a literal up to its closing quote, and the text after it. The first argument is the
text from the opening quote on. At least one character has to follow the digits of a numeric
escape. -/
def readString (opening : List Char) : List Char → Except Stop (List Nat × List Char)
  | [] => .error ⟨.unterminatedString, opening⟩
  | '\x22' :: rest => .ok ([], rest)
  | '\\' :: [] => .error ⟨.unterminatedString, opening⟩
  | '\\' :: 'u' :: a :: b :: c :: d :: next :: rest =>
    match unit? a b c d with
    | some n => (readString opening (next :: rest)).map fun (units, after) => (n :: units, after)
    | none => .error ⟨.unicodeEscape, 'u' :: a :: b :: c :: d :: next :: rest⟩
  | '\\' :: 'u' :: rest => .error ⟨.unicodeEscape, 'u' :: rest⟩
  | '\\' :: c :: rest =>
    match shortEscape? c with
    | some decoded =>
      (readString opening rest).map fun (units, after) => (decoded.toNat :: units, after)
    | none => .error ⟨.escape, '\\' :: c :: rest⟩
  | c :: rest =>
    if c < ' ' then .error ⟨.controlCharacter, c :: rest⟩
    else (readString opening rest).map fun (units, after) => (c.toNat :: units, after)

def isBlank (c : Char) : Bool := c == ' ' || c == '\t' || c == '\n' || c == '\r'

def skipBlanks (cs : List Char) : List Char := cs.dropWhile isBlank

def spanDigits (cs : List Char) : List Char × List Char :=
  (cs.takeWhile Char.isDigit, cs.dropWhile Char.isDigit)

/-- The digits after a point, and the text after them, if there are any. -/
def spanFraction (cs : List Char) : List Char × List Char :=
  match cs with
  | '.' :: rest => if (spanDigits rest).1.isEmpty then ([], cs) else spanDigits rest
  | _ => ([], cs)

def spanExponent (cs : List Char) : Option Int × List Char :=
  match cs with
  | c :: rest =>
    if c == 'e' || c == 'E' then
      let (negative, tail) := Numeral.splitSign rest
      let (digits, after) := spanDigits tail
      match Numeral.natural? 10 digits with
      | some n => (some (Numeral.negateIf negative n), after)
      | none => (none, cs)
    else (none, cs)
  | [] => (none, cs)

/-- The digits before the point: a zero, or a run that starts with none. -/
def spanWhole (cs : List Char) : List Char × List Char :=
  match cs with
  | '0' :: rest => (['0'], rest)
  | cs => spanDigits cs

def readNumber (start : List Char) : Except Stop (Json × List Char) :=
  let (negative, unsigned) :=
    match start with
    | '-' :: rest => (true, rest)
    | cs => (false, cs)
  let (whole, afterWhole) := spanWhole unsigned
  let (fraction, afterFraction) := spanFraction afterWhole
  let (exponent, after) := spanExponent afterFraction
  match Numeral.natural? 10 (whole ++ fraction) with
  | none => .error ⟨.value, start⟩
  | some n =>
    if whole.isEmpty then .error ⟨.value, start⟩
    else if fraction.isEmpty && exponent.isNone then
      if Numeral.maxDigits < whole.length then .error ⟨.tooManyDigits whole.length, start⟩
      else .ok (.int (Numeral.negateIf negative n), after)
    else
      let x := Decimal.nearest n (exponent.getD 0 - fraction.length)
      .ok (.float (if negative then -x else x), after)

def words : List (String × Json) :=
  [("null", .null), ("true", .bool true), ("false", .bool false), ("NaN", .float (0.0 / 0.0)),
   ("Infinity", .float (1.0 / 0.0)), ("-Infinity", .float (-1.0 / 0.0))]

def readWord (cs : List Char) : Option (Json × List Char) :=
  (words.find? fun w => w.1.toList.isPrefixOf cs).map fun w => (w.2, cs.drop w.1.length)

mutual

/-- Reads a value. Each nested value and each entry of a list or an object takes one unit of the
first argument, and one character of the text at least. -/
def readValue : Nat → List Char → Except Stop (Json × List Char)
  | 0, cs => .error ⟨.value, cs⟩
  | fuel + 1, cs =>
    match cs with
    | '\x22' :: rest =>
      (readString cs rest).map fun (units, after) => (.string (Wording.ofUnits units), after)
    | '[' :: rest =>
      match skipBlanks rest with
      | ']' :: after => .ok (.list [], after)
      | items => (readItems fuel items).map fun (values, after) => (.list values, after)
    | '\x7b' :: rest =>
      match skipBlanks rest with
      | '\x7d' :: after => .ok (.object [], after)
      | entries =>
        (readEntries fuel entries).map fun (pairs, after) =>
          (.object (Fields.ofPairs pairs), after)
    | cs =>
      match readWord cs with
      | some (value, after) => .ok (value, after)
      | none => readNumber cs

def readItems : Nat → List Char → Except Stop (List Json × List Char)
  | 0, cs => .error ⟨.value, cs⟩
  | fuel + 1, cs =>
    (readValue fuel cs).bind fun (value, afterValue) =>
      match skipBlanks afterValue with
      | ']' :: after => .ok ([value], after)
      | ',' :: rest =>
        (readItems fuel (skipBlanks rest)).map fun (values, after) => (value :: values, after)
      | other => .error ⟨.comma, other⟩

def readEntries : Nat → List Char → Except Stop (List (String × Json) × List Char)
  | 0, cs => .error ⟨.value, cs⟩
  | fuel + 1, cs =>
    match cs with
    | '\x22' :: rest =>
      (readString cs rest).bind fun (name, afterName) =>
        match skipBlanks afterName with
        | ':' :: afterColon =>
          (readValue fuel (skipBlanks afterColon)).bind fun (value, afterValue) =>
            let entry := ((Wording.ofUnits name).replaced, value)
            match skipBlanks afterValue with
            | '\x7d' :: after => .ok ([entry], after)
            | ',' :: rest =>
              (readEntries fuel (skipBlanks rest)).map fun (entries, after) =>
                (entry :: entries, after)
            | other => .error ⟨.comma, other⟩
        | other => .error ⟨.colon, other⟩
    | other => .error ⟨.propertyName, other⟩

end

/-- Reads a whole text: one value with blanks around it. -/
def readText (cs : List Char) : Except Stop Json :=
  if cs.head? == some '\ufeff' then .error ⟨.byteOrderMark, cs⟩
  else
    (readValue (2 * cs.length + 2) (skipBlanks cs)).bind fun (value, after) =>
      match skipBlanks after with
      | [] => .ok value
      | rest => .error ⟨.extraData, rest⟩

def read (text : String) : Except ReadError Json :=
  let cs := text.toList
  (readText cs).mapError (ReadError.ofStop cs)

end ScriptTyping.Json
