import ScriptTyping.Numeral

/-! # Failures of reading JSON

A reader stops with a cause and the text from the place of the failure on. Against the whole text
this gives the place as line, column and offset.
-/
namespace ScriptTyping.Json

inductive Cause where
  | value
  | propertyName
  | colon
  | comma
  | extraData
  | unterminatedString
  | controlCharacter
  | escape
  | unicodeEscape
  | byteOrderMark
  | tooManyDigits (count : Nat)
deriving DecidableEq, Repr

namespace Cause

def text : Cause → String
  | value => "Expecting value"
  | propertyName => "Expecting property name enclosed in double quotes"
  | colon => "Expecting ':' delimiter"
  | comma => "Expecting ',' delimiter"
  | extraData => "Extra data"
  | unterminatedString => "Unterminated string starting at"
  | controlCharacter => "Invalid control character at"
  | escape => "Invalid \\escape"
  | unicodeEscape => "Invalid \\uXXXX escape"
  | byteOrderMark => "Unexpected UTF-8 BOM (decode using utf-8-sig)"
  | tooManyDigits count =>
    "Exceeds the limit (" ++ toString Numeral.maxDigits ++
      " digits) for integer string conversion: value has " ++ toString count ++
      " digits; use sys.set_int_max_str_digits() to increase the limit"

/-- Whether the text is well formed and only too large. -/
def isLimit : Cause → Bool
  | tooManyDigits _ => true
  | _ => false

end Cause

/-- A failure: its cause, and the text from its place on. -/
structure Stop where
  cause : Cause
  rest : List Char

/-- A failure with its place. Line and column count from one, the offset counts characters. -/
structure ReadError where
  cause : Cause
  offset : Nat
  line : Nat
  column : Nat
deriving DecidableEq, Repr

namespace ReadError

def ofStop (text : List Char) (stop : Stop) : ReadError :=
  let before := text.take (text.length - stop.rest.length)
  { cause := stop.cause
    offset := before.length
    line := before.count '\n' + 1
    column := (before.reverse.takeWhile (· != '\n')).length + 1 }

def message (e : ReadError) : String :=
  if e.cause.isLimit then e.cause.text
  else
    e.cause.text ++ ": line " ++ toString e.line ++ " column " ++ toString e.column ++
      " (char " ++ toString e.offset ++ ")"

end ReadError

end ScriptTyping.Json
