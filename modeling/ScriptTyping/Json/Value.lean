/-! # JSON values

Objects keep the order of their fields. Numbers written without a fraction or an exponent are
integers of any size, all others are doubles. A string can spell a surrogate that has no partner,
which is a code point, but no character.
-/
namespace ScriptTyping

/-- A text, or code points that no string can hold, with surrogates among them. -/
inductive Wording where
  | plain (s : String)
  | unpaired (points : List Nat)
deriving DecidableEq, Repr

instance : Coe String Wording := ⟨.plain⟩

namespace Wording

def isHighSurrogate (n : Nat) : Bool := 0xD800 ≤ n && n ≤ 0xDBFF

def isLowSurrogate (n : Nat) : Bool := 0xDC00 ≤ n && n ≤ 0xDFFF

def isSurrogate (n : Nat) : Bool := isHighSurrogate n || isLowSurrogate n

def ofPoints (points : List Nat) : Wording :=
  if points.any isSurrogate then .unpaired points
  else .plain (String.ofList (points.map Char.ofNat))

/-- The code points that units stand for: two surrogates that are partners make up one. -/
def joinPairs : List Nat → List Nat
  | high :: low :: rest =>
    if isHighSurrogate high && isLowSurrogate low then
      (0x10000 + (high - 0xD800) * 0x400 + (low - 0xDC00)) :: joinPairs rest
    else high :: joinPairs (low :: rest)
  | units => units

def ofUnits (units : List Nat) : Wording := ofPoints (joinPairs units)

/-- A code point as characters. A surrogate would take three bytes, none of them part of a
character, so three replacement characters stand for it. -/
def pointText (n : Nat) : List Char :=
  if isSurrogate n then ['\ufffd', '\ufffd', '\ufffd'] else [Char.ofNat n]

def replaced : Wording → String
  | plain s => s
  | unpaired points => String.ofList (points.flatMap pointText)

end Wording

inductive Json where
  | null
  | bool (b : Bool)
  | int (n : Int)
  | float (x : Float)
  | string (s : Wording)
  | list (items : List Json)
  | object (fields : List (String × Json))

/-- The fields of an object, or of any record given in the same way. -/
abbrev Fields := List (String × Json)

namespace Fields

def get? (fields : Fields) (name : String) : Option Json := fields.lookup name

/-- Sets a field: in its place if it is there, else at the end. -/
def put : Fields → String → Json → Fields
  | [], name, value => [(name, value)]
  | (key, old) :: rest, name, value =>
    if key == name then (name, value) :: rest else (key, old) :: put rest name value

/-- Of fields with one name, the last value stands at the first place. -/
def ofPairs (pairs : List (String × Json)) : Fields :=
  pairs.foldl (fun fields p => put fields p.1 p.2) []

end Fields

end ScriptTyping
