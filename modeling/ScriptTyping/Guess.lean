import ScriptTyping.Registry
import ScriptTyping.Text.Characters

/-! # Guesses

A guess is a type with a confidence. Its `value` is the printed type; `element`, `members` and
`properties` keep the parts an array, a union or an object type was printed from. An object type
may be marked for promotion to a named interface.

The rules compute with confidences through the interface of scores only, so that they run on doubles
and can be studied on exact numbers.
-/
namespace ScriptTyping

class Score (κ : Type) extends OfScientific κ, NatCast κ, Add κ, Mul κ, Div κ, LE κ, LT κ,
    BEq κ where
  decLE : DecidableLE κ
  decLT : DecidableLT κ

attribute [reducible, instance] Score.decLE Score.decLT

instance : Score Float where
  natCast := Float.ofNat
  decLE := inferInstance
  decLT := inferInstance

namespace Score

variable {κ : Type} [Score κ]

def middle (a b : κ) : κ := (a + b) / 2.0

/-- The mean of scores, summed up from the left. -/
def mean (scores : List κ) : κ := scores.foldl (· + ·) 0.0 / (scores.length : κ)

/-- The least of `first` and the scores after it, the first of equal ones. -/
def least (first : κ) (rest : List κ) : κ :=
  rest.foldl (fun least s => if s < least then s else least) first

end Score

inductive Kind where
  | primitive
  | array
  | object
  | function
  | union
  | unknown
deriving DecidableEq, Repr

structure Guess (κ : Type) where
  kind : Kind
  value : String
  confidence : κ
  needsInterface : Bool := false
  interfaceName : Option String := none
  element : Option (Guess κ) := none
  members : List String := []
  properties : List Property := []

def unionMark : String := " | "

namespace Guess

variable {κ : Type}

def primitive (value : String) (confidence : κ) : Guess κ :=
  { kind := .primitive, value, confidence }

def unknown (confidence : κ) : Guess κ :=
  { kind := .unknown, value := "unknown", confidence }

def function (value : String) (confidence : κ) : Guess κ :=
  { kind := .function, value, confidence }

def object (value : String) (confidence : κ) : Guess κ :=
  { kind := .object, value, confidence }

def union (members : List String) (confidence : κ) : Guess κ :=
  { kind := .union, value := unionMark.intercalate members, confidence, members }

def occursIn (part : List Char) : List Char → Bool
  | [] => part.isEmpty
  | c :: cs => part.isPrefixOf (c :: cs) || occursIn part cs

/-- Unions and function types are parenthesized where an array type is made of them. -/
def wrapElement (value : String) : String :=
  if occursIn unionMark.toList value.toList || occursIn ['=', '>'] value.toList then
    "(" ++ value ++ ")"
  else value

def array (element : Guess κ) (confidence : κ) : Guess κ :=
  { kind := .array
    value := wrapElement element.value ++ "[]"
    confidence
    element := some element }

def arrayOf [Score κ] (element : String) (confidence : κ) : Guess κ :=
  array (if element == "unknown" then unknown 0.0 else primitive element 1.0) confidence

def isUnknown (g : Guess κ) : Bool := g.kind == .unknown

def isPrimitive (g : Guess κ) (name : String) : Bool := g.kind == .primitive && g.value == name

/-- Splits a text at each occurrence of `mark`, read from the left. The last argument counts the
characters of a mark still to be dropped. -/
def splitAtMark (mark : List Char) : List Char → Nat → List (List Char)
  | [], _ => [[]]
  | _ :: cs, skip + 1 => splitAtMark mark cs skip
  | c :: cs, 0 =>
    if mark.isPrefixOf (c :: cs) then [] :: splitAtMark mark cs (mark.length - 1)
    else
      match splitAtMark mark cs 0 with
      | part :: rest => (c :: part) :: rest
      | [] => [[c]]

/-- The printed types a guess stands for: the members of a union, or the one type of any other. A
union without members is split as it is printed. -/
def descriptors (g : Guess κ) : List String :=
  if g.kind != .union then [g.value]
  else if g.members.isEmpty then
    (splitAtMark unionMark.toList g.value.toList 0).map fun part =>
      String.ofList (Text.trimBy Text.isSpacing part)
  else g.members

def alike (g h : Guess κ) : Bool := g.kind == h.kind && g.value == h.value

variable [Score κ]

/-- Two guesses for one value. Of guesses alike the more confident one stays, a known one wins over
an unknown one, and different ones make a flat union at the middle of their confidences. -/
def merge (g h : Guess κ) : Guess κ :=
  if g.alike h then
    if h.confidence ≤ g.confidence then g else h
  else if g.isUnknown then h
  else if h.isUnknown then g
  else union (g.descriptors ++ h.descriptors).eraseDups (Score.middle g.confidence h.confidence)

def mergeAll (first : Guess κ) (rest : List (Guess κ)) : Guess κ := rest.foldl merge first

def mergeAll? : List (Guess κ) → Option (Guess κ)
  | [] => none
  | first :: rest => some (mergeAll first rest)

/-- What reading an element of an array gives: the element or nothing. -/
def optionalElement (g : Guess κ) (confidence : κ) : Guess κ :=
  let members := (g.element.map descriptors).getD ["unknown"]
  union (if members.contains "undefined" then members else members ++ ["undefined"]) confidence

def withConfidence (g : Guess κ) (confidence : κ) : Guess κ :=
  if g.confidence == confidence then g else { g with confidence }

end Guess

end ScriptTyping
