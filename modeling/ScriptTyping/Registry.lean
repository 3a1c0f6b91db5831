import ScriptTyping.Sha256
import ScriptTyping.Text.Quoting

/-! # Properties and interfaces

A list of properties is printed as an inline object type, and its shape is identified by the hash
of a canonical text that does not depend on the order of the list.

A registry holds the interfaces of one script in the order in which they were found. Shapes with
the same hash share one interface, which counts its uses.
-/
namespace ScriptTyping

structure Property where
  name : String
  type : String
  optional : Bool := false
  readonly : Bool := false
deriving DecidableEq, Repr, Inhabited

def startsName (c : Char) : Bool := c.isAlpha || c == '_' || c == '$'

def continuesName (c : Char) : Bool := c.isAlphanum || c == '_' || c == '$'

/-- Plain names need no quotes. One line end after the name is let pass. -/
def isPlainName (name : String) : Bool :=
  match name.toList with
  | [] => false
  | c :: rest =>
    let tail := rest.dropWhile continuesName
    startsName c && (tail.isEmpty || tail == ['\n'])

def printName (name : String) : String :=
  if isPlainName name then name else Text.Literal.encode name

namespace Property

/-- The property's part of the canonical text of a shape. -/
def signature (p : Property) : String :=
  p.name ++ (if p.optional then "?" else "") ++ (if p.readonly then "!" else "") ++ ":" ++ p.type

def inline (p : Property) : String :=
  (if p.readonly then "readonly " else "") ++ printName p.name ++
    (if p.optional then "?" else "") ++ ": " ++ p.type

end Property

def inlineShape (properties : List Property) : String :=
  "\x7b " ++ "; ".intercalate (properties.map Property.inline) ++ " \x7d"

/-- Properties by name in code point order; those of one name keep their order. -/
def sortByName (properties : List Property) : List Property :=
  properties.mergeSort fun p q => p.name ≤ q.name

def canonicalText (properties : List Property) : String :=
  "|".intercalate ((sortByName properties).map Property.signature)

def shapeHash (properties : List Property) : String :=
  Sha256.hex (canonicalText properties)

structure Interface where
  name : String
  properties : List Property
  usageCount : Nat := 1
  hash : String
deriving DecidableEq, Repr

namespace Interface

def ofShape (name : String) (properties : List Property) : Interface :=
  { name, properties, hash := shapeHash properties }

def used (i : Interface) : Interface := { i with usageCount := i.usageCount + 1 }

def sameShape (i j : Interface) : Bool := i.hash == j.hash

def numbered (i : Nat) : String := "Interface" ++ toString i

end Interface

structure Registry where
  interfaces : List Interface := []
deriving DecidableEq, Repr

namespace Registry

def size (r : Registry) : Nat := r.interfaces.length

def names (r : Registry) : List String := r.interfaces.map Interface.name

def contains (r : Registry) (name : String) : Bool := r.names.contains name

theorem contains_iff_mem_names {r : Registry} {name : String} :
    r.contains name = true ↔ name ∈ r.names := by
  simp [contains]

def get? (r : Registry) (name : String) : Option Interface :=
  r.interfaces.find? fun i => i.name == name

def findByHash? (r : Registry) (hash : String) : Option Interface :=
  r.interfaces.find? fun i => i.hash == hash

/-- The first free number after the size of the registry. As many numbers as there are interfaces,
and one more, are tried: one of them is free. -/
def nextNumber (r : Registry) : Nat :=
  let candidates := List.range' (r.size + 1) (r.size + 1)
  (candidates.find? fun i => !r.contains (Interface.numbered i)).getD (2 * r.size + 1)

def nextName (r : Registry) : String := Interface.numbered r.nextNumber

/-- Counts one more use of the interfaces with the given hash. -/
def countUse (r : Registry) (hash : String) : Registry :=
  ⟨r.interfaces.map fun i => if i.hash == hash then i.used else i⟩

/-- Adds an interface, under the next free name if its own is taken. If its shape is known, the
known interface is used once more instead. Gives the interface now held for the shape. -/
def register (r : Registry) (i : Interface) : Registry × Interface :=
  match r.findByHash? i.hash with
  | some known => (r.countUse i.hash, known.used)
  | none =>
    let named := if r.contains i.name then { i with name := r.nextName } else i
    (⟨r.interfaces ++ [named]⟩, named)

end Registry

end ScriptTyping
