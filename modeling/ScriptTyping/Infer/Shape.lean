import ScriptTyping.Guess
import ScriptTyping.Tree.Expr

/-! # Shapes of object literals

Each member of a literal fills a slot. A getter and a setter of one name share a slot, which the
getter types. A literal with many slots, or with a slot that holds an object or a function, is
promoted to an interface.
-/
namespace ScriptTyping

structure Slot (κ : Type) where
  name : String
  accessor : Option Accessor := none
  guess : Guess κ

namespace Slot

variable {κ : Type}

def pairsWith (s t : Slot κ) : Bool :=
  s.accessor.isSome && t.accessor.isSome && s.name == t.name

/-- Adds a slot after others. An accessor that finds another of its name among them adds none: a
getter types the slot of the other, and a setter changes nothing. -/
def place (slots : List (Slot κ)) (s : Slot κ) : List (Slot κ) :=
  if slots.any s.pairsWith then
    if s.accessor == some .get then
      slots.map fun t => if s.pairsWith t then { t with guess := s.guess } else t
    else slots
  else slots ++ [s]

def property (s : Slot κ) : Property := { name := s.name, type := s.guess.value }

def isNested (s : Slot κ) : Bool := s.guess.kind == .object || s.guess.kind == .function

end Slot

/-- The most properties that a shape may have without a name of its own. -/
def maxInline : Nat := 3

namespace Guess

variable {κ : Type} [Score κ]

def hiddenObject : Guess κ := object "object" 0.5

/-- The shape with the given slots; `freshName` names it if it is promoted. -/
def ofSlots (freshName : String) (slots : List (Slot κ)) : Guess κ :=
  let properties := slots.map Slot.property
  let confidence := Score.mean (slots.map fun s => s.guess.confidence)
  let promoted := maxInline < slots.length || slots.any Slot.isNested
  { kind := .object
    value := inlineShape properties
    confidence
    needsInterface := promoted
    interfaceName := if promoted then some freshName else none
    properties }

def ofMembers (freshName : String) (slots : Option (List (Slot κ))) : Guess κ :=
  match slots with
  | none => hiddenObject
  | some [] => object "\x7b\x7d" 0.8
  | some slots => ofSlots freshName (slots.foldl Slot.place [])

end Guess

end ScriptTyping
