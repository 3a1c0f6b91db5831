/-! # Paths and files

Files are found by walking from the working directory, one part of a path at a time. A part that is
empty or a single dot is left out of a path; two dots lead up.
-/
namespace ScriptTyping

structure Path where
  /-- The working directory in full, if the path starts there. -/
  anchor : Option String := none
  parts : List String
deriving DecidableEq, Repr

namespace Path

def splitParts (text : String) : List String :=
  ((text.toList.splitOn '/').map String.ofList).filter fun part => part != "" && part != "."

def ofText (text : String) : Path := { parts := splitParts text }

def child (p : Path) (name : String) : Path := { p with parts := p.parts ++ [name] }

def text (p : Path) : String :=
  match p.anchor, p.parts with
  | none, [] => "."
  | none, parts => "/".intercalate parts
  | some anchor, parts => "/".intercalate (anchor :: parts)

def maxPartBytes : Nat := 255

def maxBytes : Nat := 4095

def hasNul (p : Path) : Bool := p.parts.any fun part => part.toList.contains '\x00'

end Path

/-- The files below the working directory, by the parts of their paths, in the order in which they
were written. -/
structure FileTree where
  files : List (List String × String) := []

inductive Spot where
  | directory (parts : List String)
  | file (text : String)
  /-- A directory above the working directory. -/
  | outside
deriving DecidableEq, Repr

inductive WalkError where
  | missing
  | notDirectory
  | tooLong
  | hasNul
deriving DecidableEq, Repr

namespace FileTree

def ofTexts (files : List (String × String)) : FileTree :=
  ⟨files.map fun f => (Path.splitParts f.1, f.2)⟩

/-- What is found under the parts of a path. Of several texts for one file, the last was kept. -/
def spot? (t : FileTree) (parts : List String) : Option Spot :=
  match t.files.reverse.find? fun f => f.1 == parts with
  | some f => some (.file f.2)
  | none =>
    if t.files.any fun f => parts.isPrefixOf f.1 then some (.directory parts) else none

def step (t : FileTree) (spot : Spot) (part : String) : Except WalkError Spot :=
  match spot with
  | .file _ => .error .notDirectory
  | .outside =>
    if part == ".." then .ok .outside
    else if Path.maxPartBytes < part.utf8ByteSize then .error .tooLong
    else .error .missing
  | .directory parts =>
    if part == ".." then
      .ok (if parts.isEmpty then .outside else .directory parts.dropLast)
    else if Path.maxPartBytes < part.utf8ByteSize then .error .tooLong
    else
      match t.spot? (parts ++ [part]) with
      | some spot => .ok spot
      | none => .error .missing

/-- Walks a path to its end. The length of the whole path counts before any part does. -/
def walk (t : FileTree) (p : Path) : Except WalkError Spot :=
  if p.hasNul then .error .hasNul
  else if Path.maxBytes < p.text.utf8ByteSize then .error .tooLong
  else p.parts.foldlM t.step (.directory [])

def text? (t : FileTree) (p : Path) : Option String :=
  match t.walk p with
  | .ok (.file text) => some text
  | _ => none

end FileTree

end ScriptTyping
