/-! # Concrete syntax trees

A node carries a label and its children, tokens included. The kind of a node is the name that the
JavaScript grammar gives it; a plain token is its own kind. The rules look at the parts of a node:
the named children that are not comments.
-/
namespace ScriptTyping

/-- A place in a source text. Offset and column count bytes, and rows count from zero. -/
structure Position where
  offset : Nat
  row : Nat
  column : Nat
deriving DecidableEq, Repr

structure Label where
  kind : String
  named : Bool := true
  /-- The node stands for a token that the source lacks. -/
  missing : Bool := false
  /-- There is a fault in the node or below it. -/
  faulty : Bool := false
  start : Position
  text : String
  field : Option String := none
deriving DecidableEq, Repr

namespace Label

def isComment (l : Label) : Bool := l.kind == "comment" || l.kind == "html_comment"

def isPart (l : Label) : Bool := l.named && !l.isComment

def line (l : Label) : Nat := l.start.row + 1

def text? (l : Label) : Option String := if l.text.isEmpty then none else some l.text

def functionKinds : List String :=
  ["function_declaration", "function_expression", "function", "arrow_function",
   "generator_function", "generator_function_declaration", "method_definition"]

def isFunction (l : Label) : Bool := functionKinds.contains l.kind

end Label

inductive Node where
  | mk (label : Label) (children : List Node)

namespace Node

def label : Node → Label
  | mk label _ => label

def children : Node → List Node
  | mk _ children => children

def kind (n : Node) : String := n.label.kind

def isPart (n : Node) : Bool := n.label.isPart

def parts (n : Node) : List Node := n.children.filter isPart

def firstPart? (n : Node) : Option Node := n.parts.head?

def field? (n : Node) (role : String) : Option Node :=
  n.children.find? fun c => c.label.field == some role

def operator? (n : Node) : Option String := (n.field? "operator").map kind

mutual

/-- What is left when the parentheses around a node are taken away, if they hold anything. -/
def unwrapped? : Node → Option Node
  | mk label children =>
    if label.kind == "parenthesized_expression" then firstUnwrapped? children
    else some (mk label children)

def firstUnwrapped? : List Node → Option Node
  | [] => none
  | n :: rest => if n.isPart then unwrapped? n else firstUnwrapped? rest

end

/-- The node at the end of a path of child numbers. -/
def descend? : Node → List Nat → Option Node
  | n, [] => some n
  | n, i :: path => n.children[i]?.bind fun c => c.descend? path

end Node

end ScriptTyping
