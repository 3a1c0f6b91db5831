import ScriptTyping.Guess
import ScriptTyping.Tree.Expr

/-! # Guesses for single forms

What a literal, a free name, an operator, a builtin function, a method or a use of a parameter
gives, from the guesses for its operands.
-/
namespace ScriptTyping

variable {κ : Type} [Score κ]

def Literal.guess : Literal → Guess κ
  | .string => .primitive "string" 1.0
  | .number => .primitive "number" 1.0
  | .bigint => .primitive "bigint" 1.0
  | .boolean => .primitive "boolean" 1.0
  | .null => .primitive "null" 1.0
  | .regExp => .primitive "RegExp" 1.0

namespace Guess

def ofFreeName : String → Guess κ
  | "undefined" => primitive "undefined" 1.0
  | "NaN" | "Infinity" => primitive "number" 1.0
  | _ => unknown 0.0

def ofCall : String → Guess κ
  | "String" => primitive "string" 1.0
  | "Number" | "parseInt" | "parseFloat" => primitive "number" 1.0
  | "Boolean" => primitive "boolean" 1.0
  | "Array" => arrayOf "unknown" 0.7
  | "Object" => object "object" 0.7
  | "Date" => primitive "Date" 1.0
  | "RegExp" => primitive "RegExp" 1.0
  | "Promise" => primitive "Promise<unknown>" 0.8
  | _ => unknown 0.1

def ofArrayMethod (receiver : Guess κ) : String → Guess κ
  | "map" | "filter" | "slice" | "concat" => array (receiver.element.getD (unknown 0.0)) 0.9
  | "find" | "pop" | "shift" => receiver.optionalElement 0.9
  | "reduce" => unknown 0.5
  | "join" => primitive "string" 1.0
  | "indexOf" | "lastIndexOf" | "findIndex" | "length" => primitive "number" 1.0
  | "includes" | "some" | "every" => primitive "boolean" 1.0
  | "forEach" | "push" | "unshift" => primitive "void" 0.9
  | _ => unknown 0.3

def ofStringMethod : String → Guess κ
  | "charAt" | "concat" | "slice" | "substring" | "substr" | "toLowerCase" | "toUpperCase"
  | "trim" | "trimStart" | "trimEnd" | "repeat" | "replace" | "replaceAll" | "padStart"
  | "padEnd" => primitive "string" 1.0
  | "split" => arrayOf "string" 1.0
  | "indexOf" | "lastIndexOf" | "search" | "charCodeAt" | "length" => primitive "number" 1.0
  | "includes" | "startsWith" | "endsWith" => primitive "boolean" 1.0
  | "match" | "matchAll" => union ["RegExpMatchArray", "null"] 0.9
  | _ => unknown 0.3

def ofMethodCall (receiver : Guess κ) (method : String) : Guess κ :=
  if receiver.kind == .array then receiver.ofArrayMethod method
  else if receiver.isPrimitive "string" then ofStringMethod method
  else unknown 0.2

/-- The result of indexing by a number. -/
def ofElement (receiver : Guess κ) : Guess κ :=
  if receiver.kind == .array then receiver.optionalElement 0.9 else unknown 0.2

def ofUnary : Option UnaryOp → Guess κ
  | some .not | some .delete => primitive "boolean" 1.0
  | some .numeric => primitive "number" 1.0
  | some .typeof => primitive "string" 1.0
  | some .void => primitive "undefined" 1.0
  | none => unknown 0.5

/-- A sum is a string if an operand is, and a number if both are. -/
def ofSum (left right : Guess κ) : Guess κ :=
  if left.isPrimitive "string" || right.isPrimitive "string" then primitive "string" 0.95
  else if left.isPrimitive "number" && right.isPrimitive "number" then primitive "number" 1.0
  else union ["string", "number"] 0.6

def ofBinary (op : Option BinaryOp) (left right : Guess κ) : Guess κ :=
  match op with
  | some .comparison => primitive "boolean" 1.0
  | some .arithmetic => primitive "number" 1.0
  | some .plus => ofSum left right
  | some .logical => merge left right
  | some .coalesce => if 0.5 < right.confidence then right else merge left right
  | none => unknown 0.3

/-- An array literal from its items that are not spread. -/
def ofItems (items : List (Guess κ)) (spread : Bool) : Guess κ :=
  match items with
  | [] => arrayOf "unknown" (if spread then 0.3 else 0.5)
  | first :: rest =>
    let merged := mergeAll first rest
    let uniform := rest.all fun g => g.value == first.value
    array merged (if uniform then 1.0 else merged.confidence * 0.9)

end Guess

def Use.guess : Use → Guess κ
  | .number => .primitive "number" 0.8
  | .truth => .primitive "boolean" 0.7
  | .array => .arrayOf "unknown" 0.7
  | .string => .primitive "string" 0.7
  | .function => .primitive "Function" 0.8

/-- What the uses of a parameter show together. -/
def Guess.ofUses (uses : List Use) : Guess κ :=
  (Guess.mergeAll? (uses.map Use.guess)).getD (.unknown 0.3)

end ScriptTyping
