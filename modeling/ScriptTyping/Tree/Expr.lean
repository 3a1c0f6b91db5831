/-! # Expressions as the rules see them

The rules of inference look at few things in a tree. These types hold just those: an expression,
the members of an object literal, the parameters and the body of a function, and the uses of a
parameter.
-/
namespace ScriptTyping

inductive Literal where
  | string
  | number
  | bigint
  | boolean
  | null
  | regExp
deriving DecidableEq, Repr

/-- An operator before its operand, by what it gives. -/
inductive UnaryOp where
  | not
  | delete
  /-- One of `+`, `-` and `~`. -/
  | numeric
  | typeof
  | void
deriving DecidableEq, Repr

def UnaryOp.ofToken? : String → Option UnaryOp
  | "!" => some .not
  | "delete" => some .delete
  | "+" | "-" | "~" => some .numeric
  | "typeof" => some .typeof
  | "void" => some .void
  | _ => none

inductive BinaryOp where
  | comparison
  | arithmetic
  /-- A sum of numbers or of strings. -/
  | plus
  | logical
  | coalesce
deriving DecidableEq, Repr

namespace BinaryOp

def comparisonTokens : List String :=
  ["==", "===", "!=", "!==", "<", "<=", ">", ">=", "in", "instanceof"]

def arithmeticTokens : List String := ["-", "*", "/", "%", "**", "<<", ">>", ">>>", "&", "|", "^"]

def ofToken? (token : String) : Option BinaryOp :=
  if comparisonTokens.contains token then some .comparison
  else if arithmeticTokens.contains token then some .arithmetic
  else if token == "+" then some .plus
  else if token == "&&" || token == "||" then some .logical
  else if token == "??" then some .coalesce
  else none

end BinaryOp

inductive Accessor where
  | get
  | set
deriving DecidableEq, Repr

/-- What a use of a parameter shows it to be. -/
inductive Use where
  | number
  | truth
  | array
  | string
  | function
deriving DecidableEq, Repr

mutual

inductive Expr where
  /-- No expression, or one that no rule covers. -/
  | uncovered
  /-- A property read, and a call or an index that no rule resolves. -/
  | unresolved
  | privateName
  | literal (l : Literal)
  | name (id : String)
  /-- The items without those spread into the array; `spread` tells whether there are such. -/
  | array (items : List Expr) (spread : Bool)
  | object (members : List Member)
  | unary (op : Option UnaryOp)
  | binary (op : Option BinaryOp) (left right : Expr)
  | conditional (consequence alternative : Expr)
  | call (callee : String)
  | methodCall (receiver : Expr) (method : String)
  | element (receiver : Expr)

inductive Member where
  | hidden
  | shorthand (name : String)
  | pair (name : String) (value : Expr)
  | method (name : String) (params : List Param) (body : Body)
  | getter (name : String) (body : Body)
  | setter (name : String) (params : List Param)

inductive Param where
  | plain (name : Option String) (uses : List Use)
  | rest (name : Option String) (binding : Expr)
  | defaulted (name : Option String) (value : Expr)
  | arrayPattern
  | objectPattern
  | other

inductive Body where
  | absent
  | expression (e : Expr)
  | block (returns : List Return)

inductive Return where
  | bare
  | value (e : Expr)

end

namespace Param

def name? : Param → Option String
  | plain name _ | rest name _ | defaulted name _ => name
  | _ => none

def isRest : Param → Bool
  | rest _ _ => true
  | _ => false

end Param

structure Routine where
  params : List Param
  body : Body

/-- A variable or a function that the top level of a script introduces, with its line. -/
inductive Statement where
  | declare (name : String) (init : Expr) (line : Nat)
  | define (name : String) (routine : Routine) (line : Nat)

end ScriptTyping
