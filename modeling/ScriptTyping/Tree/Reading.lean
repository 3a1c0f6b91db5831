import ScriptTyping.Numeral
import ScriptTyping.Tree.Expr
import ScriptTyping.Tree.Node

/-! # Readings

The same node means different things in different positions: `f` is a name as an operand, a builtin
as a callee and a binding as a parameter. A reading holds what a node is in each position. It is
worked out from the label of the node and the labels and readings of its children, so one pass from
the leaves to the root reads a whole tree.
-/
namespace ScriptTyping

/-- What a node is in each position in which it may stand: as an operand, as a member of a literal,
as a function, as a statement at the top level and so on. -/
structure Reading where
  expr : Expr
  /-- As the callee of a call: the call. -/
  called : Expr
  /-- As an index: whether it is a number literal. -/
  isNumber : Bool
  /-- As the operand of a use: the name that it refers to. -/
  reference : Option String
  member : Member
  /-- As a parameter of a function, given the uses of a name in its body. -/
  param : (String → List Use) → Param
  params : (String → List Use) → List Param
  returned : Return
  /-- As a block: the returns of the function that it is the body of. -/
  returns : List Return
  /-- As a body: the uses of a name. -/
  uses : String → List Use
  routine : Routine
  declared : List Statement
  statements : List Statement

structure Child where
  label : Label
  reading : Reading

namespace Reading

/-- The statements in which a return of the same function may stand. -/
def returnContainers : List String :=
  ["statement_block", "if_statement", "else_clause", "for_statement", "for_in_statement",
   "while_statement", "do_statement", "switch_statement", "switch_body", "switch_case",
   "switch_default", "try_statement", "catch_clause", "finally_clause", "labeled_statement"]

def useContainers : List String :=
  ["statement_block", "expression_statement", "return_statement", "if_statement", "else_clause",
   "parenthesized_expression", "lexical_declaration", "variable_declaration",
   "variable_declarator", "binary_expression", "unary_expression", "member_expression",
   "call_expression", "arguments", "array"]

/-- Methods that arrays have and strings lack. -/
def arrayMethods : List String :=
  ["map", "filter", "reduce", "reduceRight", "forEach", "find", "findIndex", "findLast",
   "findLastIndex", "some", "every", "push", "pop", "shift", "unshift", "splice", "sort", "reverse",
   "join", "flat", "flatMap", "fill"]

def stringMethods : List String :=
  ["toLowerCase", "toUpperCase", "toLocaleLowerCase", "toLocaleUpperCase", "trim", "trimStart",
   "trimEnd", "charAt", "charCodeAt", "codePointAt", "split", "substring", "substr", "padStart",
   "padEnd", "repeat", "replace", "replaceAll", "startsWith", "endsWith", "match", "matchAll",
   "search", "normalize", "localeCompare"]

def variableDeclarations : List String := ["lexical_declaration", "variable_declaration"]

def functionDeclarations : List String := ["function_declaration", "generator_function_declaration"]

variable (label : Label) (children : List Child)

def partsOf : List Child := children.filter fun c => c.label.isPart

def firstPart? : Option Child := (partsOf children).head?

def field? (role : String) : Option Child :=
  children.find? fun c => c.label.field == some role

def operand (role : String) : Expr :=
  match field? children role with
  | some c => c.reading.expr
  | none => .uncovered

def operatorToken : String :=
  match field? children "operator" with
  | some c => c.label.kind
  | none => ""

/-- The property that is read from an object, if it is written as a plain name. -/
def propertyName? : Option String :=
  (field? children "property").bind fun c =>
    if c.label.kind == "property_identifier" then some c.label.text else none

def exprOf : Expr :=
  match label.kind with
  | "parenthesized_expression" =>
    match firstPart? children with
    | some c => c.reading.expr
    | none => .uncovered
  | "private_property_identifier" => .privateName
  | "string" | "template_string" => .literal .string
  | "number" => .literal (if label.text.toList.getLast? == some 'n' then .bigint else .number)
  | "true" | "false" => .literal .boolean
  | "null" => .literal .null
  | "regex" => .literal .regExp
  | "undefined" | "identifier" => .name label.text
  | "array" =>
    let parts := partsOf children
    let isSpread (c : Child) : Bool := c.label.kind == "spread_element"
    .array ((parts.filter fun c => !isSpread c).map fun c => c.reading.expr) (parts.any isSpread)
  | "object" => .object ((partsOf children).map fun c => c.reading.member)
  | "unary_expression" => .unary (UnaryOp.ofToken? (operatorToken children))
  | "binary_expression" =>
    .binary (BinaryOp.ofToken? (operatorToken children)) (operand children "left")
      (operand children "right")
  | "ternary_expression" =>
    .conditional (operand children "consequence") (operand children "alternative")
  | "call_expression" =>
    match field? children "function" with
    | some c => c.reading.called
    | none => .unresolved
  | "member_expression" => .unresolved
  | "subscript_expression" =>
    match field? children "index" with
    | some c => if c.reading.isNumber then .element (operand children "object") else .unresolved
    | none => .unresolved
  | _ => .uncovered

def calledOf : Expr :=
  match label.kind with
  | "parenthesized_expression" =>
    match firstPart? children with
    | some c => c.reading.called
    | none => .unresolved
  | "identifier" => .call label.text
  | "member_expression" =>
    match propertyName? children with
    | some method => .methodCall (operand children "object") method
    | none => .unresolved
  | _ => .unresolved

def isNumberOf : Bool :=
  match label.kind with
  | "parenthesized_expression" => (firstPart? children).any fun c => c.reading.isNumber
  | "number" => true
  | _ => false

def referenceOf : Option String :=
  match label.kind with
  | "parenthesized_expression" => (firstPart? children).bind fun c => c.reading.reference
  | "identifier" => label.text?
  | _ => none

def unquote (text : String) : String :=
  match text.toList with
  | c :: d :: rest =>
    let quoted := (c == '\x27' || c == '\x22') && (d :: rest).getLast? == some c
    if quoted then String.ofList (d :: rest).dropLast else text
  | _ => text

/-- The property name that a key spells, unless it is computed. -/
def keyName? (key : Option Child) : Option String :=
  key.bind fun c =>
    match c.label.kind with
    | "property_identifier" => some c.label.text
    | "string" => some (unquote c.label.text)
    | "number" => some (Numeral.key c.label.text)
    | _ => none

def firstAccessor? : List Label → Option Accessor
  | [] => none
  | l :: rest =>
    if l.kind == "get" then some .get
    else if l.kind == "set" then some .set
    else firstAccessor? rest

/-- The keyword that makes a method an accessor. It stands before the method's name. -/
def accessorOf? (kind : String) (labels : List Label) : Option Accessor :=
  if kind != "method_definition" then none
  else
    match labels.find? fun l => l.field == some "name" with
    | some name => firstAccessor? (labels.takeWhile fun l => l.start.offset < name.start.offset)
    | none => firstAccessor? labels

def refersTo (roles : List String) (name : String) : Bool :=
  roles.any fun role => (field? children role).any fun c => c.reading.reference == some name

/-- What the node itself, apart from the nodes below it, shows of a name. -/
def useAt? (name : String) : Option Use :=
  match label.kind with
  | "binary_expression" =>
    if BinaryOp.ofToken? (operatorToken children) == some .arithmetic &&
      refersTo children ["left", "right"] name then some .number else none
  | "unary_expression" =>
    if refersTo children ["argument"] name then
      match UnaryOp.ofToken? (operatorToken children) with
      | some .numeric => some .number
      | some .not => some .truth
      | _ => none
    else none
  | "member_expression" =>
    if refersTo children ["object"] name then
      (propertyName? children).bind fun member =>
        if arrayMethods.contains member then some .array
        else if stringMethods.contains member then some .string
        else none
    else none
  | "call_expression" => if refersTo children ["function"] name then some .function else none
  | _ => none

def usesOf (name : String) : List Use :=
  (useAt? label children name).toList ++
    if useContainers.contains label.kind then
      ((partsOf children).filter fun c => !c.label.isFunction).flatMap fun c => c.reading.uses name
    else []

def returnedOf : Return :=
  match firstPart? children with
  | some c => .value c.reading.expr
  | none => .bare

def returnsOf : List Return :=
  (partsOf children).flatMap fun c =>
    if c.label.kind == "return_statement" then [c.reading.returned]
    else if returnContainers.contains c.label.kind then c.reading.returns
    else []

def paramOf (uses : String → List Use) : Param :=
  match label.kind with
  | "identifier" => .plain label.text? (uses label.text)
  | "rest_pattern" =>
    match firstPart? children with
    | some c => .rest (c.reading.param uses).name? c.reading.expr
    | none => .rest none .uncovered
  | "assignment_pattern" =>
    let name := (field? children "left").bind fun c => (c.reading.param uses).name?
    .defaulted name (operand children "right")
  | "array_pattern" => .arrayPattern
  | "object_pattern" => .objectPattern
  | _ => .other

def paramsOf (uses : String → List Use) : List Param :=
  (partsOf children).map fun c => c.reading.param uses

def bodyOf : Body :=
  match field? children "body" with
  | none => .absent
  | some c =>
    if c.label.kind == "statement_block" then .block c.reading.returns
    else .expression c.reading.expr

/-- A function has a parameter list, or a single parameter without one. -/
def routineOf : Routine :=
  let uses (name : String) : List Use :=
    match field? children "body" with
    | some c => c.reading.uses name
    | none => []
  let params :=
    match field? children "parameters" with
    | some c => c.reading.params uses
    | none => ((field? children "parameter").map fun c => c.reading.param uses).toList
  { params, body := bodyOf children }

def memberOf : Member :=
  match label.kind with
  | "shorthand_property_identifier" => .shorthand label.text
  | "pair" =>
    match keyName? (field? children "key") with
    | some name => .pair name (operand children "value")
    | none => .hidden
  | "method_definition" =>
    let routine := routineOf children
    match keyName? (field? children "name") with
    | some name =>
      match accessorOf? label.kind (children.map Child.label) with
      | some .get => .getter name routine.body
      | some .set => .setter name routine.params
      | none => .method name routine.params routine.body
    | none => .hidden
  | _ => .hidden

/-- A declarator introduces a variable if it binds a plain name. -/
def declaredOf : List Statement :=
  match field? children "name" with
  | some c =>
    if label.kind == "variable_declarator" && c.label.kind == "identifier" then
      [.declare c.label.text (operand children "value") label.line]
    else []
  | none => []

def statementsOf : List Statement :=
  if label.kind == "export_statement" then
    match field? children "declaration" with
    | some c => c.reading.statements
    | none => []
  else if variableDeclarations.contains label.kind then
    (partsOf children).flatMap fun c => c.reading.declared
  else if functionDeclarations.contains label.kind then
    match (field? children "name").bind fun c => c.label.text? with
    | some name => [.define name (routineOf children) label.line]
    | none => []
  else []

/-- The reading of a node from its label and its children. -/
def ofChildren : Reading where
  expr := exprOf label children
  called := calledOf label children
  isNumber := isNumberOf label children
  reference := referenceOf label children
  member := memberOf label children
  param := paramOf label children
  params := paramsOf children
  returned := returnedOf children
  returns := returnsOf children
  uses := usesOf label children
  routine := routineOf children
  declared := declaredOf label children
  statements := statementsOf label children

end Reading

namespace Node

mutual

def reading : Node → Reading
  | mk label children => Reading.ofChildren label (readChildren children)

def readChildren : List Node → List Child
  | [] => []
  | n :: rest => ⟨n.label, n.reading⟩ :: readChildren rest

end

theorem readChildren_eq_map (ns : List Node) :
    readChildren ns = ns.map fun n => ⟨n.label, n.reading⟩ := by
  induction ns with
  | nil => rfl
  | cons n rest ih => simp only [readChildren, List.map_cons, ih]

def accessor? (n : Node) : Option Accessor :=
  Reading.accessorOf? n.kind (n.children.map label)

def script (root : Node) : List Statement :=
  root.parts.flatMap fun n => n.reading.statements

end Node

end ScriptTyping
