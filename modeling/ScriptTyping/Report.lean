import ScriptTyping.Infer.Judgement
import ScriptTyping.Tree.Reading
import ScriptTyping.Tree.Source

/-! # Reports

A script is judged statement by statement. Each statement sees the names bound before it, binds a
name of its own and adds an entry to the report.
-/
namespace ScriptTyping

/-- What a report tells of a guess. -/
structure TypeInfo (κ : Type) where
  kind : Kind
  value : String
  confidence : κ
  interfaceName : Option String

structure VariableInfo (κ : Type) where
  name : String
  type : TypeInfo κ
  line : Nat

structure ParamInfo (κ : Type) where
  name : Option String
  type : TypeInfo κ

structure FunctionInfo (κ : Type) where
  name : String
  params : List (ParamInfo κ)
  result : TypeInfo κ
  line : Nat

structure Report (κ : Type) where
  path : String
  bindings : List (VariableInfo κ)
  functions : List (FunctionInfo κ)
  interfaces : List Interface

/-- A script that is judged up to some statement. -/
structure Run (κ : Type) where
  context : Context κ := {}
  bindings : List (VariableInfo κ) := []
  functions : List (FunctionInfo κ) := []

namespace TypeInfo

variable {κ : Type}

def ofGuess (g : Guess κ) : TypeInfo κ :=
  { kind := g.kind
    value := g.value
    confidence := g.confidence
    interfaceName := if g.needsInterface then g.interfaceName else none }

/-- The type as it is written into the script: the interface by its name, or the whole type. -/
def annotation (t : TypeInfo κ) : String :=
  match t.interfaceName with
  | some name => if name.isEmpty then t.value else name
  | none => t.value

end TypeInfo

namespace Run

variable {κ : Type} [Score κ]

/-- Promotes a guess to an interface, or takes the mark of promotion away. -/
def settle (preferInterfaces : Bool) (ctx : Context κ) (g : Guess κ) : Context κ × Guess κ :=
  if !g.needsInterface then (ctx, g)
  else if preferInterfaces then ctx.register g
  else (ctx, { g with needsInterface := false, interfaceName := none })

def declare (preferInterfaces : Bool) (r : Run κ) (name : String) (init : Expr) (line : Nat) :
    Run κ :=
  let (ctx, g) := settle preferInterfaces r.context (init.guess r.context.env)
  { r with
    context := ctx.bind name g
    bindings := r.bindings ++ [{ name, type := .ofGuess g, line }] }

def define (r : Run κ) (name : String) (routine : Routine) (line : Nat) : Run κ :=
  let env := r.context.env
  let params := (routine.params.zip (routine.paramGuesses env)).map fun (p, g) =>
    { name := p.name?, type := .ofGuess g }
  { r with
    context := r.context.bind name (routine.signature env)
    functions := r.functions ++ [{ name, params, result := .ofGuess (routine.result env), line }] }

def step (preferInterfaces : Bool) (r : Run κ) : Statement → Run κ
  | .declare name init line => r.declare preferInterfaces name init line
  | .define name routine line => r.define name routine line

def report (path : String) (r : Run κ) : Report κ :=
  { path
    bindings := r.bindings
    functions := r.functions
    interfaces := r.context.registry.interfaces }

end Run

namespace Report

variable {κ : Type}

/-- The first variable of a name. -/
def findVariable? (r : Report κ) (name : String) : Option (VariableInfo κ) :=
  r.bindings.find? fun v => v.name == name

/-- The first function of a name. -/
def findFunction? (r : Report κ) (name : String) : Option (FunctionInfo κ) :=
  r.functions.find? fun f => f.name == name

variable [Score κ]

def ofStatements (preferInterfaces : Bool) (path : String) (statements : List Statement) :
    Report κ :=
  (statements.foldl (Run.step preferInterfaces) ({} : Run κ)).report path

/-- The report on a script, or the first fault of its tree. -/
def ofTree (preferInterfaces : Bool) (path : String) (root : Node) : Except Fault (Report κ) :=
  match root.fault? with
  | some fault => .error fault
  | none => .ok (ofStatements preferInterfaces path root.script)

end Report

end ScriptTyping
