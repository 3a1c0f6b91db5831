import ScriptTyping.Infer.Env
import ScriptTyping.Infer.Forms
import ScriptTyping.Infer.Shape
import ScriptTyping.Tree.Reading

/-! # The rules of inference

A guess for an expression is put together from the guesses for its parts. A function is judged by
its returns and its parameters. Any node may be judged as an expression, as an object literal or as a
function, whatever its kind.
-/
namespace ScriptTyping

variable {κ : Type} [Score κ]

def Env.guessName (env : Env κ) (name : String) : Guess κ :=
  (env.scope.lookup? name).getD (Guess.ofFreeName name)

namespace Guess

def signature (params : List String) (result : Guess κ) : Guess κ :=
  function ("(" ++ ", ".intercalate params ++ ") => " ++ result.value) result.confidence

/-- The parameters of a method, which are numbered. -/
def numberedParams (params : List (Guess κ)) : List String :=
  params.zipIdx.map fun (g, i) => "arg" ++ toString i ++ ": " ++ g.value

/-- The result of a function from its returns. Returns that print alike count as the least
confident of them. -/
def ofReturns (returns : List (Guess κ)) : Guess κ :=
  match returns with
  | [] => primitive "void" 1.0
  | first :: rest =>
    if (first :: rest).all fun g => g.value == "void" then primitive "void" 1.0
    else
      let merged := mergeAll first rest
      let uniform := rest.all fun g => g.value == first.value
      merged.withConfidence
        (if uniform then Score.least first.confidence (rest.map Guess.confidence)
         else merged.confidence * 0.85)

end Guess

mutual

def Expr.guess (env : Env κ) : Expr → Guess κ
  | .uncovered => .unknown 0.0
  | .unresolved => .unknown 0.2
  | .privateName => .unknown 0.3
  | .literal l => l.guess
  | .name id => env.guessName id
  | .array items spread => .ofItems (Expr.guessAll env items) spread
  | .object members =>
    if env.describesObjects then .ofMembers env.freshName (Member.slots? env members)
    else .hiddenObject
  | .unary op => .ofUnary op
  | .binary op left right => .ofBinary op (left.guess env) (right.guess env)
  | .conditional consequence alternative =>
    .merge (consequence.guess env) (alternative.guess env)
  | .call callee => .ofCall callee
  | .methodCall receiver method => .ofMethodCall (receiver.guess env) method
  | .element receiver => .ofElement (receiver.guess env)

def Expr.guessAll (env : Env κ) : List Expr → List (Guess κ)
  | [] => []
  | e :: rest => e.guess env :: Expr.guessAll env rest

def Member.slot? (env : Env κ) : Member → Option (Slot κ)
  | .hidden => none
  | .shorthand name => some { name, guess := env.guessName name }
  | .pair name value => some { name, guess := value.guess env }
  | .method name params body =>
    let params := Guess.numberedParams (Param.guessAll env params)
    some { name, guess := .signature params (body.guess env) }
  | .getter name body => some { name, accessor := some .get, guess := body.guess env }
  | .setter name params =>
    let guess := (Param.guessAll env params).head?.getD (.unknown 0.3)
    some { name, accessor := some .set, guess }

/-- The slots of all members, unless one is hidden. -/
def Member.slots? (env : Env κ) : List Member → Option (List (Slot κ))
  | [] => some []
  | m :: rest =>
    match m.slot? env, Member.slots? env rest with
    | some slot, some slots => some (slot :: slots)
    | _, _ => none

def Param.guess (env : Env κ) : Param → Guess κ
  | .plain _ uses => .ofUses uses
  | .rest _ binding =>
    let bound := binding.guess env
    .array bound (bound.confidence * 0.9)
  | .defaulted _ value => value.guess env
  | .arrayPattern => .arrayOf "unknown" 0.5
  | .objectPattern => .hiddenObject
  | .other => .unknown 0.3

def Param.guessAll (env : Env κ) : List Param → List (Guess κ)
  | [] => []
  | p :: rest => p.guess env :: Param.guessAll env rest

def Body.guess (env : Env κ) : Body → Guess κ
  | .absent => .primitive "void" 1.0
  | .expression e => e.guess env
  | .block returns => .ofReturns (Return.guessAll env returns)

def Return.guess (env : Env κ) : Return → Guess κ
  | .bare => .primitive "void" 1.0
  | .value e => e.guess env

def Return.guessAll (env : Env κ) : List Return → List (Guess κ)
  | [] => []
  | r :: rest => r.guess env :: Return.guessAll env rest

end

theorem Expr.guessAll_eq_map (env : Env κ) (es : List Expr) :
    Expr.guessAll env es = es.map (Expr.guess env) := by
  induction es with
  | nil => rfl
  | cons e rest ih => simp only [Expr.guessAll, List.map_cons, ih]

theorem Param.guessAll_eq_map (env : Env κ) (ps : List Param) :
    Param.guessAll env ps = ps.map (Param.guess env) := by
  induction ps with
  | nil => rfl
  | cons p rest ih => simp only [Param.guessAll, List.map_cons, ih]

theorem Return.guessAll_eq_map (env : Env κ) (rs : List Return) :
    Return.guessAll env rs = rs.map (Return.guess env) := by
  induction rs with
  | nil => rfl
  | cons r rest ih => simp only [Return.guessAll, List.map_cons, ih]

/-- The guess for an object literal with the given members, whether objects are described or not. -/
def Member.shape (env : Env κ) (members : List Member) : Guess κ :=
  .ofMembers env.freshName (Member.slots? env members)

def Param.print (p : Param) (index : Nat) (g : Guess κ) : String :=
  (if p.isRest then "..." else "") ++ p.name?.getD ("arg" ++ toString index) ++ ": " ++ g.value

namespace Routine

def paramGuesses (env : Env κ) (r : Routine) : List (Guess κ) := Param.guessAll env r.params

def result (env : Env κ) (r : Routine) : Guess κ := r.body.guess env

/-- The type of a function, by the names of its parameters. -/
def signature (env : Env κ) (r : Routine) : Guess κ :=
  let printed := (r.params.zip (r.paramGuesses env)).zipIdx.map fun ((p, g), i) => p.print i g
  .signature printed (r.result env)

/-- The type of a method, with numbered parameters. -/
def methodSignature (env : Env κ) (r : Routine) : Guess κ :=
  .signature (Guess.numberedParams (r.paramGuesses env)) (r.result env)

end Routine

namespace Node

variable (env : Env κ)

def guess (n : Node) : Guess κ := n.reading.expr.guess env

/-- A node that may be absent, as an expression. -/
def guess? (n : Option Node) : Guess κ :=
  match n with
  | some n => n.guess env
  | none => Expr.uncovered.guess env

/-- The variable that a declarator introduces. -/
def variableGuess (n : Node) : Guess κ := guess? env (n.field? "value")

def shape (n : Node) : Guess κ :=
  Member.shape env (n.parts.map fun c => c.reading.member)

def result (n : Node) : Guess κ := n.reading.routine.result env

def paramGuesses (n : Node) : List (Guess κ) := n.reading.routine.paramGuesses env

def paramNames (n : Node) : List (Option String) := n.reading.routine.params.map Param.name?

def signature (n : Node) : Guess κ := n.reading.routine.signature env

def methodSignature (n : Node) : Guess κ := n.reading.routine.methodSignature env

/-- What a body that may be absent shows of a name. -/
def usage (name : String) (body : Option Node) : Guess κ :=
  .ofUses ((body.map fun n => n.reading.uses name).getD [])

end Node

end ScriptTyping
