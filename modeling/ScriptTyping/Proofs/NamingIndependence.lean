import ScriptTyping.Proofs.Runs
import ScriptTyping.Proofs.UnnamedGuesses

/-! # What the preference for interfaces decides

Two runs over one script, one that prefers interfaces and one that does not, bind the same names to
guesses that differ in marks and names only. Their reports differ in the names of interfaces, and
in the interfaces, of which the second has none.
-/
namespace ScriptTyping

variable {κ : Type}

def TypeInfo.unnamed (t : TypeInfo κ) : TypeInfo κ := { t with interfaceName := none }

def VariableInfo.unnamed (v : VariableInfo κ) : VariableInfo κ := { v with type := v.type.unnamed }

def ParamInfo.unnamed (p : ParamInfo κ) : ParamInfo κ := { p with type := p.type.unnamed }

def FunctionInfo.unnamed (f : FunctionInfo κ) : FunctionInfo κ :=
  { f with params := f.params.map ParamInfo.unnamed, result := f.result.unnamed }

theorem TypeInfo.unnamed_ofGuess (g : Guess κ) : (ofGuess g).unnamed = ofGuess g.unnamed := by
  cases g
  rfl

section Settling

theorem Context.register_unnamed (ctx : Context κ) (g : Guess κ) :
    (ctx.register g).2.unnamed = g.unnamed := by
  unfold Context.register
  split
  · split <;> cases g <;> rfl
  · rfl

theorem Run.settle_unnamed (prefer : Bool) (ctx : Context κ) (g : Guess κ) :
    (settle prefer ctx g).2.unnamed = g.unnamed := by
  unfold settle
  split
  · rfl
  · split
    · exact ctx.register_unnamed g
    · cases g
      rfl

theorem Run.settle_inline (ctx : Context κ) (g : Guess κ) :
    (settle false ctx g).2.needsInterface = false := by
  unfold settle
  split
  · next h => simpa using h
  · rfl

end Settling

section Routines
variable [Score κ]

omit [Score κ] in
theorem Param.print_unnamed (p : Param) (index : Nat) (g : Guess κ) :
    p.print index g.unnamed = p.print index g := by
  simp only [Param.print, Guess.value_unnamed]

omit [Score κ] in
theorem Param.print_zip_unnamed (params : List Param) (gs : List (Guess κ)) :
    ((params.zip (gs.map Guess.unnamed)).zipIdx.map fun ((p, g), i) => p.print i g) =
      (params.zip gs).zipIdx.map fun ((p, g), i) => p.print i g := by
  rw [List.zip_map_right, List.zipIdx_map, List.map_map]
  simp only [Function.comp_def, Prod.map, Param.print_unnamed, id_eq]

variable {env other : Env κ}

/-- The printed type of a function tells nothing of names. -/
theorem Routine.signature_congr (h : env.Matches other) (r : Routine) :
    r.signature env = r.signature other := by
  have hparams := Param.guessAll_unnamed h r.params
  have hresult := r.body.guess_unnamed h
  simp only [Routine.signature, Routine.paramGuesses, Routine.result]
  rw [← Guess.signature_unnamed, ← Param.print_zip_unnamed, hparams, hresult,
    Guess.signature_unnamed, Param.print_zip_unnamed]

omit [Score κ] in
theorem ParamInfo.map_unnamed_zip (params : List Param) (gs : List (Guess κ)) :
    ((params.zip gs).map fun (p, g) =>
        ({ name := p.name?, type := .ofGuess g } : ParamInfo κ)).map ParamInfo.unnamed =
      (params.zip (gs.map Guess.unnamed)).map fun (p, g) =>
        { name := p.name?, type := .ofGuess g } := by
  rw [List.zip_map_right, List.map_map, List.map_map]
  simp only [Function.comp_def, Prod.map, ParamInfo.unnamed, TypeInfo.unnamed_ofGuess, id_eq]

end Routines

namespace Run
variable [Score κ]

/-- The runs bind the same names, and their entries are the same, but for marks and names. -/
structure Matches (r other : Run κ) : Prop where
  scope : ∀ id, (r.context.scope.lookup? id).map Guess.unnamed =
    (other.context.scope.lookup? id).map Guess.unnamed
  bindings : r.bindings.map VariableInfo.unnamed = other.bindings.map VariableInfo.unnamed
  functions : r.functions.map FunctionInfo.unnamed = other.functions.map FunctionInfo.unnamed

omit [Score κ] in
theorem lookup?_bind_unnamed {s t : Scope κ}
    (h : ∀ id, (s.lookup? id).map Guess.unnamed = (t.lookup? id).map Guess.unnamed)
    (name : String) {g k : Guess κ} (hg : g.unnamed = k.unnamed) (id : String) :
    ((s.bind name g).lookup? id).map Guess.unnamed =
      ((t.bind name k).lookup? id).map Guess.unnamed := by
  by_cases hid : id = name
  · subst id
    rw [Scope.lookup?_bind_self, Scope.lookup?_bind_self, Option.map_some, Option.map_some, hg]
  · rw [Scope.lookup?_bind_of_ne _ _ hid, Scope.lookup?_bind_of_ne _ _ hid]
    exact h id

omit [Score κ] in
theorem Matches.env {r other : Run κ} (h : r.Matches other) :
    r.context.env.Matches other.context.env := ⟨h.scope, rfl⟩

/-- Whichever run prefers interfaces, a statement keeps the runs in step. -/
theorem Matches.step {r other : Run κ} (h : r.Matches other) (p q : Bool) (s : Statement) :
    (r.step p s).Matches (other.step q s) := by
  cases s with
  | declare name init line =>
    have hguess := init.guess_unnamed h.env
    have hsettled : (settle p r.context (init.guess r.context.env)).2.unnamed =
        (settle q other.context (init.guess other.context.env)).2.unnamed := by
      rw [settle_unnamed, settle_unnamed, hguess]
    constructor
    · intro id
      simp only [Run.step, Run.declare, Context.bind, settle_scope]
      exact lookup?_bind_unnamed h.scope name hsettled id
    · simp only [Run.step, Run.declare, List.map_append, h.bindings, List.map_cons, List.map_nil,
        VariableInfo.unnamed, TypeInfo.unnamed_ofGuess, hsettled]
    · exact h.functions
  | define name routine line =>
    have hparams : (routine.paramGuesses r.context.env).map Guess.unnamed =
        (routine.paramGuesses other.context.env).map Guess.unnamed :=
      Param.guessAll_unnamed h.env routine.params
    have hresult : (routine.result r.context.env).unnamed =
        (routine.result other.context.env).unnamed := routine.body.guess_unnamed h.env
    constructor
    · intro id
      simp only [Run.step, Run.define, Context.bind, routine.signature_congr h.env]
      exact lookup?_bind_unnamed h.scope name rfl id
    · exact h.bindings
    · simp only [Run.step, Run.define, List.map_append, h.functions, List.map_cons, List.map_nil,
        FunctionInfo.unnamed, ParamInfo.map_unnamed_zip, TypeInfo.unnamed_ofGuess, hparams, hresult]

theorem Matches.foldl {r other : Run κ} (h : r.Matches other) (p q : Bool)
    (statements : List Statement) :
    (statements.foldl (Run.step p) r).Matches (statements.foldl (Run.step q) other) := by
  induction statements generalizing r other with
  | nil => exact h
  | cons s rest ih => exact ih (h.step p q s)

theorem foldl_bindings_inline {r : Run κ} (hr : ∀ v ∈ r.bindings, v.type.interfaceName = none)
    (statements : List Statement) :
    ∀ v ∈ (statements.foldl (Run.step false) r).bindings, v.type.interfaceName = none := by
  induction statements generalizing r with
  | nil => exact hr
  | cons s rest ih =>
    apply ih
    cases s with
    | define name routine line => exact hr
    | declare name init line =>
      intro v hv
      rcases List.mem_append.mp hv with hv | hv
      · exact hr v hv
      · rw [List.mem_singleton.mp hv]
        exact TypeInfo.interfaceName_of_unmarked (settle_inline r.context _)

end Run

/-- The preference for interfaces changes nothing in a report but the names of interfaces. Without
it there are no interfaces, and no variable refers to one. -/
theorem preference_decides_names_only [Score κ] (path : String) (root : Node)
    (h : root.fault? = none) :
    ∃ named inline : Report κ,
      Report.ofTree true path root = .ok named ∧ Report.ofTree false path root = .ok inline ∧
      named.path = inline.path ∧
      named.bindings.map VariableInfo.unnamed = inline.bindings.map VariableInfo.unnamed ∧
      named.functions.map FunctionInfo.unnamed = inline.functions.map FunctionInfo.unnamed ∧
      inline.interfaces = [] ∧ ∀ v ∈ inline.bindings, v.type.interfaceName = none := by
  have hstart : Run.Matches ({} : Run κ) {} := ⟨fun _ => rfl, rfl, rfl⟩
  have hruns := hstart.foldl true false root.script
  have hempty := Run.foldl_registry_inline (r := ({} : Run κ)) rfl root.script
  refine ⟨_, _, Report.ofTree_eq_ok h true path, Report.ofTree_eq_ok h false path, rfl,
    hruns.bindings, hruns.functions, ?_, ?_⟩
  · exact congrArg Registry.interfaces hempty
  · exact Run.foldl_bindings_inline (fun v hv => by cases hv) root.script

def getterScript : Node :=
  .branch "program" [.letting "a" (.numbers ["w", "x", "y", "z"]),
    .branch "function_declaration"
      [(Node.leaf "identifier" "f").inRole "name",
        (Node.branch "formal_parameters" []).inRole "parameters",
        (Node.branch "statement_block"
          [.branch "return_statement" [.leaf "identifier" "a"]]).inRole "body"]]

theorem preference_decides_names_only_getter :
    getterScript.fault? = none ∧
    (Report.ofStatements true "getter" getterScript.script : Report Float).functions.map
      (fun f => f.result.interfaceName) = [some "Interface1"] ∧
    (Report.ofStatements false "getter" getterScript.script : Report Float).functions.map
      (fun f => f.result.interfaceName) = [none] ∧
    ∃ named inline : Report Float,
      Report.ofTree true "getter" getterScript = .ok named ∧
      Report.ofTree false "getter" getterScript = .ok inline ∧
      named.path = inline.path ∧
      named.bindings.map VariableInfo.unnamed = inline.bindings.map VariableInfo.unnamed ∧
      named.functions.map FunctionInfo.unnamed = inline.functions.map FunctionInfo.unnamed ∧
      inline.interfaces = [] ∧ ∀ v ∈ inline.bindings, v.type.interfaceName = none :=
  ⟨rfl, rfl, rfl, preference_decides_names_only "getter" getterScript rfl⟩

end ScriptTyping
