import ScriptTyping.Proofs.Promotion

/-! # Runs over scripts

A run goes through the statements of a script from the left. Its declarations and definitions are
the statements together with what the run knows when it comes to them, so that an entry of the
report can be set against the guess that it was made from.
-/
namespace ScriptTyping

variable {κ : Type} [Score κ]

structure Declaration (κ : Type) where
  name : String
  guess : Guess κ
  line : Nat

/-- A function of a script with the run up to it and the statements after it. -/
structure Definition (κ : Type) where
  name : String
  routine : Routine
  line : Nat
  before : Run κ
  after : List Statement

namespace Run

/-- The variables that statements introduce, each guessed where the run comes to it. -/
def declarations (prefer : Bool) : Run κ → List Statement → List (Declaration κ)
  | _, [] => []
  | r, .declare name init line :: rest =>
    ⟨name, init.guess r.context.env, line⟩ ::
      declarations prefer (r.declare prefer name init line) rest
  | r, .define name routine line :: rest =>
    declarations prefer (r.define name routine line) rest

def definitions (prefer : Bool) : Run κ → List Statement → List (Definition κ)
  | _, [] => []
  | r, .declare name init line :: rest =>
    definitions prefer (r.declare prefer name init line) rest
  | r, .define name routine line :: rest =>
    ⟨name, routine, line, r, rest⟩ :: definitions prefer (r.define name routine line) rest

theorem step_consistent {r : Run κ} (hr : r.context.Consistent) (prefer : Bool) (s : Statement) :
    (r.step prefer s).context.Consistent := by
  cases s with
  | declare name init line =>
    have hs := settle_settles hr (init.guess_yields r.context.env) prefer
    obtain ⟨hc, hheld⟩ := hs.consistent hr
    exact hc.bind name hheld
  | define name routine line =>
    apply hr.bind name
    intro hmark
    cases hmark

theorem foldl_consistent {r : Run κ} (hr : r.context.Consistent) (prefer : Bool)
    (statements : List Statement) :
    (statements.foldl (step prefer) r).context.Consistent := by
  induction statements generalizing r with
  | nil => exact hr
  | cons s rest ih => exact ih (step_consistent hr prefer s)

/-- What is declared at some statement stays declared. -/
theorem step_declared_grows {r : Run κ} (hr : r.context.Consistent) (prefer : Bool)
    (s : Statement) :
    r.context.registry.declared <+: (r.step prefer s).context.registry.declared := by
  cases s with
  | declare name init line =>
    exact (settle_settles hr (init.guess_yields r.context.env) prefer).declared_grows
  | define name routine line => exact List.prefix_rfl

theorem foldl_declared_grows {r : Run κ} (hr : r.context.Consistent) (prefer : Bool)
    (statements : List Statement) :
    r.context.registry.declared <+:
      (statements.foldl (step prefer) r).context.registry.declared := by
  induction statements generalizing r with
  | nil => exact List.prefix_rfl
  | cons s rest ih =>
    exact (step_declared_grows hr prefer s).trans (ih (step_consistent hr prefer s))

/-- Where interfaces are not preferred, none is registered. -/
theorem foldl_registry_inline {r : Run κ} (hr : r.context.registry = {})
    (statements : List Statement) :
    (statements.foldl (step false) r).context.registry = {} := by
  induction statements generalizing r with
  | nil => exact hr
  | cons s rest ih =>
    apply ih
    cases s with
    | define name routine line => exact hr
    | declare name init line =>
      change (settle false r.context (init.guess r.context.env)).1.registry = {}
      unfold settle
      split
      · exact hr
      · exact hr

end Run

theorem Node.fault?_eq_none_iff {n : Node} : n.fault? = none ↔ n.label.faulty = false := by
  simp [Node.fault?]

theorem Report.ofTree_eq_ok {root : Node} (h : root.fault? = none) (prefer : Bool)
    (path : String) :
    (Report.ofTree prefer path root : Except Fault (Report κ)) =
      .ok (.ofStatements prefer path root.script) := by
  simp only [Report.ofTree, h]

namespace Node

def leaf (kind text : String) : Node := mk { kind, start := ⟨0, 0, 0⟩, text } []

def token (text : String) : Node :=
  mk { kind := text, named := false, start := ⟨0, 0, 0⟩, text } []

def branch (kind : String) (children : List Node) : Node :=
  mk { kind, start := ⟨0, 0, 0⟩, text := "" } children

def inRole (n : Node) (role : String) : Node := mk { n.label with field := some role } n.children

def atOffset (n : Node) (offset : Nat) : Node :=
  mk { n.label with start := ⟨offset, 0, offset⟩ } n.children

def numbers (keys : List String) : Node :=
  branch "object" (keys.map fun key =>
    branch "pair" [(leaf "property_identifier" key).inRole "key",
      (leaf "number" "1").inRole "value"])

def letting (name : String) (value : Node) : Node :=
  branch "lexical_declaration"
    [branch "variable_declarator" [(leaf "identifier" name).inRole "name", value.inRole "value"]]

def defining (name : String) (statements : List Node) : Node :=
  branch "function_declaration" [(leaf "identifier" name).inRole "name",
    (branch "formal_parameters" []).inRole "parameters",
    (branch "statement_block" statements).inRole "body"]

end Node

end ScriptTyping
