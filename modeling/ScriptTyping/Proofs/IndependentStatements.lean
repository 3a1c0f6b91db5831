import ScriptTyping.Proofs.MovedTrees
import ScriptTyping.Proofs.NamesRead
import ScriptTyping.Proofs.Outcomes

/-! # Independent statements

Two neighbours at the top level of a script may change places if they bind different names and
neither mentions the name of the other: each has the outcome that it had before, and so has every
other statement. The names of interfaces may change with the order in which the interfaces are
found, and lines with the place.
-/
namespace ScriptTyping

variable {κ : Type} [Score κ]

namespace Statement

theorem JudgedAlike.guess {env other : Env κ} {s : Statement} (h : s.JudgedAlike env other) :
    s.guess env = s.guess other := by
  cases s with
  | declare name init line => exact h
  | define name routine line => simp only [Statement.guess, Routine.signature, h.1, h.2]

theorem JudgedAlike.outcome {env other : Env κ} {s : Statement} (h : s.JudgedAlike env other)
    (prefer : Bool) : s.outcome prefer env = s.outcome prefer other := by
  have hentry : s.entry env = s.entry other := by
    cases s with
    | declare name init line =>
      have hinit : init.guess env = init.guess other := h
      simp only [entry, hinit]
    | define name routine line => simp only [entry, h.1, h.2]
  simp only [Statement.outcome, hentry, h.guess]

/-- What the name stands for does not matter for the statement. -/
def Ignores (κ : Type) [Score κ] (s : Statement) (name : String) : Prop :=
  ∀ env other : Env κ, env.AgreeOn (· ≠ name) other → s.JudgedAlike env other

theorem outcome_moved (m : Move) (prefer : Bool) (env : Env κ) (s : Statement) :
    (s.moved m).outcome prefer env = s.outcome prefer env := by
  cases s <;> rfl

end Statement

namespace Context

variable (prefer : Bool) (ctx : Context κ) {s t : Statement}

theorem after_moved (m : Move) (s : Statement) :
    ctx.after prefer (s.moved m) = ctx.after prefer s := by
  cases s <;> rfl

theorem outcomes_moved (m : Move) (statements : List Statement) :
    ctx.outcomes prefer (statements.map (Statement.moved m)) = ctx.outcomes prefer statements := by
  induction statements generalizing ctx with
  | nil => rfl
  | cons s rest ih =>
    simp only [List.map_cons, outcomes, Statement.outcome_moved, after_moved, ih]

/-- A statement that ignores the name bound before it is judged as if it came first. -/
theorem judged_after (h : t.Ignores κ s.name) :
    t.outcome prefer (ctx.after prefer s).env = t.outcome prefer ctx.env ∧
      (t.guess (ctx.after prefer s).env).outline = (t.guess ctx.env).outline := by
  -- The first statement changes the scope and the free name. The environment between the two
  -- takes the scope from after it and the free name from before it.
  let between : Env κ := { (ctx.after prefer s).env with freshName := ctx.registry.nextName }
  have hmirrors : (ctx.after prefer s).env.Mirrors between := ⟨fun _ => rfl, rfl⟩
  have hagree : between.AgreeOn (· ≠ s.name) ctx.env := by
    refine ⟨?_, rfl, rfl⟩
    intro id hid
    change (ctx.after prefer s).scope.lookup? id = ctx.scope.lookup? id
    simp only [after, Context.bind, Scope.lookup?_bind_of_ne _ _ hid, Run.settle_scope]
  have halike := h between ctx.env hagree
  constructor
  · exact (t.outcome_congr hmirrors prefer).trans (halike.outcome prefer)
  · exact (t.guess_outline hmirrors).trans (congrArg Guess.outline halike.guess)

/-- Either order of two independent statements leaves the same scope behind. -/
theorem after_comm (hne : s.name ≠ t.name) (hs : s.Ignores κ t.name) (ht : t.Ignores κ s.name) :
    ((ctx.after prefer s).after prefer t).env.Mirrors
      ((ctx.after prefer t).after prefer s).env where
  scope := by
    intro id
    obtain ⟨htunnamed, htmark⟩ := Prod.mk.inj (ctx.judged_after prefer ht).2
    obtain ⟨hsunnamed, hsmark⟩ := Prod.mk.inj (ctx.judged_after prefer hs).2
    change ((after prefer (after prefer ctx s) t).scope.lookup? id).map Guess.outline =
      ((after prefer (after prefer ctx t) s).scope.lookup? id).map Guess.outline
    simp only [lookup?_after, htunnamed, htmark, hsunnamed, hsmark]
    by_cases hids : id = s.name
    · subst id
      simp only [hne, ↓reduceIte]
    · simp only [hids, ↓reduceIte]
  describesObjects := rfl

/-- Independent neighbours exchange their outcomes when they change places. -/
theorem outcomes_swap (hne : s.name ≠ t.name) (hs : s.Ignores κ t.name)
    (ht : t.Ignores κ s.name) (rest : List Statement) :
    let later := ((ctx.after prefer s).after prefer t).outcomes prefer rest
    ctx.outcomes prefer (s :: t :: rest) =
        s.outcome prefer ctx.env :: t.outcome prefer ctx.env :: later ∧
      ctx.outcomes prefer (t :: s :: rest) =
        t.outcome prefer ctx.env :: s.outcome prefer ctx.env :: later := by
  have hrest := outcomes_congr (ctx.after_comm prefer hne hs ht) prefer rest
  constructor
  · rw [outcomes, outcomes, (ctx.judged_after prefer ht).1]
  · rw [outcomes, outcomes, (ctx.judged_after prefer hs).1, hrest]

end Context

namespace Node

/-- The node is a declaration of a single variable with a plain name, or of a function. -/
inductive Introduces : Node → String → Prop where
  | binding {n declarator id : Node} (kind : n.kind ∈ Reading.variableDeclarations)
      (single : (n.parts.filter fun c => c.kind == "variable_declarator") = [declarator])
      (name : declarator.field? "name" = some id) (plain : id.kind = "identifier") :
    Introduces n id.label.text
  | function {n id : Node} (kind : n.kind ∈ Reading.functionDeclarations)
      (name : n.field? "name" = some id) (named : id.label.text ≠ "") :
    Introduces n id.label.text

theorem declared_eq_nil {n : Node} (h : n.kind ≠ "variable_declarator") :
    n.reading.declared = [] := by
  have hkind : (n.label.kind == "variable_declarator") = false := by simpa [kind] using h
  rw [reading_eq]
  simp only [Reading.ofChildren, Reading.declaredOf, hkind, Bool.false_and, Bool.false_eq_true,
    ↓reduceIte]
  split <;> rfl

theorem flatMap_declared (ns : List Node) :
    (ns.flatMap fun c => c.reading.declared) =
      (ns.filter fun c => c.kind == "variable_declarator").flatMap fun c => c.reading.declared := by
  induction ns with
  | nil => rfl
  | cons n rest ih =>
    by_cases h : n.kind = "variable_declarator"
    · simp [h, ih]
    · simp [h, ih, declared_eq_nil h]

theorem statements_of_variables {n : Node} (h : n.kind ∈ Reading.variableDeclarations) :
    n.reading.statements =
      (n.parts.filter fun c => c.kind == "variable_declarator").flatMap
        fun c => c.reading.declared := by
  have hexport : (n.label.kind == "export_statement") = false := by
    rcases List.mem_pair.mp h with h | h <;> simp [show n.label.kind = _ from h]
  have hkind : Reading.variableDeclarations.contains n.label.kind = true :=
    List.contains_iff_mem.mpr h
  rw [reading_eq, ← flatMap_declared]
  simp only [Reading.ofChildren, Reading.statementsOf, hexport, hkind, Bool.false_eq_true,
    ↓reduceIte, partsOf_readChildren, List.flatMap_map]

theorem statements_of_function {n id : Node} (h : n.kind ∈ Reading.functionDeclarations)
    (hname : n.field? "name" = some id) (hnamed : id.label.text ≠ "") :
    ∃ routine, n.reading.statements = [.define id.label.text routine n.label.line] := by
  have hkinds : (n.label.kind == "export_statement") = false ∧
      Reading.variableDeclarations.contains n.label.kind = false := by
    rcases List.mem_pair.mp h with h | h <;>
      simp [show n.label.kind = _ from h, Reading.variableDeclarations]
  have hkind : Reading.functionDeclarations.contains n.label.kind = true :=
    List.contains_iff_mem.mpr h
  have htext : id.label.text? = some id.label.text := by simp [Label.text?, hnamed]
  refine ⟨Reading.routineOf (readChildren n.children), ?_⟩
  rw [reading_eq]
  simp only [Reading.ofChildren, Reading.statementsOf, hkinds, hkind, Bool.false_eq_true,
    ↓reduceIte, field?_readChildren, hname, Option.map_some, Option.bind_some, htext]

theorem declared_of_declarator {n id : Node} (h : n.kind = "variable_declarator")
    (hname : n.field? "name" = some id) (hplain : id.kind = "identifier") :
    ∃ init, n.reading.declared = [.declare id.label.text init n.label.line] := by
  have hkind : n.label.kind = "variable_declarator" := h
  have hidentifier : id.label.kind = "identifier" := hplain
  refine ⟨Reading.operand (readChildren n.children) "value", ?_⟩
  rw [reading_eq]
  simp only [Reading.ofChildren, Reading.declaredOf, field?_readChildren, hname, Option.map_some,
    hkind, hidentifier, beq_self_eq_true, Bool.and_self, ↓reduceIte]

theorem Introduces.statement {n : Node} {name : String} (h : n.Introduces name) :
    ∃ s, n.reading.statements = [s] ∧ s.name = name := by
  cases h with
  | @binding declarator id kind single name plain =>
    have hmem : declarator ∈ n.parts.filter fun c => c.kind == "variable_declarator" := by
      simp [single]
    obtain ⟨init, hdeclared⟩ :=
      declared_of_declarator (by simpa using (List.mem_filter.mp hmem).2) name plain
    refine ⟨.declare id.label.text init declarator.label.line, ?_, rfl⟩
    rw [statements_of_variables kind, single, List.flatMap_singleton, hdeclared]
  | @function id kind name named =>
    obtain ⟨routine, hstatements⟩ := statements_of_function kind name named
    exact ⟨_, hstatements, rfl⟩

theorem ignores_of_notMem {n : Node} {s : Statement} (hs : s ∈ n.reading.statements) {name : String}
    (h : name ∉ n.names) : s.Ignores κ name := by
  intro env other hagree
  have hnames : ∀ id ∈ n.names, id ≠ name := by
    intro id hid heq
    exact h (heq ▸ hid)
  exact (n.reading_alike hagree hnames).statements s hs

end Node

/-- A tree, and the tree in which two neighbours at the top level have changed places. What changed
places, and what follows, may have moved, and the order of offsets in each node is kept. -/
structure Swap (root other : Node) where
  before : List Node
  first : Node
  second : Node
  after : List Node
  moveFirst : Move
  moveSecond : Move
  moveAfter : Move
  orderFirst : moveFirst.KeepsOrder first.offsets
  orderSecond : moveSecond.KeepsOrder second.offsets
  orderAfter : ∀ n ∈ after, moveAfter.KeepsOrder n.offsets
  parts : root.parts = before ++ first :: second :: after
  swapped : other.parts = before ++ second.moved moveSecond :: first.moved moveFirst ::
    after.map (Node.moved moveAfter)
  faulty : other.label.faulty = root.label.faulty

namespace Swap

variable {root other : Node} (swap : Swap root other)

/-- The statements before the two. -/
def earlier : List Statement := swap.before.flatMap fun n => n.reading.statements

/-- The statements after the two. -/
def later : List Statement := swap.after.flatMap fun n => n.reading.statements

variable {s t : Statement}

theorem script_eq (hs : swap.first.reading.statements = [s])
    (ht : swap.second.reading.statements = [t]) :
    root.script = swap.earlier ++ s :: t :: swap.later := by
  simp [Node.script, swap.parts, hs, ht, earlier, later]

theorem script_swapped (hs : swap.first.reading.statements = [s])
    (ht : swap.second.reading.statements = [t]) :
    other.script = swap.earlier ++ t.moved swap.moveSecond :: s.moved swap.moveFirst ::
      swap.later.map (Statement.moved swap.moveAfter) := by
  have hafter : (swap.after.flatMap fun n => (n.moved swap.moveAfter).reading.statements) =
      swap.later.map (Statement.moved swap.moveAfter) := by
    rw [later, List.map_flatMap]
    apply List.flatMap_congr
    intro n hn
    exact Node.statements_moved (swap.orderAfter n hn)
  simp [Node.script, swap.swapped, Node.statements_moved swap.orderFirst,
    Node.statements_moved swap.orderSecond, hs, ht, earlier, List.flatMap_map, hafter]

/-- The outcomes of the two are exchanged, and no other changes. -/
theorem outcomes_exchanged (prefer : Bool) (hs : swap.first.reading.statements = [s])
    (ht : swap.second.reading.statements = [t]) (hne : s.name ≠ t.name)
    (hsignores : s.Ignores κ t.name) (htignores : t.Ignores κ s.name) :
    let start : Context κ := {}
    let ctx := swap.earlier.foldl (Context.after prefer) start
    let later := ((ctx.after prefer s).after prefer t).outcomes prefer swap.later
    start.outcomes prefer root.script = start.outcomes prefer swap.earlier ++
        s.outcome prefer ctx.env :: t.outcome prefer ctx.env :: later ∧
      start.outcomes prefer other.script = start.outcomes prefer swap.earlier ++
        t.outcome prefer ctx.env :: s.outcome prefer ctx.env :: later := by
  intro start ctx later
  obtain ⟨hinOrder, hexchanged⟩ := ctx.outcomes_swap prefer hne hsignores htignores swap.later
  constructor
  · rw [swap.script_eq hs ht, Context.outcomes_append, hinOrder]
  · rw [swap.script_swapped hs ht, Context.outcomes_append, ← hexchanged]
    simp only [Context.outcomes, Statement.outcome_moved, Context.after_moved,
      Context.outcomes_moved, ctx]

end Swap

/-- Independent declarations commute. When two neighbours at the top level that bind different names
and do not mention each other's change places, the report has the same entries, up to lines and the
names of interfaces, with those of the two exchanged; and for each hash there is an interface with
the same number of uses. -/
theorem independent_declarations_commute (prefer : Bool) (path : String) {root other : Node}
    (swap : Swap root other) (h : root.fault? = none) {x y : String}
    (hfirst : swap.first.Introduces x) (hsecond : swap.second.Introduces y) (hne : x ≠ y)
    (hx : y ∉ swap.first.names) (hy : x ∉ swap.second.names) :
    ∃ report swapped : Report κ,
      Report.ofTree prefer path root = .ok report ∧
      Report.ofTree prefer path other = .ok swapped ∧
      (∃ earlier first second later,
        earlier.map Entry.name = swap.earlier.map Statement.name ∧
        first.name = x ∧ second.name = y ∧
        later.map Entry.name = swap.later.map Statement.name ∧
        report.Lists (earlier ++ first :: second :: later) ∧
        swapped.Lists (earlier ++ second :: first :: later)) ∧
      (report.interfaces.map fun i => (i.hash, i.usageCount)).Perm
        (swapped.interfaces.map fun i => (i.hash, i.usageCount)) := by
  obtain ⟨s, hs, rfl⟩ := hfirst.statement
  obtain ⟨t, ht, rfl⟩ := hsecond.statement
  have hother : other.fault? = none := by
    rw [Node.fault?_eq_none_iff] at h ⊢
    rw [swap.faulty, h]
  have hsignores : s.Ignores κ t.name := Node.ignores_of_notMem (by simp [hs]) hx
  have htignores : t.Ignores κ s.name := Node.ignores_of_notMem (by simp [ht]) hy
  obtain ⟨houtcomes, hexchanged⟩ :=
    swap.outcomes_exchanged prefer hs ht hne hsignores htignores
  refine ⟨_, _, Report.ofTree_eq_ok h prefer path, Report.ofTree_eq_ok hother prefer path, ?_, ?_⟩
  · have hlists := Report.ofStatements_lists (κ := κ) prefer path root.script
    have hswapped := Report.ofStatements_lists (κ := κ) prefer path other.script
    rw [houtcomes, List.map_append] at hlists
    rw [hexchanged, List.map_append] at hswapped
    refine ⟨_, _, _, _, ?_, s.name_entry _, t.name_entry _, ?_, hlists, hswapped⟩
    · rw [List.map_map]
      exact Context.name_outcomes prefer {} swap.earlier
    · rw [List.map_map]
      exact Context.name_outcomes prefer _ swap.later
  · apply Report.uses_perm_of_outcomes path
    rw [houtcomes, hexchanged]
    exact (List.Perm.swap _ _ _).append_left _

/-- The node on another row, with forty bytes to a row. -/
def Node.onRow (row : Nat) (n : Node) : Node :=
  n.moved ⟨(· + 40 * row), (· + row), Position.column⟩

def lettingShapes : Node :=
  .branch "program" [.letting "a" (.numbers ["w", "x", "y", "z"]),
    (Node.letting "b" (.numbers ["p", "q", "r", "s"])).onRow 1,
    (Node.letting "c" (.leaf "identifier" "a")).onRow 2]

def lettingShapesSwapped : Node :=
  .branch "program" [.letting "b" (.numbers ["p", "q", "r", "s"]),
    (Node.letting "a" (.numbers ["w", "x", "y", "z"])).onRow 1,
    (Node.letting "c" (.leaf "identifier" "a")).onRow 2]

def lettingShapesSwap : Swap lettingShapes lettingShapesSwapped where
  before := []
  first := .letting "a" (.numbers ["w", "x", "y", "z"])
  second := (Node.letting "b" (.numbers ["p", "q", "r", "s"])).onRow 1
  after := [(Node.letting "c" (.leaf "identifier" "a")).onRow 2]
  moveFirst := ⟨(· + 40), (· + 1), Position.column⟩
  moveSecond := ⟨(· - 40), (· - 1), Position.column⟩
  moveAfter := ⟨id, id, Position.column⟩
  orderFirst := by decide
  orderSecond := by decide
  orderAfter := by
    intro n hn
    rw [List.mem_singleton.mp hn]
    decide
  parts := rfl
  swapped := rfl
  faulty := rfl

theorem independent_declarations_commute_shapes :
    lettingShapes.fault? = none ∧
    lettingShapesSwap.first.names = ["a"] ∧ lettingShapesSwap.second.names = ["b"] ∧
    ∃ report swapped : Report Float,
      Report.ofTree true "shapes" lettingShapes = .ok report ∧
      Report.ofTree true "shapes" lettingShapesSwapped = .ok swapped ∧
      (∃ earlier first second later,
        earlier.map Entry.name = lettingShapesSwap.earlier.map Statement.name ∧
        first.name = "a" ∧ second.name = "b" ∧
        later.map Entry.name = lettingShapesSwap.later.map Statement.name ∧
        report.Lists (earlier ++ first :: second :: later) ∧
        swapped.Lists (earlier ++ second :: first :: later)) ∧
      (report.interfaces.map fun i => (i.hash, i.usageCount)).Perm
        (swapped.interfaces.map fun i => (i.hash, i.usageCount)) := by
  let a := (Node.leaf "identifier" "a").inRole "name"
  have hfirst : lettingShapesSwap.first.Introduces a.label.text :=
    .binding List.mem_cons_self rfl rfl rfl
  let b := ((Node.leaf "identifier" "b").inRole "name").onRow 1
  have hsecond : lettingShapesSwap.second.Introduces b.label.text :=
    .binding List.mem_cons_self rfl rfl rfl
  exact ⟨rfl, rfl, rfl, independent_declarations_commute true "shapes" lettingShapesSwap rfl
    hfirst hsecond (by decide) (by decide) (by decide)⟩

end ScriptTyping
