import ScriptTyping.Proofs.Layouts
import ScriptTyping.Proofs.RuleInduction

/-! # Inferred guesses

A guess is inferred if a judgement on a node gives it, in a scope that holds inferred guesses only.
The scope that a run leaves behind is such a scope: each of its statements stands at a node of the
tree.
-/
namespace ScriptTyping

variable {κ : Type} [Score κ]

/-- What inference gives on nodes of which `T` holds. -/
inductive Guess.Inferred (T : Node → Prop) : Guess κ → Prop where
  | expression {env : Env κ} (scope : env.scope.All (Inferred T)) {n : Option Node}
      (node : ∀ m, n = some m → T m) : Inferred T (Node.guess? env n)
  | declarator {env : Env κ} (scope : env.scope.All (Inferred T)) {n : Node} (node : T n) :
      Inferred T (n.variableGuess env)
  | shape {env : Env κ} (scope : env.scope.All (Inferred T)) {n : Node} (node : T n) :
      Inferred T (n.shape env)
  | result {env : Env κ} (scope : env.scope.All (Inferred T)) {n : Node} (node : T n) :
      Inferred T (n.result env)
  | param {env : Env κ} (scope : env.scope.All (Inferred T)) {n : Node} (node : T n) {g : Guess κ}
      (mem : g ∈ n.paramGuesses env) : Inferred T g
  | signature {env : Env κ} (scope : env.scope.All (Inferred T)) {n : Node} (node : T n) :
      Inferred T (n.signature env)
  | methodSignature {env : Env κ} (scope : env.scope.All (Inferred T)) {n : Node} (node : T n) :
      Inferred T (n.methodSignature env)
  | usage (name : String) (body : Option Node) : Inferred T (Node.usage name body)
  /-- A guess that a statement promotes to an interface, or takes the mark of promotion from. -/
  | settled (prefer : Bool) (ctx : Context κ) {g : Guess κ} (guess : Inferred T g) :
      Inferred T (Run.settle prefer ctx g).2

/-- What the rules keep holds of every inferred guess. -/
theorem Guess.Inferred.kept {P : Guess κ → Prop} {N : String → Prop} (hP : KeptByRules P N)
    {T : Node → Prop} (hT : ∀ n, T n → n.reading.routine.NamesParams N) {g : Guess κ}
    (h : g.Inferred T) : P g := by
  induction h with
  | expression scope node ih => exact Node.guess?_kept hP ih _
  | declarator scope node ih => exact Node.guess?_kept hP ih _
  | shape scope node ih => exact Node.shape_kept hP ih _
  | @result env scope n node ih => exact n.reading.routine.body.guess_kept hP ih
  | @param env scope n node g mem ih =>
    exact Param.guessAll_kept hP ih n.reading.routine.params g mem
  | @signature env scope n node ih => exact Routine.signature_kept hP ih (hT n node)
  | @methodSignature env scope n node ih =>
    exact hP.numbered (Param.guessAll_kept hP ih n.reading.routine.params)
      (n.reading.routine.body.guess_kept hP ih)
  | usage name body => exact hP.uses _
  | settled prefer ctx guess ih => exact hP.settled prefer ctx _ ih

/-- The property holds of a node and of all nodes below it. -/
def Node.Everywhere (p : Node → Prop) (n : Node) : Prop :=
  ∀ path m, n.descend? path = some m → p m

theorem Node.Everywhere.self {p : Node → Prop} {n : Node} (h : n.Everywhere p) : p n :=
  h [] n (by rw [Node.descend?])

theorem Node.Everywhere.child {p : Node → Prop} {n c : Node} (h : n.Everywhere p)
    (hc : c ∈ n.children) : c.Everywhere p := by
  intro path m hm
  obtain ⟨i, hi, rfl⟩ := List.mem_iff_getElem.mp hc
  apply h (i :: path) m
  rw [Node.descend?, List.getElem?_eq_getElem hi]
  exact hm

mutual

/-- Whether a test passes on a node and on all nodes below it. -/
def Node.all (test : Node → Bool) : Node → Bool
  | .mk label children => test (.mk label children) && Node.allOf test children

def Node.allOf (test : Node → Bool) : List Node → Bool
  | n :: rest => n.all test && Node.allOf test rest
  | [] => true

end

theorem Node.all_of_allOf {test : Node → Bool} {ns : List Node} (h : Node.allOf test ns = true) :
    ∀ n ∈ ns, n.all test = true := by
  induction ns with
  | nil => exact fun n hn => by cases hn
  | cons n rest ih =>
    rw [Node.allOf, Bool.and_eq_true] at h
    exact List.forall_mem_cons.mpr ⟨h.1, ih h.2⟩

theorem Node.everywhere_of_all {test : Node → Bool} {p : Node → Prop}
    (hp : ∀ n, test n = true → p n) {n : Node} (h : n.all test = true) : n.Everywhere p := by
  intro path
  induction path generalizing n with
  | nil =>
    intro m hm
    obtain rfl : n = m := by simpa [Node.descend?] using hm
    obtain ⟨label, children⟩ := n
    rw [Node.all, Bool.and_eq_true] at h
    exact hp _ h.1
  | cons i path ih =>
    intro m hm
    obtain ⟨label, children⟩ := n
    rw [Node.all, Bool.and_eq_true] at h
    rw [Node.descend?] at hm
    obtain ⟨c, hc, hbelow⟩ := Option.bind_eq_some_iff.mp hm
    exact ih (Node.all_of_allOf h.2 c (List.mem_of_getElem? hc)) m hbelow

/-- A property of nodes that goes down to their children. -/
def Node.Hereditary (T : Node → Prop) : Prop := ∀ n, T n → ∀ c ∈ n.children, T c

theorem Node.hereditary_everywhere (p : Node → Prop) : Hereditary (Everywhere p) :=
  fun _ hn _ hc => hn.child hc

/-- The statement is read from the node: from a declarator or from a function. -/
def Statement.StandsAt (n : Node) : Statement → Prop
  | .declare _ init _ => init = Reading.operand (Node.readChildren n.children) "value"
  | .define _ routine _ => routine = n.reading.routine

section Statements
variable {T : Node → Prop}

theorem Node.declared_standsAt {n : Node} {s : Statement} (h : s ∈ n.reading.declared) :
    s.StandsAt n := by
  rw [reading_eq] at h
  simp only [Reading.ofChildren, Reading.declaredOf] at h
  split at h
  · split at h
    · rw [List.mem_singleton.mp h]
      exact rfl
    · cases h
  · cases h

mutual

theorem Node.statements_stand (hT : Node.Hereditary T) : (n : Node) → T n →
    ∀ s ∈ n.reading.statements, ∃ m, T m ∧ s.StandsAt m
  | .mk label children, hn, s, hs => by
    have hchildren := Node.statements_stand_all hT children fun c hc => hT _ hn c hc
    rw [Node.reading_eq] at hs
    simp only [Reading.ofChildren, Reading.statementsOf] at hs
    split at hs
    · rw [Node.field?_readChildren] at hs
      cases hfield : (Node.mk label children).field? "declaration" with
      | none =>
        rw [hfield] at hs
        cases hs
      | some c =>
        rw [hfield] at hs
        exact hchildren c (List.mem_of_find?_eq_some hfield) s hs
    · split at hs
      · rw [Node.partsOf_readChildren, List.flatMap_map] at hs
        obtain ⟨c, hc, hdeclared⟩ := List.mem_flatMap.mp hs
        have hchild : c ∈ children := (List.mem_filter.mp hc).1
        exact ⟨c, hT _ hn c hchild, Node.declared_standsAt hdeclared⟩
      · split at hs
        · split at hs
          · refine ⟨_, hn, ?_⟩
            rw [List.mem_singleton.mp hs]
            exact rfl
          · cases hs
        · cases hs

theorem Node.statements_stand_all (hT : Node.Hereditary T) : (ns : List Node) → (∀ n ∈ ns, T n) →
    ∀ n ∈ ns, ∀ s ∈ n.reading.statements, ∃ m, T m ∧ s.StandsAt m
  | [], _, _, hm, _, _ => by cases hm
  | n :: rest, hall, m, hm, s, hs => by
    obtain ⟨hn, hrest⟩ := List.forall_mem_cons.mp hall
    have hfirst := Node.statements_stand hT n hn
    have hothers := Node.statements_stand_all hT rest hrest
    rcases List.mem_cons.mp hm with rfl | hm
    · exact hfirst s hs
    · exact hothers m hm s hs

end

theorem Node.script_stands (hT : Node.Hereditary T) {root : Node} (hroot : T root) :
    ∀ s ∈ root.script, ∃ m, T m ∧ s.StandsAt m := by
  intro s hs
  obtain ⟨c, hc, hmem⟩ := List.mem_flatMap.mp hs
  exact c.statements_stand hT (hT root hroot c (List.mem_filter.mp hc).1) s hmem

theorem Run.step_scope_inferred {r : Run κ} (hr : r.context.scope.All (Guess.Inferred T))
    (prefer : Bool) {s : Statement} {n : Node} (hn : T n) (hs : s.StandsAt n) :
    (r.step prefer s).context.scope.All (Guess.Inferred T) := by
  cases s with
  | declare name init line =>
    obtain rfl : init = _ := hs
    have hguess : (n.variableGuess r.context.env).Inferred T := .declarator hr hn
    rw [Node.variableGuess_eq] at hguess
    simp only [Run.step, Run.declare, Context.bind, Run.settle_scope]
    exact hr.bind name (.settled prefer r.context hguess)
  | define name routine line =>
    obtain rfl : routine = _ := hs
    have hguess : (n.signature r.context.env).Inferred T := .signature hr hn
    exact hr.bind name hguess

/-- A run over a tree binds inferred guesses only. -/
theorem Run.foldl_scope_inferred {r : Run κ} (hr : r.context.scope.All (Guess.Inferred T))
    (prefer : Bool) {statements : List Statement}
    (hs : ∀ s ∈ statements, ∃ n, T n ∧ s.StandsAt n) :
    (statements.foldl (Run.step prefer) r).context.scope.All (Guess.Inferred T) := by
  induction statements generalizing r with
  | nil => exact hr
  | cons s rest ih =>
    obtain ⟨⟨n, hn, hfirst⟩, hrest⟩ := List.forall_mem_cons.mp hs
    exact ih (Run.step_scope_inferred hr prefer hn hfirst) hrest

theorem Run.script_scope_inferred (hT : Node.Hereditary T) {root : Node} (hroot : T root)
    (prefer : Bool) :
    (root.script.foldl (Run.step prefer) ({} : Run κ)).context.scope.All (Guess.Inferred T) :=
  Run.foldl_scope_inferred (fun _ _ hg => by cases hg) prefer (Node.script_stands hT hroot)

/-- A name after a script, as an expression. -/
def Node.nameAfter (script : Node) (name : String) : Guess κ :=
  Node.guess (script.script.foldl (Run.step true) {}).context.env (leaf "identifier" name)

theorem Node.nameAfter_inferred (hT : Node.Hereditary T) {script : Node} (hscript : T script)
    {name : String} (hname : T (.leaf "identifier" name)) :
    (script.nameAfter name : Guess κ).Inferred T :=
  Guess.Inferred.expression (Run.script_scope_inferred hT hscript true)
    (n := some (.leaf "identifier" name)) fun _ hm => Option.some.inj hm ▸ hname

end Statements

end ScriptTyping
