import ScriptTyping.Proofs.NamingIndependence
import ScriptTyping.Proofs.RegistryCounts

/-! # Outcomes of statements

What a statement adds to a report, up to lines and the names of interfaces, is its outcome: an
entry and, if a shape is promoted, a use of the hash of the shape. Outcomes depend on the names in
scope only, and on the guesses for these only up to names. The outcomes of all statements make up
the entries of a report and the uses of its interfaces.
-/
namespace ScriptTyping

variable {κ : Type}

/-- The guess without its name. The mark is kept. -/
def Guess.outline (g : Guess κ) : Guess κ × Bool := (g.unnamed, g.needsInterface)

/-- The environments bind the same names to guesses that differ in the names of interfaces only. -/
structure Env.Mirrors (env other : Env κ) : Prop where
  scope : ∀ id, (env.scope.lookup? id).map Guess.outline =
    (other.scope.lookup? id).map Guess.outline
  describesObjects : env.describesObjects = other.describesObjects

section Outlines
variable [Score κ]

namespace Guess

theorem outline_merge {g h g₁ h₁ : Guess κ} (hg : g.outline = g₁.outline)
    (hh : h.outline = h₁.outline) : (g.merge h).outline = (g₁.merge h₁).outline := by
  obtain ⟨hgu, hgm⟩ := Prod.mk.inj hg
  obtain ⟨hhu, hhm⟩ := Prod.mk.inj hh
  have halike : g.alike h = g₁.alike h₁ := by rw [← alike_unnamed, hgu, hhu, alike_unnamed]
  have hgunknown : g.isUnknown = g₁.isUnknown := by rw [← isUnknown_unnamed, hgu, isUnknown_unnamed]
  have hhunknown : h.isUnknown = h₁.isUnknown := by rw [← isUnknown_unnamed, hhu, isUnknown_unnamed]
  have hgconfidence : g.confidence = g₁.confidence := by
    rw [← confidence_unnamed, hgu, confidence_unnamed]
  have hhconfidence : h.confidence = h₁.confidence := by
    rw [← confidence_unnamed, hhu, confidence_unnamed]
  apply Prod.ext
  · simp only [outline, unnamed_merge, hgu, hhu]
  · simp only [outline, merge, apply_ite needsInterface, halike, hgunknown, hhunknown, hgconfidence,
      hhconfidence, hgm, hhm]
    rfl

omit [Score κ] in
theorem outline_of_inline {g h : Guess κ} (hunnamed : g.unnamed = h.unnamed) (hg : g.Inline)
    (hh : h.Inline) : g.outline = h.outline :=
  Prod.ext hunnamed (hg.1.trans hh.1.symm)

theorem outline_ofBinary (op : Option BinaryOp) {left right left₁ right₁ : Guess κ}
    (hl : left.outline = left₁.outline) (hr : right.outline = right₁.outline) :
    (ofBinary op left right).outline = (ofBinary op left₁ right₁).outline := by
  obtain ⟨hlu, _⟩ := Prod.mk.inj hl
  obtain ⟨hru, _⟩ := Prod.mk.inj hr
  rcases op with _ | op
  · rfl
  · cases op with
    | comparison | arithmetic => rfl
    | plus =>
      have hunnamed : (ofSum left right).unnamed = (ofSum left₁ right₁).unnamed := by
        have hsum := unnamed_ofBinary (some .plus) left right
        rw [hlu, hru, ← unnamed_ofBinary] at hsum
        exact hsum
      exact outline_of_inline hunnamed (inline_ofSum _ _) (inline_ofSum _ _)
    | logical => exact outline_merge hl hr
    | coalesce =>
      have hconfidence : right.confidence = right₁.confidence := by
        rw [← confidence_unnamed, hru, confidence_unnamed]
      simp only [ofBinary, apply_ite outline, hconfidence, hr, outline_merge hl hr]

theorem outline_ofMembers (name other : String) (slots : Option (List (Slot κ))) :
    (ofMembers name slots).outline =
      (ofMembers other (slots.map (List.map Slot.unnamed))).outline := by
  apply Prod.ext (unnamed_ofMembers name other slots)
  rcases slots with _ | _ | ⟨s, rest⟩
  · rfl
  · rfl
  · have hplaced := Slot.foldl_place_unnamed (s :: rest) []
    have hnested : (Slot.isNested ∘ Slot.unnamed : Slot κ → Bool) = Slot.isNested := by
      funext t
      simp only [Function.comp_apply, Slot.isNested, Slot.unnamed, kind_unnamed]
    simp only [outline, ofMembers, Option.map_some, List.map_cons, ofSlots]
    simp only [List.map_cons, List.map_nil] at hplaced
    rw [← hplaced, List.length_map, List.any_map, hnested]

end Guess

variable {env other : Env κ}

omit [Score κ] in
theorem Env.Mirrors.matches (h : env.Mirrors other) : env.Matches other where
  scope := by
    intro id
    have hid := congrArg (Option.map Prod.fst) (h.scope id)
    simpa only [Option.map_map, Function.comp_def, Guess.outline] using hid
  describesObjects := h.describesObjects

theorem Env.Mirrors.guessName (h : env.Mirrors other) (id : String) :
    (env.guessName id).outline = (other.guessName id).outline := by
  simp only [Env.guessName, ← Option.getD_map Guess.outline, h.scope id]

theorem Expr.guess_outline (h : env.Mirrors other) :
    (e : Expr) → (e.guess env).outline = (e.guess other).outline
  | .name id => h.guessName id
  | .array items spread =>
    Guess.outline_of_inline ((Expr.array items spread).guess_unnamed h.matches)
      (Guess.inline_ofItems _ spread) (Guess.inline_ofItems _ spread)
  | .object members => by
    have hslots := Member.slots?_unnamed h.matches members
    rw [Expr.guess, Expr.guess, h.describesObjects]
    split
    · rw [Guess.outline_ofMembers _ "", hslots, ← Guess.outline_ofMembers]
    · rfl
  | .binary op left right =>
    Guess.outline_ofBinary op (left.guess_outline h) (right.guess_outline h)
  | .conditional consequence alternative =>
    Guess.outline_merge (consequence.guess_outline h) (alternative.guess_outline h)
  | .methodCall receiver method =>
    Guess.outline_of_inline ((Expr.methodCall receiver method).guess_unnamed h.matches)
      (Guess.inline_ofMethodCall _ method) (Guess.inline_ofMethodCall _ method)
  | .element receiver =>
    Guess.outline_of_inline ((Expr.element receiver).guess_unnamed h.matches)
      (Guess.inline_ofElement _) (Guess.inline_ofElement _)
  | .uncovered | .unresolved | .privateName | .literal _ | .unary _ | .call _ => rfl

end Outlines

/-- An entry of a report without its line and without the names of interfaces. -/
inductive Entry (κ : Type) where
  | binding (name : String) (type : TypeInfo κ)
  | function (name : String) (params : List (ParamInfo κ)) (result : TypeInfo κ)

namespace Entry

def name : Entry κ → String
  | binding name _ | function name _ _ => name

def isBinding : Entry κ → Bool
  | binding _ _ => true
  | function _ _ _ => false

def ofBinding (v : VariableInfo κ) : Entry κ := binding v.name v.type.unnamed

def ofFunction (f : FunctionInfo κ) : Entry κ :=
  function f.name (f.params.map ParamInfo.unnamed) f.result.unnamed

end Entry

/-- The report has just these entries, the variables and the functions each in their order. -/
structure Report.Lists (r : Report κ) (entries : List (Entry κ)) : Prop where
  bindings : r.bindings.map Entry.ofBinding = entries.filter Entry.isBinding
  functions : r.functions.map Entry.ofFunction = entries.filter fun e => !e.isBinding

/-- What a statement adds to a report: an entry, and the hash of a shape that it promotes. -/
structure Outcome (κ : Type) where
  entry : Entry κ
  hash? : Option String

namespace Statement

def name : Statement → String
  | declare name _ _ | define name _ _ => name

variable [Score κ]

/-- The guess for what the statement introduces. -/
def guess (env : Env κ) : Statement → Guess κ
  | declare _ init _ => init.guess env
  | define _ routine _ => routine.signature env

def entry (env : Env κ) : Statement → Entry κ
  | declare name init _ => .binding name (.ofGuess (init.guess env).unnamed)
  | define name routine _ =>
    let guesses := (routine.paramGuesses env).map Guess.unnamed
    .function name
      ((routine.params.zip guesses).map fun (p, g) => { name := p.name?, type := .ofGuess g })
      (.ofGuess (routine.result env).unnamed)

def outcome (prefer : Bool) (env : Env κ) (s : Statement) : Outcome κ :=
  let g := s.guess env
  { entry := s.entry env
    hash? := if prefer && g.needsInterface then some (shapeHash g.properties) else none }

variable {env other : Env κ}

theorem name_entry (env : Env κ) (s : Statement) : (s.entry env).name = s.name := by
  cases s <;> rfl

theorem guess_outline (h : env.Mirrors other) (s : Statement) :
    (s.guess env).outline = (s.guess other).outline := by
  cases s with
  | declare name init line => exact init.guess_outline h
  | define name routine line => simp only [guess, routine.signature_congr h.matches]

theorem outcome_congr (h : env.Mirrors other) (prefer : Bool) (s : Statement) :
    s.outcome prefer env = s.outcome prefer other := by
  have hentry : s.entry env = s.entry other := by
    cases s with
    | declare name init line => simp only [entry, init.guess_unnamed h.matches]
    | define name routine line =>
      have hparams := Param.guessAll_unnamed h.matches routine.params
      have hresult := routine.body.guess_unnamed h.matches
      simp only [entry, Routine.paramGuesses, Routine.result, hparams, hresult]
  obtain ⟨hunnamed, hmark⟩ := Prod.mk.inj (s.guess_outline h)
  have hproperties : (s.guess env).properties = (s.guess other).properties := by
    rw [← Guess.properties_unnamed, hunnamed, Guess.properties_unnamed]
  simp only [outcome, hentry, hmark, hproperties]

end Statement

theorem Context.register_mark (ctx : Context κ) (g : Guess κ) :
    (ctx.register g).2.needsInterface = g.needsInterface := by
  unfold Context.register
  split
  · split <;> rfl
  · rfl

theorem Run.settle_outline (prefer : Bool) (ctx : Context κ) (g : Guess κ) :
    (settle prefer ctx g).2.outline = (g.unnamed, prefer && g.needsInterface) := by
  apply Prod.ext (settle_unnamed prefer ctx g)
  change (settle prefer ctx g).2.needsInterface = (prefer && g.needsInterface)
  by_cases hmark : g.needsInterface = true
  · rw [settle_marked hmark, hmark]
    cases prefer with
    | false => rfl
    | true => exact (ctx.register_mark g).trans hmark
  · have hfalse : g.needsInterface = false := by simpa using hmark
    simp only [settle, hfalse, Bool.not_false, ↓reduceIte, Bool.and_false]

namespace Context
variable [Score κ]

/-- The context after a statement. -/
def after (prefer : Bool) (ctx : Context κ) (s : Statement) : Context κ :=
  let (next, g) := Run.settle prefer ctx (s.guess ctx.env)
  next.bind s.name g

/-- What is in scope after a statement, up to names of interfaces. -/
theorem lookup?_after (prefer : Bool) (ctx : Context κ) (s : Statement) (id : String) :
    ((ctx.after prefer s).scope.lookup? id).map Guess.outline =
      if id = s.name then
        some ((s.guess ctx.env).unnamed, prefer && (s.guess ctx.env).needsInterface)
      else (ctx.scope.lookup? id).map Guess.outline := by
  simp only [after, Context.bind]
  split
  · next hid => rw [hid, Scope.lookup?_bind_self, Option.map_some, Run.settle_outline]
  · next hid => rw [Scope.lookup?_bind_of_ne _ _ hid, Run.settle_scope]

/-- The outcomes of statements, each where the run comes to it. -/
def outcomes (prefer : Bool) : Context κ → List Statement → List (Outcome κ)
  | _, [] => []
  | ctx, s :: rest => s.outcome prefer ctx.env :: outcomes prefer (ctx.after prefer s) rest

theorem after_mirrors {ctx other : Context κ} (h : ctx.env.Mirrors other.env) (prefer : Bool)
    (s : Statement) : (ctx.after prefer s).env.Mirrors (other.after prefer s).env where
  scope := by
    intro id
    obtain ⟨hunnamed, hmark⟩ := Prod.mk.inj (s.guess_outline h)
    have hid : (ctx.scope.lookup? id).map Guess.outline =
      (other.scope.lookup? id).map Guess.outline := h.scope id
    simp only [Context.env, lookup?_after] at hunnamed hmark ⊢
    rw [hunnamed, hmark, hid]
  describesObjects := rfl

theorem outcomes_congr {ctx other : Context κ} (h : ctx.env.Mirrors other.env) (prefer : Bool)
    (statements : List Statement) :
    ctx.outcomes prefer statements = other.outcomes prefer statements := by
  induction statements generalizing ctx other with
  | nil => rfl
  | cons s rest ih =>
    simp only [outcomes, s.outcome_congr h, ih (after_mirrors h prefer s)]

theorem outcomes_append (prefer : Bool) (ctx : Context κ) (statements more : List Statement) :
    ctx.outcomes prefer (statements ++ more) = ctx.outcomes prefer statements ++
      (statements.foldl (after prefer) ctx).outcomes prefer more := by
  induction statements generalizing ctx with
  | nil => rfl
  | cons s rest ih => simp only [List.cons_append, outcomes, ih, List.foldl_cons]

theorem name_outcomes (prefer : Bool) (ctx : Context κ) (statements : List Statement) :
    (ctx.outcomes prefer statements).map (fun o => o.entry.name) =
      statements.map Statement.name := by
  induction statements generalizing ctx with
  | nil => rfl
  | cons s rest ih =>
    simp only [outcomes, List.map_cons, ih, Statement.outcome, Statement.name_entry]

end Context

namespace Run
variable [Score κ]

theorem step_context (prefer : Bool) (r : Run κ) (s : Statement) :
    (r.step prefer s).context = r.context.after prefer s := by
  cases s with
  | declare name init line => rfl
  | define name routine line => rfl

theorem step_lists {r : Run κ} {path : String} {entries : List (Entry κ)}
    (h : (r.report path).Lists entries) (prefer : Bool) (s : Statement) :
    ((r.step prefer s).report path).Lists (entries ++ [s.entry r.context.env]) := by
  have hbindings := h.bindings
  have hfunctions := h.functions
  simp only [report] at hbindings hfunctions
  cases s with
  | declare name init line =>
    constructor
    · simp only [report, step, declare, List.map_append, List.filter_append, hbindings,
        List.map_cons, List.map_nil, Entry.ofBinding, TypeInfo.unnamed_ofGuess, settle_unnamed]
      rfl
    · simpa [report, step, declare, List.filter_append, Statement.entry, Entry.isBinding]
        using hfunctions
  | define name routine line =>
    constructor
    · simpa [report, step, define, List.filter_append, Statement.entry, Entry.isBinding]
        using hbindings
    · simp only [report, step, define, List.map_append, List.filter_append, hfunctions,
        List.map_cons, List.map_nil, Entry.ofFunction, ParamInfo.map_unnamed_zip,
        TypeInfo.unnamed_ofGuess]
      rfl

theorem foldl_lists {r : Run κ} {path : String} {entries : List (Entry κ)}
    (h : (r.report path).Lists entries) (prefer : Bool) (statements : List Statement) :
    ((statements.foldl (step prefer) r).report path).Lists
      (entries ++ (r.context.outcomes prefer statements).map Outcome.entry) := by
  induction statements generalizing r entries with
  | nil => simpa [Context.outcomes] using h
  | cons s rest ih =>
    have hrest := ih (step_lists h prefer s)
    rw [step_context, List.append_assoc] at hrest
    exact hrest

omit [Score κ] in
/-- Settling a guess makes a call exactly if the guess is marked and interfaces are preferred. -/
theorem Settles.counts {prefer : Bool} {ctx : Context κ} {g : Guess κ}
    {result : Context κ × Guess κ} (h : Settles prefer ctx g result) {calls : List Interface}
    (hcalls : ctx.registry.Counts calls) :
    ∃ more, result.1.registry.Counts (calls ++ more) ∧ more.map Interface.hash =
      (if prefer && g.needsInterface then some (shapeHash g.properties) else none).toList := by
  let call := Interface.ofShape ctx.registry.nextName g.properties
  cases h with
  | kept mark => exact ⟨[], by simpa using hcalls, by simp [mark]⟩
  | inlined mark off => exact ⟨[], by simpa using hcalls, by simp [off]⟩
  | reused mark on found =>
    refine ⟨[call], ?_, by simp [mark, on, call, Interface.ofShape]⟩
    have hreuse := hcalls.reuse (show ctx.registry.findByHash? call.hash = some _ from found)
    exact hreuse
  | added mark on name new =>
    refine ⟨[call], ?_, by simp [mark, on, call, Interface.ofShape]⟩
    have hadd := hcalls.add (show call.usageCount = 1 from rfl) new
      ctx.registry.nextName_notMem_names (.inl rfl)
    exact hadd

theorem step_counts {r : Run κ} (hr : r.context.Consistent) {calls : List Interface}
    (hcalls : r.context.registry.Counts calls) (prefer : Bool) (s : Statement) :
    ∃ more, (r.step prefer s).context.registry.Counts (calls ++ more) ∧
      more.map Interface.hash = (s.outcome prefer r.context.env).hash?.toList := by
  have hyields : r.context.env.Yields (s.guess r.context.env) := by
    cases s with
    | declare name init line => exact init.guess_yields r.context.env
    | define name routine line => exact .inline rfl rfl
  rw [step_context]
  exact (settle_settles hr hyields prefer).counts hcalls

theorem foldl_counts {r : Run κ} (hr : r.context.Consistent) {calls : List Interface}
    (hcalls : r.context.registry.Counts calls) (prefer : Bool) (statements : List Statement) :
    ∃ more, (statements.foldl (step prefer) r).context.registry.Counts (calls ++ more) ∧
      more.map Interface.hash =
        (r.context.outcomes prefer statements).filterMap Outcome.hash? := by
  induction statements generalizing r calls with
  | nil => exact ⟨[], by simpa using hcalls, rfl⟩
  | cons s rest ih =>
    obtain ⟨first, hfirst, hhash⟩ := step_counts hr hcalls prefer s
    obtain ⟨more, hmore, hhashes⟩ := ih (step_consistent hr prefer s) hfirst
    rw [step_context] at hhashes
    refine ⟨first ++ more, by rwa [← List.append_assoc], ?_⟩
    rw [List.map_append, hhash, hhashes, Context.outcomes, List.filterMap_cons]
    cases (s.outcome prefer r.context.env).hash? <;> rfl

end Run

namespace Report
variable [Score κ]

/-- The outcomes of the statements of a script are the entries of its report. -/
theorem ofStatements_lists (prefer : Bool) (path : String) (statements : List Statement) :
    (ofStatements prefer path statements : Report κ).Lists
      ((Context.outcomes prefer {} statements).map Outcome.entry) := by
  have hstart : (({} : Run κ).report path).Lists [] := ⟨rfl, rfl⟩
  exact Run.foldl_lists hstart prefer statements

/-- The interfaces of reports whose scripts have the same outcomes in some order have the same
uses. -/
theorem uses_perm_of_outcomes {prefer : Bool} (path : String) {statements others : List Statement}
    (h : (Context.outcomes prefer ({} : Context κ) statements).Perm
      (Context.outcomes prefer {} others)) :
    ((ofStatements prefer path statements : Report κ).interfaces.map
        fun i => (i.hash, i.usageCount)).Perm
      ((ofStatements prefer path others : Report κ).interfaces.map
        fun i => (i.hash, i.usageCount)) := by
  have hcounts := Run.foldl_counts (r := ({} : Run κ)) .empty .empty prefer
  obtain ⟨calls, hcalls, hhashes⟩ := hcounts statements
  obtain ⟨more, hmore, hothers⟩ := hcounts others
  apply hcalls.uses_perm hmore
  rw [List.nil_append, List.nil_append, hhashes, hothers]
  exact h.filterMap Outcome.hash?

end Report

end ScriptTyping
