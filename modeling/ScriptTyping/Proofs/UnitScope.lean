import ScriptTyping.Proofs.FunctionMentions
import ScriptTyping.Proofs.IndependentStatements

/-! # One scope for a script

Names are looked up in the one scope that a script has. The parameters of a function do not add to
it, so a name that the body of a function reads is judged as it is bound at the top level, also if it
is the name of a parameter. A name that is not read has no influence on the result.
-/
namespace ScriptTyping

variable {κ : Type}

def Member.isHidden : Member → Bool
  | .hidden => true
  | _ => false

/-- Whether the guess for an operation depends on its operands. -/
def BinaryOp.judgesOperands : Option BinaryOp → Bool
  | some .plus | some .logical | some .coalesce => true
  | _ => false

mutual

/-- The names that are looked up for a guess. -/
def Expr.reads : Expr → List String
  | .name id => [id]
  | .element receiver => receiver.reads
  | .methodCall receiver _ => receiver.reads
  | .conditional consequence alternative => consequence.reads ++ alternative.reads
  | .binary op left right => if BinaryOp.judgesOperands op then left.reads ++ right.reads else []
  | .object members => if members.any Member.isHidden then [] else Member.readsAll members
  | .array items _ => Expr.readsAll items
  | _ => []

def Expr.readsAll : List Expr → List String
  | [] => []
  | e :: rest => e.reads ++ Expr.readsAll rest

def Member.reads : Member → List String
  | .setter _ params => Param.readsFirst params
  | .getter _ body => body.reads
  | .method _ params body => Param.readsAll params ++ body.reads
  | .pair _ value => value.reads
  | .shorthand name => [name]
  | .hidden => []

def Member.readsAll : List Member → List String
  | [] => []
  | m :: rest => m.reads ++ Member.readsAll rest

def Param.reads : Param → List String
  | .defaulted _ value => value.reads
  | .rest _ binding => binding.reads
  | _ => []

def Param.readsAll : List Param → List String
  | [] => []
  | p :: rest => p.reads ++ Param.readsAll rest

def Param.readsFirst : List Param → List String
  | [] => []
  | p :: _ => p.reads

def Body.reads : Body → List String
  | .block returns => Return.readsAll returns
  | .expression e => e.reads
  | .absent => []

def Return.reads : Return → List String
  | .value e => e.reads
  | .bare => []

def Return.readsAll : List Return → List String
  | [] => []
  | r :: rest => r.reads ++ Return.readsAll rest

end

section Coincidence
variable [Score κ] {env other : Env κ} {P : String → Prop}

theorem Guess.ofBinary_congr {op : Option BinaryOp} (h : BinaryOp.judgesOperands op = false)
    (left right left' right' : Guess κ) : ofBinary op left right = ofBinary op left' right' := by
  rcases op with _ | (_ | _ | _ | _ | _)
  case some.plus | some.logical | some.coalesce => cases h
  all_goals rfl

theorem Member.slots?_of_hidden (env : Env κ) {members : List Member}
    (h : members.any isHidden = true) : slots? env members = none := by
  induction members with
  | nil => cases h
  | cons m rest ih =>
    rcases (Bool.or_eq_true ..).mp (List.any_cons ▸ h) with hm | hrest
    · cases m with
      | hidden => rfl
      | _ => cases hm
    · rw [slots?, ih hrest]
      cases m.slot? env <;> rfl

mutual

/-- Environments that agree on the names that are looked up give the same guess. -/
theorem Expr.guess_congr (hagree : env.AgreeOn P other) :
    (e : Expr) → (∀ id ∈ e.reads, P id) → e.guess env = e.guess other
  | .name id, h => hagree.guessName (h id (List.mem_singleton.mpr rfl))
  | .element receiver, h => by
    simp only [Expr.guess, receiver.guess_congr hagree h]
  | .methodCall receiver method, h => by
    simp only [Expr.guess, receiver.guess_congr hagree h]
  | .conditional consequence alternative, h => by
    obtain ⟨hc, ha⟩ := List.forall_mem_append.mp h
    simp only [Expr.guess, consequence.guess_congr hagree hc, alternative.guess_congr hagree ha]
  | .binary op left right, h => by
    simp only [Expr.guess]
    cases hop : BinaryOp.judgesOperands op with
    | false => exact Guess.ofBinary_congr hop _ _ _ _
    | true =>
      rw [Expr.reads, if_pos hop] at h
      obtain ⟨hl, hr⟩ := List.forall_mem_append.mp h
      rw [left.guess_congr hagree hl, right.guess_congr hagree hr]
  | .object members, h => by
    have hslots : Member.slots? env members = Member.slots? other members := by
      by_cases hhidden : members.any Member.isHidden = true
      · rw [Member.slots?_of_hidden env hhidden, Member.slots?_of_hidden other hhidden]
      · rw [Expr.reads, if_neg hhidden] at h
        exact Member.slots?_congr_of_reads hagree members h
    simp only [Expr.guess, hslots, hagree.freshName, hagree.describesObjects]
  | .array items spread, h => by
    simp only [Expr.guess, Expr.guessAll_congr hagree items h]
  | .uncovered, _ | .unresolved, _ | .privateName, _ | .literal _, _ | .unary _, _
  | .call _, _ => rfl

theorem Expr.guessAll_congr (hagree : env.AgreeOn P other) :
    (es : List Expr) → (∀ id ∈ Expr.readsAll es, P id) →
      Expr.guessAll env es = Expr.guessAll other es
  | [], _ => rfl
  | e :: rest, h => by
    obtain ⟨he, hrest⟩ := List.forall_mem_append.mp h
    rw [Expr.guessAll, Expr.guessAll, e.guess_congr hagree he, Expr.guessAll_congr hagree rest hrest]

theorem Member.slot?_congr (hagree : env.AgreeOn P other) :
    (m : Member) → (∀ id ∈ m.reads, P id) → m.slot? env = m.slot? other
  | .setter name params, h => by
    simp only [Member.slot?, Param.head?_congr hagree params h]
  | .getter name body, h => by simp only [Member.slot?, body.guess_congr hagree h]
  | .method name params body, h => by
    obtain ⟨hparams, hbody⟩ := List.forall_mem_append.mp h
    simp only [Member.slot?, Param.guessAll_congr hagree params hparams,
      body.guess_congr hagree hbody]
  | .pair name value, h => by simp only [Member.slot?, value.guess_congr hagree h]
  | .shorthand name, h => by
    simp only [Member.slot?, hagree.guessName (h name (List.mem_singleton.mpr rfl))]
  | .hidden, _ => rfl

theorem Member.slots?_congr_of_reads (hagree : env.AgreeOn P other) :
    (ms : List Member) → (∀ id ∈ Member.readsAll ms, P id) →
      Member.slots? env ms = Member.slots? other ms
  | [], _ => rfl
  | m :: rest, h => by
    obtain ⟨hm, hrest⟩ := List.forall_mem_append.mp h
    rw [Member.slots?, Member.slots?, m.slot?_congr hagree hm,
      Member.slots?_congr_of_reads hagree rest hrest]

theorem Param.guess_congr (hagree : env.AgreeOn P other) :
    (p : Param) → (∀ id ∈ p.reads, P id) → p.guess env = p.guess other
  | .defaulted _ value, h => value.guess_congr hagree h
  | .rest _ binding, h => by simp only [Param.guess, binding.guess_congr hagree h]
  | .plain _ _, _ | .arrayPattern, _ | .objectPattern, _ | .other, _ => rfl

theorem Param.guessAll_congr (hagree : env.AgreeOn P other) :
    (ps : List Param) → (∀ id ∈ Param.readsAll ps, P id) →
      Param.guessAll env ps = Param.guessAll other ps
  | [], _ => rfl
  | p :: rest, h => by
    obtain ⟨hp, hrest⟩ := List.forall_mem_append.mp h
    rw [Param.guessAll, Param.guessAll, p.guess_congr hagree hp,
      Param.guessAll_congr hagree rest hrest]

theorem Param.head?_congr (hagree : env.AgreeOn P other) :
    (ps : List Param) → (∀ id ∈ Param.readsFirst ps, P id) →
      (Param.guessAll env ps).head? = (Param.guessAll other ps).head?
  | [], _ => rfl
  | p :: _, h => congrArg some (p.guess_congr hagree h)

theorem Body.guess_congr (hagree : env.AgreeOn P other) :
    (b : Body) → (∀ id ∈ b.reads, P id) → b.guess env = b.guess other
  | .block returns, h => by
    simp only [Body.guess, Return.guessAll_congr hagree returns h]
  | .expression e, h => e.guess_congr hagree h
  | .absent, _ => rfl

theorem Return.guess_congr (hagree : env.AgreeOn P other) :
    (r : Return) → (∀ id ∈ r.reads, P id) → r.guess env = r.guess other
  | .value e, h => e.guess_congr hagree h
  | .bare, _ => rfl

theorem Return.guessAll_congr (hagree : env.AgreeOn P other) :
    (rs : List Return) → (∀ id ∈ Return.readsAll rs, P id) →
      Return.guessAll env rs = Return.guessAll other rs
  | [], _ => rfl
  | r :: rest, h => by
    obtain ⟨hr, hrest⟩ := List.forall_mem_append.mp h
    rw [Return.guessAll, Return.guessAll, r.guess_congr hagree hr,
      Return.guessAll_congr hagree rest hrest]

end

end Coincidence

namespace Statement

def reads : Statement → List String
  | define _ routine _ => Param.readsAll routine.params ++ routine.body.reads
  | declare _ init _ => init.reads

/-- The statement under another name. -/
def called (name : String) : Statement → Statement
  | define _ routine line => define name routine line
  | declare _ init line => declare name init line

def isDefinition : Statement → Bool
  | define _ _ _ => true
  | declare _ _ _ => false

theorem name_called (name : String) (s : Statement) : (s.called name).name = name := by
  cases s <;> rfl

theorem isDefinition_called (name : String) (s : Statement) :
    (s.called name).isDefinition = s.isDefinition := by
  cases s <;> rfl

variable [Score κ]

theorem guess_called (env : Env κ) (name : String) (s : Statement) :
    (s.called name).guess env = s.guess env := by
  cases s <;> rfl

theorem guess_congr {env other : Env κ} {P : String → Prop} (hagree : env.AgreeOn P other)
    {s : Statement} (h : ∀ id ∈ s.reads, P id) : s.guess env = s.guess other := by
  cases s with
  | declare name init line => exact init.guess_congr hagree h
  | define name routine line =>
    obtain ⟨hparams, hbody⟩ := List.forall_mem_append.mp h
    simp only [guess, Routine.signature, Routine.paramGuesses, Routine.result,
      Param.guessAll_congr hagree _ hparams, routine.body.guess_congr hagree hbody]

end Statement

/-- What becomes of a guess depends on the registry only. -/
theorem Run.settle_congr {ctx other : Context κ} (h : ctx.registry = other.registry) (prefer : Bool)
    (g : Guess κ) :
    (settle prefer ctx g).1.registry = (settle prefer other g).1.registry ∧
      (settle prefer ctx g).2 = (settle prefer other g).2 := by
  unfold settle
  split
  · exact ⟨h, rfl⟩
  · split
    · unfold Context.register
      split
      · split
        · exact ⟨by rw [h], by rw [h]⟩
        · exact ⟨h, rfl⟩
      · exact ⟨h, rfl⟩
    · exact ⟨h, rfl⟩

/-- The contexts differ at most in what names outside of a set are bound to. -/
structure Context.AgreeOn (P : String → Prop) (ctx other : Context κ) : Prop where
  scope : ∀ id, P id → ctx.scope.lookup? id = other.scope.lookup? id
  registry : ctx.registry = other.registry

namespace Context.AgreeOn

variable {P : String → Prop} {ctx other : Context κ}

theorem env (h : ctx.AgreeOn P other) : ctx.env.AgreeOn P other.env where
  scope := h.scope
  freshName := congrArg Registry.nextName h.registry
  describesObjects := rfl

variable [Score κ]

/-- One statement keeps the agreement if it reads no other name. -/
theorem after (h : ctx.AgreeOn P other) (prefer : Bool) {s : Statement}
    (hs : ∀ id ∈ s.reads, P id) : (ctx.after prefer s).AgreeOn P (other.after prefer s) := by
  obtain ⟨hregistry, hguess⟩ := Run.settle_congr h.registry prefer (s.guess ctx.env)
  simp only [Context.after, Context.bind, ← s.guess_congr h.env hs]
  refine ⟨?_, hregistry⟩
  intro id hid
  by_cases hname : id = s.name
  · rw [hname, Scope.lookup?_bind_self, Scope.lookup?_bind_self, hguess]
  · rw [Scope.lookup?_bind_of_ne _ _ hname, Scope.lookup?_bind_of_ne _ _ hname, Run.settle_scope,
      Run.settle_scope, h.scope id hid]

theorem foldl_after (h : ctx.AgreeOn P other) (prefer : Bool) {statements : List Statement}
    (hs : ∀ s ∈ statements, ∀ id ∈ s.reads, P id) :
    (statements.foldl (Context.after prefer) ctx).AgreeOn P
      (statements.foldl (Context.after prefer) other) := by
  induction statements generalizing ctx other with
  | nil => exact h
  | cons s rest ih =>
    obtain ⟨hfirst, hrest⟩ := List.forall_mem_cons.mp hs
    exact ih (h.after prefer hfirst) hrest

end Context.AgreeOn

section Runs
variable [Score κ]

/-- After one statement under either name, the contexts differ in the two names only. -/
theorem Context.after_called_agreeOn (ctx : Context κ) (prefer : Bool) (s : Statement)
    (p q : String) :
    (ctx.after prefer (s.called p)).AgreeOn (fun id => id ≠ p ∧ id ≠ q)
      (ctx.after prefer (s.called q)) where
  scope := by
    intro id ⟨hp, hq⟩
    have hlookup (name : String) (hne : id ≠ name) :
        (ctx.after prefer (s.called name)).scope.lookup? id = ctx.scope.lookup? id := by
      simp only [Context.after, Context.bind, Statement.name_called]
      rw [Scope.lookup?_bind_of_ne _ _ hne, Run.settle_scope]
    rw [hlookup p hp, hlookup q hq]
  registry := by simp only [Context.after, Context.bind, Statement.guess_called]

namespace Run

theorem foldl_context (prefer : Bool) (r : Run κ) (statements : List Statement) :
    (statements.foldl (step prefer) r).context =
      statements.foldl (Context.after prefer) r.context := by
  induction statements generalizing r with
  | nil => rfl
  | cons s rest ih => rw [List.foldl_cons, List.foldl_cons, ih, step_context]

theorem length_foldl_functions (prefer : Bool) (r : Run κ) (statements : List Statement) :
    (statements.foldl (step prefer) r).functions.length =
      r.functions.length + statements.countP Statement.isDefinition := by
  induction statements generalizing r with
  | nil => rfl
  | cons s rest ih =>
    rw [List.foldl_cons, ih]
    cases s with
    | declare name init line => rfl
    | define name routine line =>
      simp only [step, define, List.length_append, List.length_singleton, List.countP_cons,
        Statement.isDefinition, ↓reduceIte]
      omega

/-- The entry of a function stands after those of the functions before it. -/
theorem functions_foldl_define (prefer : Bool) (before after : List Statement) (name : String)
    (routine : Routine) (line : Nat) :
    ∃ f, (((before ++ .define name routine line :: after).foldl (step prefer)
        ({} : Run κ)).functions)[before.countP Statement.isDefinition]? = some f ∧
      f.name = name ∧
      f.result = .ofGuess (routine.result (before.foldl (Context.after prefer) {}).env) := by
  let r := before.foldl (step prefer) ({} : Run κ)
  let d : Definition κ := ⟨name, routine, line, r, after⟩
  have hcount : before.countP Statement.isDefinition = r.functions.length := by
    rw [length_foldl_functions, List.length_nil, Nat.zero_add]
  have hfunctions : (step prefer r (.define name routine line)).functions =
      r.functions ++ [d.entry] := rfl
  have hcontext : r.context = before.foldl (Context.after prefer) {} := foldl_context prefer {} before
  refine ⟨d.entry, ?_, rfl, hcontext ▸ rfl⟩
  rw [List.foldl_append, List.foldl_cons, foldl_functions, hfunctions, hcount, List.append_assoc]
  simp

end Run

end Runs

/-- Two scripts that are the same up to a function, but for the name of an earlier declaration. -/
structure Renaming (p q : String) (root other : Node) where
  before : List Statement
  declaration : Statement
  between : List Statement
  name : String
  routine : Routine
  line : Nat
  after : List Statement
  otherLine : Nat
  otherAfter : List Statement
  script : root.script =
    before ++ declaration.called p :: between ++ .define name routine line :: after
  renamed : other.script =
    before ++ declaration.called q :: between ++ .define name routine otherLine :: otherAfter

namespace Renaming

variable {p q : String} {root other : Node} (r : Renaming p q root other)

/-- The number of functions before the one in question. -/
def index : Nat := (r.before ++ r.declaration :: r.between).countP Statement.isDefinition

theorem countP_called (name : String) :
    (r.before ++ r.declaration.called name :: r.between).countP Statement.isDefinition =
      r.index := by
  simp only [index, List.countP_append, List.countP_cons, Statement.isDefinition_called]

variable [Score κ]

theorem agreeOn (prefer : Bool)
    (h : ∀ s ∈ r.between, ∀ id ∈ s.reads, id ≠ p ∧ id ≠ q) :
    ((r.before ++ r.declaration.called p :: r.between).foldl (Context.after prefer)
        ({} : Context κ)).AgreeOn (fun id => id ≠ p ∧ id ≠ q)
      ((r.before ++ r.declaration.called q :: r.between).foldl (Context.after prefer) {}) := by
  simp only [List.foldl_append, List.foldl_cons]
  exact (Context.after_called_agreeOn _ prefer r.declaration p q).foldl_after prefer h

end Renaming

namespace Node

theorem body_congr {n m : Node} (h : n.field? "body" = m.field? "body") :
    n.reading.routine.body = m.reading.routine.body := by
  rw [reading_eq n, reading_eq m]
  simp only [Reading.ofChildren, Reading.routineOf, Reading.bodyOf, field?_readChildren, h]

end Node

/-- The result of a function does not depend on what a name is bound to that its body does not read,
be it the name of a parameter or not. Parameters do not matter at all: functions with one body have
one result. So a declaration before a function may have either of two names that neither the body of
the function nor what stands between reads. -/
theorem unread_name_keeps_result [Score κ] (p : String) :
    (∀ (n : Node) (ctx other : Context κ), ctx.AgreeOn (· ≠ p) other →
      p ∉ n.reading.routine.body.reads → n.result ctx.env = n.result other.env) ∧
    (∀ (n m : Node) (env : Env κ), n.field? "body" = m.field? "body" →
      n.result env = m.result env) ∧
    ∀ (prefer : Bool) (path q : String) (root other : Node) (r : Renaming p q root other),
      root.fault? = none → other.fault? = none →
      (∀ id ∈ r.routine.body.reads, id ≠ p ∧ id ≠ q) →
      (∀ s ∈ r.between, ∀ id ∈ s.reads, id ≠ p ∧ id ≠ q) →
      ∃ report renamed : Report κ,
        Report.ofTree prefer path root = .ok report ∧
        Report.ofTree prefer path other = .ok renamed ∧
        ∃ f g, report.functions[r.index]? = some f ∧ renamed.functions[r.index]? = some g ∧
          f.name = r.name ∧ g.name = r.name ∧ f.result = g.result := by
  refine ⟨?_, ?_, ?_⟩
  · intro n ctx other hagree hp
    apply Body.guess_congr hagree.env
    intro id hid heq
    exact hp (heq ▸ hid)
  · intro n m env hbody
    rw [Node.result, Node.result, Routine.result, Routine.result, Node.body_congr hbody]
  · intro prefer path q root other r hroot hother hbody hbetween
    refine ⟨_, _, Report.ofTree_eq_ok hroot prefer path, Report.ofTree_eq_ok hother prefer path, ?_⟩
    obtain ⟨f, hf, hfname, hfresult⟩ := Run.functions_foldl_define (κ := κ) prefer
      (r.before ++ r.declaration.called p :: r.between) r.after r.name r.routine r.line
    obtain ⟨g, hg, hgname, hgresult⟩ := Run.functions_foldl_define (κ := κ) prefer
      (r.before ++ r.declaration.called q :: r.between) r.otherAfter r.name r.routine r.otherLine
    rw [r.countP_called, ← r.script] at hf
    rw [r.countP_called, ← r.renamed] at hg
    refine ⟨f, g, hf, hg, hfname, hgname, ?_⟩
    rw [hfresult, hgresult]
    exact congrArg TypeInfo.ofGuess (Body.guess_congr (r.agreeOn prefer hbetween).env _ hbody)

section Scripts

def Node.taking (name param : String) (returned : Node) : Node :=
  branch "function_declaration"
    [(leaf "identifier" name).inRole "name",
     (branch "formal_parameters" [leaf "identifier" param]).inRole "parameters",
     (branch "statement_block" [branch "return_statement" [returned]]).inRole "body"]

/-- The function `function f(p) { return [z, p * 2] }`. -/
def Node.scaling : Node :=
  taking "f" "p" (branch "array" [leaf "identifier" "z",
    branch "binary_expression" [(leaf "identifier" "p").inRole "left",
      (token "*").inRole "operator", (leaf "number" "2").inRole "right"]])

/-- A declaration, `let z = ''` and a function with a parameter `p` that is not read. -/
def scalingScript (name : String) : Node :=
  .branch "program" [.letting name (.leaf "number" "1"), .letting "z" (.leaf "string" "''"),
    .scaling]

def scalingRenaming : Renaming "p" "q" (scalingScript "p") (scalingScript "q") where
  before := []
  declaration := .declare "" (.literal .number) 1
  between := [.declare "z" (.literal .string) 1]
  name := "f"
  routine := Node.scaling.reading.routine
  line := 1
  after := []
  otherLine := 1
  otherAfter := []
  script := rfl
  renamed := rfl

theorem unread_name_keeps_result_scaling :
    Node.scaling.paramNames = [some "p"] ∧
    Node.scaling.reading.routine.body.reads = ["z"] ∧
    (∀ g : Guess Float, Node.scaling.result (({} : Context Float).bind "p" g).env =
      Node.scaling.result ({} : Context Float).env) ∧
    ∃ report renamed : Report Float,
      Report.ofTree true "unit" (scalingScript "p") = .ok report ∧
      Report.ofTree true "unit" (scalingScript "q") = .ok renamed ∧
      ∃ f g, report.functions[0]? = some f ∧ renamed.functions[0]? = some g ∧
        f.name = "f" ∧ g.name = "f" ∧ f.result = g.result := by
  have hreads : Node.scaling.reading.routine.body.reads = ["z"] := rfl
  have hz : ∀ id ∈ Node.scaling.reading.routine.body.reads, id ≠ "p" ∧ id ≠ "q" := by
    rw [hreads]
    simp
  obtain ⟨hresult, -, hreport⟩ := unread_name_keeps_result (κ := Float) "p"
  refine ⟨rfl, hreads, ?_, ?_⟩
  · intro g
    refine hresult Node.scaling _ _ ⟨?_, rfl⟩ fun hp => (hz "p" hp).1 rfl
    intro id hid
    exact Scope.lookup?_bind_of_ne _ _ hid
  · refine hreport true "unit" "q" _ _ scalingRenaming rfl rfl hz ?_
    simp [scalingRenaming, Statement.reads, Expr.reads]

/-- A declaration and `function f(p) { return p }`. -/
def echoScript (name : String) : Node :=
  .branch "program" [.letting name (.leaf "number" "1"),
    .taking "f" "p" (.leaf "identifier" "p")]

/-- A parameter that is returned is judged as the top level binds its name. -/
theorem returned_parameter_judged_by_scope :
    let f := Node.taking "f" "p" (.leaf "identifier" "p")
    let bound : Context Float := ({} : Context Float).bind "p" (.primitive "number" 1.0)
    (f.paramNames = [some "p"] ∧ bound.AgreeOn (· ≠ "p") {} ∧
      (f.result bound.env).value = "number" ∧
      (f.result ({} : Context Float).env).value = "unknown") ∧
    ∃ report renamed : Report Float,
      Report.ofTree true "unit" (echoScript "p") = .ok report ∧
      Report.ofTree true "unit" (echoScript "q") = .ok renamed ∧
      report.functions.map (fun f => (f.name, f.result.value)) = [("f", "number")] ∧
      renamed.functions.map (fun f => (f.name, f.result.value)) = [("f", "unknown")] := by
  refine ⟨⟨rfl, ⟨?_, rfl⟩, rfl, rfl⟩, _, _, Report.ofTree_eq_ok rfl true "unit",
    Report.ofTree_eq_ok rfl true "unit", rfl, rfl⟩
  intro id hid
  exact Scope.lookup?_bind_of_ne _ _ hid

end Scripts

end ScriptTyping
