import Mathlib.Logic.Relation
import ScriptTyping.Proofs.OwnReturns

/-! # Nested functions are isolated

The search for the uses of a name and the search for returns both stop at a function inside the body
that they go through. They see the place of such a function among its siblings and nothing else, so
any other function may stand there.
-/
namespace ScriptTyping

/-- What the search for uses sees of a child. -/
structure Glimpse where
  field : Option String
  part : Bool
  reference : Option String
  searched : String → List Use
  binary : Option BinaryOp
  unary : Option UnaryOp
  property : Option String

def Child.glimpse (c : Child) : Glimpse where
  field := c.label.field
  part := c.label.isPart
  reference := c.reading.reference
  searched := c.searched
  binary := BinaryOp.ofToken? c.label.kind
  unary := UnaryOp.ofToken? c.label.kind
  property := if c.label.kind == "property_identifier" then some c.label.text else none

theorem Child.glimpse_congr {c d : Child} (hlabel : d.label = c.label)
    (hreference : d.reading.reference = c.reading.reference)
    (huses : d.reading.uses = c.reading.uses) : d.glimpse = c.glimpse := by
  have hsearched : d.searched = c.searched := by
    funext name
    simp only [searched, hlabel, huses]
  simp only [glimpse, hlabel, hreference, hsearched]

/-- A function shows its place and nothing else. -/
theorem Child.glimpse_of_isFunction {c : Child} (h : c.label.isFunction = true)
    (hreference : c.reading.reference = none) :
    c.glimpse = ⟨c.label.field, c.label.named, none, fun _ => [], none, none, none⟩ := by
  have hkinds : ∀ kind ∈ Label.functionKinds,
      (kind == "comment" || kind == "html_comment") = false ∧
      BinaryOp.ofToken? kind = none ∧ UnaryOp.ofToken? kind = none ∧
      (kind == "property_identifier") = false := by
    decide
  obtain ⟨hcomment, hbinary, hunary, hproperty⟩ :=
    hkinds c.label.kind (List.contains_iff_mem.mp h)
  have hpart : c.label.isPart = c.label.named := by
    simp only [Label.isPart, Label.isComment, hcomment, Bool.not_false, Bool.and_true]
  have hsearched : c.searched = fun _ => [] := by
    funext name
    simp only [searched, h, ↓reduceIte]
  simp only [glimpse, hreference, hbinary, hunary, hproperty, hpart, hsearched,
    Bool.false_eq_true, ↓reduceIte]

namespace Reading

/-- The child in the given role, as the search for uses sees it. -/
def glimpse? (children : List Child) (role : String) : Option Glimpse :=
  (field? children role).map Child.glimpse

section Views
variable (cs : List Child)

theorem glimpse?_eq (role : String) :
    glimpse? cs role = (cs.map Child.glimpse).find? fun g => g.field == some role := by
  rw [glimpse?, field?, List.find?_map]
  rfl

theorem map_glimpse_partsOf :
    (partsOf cs).map Child.glimpse = (cs.map Child.glimpse).filter Glimpse.part := by
  rw [partsOf, List.filter_map]
  rfl

theorem binary_operatorToken :
    BinaryOp.ofToken? (operatorToken cs) = (glimpse? cs "operator").bind Glimpse.binary := by
  unfold operatorToken glimpse?
  cases field? cs "operator" <;> rfl

theorem unary_operatorToken :
    UnaryOp.ofToken? (operatorToken cs) = (glimpse? cs "operator").bind Glimpse.unary := by
  unfold operatorToken glimpse?
  cases field? cs "operator" <;> rfl

theorem propertyName?_eq : propertyName? cs = (glimpse? cs "property").bind Glimpse.property := by
  unfold propertyName? glimpse?
  cases field? cs "property" <;> rfl

theorem refersTo_eq (roles : List String) (name : String) :
    refersTo cs roles name =
      roles.any fun role => (glimpse? cs role).any fun g => g.reference == some name := by
  unfold refersTo glimpse?
  congr 1
  funext role
  cases field? cs role <;> rfl

theorem flatMap_searched (name : String) :
    ((partsOf cs).filter fun c => !c.label.isFunction).flatMap (fun c => c.reading.uses name) =
      ((partsOf cs).map Child.glimpse).flatMap fun g => g.searched name := by
  induction partsOf cs with
  | nil => rfl
  | cons c rest ih =>
    rw [List.map_cons, List.flatMap_cons, ← ih]
    cases hfunction : c.label.isFunction <;> simp [Child.glimpse, Child.searched, hfunction]

theorem firstPart?_reference :
    ((firstPart? cs).bind fun c => c.reading.reference) =
      ((partsOf cs).map Child.glimpse).head?.bind Glimpse.reference := by
  unfold firstPart?
  cases partsOf cs <;> rfl

end Views

section Congruence
variable {cs ds : List Child} (label : Label) (h : ds.map Child.glimpse = cs.map Child.glimpse)
include h

theorem usesOf_of_glimpses : usesOf label ds = usesOf label cs := by
  funext name
  have hglimpse (role : String) : glimpse? ds role = glimpse? cs role := by
    rw [glimpse?_eq, glimpse?_eq, h]
  have hparts : (partsOf ds).map Child.glimpse = (partsOf cs).map Child.glimpse := by
    rw [map_glimpse_partsOf, map_glimpse_partsOf, h]
  simp only [usesOf, useAt?, binary_operatorToken, unary_operatorToken, propertyName?_eq,
    refersTo_eq, flatMap_searched, hglimpse, hparts]

theorem referenceOf_of_glimpses : referenceOf label ds = referenceOf label cs := by
  have hparts : (partsOf ds).map Child.glimpse = (partsOf cs).map Child.glimpse := by
    rw [map_glimpse_partsOf, map_glimpse_partsOf, h]
  simp only [referenceOf, firstPart?_reference, hparts]

end Congruence

end Reading

namespace Node

theorem reference_of_isFunction {n : Node} (h : n.label.isFunction = true) :
    n.reading.reference = none := by
  have hkinds : ∀ kind ∈ Label.functionKinds,
      kind ≠ "parenthesized_expression" ∧ kind ≠ "identifier" := by decide
  obtain ⟨hparentheses, hidentifier⟩ := hkinds n.label.kind (List.contains_iff_mem.mp h)
  rw [reading_eq]
  -- the two inequalities leave only the last case of the match
  simp only [Reading.ofChildren, Reading.referenceOf]

theorem collected_of_isFunction {n : Node} (h : n.label.isFunction = true) : collected n = [] := by
  have hkinds : ∀ kind ∈ Label.functionKinds,
      kind ≠ "return_statement" ∧ kind ∉ Reading.returnContainers := by decide
  obtain ⟨hreturn, hcontainer⟩ := hkinds n.label.kind (List.contains_iff_mem.mp h)
  exact collected_eq_nil hreturn hcontainer

/-- Two functions of which one can stand in the place of the other. -/
structure Interchangeable (f g : Node) : Prop where
  isFunction : f.label.isFunction = true
  isFunction_other : g.label.isFunction = true
  named : g.label.named = f.label.named
  field : g.label.field = f.label.field

/-- A function below the node is exchanged for another in its place. If `sparing` is set, it is not
inside a return statement. Whatever changes further inside a function is an exchange of that
function. -/
inductive Exchanged (sparing : Bool) : Node → Node → Prop
  | here (label : Label) (before after : List Node) {f g : Node} (h : f.Interchangeable g)
      (hreturn : sparing = true → label.kind ≠ "return_statement") :
      Exchanged sparing (mk label (before ++ f :: after)) (mk label (before ++ g :: after))
  | within (label : Label) (before after : List Node) {n m : Node} (h : Exchanged sparing n m)
      (hreturn : sparing = true → label.kind ≠ "return_statement") :
      Exchanged sparing (mk label (before ++ n :: after)) (mk label (before ++ m :: after))

/-- The search for uses does not tell the nodes apart. -/
structure SearchedAlike (n m : Node) : Prop where
  label : m.label = n.label
  reference : m.reading.reference = n.reading.reference
  uses : m.reading.uses = n.reading.uses

variable {sparing : Bool} {n m : Node}

theorem searchedAlike_of_glimpse (label : Label) (before after : List Node)
    (h : m.asChild.glimpse = n.asChild.glimpse) :
    (mk label (before ++ n :: after)).SearchedAlike (mk label (before ++ m :: after)) := by
  have hchildren : (readChildren (before ++ m :: after)).map Child.glimpse =
      (readChildren (before ++ n :: after)).map Child.glimpse := by
    simp only [readChildren_eq_map, List.map_append, List.map_cons, List.map_map]
    exact congrArg (fun g => _ ++ g :: _) h
  exact ⟨rfl, Reading.referenceOf_of_glimpses label hchildren,
    Reading.usesOf_of_glimpses label hchildren⟩

theorem Interchangeable.glimpse {f g : Node} (h : f.Interchangeable g) :
    g.asChild.glimpse = f.asChild.glimpse := by
  have hf := f.asChild.glimpse_of_isFunction h.isFunction (reference_of_isFunction h.isFunction)
  have hg := g.asChild.glimpse_of_isFunction h.isFunction_other
    (reference_of_isFunction h.isFunction_other)
  rw [hf, hg]
  simp only [asChild, h.named, h.field]

theorem Exchanged.searchedAlike (h : n.Exchanged sparing m) : n.SearchedAlike m := by
  induction h with
  | here label before after h _ => exact searchedAlike_of_glimpse label before after h.glimpse
  | within label before after _ _ ih =>
    exact searchedAlike_of_glimpse label before after
      (Child.glimpse_congr ih.label ih.reference ih.uses)

theorem collected_congr (hlabel : m.label = n.label) (hkind : n.kind ≠ "return_statement")
    (hreturns : m.reading.returns = n.reading.returns) : collected m = collected n := by
  have hpart : m.isPart = n.isPart := by rw [isPart, isPart, hlabel]
  have hsame : m.kind = n.kind := by rw [kind, kind, hlabel]
  have hother : (n.kind == "return_statement") = false := beq_eq_false_iff_ne.mpr hkind
  simp only [collected, hpart, hsame, hother, hreturns, Bool.false_eq_true, ↓reduceIte]

theorem Exchanged.returns (h : n.Exchanged sparing m) (hsparing : sparing = true) :
    n.kind ≠ "return_statement" ∧ m.reading.returns = n.reading.returns := by
  induction h with
  | here label before after h hreturn =>
    refine ⟨hreturn hsparing, ?_⟩
    simp only [returns_eq_flatMap, children, List.flatMap_append, List.flatMap_cons,
      collected_of_isFunction h.isFunction, collected_of_isFunction h.isFunction_other]
  | within label before after h hreturn ih =>
    obtain ⟨hkind, hreturns⟩ := ih
    refine ⟨hreturn hsparing, ?_⟩
    simp only [returns_eq_flatMap, children, List.flatMap_append, List.flatMap_cons,
      collected_congr h.searchedAlike.label hkind hreturns]

theorem label_of_exchanges (h : Relation.ReflTransGen (Exchanged sparing) n m) :
    m.label = n.label := by
  induction h with
  | refl => rfl
  | tail _ hstep ih => rw [hstep.searchedAlike.label, ih]

theorem uses_of_exchanges (h : Relation.ReflTransGen (Exchanged sparing) n m) :
    m.reading.uses = n.reading.uses := by
  induction h with
  | refl => rfl
  | tail _ hstep ih => rw [hstep.searchedAlike.uses, ih]

theorem returns_of_exchanges (h : Relation.ReflTransGen (Exchanged true) n m) :
    m.reading.returns = n.reading.returns := by
  induction h with
  | refl => rfl
  | tail _ hstep ih => rw [(hstep.returns rfl).2, ih]

theorem result_of_block {κ : Type} [Score κ] (env : Env κ) {f body : Node}
    (hbody : f.field? "body" = some body) (hblock : body.kind = "statement_block") :
    f.result env = .ofReturns (Return.guessAll env body.reading.returns) := by
  have hkind : (body.label.kind == "statement_block") = true := beq_iff_eq.mpr hblock
  rw [result, reading_eq]
  simp only [Reading.ofChildren, Reading.routineOf, Reading.bodyOf, field?_readChildren, hbody,
    Option.map_some, hkind, ↓reduceIte, Routine.result, Body.guess]

end Node

/-- However the functions nested in a body are exchanged for others, the body shows the same of
every name. If none of them is inside a return statement, the function has the same result. -/
theorem nested_functions_isolated {κ : Type} [Score κ] {f g body changed : Node}
    (hf : f.field? "body" = some body) (hg : g.field? "body" = some changed)
    (hblock : body.kind = "statement_block") :
    (Relation.ReflTransGen (Node.Exchanged false) body changed →
      ∀ name, (Node.usage name (some changed) : Guess κ) = Node.usage name (some body)) ∧
    (Relation.ReflTransGen (Node.Exchanged true) body changed →
      ∀ env : Env κ, g.result env = f.result env) := by
  constructor
  · intro h name
    simp only [Node.usage, Option.map_some, Node.uses_of_exchanges h]
  · intro h env
    have hblock' : changed.kind = "statement_block" := by
      rw [Node.kind, Node.label_of_exchanges h]
      exact hblock
    rw [Node.result_of_block env hf hblock, Node.result_of_block env hg hblock',
      Node.returns_of_exchanges h]

/-- The body `{ inner; p.map(callback); return 1; }`. -/
def Node.mapping (inner callback : Node) : Node :=
  block
    [inner,
     branch "expression_statement"
       [branch "call_expression"
         [(branch "member_expression"
            [(leaf "identifier" "p").inRole "object",
             (leaf "property_identifier" "map").inRole "property"]).inRole "function",
          (branch "arguments" [callback]).inRole "arguments"]],
     returning "1"]

/-- The functions of the body are exchanged one after the other, for functions of other kinds. -/
theorem nested_functions_isolated_mapping :
    let inner := Node.defining "inner" [.returning "2"]
    let other := Node.branch "generator_function_declaration" [.mapping inner inner]
    let callback := Node.branch "arrow_function" [.leaf "identifier" "p"]
    let trimming := Node.branch "function" [.block [.branch "member_expression"
      [(Node.leaf "identifier" "p").inRole "object",
       (Node.leaf "property_identifier" "trim").inRole "property"]]]
    let f := Node.branch "function_declaration" [(Node.mapping inner callback).inRole "body"]
    let g := Node.branch "function_declaration" [(Node.mapping other trimming).inRole "body"]
    (∃ body changed, f.field? "body" = some body ∧ g.field? "body" = some changed ∧
      body.kind = "statement_block" ∧ Relation.ReflTransGen (Node.Exchanged true) body changed ∧
      (Node.usage "p" (some changed) : Guess Float) = Node.usage "p" (some body)) ∧
    g.result ({} : Context Float).env = f.result ({} : Context Float).env ∧
    (f.result ({} : Context Float).env).value = "number" := by
  intro inner other callback trimming f g
  have hinner : inner.Interchangeable other := ⟨rfl, rfl, rfl, rfl⟩
  have hcallback : callback.Interchangeable trimming := ⟨rfl, rfl, rfl, rfl⟩
  have hsteps (sparing : Bool) : Relation.ReflTransGen (Node.Exchanged sparing)
      ((Node.mapping inner callback).inRole "body")
      ((Node.mapping other trimming).inRole "body") := by
    refine .tail (.single (.here _ [] _ hinner fun _ => by decide)) ?_
    refine .within _ [other] [_] ?_ fun _ => by decide
    refine .within _ [] [] ?_ fun _ => by decide
    refine .within _ [_] [] ?_ fun _ => by decide
    exact .here _ [] [] hcallback fun _ => by decide
  obtain ⟨husage, hresult⟩ := nested_functions_isolated (κ := Float) (f := f) (g := g) rfl rfl rfl
  exact ⟨⟨_, _, rfl, rfl, rfl, hsteps true, husage (hsteps false) "p"⟩,
    hresult (hsteps true) _, rfl⟩

end ScriptTyping
