import Mathlib.Data.List.Forall2
import ScriptTyping.Infer.Judgement
import ScriptTyping.Report

/-! # Resembling nodes

Few things about a node matter to the node above it, and fewer still where only an operand can
stand. Nodes that resemble each other agree in these things. The main statement is that nodes whose
children resemble each other in their positions resemble each other themselves, so that whoever
changes a tree has to look at the place of the change only. Lines of statements may differ in a way
that is left open.
-/
namespace ScriptTyping

/-- The positions of operands, by the kind of the parent and the role in it. -/
def operandPositions : List (String × Option String) :=
  [("binary_expression", some "left"), ("binary_expression", some "right"),
   ("unary_expression", some "argument"), ("update_expression", some "argument"),
   ("await_expression", none), ("yield_expression", none), ("spread_element", none),
   ("sequence_expression", none), ("template_substitution", none),
   ("assignment_expression", some "right"), ("augmented_assignment_expression", some "right"),
   ("array", none), ("arguments", none), ("call_expression", some "function"),
   ("new_expression", some "constructor"), ("member_expression", some "object"),
   ("subscript_expression", some "object"), ("subscript_expression", some "index"),
   ("pair", some "value"), ("ternary_expression", some "condition"),
   ("ternary_expression", some "consequence"), ("ternary_expression", some "alternative"),
   ("assignment_pattern", some "right"), ("object_assignment_pattern", some "right"),
   ("variable_declarator", some "value"), ("return_statement", none),
   ("expression_statement", none), ("arrow_function", some "body"),
   ("parenthesized_expression", none)]

namespace Label

/-- The kinds of the nodes whose text is looked at wherever they stand. -/
def textKinds : List String :=
  ["identifier", "undefined", "shorthand_property_identifier", "property_identifier", "string",
   "number"]

/-- Whether the child is an operand of the parent. A list of parameters has no operands, and a body
is one unless it is a block. -/
def holdsOperand (parent child : Label) : Bool :=
  parent.field != some "parameters" && operandPositions.contains (parent.kind, child.field) &&
    (child.field != some "body" || child.kind != "statement_block")

theorem holdsOperand_of_kind {parent : Label} (child : Label)
    (h : (operandPositions.all fun p => p.1 != parent.kind) = true) :
    parent.holdsOperand child = false := by
  have hposition : operandPositions.contains (parent.kind, child.field) = false := by
    rw [List.contains_eq_mem, decide_eq_false_iff_not]
    intro hmem
    simpa using List.all_eq_true.mp h _ hmem
  simp only [holdsOperand, hposition, Bool.and_false, Bool.false_and]

theorem holdsOperand_of_role (parent : Label) {child : Label} {role : String}
    (hchild : child.field = some role)
    (h : (operandPositions.all fun p => p.2 != some role) = true) :
    parent.holdsOperand child = false := by
  have hposition : operandPositions.contains (parent.kind, child.field) = false := by
    rw [List.contains_eq_mem, decide_eq_false_iff_not]
    intro hmem
    simpa [hchild] using List.all_eq_true.mp h _ hmem
  simp only [holdsOperand, hposition, Bool.and_false, Bool.false_and]

end Label

section Relations
variable (Lines : Nat → Nat → Prop)

/-- The labels may differ in the place and, for a node whose text is not looked at, in the text. -/
structure Label.Resembles (l k : Label) : Prop where
  kind : k.kind = l.kind
  named : k.named = l.named
  field : k.field = l.field
  faulty : k.faulty = l.faulty
  text : l.kind ∈ Label.textKinds → k.text = l.text
  line : Lines l.line k.line

inductive Statement.Resembles : Statement → Statement → Prop where
  | declare (name : String) (init : Expr) {line other : Nat} (h : Lines line other) :
    Resembles (.declare name init line) (.declare name init other)
  | define (name : String) (routine : Routine) {line other : Nat} (h : Lines line other) :
    Resembles (.define name routine line) (.define name routine other)

/-- The uses found in a child when the search for uses goes through its parent. -/
def Child.searched (c : Child) (name : String) : List Use :=
  if c.label.isFunction then [] else c.reading.uses name

/-- The children are the same to a parent that takes them for operands. -/
structure Child.ResemblesOperand (c d : Child) : Prop where
  field : d.label.field = c.label.field
  part : d.label.isPart = c.label.isPart
  spread : (d.label.kind == "spread_element") = (c.label.kind == "spread_element")
  expr : d.reading.expr = c.reading.expr
  called : d.reading.called = c.reading.called
  isNumber : d.reading.isNumber = c.reading.isNumber
  reference : d.reading.reference = c.reading.reference
  uses : d.reading.uses = c.reading.uses
  searched : d.searched = c.searched

/-- The children are the same to any parent. What a node is as a list of parameters matters in that
role only, and its returns matter only if it may hold such. -/
structure Child.Resembles (c d : Child) : Prop where
  label : c.label.Resembles Lines d.label
  expr : d.reading.expr = c.reading.expr
  called : d.reading.called = c.reading.called
  isNumber : d.reading.isNumber = c.reading.isNumber
  reference : d.reading.reference = c.reading.reference
  member : d.reading.member = c.reading.member
  param : d.reading.param = c.reading.param
  params : c.label.field = some "parameters" → d.reading.params = c.reading.params
  returned : d.reading.returned = c.reading.returned
  returns : Reading.returnContainers.contains c.label.kind = true →
    d.reading.returns = c.reading.returns
  uses : d.reading.uses = c.reading.uses
  routine : d.reading.routine = c.reading.routine
  declared : List.Forall₂ (Statement.Resembles Lines) c.reading.declared d.reading.declared
  statements : List.Forall₂ (Statement.Resembles Lines) c.reading.statements d.reading.statements

inductive Child.ResemblesIn (parent : Label) (c d : Child) : Prop where
  | fully (h : c.Resembles Lines d)
  | asOperand (h : c.ResemblesOperand d) (hc : parent.holdsOperand c.label = true)
      (hd : parent.holdsOperand d.label = true)

end Relations

namespace Reading

def nameText? (labels : List Label) : Option String :=
  (labels.find? fun l => l.field == some "name").bind Label.text?

def usesInBody (children : List Child) (name : String) : List Use :=
  ((field? children "body").map fun c => c.reading.uses name).getD []

def paramsBy (children : List Child) (uses : String → List Use) : List Param :=
  ((field? children "parameters").map fun c => c.reading.params uses).getD
    ((field? children "parameter").map fun c => c.reading.param uses).toList

theorem routineOf_eq (children : List Child) :
    routineOf children = ⟨paramsBy children (usesInBody children), bodyOf children⟩ := by
  unfold routineOf paramsBy usesInBody
  cases field? children "body" <;> cases field? children "parameters" <;> rfl

/-- What a node takes from the labels of all its children together is the same: the keyword of an
accessor, which depends on their order, and the name of a function, whose kind is not looked at. -/
structure SameKeywords (kind : String) (ls ks : List Label) : Prop where
  accessor : accessorOf? kind ks = accessorOf? kind ls
  name : functionDeclarations.contains kind = true → nameText? ks = nameText? ls

end Reading

section Children
variable {Lines : Nat → Nat → Prop} {parent : Label} {c d : Child}

theorem Label.Resembles.isPart {l k : Label} (h : l.Resembles Lines k) : k.isPart = l.isPart := by
  simp only [Label.isPart, Label.isComment, h.named, h.kind]

theorem Label.Resembles.isFunction {l k : Label} (h : l.Resembles Lines k) :
    k.isFunction = l.isFunction := by
  simp only [Label.isFunction, h.kind]

namespace Child

theorem Resembles.operand (h : c.Resembles Lines d) : c.ResemblesOperand d where
  field := h.label.field
  part := h.label.isPart
  spread := by rw [h.label.kind]
  expr := h.expr
  called := h.called
  isNumber := h.isNumber
  reference := h.reference
  uses := h.uses
  searched := by
    funext name
    simp only [searched, h.label.isFunction, h.uses]

theorem ResemblesIn.operand (h : c.ResemblesIn Lines parent d) : c.ResemblesOperand d := by
  cases h with
  | fully h => exact h.operand
  | asOperand h _ _ => exact h

theorem ResemblesIn.resembles (h : c.ResemblesIn Lines parent d)
    (hposition : parent.holdsOperand c.label = false) : c.Resembles Lines d := by
  cases h with
  | fully h => exact h
  | asOperand _ hc _ => simp [hposition] at hc

theorem ResemblesIn.of_role (h : c.ResemblesIn Lines parent d) {role : String}
    (hc : c.label.field = some role)
    (hrole : (operandPositions.all fun p => p.2 != some role) = true) : c.Resembles Lines d :=
  h.resembles (parent.holdsOperand_of_role hc hrole)

theorem ResemblesIn.of_kind (h : c.ResemblesIn Lines parent d)
    (hkind : (operandPositions.all fun p => p.1 != parent.kind) = true) : c.Resembles Lines d :=
  h.resembles (Label.holdsOperand_of_kind c.label hkind)

end Child

end Children

namespace Reading

section Lookups
variable {Lines : Nat → Nat → Prop} {label : Label} {cs ds : List Child}
  (h : List.Forall₂ (Child.ResemblesIn Lines label) cs ds)
include h

theorem partsOf_resembles :
    List.Forall₂ (Child.ResemblesIn Lines label) (partsOf cs) (partsOf ds) := by
  apply List.rel_filter _ h
  intro c d hcd
  exact iff_of_eq (congrArg (· = true) hcd.operand.part.symm)

theorem map_partsOf {α : Type} {f : Child → α}
    (hf : ∀ c d, c.ResemblesIn Lines label d → f d = f c) :
    (partsOf ds).map f = (partsOf cs).map f := by
  induction h with
  | nil => rfl
  | @cons c d _ _ hcd _ ih =>
    simp only [partsOf, List.filter_cons, hcd.operand.part] at ih ⊢
    split
    · rw [List.map_cons, List.map_cons, hf c d hcd, ih]
    · exact ih

omit h in
theorem bind_field?_name (cs : List Child) :
    ((field? cs "name").bind fun c => c.label.text?) = nameText? (cs.map Child.label) := by
  simp only [field?, nameText?, List.find?_map, Option.bind_map]
  rfl

theorem firstPart?_pair :
    firstPart? cs = none ∧ firstPart? ds = none ∨
      ∃ c d, firstPart? cs = some c ∧ firstPart? ds = some d ∧ c.ResemblesIn Lines label d := by
  have hparts := partsOf_resembles h
  unfold firstPart?
  revert hparts
  generalize partsOf cs = ps
  generalize partsOf ds = qs
  rintro (_ | hcd)
  · exact .inl ⟨rfl, rfl⟩
  · exact .inr ⟨_, _, rfl, rfl, hcd⟩

theorem field?_pair (role : String) :
    field? cs role = none ∧ field? ds role = none ∨
      ∃ c d, field? cs role = some c ∧ field? ds role = some d ∧ c.label.field = some role ∧
        c.ResemblesIn Lines label d := by
  induction h with
  | nil => exact .inl ⟨rfl, rfl⟩
  | @cons c d _ _ hcd _ ih =>
    simp only [field?, List.find?_cons, hcd.operand.field] at ih ⊢
    by_cases hrole : c.label.field = some role
    · simp only [hrole, beq_self_eq_true]
      exact .inr ⟨c, d, rfl, rfl, hrole, hcd⟩
    · have hne : (c.label.field == some role) = false := by simpa using hrole
      simpa only [hne] using ih

/-- In a role that no operand has, the children are the same to any parent. -/
theorem field?_pair_of_role (role : String)
    (hrole : (operandPositions.all fun p => p.2 != some role) = true) :
    field? cs role = none ∧ field? ds role = none ∨
      ∃ c d, field? cs role = some c ∧ field? ds role = some d ∧ c.label.field = some role ∧
        c.Resembles Lines d := by
  rcases field?_pair h role with hnone | ⟨c, d, hc, hd, hfield, hcd⟩
  · exact .inl hnone
  · exact .inr ⟨c, d, hc, hd, hfield, hcd.of_role hfield hrole⟩

theorem operand_resembles (role : String) : operand ds role = operand cs role := by
  unfold operand
  rcases field?_pair h role with ⟨hc, hd⟩ | ⟨c, d, hc, hd, _, hcd⟩
  · rw [hc, hd]
  · simp only [hc, hd, hcd.operand.expr]

theorem operatorToken_resembles : operatorToken ds = operatorToken cs := by
  unfold operatorToken
  rcases field?_pair_of_role h "operator" (by decide) with
    ⟨hc, hd⟩ | ⟨c, d, hc, hd, _, hcd⟩
  · rw [hc, hd]
  · simp only [hc, hd, hcd.label.kind]

theorem propertyName?_resembles : propertyName? ds = propertyName? cs := by
  unfold propertyName?
  rcases field?_pair_of_role h "property" (by decide) with
    ⟨hc, hd⟩ | ⟨c, d, hc, hd, _, hcd⟩
  · rw [hc, hd]
  · simp only [hc, hd, Option.bind_some, hcd.label.kind]
    split
    · next hkind => rw [hcd.label.text (by simp_all [Label.textKinds])]
    · rfl

theorem keyName?_resembles {role : String}
    (hrole : (operandPositions.all fun p => p.2 != some role) = true) :
    keyName? (field? ds role) = keyName? (field? cs role) := by
  rcases field?_pair_of_role h role hrole with ⟨hc, hd⟩ | ⟨c, d, hc, hd, _, hcd⟩
  · rw [hc, hd]
  · simp only [keyName?, hc, hd, Option.bind_some, hcd.label.kind]
    split
    · next hkind => rw [hcd.label.text (by simp [hkind, Label.textKinds])]
    · next hkind => rw [hcd.label.text (by simp [hkind, Label.textKinds])]
    · next hkind => rw [hcd.label.text (by simp [hkind, Label.textKinds])]
    · rfl

theorem refersTo_resembles (roles : List String) (name : String) :
    refersTo ds roles name = refersTo cs roles name := by
  unfold refersTo
  congr 1
  funext role
  rcases field?_pair h role with ⟨hc, hd⟩ | ⟨c, d, hc, hd, _, hcd⟩
  · rw [hc, hd]
  · simp only [hc, hd, Option.any_some, hcd.operand.reference]

end Lookups

section Rules
variable {Lines : Nat → Nat → Prop} {label other : Label} {cs ds : List Child}
  (hlabel : label.Resembles Lines other)
  (h : List.Forall₂ (Child.ResemblesIn Lines label) cs ds)
include hlabel h

theorem exprOf_resembles : exprOf other ds = exprOf label cs := by
  unfold exprOf
  rw [hlabel.kind]
  split
  -- parentheses
  case h_1 =>
    rcases firstPart?_pair h with ⟨hc, hd⟩ | ⟨c, d, hc, hd, hcd⟩
    · rw [hc, hd]
    · simp only [hc, hd, hcd.operand.expr]
  -- the forms whose text is looked at
  case h_5 hkind => rw [hlabel.text (by simp [hkind, Label.textKinds])]
  case h_10 hkind => rw [hlabel.text (by simp [hkind, Label.textKinds])]
  case h_11 hkind => rw [hlabel.text (by simp [hkind, Label.textKinds])]
  -- arrays
  case h_12 =>
    let item (c : Child) : Bool × Expr := (c.label.kind == "spread_element", c.reading.expr)
    have hitems : (partsOf ds).map item = (partsOf cs).map item := by
      apply map_partsOf h
      intro c d hcd
      simp only [item, hcd.operand.spread, hcd.operand.expr]
    have hkept := congrArg (fun items => (items.filter fun i => !i.1).map Prod.snd) hitems
    have hspread := congrArg (fun items => items.any Prod.fst) hitems
    simp only [List.filter_map, List.map_map, List.any_map] at hkept hspread
    exact congrArg₂ Expr.array hkept hspread
  -- objects, whose members are no operands
  case h_13 hkind =>
    have hmembers : (partsOf ds).map (fun c => c.reading.member) =
        (partsOf cs).map fun c => c.reading.member := by
      apply map_partsOf h
      intro c d hcd
      exact (hcd.of_kind (by rw [hkind]; decide)).member
    rw [hmembers]
  -- operators, conditionals, calls and indices
  case h_14 => rw [operatorToken_resembles h]
  case h_15 => rw [operatorToken_resembles h, operand_resembles h, operand_resembles h]
  case h_16 => rw [operand_resembles h, operand_resembles h]
  case h_17 =>
    rcases field?_pair h "function" with ⟨hc, hd⟩ | ⟨c, d, hc, hd, _, hcd⟩
    · rw [hc, hd]
    · simp only [hc, hd, hcd.operand.called]
  case h_19 =>
    rcases field?_pair h "index" with ⟨hc, hd⟩ | ⟨c, d, hc, hd, _, hcd⟩
    · rw [hc, hd]
    · simp only [hc, hd, hcd.operand.isNumber, operand_resembles h]
  all_goals rfl

theorem calledOf_resembles : calledOf other ds = calledOf label cs := by
  unfold calledOf
  rw [hlabel.kind]
  split
  · rcases firstPart?_pair h with ⟨hc, hd⟩ | ⟨c, d, hc, hd, hcd⟩
    · rw [hc, hd]
    · simp only [hc, hd, hcd.operand.called]
  · next hkind => rw [hlabel.text (by simp [hkind, Label.textKinds])]
  · rw [propertyName?_resembles h, operand_resembles h]
  · rfl

theorem isNumberOf_resembles : isNumberOf other ds = isNumberOf label cs := by
  unfold isNumberOf
  rw [hlabel.kind]
  split
  · rcases firstPart?_pair h with ⟨hc, hd⟩ | ⟨c, d, hc, hd, hcd⟩
    · rw [hc, hd]
    · simp only [hc, hd, Option.any_some, hcd.operand.isNumber]
  · rfl
  · rfl

theorem referenceOf_resembles : referenceOf other ds = referenceOf label cs := by
  unfold referenceOf
  rw [hlabel.kind]
  split
  · rcases firstPart?_pair h with ⟨hc, hd⟩ | ⟨c, d, hc, hd, hcd⟩
    · rw [hc, hd]
    · simp only [hc, hd, Option.bind_some, hcd.operand.reference]
  · next hkind =>
    simp only [Label.text?, hlabel.text (by simp [hkind, Label.textKinds])]
  · rfl

theorem usesOf_resembles : usesOf other ds = usesOf label cs := by
  funext name
  have huse : useAt? other ds name = useAt? label cs name := by
    simp only [useAt?, hlabel.kind, operatorToken_resembles h, refersTo_resembles h,
      propertyName?_resembles h]
  have hsearched (ks : List Child) :
      ((partsOf ks).filter fun c => !c.label.isFunction).flatMap (fun c => c.reading.uses name) =
        ((partsOf ks).map fun c => c.searched name).flatten := by
    induction partsOf ks with
    | nil => rfl
    | cons c rest ih =>
      rw [List.map_cons, List.flatten_cons, ← ih]
      cases hfunction : c.label.isFunction <;> simp [Child.searched, hfunction]
  have hparts : (partsOf ds).map (fun c => c.searched name) =
      (partsOf cs).map fun c => c.searched name := by
    apply map_partsOf h
    intro c d hcd
    rw [hcd.operand.searched]
  simp only [usesOf, huse, hlabel.kind, hsearched, hparts]

omit hlabel in
theorem returnedOf_resembles : returnedOf ds = returnedOf cs := by
  unfold returnedOf
  rcases firstPart?_pair h with ⟨hc, hd⟩ | ⟨c, d, hc, hd, hcd⟩
  · rw [hc, hd]
  · simp only [hc, hd, hcd.operand.expr]

omit hlabel in
theorem returnsOf_resembles (hkind : returnContainers.contains label.kind = true) :
    returnsOf ds = returnsOf cs := by
  have hfree : ∀ kind ∈ returnContainers, (operandPositions.all fun p => p.1 != kind) = true := by
    decide
  have hnone := hfree label.kind (List.contains_iff_mem.mp hkind)
  have hparts := map_partsOf h (f := fun c =>
    if c.label.kind == "return_statement" then [c.reading.returned]
    else if returnContainers.contains c.label.kind then c.reading.returns
    else []) <| by
      intro c d hcd
      have hlike := hcd.of_kind hnone
      simp only [hlike.label.kind, hlike.returned]
      split
      · rfl
      · split
        · next hcontainer => exact hlike.returns hcontainer
        · rfl
  exact congrArg List.flatten hparts

theorem paramOf_resembles : paramOf other ds = paramOf label cs := by
  funext uses
  unfold paramOf
  rw [hlabel.kind]
  split
  case h_1 hkind =>
    simp only [Label.text?, hlabel.text (by simp [hkind, Label.textKinds])]
  case h_2 hkind =>
    rcases firstPart?_pair h with ⟨hc, hd⟩ | ⟨c, d, hc, hd, hcd⟩
    · rw [hc, hd]
    · have hlike := hcd.of_kind (by rw [hkind]; decide)
      simp only [hc, hd, hlike.param, hlike.expr]
  -- the left side binds, so only the right side is an operand
  case h_3 hkind =>
    rw [operand_resembles h]
    rcases field?_pair h "left" with ⟨hc, hd⟩ | ⟨c, d, hc, hd, hfield, hcd⟩
    · rw [hc, hd]
    · have hbinds : label.holdsOperand c.label = false := by
        simp [Label.holdsOperand, operandPositions, hkind, hfield]
      simp only [hc, hd, Option.bind_some, (hcd.resembles hbinds).param]
  all_goals rfl

omit hlabel in
theorem paramsOf_resembles (hrole : label.field = some "parameters") :
    paramsOf ds = paramsOf cs := by
  funext uses
  apply map_partsOf h
  intro c d hcd
  have hposition : label.holdsOperand c.label = false := by simp [Label.holdsOperand, hrole]
  rw [(hcd.resembles hposition).param]

omit hlabel in
theorem bodyOf_resembles : bodyOf ds = bodyOf cs := by
  unfold bodyOf
  rcases field?_pair h "body" with ⟨hc, hd⟩ | ⟨c, d, hc, hd, hfield, hcd⟩
  · rw [hc, hd]
  · simp only [hc, hd]
    cases hcd with
    | fully hlike =>
      simp only [hlike.label.kind, hlike.expr]
      split
      · next hblock => rw [hlike.returns (by simp_all [returnContainers])]
      · rfl
    | asOperand hoperand hheld hheld' =>
      -- an operand is no block, so both bodies are expressions
      have hfield' := hoperand.field.trans hfield
      simp only [Label.holdsOperand, hfield, hfield', Bool.and_eq_true, Bool.or_eq_true,
        bne_self_eq_false, Bool.false_eq_true, false_or, bne_iff_ne] at hheld hheld'
      have hkind : (c.label.kind == "statement_block") = false := by simpa using hheld.2
      have hkind' : (d.label.kind == "statement_block") = false := by simpa using hheld'.2
      simp only [hkind, hkind', hoperand.expr, Bool.false_eq_true, ↓reduceIte]

omit hlabel in
theorem usesInBody_resembles : usesInBody ds = usesInBody cs := by
  funext name
  unfold usesInBody
  rcases field?_pair h "body" with ⟨hc, hd⟩ | ⟨c, d, hc, hd, _, hcd⟩
  · rw [hc, hd]
  · simp only [hc, hd, Option.map_some, hcd.operand.uses]

omit hlabel in
theorem paramsBy_resembles (uses : String → List Use) : paramsBy ds uses = paramsBy cs uses := by
  unfold paramsBy
  rcases field?_pair_of_role h "parameters" (by decide) with
    ⟨hc, hd⟩ | ⟨c, d, hc, hd, hfield, hcd⟩
  · rcases field?_pair_of_role h "parameter" (by decide) with
      ⟨hp, hq⟩ | ⟨p, q, hp, hq, _, hpq⟩
    · rw [hc, hd, hp, hq]
    · simp only [hc, hd, hp, hq, Option.map_some, hpq.param]
  · simp only [hc, hd, Option.map_some, Option.getD_some, hcd.params hfield]

omit hlabel in
theorem routineOf_resembles : routineOf ds = routineOf cs := by
  rw [routineOf_eq, routineOf_eq, bodyOf_resembles h, usesInBody_resembles h, paramsBy_resembles h]

theorem memberOf_resembles
    (haccessor : accessorOf? label.kind (ds.map Child.label) =
      accessorOf? label.kind (cs.map Child.label)) :
    memberOf other ds = memberOf label cs := by
  unfold memberOf
  rw [hlabel.kind]
  split
  · next hkind => rw [hlabel.text (by simp [hkind, Label.textKinds])]
  · rw [keyName?_resembles h (by decide), operand_resembles h]
  · rw [keyName?_resembles h (by decide), haccessor, routineOf_resembles h]
  · rfl

theorem declaredOf_resembles :
    List.Forall₂ (Statement.Resembles Lines) (declaredOf label cs) (declaredOf other ds) := by
  unfold declaredOf
  rw [hlabel.kind, operand_resembles h]
  rcases field?_pair_of_role h "name" (by decide) with
    ⟨hc, hd⟩ | ⟨c, d, hc, hd, hfield, hcd⟩
  · rw [hc, hd]
    exact .nil
  · simp only [hc, hd, hcd.label.kind]
    split
    · next hkind =>
      have htext := hcd.label.text (by simp_all [Label.textKinds])
      rw [htext]
      exact .cons (.declare _ _ hlabel.line) .nil
    · exact .nil

theorem statementsOf_resembles
    (hname : functionDeclarations.contains label.kind = true →
      nameText? (ds.map Child.label) = nameText? (cs.map Child.label)) :
    List.Forall₂ (Statement.Resembles Lines) (statementsOf label cs) (statementsOf other ds) := by
  unfold statementsOf
  rw [hlabel.kind, routineOf_resembles h]
  split
  · rcases field?_pair_of_role h "declaration" (by decide) with
      ⟨hc, hd⟩ | ⟨c, d, hc, hd, _, hcd⟩
    · rw [hc, hd]
      exact .nil
    · rw [hc, hd]
      exact hcd.statements
  · split
    · next hkind =>
      have hfree : ∀ kind ∈ variableDeclarations,
          (operandPositions.all fun p => p.1 != kind) = true := by decide
      have hnone := hfree label.kind (List.contains_iff_mem.mp hkind)
      exact List.rel_flatMap (partsOf_resembles h) fun c d hcd => (hcd.of_kind hnone).declared
    · split
      · next hkind =>
        rw [bind_field?_name, bind_field?_name, hname hkind]
        split
        · exact .cons (.define _ _ hlabel.line) .nil
        · exact .nil
      · exact .nil

theorem ofChildren_resembles
    (hkeywords : SameKeywords label.kind (cs.map Child.label) (ds.map Child.label)) :
    Child.Resembles Lines ⟨label, ofChildren label cs⟩ ⟨other, ofChildren other ds⟩ where
  label := hlabel
  expr := exprOf_resembles hlabel h
  called := calledOf_resembles hlabel h
  isNumber := isNumberOf_resembles hlabel h
  reference := referenceOf_resembles hlabel h
  member := memberOf_resembles hlabel h hkeywords.accessor
  param := paramOf_resembles hlabel h
  params := paramsOf_resembles h
  returned := returnedOf_resembles h
  returns := returnsOf_resembles h
  uses := usesOf_resembles hlabel h
  routine := routineOf_resembles h
  declared := declaredOf_resembles hlabel h
  statements := statementsOf_resembles hlabel h hkeywords.name

end Rules

end Reading

namespace Node

theorem reading_eq (n : Node) :
    n.reading = Reading.ofChildren n.label (readChildren n.children) := by
  cases n
  rfl

theorem partsOf_readChildren (n : Node) :
    Reading.partsOf (readChildren n.children) = n.parts.map fun c => ⟨c.label, c.reading⟩ := by
  simp only [readChildren_eq_map, Reading.partsOf, List.filter_map]
  rfl

theorem field?_readChildren (n : Node) (role : String) :
    Reading.field? (readChildren n.children) role =
      (n.field? role).map fun c => ⟨c.label, c.reading⟩ := by
  simp only [readChildren_eq_map, Reading.field?, List.find?_map]
  rfl

theorem map_label_readChildren (ns : List Node) :
    (readChildren ns).map Child.label = ns.map Node.label := by
  rw [readChildren_eq_map, List.map_map]
  rfl

def asChild (n : Node) : Child := ⟨n.label, n.reading⟩

theorem script_eq_flatMap (n : Node) :
    n.script = (Reading.partsOf (readChildren n.children)).flatMap fun c => c.reading.statements := by
  simp only [script, partsOf_readChildren, List.flatMap_map]

/-- A node that can stand for an operand: it is named, and neither a comment nor spread. -/
structure IsOperand (n : Node) : Prop where
  part : n.isPart = true
  unspread : n.kind ≠ "spread_element"

def inField (n : Node) (field : Option String) : Node := mk { n.label with field } n.children

@[simp] theorem reading_inField (n : Node) (field : Option String) :
    (n.inField field).reading = n.reading := by
  cases n
  rfl

/-- The nodes are the same to any node above them, and so are the statements under them if they are
whole scripts. -/
structure Resembles (Lines : Nat → Nat → Prop) (n m : Node) : Prop where
  child : n.asChild.Resembles Lines m.asChild
  value : Reading.operand (readChildren m.children) "value" =
    Reading.operand (readChildren n.children) "value"
  script : n.kind = "program" → List.Forall₂ (Statement.Resembles Lines) n.script m.script

theorem resembles_of_children {Lines : Nat → Nat → Prop} {label other : Label} {ns ms : List Node}
    (hlabel : label.Resembles Lines other)
    (h : List.Forall₂ (fun n m => n.asChild.ResemblesIn Lines label m.asChild) ns ms)
    (hkeywords : Reading.SameKeywords label.kind (ns.map Node.label) (ms.map Node.label)) :
    (mk label ns).Resembles Lines (mk other ms) := by
  have hchildren : List.Forall₂ (Child.ResemblesIn Lines label) (readChildren ns)
      (readChildren ms) := by
    rw [readChildren_eq_map, readChildren_eq_map, List.forall₂_map_left_iff,
      List.forall₂_map_right_iff]
    exact h
  constructor
  · apply Reading.ofChildren_resembles hlabel hchildren
    rw [map_label_readChildren, map_label_readChildren]
    exact hkeywords
  · exact Reading.operand_resembles hchildren "value"
  · intro hkind
    have hprogram : label.kind = "program" := hkind
    rw [script_eq_flatMap, script_eq_flatMap]
    apply List.rel_flatMap (Reading.partsOf_resembles hchildren)
    intro c d hcd
    exact (hcd.of_kind (by rw [hprogram]; decide)).statements

end Node

end ScriptTyping
