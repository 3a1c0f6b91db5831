import Mathlib.Logic.Relation
import ScriptTyping.Proofs.Layouts

/-! # Parentheses are transparent

An operand in parentheses shows the same to the node above it as the operand without them. So
parentheses may be put around operands anywhere in a tree, again and again, and the tree may be laid
out anew each time: every judgement stays what it was, and so does every type of a report.
-/
namespace ScriptTyping

namespace Node

/-- The first node is a pair of parentheses in the place of the second, which is all they hold
besides comments. -/
structure Wraps (w e : Node) : Prop where
  kind : w.kind = "parenthesized_expression"
  named : w.label.named = true
  field : w.label.field = e.label.field
  inner : ∃ field, w.parts = [e.inField field]

/-- The search for uses stops at functions, and finds nothing in one that it starts with. -/
theorem uses_of_isFunction {n : Node} (h : n.label.isFunction = true) (name : String) :
    n.reading.uses name = [] := by
  have hkinds : ∀ kind ∈ Label.functionKinds, Reading.useContainers.contains kind = false ∧
      kind ≠ "binary_expression" ∧ kind ≠ "unary_expression" ∧ kind ≠ "member_expression" ∧
      kind ≠ "call_expression" := by decide
  obtain ⟨hcontainer, hbinary, hunary, hmember, hcall⟩ :=
    hkinds n.label.kind (List.contains_iff_mem.mp h)
  have huse : Reading.useAt? n.label (readChildren n.children) name = none := by
    unfold Reading.useAt?
    split
    · next hkind => exact absurd hkind hbinary
    · next hkind => exact absurd hkind hunary
    · next hkind => exact absurd hkind hmember
    · next hkind => exact absurd hkind hcall
    · rfl
  rw [reading_eq]
  simp only [Reading.ofChildren, Reading.usesOf, huse, hcontainer, Option.toList_none,
    Bool.false_eq_true, ↓reduceIte, List.append_nil]

theorem searched_eq_uses (n : Node) (name : String) :
    n.asChild.searched name = n.reading.uses name := by
  unfold Child.searched
  split
  · next h => exact (uses_of_isFunction h name).symm
  · rfl

theorem Wraps.resembles {w e : Node} (h : w.Wraps e) (he : e.IsOperand) :
    e.asChild.ResemblesOperand w.asChild := by
  obtain ⟨field, hinner⟩ := h.inner
  have hkind : w.label.kind = "parenthesized_expression" := h.kind
  have hparts : Reading.partsOf (readChildren w.children) = [(e.inField field).asChild] := by
    rw [partsOf_readChildren, hinner]
    rfl
  have hfirst : Reading.firstPart? (readChildren w.children) = some (e.inField field).asChild := by
    rw [Reading.firstPart?, hparts]
    rfl
  -- parentheses are searched for uses unless they hold a function, in which there are none
  have hsearch (name : String) :
      ((Reading.partsOf (readChildren w.children)).filter fun c => !c.label.isFunction).flatMap
        (fun c => c.reading.uses name) = e.reading.uses name := by
    have hsearched := (e.inField field).searched_eq_uses name
    rw [reading_inField] at hsearched
    rw [hparts, ← hsearched]
    cases hfunction : (e.inField field).asChild.label.isFunction <;>
      simp [Child.searched, hfunction]
  have huses : w.reading.uses = e.reading.uses := by
    funext name
    rw [reading_eq w]
    simp [Reading.ofChildren, Reading.usesOf, Reading.useAt?, hkind, hsearch,
      Reading.useContainers]
  have hpart : w.label.isPart = true := by
    simp [Label.isPart, Label.isComment, h.named, hkind]
  constructor
  · exact h.field
  · exact hpart.trans he.part.symm
  · have hunspread : (e.label.kind == "spread_element") = false := beq_false_of_ne he.unspread
    simp [asChild, hkind, hunspread]
  · simp [asChild, reading_eq w, Reading.ofChildren, Reading.exprOf, hkind, hfirst]
  · simp [asChild, reading_eq w, Reading.ofChildren, Reading.calledOf, hkind, hfirst]
  · simp [asChild, reading_eq w, Reading.ofChildren, Reading.isNumberOf, hkind, hfirst]
  · simp [asChild, reading_eq w, Reading.ofChildren, Reading.referenceOf, hkind, hfirst]
  · exact huses
  · funext name
    rw [searched_eq_uses, searched_eq_uses, huses]

/-- Parentheses are put around one operand somewhere in a tree. -/
inductive Parenthesizes : Node → Node → Prop
  | here {label : Label} {e w : Node} (before after : List Node)
      (hposition : label.holdsOperand e.label = true) (he : e.IsOperand) (hw : w.Wraps e) :
      Parenthesizes (mk label (before ++ e :: after)) (mk label (before ++ w :: after))
  | within (label : Label) (before after : List Node) {n m : Node} (h : Parenthesizes n m) :
      Parenthesizes (mk label (before ++ n :: after)) (mk label (before ++ m :: after))

def inParentheses (e : Node) : Node :=
  mk { kind := "parenthesized_expression", start := e.label.start, text := "",
       field := e.label.field } [e.inField none]

theorem wraps_inParentheses {e : Node} (h : e.isPart = true) : e.inParentheses.Wraps e where
  kind := rfl
  named := rfl
  field := rfl
  inner := ⟨none, List.filter_cons_of_pos h⟩

theorem isOperand_inParentheses (e : Node) : e.inParentheses.IsOperand where
  part := by simp [inParentheses, isPart, label, Label.isPart, Label.isComment]
  unspread := by simp [inParentheses, kind, label]

theorem Parenthesizes.label_eq {n m : Node} (h : n.Parenthesizes m) : m.label = n.label := by
  cases h <;> rfl

theorem Wraps.holdsOperand {w e : Node} (h : w.Wraps e) {label : Label}
    (hposition : label.holdsOperand e.label = true) : label.holdsOperand w.label = true := by
  have hkind : w.label.kind = "parenthesized_expression" := h.kind
  simp only [Label.holdsOperand, Bool.and_eq_true] at hposition ⊢
  rw [h.field]
  exact ⟨hposition.1, by simp [hkind]⟩

/-- A node that holds operands is neither a method nor a declaration of a function. -/
theorem sameKeywords_of_holdsOperand {label child : Label}
    (h : label.holdsOperand child = true) (ls ks : List Label) :
    Reading.SameKeywords label.kind ls ks := by
  have hkinds : ∀ p ∈ operandPositions, p.1 ≠ "method_definition" ∧
      Reading.functionDeclarations.contains p.1 = false := by decide
  simp only [Label.holdsOperand, Bool.and_eq_true] at h
  obtain ⟨hmethod, hfunction⟩ := hkinds _ (List.contains_iff_mem.mp h.1.2)
  constructor
  · simp [Reading.accessorOf?, hmethod]
  · intro hdeclares
    rw [hfunction] at hdeclares
    cases hdeclares

theorem resembles_of_child {label : Label} (before after : List Node) {n m : Node}
    (h : n.asChild.ResemblesIn AnyLine label m.asChild)
    (hkeywords : Reading.SameKeywords label.kind ((before ++ n :: after).map Node.label)
      ((before ++ m :: after).map Node.label)) :
    (mk label (before ++ n :: after)).Resembles AnyLine (mk label (before ++ m :: after)) := by
  have hsame (ns : List Node) :
      List.Forall₂ (fun n m : Node => n.asChild.ResemblesIn AnyLine label m.asChild) ns ns :=
    List.forall₂_same.mpr fun n _ => .fully (.refl n.asChild)
  apply resembles_of_children (.refl label)
  · exact List.rel_append (hsame before) (.cons h (hsame after))
  · exact hkeywords

theorem Parenthesizes.resembles {n m : Node} (h : n.Parenthesizes m) :
    n.Resembles AnyLine m := by
  induction h with
  | here before after hposition he hw =>
    apply resembles_of_child before after
    · exact .asOperand (hw.resembles he) hposition (hw.holdsOperand hposition)
    · exact sameKeywords_of_holdsOperand hposition _ _
  | within label before after hstep ih =>
    apply resembles_of_child before after (.fully ih.child)
    rw [List.map_append, List.map_append, List.map_cons, List.map_cons, hstep.label_eq]
    exact ⟨rfl, fun _ => rfl⟩

/-- Parentheses are put around operands, any number of times, and the tree is laid out anew. -/
def Parenthesized : Node → Node → Prop :=
  Relation.ReflTransGen fun n m => n.Parenthesizes m ∨ n.Relaid AnyLine m

theorem Parenthesized.resembles {n m : Node} (h : n.Parenthesized m) : n.Resembles AnyLine m := by
  induction h with
  | refl => exact .refl n
  | tail _ hstep ih =>
    rcases hstep with hstep | hstep
    · exact ih.trans hstep.resembles
    · exact ih.trans hstep.resembles

end Node

/-- Parentheses change no judgement on a node that holds them or is held by them. A script with
more of them has a report of the same entries and interfaces, on other lines perhaps. -/
theorem parentheses_are_transparent {κ : Type} [Score κ] {n m : Node} (h : n.Parenthesized m) :
    (∀ env : Env κ, n.JudgedLike env m) ∧
    (∀ w : Node, w.Wraps m → m.IsOperand →
      (∀ env : Env κ, w.guess env = n.guess env) ∧
      ∀ name, (Node.usage name (some w) : Guess κ) = Node.usage name (some n)) ∧
    (n.kind = "program" → n.fault? = none → ∀ (prefer : Bool) (path : String),
      ∃ report relaid : Report κ,
        Report.ofTree prefer path n = .ok report ∧ Report.ofTree prefer path m = .ok relaid ∧
        relaid.unplaced = report.unplaced) := by
  have hlike := h.resembles
  refine ⟨hlike.judgedLike, ?_, hlike.report⟩
  intro w hwraps hoperand
  have hw := hwraps.resembles hoperand
  have hexpr : w.reading.expr = n.reading.expr := hw.expr.trans hlike.child.expr
  have huses : w.reading.uses = n.reading.uses := hw.uses.trans hlike.child.uses
  constructor
  · intro env
    simp only [Node.guess, hexpr]
  · intro name
    simp only [Node.usage, Option.map_some, huses]

/-- A script that doubles a number, with the given left factor. -/
def Node.doubling (factor : Node) : Node :=
  branch "program"
    [letting "double" (branch "arrow_function"
      [(leaf "identifier" "x").inRole "parameter",
       (branch "binary_expression"
        [factor, (token "*").inRole "operator", (leaf "number" "2").inRole "right"]).inRole
          "body"])]

theorem Node.doubling_parenthesizes {factor : Node} (hfield : factor.label.field = some "left")
    (hoperand : factor.IsOperand) :
    (doubling factor).Parenthesizes (doubling factor.inParentheses) := by
  have hposition : ((branch "binary_expression" []).inRole "body").label.holdsOperand
      factor.label = true := by
    have hlisted : operandPositions.contains ("binary_expression", some "left") = true := by decide
    simp only [Label.holdsOperand, hfield, Bool.and_eq_true]
    exact ⟨⟨rfl, hlisted⟩, rfl⟩
  have hhere := Parenthesizes.here []
    [(token "*").inRole "operator", (leaf "number" "2").inRole "right"] hposition hoperand
    (wraps_inParentheses hoperand.part)
  exact .within _ [] [] <| .within _ [] [] <|
    .within _ [(leaf "identifier" "double").inRole "name"] [] <|
    .within _ [(leaf "identifier" "x").inRole "parameter"] [] hhere

/-- Twice put into parentheses, a factor is still known to be used as a number. -/
theorem parentheses_are_transparent_doubling :
    let x := (Node.leaf "identifier" "x").inRole "left"
    let wrapped := x.inParentheses.inParentheses
    (Node.doubling x).Parenthesized (Node.doubling wrapped) ∧
    (∀ env : Env Float, (Node.doubling x).JudgedLike env (Node.doubling wrapped)) ∧
    ∃ report relaid : Report Float,
      Report.ofTree true "doubling" (Node.doubling x) = .ok report ∧
      Report.ofTree true "doubling" (Node.doubling wrapped) = .ok relaid ∧
      relaid.unplaced = report.unplaced := by
  intro x wrapped
  have hx : x.IsOperand := by constructor <;> decide
  have honce := Node.doubling_parenthesizes rfl hx
  have htwice := Node.doubling_parenthesizes rfl x.isOperand_inParentheses
  have h : (Node.doubling x).Parenthesized (Node.doubling wrapped) :=
    (Relation.ReflTransGen.single (.inl honce)).tail (.inl htwice)
  obtain ⟨hjudged, _, hreport⟩ := parentheses_are_transparent (κ := Float) h
  exact ⟨h, hjudged, hreport rfl rfl true "doubling"⟩

end ScriptTyping
