import Mathlib.Logic.Relation
import ScriptTyping.Proofs.FaultSearch
import ScriptTyping.Proofs.Layouts

/-! # Comments are invisible

Children are looked up in four ways: the parts, the children in a role, the keyword of an accessor
and the first fault. A comment among the children shows in none of them, so comments may come and go
anywhere in a tree. The tree has the same faults, judgements and report.
-/
namespace ScriptTyping

namespace Reading

/-- The children are found alike in every way that the rules look for them. -/
structure SameLookups (cs ds : List Child) : Prop where
  parts : partsOf ds = partsOf cs
  field : ∀ role, field? ds role = field? cs role
  accessor : ∀ kind, accessorOf? kind (ds.map Child.label) = accessorOf? kind (cs.map Child.label)

variable {cs ds : List Child}

theorem ofChildren_congr (label : Label) (h : SameLookups cs ds) :
    ofChildren label ds = ofChildren label cs := by
  have hfirst : firstPart? ds = firstPart? cs := by rw [firstPart?, firstPart?, h.parts]
  have hoperand (role : String) : operand ds role = operand cs role := by
    rw [operand, operand, h.field]
  have htoken : operatorToken ds = operatorToken cs := by
    rw [operatorToken, operatorToken, h.field]
  have hproperty : propertyName? ds = propertyName? cs := by
    rw [propertyName?, propertyName?, h.field]
  have hrefers (roles : List String) (name : String) :
      refersTo ds roles name = refersTo cs roles name := by
    simp only [refersTo, h.field]
  have hroutine : routineOf ds = routineOf cs := by
    simp only [routineOf, bodyOf, h.field]
  have huses : usesOf label ds = usesOf label cs := by
    funext name
    simp only [usesOf, useAt?, htoken, hrefers, hproperty, h.parts]
  have hparam : paramOf label ds = paramOf label cs := by
    funext uses
    simp only [paramOf, hfirst, h.field, hoperand]
  have hparams : paramsOf ds = paramsOf cs := by
    funext uses
    simp only [paramsOf, h.parts]
  simp only [ofChildren, exprOf, calledOf, isNumberOf, referenceOf, memberOf, returnedOf, returnsOf,
    declaredOf, statementsOf, hfirst, hoperand, htoken, hproperty, hroutine, huses, hparam, hparams,
    h.parts, h.field, h.accessor]

section Insertion
variable {l : Label} (hcomment : l.isComment = true)
include hcomment

theorem firstAccessor?_cons_comment (labels : List Label) :
    firstAccessor? (l :: labels) = firstAccessor? labels := by
  simp only [Label.isComment, Bool.or_eq_true, beq_iff_eq] at hcomment
  rcases hcomment with hkind | hkind <;> simp [firstAccessor?, hkind]

theorem firstAccessor?_insert (before after : List Label) :
    firstAccessor? (before ++ l :: after) = firstAccessor? (before ++ after) := by
  induction before with
  | nil => exact firstAccessor?_cons_comment hcomment after
  | cons k rest ih => simp only [List.cons_append, firstAccessor?, ih]

/-- A comment at or after the name ends the search for the keyword, and so would what follows. -/
theorem firstAccessor?_takeWhile_insert (before after : List Label) (bound : Nat)
    (hplace : ∀ k ∈ after, l.start.offset ≤ k.start.offset) :
    firstAccessor? ((before ++ l :: after).takeWhile fun k => k.start.offset < bound) =
      firstAccessor? ((before ++ after).takeWhile fun k => k.start.offset < bound) := by
  induction before with
  | nil =>
    rw [List.nil_append, List.nil_append, List.takeWhile_cons]
    split
    · exact firstAccessor?_cons_comment hcomment _
    · next hlate =>
      have hbound : bound ≤ l.start.offset := by simpa using hlate
      cases after with
      | nil => rfl
      | cons k rest =>
        have hk := hplace k List.mem_cons_self
        have hnot : ¬ k.start.offset < bound := by omega
        simp only [List.takeWhile_cons, hnot, decide_false, Bool.false_eq_true, ↓reduceIte]
  | cons k rest ih =>
    rw [List.cons_append, List.cons_append, List.takeWhile_cons, List.takeWhile_cons]
    split
    · simp only [firstAccessor?, ih]
    · rfl

theorem accessorOf?_insert (kind : String) (before after : List Label) (hfield : l.field = none)
    (hplace : ∀ k ∈ after, l.start.offset ≤ k.start.offset) :
    accessorOf? kind (before ++ l :: after) = accessorOf? kind (before ++ after) := by
  have hname : ((before ++ l :: after).find? fun k => k.field == some "name") =
      (before ++ after).find? fun k => k.field == some "name" := by
    simp [List.find?_append, hfield]
  simp only [accessorOf?, hname, firstAccessor?_insert hcomment,
    firstAccessor?_takeWhile_insert hcomment before after _ hplace]

end Insertion

theorem sameLookups_insert {c : Child} (before after : List Child)
    (hcomment : c.label.isComment = true) (hfield : c.label.field = none)
    (hplace : ∀ d ∈ after, c.label.start.offset ≤ d.label.start.offset) :
    SameLookups (before ++ after) (before ++ c :: after) where
  parts := by simp [partsOf, Label.isPart, hcomment]
  field role := by simp [field?, List.find?_append, hfield]
  accessor kind := by
    simp only [List.map_append, List.map_cons]
    apply accessorOf?_insert hcomment kind _ _ hfield
    intro k hk
    obtain ⟨d, hd, rfl⟩ := List.mem_map.mp hk
    exact hplace d hd

end Reading

namespace Node

theorem firstFaultIn?_append (ns ms : List Node) :
    firstFaultIn? (ns ++ ms) = (firstFaultIn? ns).or (firstFaultIn? ms) := by
  induction ns with
  | nil => rfl
  | cons n rest ih =>
    simp only [List.cons_append, firstFaultIn?, ih]
    split
    · rw [Option.or_assoc]
    · rfl

/-- A comment that can be told from its siblings only by its kind and its place. -/
structure IsRemark (c : Node) : Prop where
  comment : c.label.isComment = true
  field : c.label.field = none
  present : c.label.missing = false
  faultless : c.label.faulty = false

/-- A comment is written somewhere into a tree, not after any of the siblings that follow it. -/
inductive Commented : Node → Node → Prop
  | here (label : Label) (before : List Node) {c : Node} (after : List Node) (hc : c.IsRemark)
      (hplace : ∀ n ∈ after, c.label.start.offset ≤ n.label.start.offset) :
      Commented (mk label (before ++ after)) (mk label (before ++ c :: after))
  | within (label : Label) (before after : List Node) {n m : Node} (h : Commented n m) :
      Commented (mk label (before ++ n :: after)) (mk label (before ++ m :: after))

/-- Nothing that the rules or the search for faults look at tells the nodes apart. -/
structure Indistinct (n m : Node) : Prop where
  label : m.label = n.label
  lookups : Reading.SameLookups (readChildren n.children) (readChildren m.children)
  fault : m.firstFault? = n.firstFault?

namespace Indistinct

variable {n m k : Node}

theorem refl (n : Node) : n.Indistinct n :=
  ⟨rfl, ⟨rfl, fun _ => rfl, fun _ => rfl⟩, rfl⟩

theorem symm (h : n.Indistinct m) : m.Indistinct n where
  label := h.label.symm
  lookups := ⟨h.lookups.parts.symm, fun role => (h.lookups.field role).symm,
    fun kind => (h.lookups.accessor kind).symm⟩
  fault := h.fault.symm

theorem trans (hnm : n.Indistinct m) (hmk : m.Indistinct k) : n.Indistinct k where
  label := hmk.label.trans hnm.label
  lookups := ⟨hmk.lookups.parts.trans hnm.lookups.parts,
    fun role => (hmk.lookups.field role).trans (hnm.lookups.field role),
    fun kind => (hmk.lookups.accessor kind).trans (hnm.lookups.accessor kind)⟩
  fault := hmk.fault.trans hnm.fault

theorem reading (h : n.Indistinct m) : m.reading = n.reading := by
  rw [reading_eq, reading_eq, h.label]
  exact Reading.ofChildren_congr n.label h.lookups

theorem fault?_eq (h : n.Indistinct m) : m.fault? = n.fault? := by
  simp only [Node.fault?, searchStack_singleton, h.label, h.fault]

theorem script_eq (h : n.Indistinct m) : m.script = n.script := by
  rw [script_eq_flatMap, script_eq_flatMap, h.lookups.parts]

theorem resembles (h : n.Indistinct m) : n.Resembles AnyLine m where
  child := by
    have hchild : m.asChild = n.asChild := by rw [asChild, asChild, h.label, h.reading]
    rw [hchild]
    exact .refl n.asChild
  value := by rw [Reading.operand, Reading.operand, h.lookups.field]
  script _ := by
    rw [h.script_eq]
    exact Statement.forall₂_refl n.script

end Indistinct

theorem Commented.indistinct {n m : Node} (h : n.Commented m) : n.Indistinct m := by
  induction h with
  | here label before after hc hplace =>
    -- the comment itself: no look-up finds it, and the search for faults passes it by
    refine ⟨rfl, ?_, ?_⟩
    · simp only [children, readChildren_eq_map, List.map_append, List.map_cons]
      apply Reading.sameLookups_insert _ _ hc.comment hc.field
      intro d hd
      obtain ⟨n, hn, rfl⟩ := List.mem_map.mp hd
      exact hplace n hn
    · simp only [firstFault?, firstFaultIn?_append, firstFaultIn?, hc.faultless, hc.present,
        Bool.or_self, Bool.false_eq_true, ↓reduceIte]
  | within label before after _ ih =>
    -- further up the children are equal, as their labels and readings are
    refine ⟨rfl, ?_, ?_⟩
    · simp only [children, readChildren_eq_map, List.map_append, List.map_cons, ih.label,
        ih.reading]
      exact ⟨rfl, fun _ => rfl, fun _ => rfl⟩
    · simp only [firstFault?, firstFaultIn?_append, firstFaultIn?, ih.label, ih.fault]

theorem indistinct_of_eqvGen {n m : Node} (h : Relation.EqvGen Commented n m) :
    n.Indistinct m := by
  induction h with
  | rel _ _ hstep => exact hstep.indistinct
  | refl n => exact .refl n
  | symm _ _ _ ih => exact ih.symm
  | trans _ _ _ _ _ ih ih' => exact ih.trans ih'

end Node

/-- Comments may be put in and taken out anywhere: the first fault of the tree, every judgement on
it and its report are the same. -/
theorem comments_are_invisible {κ : Type} [Score κ] {n m : Node}
    (h : Relation.EqvGen Node.Commented n m) :
    m.fault? = n.fault? ∧
    (∀ env : Env κ, n.JudgedLike env m ∧ m.shape env = n.shape env) ∧
    ∀ (prefer : Bool) (path : String),
      (Report.ofTree prefer path m : Except Fault (Report κ)) = Report.ofTree prefer path n := by
  have hsame := Node.indistinct_of_eqvGen h
  refine ⟨hsame.fault?_eq, ?_, ?_⟩
  · intro env
    refine ⟨hsame.resembles.judgedLike env, ?_⟩
    rw [Node.shape_eq, Node.shape_eq, hsame.lookups.parts]
  · intro prefer path
    simp only [Report.ofTree, hsame.fault?_eq, hsame.script_eq]

/-- A script whose object has a getter, with remarks between the keyword and the name. -/
def Node.sizing (remarks : List Node) : Node :=
  let body := branch "statement_block" [branch "return_statement" [leaf "number" "1"]]
  branch "program"
    [letting "box" (branch "object"
      [branch "method_definition"
        ([token "get"] ++ (remarks ++
          [((leaf "property_identifier" "size").atOffset 20).inRole "name",
           (body.atOffset 27).inRole "body"]))])]

theorem comments_are_invisible_in_getter :
    let remark := (Node.leaf "comment" "/* lazily */").atOffset 4
    Relation.EqvGen Node.Commented (Node.sizing []) (Node.sizing [remark]) ∧
    (Node.sizing [remark]).fault? = (Node.sizing []).fault? ∧
    (∀ env : Env Float, (Node.sizing []).JudgedLike env (Node.sizing [remark])) ∧
    (Report.ofTree true "box" (Node.sizing [remark]) : Except Fault (Report Float)) =
      Report.ofTree true "box" (Node.sizing []) := by
  intro remark
  have hremark : remark.IsRemark := ⟨rfl, rfl, rfl, rfl⟩
  have hstep : (Node.sizing []).Commented (Node.sizing [remark]) := by
    refine .within _ [] [] <| .within _ [] [] <|
      .within _ [(Node.leaf "identifier" "box").inRole "name"] [] <| .within _ [] [] <|
      .here _ [Node.token "get"] _ hremark ?_
    simp [remark, Node.atOffset, Node.inRole, Node.label]
  have h := Relation.EqvGen.rel _ _ hstep
  obtain ⟨hfault, hjudged, hreport⟩ := comments_are_invisible (κ := Float) h
  exact ⟨h, hfault, fun env => (hjudged env).1, hreport true "box"⟩

end ScriptTyping
