import ScriptTyping.Proofs.Layouts

/-! # Inference is compositional

An expression is judged through the guesses for its operands, and not through the way in which the
operands are written. So an operand may be replaced by another of the same guess, and in particular
by a name that is bound to it, however deep it stands. A hole in an expression is given by the frames
around it. On its way out through the frames what is put in stands as an operand, as the callee of a
method call or as a member of an object literal.
-/
namespace ScriptTyping

variable {κ : Type} [Score κ] {env : Env κ}

/-- What a node stands as, on the way from a hole to the expression around it. -/
inductive Stance where
  | operand
  | callee
  | member

def Stance.Same (env : Env κ) : Stance → Reading → Reading → Prop
  | operand, r, s => s.expr.guess env = r.expr.guess env
  | callee, r, s => s.called.guess env = r.called.guess env
  | member, r, s => s.member.slot? env = r.member.slot? env

/-- A node of the kind, with a child in the role that stands as the first says, stands as the second
says. -/
inductive Passes : String → Option String → Stance → Stance → Prop
  | item (role : Option String) : Passes "array" role .operand .operand
  | left : Passes "binary_expression" (some "left") .operand .operand
  | right : Passes "binary_expression" (some "right") .operand .operand
  | consequence : Passes "ternary_expression" (some "consequence") .operand .operand
  | alternative : Passes "ternary_expression" (some "alternative") .operand .operand
  | indexed : Passes "subscript_expression" (some "object") .operand .operand
  | receiver : Passes "member_expression" (some "object") .operand .callee
  | call : Passes "call_expression" (some "function") .callee .operand
  | value : Passes "pair" (some "value") .operand .member
  | property (role : Option String) : Passes "object" role .member .operand
  | parentheses (role : Option String) : Passes "parenthesized_expression" role .operand .operand
  | calledParentheses (role : Option String) :
      Passes "parenthesized_expression" role .callee .callee

theorem Member.slots?_eq_of_map {ms ks : List Member}
    (h : ks.map (Member.slot? env) = ms.map (Member.slot? env)) :
    Member.slots? env ks = Member.slots? env ms := by
  induction ms generalizing ks with
  | nil =>
    rw [List.map_nil, List.map_eq_nil_iff] at h
    rw [h]
  | cons m rest ih =>
    obtain ⟨k, ks, rfl, hk, hrest⟩ := List.map_eq_cons_iff.mp h
    simp only [Member.slots?, hk, ih hrest]

structure Child.AgreesAs (env : Env κ) (stance : Stance) (c d : Child) : Prop where
  field : d.label.field = c.label.field
  part : d.label.isPart = c.label.isPart
  spread : (d.label.kind == "spread_element") = (c.label.kind == "spread_element")
  same : stance.Same env c.reading d.reading

namespace Reading

section Replacement
variable {c d : Child} (before after : List Child)

theorem field?_replace (hfield : d.label.field = c.label.field) (role : String) :
    field? (before ++ d :: after) role = field? (before ++ c :: after) role ∨
      c.label.field = some role ∧ field? (before ++ c :: after) role = some c ∧
        field? (before ++ d :: after) role = some d := by
  simp only [field?, List.find?_append, List.find?_cons, hfield]
  cases before.find? fun b => b.label.field == some role with
  | some b => exact .inl rfl
  | none =>
    by_cases hrole : c.label.field = some role
    · simp [hrole]
    · have hne : (c.label.field == some role) = false := beq_false_of_ne hrole
      simp [hne]

theorem field?_replace_of_ne (hfield : d.label.field = c.label.field) {role : String}
    (hne : c.label.field ≠ some role) :
    field? (before ++ d :: after) role = field? (before ++ c :: after) role := by
  rcases field?_replace before after hfield role with h | ⟨h, _⟩
  · exact h
  · exact absurd h hne

theorem map_partsOf_replace {α : Type} (f : Child → α) (hpart : d.label.isPart = c.label.isPart)
    (hf : f d = f c) :
    (partsOf (before ++ d :: after)).map f = (partsOf (before ++ c :: after)).map f := by
  simp only [partsOf, List.filter_append, List.filter_cons, hpart]
  split <;> simp [hf]

theorem operand_replace (h : c.AgreesAs env .operand d) (role : String) :
    (operand (before ++ d :: after) role).guess env =
      (operand (before ++ c :: after) role).guess env := by
  unfold operand
  rcases field?_replace before after h.field role with hfound | ⟨_, hc, hd⟩
  · rw [hfound]
  · rw [hc, hd]
    exact h.same

theorem firstPart?_replace (hpart : d.label.isPart = c.label.isPart) :
    firstPart? (before ++ d :: after) = firstPart? (before ++ c :: after) ∨
      firstPart? (before ++ c :: after) = some c ∧
        firstPart? (before ++ d :: after) = some d := by
  simp only [firstPart?, partsOf, List.filter_append, List.head?_append, List.filter_cons, hpart]
  cases (before.filter fun b => b.label.isPart).head? with
  | some b => exact .inl rfl
  | none =>
    split
    · exact .inr ⟨rfl, rfl⟩
    · exact .inl rfl

/-- The items of an array are judged apart from those that are spread into it. -/
theorem array_replace (h : c.AgreesAs env .operand d) {label : Label}
    (hkind : label.kind = "array") :
    (exprOf label (before ++ d :: after)).guess env =
      (exprOf label (before ++ c :: after)).guess env := by
  let item (c : Child) : Bool × Guess κ :=
    (c.label.kind == "spread_element", c.reading.expr.guess env)
  have hitem : item d = item c := Prod.ext h.spread h.same
  have hitems := map_partsOf_replace before after item h.part hitem
  have hkept := congrArg (fun items => (items.filter fun i => !i.1).map Prod.snd) hitems
  have hspread := congrArg (fun items => items.any Prod.fst) hitems
  simp only [List.filter_map, List.map_map, List.any_map] at hkept hspread
  simp only [exprOf, hkind, Expr.guess, Expr.guessAll_eq_map, List.map_map]
  exact congrArg₂ Guess.ofItems hkept hspread

theorem object_replace (h : c.AgreesAs env .member d) {label : Label}
    (hkind : label.kind = "object") :
    (exprOf label (before ++ d :: after)).guess env =
      (exprOf label (before ++ c :: after)).guess env := by
  have hslots := map_partsOf_replace before after (fun c => c.reading.member.slot? env) h.part h.same
  have hmembers :
      Member.slots? env ((partsOf (before ++ d :: after)).map fun c => c.reading.member) =
        Member.slots? env ((partsOf (before ++ c :: after)).map fun c => c.reading.member) := by
    apply Member.slots?_eq_of_map
    rw [List.map_map, List.map_map]
    exact hslots
  simp only [exprOf, hkind, Expr.guess, hmembers]

end Replacement

end Reading

theorem Passes.keeps {kind : String} {role : Option String} {inner outer : Stance}
    (h : Passes kind role inner outer) {label : Label} (hkind : label.kind = kind)
    {c d : Child} (hrole : c.label.field = role) (hcd : c.AgreesAs env inner d)
    (before after : List Child) :
    outer.Same env (Reading.ofChildren label (before ++ c :: after))
      (Reading.ofChildren label (before ++ d :: after)) := by
  have hoperator (hne : c.label.field ≠ some "operator") :
      Reading.operatorToken (before ++ d :: after) = Reading.operatorToken (before ++ c :: after) := by
    simp only [Reading.operatorToken, Reading.field?_replace_of_ne before after hcd.field hne]
  -- one case for each rule; where a rule reads another role too, the hole does not stand in it
  cases h with
  | item => exact Reading.array_replace before after hcd hkind
  | property => exact Reading.object_replace before after hcd hkind
  | left | right =>
    simp [Stance.Same, Reading.ofChildren, Reading.exprOf, hkind, Expr.guess, hoperator, hrole,
      Reading.operand_replace before after hcd]
  | consequence | alternative =>
    simp [Stance.Same, Reading.ofChildren, Reading.exprOf, hkind, Expr.guess,
      Reading.operand_replace before after hcd]
  | indexed =>
    have hindex : c.label.field ≠ some "index" := by simp [hrole]
    simp only [Stance.Same, Reading.ofChildren, Reading.exprOf, hkind,
      Reading.field?_replace_of_ne before after hcd.field hindex]
    split
    · split
      · simp only [Expr.guess, Reading.operand_replace before after hcd]
      · rfl
    · rfl
  | receiver =>
    have hproperty : c.label.field ≠ some "property" := by simp [hrole]
    simp only [Stance.Same, Reading.ofChildren, Reading.calledOf, hkind, Reading.propertyName?,
      Reading.field?_replace_of_ne before after hcd.field hproperty]
    split
    · simp only [Expr.guess, Reading.operand_replace before after hcd]
    · rfl
  | call =>
    simp only [Stance.Same, Reading.ofChildren, Reading.exprOf, hkind]
    rcases Reading.field?_replace before after hcd.field "function" with hfound | ⟨_, hc, hd⟩
    · rw [hfound]
    · rw [hc, hd]
      exact hcd.same
  | value =>
    have hkey : c.label.field ≠ some "key" := by simp [hrole]
    simp only [Stance.Same, Reading.ofChildren, Reading.memberOf, hkind,
      Reading.field?_replace_of_ne before after hcd.field hkey]
    split
    · simp only [Member.slot?, Reading.operand_replace before after hcd]
    · rfl
  | parentheses =>
    simp only [Stance.Same, Reading.ofChildren, Reading.exprOf, hkind]
    rcases Reading.firstPart?_replace before after hcd.part with hfound | ⟨hc, hd⟩
    · rw [hfound]
    · rw [hc, hd]
      exact hcd.same
  | calledParentheses =>
    simp only [Stance.Same, Reading.ofChildren, Reading.calledOf, hkind]
    rcases Reading.firstPart?_replace before after hcd.part with hfound | ⟨hc, hd⟩
    · rw [hfound]
    · rw [hc, hd]
      exact hcd.same

/-- A node around a hole: what stands before the hole, the role of what is put into it, and what
stands after it. -/
structure Frame where
  label : Label
  before : List Node
  role : Option String
  after : List Node

namespace Frame

def fill (f : Frame) (n : Node) : Node := .mk f.label (f.before ++ n.inField f.role :: f.after)

/-- Fills a hole that is given by the frames around it, the innermost first. -/
def fillAll : List Frame → Node → Node
  | [], n => n
  | f :: outer, n => fillAll outer (f.fill n)

/-- What stands in the hole as the first says stands under the outermost frame as the second says. -/
inductive Enclose : List Frame → Stance → Stance → Prop
  | nil (stance : Stance) : Enclose [] stance stance
  | cons {f : Frame} {frames : List Frame} {inner middle outer : Stance}
      (hf : Passes f.label.kind f.role inner middle) (h : Enclose frames middle outer) :
      Enclose (f :: frames) inner outer

end Frame

/-- Two nodes that may be put into one hole. -/
structure Node.AgreesAs (env : Env κ) (stance : Stance) (n m : Node) : Prop where
  part : m.isPart = n.isPart
  spread : (m.kind == "spread_element") = (n.kind == "spread_element")
  same : stance.Same env n.reading m.reading

namespace Frame

theorem reading_fill (f : Frame) (n : Node) :
    (f.fill n).reading = Reading.ofChildren f.label
      (Node.readChildren f.before ++ (n.inField f.role).asChild :: Node.readChildren f.after) := by
  simp only [fill, Node.reading, Node.readChildren_eq_map, List.map_append, List.map_cons]
  rfl

theorem fill_agrees {f : Frame} {inner outer : Stance}
    (hf : Passes f.label.kind f.role inner outer) {n m : Node} (h : n.AgreesAs env inner m) :
    (f.fill n).AgreesAs env outer (f.fill m) where
  part := rfl
  spread := rfl
  same := by
    have hchild : (n.inField f.role).asChild.AgreesAs env inner (m.inField f.role).asChild := by
      refine ⟨rfl, h.part, h.spread, ?_⟩
      simpa only [Node.asChild, Node.reading_inField] using h.same
    rw [reading_fill, reading_fill]
    exact hf.keeps rfl rfl hchild _ _

theorem fillAll_agrees {frames : List Frame} {inner outer : Stance}
    (h : Enclose frames inner outer) {n m : Node} (hnm : n.AgreesAs env inner m) :
    (fillAll frames n).AgreesAs env outer (fillAll frames m) := by
  -- from the hole outwards, so the nodes that agree grow while the frames get fewer
  induction h generalizing n m with
  | nil => exact hnm
  | cons hf _ ih => exact ih (fill_agrees hf hnm)

theorem guess_fillAll {frames : List Frame} (h : Enclose frames .operand .operand) {n m : Node}
    (hn : n.IsOperand) (hm : m.IsOperand) (hguess : m.guess env = n.guess env) :
    (fillAll frames m).guess env = (fillAll frames n).guess env := by
  have hagrees : n.AgreesAs env .operand m := by
    refine ⟨hm.part.trans hn.part.symm, ?_, hguess⟩
    rw [beq_false_of_ne hm.unspread, beq_false_of_ne hn.unspread]
  exact (fillAll_agrees h hagrees).same

end Frame

theorem Node.guess_of_identifier {n : Node} (hkind : n.kind = "identifier") {g : Guess κ}
    (hbound : env.scope.lookup? n.label.text = some g) : n.guess env = g := by
  have hlabel : n.label.kind = "identifier" := hkind
  simp only [Node.guess, Node.reading_eq, Reading.ofChildren, Reading.exprOf, hlabel, Expr.guess,
    Env.guessName, hbound, Option.getD_some]

theorem Node.isOperand_of_identifier {n : Node} (hkind : n.kind = "identifier")
    (hnamed : n.label.named = true) : n.IsOperand where
  part := by
    have hlabel : n.label.kind = "identifier" := hkind
    simp [isPart, Label.isPart, Label.isComment, hnamed, hlabel]
  unspread := by simp [hkind]

/-- In frames that pass operands on, operands of one guess give expressions of one guess, and so
does a name that is bound to the guess for the operand. -/
theorem inference_is_compositional (env : Env κ) {frames : List Frame}
    (h : Frame.Enclose frames .operand .operand) {e t : Node} (he : e.IsOperand)
    (ht : (Frame.fillAll frames e).Relaid AnyLine t) :
    (∀ e' t' : Node, e'.IsOperand → e'.guess env = e.guess env →
      (Frame.fillAll frames e').Relaid AnyLine t' → t'.guess env = t.guess env) ∧
    ∀ name t' : Node, name.kind = "identifier" → name.label.named = true →
      env.scope.lookup? name.label.text = some (e.guess env) →
      (Frame.fillAll frames name).Relaid AnyLine t' → t'.guess env = t.guess env := by
  have hlaid := (ht.resembles.judgedLike env).guess
  have hreplaced (e' t' : Node) (he' : e'.IsOperand) (hguess : e'.guess env = e.guess env)
      (ht' : (Frame.fillAll frames e').Relaid AnyLine t') : t'.guess env = t.guess env := by
    rw [(ht'.resembles.judgedLike env).guess, hlaid]
    exact Frame.guess_fillAll h he he' hguess
  refine ⟨hreplaced, ?_⟩
  intro name t' hkind hnamed hbound ht'
  exact hreplaced name t' (Node.isOperand_of_identifier hkind hnamed)
    (Node.guess_of_identifier hkind hbound) ht'

/-- The hole is an item of an array that is sliced, and the slice is a property of an object. -/
def slicedFrames : List Frame :=
  [⟨(Node.branch "array" []).label, [], none, [Node.leaf "string" "'a'"]⟩,
   ⟨(Node.branch "member_expression" []).label, [], some "object",
    [(Node.leaf "property_identifier" "slice").inRole "property"]⟩,
   ⟨(Node.branch "call_expression" []).label, [], some "function",
    [(Node.branch "arguments" []).inRole "arguments"]⟩,
   ⟨(Node.branch "pair" []).label, [(Node.leaf "property_identifier" "sizes").inRole "key"],
    some "value", []⟩,
   ⟨(Node.branch "object" []).label, [], none, []⟩]

theorem inference_is_compositional_sliced :
    let env : Env Float :=
      { scope := ({} : Scope Float).bind "n" (.primitive "number" 1.0), freshName := "Interface1" }
    let difference := Node.branch "binary_expression"
      [(Node.leaf "number" "2").inRole "left", (Node.token "-").inRole "operator",
       (Node.leaf "number" "1").inRole "right"]
    let sliced := Frame.fillAll slicedFrames
    Frame.Enclose slicedFrames .operand .operand ∧ difference.IsOperand ∧
    (sliced (Node.leaf "number" "1")).guess env = (sliced difference).guess env ∧
    (sliced (Node.leaf "identifier" "n")).guess env = (sliced difference).guess env := by
  intro env difference sliced
  have hframes : Frame.Enclose slicedFrames .operand .operand :=
    .cons (.item none) (.cons .receiver (.cons .call (.cons .value (.cons (.property none)
      (.nil .operand)))))
  have hdifference : difference.IsOperand := ⟨by decide, by decide⟩
  have hnumber : (Node.leaf "number" "1").IsOperand := ⟨by decide, by decide⟩
  obtain ⟨hreplace, hname⟩ := inference_is_compositional env hframes hdifference
    (Node.Relaid.refl (sliced difference))
  exact ⟨hframes, hdifference, hreplace _ _ hnumber rfl (Node.Relaid.refl _),
    hname _ _ rfl rfl rfl (Node.Relaid.refl _)⟩

end ScriptTyping
