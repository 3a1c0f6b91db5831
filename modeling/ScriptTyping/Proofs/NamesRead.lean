import Mathlib.Data.List.Basic
import ScriptTyping.Report

/-! # Names that a judgement reads

A judgement on a node looks up names in the scope, and only such as stand in the node. Two
environments that agree on these names judge the node alike, in whatever position it stands.
-/
namespace ScriptTyping

variable {κ : Type}

/-- Whether a node of this label may be read as a name. -/
def Label.isName (l : Label) : Bool :=
  ["identifier", "undefined", "shorthand_property_identifier"].contains l.kind

namespace Node

mutual

/-- The names that stand in a node, at any depth. -/
def names : Node → List String
  | mk label children => (if label.isName then [label.text] else []) ++ namesIn children

def namesIn : List Node → List String
  | [] => []
  | n :: rest => n.names ++ namesIn rest

end

end Node

/-- The environments differ at most in the guesses for names outside of a set. -/
structure Env.AgreeOn (P : String → Prop) (env other : Env κ) : Prop where
  scope : ∀ id, P id → env.scope.lookup? id = other.scope.lookup? id
  freshName : env.freshName = other.freshName
  describesObjects : env.describesObjects = other.describesObjects

variable [Score κ]

/-- A statement whose guesses are the same in both environments. -/
def Statement.JudgedAlike (env other : Env κ) : Statement → Prop
  | .declare _ init _ => init.guess env = init.guess other
  | .define _ routine _ =>
    routine.paramGuesses env = routine.paramGuesses other ∧
      routine.result env = routine.result other

/-- A node whose guesses are the same in both environments, in each position. -/
structure Reading.JudgedAlike (env other : Env κ) (r : Reading) : Prop where
  expr : r.expr.guess env = r.expr.guess other
  called : r.called.guess env = r.called.guess other
  member : r.member.slot? env = r.member.slot? other
  param : ∀ uses, (r.param uses).guess env = (r.param uses).guess other
  params : ∀ uses, Param.guessAll env (r.params uses) = Param.guessAll other (r.params uses)
  returned : r.returned.guess env = r.returned.guess other
  returns : Return.guessAll env r.returns = Return.guessAll other r.returns
  routine : r.routine.paramGuesses env = r.routine.paramGuesses other ∧
    r.routine.result env = r.routine.result other
  declared : ∀ s ∈ r.declared, s.JudgedAlike env other
  statements : ∀ s ∈ r.statements, s.JudgedAlike env other

variable {env other : Env κ}

theorem Member.slots?_congr {members : List Member}
    (h : ∀ m ∈ members, m.slot? env = m.slot? other) :
    Member.slots? env members = Member.slots? other members := by
  induction members with
  | nil => rfl
  | cons m rest ih =>
    obtain ⟨hm, hrest⟩ := List.forall_mem_cons.mp h
    simp only [Member.slots?, hm, ih hrest]

theorem Env.AgreeOn.guessName {P : String → Prop} (h : env.AgreeOn P other) {id : String}
    (hid : P id) : env.guessName id = other.guessName id := by
  simp only [Env.guessName, h.scope id hid]

namespace Reading

variable {P : String → Prop} {label : Label} {children : List Child}

section Parts
variable (hchildren : ∀ c ∈ children, c.reading.JudgedAlike env other)
include hchildren

theorem operand_alike (role : String) :
    (operand children role).guess env = (operand children role).guess other := by
  unfold operand
  cases h : field? children role with
  | none => rfl
  | some c => exact (hchildren c (List.mem_of_find?_eq_some h)).expr

theorem partsOf_alike : ∀ c ∈ partsOf children, c.reading.JudgedAlike env other := by
  intro c hc
  exact hchildren c (List.mem_filter.mp hc).1

theorem firstPart?_alike {c : Child} (h : firstPart? children = some c) :
    c.reading.JudgedAlike env other :=
  partsOf_alike hchildren c (List.mem_of_mem_head? h)

theorem exprOf_alike (hagree : env.AgreeOn P other) (hname : label.isName = true → P label.text) :
    (exprOf label children).guess env = (exprOf label children).guess other := by
  have hoperand := operand_alike hchildren
  unfold exprOf
  split
  -- parentheses
  case h_1 =>
    split
    · next c hc => exact (firstPart?_alike hchildren hc).expr
    · rfl
  -- names, the one form that looks at the scope itself
  case h_10 hkind | h_11 hkind =>
    exact hagree.guessName (hname (by simp [Label.isName, hkind]))
  -- arrays
  case h_12 =>
    simp only [Expr.guess, Expr.guessAll_eq_map, List.map_map]
    congr 1
    apply List.map_congr_left
    intro c hc
    exact (partsOf_alike hchildren c (List.mem_filter.mp hc).1).expr
  -- objects, whose promoted shapes take the free name
  case h_13 =>
    have hslots : Member.slots? env ((partsOf children).map fun c => c.reading.member) =
        Member.slots? other ((partsOf children).map fun c => c.reading.member) := by
      apply Member.slots?_congr
      intro m hm
      obtain ⟨c, hc, rfl⟩ := List.mem_map.mp hm
      exact (partsOf_alike hchildren c hc).member
    simp only [Expr.guess, hslots, hagree.freshName, hagree.describesObjects]
  -- operators, conditionals, calls and indices
  case h_15 => simp only [Expr.guess, hoperand]
  case h_16 => simp only [Expr.guess, hoperand]
  case h_17 =>
    split
    · next c hc => exact (hchildren c (List.mem_of_find?_eq_some hc)).called
    · rfl
  case h_19 =>
    split
    · split
      · simp only [Expr.guess, hoperand]
      · rfl
    · rfl
  all_goals rfl

theorem calledOf_alike :
    (calledOf label children).guess env = (calledOf label children).guess other := by
  unfold calledOf
  split
  · split
    · next c hc => exact (firstPart?_alike hchildren hc).called
    · rfl
  · rfl
  · split
    · simp only [Expr.guess, operand_alike hchildren]
    · rfl
  · rfl

theorem bodyOf_alike : (bodyOf children).guess env = (bodyOf children).guess other := by
  unfold bodyOf
  split
  · rfl
  · next c hc =>
    have hbody := hchildren c (List.mem_of_find?_eq_some hc)
    split
    · simp only [Body.guess, hbody.returns]
    · exact hbody.expr

theorem routineOf_alike :
    (routineOf children).paramGuesses env = (routineOf children).paramGuesses other ∧
      (routineOf children).result env = (routineOf children).result other := by
  refine ⟨?_, bodyOf_alike hchildren⟩
  simp only [routineOf, Routine.paramGuesses]
  split
  · next c hc => exact (hchildren c (List.mem_of_find?_eq_some hc)).params _
  · cases hparam : field? children "parameter" with
    | none => rfl
    | some c =>
      have hguess := (hchildren c (List.mem_of_find?_eq_some hparam)).param
      simp only [Option.map_some, Option.toList_some, Param.guessAll, hguess]

theorem memberOf_alike (hagree : env.AgreeOn P other)
    (hname : label.isName = true → P label.text) :
    (memberOf label children).slot? env = (memberOf label children).slot? other := by
  obtain ⟨hparams, hbody⟩ := routineOf_alike hchildren
  simp only [Routine.paramGuesses, Routine.result] at hparams hbody
  unfold memberOf
  split
  · next hkind =>
    have hguess := hagree.guessName (hname (by simp [Label.isName, hkind]))
    simp only [Member.slot?, hguess]
  · split
    · simp only [Member.slot?, operand_alike hchildren]
    · rfl
  · split
    · split
      · simp only [Member.slot?, hbody]
      · simp only [Member.slot?, hparams]
      · simp only [Member.slot?, hparams, hbody]
    · rfl
  · rfl

theorem paramOf_alike (uses : String → List Use) :
    (paramOf label children uses).guess env = (paramOf label children uses).guess other := by
  unfold paramOf
  split
  -- the name of a rest parameter is judged as an operand too
  case h_2 =>
    split
    · next c hc => simp only [Param.guess, (firstPart?_alike hchildren hc).expr]
    · rfl
  case h_3 => exact operand_alike hchildren "right"
  all_goals rfl

theorem returnedOf_alike :
    (returnedOf children).guess env = (returnedOf children).guess other := by
  unfold returnedOf
  split
  · next c hc => exact (firstPart?_alike hchildren hc).expr
  · rfl

theorem returnsOf_alike :
    Return.guessAll env (returnsOf children) = Return.guessAll other (returnsOf children) := by
  simp only [returnsOf, Return.guessAll_eq_map, List.map_flatMap]
  apply List.flatMap_congr
  intro c hc
  have hpart := partsOf_alike hchildren c hc
  split
  · simp only [List.map_cons, hpart.returned, List.map_nil]
  · split
    · simpa only [Return.guessAll_eq_map] using hpart.returns
    · rfl

theorem declaredOf_alike : ∀ s ∈ declaredOf label children, s.JudgedAlike env other := by
  intro s hs
  unfold declaredOf at hs
  split at hs
  · split at hs
    · rw [List.mem_singleton.mp hs]
      exact operand_alike hchildren "value"
    · cases hs
  · cases hs

theorem statementsOf_alike : ∀ s ∈ statementsOf label children, s.JudgedAlike env other := by
  intro s hs
  unfold statementsOf at hs
  split at hs
  · split at hs
    · next c hc => exact (hchildren c (List.mem_of_find?_eq_some hc)).statements s hs
    · cases hs
  · split at hs
    · obtain ⟨c, hc, hsc⟩ := List.mem_flatMap.mp hs
      exact (partsOf_alike hchildren c hc).declared s hsc
    · split at hs
      · split at hs
        · rw [List.mem_singleton.mp hs]
          exact routineOf_alike hchildren
        · cases hs
      · cases hs

theorem ofChildren_alike (hagree : env.AgreeOn P other)
    (hname : label.isName = true → P label.text) :
    (ofChildren label children).JudgedAlike env other where
  expr := exprOf_alike hchildren hagree hname
  called := calledOf_alike hchildren
  member := memberOf_alike hchildren hagree hname
  param := paramOf_alike hchildren
  params := by
    intro uses
    simp only [ofChildren, paramsOf, Param.guessAll_eq_map, List.map_map]
    apply List.map_congr_left
    intro c hc
    exact (partsOf_alike hchildren c hc).param uses
  returned := returnedOf_alike hchildren
  returns := returnsOf_alike hchildren
  routine := routineOf_alike hchildren
  declared := declaredOf_alike hchildren
  statements := statementsOf_alike hchildren

end Parts

end Reading

mutual

theorem Node.reading_alike {P : String → Prop} (hagree : env.AgreeOn P other) :
    (n : Node) → (∀ name ∈ n.names, P name) → n.reading.JudgedAlike env other
  | .mk label children, hnames => by
    simp only [Node.names, List.forall_mem_append] at hnames
    obtain ⟨hlabel, hbelow⟩ := hnames
    apply Reading.ofChildren_alike (Node.readChildren_alike hagree children hbelow) hagree
    intro hname
    exact hlabel label.text (by simp [hname])

theorem Node.readChildren_alike {P : String → Prop} (hagree : env.AgreeOn P other) :
    (ns : List Node) → (∀ name ∈ Node.namesIn ns, P name) →
      ∀ c ∈ Node.readChildren ns, c.reading.JudgedAlike env other
  | [], _ => List.forall_mem_nil _
  | n :: rest, hnames => by
    obtain ⟨hn, hrest⟩ := List.forall_mem_append.mp hnames
    exact List.forall_mem_cons.mpr
      ⟨n.reading_alike hagree hn, Node.readChildren_alike hagree rest hrest⟩

end

end ScriptTyping
