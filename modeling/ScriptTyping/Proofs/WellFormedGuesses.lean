import Mathlib.Data.List.Nodup
import Mathlib.Data.List.Infix
import ScriptTyping.Proofs.RuleInduction
import ScriptTyping.Proofs.Runs

/-! # Well-formed guesses

A guess carries its printed type together with the parts that the type was printed from. The two
agree in every guess that is made where they agree for the names in scope, so the printed type of a
union is never split to find its members.
-/
namespace ScriptTyping

variable {κ : Type}

/-- Types that are parenthesized as the element of an array: unions and functions, told by their
text. -/
def CompoundText (value : String) : Prop :=
  " | ".toList <:+: value.toList ∨ "=>".toList <:+: value.toList

namespace Guess

/-- The printed type of a guess is that of its parts, and it has only the parts of its kind. -/
structure Formed (g : Guess κ) : Prop where
  array : g.kind = .array → ∃ e, g.element = some e ∧
    (CompoundText e.value → g.value = "(" ++ e.value ++ ")" ++ "[]") ∧
    (¬CompoundText e.value → g.value = e.value ++ "[]")
  union : g.kind = .union →
    g.members ≠ [] ∧ g.members.Nodup ∧ g.value = " | ".intercalate g.members
  unknown : g.kind = .unknown → g.value = "unknown"
  element : g.element ≠ none → g.kind = .array
  members : g.members ≠ [] → g.kind = .union
  properties : g.properties ≠ [] → g.kind = .object ∧ g.value = inlineShape g.properties
  named : g.needsInterface = true ↔ g.interfaceName ≠ none
  promoted : g.needsInterface = true → g.kind = .object ∧ g.properties ≠ []

/-- A guess is well formed if it is formed, and so is its element, to any depth. -/
inductive WellFormed : Guess κ → Prop where
  | intro {g : Guess κ} (formed : g.Formed)
      (element : ∀ e, g.element = some e → e.WellFormed) : g.WellFormed

theorem WellFormed.formed {g : Guess κ} (h : g.WellFormed) : g.Formed := by
  cases h with
  | intro formed element => exact formed

theorem WellFormed.of_element {g e : Guess κ} (h : g.WellFormed) (he : g.element = some e) :
    e.WellFormed := by
  cases h with
  | intro formed element => exact element e he

theorem occursIn_iff_infix (part text : List Char) :
    occursIn part text = true ↔ part <:+: text := by
  induction text with
  | nil => simp [occursIn]
  | cons c cs ih => simp [occursIn, ih, List.infix_cons_iff]

theorem wrapElement_of_compound {value : String} (h : CompoundText value) :
    wrapElement value = "(" ++ value ++ ")" := by
  apply if_pos
  rw [Bool.or_eq_true, occursIn_iff_infix, occursIn_iff_infix]
  exact h

theorem wrapElement_of_not_compound {value : String} (h : ¬CompoundText value) :
    wrapElement value = value := by
  apply if_neg
  rw [Bool.or_eq_true, occursIn_iff_infix, occursIn_iff_infix]
  exact h

section Forms

/-- A guess without parts and without a mark, of a kind that has no parts or may do without. -/
theorem wellFormed_plain {kind : Kind}
    (hkind : kind = .primitive ∨ kind = .function ∨ kind = .object) (value : String)
    (confidence : κ) : WellFormed { kind, value, confidence } := by
  refine .intro ?_ ?_
  · rcases hkind with rfl | rfl | rfl <;> constructor <;> simp
  · intro e he
    cases he

theorem wellFormed_primitive (value : String) (confidence : κ) :
    (primitive value confidence).WellFormed := wellFormed_plain (.inl rfl) value confidence

theorem wellFormed_function (value : String) (confidence : κ) :
    (function value confidence).WellFormed := wellFormed_plain (.inr (.inl rfl)) value confidence

theorem wellFormed_object (value : String) (confidence : κ) :
    (object value confidence).WellFormed := wellFormed_plain (.inr (.inr rfl)) value confidence

theorem wellFormed_unknown (confidence : κ) : (unknown confidence).WellFormed := by
  refine .intro ?_ ?_
  · constructor <;> simp [unknown]
  · intro e he
    cases he

theorem wellFormed_union {members : List String} (hne : members ≠ []) (hnodup : members.Nodup)
    (confidence : κ) : (union members confidence).WellFormed := by
  refine .intro ?_ ?_
  · constructor <;> simp [union, unionMark, hne, hnodup]
  · intro e he
    cases he

theorem WellFormed.array {g : Guess κ} (h : g.WellFormed) (confidence : κ) :
    (array g confidence).WellFormed := by
  refine .intro ?_ ?_
  · constructor <;> try simp [Guess.array]
    exact ⟨fun hc => by rw [wrapElement_of_compound hc], fun hc => by
      rw [wrapElement_of_not_compound hc]⟩
  · intro e he
    cases he
    exact h

theorem wellFormed_arrayOf [Score κ] (element : String) (confidence : κ) :
    (arrayOf element confidence).WellFormed := by
  apply WellFormed.array
  split
  · exact wellFormed_unknown _
  · exact wellFormed_primitive _ _

end Forms

section Members

/-- The members of a well-formed union are at hand: its printed type is not split. -/
theorem WellFormed.descriptors_union {g : Guess κ} (h : g.WellFormed) (hkind : g.kind = .union) :
    g.descriptors = g.members := by
  have hne := (h.formed.union hkind).1
  simp [descriptors, hkind, hne]

theorem WellFormed.descriptors_spec {g : Guess κ} (h : g.WellFormed) :
    g.descriptors ≠ [] ∧ g.descriptors.Nodup := by
  by_cases hkind : g.kind = .union
  · obtain ⟨hne, hnodup, _⟩ := h.formed.union hkind
    rw [h.descriptors_union hkind]
    exact ⟨hne, hnodup⟩
  · have hone : g.descriptors = [g.value] := by simp [descriptors, hkind]
    rw [hone]
    exact ⟨List.cons_ne_nil _ _, List.nodup_singleton _⟩

theorem nodup_eraseDups (values : List String) : values.eraseDups.Nodup := by
  induction hlength : values.length using Nat.strongRecOn generalizing values with
  | ind n ih =>
    cases values with
    | nil => exact List.nodup_nil
    | cons v rest =>
      have hshort := List.length_filter_le (fun w => !w == v) rest
      rw [List.eraseDups_cons, List.nodup_cons]
      refine ⟨by simp [List.mem_eraseDups], ih _ ?_ _ rfl⟩
      rw [← hlength, List.length_cons]
      omega

variable [Score κ]

theorem WellFormed.merge {g h : Guess κ} (hg : g.WellFormed) (hh : h.WellFormed) :
    (g.merge h).WellFormed := by
  unfold Guess.merge
  split
  · split
    · exact hg
    · exact hh
  · split
    · exact hh
    · split
      · exact hg
      · apply wellFormed_union _ (nodup_eraseDups _)
        obtain ⟨d, hd⟩ := List.exists_mem_of_ne_nil _ hg.descriptors_spec.1
        exact List.ne_nil_of_mem (List.mem_eraseDups.mpr (List.mem_append_left _ hd))

omit [Score κ] in
theorem WellFormed.optionalElement {g : Guess κ} (h : g.WellFormed) (confidence : κ) :
    (g.optionalElement confidence).WellFormed := by
  have hmembers : ∀ members : List String, members ≠ [] → members.Nodup →
      (union (if members.contains "undefined" then members else members ++ ["undefined"])
        confidence).WellFormed := by
    intro members hne hnodup
    split
    · exact wellFormed_union hne hnodup confidence
    · next hnew =>
      apply wellFormed_union (by simp)
      exact hnodup.append (List.nodup_singleton _) (by simpa using hnew)
  unfold Guess.optionalElement
  cases he : g.element with
  | none => exact hmembers _ (List.cons_ne_nil _ _) (List.nodup_singleton _)
  | some e =>
    obtain ⟨hne, hnodup⟩ := (h.of_element he).descriptors_spec
    exact hmembers _ hne hnodup

theorem WellFormed.withConfidence {g : Guess κ} (h : g.WellFormed) (confidence : κ) :
    (g.withConfidence confidence).WellFormed := by
  unfold Guess.withConfidence
  split
  · exact h
  · exact .intro { h.formed with } fun _ he => h.of_element he

end Members

section Naming

theorem WellFormed.renamed {g : Guess κ} (h : g.WellFormed) (hmark : g.needsInterface = true)
    (name : String) : WellFormed { g with interfaceName := some name } :=
  .intro { h.formed with named := by simp [hmark] } fun _ he => h.of_element he

theorem WellFormed.unmarked {g : Guess κ} (h : g.WellFormed) :
    WellFormed { g with needsInterface := false, interfaceName := none } :=
  .intro { h.formed with named := by simp, promoted := by simp } fun _ he => h.of_element he

theorem WellFormed.register {g : Guess κ} (h : g.WellFormed) (ctx : Context κ) :
    (ctx.register g).2.WellFormed := by
  unfold Context.register
  split
  · split
    · next hmark => exact h.renamed (Bool.and_eq_true_iff.mp hmark).1 _
    · exact h
  · exact h

theorem WellFormed.settle {g : Guess κ} (h : g.WellFormed) (prefer : Bool) (ctx : Context κ) :
    (Run.settle prefer ctx g).2.WellFormed := by
  unfold Run.settle
  split
  · exact h
  · split
    · exact h.register ctx
    · exact h.unmarked

end Naming

section Rules
variable [Score κ]

theorem wellFormed_ofSlots (name : String) (slots : List (Slot κ)) :
    (ofSlots name slots).WellFormed := by
  have hslots : (ofSlots name slots).needsInterface = true → slots ≠ [] := by
    intro hmark hnil
    subst hnil
    cases hmark
  refine .intro ?_ fun e he => by cases he
  constructor
  · intro h
    cases h
  · intro h
    cases h
  · intro h
    cases h
  · intro h
    exact absurd rfl h
  · intro h
    exact absurd rfl h
  · intro _
    exact ⟨rfl, rfl⟩
  · cases hmark : (ofSlots name slots).needsInterface with
    | true =>
      have hname : (ofSlots name slots).interfaceName = some name := if_pos hmark
      simp [hname]
    | false =>
      have hname : (ofSlots name slots).interfaceName = none := if_neg (Bool.eq_false_iff.mp hmark)
      simp [hname]
  · intro hmark
    exact ⟨rfl, fun hnil => hslots hmark (List.map_eq_nil_iff.mp hnil)⟩

theorem wellFormed_ofMembers (name : String) (slots : Option (List (Slot κ))) :
    (ofMembers name slots).WellFormed := by
  unfold ofMembers
  split
  · exact wellFormed_object _ _
  · exact wellFormed_object _ _
  · exact wellFormed_ofSlots _ _

theorem WellFormed.ofBinary (op : Option BinaryOp) {left right : Guess κ} (hl : left.WellFormed)
    (hr : right.WellFormed) : (Guess.ofBinary op left right).WellFormed := by
  unfold Guess.ofBinary
  split
  · exact wellFormed_primitive _ _
  · exact wellFormed_primitive _ _
  · unfold Guess.ofSum
    split
    · exact wellFormed_primitive _ _
    · split
      · exact wellFormed_primitive _ _
      · exact wellFormed_union (by simp) (by simp) _
  · exact hl.merge hr
  · split
    · exact hr
    · exact hl.merge hr
  · exact wellFormed_unknown _

theorem WellFormed.ofArrayMethod {receiver : Guess κ} (h : receiver.WellFormed) (method : String) :
    (receiver.ofArrayMethod method).WellFormed := by
  have hsame : (receiver.element.getD (unknown 0.0)).WellFormed := by
    cases he : receiver.element with
    | none => exact wellFormed_unknown _
    | some e => exact h.of_element he
  unfold Guess.ofArrayMethod
  split <;> first
    | exact hsame.array _
    | exact h.optionalElement _
    | exact wellFormed_unknown _
    | exact wellFormed_primitive _ _

theorem wellFormed_ofStringMethod (method : String) :
    (ofStringMethod method : Guess κ).WellFormed := by
  unfold ofStringMethod
  split <;> first
    | exact wellFormed_primitive _ _
    | exact wellFormed_arrayOf _ _
    | exact wellFormed_union (by simp) (by simp) _
    | exact wellFormed_unknown _

theorem WellFormed.ofMethodCall {receiver : Guess κ} (h : receiver.WellFormed) (method : String) :
    (receiver.ofMethodCall method).WellFormed := by
  unfold Guess.ofMethodCall
  split
  · exact h.ofArrayMethod method
  · split
    · exact wellFormed_ofStringMethod method
    · exact wellFormed_unknown _

theorem WellFormed.ofElement {receiver : Guess κ} (h : receiver.WellFormed) :
    receiver.ofElement.WellFormed := by
  unfold Guess.ofElement
  split
  · exact h.optionalElement _
  · exact wellFormed_unknown _

theorem wellFormed_ofItems {items : List (Guess κ)} (h : ∀ g ∈ items, g.WellFormed)
    (spread : Bool) : (ofItems items spread).WellFormed := by
  cases items with
  | nil => exact wellFormed_arrayOf _ _
  | cons first rest =>
    obtain ⟨hfirst, hrest⟩ := List.forall_mem_cons.mp h
    exact (mergeAll_induct (fun _ _ => .merge) hfirst hrest).array _

theorem wellFormed_ofReturns {returns : List (Guess κ)} (h : ∀ g ∈ returns, g.WellFormed) :
    (ofReturns returns).WellFormed := by
  cases returns with
  | nil => exact wellFormed_primitive _ _
  | cons first rest =>
    obtain ⟨hfirst, hrest⟩ := List.forall_mem_cons.mp h
    simp only [ofReturns]
    split
    · exact wellFormed_primitive _ _
    · exact (mergeAll_induct (fun _ _ => .merge) hfirst hrest).withConfidence _

theorem wellFormed_keptByRules : KeptByRules (WellFormed : Guess κ → Prop) where
  uncovered := wellFormed_unknown _
  unresolved := wellFormed_unknown _
  undetermined := wellFormed_unknown _
  void := wellFormed_primitive _ _
  hidden := wellFormed_object _ _
  literal := by
    intro l
    cases l <;> exact wellFormed_primitive _ _
  freeName := by
    intro name
    unfold ofFreeName
    split <;> first | exact wellFormed_primitive _ _ | exact wellFormed_unknown _
  unary := by
    intro op
    unfold ofUnary
    split <;> first | exact wellFormed_primitive _ _ | exact wellFormed_unknown _
  call := by
    intro callee
    unfold ofCall
    split <;> first
      | exact wellFormed_primitive _ _
      | exact wellFormed_unknown _
      | exact wellFormed_arrayOf _ _
      | exact wellFormed_object _ _
  use := by
    intro u
    cases u <;> first | exact wellFormed_primitive _ _ | exact wellFormed_arrayOf _ _
  arrayPattern := wellFormed_arrayOf _ _
  restParam _ h := h.array _
  signature _ _ _ _ := wellFormed_function _ _
  merge _ _ hg hh := hg.merge hh
  binary op _ _ hl hr := hl.ofBinary op hr
  methodCall _ method h := h.ofMethodCall method
  element _ h := h.ofElement
  items _ spread h := wellFormed_ofItems h spread
  returns _ h := wellFormed_ofReturns h
  members name slots _ := wellFormed_ofMembers name (some slots)
  settled prefer ctx _ h := h.settle prefer ctx

end Rules

end Guess

/-- Where the names in scope have well-formed guesses, every judgement on a node gives a well-formed
guess, registration gives one back, and so does every binding that a run makes from there on. The
members of a well-formed union are never read off its printed type. -/
theorem inferred_guess_wellFormed [Score κ] (ctx : Context κ)
    (h : ctx.scope.All Guess.WellFormed) :
    (∀ env : Env κ, env.scope = ctx.scope →
      (∀ n : Option Node, (Node.guess? env n).WellFormed) ∧
      ∀ n : Node, (n.variableGuess env).WellFormed ∧ (n.shape env).WellFormed ∧
        (n.result env).WellFormed ∧ (∀ g ∈ n.paramGuesses env, g.WellFormed) ∧
        (n.signature env).WellFormed ∧ (n.methodSignature env).WellFormed) ∧
    (∀ name body, (Node.usage name body : Guess κ).WellFormed) ∧
    (∀ g, g.WellFormed → (ctx.register g).2.WellFormed) ∧
    (∀ (prefer : Bool) (statements : List Statement),
      (statements.foldl (Run.step prefer) { context := ctx }).context.scope.All Guess.WellFormed) ∧
    ∀ g : Guess κ, g.WellFormed → g.kind = .union → g.descriptors = g.members := by
  have hP := Guess.wellFormed_keptByRules (κ := κ)
  refine ⟨?_, fun _ _ => hP.uses _, fun g hg => hg.register ctx, ?_, ?_⟩
  · intro env hscope
    have henv : env.scope.All Guess.WellFormed := hscope ▸ h
    refine ⟨Node.guess?_kept hP henv, ?_⟩
    intro n
    refine ⟨Node.guess?_kept hP henv _, n.shape_kept hP henv, ?_, ?_, ?_, ?_⟩
    · exact n.reading.routine.body.guess_kept hP henv
    · exact Param.guessAll_kept hP henv n.reading.routine.params
    · exact Guess.wellFormed_function _ _
    · exact Guess.wellFormed_function _ _
  · intro prefer statements
    exact Run.foldl_scope_kept hP (r := { context := ctx }) h prefer statements
  · intro g hg hkind
    exact hg.descriptors_union hkind

/-- A context in which a name may be a string or a number. -/
def eitherContext : Context Float :=
  ({} : Context Float).bind "a" (.union ["string", "number"] 0.6)

/-- The literal holds that name and a null, so that its printed type is parenthesized. -/
def eitherLiteral : Node :=
  .branch "array" [.leaf "identifier" "a", .leaf "null" "null"]

theorem inferred_guess_wellFormed_either :
    eitherContext.scope.All Guess.WellFormed ∧
    (eitherLiteral.guess eitherContext.env).value = "(string | number | null)[]" ∧
    (eitherLiteral.guess eitherContext.env).WellFormed := by
  have hempty : ({} : Scope Float).All Guess.WellFormed := fun _ _ hg => by cases hg
  have hscope : eitherContext.scope.All Guess.WellFormed :=
    hempty.bind "a" (Guess.wellFormed_union (by simp) (by simp) _)
  obtain ⟨hjudged, _⟩ := inferred_guess_wellFormed eitherContext hscope
  exact ⟨hscope, rfl, (hjudged eitherContext.env rfl).1 (some eitherLiteral)⟩

end ScriptTyping
