import ScriptTyping.Proofs.InferredGuesses
import ScriptTyping.Proofs.WellFormedGuesses

/-! # The grammar of printed types

The rules print a type by one of a few words, or from printed types as an array, a shape, a
signature or a union. So the value of every inferred guess is a sentence of this grammar, and what
holds of its sentences can be shown by induction on the text instead of the tree.
-/
namespace ScriptTyping

variable {κ : Type}

/-- The types that are printed as they are named. -/
def typeWords : List String :=
  ["string", "number", "bigint", "boolean", "null", "undefined", "void", "unknown", "object",
   "\x7b\x7d", "Date", "RegExp", "RegExpMatchArray", "Function", "Promise<unknown>"]

/-- What stands before the type of a parameter: its name, or a number if it has none. -/
def ParamLabel (N : String → Prop) (label : String) : Prop :=
  ∃ dots name, (dots = "" ∨ dots = "...") ∧ (N name ∨ ∃ i : Nat, name = "arg" ++ toString i) ∧
    label = dots ++ name

def signatureText (params : List (String × String)) (result : String) : String :=
  "(" ++ ", ".intercalate (params.map fun x => x.1 ++ ": " ++ x.2) ++ ") => " ++ result

/-- A member of a union, or a whole type, which may be a union. -/
inductive Rank where
  | member
  | whole

/-- The printed types in which the names of parameters satisfy `N`. -/
inductive TypeText (N : String → Prop) : Rank → String → Prop where
  | word {text : String} (mem : text ∈ typeWords) : TypeText N .member text
  | array {element : String} (type : TypeText N .whole element) :
      TypeText N .member (Guess.wrapElement element ++ "[]")
  | shape {properties : List Property} (ne : properties ≠ [])
      (plain : ∀ p ∈ properties, p.optional = false ∧ p.readonly = false)
      (types : ∀ p ∈ properties, TypeText N .whole p.type) :
      TypeText N .member (inlineShape properties)
  | signature {params : List (String × String)} {result : String}
      (labels : ∀ x ∈ params, ParamLabel N x.1) (types : ∀ x ∈ params, TypeText N .whole x.2)
      (type : TypeText N .whole result) : TypeText N .member (signatureText params result)
  | single {text : String} (type : TypeText N .member text) : TypeText N .whole text
  | union {members : List String} (ne : members ≠ []) (types : ∀ m ∈ members, TypeText N .member m) :
      TypeText N .whole (unionMark.intercalate members)

namespace Guess

/-- The value of an object type is one of two words, or it is printed from the properties. -/
inductive PrintsObject (N : String → Prop) (g : Guess κ) : Prop where
  | word (none : g.properties = []) (value : g.value = "\x7b\x7d" ∨ g.value = "object")
  | shape (ne : g.properties ≠ []) (value : g.value = inlineShape g.properties)
      (plain : ∀ p ∈ g.properties, p.optional = false ∧ p.readonly = false)
      (types : ∀ p ∈ g.properties, TypeText N .whole p.type)

/-- The guess prints as a type of the grammar, and so do its parts. -/
inductive Printed (N : String → Prop) : Guess κ → Prop where
  | intro {g : Guess κ} (value : TypeText N .whole g.value)
      (descriptors : ∀ d ∈ g.descriptors, TypeText N .member d)
      (members : g.kind = .union → g.members ≠ [])
      (object : g.kind = .object → g.PrintsObject N)
      (element : ∀ e, g.element = some e → e.Printed N) : g.Printed N

variable {N : String → Prop}

theorem Printed.value {g : Guess κ} (h : g.Printed N) : TypeText N .whole g.value := by
  cases h with
  | intro value descriptors members object element => exact value

theorem Printed.descriptors {g : Guess κ} (h : g.Printed N) :
    ∀ d ∈ g.descriptors, TypeText N .member d := by
  cases h with
  | intro value descriptors members object element => exact descriptors

theorem Printed.object {g : Guess κ} (h : g.Printed N) (hkind : g.kind = .object) :
    g.PrintsObject N := by
  cases h with
  | intro value descriptors members object element => exact object hkind

theorem Printed.of_element {g e : Guess κ} (h : g.Printed N) (he : g.element = some e) :
    e.Printed N := by
  cases h with
  | intro value descriptors members object element => exact element e he

theorem Printed.descriptors_ne_nil {g : Guess κ} (h : g.Printed N) : g.descriptors ≠ [] := by
  cases h with
  | intro value descriptors members object element =>
    by_cases hkind : g.kind = .union
    · simp [Guess.descriptors, hkind, members hkind]
    · simp [Guess.descriptors, hkind]

theorem Printed.members {g : Guess κ} (h : g.Printed N) (hkind : g.kind = .union) :
    ∀ m ∈ g.members, TypeText N .member m := by
  cases h with
  | intro value descriptors members object element =>
    have hsame : g.descriptors = g.members := by simp [Guess.descriptors, hkind, members hkind]
    exact hsame ▸ descriptors

section Forms

theorem printed_single {g : Guess κ} (hunion : g.kind ≠ .union)
    (hobject : g.kind = .object → g.PrintsObject N)
    (helement : ∀ e, g.element = some e → e.Printed N) (h : TypeText N .member g.value) :
    g.Printed N := by
  have hone : g.descriptors = [g.value] := by simp [Guess.descriptors, hunion]
  refine .intro (.single h) ?_ (fun hkind => absurd hkind hunion) hobject helement
  rw [hone]
  exact fun d hd => List.mem_singleton.mp hd ▸ h

theorem printed_primitive {value : String} (h : value ∈ typeWords) (confidence : κ) :
    (primitive value confidence).Printed N := by
  apply printed_single
  · simp [primitive]
  · simp [primitive]
  · simp [primitive]
  · exact .word h

theorem printed_unknown (confidence : κ) : (unknown confidence).Printed N := by
  apply printed_single
  · simp [unknown]
  · simp [unknown]
  · simp [unknown]
  · exact .word (by simp [unknown, typeWords])

theorem printed_object {value : String} (h : value = "\x7b\x7d" ∨ value = "object")
    (confidence : κ) : (object value confidence).Printed N := by
  apply printed_single
  · simp [object]
  · exact fun _ => .word rfl h
  · simp [object]
  · apply TypeText.word
    rcases h with rfl | rfl <;> simp [object, typeWords]

theorem Printed.array {g : Guess κ} (h : g.Printed N) (confidence : κ) :
    (array g confidence).Printed N := by
  apply printed_single
  · simp [Guess.array]
  · simp [Guess.array]
  · intro e he
    exact Option.some.inj he ▸ h
  · exact .array h.value

theorem printed_arrayOf [Score κ] {element : String} (h : element ∈ typeWords) (confidence : κ) :
    (arrayOf element confidence).Printed N := by
  apply Printed.array
  split
  · exact printed_unknown _
  · exact printed_primitive h _

theorem printed_union {members : List String} (hne : members ≠ [])
    (h : ∀ m ∈ members, TypeText N .member m) (confidence : κ) :
    (union members confidence).Printed N := by
  have hsame : (union members confidence).descriptors = members := by
    simp [Guess.descriptors, union, hne]
  refine .intro (.union hne h) ?_ (fun _ => hne) ?_ ?_
  · rw [hsame]
    exact h
  · simp [union]
  · simp [union]

theorem printed_wordUnion {members : List String} (hne : members ≠ [])
    (h : ∀ m ∈ members, m ∈ typeWords) (confidence : κ) : (union members confidence).Printed N :=
  printed_union hne (fun m hm => .word (h m hm)) confidence

theorem Printed.optionalElement {g : Guess κ} (h : g.Printed N) (confidence : κ) :
    (g.optionalElement confidence).Printed N := by
  have hnothing : TypeText N .member "undefined" := .word (by simp [typeWords])
  have hmembers : ∀ members : List String, members ≠ [] → (∀ m ∈ members, TypeText N .member m) →
      (union (if members.contains "undefined" then members else members ++ ["undefined"])
        confidence).Printed N := by
    intro members hne hall
    split
    · exact printed_union hne hall confidence
    · apply printed_union (by simp)
      intro m hm
      rcases List.mem_append.mp hm with hm | hm
      · exact hall m hm
      · exact List.mem_singleton.mp hm ▸ hnothing
  unfold Guess.optionalElement
  cases he : g.element with
  | none =>
    apply hmembers _ (List.cons_ne_nil _ _)
    exact fun m hm => .word (by simp [List.mem_singleton.mp hm, typeWords])
  | some e =>
    exact hmembers _ (h.of_element he).descriptors_ne_nil (h.of_element he).descriptors

variable [Score κ]

theorem Printed.merge {g h : Guess κ} (hg : g.Printed N) (hh : h.Printed N) :
    (g.merge h).Printed N := by
  unfold Guess.merge
  split
  · split
    · exact hg
    · exact hh
  · split
    · exact hh
    · split
      · exact hg
      · obtain ⟨d, hd⟩ := List.exists_mem_of_ne_nil _ hg.descriptors_ne_nil
        apply printed_union (List.ne_nil_of_mem (List.mem_eraseDups.mpr (List.mem_append_left _ hd)))
        intro m hm
        rcases List.mem_append.mp (List.mem_eraseDups.mp hm) with hm | hm
        · exact hg.descriptors m hm
        · exact hh.descriptors m hm

theorem Printed.mergeAll {first : Guess κ} {rest : List (Guess κ)} (hfirst : first.Printed N)
    (hrest : ∀ g ∈ rest, g.Printed N) : (Guess.mergeAll first rest).Printed N :=
  mergeAll_induct (fun _ _ => .merge) hfirst hrest

omit [Score κ] in
/-- What is not printed may change. -/
theorem Printed.congr {g h : Guess κ} (hg : g.Printed N) (hkind : h.kind = g.kind)
    (hvalue : h.value = g.value) (helement : h.element = g.element)
    (hmembers : h.members = g.members) (hproperties : h.properties = g.properties) :
    h.Printed N := by
  cases hg with
  | intro value descriptors members object element =>
    have hsame : h.descriptors = g.descriptors := by
      simp only [Guess.descriptors, hkind, hvalue, hmembers]
    refine .intro (hvalue ▸ value) (hsame ▸ descriptors) ?_ ?_ (helement ▸ element)
    · rw [hkind, hmembers]
      exact members
    · intro hobject
      cases object (hkind ▸ hobject) with
      | word none value => exact .word (hproperties ▸ none) (hvalue ▸ value)
      | shape ne value plain types =>
        rw [← hproperties] at ne value plain types
        exact .shape ne (hvalue ▸ value) plain types

theorem Printed.withConfidence {g : Guess κ} (h : g.Printed N) (confidence : κ) :
    (g.withConfidence confidence).Printed N := by
  unfold Guess.withConfidence
  split
  · exact h
  · exact h.congr rfl rfl rfl rfl rfl

omit [Score κ] in
theorem Printed.settle {g : Guess κ} (h : g.Printed N) (prefer : Bool) (ctx : Context κ) :
    (Run.settle prefer ctx g).2.Printed N := by
  unfold Run.settle
  split
  · exact h
  · split
    · unfold Context.register
      split
      · split
        · exact h.congr rfl rfl rfl rfl rfl
        · exact h
      · exact h
    · exact h.congr rfl rfl rfl rfl rfl

end Forms

section Rules
variable [Score κ]

theorem printed_ofSlots (name : String) {slots : List (Slot κ)} (hne : slots ≠ [])
    (h : ∀ s ∈ slots, s.guess.Printed N) : (ofSlots name slots).Printed N := by
  have hproperties : slots.map Slot.property ≠ [] := by simpa using hne
  have hplain : ∀ p ∈ slots.map Slot.property, p.optional = false ∧ p.readonly = false := by
    intro p hp
    obtain ⟨s, _, rfl⟩ := List.mem_map.mp hp
    exact ⟨rfl, rfl⟩
  have htypes : ∀ p ∈ slots.map Slot.property, TypeText N .whole p.type := by
    intro p hp
    obtain ⟨s, hs, rfl⟩ := List.mem_map.mp hp
    exact (h s hs).value
  apply printed_single
  · simp [ofSlots]
  · exact fun _ => .shape hproperties rfl hplain htypes
  · simp [ofSlots]
  · exact .shape hproperties hplain htypes

/-- The label of a parameter and its printed type. -/
def labelled (params : List (Param × Guess κ)) : List (String × String) :=
  params.zipIdx.map fun ((p, g), i) =>
    ((if p.isRest then "..." else "") ++ p.name?.getD ("arg" ++ toString i), g.value)

omit [Score κ] in
theorem printed_signature {params : List (Param × Guess κ)} {result : Guess κ}
    (hparams : ∀ x ∈ params, (∀ name, x.1.name? = some name → N name) ∧ x.2.Printed N)
    (hresult : result.Printed N) : (signature (Param.printAll params) result).Printed N := by
  have htext : (signature (Param.printAll params) result).value =
      signatureText (labelled params) result.value := by
    simp only [signature, function, signatureText, labelled, Param.printAll, List.map_map]
    rfl
  have hmem : ∀ x ∈ labelled params, ∃ p g i, (p, g) ∈ params ∧ x.2 = g.value ∧
      x.1 = (if p.isRest then "..." else "") ++ p.name?.getD ("arg" ++ toString (i : Nat)) := by
    intro x hx
    obtain ⟨⟨⟨p, g⟩, i⟩, hy, rfl⟩ := List.mem_map.mp hx
    exact ⟨p, g, i, List.fst_mem_of_mem_zipIdx hy, rfl, rfl⟩
  apply printed_single
  · simp [signature, function]
  · simp [signature, function]
  · simp [signature, function]
  · rw [htext]
    refine .signature ?_ ?_ hresult.value
    · intro x hx
      obtain ⟨p, g, i, hp, _, hlabel⟩ := hmem x hx
      refine ⟨_, _, ?_, ?_, hlabel⟩
      · cases p.isRest <;> simp
      · cases hname : p.name? with
        | none => exact .inr ⟨i, rfl⟩
        | some name => exact .inl ((hparams _ hp).1 name hname)
    · intro x hx
      obtain ⟨p, g, i, hp, hvalue, _⟩ := hmem x hx
      exact hvalue ▸ (hparams _ hp).2.value

theorem Printed.ofBinary (op : Option BinaryOp) {left right : Guess κ} (hl : left.Printed N)
    (hr : right.Printed N) : (Guess.ofBinary op left right).Printed N := by
  unfold Guess.ofBinary
  split
  · exact printed_primitive (by simp [typeWords]) _
  · exact printed_primitive (by simp [typeWords]) _
  · unfold Guess.ofSum
    split
    · exact printed_primitive (by simp [typeWords]) _
    · split
      · exact printed_primitive (by simp [typeWords]) _
      · exact printed_wordUnion (by simp) (by simp [typeWords]) _
  · exact hl.merge hr
  · split
    · exact hr
    · exact hl.merge hr
  · exact printed_unknown _

theorem Printed.ofArrayMethod {receiver : Guess κ} (h : receiver.Printed N) (method : String) :
    (receiver.ofArrayMethod method).Printed N := by
  have hsame : (receiver.element.getD (unknown 0.0)).Printed N := by
    cases he : receiver.element with
    | none => exact printed_unknown _
    | some e => exact h.of_element he
  unfold Guess.ofArrayMethod
  split <;> first
    | exact hsame.array _
    | exact h.optionalElement _
    | exact printed_unknown _
    | exact printed_primitive (by simp [typeWords]) _

theorem Printed.ofMethodCall {receiver : Guess κ} (h : receiver.Printed N) (method : String) :
    (receiver.ofMethodCall method).Printed N := by
  unfold Guess.ofMethodCall
  split
  · exact h.ofArrayMethod method
  · split
    · unfold ofStringMethod
      split <;> first
        | exact printed_primitive (by simp [typeWords]) _
        | exact printed_arrayOf (by simp [typeWords]) _
        | exact printed_wordUnion (by simp) (by simp [typeWords]) _
        | exact printed_unknown _
    · exact printed_unknown _

theorem printed_ofItems {items : List (Guess κ)} (h : ∀ g ∈ items, g.Printed N) (spread : Bool) :
    (ofItems items spread).Printed N := by
  cases items with
  | nil => exact printed_arrayOf (by simp [typeWords]) _
  | cons first rest =>
    obtain ⟨hfirst, hrest⟩ := List.forall_mem_cons.mp h
    exact (hfirst.mergeAll hrest).array _

theorem printed_ofReturns {returns : List (Guess κ)} (h : ∀ g ∈ returns, g.Printed N) :
    (ofReturns returns).Printed N := by
  cases returns with
  | nil => exact printed_primitive (by simp [typeWords]) _
  | cons first rest =>
    obtain ⟨hfirst, hrest⟩ := List.forall_mem_cons.mp h
    simp only [ofReturns]
    split
    · exact printed_primitive (by simp [typeWords]) _
    · exact (hfirst.mergeAll hrest).withConfidence _

theorem printed_keptByRules (N : String → Prop) :
    KeptByRules (Printed N : Guess κ → Prop) N where
  uncovered := printed_unknown _
  unresolved := printed_unknown _
  undetermined := printed_unknown _
  void := printed_primitive (by simp [typeWords]) _
  hidden := printed_object (.inr rfl) _
  literal := by
    intro l
    cases l <;> exact printed_primitive (by simp [typeWords]) _
  freeName := by
    intro name
    unfold ofFreeName
    split <;> first
      | exact printed_primitive (by simp [typeWords]) _
      | exact printed_unknown _
  unary := by
    intro op
    unfold ofUnary
    split <;> first
      | exact printed_primitive (by simp [typeWords]) _
      | exact printed_unknown _
  call := by
    intro callee
    unfold ofCall
    split <;> first
      | exact printed_primitive (by simp [typeWords]) _
      | exact printed_unknown _
      | exact printed_arrayOf (by simp [typeWords]) _
      | exact printed_object (.inr rfl) _
  use := by
    intro u
    cases u <;> first
      | exact printed_primitive (by simp [typeWords]) _
      | exact printed_arrayOf (by simp [typeWords]) _
  arrayPattern := printed_arrayOf (by simp [typeWords]) _
  restParam _ h := h.array _
  signature _ _ hparams hresult := printed_signature hparams hresult
  merge _ _ hg hh := hg.merge hh
  binary op _ _ hl hr := hl.ofBinary op hr
  methodCall _ method h := h.ofMethodCall method
  element receiver h := by
    unfold ofElement
    split
    · exact h.optionalElement _
    · exact printed_unknown _
  items _ spread h := printed_ofItems h spread
  returns _ h := printed_ofReturns h
  members name := ofMembers_kept (printed_object (.inl rfl) _) name fun _ => printed_ofSlots name
  settled prefer ctx _ h := h.settle prefer ctx

/-- Every inferred guess is printed by the grammar. -/
theorem Inferred.printed {T : Node → Prop} (hT : ∀ n, T n → n.reading.routine.NamesParams N)
    {g : Guess κ} (h : g.Inferred T) : g.Printed N :=
  h.kept (printed_keptByRules N) hT

theorem Inferred.wellFormed {T : Node → Prop} {g : Guess κ} (h : g.Inferred T) : g.WellFormed :=
  h.kept wellFormed_keptByRules fun _ _ _ _ _ _ => trivial

end Rules

end Guess

end ScriptTyping
