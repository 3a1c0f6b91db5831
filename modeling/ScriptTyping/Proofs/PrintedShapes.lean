import ScriptTyping.Proofs.BalancedTypes

/-! # Reading inline shapes back

The type of a property ends at the first exposed semicolon behind it, or at the closing brace of the
shape, and the name of a property is told apart from what follows it. So an inline shape determines
its properties, and of two object types that print alike either one may be kept.
-/
namespace ScriptTyping

/-- The property is printed without flags, and its type does not run into the next property. -/
structure Property.Delimited (p : Property) : Prop where
  plain : p.optional = false ∧ p.readonly = false
  balanced : Balanced p.type.toList
  closed : ¬Exposed [';'] p.type.toList

/-- What stands behind a property: the other ones and the closing brace. -/
def shapeTail (properties : List Property) : List Char :=
  properties.flatMap (fun p => ';' :: ' ' :: p.inline.toList) ++ [' ', '\x7d']

theorem toList_inlineShape_cons (p : Property) (properties : List Property) :
    (inlineShape (p :: properties)).toList =
      '\x7b' :: ' ' :: (p.inline.toList ++ shapeTail properties) := by
  rw [toList_inlineShape, List.map_cons, toList_intercalate, List.flatMap_map]
  simp [shapeTail]

theorem two_le_length_shapeTail (properties : List Property) :
    2 ≤ (shapeTail properties).length := by
  simp only [shapeTail, List.length_append, List.length_cons, List.length_nil]
  omega

/-- A type that is closed by one tail is not continued up to another one. -/
theorem eq_nil_of_shapeTail_eq {type more : List Char} (hbalanced : Balanced type)
    (hclosed : ¬Exposed [';'] (type ++ more)) {properties others : List Property}
    (h : shapeTail properties = more ++ shapeTail others) : more = [] := by
  cases properties with
  | nil =>
    have hlength := congrArg List.length h
    have htwo := two_le_length_shapeTail others
    simp only [shapeTail, List.flatMap_nil, List.nil_append, List.length_append, List.length_cons,
      List.length_nil] at hlength htwo
    apply List.eq_nil_of_length_eq_zero
    omega
  | cons p properties =>
    cases more with
    | nil => rfl
    | cons c more =>
      obtain ⟨rfl, -⟩ := List.cons.inj h
      exact absurd ⟨type, more, rfl, hbalanced⟩ hclosed

theorem type_append_inj {type other : List Char} (ht : Balanced type) (ho : Balanced other)
    (hclosed : ¬Exposed [';'] type) (hclosed' : ¬Exposed [';'] other)
    {properties others : List Property}
    (h : type ++ shapeTail properties = other ++ shapeTail others) :
    type = other ∧ shapeTail properties = shapeTail others := by
  rcases List.append_eq_append_iff.mp h with ⟨more, rfl, htail⟩ | ⟨more, rfl, htail⟩
  · obtain rfl := eq_nil_of_shapeTail_eq ht hclosed' htail
    exact ⟨by simp, htail⟩
  · obtain rfl := eq_nil_of_shapeTail_eq ho hclosed htail
    exact ⟨by simp, htail.symm⟩

theorem Property.inline_append_inj {p q : Property} (hp : p.Delimited) (hq : q.Delimited)
    {properties others : List Property}
    (h : p.inline.toList ++ shapeTail properties = q.inline.toList ++ shapeTail others) :
    p = q ∧ shapeTail properties = shapeTail others := by
  rw [p.toList_inline hp.plain, q.toList_inline hq.plain, List.append_assoc, List.append_assoc] at h
  obtain ⟨hname, hrest⟩ := printName_append_inj h
  obtain ⟨htype, htail⟩ :=
    type_append_inj hp.balanced hq.balanced hp.closed hq.closed (List.cons.inj hrest).2
  refine ⟨ext_toList (congrArg String.toList hname) ?_ ?_ htype, htail⟩
  · rw [hp.plain.1, hq.plain.1]
  · rw [hp.plain.2, hq.plain.2]

theorem shapeTail_inj {properties others : List Property} (hp : ∀ p ∈ properties, p.Delimited)
    (hq : ∀ q ∈ others, q.Delimited) (h : shapeTail properties = shapeTail others) :
    properties = others := by
  induction properties generalizing others with
  | nil =>
    cases others with
    | nil => rfl
    | cons q others => simp [shapeTail] at h
  | cons p properties ih =>
    cases others with
    | nil => simp [shapeTail] at h
    | cons q others =>
      obtain ⟨hp, hps⟩ := List.forall_mem_cons.mp hp
      obtain ⟨hq, hqs⟩ := List.forall_mem_cons.mp hq
      have hnext : p.inline.toList ++ shapeTail properties =
          q.inline.toList ++ shapeTail others := by
        simpa [shapeTail] using h
      obtain ⟨rfl, htail⟩ := Property.inline_append_inj hp hq hnext
      rw [ih hps hqs htail]

theorem inlineShape_inj {properties others : List Property} (hne : properties ≠ [])
    (hne' : others ≠ []) (hp : ∀ p ∈ properties, p.Delimited) (hq : ∀ q ∈ others, q.Delimited)
    (h : inlineShape properties = inlineShape others) : properties = others := by
  cases properties with
  | nil => exact absurd rfl hne
  | cons p properties =>
    cases others with
    | nil => exact absurd rfl hne'
    | cons q others =>
      obtain ⟨hp, hps⟩ := List.forall_mem_cons.mp hp
      obtain ⟨hq, hqs⟩ := List.forall_mem_cons.mp hq
      have htext := congrArg String.toList h
      rw [toList_inlineShape_cons, toList_inlineShape_cons] at htext
      obtain ⟨rfl, htail⟩ :=
        Property.inline_append_inj hp hq (List.cons.inj (List.cons.inj htext).2).2
      rw [shapeTail_inj hps hqs htail]

/-- A shape with properties prints as neither of the two words for object types. -/
theorem inlineShape_ne_word {properties : List Property} (hne : properties ≠ []) {word : String}
    (hword : word = "\x7b\x7d" ∨ word = "object") : inlineShape properties ≠ word := by
  intro heq
  cases properties with
  | nil => exact hne rfl
  | cons p properties =>
    have htext := congrArg String.toList heq
    rw [toList_inlineShape_cons] at htext
    rcases hword with rfl | rfl <;> simp at htext

namespace Guess

variable {κ : Type}

theorem PrintsObject.properties_eq {g h : Guess κ} (hg : g.PrintsObject TidyName)
    (hh : h.PrintsObject TidyName) (hvalue : g.value = h.value) : g.properties = h.properties := by
  cases hg with
  | word none word =>
    cases hh with
    | word none' word' => rw [none, none']
    | shape ne value plain types =>
      exact absurd (value.symm.trans hvalue.symm) (inlineShape_ne_word ne word)
  | shape ne value plain types =>
    cases hh with
    | word none' word' =>
      exact absurd (value.symm.trans hvalue) (inlineShape_ne_word ne word')
    | shape ne' value' plain' types' =>
      apply inlineShape_inj ne ne'
      · exact fun p hp => ⟨plain p hp, (types p hp).balanced, (types p hp).not_exposed_semicolon⟩
      · exact fun p hp => ⟨plain' p hp, (types' p hp).balanced, (types' p hp).not_exposed_semicolon⟩
      · rw [← value, ← value', hvalue]

end Guess

/-- No function in the tree has a parameter whose name has brackets or quotes. -/
def Node.TidyParams (n : Node) : Prop :=
  n.Everywhere fun m => ∀ name, some name ∈ m.paramNames → TidyName name

theorem Node.TidyParams.namesParams {n : Node} (h : n.TidyParams) :
    n.reading.routine.NamesParams TidyName := by
  intro p hp name hname
  exact h.self name (List.mem_map.mpr ⟨p, hp, hname⟩)

theorem Node.tidyParams_of_all {n : Node}
    (h : n.all (fun m => m.paramNames.all (Option.all fun name => name.toList.all isPlainChar)) =
      true) : n.TidyParams := by
  refine Node.everywhere_of_all ?_ h
  intro m hm name hname
  exact List.all_eq_true.mp (List.all_eq_true.mp hm (some name) hname)

theorem Node.hereditary_tidyParams : Node.Hereditary Node.TidyParams :=
  Node.hereditary_everywhere _

variable {κ : Type} [Score κ]

/-- An object type determines its properties, so none is lost where two that print alike are
merged. -/
theorem object_value_determines_properties {g h : Guess κ} (hg : g.Inferred Node.TidyParams)
    (hh : h.Inferred Node.TidyParams) (hgkind : g.kind = .object) (hhkind : h.kind = .object)
    (hvalue : g.value = h.value) :
    g.properties = h.properties ∧ (g.merge h).properties = g.properties := by
  have hsame : g.properties = h.properties :=
    ((hg.printed fun _ hn => hn.namesParams).object hgkind).properties_eq
      ((hh.printed fun _ hn => hn.namesParams).object hhkind) hvalue
  refine ⟨hsame, ?_⟩
  have halike : g.alike h = true := by simp [Guess.alike, hgkind, hhkind, hvalue]
  rw [Guess.merge, if_pos halike]
  split
  · rfl
  · exact hsame.symm

/-- The first object has a function that is named elsewhere, the second one a method: `{ 'x; y': f,
z: { n: 1 } }` after `function f(arg0) {}`, and `{ 'x; y'(q) {}, z: { n: 1 } }`. -/
def alikeShapesScript : Node :=
  .branch "program"
    [.branch "function_declaration"
      [(Node.leaf "identifier" "f").inRole "name",
       (Node.branch "formal_parameters" [.leaf "identifier" "arg0"]).inRole "parameters",
       (Node.branch "statement_block" []).inRole "body"],
     .letting "a" (.branch "object"
      [.branch "pair" [(Node.leaf "string" "'x; y'").inRole "key",
        (Node.leaf "identifier" "f").inRole "value"],
       .branch "pair" [(Node.leaf "property_identifier" "z").inRole "key",
        (Node.numbers ["n"]).inRole "value"]]),
     .letting "b" (.branch "object"
      [.branch "method_definition"
        [(Node.leaf "string" "'x; y'").inRole "name",
         (Node.branch "formal_parameters" [.leaf "identifier" "q"]).inRole "parameters",
         (Node.branch "statement_block" []).inRole "body"],
       .branch "pair" [(Node.leaf "property_identifier" "z").inRole "key",
        (Node.numbers ["n"]).inRole "value"]])]

theorem object_value_determines_alikeShapes :
    let g : Guess Float := alikeShapesScript.nameAfter "a"
    let h : Guess Float := alikeShapesScript.nameAfter "b"
    g.value = "\x7b \"x; y\": (arg0: unknown) => void; z: \x7b n: number \x7d \x7d" ∧
      g.value = h.value ∧ g.properties = h.properties ∧
      (g.merge h).properties = g.properties := by
  have hname : ∀ name, (Node.leaf "identifier" name).TidyParams := fun _ =>
    Node.tidyParams_of_all rfl
  have hinferred : ∀ name,
      (alikeShapesScript.nameAfter name : Guess Float).Inferred Node.TidyParams := fun name =>
    Node.nameAfter_inferred Node.hereditary_tidyParams (Node.tidyParams_of_all rfl) (hname name)
  exact ⟨rfl, rfl,
    object_value_determines_properties (hinferred "a") (hinferred "b") rfl rfl rfl⟩

end ScriptTyping
