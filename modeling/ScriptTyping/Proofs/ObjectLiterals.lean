import ScriptTyping.Proofs.Layouts
import ScriptTyping.Proofs.LiteralPass

/-! # Object literals

The shape of an object literal is a matter of its parts. One part that does not tell which property
it declares hides them all. Otherwise each part fills a slot, and the shape is that of the slots in
two passes. A property may then be declared twice, but not by two accessors.
-/
namespace ScriptTyping

variable {κ : Type}

namespace Node

section Parts

/-- The kinds of keys that spell the name of a property. -/
def plainKeys : List String := ["property_identifier", "string", "number"]

def keyText? (key : Node) : Option String :=
  if key.kind = "property_identifier" then some key.label.text
  else if key.kind = "string" then some (Reading.unquote key.label.text)
  else if key.kind = "number" then some (Numeral.key key.label.text)
  else none

/-- The property that a part of a literal declares. -/
def memberName? (m : Node) : Option String :=
  if m.kind = "shorthand_property_identifier" then some m.label.text
  else if m.kind = "pair" then (m.field? "key").bind keyText?
  else if m.kind = "method_definition" then (m.field? "name").bind keyText?
  else none

/-- A part of a literal that does not tell which property it declares. -/
inductive IsOpaque (m : Node) : Prop
  /-- A spread, or whatever else may stand in a literal. -/
  | foreign (h : m.kind ∉ ["pair", "method_definition", "shorthand_property_identifier"])
  /-- The key is missing, computed or private. -/
  | pair (hkind : m.kind = "pair") (hkey : ∀ key ∈ m.field? "key", key.kind ∉ plainKeys)
  | method (hkind : m.kind = "method_definition")
      (hkey : ∀ key ∈ m.field? "name", key.kind ∉ plainKeys)

theorem keyText?_eq_none_iff {key : Node} : key.keyText? = none ↔ key.kind ∉ plainKeys := by
  unfold keyText?
  split_ifs <;> simp_all [plainKeys]

theorem bind_keyText?_eq_none_iff {key : Option Node} :
    key.bind keyText? = none ↔ ∀ k ∈ key, k.kind ∉ plainKeys := by
  rw [Option.bind_eq_none_iff]
  exact forall₂_congr fun _ _ => keyText?_eq_none_iff

theorem isOpaque_iff {m : Node} : m.IsOpaque ↔ m.memberName? = none := by
  unfold memberName?
  split_ifs with hshorthand hpair hmethod
  · refine iff_of_false ?_ (by simp)
    rintro (h | ⟨h, -⟩ | ⟨h, -⟩) <;> simp [hshorthand] at h
  · rw [bind_keyText?_eq_none_iff]
    refine ⟨?_, .pair hpair⟩
    rintro (h | ⟨-, h⟩ | ⟨h, -⟩)
    · simp [hpair] at h
    · exact h
    · simp [hpair] at h
  · rw [bind_keyText?_eq_none_iff]
    refine ⟨?_, .method hmethod⟩
    rintro (h | ⟨h, -⟩ | ⟨-, h⟩)
    · simp [hmethod] at h
    · simp [hmethod] at h
    · exact h
  · exact iff_of_true (.foreign (by simp [*])) rfl

theorem exists_memberName {m : Node} (h : ¬m.IsOpaque) : ∃ name, m.memberName? = some name :=
  Option.ne_none_iff_exists'.mp (mt isOpaque_iff.mpr h)

theorem keyName?_map (key : Option Node) :
    Reading.keyName? (key.map fun c => ⟨c.label, c.reading⟩) = key.bind keyText? := by
  cases key with
  | none => rfl
  | some k =>
    simp only [Reading.keyName?, Option.map_some, Option.bind_some, keyText?]
    split <;> simp_all [kind]

theorem accessor?_of_ne_method {m : Node} (h : m.kind ≠ "method_definition") :
    m.accessor? = none := by
  simp [accessor?, Reading.accessorOf?, h]

end Parts

section Parentheses

mutual

theorem expr_of_unwrapped? : {n o : Node} → n.unwrapped? = some o → n.reading.expr = o.reading.expr
  | mk label children, o, h => by
    unfold unwrapped? at h
    split at h
    · next hkind =>
      obtain ⟨c, hc, hexpr⟩ := firstPart?_of_firstUnwrapped? h
      have hlabel : label.kind = "parenthesized_expression" := by simpa using hkind
      simp only [reading, Reading.ofChildren, Reading.exprOf, hlabel, hc, hexpr]
    · rw [← Option.some.inj h]

theorem firstPart?_of_firstUnwrapped? : {ns : List Node} → {o : Node} →
    firstUnwrapped? ns = some o →
      ∃ c, Reading.firstPart? (readChildren ns) = some c ∧ c.reading.expr = o.reading.expr
  | [], _, h => by simp [firstUnwrapped?] at h
  | n :: rest, o, h => by
    unfold firstUnwrapped? at h
    split at h
    · next hpart =>
      refine ⟨n.asChild, ?_, expr_of_unwrapped? h⟩
      have hlabel : n.label.isPart = true := hpart
      simp [readChildren, Reading.firstPart?, Reading.partsOf, hlabel, asChild]
    · next hpart =>
      obtain ⟨c, hc, hexpr⟩ := firstPart?_of_firstUnwrapped? h
      have hlabel : n.label.isPart = false := Bool.eq_false_iff.mpr hpart
      refine ⟨c, ?_, hexpr⟩
      simpa [readChildren, Reading.firstPart?, Reading.partsOf, hlabel] using hc

end

end Parentheses

variable [Score κ]

section Members

/-- What the property of a part holds. -/
def memberGuess (env : Env κ) (m : Node) : Guess κ :=
  if m.kind = "shorthand_property_identifier" then env.guessName m.label.text
  else if m.kind = "pair" then guess? env (m.field? "value")
  else if m.accessor? = some .get then m.result env
  else if m.accessor? = some .set then (m.paramGuesses env).head?.getD (.unknown 0.3)
  else m.methodSignature env

/-- The slot that a part fills. -/
def memberSlot (env : Env κ) (m : Node) : Slot κ :=
  { name := m.memberName?.getD "", accessor := m.accessor?, guess := m.memberGuess env }

variable (env : Env κ)

theorem slot?_member (m : Node) :
    m.reading.member.slot? env =
      m.memberName?.map fun name =>
        { name, accessor := m.accessor?, guess := m.memberGuess env } := by
  have hroutine : Reading.routineOf (readChildren m.children) = m.reading.routine := by
    rw [reading_eq]
    rfl
  have haccessor : Reading.accessorOf? m.label.kind (m.children.map label) = m.accessor? := rfl
  rw [reading_eq]
  simp only [Reading.ofChildren, Reading.memberOf, field?_readChildren, keyName?_map,
    map_label_readChildren, hroutine, haccessor]
  split
  · next hkind =>
    simp [Member.slot?, memberName?, memberGuess, kind, hkind, accessor?_of_ne_method]
  · next hkind =>
    have hname : m.memberName? = (m.field? "key").bind keyText? := by
      simp [memberName?, kind, hkind]
    have hguess : m.memberGuess env = guess? env (m.field? "value") := by
      simp [memberGuess, kind, hkind]
    rw [hname, hguess, accessor?_of_ne_method (by simp [kind, hkind]), ← guess_operand]
    cases (m.field? "key").bind keyText? <;> rfl
  · next hkind =>
    have hname : m.memberName? = (m.field? "name").bind keyText? := by
      simp [memberName?, kind, hkind]
    rw [hname]
    cases (m.field? "name").bind keyText? with
    | none => rfl
    | some name =>
      have hkind' : m.kind = "method_definition" := hkind
      rcases hhalf : m.accessor? with _ | (_ | _) <;>
        simp [Member.slot?, memberGuess, hkind', hhalf, methodSignature, result, paramGuesses,
          Routine.methodSignature, Routine.result, Routine.paramGuesses]
  · next hshorthand hpair hmethod =>
    have hname : m.memberName? = none :=
      (if_neg hshorthand).trans ((if_neg hpair).trans (if_neg hmethod))
    rw [hname]
    rfl

/-- One part that is opaque hides the slots of all. -/
theorem slots?_of_opaque {ms : List Node} (h : ∃ m ∈ ms, m.IsOpaque) :
    Member.slots? env (ms.map fun m => m.reading.member) = none := by
  induction ms with
  | nil => simp at h
  | cons m rest ih =>
    simp only [List.map_cons, Member.slots?, slot?_member]
    rcases (List.exists_mem_cons_iff ..).mp h with hm | hrest
    · simp [isOpaque_iff.mp hm]
    · simp [ih hrest]

theorem slots?_of_plain {ms : List Node} (h : ∀ m ∈ ms, ¬m.IsOpaque) :
    Member.slots? env (ms.map fun m => m.reading.member) = some (ms.map (memberSlot env)) := by
  induction ms with
  | nil => rfl
  | cons m rest ih =>
    obtain ⟨hm, hrest⟩ := List.forall_mem_cons.mp h
    obtain ⟨name, hname⟩ := exists_memberName hm
    simp only [List.map_cons, Member.slots?, slot?_member, ih hrest, hname, memberSlot,
      Option.map_some, Option.getD_some]

/-- The pass over the parts of a literal. -/
def pass? (env : Env κ) (n : Node) : Option (LiteralPass κ) :=
  LiteralPass.run env {} (n.parts.map fun m => m.reading.member)

theorem pass?_of_opaque {n : Node} (h : ∃ m ∈ n.parts, m.IsOpaque) : n.pass? env = none := by
  rw [pass?, LiteralPass.run_eq, slots?_of_opaque env h, Option.map_none]

theorem pass?_of_plain {n : Node} (h : ∀ m ∈ n.parts, ¬m.IsOpaque) :
    ∃ p, n.pass? env = some p ∧
      p.Aligned (Slot.inTwoPasses (n.parts.map (memberSlot env))) :=
  LiteralPass.run_aligned (slots?_of_plain env h)

theorem shape_of_opaque {n : Node} (h : ∃ m ∈ n.parts, m.IsOpaque) :
    n.shape env = .hiddenObject := by
  rw [shape, Member.shape, slots?_of_opaque env h, Guess.ofMembers]

theorem shape_of_plain {n : Node} (hne : n.parts ≠ []) (h : ∀ m ∈ n.parts, ¬m.IsOpaque) :
    n.shape env =
      .ofSlots env.freshName (Slot.inTwoPasses (n.parts.map (memberSlot env))) := by
  rw [shape, Member.shape, slots?_of_plain env h]
  obtain ⟨m, rest, hparts⟩ := List.exists_cons_of_ne_nil hne
  rw [← Slot.foldl_place_eq_inTwoPasses, hparts]
  rfl

/-- A literal in the place of a value, in parentheses or not, is judged by its own parts. -/
theorem memberGuess_of_literal (ctx : Context κ) {m value literal : Node} (hkind : m.kind = "pair")
    (hvalue : m.field? "value" = some value) (hliteral : value.unwrapped? = some literal)
    (hobject : literal.kind = "object") :
    m.memberGuess ctx.env = literal.shape ctx.env := by
  have hguess : m.memberGuess ctx.env = value.guess ctx.env := by
    simp [memberGuess, hkind, hvalue, guess?]
  rw [hguess, guess, expr_of_unwrapped? hliteral, expr_of_object hobject, shape_eq]
  rfl

end Members

end Node

variable [Score κ]

/-- The guess is the shape with the given slots, which takes a free name if it is promoted. -/
structure Guess.IsShapeOf (ctx : Context κ) (slots : List (Slot κ)) (g : Guess κ) : Prop where
  kind : g.kind = .object
  properties : g.properties = slots.map fun s => { name := s.name, type := s.guess.value }
  value : g.value = inlineShape g.properties
  confidence : g.confidence = Score.mean (slots.map fun s => s.guess.confidence)
  promoted : g.needsInterface = true ↔
    3 < g.properties.length ∨ ∃ s ∈ slots, s.guess.kind = .object ∨ s.guess.kind = .function
  named : g.interfaceName = if g.needsInterface then some ctx.registry.nextName else none

theorem Guess.ofSlots_isShapeOf (ctx : Context κ) (slots : List (Slot κ)) :
    (ofSlots ctx.env.freshName slots).IsShapeOf ctx slots where
  kind := rfl
  properties := rfl
  value := rfl
  confidence := rfl
  promoted := by
    simp only [ofSlots, Bool.or_eq_true, decide_eq_true_eq, List.any_eq_true, Slot.isNested,
      beq_iff_eq, List.length_map]
    exact Iff.rfl
  named := rfl

/-- The shape of an object literal is that of its slots in two passes, unless it has no parts or one
of them is opaque. The lists that the pass over the parts fills are aligned with these slots. Opaque
parts of a literal inside of it hide that literal only. -/
theorem object_shape_in_two_passes (ctx : Context κ) (n : Node) :
    (n.parts = [] → n.shape ctx.env = .object "\x7b\x7d" 0.8) ∧
    ((∃ m ∈ n.parts, m.IsOpaque) →
      n.pass? ctx.env = none ∧ n.shape ctx.env = .object "object" 0.5) ∧
    (n.parts ≠ [] → (∀ m ∈ n.parts, ¬m.IsOpaque) →
      let slots := Slot.inTwoPasses (n.parts.map (Node.memberSlot ctx.env))
      (n.shape ctx.env).IsShapeOf ctx slots ∧
      ∃ p, n.pass? ctx.env = some p ∧ p.Aligned slots ∧
        n.shape ctx.env = p.shape ctx.registry.nextName) ∧
    (∀ m ∈ n.parts, m.kind = "pair" → ∀ value, m.field? "value" = some value →
      ∀ literal, value.unwrapped? = some literal → literal.kind = "object" →
        (m.memberSlot ctx.env).guess = literal.shape ctx.env ∧
        ((∃ d ∈ literal.parts, d.IsOpaque) → (∀ d ∈ n.parts, ¬d.IsOpaque) →
          ∃ name, m.memberName? = some name ∧
            { name, type := "object" } ∈ (n.shape ctx.env).properties)) := by
  have hplain (hne : n.parts ≠ []) (h : ∀ m ∈ n.parts, ¬m.IsOpaque) :
      (n.shape ctx.env).IsShapeOf ctx
        (Slot.inTwoPasses (n.parts.map (Node.memberSlot ctx.env))) := by
    rw [Node.shape_of_plain ctx.env hne h]
    exact Guess.ofSlots_isShapeOf ctx _
  refine ⟨?_, ?_, ?_, ?_⟩
  · intro hparts
    rw [Node.shape, hparts]
    rfl
  · intro hopaque
    exact ⟨Node.pass?_of_opaque ctx.env hopaque, Node.shape_of_opaque ctx.env hopaque⟩
  · intro hne h slots
    obtain ⟨p, hpass, haligned⟩ := Node.pass?_of_plain ctx.env h
    have hslots : slots ≠ [] := Slot.inTwoPasses_ne_nil (by simpa using hne)
    refine ⟨hplain hne h, p, hpass, haligned, ?_⟩
    rw [Node.shape_of_plain ctx.env hne h, haligned.shape_eq hslots]
    rfl
  · intro m hm hkind value hvalue literal hliteral hobject
    have hguess : (m.memberSlot ctx.env).guess = literal.shape ctx.env :=
      Node.memberGuess_of_literal ctx hkind hvalue hliteral hobject
    refine ⟨hguess, ?_⟩
    intro hopaque h
    obtain ⟨name, hname⟩ := Node.exists_memberName (h m hm)
    have hslot : m.memberSlot ctx.env ∈
        Slot.inTwoPasses (n.parts.map (Node.memberSlot ctx.env)) :=
      Slot.mem_inTwoPasses_of_accessor_none (List.mem_map_of_mem hm)
        (Node.accessor?_of_ne_method (by simp [hkind]))
    refine ⟨name, hname, ?_⟩
    rw [(hplain (List.ne_nil_of_mem hm) h).properties]
    refine List.mem_map.mpr ⟨m.memberSlot ctx.env, hslot, ?_⟩
    rw [hguess, Node.shape_of_opaque ctx.env hopaque]
    simp [Node.memberSlot, hname, Guess.hiddenObject, Guess.object]

namespace Node

def accessing (keyword key : String) (rest : List Node) : Node :=
  branch "method_definition"
    ([token keyword, ((leaf "property_identifier" key).atOffset 4).inRole "name"] ++ rest)

def getting (key : String) (value : Node) : Node :=
  accessing "get" key
    [(branch "statement_block" [branch "return_statement" [value]]).inRole "body"]

def setting (key : String) (value : Node) : Node :=
  accessing "set" key
    [(branch "formal_parameters" [branch "assignment_pattern"
      [(leaf "identifier" "v").inRole "left", value.inRole "right"]]).inRole "parameters"]

/-- The literal `{ ...c }`. -/
def spreading : Node := branch "object" [branch "spread_element" [leaf "identifier" "c"]]

/-- The literal `{ set a(v = true) {}, b: ({ ...c }), get a() { return 1 }, set d(v = 1) {}, e,
get a() { return '' }, set d(v = '') {} }`. -/
def interleaved : Node :=
  branch "object"
    [setting "a" (leaf "true" "true"),
     branch "pair" [(leaf "property_identifier" "b").inRole "key",
       (branch "parenthesized_expression" [spreading]).inRole "value"],
     getting "a" (leaf "number" "1"),
     setting "d" (leaf "number" "1"),
     leaf "shorthand_property_identifier" "e",
     getting "a" (leaf "string" "''"),
     setting "d" (leaf "string" "''")]

end Node

theorem object_shape_in_two_passes_interleaved :
    (∀ m ∈ Node.interleaved.parts, ¬m.IsOpaque) ∧
    Node.spreading.shape ({} : Context Float).env = .object "object" 0.5 ∧
    let ctx : Context Float := {}
    let g := Node.interleaved.shape ctx.env
    g.IsShapeOf ctx
      (Slot.inTwoPasses (Node.interleaved.parts.map (Node.memberSlot ctx.env))) ∧
    g.value = "\x7b a: string; b: object; d: number; e: unknown \x7d" ∧
    g.interfaceName = some "Interface1" ∧
    { name := "b", type := "object" } ∈ g.properties ∧
    ∃ p, Node.interleaved.pass? ctx.env = some p ∧ g = p.shape "Interface1" ∧
      p.accessors.entries = [("a", 0), ("d", 2)] := by
  have hplain : ∀ m ∈ Node.interleaved.parts, ¬m.IsOpaque := by
    have hnames : Node.interleaved.parts.map Node.memberName? =
      [some "a", some "b", some "a", some "d", some "e", some "a", some "d"] := rfl
    intro m hm hopaque
    have hnone := List.mem_map_of_mem (f := Node.memberName?) hm
    rw [hnames, Node.isOpaque_iff.mp hopaque] at hnone
    simp at hnone
  have hspread : ∃ m ∈ Node.spreading.parts, m.IsOpaque :=
    ⟨_, List.mem_singleton.mpr rfl, Node.isOpaque_iff.mpr rfl⟩
  obtain ⟨-, hhidden, -, -⟩ := object_shape_in_two_passes ({} : Context Float) Node.spreading
  obtain ⟨-, -, hshape, hnested⟩ := object_shape_in_two_passes ({} : Context Float) Node.interleaved
  obtain ⟨-, hb⟩ := hnested _ (List.mem_cons_of_mem _ List.mem_cons_self) rfl _ rfl _ rfl rfl
  obtain ⟨name, hname, hmem⟩ := hb hspread hplain
  cases hname
  obtain ⟨hslots, p, hpass, -, hlists⟩ := hshape (List.cons_ne_nil _ _) hplain
  have hindexes : (Node.interleaved.pass? ({} : Context Float).env).map
      (fun p => p.accessors.entries) = some [("a", 0), ("d", 2)] := rfl
  rw [hpass] at hindexes
  exact ⟨hplain, (hhidden hspread).2, hslots, rfl, rfl, hmem, p, hpass, hlists,
    Option.some.inj hindexes⟩

/-- A shape declares each property once if and only if two parts of the literal that declare the
same property are both accessors, or all properties are hidden. -/
theorem object_property_names_nodup_iff (ctx : Context κ) (n : Node) :
    ((n.shape ctx.env).properties.map Property.name).Nodup ↔
      (∃ m ∈ n.parts, m.IsOpaque) ∨
      n.parts.Pairwise fun m m' =>
        m.memberName? = m'.memberName? → m.accessor? ≠ none ∧ m'.accessor? ≠ none := by
  by_cases hopaque : ∃ m ∈ n.parts, m.IsOpaque
  · rw [Node.shape_of_opaque ctx.env hopaque]
    exact iff_of_true List.nodup_nil (.inl hopaque)
  by_cases hparts : n.parts = []
  · rw [Node.shape, hparts]
    exact iff_of_true List.nodup_nil (.inr .nil)
  have hplain : ∀ m ∈ n.parts, ¬m.IsOpaque := by
    intro m hm h
    exact hopaque ⟨m, hm, h⟩
  have hnames : (n.shape ctx.env).properties.map Property.name =
      (Slot.inTwoPasses (n.parts.map (Node.memberSlot ctx.env))).map Slot.name := by
    rw [Node.shape_of_plain ctx.env hparts hplain, Guess.ofSlots, List.map_map]
    rfl
  rw [hnames, Slot.nodup_map_name_iff, List.pairwise_map, or_iff_right hopaque]
  apply List.Pairwise.iff_of_mem
  intro m m' hm hm'
  obtain ⟨name, hname⟩ := Node.exists_memberName (hplain m hm)
  obtain ⟨name', hname'⟩ := Node.exists_memberName (hplain m' hm')
  simp only [Slot.pairsWith_iff, Node.memberSlot, hname, hname', Option.getD_some,
    Option.some.injEq]
  tauto

/-- A script with one literal, which repeats a name: `let x = { a: 1, a: 1, b: 1, c: 1, d: 1 }`. -/
def repeatedNameScript : Node :=
  .branch "program" [.letting "x" (.numbers ["a", "a", "b", "c", "d"])]

/-- The printed type and the interface of the literal declare the repeated property twice. -/
theorem repeated_name_declared_twice :
    let g : Guess Float := (Node.numbers ["a", "a", "b", "c", "d"]).shape ({} : Context Float).env
    ¬(g.properties.map Property.name).Nodup ∧
    g.value = "\x7b a: number; a: number; b: number; c: number; d: number \x7d" ∧
    ∃ report : Report Float, Report.ofTree true "x.js" repeatedNameScript = .ok report ∧
      report.interfaces.map (fun i => (i.name, i.properties.map Property.name)) =
        [("Interface1", ["a", "a", "b", "c", "d"])] := by
  refine ⟨?_, rfl, _, Report.ofTree_eq_ok rfl true "x.js", rfl⟩
  have hnames : ((Node.numbers ["a", "a", "b", "c", "d"]).shape
      ({} : Context Float).env).properties.map Property.name = ["a", "a", "b", "c", "d"] := rfl
  rw [hnames]
  simp

end ScriptTyping
