import Mathlib.Data.List.Basic
import ScriptTyping.Report

/-! # Guesses without names

The rules look at the kind, the printed type, the confidence and the parts of a guess, never at its
mark or at its name. So taking marks and names away commutes with each rule, and two environments
that differ in them only give guesses that differ in them only.
-/
namespace ScriptTyping

variable {κ : Type}

namespace Guess

mutual

/-- The guess without mark and name, and its element without them. -/
def unnamed : Guess κ → Guess κ
  | ⟨kind, value, confidence, _, _, element, members, properties⟩ =>
    ⟨kind, value, confidence, false, none, unnamedElement element, members, properties⟩

def unnamedElement : Option (Guess κ) → Option (Guess κ)
  | none => none
  | some g => some g.unnamed

end

@[simp] theorem kind_unnamed (g : Guess κ) : g.unnamed.kind = g.kind := by cases g; rfl
@[simp] theorem value_unnamed (g : Guess κ) : g.unnamed.value = g.value := by cases g; rfl
@[simp] theorem confidence_unnamed (g : Guess κ) : g.unnamed.confidence = g.confidence := by
  cases g; rfl
@[simp] theorem members_unnamed (g : Guess κ) : g.unnamed.members = g.members := by cases g; rfl
@[simp] theorem properties_unnamed (g : Guess κ) : g.unnamed.properties = g.properties := by
  cases g; rfl
@[simp] theorem element_unnamed (g : Guess κ) : g.unnamed.element = g.element.map unnamed := by
  obtain ⟨kind, value, confidence, mark, name, element, members, properties⟩ := g
  cases element <;> rfl

@[simp] theorem descriptors_unnamed (g : Guess κ) : g.unnamed.descriptors = g.descriptors := by
  simp only [descriptors, kind_unnamed, value_unnamed, members_unnamed]

@[simp] theorem isPrimitive_unnamed (g : Guess κ) (name : String) :
    g.unnamed.isPrimitive name = g.isPrimitive name := by
  simp only [isPrimitive, kind_unnamed, value_unnamed]

@[simp] theorem alike_unnamed (g h : Guess κ) : g.unnamed.alike h.unnamed = g.alike h := by
  simp only [alike, kind_unnamed, value_unnamed]

@[simp] theorem isUnknown_unnamed (g : Guess κ) : g.unnamed.isUnknown = g.isUnknown := by
  simp only [isUnknown, kind_unnamed]

@[simp] theorem unnamed_array (element : Guess κ) (confidence : κ) :
    (array element confidence).unnamed = array element.unnamed confidence := by
  simp only [array, unnamed, unnamedElement, value_unnamed]

section Rules
variable [Score κ]

theorem unnamed_merge (g h : Guess κ) : (g.merge h).unnamed = g.unnamed.merge h.unnamed := by
  unfold merge
  rw [alike_unnamed, isUnknown_unnamed, isUnknown_unnamed, confidence_unnamed, confidence_unnamed,
    descriptors_unnamed, descriptors_unnamed, apply_ite unnamed, apply_ite unnamed,
    apply_ite unnamed, apply_ite unnamed]
  rfl

theorem unnamed_mergeAll (first : Guess κ) (rest : List (Guess κ)) :
    (mergeAll first rest).unnamed = mergeAll first.unnamed (rest.map unnamed) := by
  induction rest generalizing first with
  | nil => rfl
  | cons g rest ih =>
    have hstep := ih (first.merge g)
    rw [unnamed_merge] at hstep
    exact hstep

theorem unnamed_withConfidence (g : Guess κ) (c : κ) :
    (g.withConfidence c).unnamed = g.unnamed.withConfidence c := by
  obtain ⟨kind, value, confidence, mark, name, element, members, properties⟩ := g
  rw [withConfidence, apply_ite unnamed]
  rfl

omit [Score κ] in
@[simp] theorem optionalElement_unnamed (g : Guess κ) (c : κ) :
    g.unnamed.optionalElement c = g.optionalElement c := by
  have hdescriptors : (descriptors ∘ unnamed : Guess κ → List String) = descriptors :=
    funext descriptors_unnamed
  simp only [optionalElement, element_unnamed, Option.map_map, hdescriptors]

theorem unnamed_ofArrayMethod (receiver : Guess κ) (method : String) :
    (receiver.ofArrayMethod method).unnamed = receiver.unnamed.ofArrayMethod method := by
  have hsame : (array (receiver.element.getD (unknown 0.0)) (0.9 : κ)).unnamed =
      array (receiver.unnamed.element.getD (unknown 0.0)) 0.9 := by
    rw [unnamed_array, element_unnamed]
    cases receiver.element <;> rfl
  have hoptional : (receiver.optionalElement (0.9 : κ)).unnamed =
      receiver.unnamed.optionalElement 0.9 := by
    rw [optionalElement_unnamed]
    rfl
  unfold ofArrayMethod
  split <;> first | exact hsame | exact hoptional | rfl

theorem unnamed_ofMethodCall (receiver : Guess κ) (method : String) :
    (receiver.ofMethodCall method).unnamed = receiver.unnamed.ofMethodCall method := by
  have hstring : (ofStringMethod method : Guess κ).unnamed = ofStringMethod method := by
    unfold ofStringMethod
    split <;> rfl
  simp only [ofMethodCall, kind_unnamed, isPrimitive_unnamed, apply_ite unnamed,
    unnamed_ofArrayMethod, hstring]
  rfl

theorem unnamed_ofElement (receiver : Guess κ) :
    receiver.ofElement.unnamed = receiver.unnamed.ofElement := by
  simp only [ofElement, kind_unnamed, optionalElement_unnamed, apply_ite unnamed]
  rfl

theorem unnamed_ofBinary (op : Option BinaryOp) (left right : Guess κ) :
    (ofBinary op left right).unnamed = ofBinary op left.unnamed right.unnamed := by
  rcases op with _ | op
  · rfl
  · cases op with
    | comparison | arithmetic => rfl
    | plus =>
      simp only [ofBinary, ofSum, isPrimitive_unnamed, apply_ite unnamed]
      rfl
    | logical => exact unnamed_merge left right
    | coalesce =>
      simp only [ofBinary, confidence_unnamed, apply_ite unnamed, unnamed_merge]

omit [Score κ] in
theorem all_value_unnamed (gs : List (Guess κ)) (text : String) :
    ((gs.map unnamed).all fun g => g.value == text) = gs.all fun g => g.value == text := by
  simp only [List.all_map, Function.comp_def, value_unnamed]

theorem unnamed_ofItems (items : List (Guess κ)) (spread : Bool) :
    (ofItems items spread).unnamed = ofItems (items.map unnamed) spread := by
  cases items with
  | nil => rfl
  | cons first rest =>
    simp only [ofItems, List.map_cons]
    rw [unnamed_array, ← unnamed_mergeAll, all_value_unnamed, value_unnamed, confidence_unnamed]

theorem unnamed_ofReturns (returns : List (Guess κ)) :
    (ofReturns returns).unnamed = ofReturns (returns.map unnamed) := by
  cases returns with
  | nil => rfl
  | cons first rest =>
    have hvoid : ((first.unnamed :: rest.map unnamed).all fun g => g.value == "void") =
        (first :: rest).all fun g => g.value == "void" := all_value_unnamed (first :: rest) "void"
    have hconfidence : (rest.map unnamed).map confidence = rest.map confidence := by
      simp only [List.map_map, Function.comp_def, confidence_unnamed]
    simp only [ofReturns, List.map_cons]
    rw [apply_ite unnamed, unnamed_withConfidence, hvoid, ← unnamed_mergeAll, all_value_unnamed,
      hconfidence, value_unnamed, confidence_unnamed, confidence_unnamed]
    rfl

omit [Score κ] in
theorem numberedParams_unnamed (params : List (Guess κ)) :
    numberedParams (params.map unnamed) = numberedParams params := by
  simp only [numberedParams, List.zipIdx_map, List.map_map, Function.comp_def, Prod.map,
    value_unnamed, id_eq]

omit [Score κ] in
theorem signature_unnamed (params : List String) (result : Guess κ) :
    signature params result.unnamed = signature params result := by
  simp only [signature, value_unnamed, confidence_unnamed]

end Rules

end Guess

namespace Slot

def unnamed (s : Slot κ) : Slot κ := { s with guess := s.guess.unnamed }

theorem property_unnamed (s : Slot κ) : s.unnamed.property = s.property := by
  simp only [property, unnamed, Guess.value_unnamed]

theorem pairsWith_unnamed (s t : Slot κ) : s.unnamed.pairsWith t.unnamed = s.pairsWith t := rfl

theorem place_unnamed (slots : List (Slot κ)) (s : Slot κ) :
    (place slots s).map unnamed = place (slots.map unnamed) s.unnamed := by
  have hany : (slots.map unnamed).any s.unnamed.pairsWith = slots.any s.pairsWith := by
    simp only [List.any_map, Function.comp_def, pairsWith_unnamed]
  have hmap : (slots.map fun t => if s.pairsWith t then { t with guess := s.guess } else t).map
      unnamed = (slots.map unnamed).map fun t =>
        if s.unnamed.pairsWith t then { t with guess := s.unnamed.guess } else t := by
    simp only [List.map_map, List.map_inj_left, Function.comp_apply, pairsWith_unnamed]
    intro t _
    rw [apply_ite unnamed]
    rfl
  unfold place
  rw [hany, apply_ite (List.map unnamed), apply_ite (List.map unnamed), hmap, List.map_append]
  rfl

theorem foldl_place_unnamed (slots placed : List (Slot κ)) :
    (slots.foldl place placed).map unnamed =
      (slots.map unnamed).foldl place (placed.map unnamed) := by
  induction slots generalizing placed with
  | nil => rfl
  | cons s rest ih => rw [List.foldl_cons, ih, place_unnamed, List.map_cons, List.foldl_cons]

end Slot

section Inference
variable [Score κ]

theorem Guess.unnamed_ofSlots (name other : String) (slots : List (Slot κ)) :
    (ofSlots name slots).unnamed = (ofSlots other (slots.map Slot.unnamed)).unnamed := by
  have hconfidence : (slots.map Slot.unnamed).map (fun s => s.guess.confidence) =
      slots.map fun s => s.guess.confidence := by
    simp only [List.map_map, Function.comp_def, Slot.unnamed, confidence_unnamed]
  have hproperties : (slots.map Slot.unnamed).map Slot.property = slots.map Slot.property := by
    simp only [List.map_map, Function.comp_def, Slot.property_unnamed]
  simp only [ofSlots, unnamed, hconfidence, hproperties]

theorem Guess.unnamed_ofMembers (name other : String) (slots : Option (List (Slot κ))) :
    (ofMembers name slots).unnamed =
      (ofMembers other (slots.map (List.map Slot.unnamed))).unnamed := by
  rcases slots with _ | _ | ⟨s, rest⟩
  · rfl
  · rfl
  · have hplaced := Slot.foldl_place_unnamed (s :: rest) []
    simp only [ofMembers, Option.map_some, List.map_cons]
    rw [unnamed_ofSlots name other, hplaced]
    rfl

/-- The environments bind the same names to guesses that differ in marks and names only. -/
structure Env.Matches (env other : Env κ) : Prop where
  scope : ∀ id, (env.scope.lookup? id).map Guess.unnamed =
    (other.scope.lookup? id).map Guess.unnamed
  describesObjects : env.describesObjects = other.describesObjects

variable {env other : Env κ}

theorem Env.Matches.guessName (h : env.Matches other) (id : String) :
    (env.guessName id).unnamed = (other.guessName id).unnamed := by
  have hscope := h.scope id
  unfold Env.guessName
  cases hl : env.scope.lookup? id with
  | none =>
    cases hr : other.scope.lookup? id with
    | none => rfl
    | some g => simp [hl, hr] at hscope
  | some g =>
    cases hr : other.scope.lookup? id with
    | none => simp [hl, hr] at hscope
    | some k => simpa [hl, hr] using hscope

theorem Member.map_slots?_cons (env : Env κ) (m : Member) (rest : List Member) :
    (Member.slots? env (m :: rest)).map (List.map Slot.unnamed) =
      ((m.slot? env).map Slot.unnamed).bind fun s =>
        ((Member.slots? env rest).map (List.map Slot.unnamed)).map (s :: ·) := by
  cases hs : m.slot? env <;> cases hr : Member.slots? env rest <;> simp [Member.slots?, hs, hr]

mutual

theorem Expr.guess_unnamed (h : env.Matches other) :
    (e : Expr) → (e.guess env).unnamed = (e.guess other).unnamed
  | .uncovered | .unresolved | .privateName | .literal _ | .unary _ | .call _ => rfl
  | .name id => h.guessName id
  | .array items spread => by
    have hitems := Expr.guessAll_unnamed h items
    simp only [Expr.guess, Guess.unnamed_ofItems, hitems]
  | .object members => by
    have hmembers := Member.slots?_unnamed h members
    rw [Expr.guess, Expr.guess, h.describesObjects]
    split
    · rw [Guess.unnamed_ofMembers _ "", hmembers, ← Guess.unnamed_ofMembers]
    · rfl
  | .binary op left right => by
    simp only [Expr.guess, Guess.unnamed_ofBinary, left.guess_unnamed h, right.guess_unnamed h]
  | .conditional consequence alternative => by
    simp only [Expr.guess, Guess.unnamed_merge, consequence.guess_unnamed h,
      alternative.guess_unnamed h]
  | .methodCall receiver method => by
    simp only [Expr.guess, Guess.unnamed_ofMethodCall, receiver.guess_unnamed h]
  | .element receiver => by
    simp only [Expr.guess, Guess.unnamed_ofElement, receiver.guess_unnamed h]

theorem Expr.guessAll_unnamed (h : env.Matches other) : (es : List Expr) →
    (Expr.guessAll env es).map Guess.unnamed = (Expr.guessAll other es).map Guess.unnamed
  | [] => rfl
  | e :: rest => by
    simp only [Expr.guessAll, List.map_cons, e.guess_unnamed h, Expr.guessAll_unnamed h rest]

theorem Member.slot?_unnamed (h : env.Matches other) : (m : Member) →
    (m.slot? env).map Slot.unnamed = (m.slot? other).map Slot.unnamed
  | .hidden => rfl
  | .shorthand name => by
    simp only [Member.slot?, Option.map_some, Slot.unnamed, h.guessName name]
  | .pair name value => by
    simp only [Member.slot?, Option.map_some, Slot.unnamed, value.guess_unnamed h]
  | .method name params body => by
    have hparams := Param.guessAll_unnamed h params
    have hbody := body.guess_unnamed h
    simp only [Member.slot?]
    rw [← Guess.signature_unnamed, ← Guess.numberedParams_unnamed, hparams, hbody,
      Guess.signature_unnamed, Guess.numberedParams_unnamed]
  | .getter name body => by
    simp only [Member.slot?, Option.map_some, Slot.unnamed, body.guess_unnamed h]
  | .setter name params => by
    have hparams := Param.guessAll_unnamed h params
    have hhead := congrArg List.head? hparams
    simp only [List.head?_map] at hhead
    simp only [Member.slot?, Option.map_some, Slot.unnamed, Option.some.injEq, Slot.mk.injEq,
      true_and]
    rw [← Option.getD_map Guess.unnamed, hhead, Option.getD_map]

theorem Member.slots?_unnamed (h : env.Matches other) : (ms : List Member) →
    (Member.slots? env ms).map (List.map Slot.unnamed) =
      (Member.slots? other ms).map (List.map Slot.unnamed)
  | [] => rfl
  | m :: rest => by
    rw [Member.map_slots?_cons, m.slot?_unnamed h, Member.slots?_unnamed h rest,
      ← Member.map_slots?_cons]

theorem Param.guess_unnamed (h : env.Matches other) :
    (p : Param) → (p.guess env).unnamed = (p.guess other).unnamed
  | .plain _ _ | .arrayPattern | .objectPattern | .other => rfl
  | .rest name binding => by
    have hbinding := binding.guess_unnamed h
    have hconfidence := congrArg Guess.confidence hbinding
    simp only [Guess.confidence_unnamed] at hconfidence
    simp only [Param.guess, Guess.unnamed_array, hbinding, hconfidence]
  | .defaulted name value => value.guess_unnamed h

theorem Param.guessAll_unnamed (h : env.Matches other) : (ps : List Param) →
    (Param.guessAll env ps).map Guess.unnamed = (Param.guessAll other ps).map Guess.unnamed
  | [] => rfl
  | p :: rest => by
    simp only [Param.guessAll, List.map_cons, p.guess_unnamed h, Param.guessAll_unnamed h rest]

theorem Body.guess_unnamed (h : env.Matches other) :
    (b : Body) → (b.guess env).unnamed = (b.guess other).unnamed
  | .absent => rfl
  | .expression e => e.guess_unnamed h
  | .block returns => by
    simp only [Body.guess, Guess.unnamed_ofReturns, Return.guessAll_unnamed h returns]

theorem Return.guess_unnamed (h : env.Matches other) :
    (r : Return) → (r.guess env).unnamed = (r.guess other).unnamed
  | .bare => rfl
  | .value e => e.guess_unnamed h

theorem Return.guessAll_unnamed (h : env.Matches other) : (rs : List Return) →
    (Return.guessAll env rs).map Guess.unnamed = (Return.guessAll other rs).map Guess.unnamed
  | [] => rfl
  | r :: rest => by
    simp only [Return.guessAll, List.map_cons, r.guess_unnamed h, Return.guessAll_unnamed h rest]

end

end Inference

end ScriptTyping
