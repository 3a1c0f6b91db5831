import ScriptTyping.Infer.Judgement
import ScriptTyping.Proofs.LiteralSlots
import ScriptTyping.Proofs.Table

/-! # The pass over an object literal

A literal is gone through member by member. The properties and their types are kept in two lists, and
a table leads from the name of an accessor to the index that its property has in both. The lists stay
aligned on every run, and every index is that of a property: they are two views of the slots.
-/
namespace ScriptTyping

variable {κ : Type}

/-- What is known of a literal after some of its members. -/
structure LiteralPass (κ : Type) where
  properties : List Property := []
  types : List (Guess κ) := []
  accessors : Table Nat := {}

namespace LiteralPass

section Steps

/-- The index of the property that an accessor shares with an earlier one. -/
def shared? (p : LiteralPass κ) (s : Slot κ) : Option Nat :=
  if s.accessor.isSome then p.accessors.get? s.name else none

/-- Adds the property of one member. A getter overwrites the one that it shares, and a setter leaves
it. -/
def step (p : LiteralPass κ) (s : Slot κ) : LiteralPass κ :=
  match p.shared? s with
  | some i =>
    if s.accessor == some .get then
      { p with properties := p.properties.set i s.property, types := p.types.set i s.guess }
    else p
  | none =>
    { properties := p.properties ++ [s.property]
      types := p.types ++ [s.guess]
      accessors :=
        if s.accessor.isSome then p.accessors.set s.name p.properties.length else p.accessors }

variable [Score κ]

/-- The members from the first on, up to one that is hidden. -/
def run (env : Env κ) (p : LiteralPass κ) : List Member → Option (LiteralPass κ)
  | [] => some p
  | m :: rest => (m.slot? env).bind fun s => run env (p.step s) rest

def shape (freshName : String) (p : LiteralPass κ) : Guess κ :=
  let promoted := maxInline < p.properties.length ||
    p.types.any fun g => g.kind == .object || g.kind == .function
  { kind := .object
    value := inlineShape p.properties
    confidence := if p.types.isEmpty then 0.5 else Score.mean (p.types.map Guess.confidence)
    needsInterface := promoted
    interfaceName := if promoted then some freshName else none
    properties := p.properties }

end Steps

/-- The lists hold the properties and the types of the slots, and the table has the indexes of those
that are accessors. -/
structure Aligned (p : LiteralPass κ) (slots : List (Slot κ)) : Prop where
  properties : p.properties = slots.map Slot.property
  types : p.types = slots.map Slot.guess
  accessors : ∀ name i, p.accessors.get? name = some i ↔
    ∃ s, slots[i]? = some s ∧ s.accessor ≠ none ∧ s.name = name

variable {p : LiteralPass κ} {slots : List (Slot κ)} {s : Slot κ}

theorem Aligned.empty : ({} : LiteralPass κ).Aligned [] where
  properties := rfl
  types := rfl
  accessors := by simp [Table.get?]

section Sharing

theorem Aligned.shared?_eq_some_iff (h : p.Aligned slots) {i : Nat} :
    p.shared? s = some i ↔ ∃ t, slots[i]? = some t ∧ s.pairsWith t = true := by
  by_cases hs : s.accessor = none
  · simp [shared?, hs, Slot.pairsWith]
  · have hshared : p.shared? s = p.accessors.get? s.name := by simp [shared?, hs]
    rw [hshared, h.accessors]
    refine exists_congr fun t => and_congr_right fun _ => ?_
    rw [Slot.pairsWith_iff, and_iff_right hs, eq_comm]

theorem Aligned.any_pairsWith (h : p.Aligned slots) :
    slots.any s.pairsWith = (p.shared? s).isSome := by
  rw [Bool.eq_iff_iff, List.any_eq_true, Option.isSome_iff_exists]
  constructor
  · rintro ⟨t, ht, hst⟩
    obtain ⟨i, hi⟩ := List.mem_iff_getElem?.mp ht
    exact ⟨i, h.shared?_eq_some_iff.mpr ⟨t, hi, hst⟩⟩
  · rintro ⟨i, hi⟩
    obtain ⟨t, ht, hst⟩ := h.shared?_eq_some_iff.mp hi
    exact ⟨t, List.mem_of_getElem? ht, hst⟩

end Sharing

section Step

theorem step_of_shared {i : Nat} (h : p.shared? s = some i) :
    p.step s = if s.accessor == some .get then
        { p with properties := p.properties.set i s.property, types := p.types.set i s.guess }
      else p := by
  simp only [step, h]

theorem step_of_new (h : p.shared? s = none) :
    p.step s =
      { properties := p.properties ++ [s.property]
        types := p.types ++ [s.guess]
        accessors :=
          if s.accessor.isSome then p.accessors.set s.name p.properties.length
          else p.accessors } := by
  simp only [step, h]

/-- Where only one item of a list changes, the list is overwritten at its index. -/
theorem map_changed {α β : Type} {items : List α} {i : Nat} {x : α} {b : β} {q : α → Bool}
    {change : α → α} {f : α → β} (hx : items[i]? = some x) (hq : q x = true)
    (hb : f (change x) = b) (hother : ∀ j y, items[j]? = some y → q y = true → j = i) :
    (items.map fun y => if q y then change y else y).map f = (items.map f).set i b := by
  obtain ⟨hlt, -⟩ := List.getElem?_eq_some_iff.mp hx
  apply List.ext_getElem?
  intro j
  rw [List.getElem?_set, List.getElem?_map, List.getElem?_map, List.getElem?_map]
  by_cases hj : i = j
  · subst hj
    simp only [hx, hq, hb, hlt, Option.map_some, List.length_map, if_true]
  · cases hy : items[j]? with
    | none => simp [hj]
    | some y =>
      have hqy : q y = false := by
        rw [Bool.eq_false_iff]
        intro hqy
        exact hj (hother j y hy hqy).symm
      simp [hj, hqy]

theorem Aligned.overwrite (h : p.Aligned slots) {i : Nat} (hi : p.shared? s = some i) :
    LiteralPass.Aligned
      { p with properties := p.properties.set i s.property, types := p.types.set i s.guess }
      (slots.map fun t => if s.pairsWith t then { t with guess := s.guess } else t) := by
  obtain ⟨t, ht, hst⟩ := h.shared?_eq_some_iff.mp hi
  have hname : s.name = t.name := (Slot.pairsWith_iff.mp hst).2.2
  -- the table has one index for the name, so no other slot is shared
  have hother : ∀ j u, slots[j]? = some u → s.pairsWith u = true → j = i := by
    intro j u hu hsu
    have hj : p.shared? s = some j := h.shared?_eq_some_iff.mpr ⟨u, hu, hsu⟩
    exact Option.some.inj (hj.symm.trans hi)
  constructor
  · have hproperty : Slot.property { t with guess := s.guess } = s.property := by
      simp [Slot.property, hname]
    rw [map_changed ht hst hproperty hother, h.properties]
  · rw [map_changed ht hst rfl hother, h.types]
  · intro name j
    rw [h.accessors, List.getElem?_map]
    cases slots[j]? with
    | none => simp
    | some u => by_cases hsu : s.pairsWith u <;> simp [hsu]

theorem Aligned.append (h : p.Aligned slots) (hnew : p.shared? s = none) :
    LiteralPass.Aligned
      { properties := p.properties ++ [s.property]
        types := p.types ++ [s.guess]
        accessors :=
          if s.accessor.isSome then p.accessors.set s.name p.properties.length else p.accessors }
      (slots ++ [s]) where
  properties := by simp [h.properties]
  types := by simp [h.types]
  accessors name i := by
    have hlast : (∃ t, (slots ++ [s])[i]? = some t ∧ t.accessor ≠ none ∧ t.name = name) ↔
        p.accessors.get? name = some i ∨
          i = p.properties.length ∧ s.accessor ≠ none ∧ s.name = name := by
      rw [h.accessors, h.properties, List.length_map]
      grind
    rw [hlast]
    by_cases hs : s.accessor = none
    · simp [hs]
    · have hsome : s.accessor.isSome = true := Option.isSome_iff_ne_none.mpr hs
      have hget : p.accessors.get? s.name = none := by rwa [shared?, if_pos hsome] at hnew
      rw [if_pos hsome, Table.get?_set_of_new hget]
      by_cases hname : name = s.name
      · simp [hname, hget, hs, eq_comm]
      · simp [hname, Ne.symm hname]

/-- One member leaves the lists aligned with the slots that `Slot.place` makes of it. -/
theorem Aligned.step (h : p.Aligned slots) (s : Slot κ) :
    (p.step s).Aligned (Slot.place slots s) := by
  rw [Slot.place, h.any_pairsWith]
  cases hshared : p.shared? s with
  | none =>
    rw [step_of_new hshared]
    exact h.append hshared
  | some i =>
    rw [step_of_shared hshared, Option.isSome_some, if_pos rfl]
    split
    · exact h.overwrite hshared
    · exact h

theorem Aligned.foldl (h : p.Aligned slots) (more : List (Slot κ)) :
    (more.foldl LiteralPass.step p).Aligned (more.foldl Slot.place slots) := by
  induction more generalizing p slots with
  | nil => exact h
  | cons s rest ih => exact ih (h.step s)

end Step

variable [Score κ]

section Run

/-- A member that is hidden ends the pass without a result, whatever was known until then. -/
theorem run_eq (env : Env κ) (p : LiteralPass κ) (members : List Member) :
    run env p members = (Member.slots? env members).map fun slots => slots.foldl step p := by
  induction members generalizing p with
  | nil => rfl
  | cons m rest ih =>
    simp only [run, Member.slots?]
    cases m.slot? env with
    | none => rfl
    | some s =>
      rw [Option.bind_some, ih]
      cases Member.slots? env rest <;> rfl

theorem run_aligned {env : Env κ} {members : List Member} {slots : List (Slot κ)}
    (h : Member.slots? env members = some slots) :
    ∃ p, run env {} members = some p ∧ p.Aligned (Slot.inTwoPasses slots) := by
  refine ⟨slots.foldl step {}, ?_, ?_⟩
  · rw [run_eq, h, Option.map_some]
  · rw [← Slot.foldl_place_eq_inTwoPasses]
    exact Aligned.empty.foldl slots

end Run

/-- There is a first slot, so the confidence is always a mean. -/
theorem Aligned.shape_eq (h : p.Aligned slots) (hne : slots ≠ []) (freshName : String) :
    p.shape freshName = .ofSlots freshName slots := by
  have htypes : (slots.map Slot.guess).isEmpty = false := by simp [hne]
  simp only [shape, Guess.ofSlots, h.properties, h.types, htypes, List.length_map, List.any_map,
    List.map_map, Function.comp_def, Bool.false_eq_true, if_false]
  rfl

end LiteralPass

end ScriptTyping
