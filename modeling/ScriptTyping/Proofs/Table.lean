import Mathlib.Data.List.Basic

/-! # Tables

A table leads from a key to a value. A key that is set again keeps its place.
-/
namespace ScriptTyping

/-- A table with its keys in the order in which they were first set. -/
structure Table (β : Type) where
  entries : List (String × β) := []

namespace Table

variable {β : Type}

def keys (t : Table β) : List String := t.entries.map Prod.fst

def values (t : Table β) : List β := t.entries.map Prod.snd

def get? (t : Table β) (key : String) : Option β := t.entries.lookup key

/-- Sets the value of a key: in its place if it is there, else at the end. -/
def set (t : Table β) (key : String) (value : β) : Table β :=
  if t.keys.contains key then
    ⟨t.entries.map fun e => if e.1 == key then (key, value) else e⟩
  else ⟨t.entries ++ [(key, value)]⟩

theorem set_of_mem {t : Table β} {key : String} (h : key ∈ t.keys) (value : β) :
    t.set key value = ⟨t.entries.map fun e => if e.1 == key then (key, value) else e⟩ := by
  simp [set, h]

theorem set_of_notMem {t : Table β} {key : String} (h : key ∉ t.keys) (value : β) :
    t.set key value = ⟨t.entries ++ [(key, value)]⟩ := by
  simp [set, h]

section Lookup

variable {t : Table β} {key : String}

theorem get?_eq_none_iff : t.get? key = none ↔ key ∉ t.keys := by
  simp only [get?, keys, List.lookup_eq_none_iff, List.mem_map, not_exists, not_and, bne_iff_ne]
  exact forall₂_congr fun _ _ => ne_comm

theorem get?_set_of_new (h : t.get? key = none) (value : β) (k : String) :
    (t.set key value).get? k = if k = key then some value else t.get? k := by
  rw [set_of_notMem (get?_eq_none_iff.mp h)]
  by_cases hk : k = key
  · subst hk
    have hlookup : t.entries.lookup k = none := h
    simp [get?, List.lookup_append, hlookup]
  · have hother : (k == key) = false := beq_eq_false_iff_ne.mpr hk
    simp [get?, List.lookup_append, List.lookup_cons, hk, hother]

end Lookup

/-- The table that holds one entry for each item of a list. -/
def ofItems {α : Type} (items : List α) (key : α → String) (value : α → β) : Table β :=
  ⟨items.map fun x => (key x, value x)⟩

section OfItems

variable {α : Type} (items : List α) (key : α → String) (value : α → β)

theorem keys_ofItems : (ofItems items key value).keys = items.map key := by
  simp [ofItems, keys, Function.comp_def]

theorem get?_ofItems (k : String) :
    (ofItems items key value).get? k = (items.find? fun x => key x == k).map value := by
  induction items with
  | nil => rfl
  | cons x rest ih =>
    have hcomm : (k == key x) = (key x == k) := BEq.comm
    simp only [ofItems, get?, List.map_cons, List.lookup_cons, List.find?_cons, hcomm]
    cases key x == k with
    | true => rfl
    | false => exact ih

theorem set_ofItems_append {x : α} (h : key x ∉ items.map key) :
    (ofItems items key value).set (key x) (value x) = ofItems (items ++ [x]) key value := by
  rw [set_of_notMem (by rwa [keys_ofItems])]
  simp [ofItems]

end OfItems

end Table

end ScriptTyping
