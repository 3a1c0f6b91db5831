import Mathlib.Data.List.Induction
import Mathlib.Data.List.Pairwise
import ScriptTyping.Infer.Shape

/-! # The slots of an object literal

A literal is gone through once, and an accessor may change the slot of an earlier one on the way. The
slots that result can be told in two passes. The first finds the members that have a slot of their
own, and the second types the slots: that of an accessor by the last getter of its name, or by the
first setter if there is no getter.
-/
namespace ScriptTyping

variable {κ : Type}

namespace Slot

section Passes

/-- The slots that are not shared with an earlier one, where those of `seen` came before. -/
def leadersAfter (seen : List (Slot κ)) : List (Slot κ) → List (Slot κ)
  | [] => []
  | s :: rest =>
    if seen.any s.pairsWith then leadersAfter (seen ++ [s]) rest
    else s :: leadersAfter (seen ++ [s]) rest

def leaders (slots : List (Slot κ)) : List (Slot κ) := leadersAfter [] slots

def accessors (half : Accessor) (name : String) (slots : List (Slot κ)) : List (Slot κ) :=
  slots.filter fun s => s.accessor == some half && s.name == name

/-- What types the accessors of a name: the last getter, or else the first setter. -/
def typing? (slots : List (Slot κ)) (name : String) : Option (Guess κ) :=
  ((accessors .get name slots).getLast?.or (accessors .set name slots).head?).map guess

def typedIn (slots : List (Slot κ)) (s : Slot κ) : Slot κ :=
  if s.accessor.isNone then s else { s with guess := (typing? slots s.name).getD s.guess }

/-- The slots of a literal, from those of its members. -/
def inTwoPasses (slots : List (Slot κ)) : List (Slot κ) := (leaders slots).map (typedIn slots)

end Passes

variable {slots : List (Slot κ)} {s t u : Slot κ}

theorem pairsWith_iff :
    s.pairsWith t = true ↔ s.accessor ≠ none ∧ t.accessor ≠ none ∧ s.name = t.name := by
  simp [pairsWith, Option.isSome_iff_ne_none, and_assoc]

theorem pairsWith_comm (s t : Slot κ) : s.pairsWith t = t.pairsWith s := by
  rw [Bool.eq_iff_iff, pairsWith_iff, pairsWith_iff]
  tauto

theorem pairsWith_trans (hst : s.pairsWith t = true) (htu : t.pairsWith u = true) :
    s.pairsWith u = true := by
  obtain ⟨hs, -, hname⟩ := pairsWith_iff.mp hst
  obtain ⟨-, hu, hname'⟩ := pairsWith_iff.mp htu
  exact pairsWith_iff.mpr ⟨hs, hu, hname.trans hname'⟩

section Leaders

theorem leadersAfter_concat (seen slots : List (Slot κ)) (s : Slot κ) :
    leadersAfter seen (slots ++ [s]) =
      leadersAfter seen slots ++ if (seen ++ slots).any s.pairsWith then [] else [s] := by
  induction slots generalizing seen with
  | nil => by_cases h : seen.any s.pairsWith <;> simp [leadersAfter, h]
  | cons t rest ih =>
    by_cases h : seen.any t.pairsWith <;>
      simp only [leadersAfter, h, List.cons_append, ih, List.append_assoc, List.nil_append,
        ↓reduceIte, Bool.false_eq_true]

theorem leaders_concat (slots : List (Slot κ)) (s : Slot κ) :
    leaders (slots ++ [s]) = leaders slots ++ if slots.any s.pairsWith then [] else [s] :=
  leadersAfter_concat [] slots s

theorem mem_of_mem_leaders (h : s ∈ leaders slots) : s ∈ slots := by
  induction slots using List.reverseRecOn with
  | nil => exact h
  | append_singleton slots t ih =>
    rw [leaders_concat] at h
    rcases List.mem_append.mp h with h | h
    · exact List.mem_append_left _ (ih h)
    · split at h
      · cases h
      · exact List.mem_append_right _ h

theorem mem_leadersAfter_of_accessor_none (seen : List (Slot κ)) (hs : s ∈ slots)
    (h : s.accessor = none) : s ∈ leadersAfter seen slots := by
  induction slots generalizing seen with
  | nil => cases hs
  | cons t rest ih =>
    rcases List.mem_cons.mp hs with rfl | hs
    · have hunpaired : seen.any s.pairsWith = false := by simp [pairsWith, h]
      simp [leadersAfter, hunpaired]
    · have hrest := ih (seen ++ [t]) hs
      unfold leadersAfter
      split
      · exact hrest
      · exact List.mem_cons_of_mem _ hrest

/-- An accessor finds its other half among the leaders if it finds it at all. -/
theorem any_leaders (slots : List (Slot κ)) (s : Slot κ) :
    (leaders slots).any s.pairsWith = slots.any s.pairsWith := by
  induction slots using List.reverseRecOn with
  | nil => rfl
  | append_singleton slots t ih =>
    rw [leaders_concat, List.any_append, List.any_append, ih]
    split
    · next hpaired =>
      cases hst : s.pairsWith t with
      | false => simp [hst]
      | true =>
        obtain ⟨u, hu, htu⟩ := List.any_eq_true.mp hpaired
        have hsu : slots.any s.pairsWith = true :=
          List.any_eq_true.mpr ⟨u, hu, pairsWith_trans hst htu⟩
        simp [hsu]
    · rfl

end Leaders

section Typing

theorem accessors_concat (half : Accessor) (name : String) (slots : List (Slot κ)) (s : Slot κ) :
    accessors half name (slots ++ [s]) = accessors half name slots ++
      if s.accessor = some half ∧ s.name = name then [s] else [] := by
  by_cases h : s.accessor = some half ∧ s.name = name
  · simp [accessors, h]
  · simp [accessors, h]

theorem typing?_concat_of_unpaired {name : String} (h : s.accessor = none ∨ s.name ≠ name) :
    typing? (slots ++ [s]) name = typing? slots name := by
  have hnone (half : Accessor) : ¬(s.accessor = some half ∧ s.name = name) := by
    rintro ⟨haccessor, hname⟩
    rcases h with h | h
    · simp [h] at haccessor
    · exact h hname
  simp only [typing?, accessors_concat, hnone, ↓reduceIte, List.append_nil]

theorem typing?_concat_getter (h : s.accessor = some .get) :
    typing? (slots ++ [s]) s.name = some s.guess := by
  simp [typing?, accessors_concat, h]

theorem typing?_concat_setter (h : s.accessor = some .set) :
    typing? (slots ++ [s]) s.name = some ((typing? slots s.name).getD s.guess) := by
  have hget : accessors .get s.name (slots ++ [s]) = accessors .get s.name slots := by
    simp [accessors_concat, h]
  have hset : (accessors .set s.name (slots ++ [s])).head? =
      (accessors .set s.name slots).head?.or (some s) := by
    simp [accessors_concat, h, List.head?_append]
  rw [typing?, hget, hset, ← Option.or_assoc, typing?]
  cases (accessors .get s.name slots).getLast?.or (accessors .set s.name slots).head? <;> rfl

theorem typing?_isSome (h : t ∈ slots) (haccessor : t.accessor ≠ none) :
    (typing? slots t.name).isSome = true := by
  cases hhalf : t.accessor with
  | none => exact absurd hhalf haccessor
  | some half =>
    have hmem : t ∈ accessors half t.name slots := by simp [accessors, h, hhalf]
    have hne := List.ne_nil_of_mem hmem
    cases half <;> simp [typing?, hne]

@[simp] theorem typedIn_name (slots : List (Slot κ)) (s : Slot κ) :
    (typedIn slots s).name = s.name := by
  unfold typedIn
  split <;> rfl

@[simp] theorem typedIn_accessor (slots : List (Slot κ)) (s : Slot κ) :
    (typedIn slots s).accessor = s.accessor := by
  unfold typedIn
  split <;> rfl

theorem pairsWith_typedIn (slots : List (Slot κ)) (s t : Slot κ) :
    s.pairsWith (typedIn slots t) = s.pairsWith t := by
  simp [pairsWith]

theorem typedIn_of_accessor (slots : List (Slot κ)) (h : s.accessor ≠ none) :
    typedIn slots s = { s with guess := (typing? slots s.name).getD s.guess } := by
  simp [typedIn, h]

theorem typedIn_concat_of_unpaired (h : s.pairsWith t = false) :
    typedIn (slots ++ [s]) t = typedIn slots t := by
  by_cases haccessor : t.accessor = none
  · simp [typedIn, haccessor]
  · have hother : s.accessor = none ∨ s.name ≠ t.name := by
      by_contra hpaired
      push Not at hpaired
      simp [pairsWith_iff.mpr ⟨hpaired.1, haccessor, hpaired.2⟩] at h
    rw [typedIn_of_accessor _ haccessor, typedIn_of_accessor _ haccessor,
      typing?_concat_of_unpaired hother]

theorem typedIn_concat_getter (h : s.pairsWith t = true) (hget : s.accessor = some .get) :
    typedIn (slots ++ [s]) t = { typedIn slots t with guess := s.guess } := by
  obtain ⟨-, haccessor, hname⟩ := pairsWith_iff.mp h
  rw [typedIn_of_accessor _ haccessor, typedIn_of_accessor _ haccessor, ← hname,
    typing?_concat_getter hget]
  rfl

/-- A setter after another accessor of its name types nothing. -/
theorem typedIn_concat_setter (h : s.pairsWith t = true) (hset : s.accessor = some .set)
    (ht : t ∈ slots) : typedIn (slots ++ [s]) t = typedIn slots t := by
  obtain ⟨-, haccessor, hname⟩ := pairsWith_iff.mp h
  obtain ⟨g, hg⟩ := Option.isSome_iff_exists.mp (typing?_isSome ht haccessor)
  rw [typedIn_of_accessor _ haccessor, typedIn_of_accessor _ haccessor, ← hname,
    typing?_concat_setter hset, hname, hg]
  rfl

theorem typedIn_concat_self (h : slots.any s.pairsWith = false) :
    typedIn (slots ++ [s]) s = s := by
  cases hhalf : s.accessor with
  | none => simp [typedIn, hhalf]
  | some half =>
    have haccessor : s.accessor ≠ none := by simp [hhalf]
    have hnone (other : Accessor) : accessors other s.name slots = [] := by
      rw [accessors, List.filter_eq_nil_iff]
      intro t ht hother
      simp only [Bool.and_eq_true, beq_iff_eq] at hother
      have hpaired := pairsWith_iff.mpr ⟨haccessor, by simp [hother.1], hother.2.symm⟩
      exact List.any_eq_false.mp h t ht hpaired
    have htyping : typing? (slots ++ [s]) s.name = some s.guess := by
      cases half with
      | get => exact typing?_concat_getter hhalf
      | set =>
        have hfirst : typing? slots s.name = none := by simp [typing?, hnone]
        rw [typing?_concat_setter hhalf, hfirst, Option.getD_none]
    rw [typedIn_of_accessor _ haccessor, htyping, Option.getD_some]

end Typing

/-- One more member, placed after the slots of the others. -/
theorem place_inTwoPasses (slots : List (Slot κ)) (s : Slot κ) :
    place (inTwoPasses slots) s = inTwoPasses (slots ++ [s]) := by
  have hany : (inTwoPasses slots).any s.pairsWith = slots.any s.pairsWith := by
    simp only [inTwoPasses, List.any_map, Function.comp_def, pairsWith_typedIn]
    exact any_leaders slots s
  rw [place, hany, inTwoPasses, inTwoPasses, leaders_concat]
  cases hpaired : slots.any s.pairsWith with
  | false =>
    have hunpaired : ∀ t ∈ leaders slots, s.pairsWith t = false := by
      intro t ht
      simpa using List.any_eq_false.mp hpaired t (mem_of_mem_leaders ht)
    simp only [Bool.false_eq_true, ↓reduceIte, List.map_append, List.map_cons, List.map_nil,
      typedIn_concat_self hpaired]
    congr 1
    exact List.map_congr_left fun t ht => (typedIn_concat_of_unpaired (hunpaired t ht)).symm
  | true =>
    simp only [↓reduceIte, List.append_nil]
    split
    · next hget =>
      rw [List.map_map]
      apply List.map_congr_left
      intro t ht
      simp only [Function.comp_apply, pairsWith_typedIn]
      split
      · next hst => rw [typedIn_concat_getter hst (by simpa using hget)]
      · next hst => rw [typedIn_concat_of_unpaired (by simpa using hst)]
    · next hget =>
      apply List.map_congr_left
      intro t ht
      cases hst : s.pairsWith t with
      | false => rw [typedIn_concat_of_unpaired hst]
      | true =>
        have hset : s.accessor = some .set := by
          obtain ⟨hhalf, -⟩ := pairsWith_iff.mp hst
          cases hs : s.accessor with
          | none => exact absurd hs hhalf
          | some half => cases half <;> simp_all
        rw [typedIn_concat_setter hst hset (mem_of_mem_leaders ht)]

theorem foldl_place_eq_inTwoPasses (slots : List (Slot κ)) :
    slots.foldl place [] = inTwoPasses slots := by
  induction slots using List.reverseRecOn with
  | nil => rfl
  | append_singleton slots s ih =>
    rw [List.foldl_append, ih]
    exact place_inTwoPasses slots s

theorem inTwoPasses_ne_nil (h : slots ≠ []) : inTwoPasses slots ≠ [] := by
  obtain ⟨s, rest, rfl⟩ := List.exists_cons_of_ne_nil h
  simp [inTwoPasses, leaders, leadersAfter]

/-- Members that are not accessors keep their slots as they are. -/
theorem mem_inTwoPasses_of_accessor_none (hs : s ∈ slots) (h : s.accessor = none) :
    s ∈ inTwoPasses slots := by
  refine List.mem_map.mpr ⟨s, mem_leadersAfter_of_accessor_none [] hs h, ?_⟩
  simp [typedIn, h]

section Names

theorem map_name_inTwoPasses (slots : List (Slot κ)) :
    (inTwoPasses slots).map name = (leaders slots).map name := by
  simp [inTwoPasses, Function.comp_def]

theorem mem_map_name_leaders {name : String} :
    name ∈ (leaders slots).map Slot.name ↔ name ∈ slots.map Slot.name := by
  induction slots using List.reverseRecOn with
  | nil => rfl
  | append_singleton slots s ih =>
    rw [leaders_concat, List.map_append, List.mem_append, List.map_append, List.mem_append, ih]
    split
    · next hpaired =>
      obtain ⟨t, ht, hst⟩ := List.any_eq_true.mp hpaired
      have hname : s.name ∈ slots.map Slot.name :=
        (pairsWith_iff.mp hst).2.2 ▸ List.mem_map_of_mem ht
      constructor
      · exact fun h => .inl (h.resolve_right List.not_mem_nil)
      · rintro (h | h)
        · exact .inl h
        · exact .inl (List.mem_singleton.mp h ▸ hname)
    · rfl

/-- The slots have distinct names if only accessors share one. -/
theorem nodup_map_name_iff (slots : List (Slot κ)) :
    ((inTwoPasses slots).map name).Nodup ↔
      slots.Pairwise fun s t => s.name = t.name → s.pairsWith t = true := by
  rw [map_name_inTwoPasses]
  induction slots using List.reverseRecOn with
  | nil => simp [leaders, leadersAfter]
  | append_singleton slots s ih =>
    rw [leaders_concat, List.pairwise_append, ← ih]
    simp only [List.pairwise_singleton, List.mem_singleton, forall_eq, true_and]
    cases hpaired : slots.any s.pairsWith with
    | false =>
      have hunpaired : ∀ t ∈ slots, t.pairsWith s = false := by
        intro t ht
        rw [pairsWith_comm]
        simpa using List.any_eq_false.mp hpaired t ht
      have hfresh : s.name ∉ slots.map Slot.name ↔
          ∀ t ∈ slots, t.name = s.name → t.pairsWith s = true := by
        simp only [List.mem_map, not_exists, not_and]
        refine forall₂_congr fun t ht => ?_
        simp [hunpaired t ht]
      rw [← hfresh, ← mem_map_name_leaders]
      simp [List.nodup_append]
    | true =>
      simp only [↓reduceIte, List.append_nil, iff_self_and]
      intro hnodup t ht hname
      obtain ⟨u, hu, hsu⟩ := List.any_eq_true.mp hpaired
      obtain ⟨hs, hhalf, hname'⟩ := pairsWith_iff.mp hsu
      -- The other half of the new accessor is an accessor, and so is all that has its name.
      have hsymm : Std.Symm fun s t : Slot κ => s.name = t.name → s.pairsWith t = true :=
        ⟨fun x y h hxy => pairsWith_comm x y ▸ h hxy.symm⟩
      have haccessor : t.accessor ≠ none := by
        by_cases htu : t = u
        · exact htu ▸ hhalf
        · have hpair := (ih.mp hnodup).forall ht hu htu
          exact (pairsWith_iff.mp (hpair (hname.trans hname'))).1
      exact pairsWith_iff.mpr ⟨haccessor, hs, hname⟩

end Names

end Slot

end ScriptTyping
