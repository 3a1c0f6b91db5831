import ScriptTyping.Proofs.BalancedTypes

/-! # Printed array types

Whether the element of an array is parenthesized is told by its text. The parentheses keep the marks
that ask for them, so a text in parentheses is never mistaken for one without, and arrays of any
depth print alike only if their elements do.
-/
namespace ScriptTyping

variable {κ : Type}

/-- The texts that ask for parentheses. -/
def compoundMarks : List String := [unionMark, "=>"]

theorem compoundText_iff {value : String} :
    CompoundText value ↔ ∃ mark ∈ compoundMarks, mark.toList <:+: value.toList := by
  simp [CompoundText, compoundMarks, unionMark]

/-- The first character opens a bracket that the last one closes, and nothing before does. -/
def Enclosed (text : List Char) : Prop :=
  Balanced text ∧ ∀ s t, text = s ++ t → s ≠ [] → t ≠ [] → Place.top.after? s ≠ some .top

theorem Balanced.enclosed_parentheses {text : List Char} (h : Balanced text) :
    Enclosed ('(' :: text ++ [')']) := by
  refine ⟨h.enclosed rfl rfl, ?_⟩
  intro s t htext hs ht
  obtain ⟨o, s, rfl⟩ := List.exists_cons_of_ne_nil hs
  obtain ⟨t, c, rfl⟩ := (List.eq_nil_or_concat' t).resolve_left ht
  rw [List.cons_append, List.cons_append, ← List.append_assoc] at htext
  obtain ⟨rfl, hrest⟩ := List.cons.inj htext
  obtain rfl := (List.append_inj' hrest rfl).1
  exact h.after?_within rfl

namespace Guess

theorem compoundText_parenthesized {value : String} (h : CompoundText value) :
    CompoundText ("(" ++ value ++ ")") := by
  obtain ⟨mark, hmark, hinfix⟩ := compoundText_iff.mp h
  refine compoundText_iff.mpr ⟨mark, hmark, hinfix.trans ⟨['('], [')'], ?_⟩⟩
  simp

/-- A text in parentheses asks for another pair, so it does not stand for itself. -/
theorem wrapElement_injective : Function.Injective wrapElement := by
  intro a b h
  by_cases ha : CompoundText a <;> by_cases hb : CompoundText b
  · rw [wrapElement_of_compound ha, wrapElement_of_compound hb] at h
    simpa using h
  · rw [wrapElement_of_compound ha, wrapElement_of_not_compound hb] at h
    exact absurd (h ▸ compoundText_parenthesized ha) hb
  · rw [wrapElement_of_not_compound ha, wrapElement_of_compound hb] at h
    exact absurd (h ▸ compoundText_parenthesized hb) ha
  · rwa [wrapElement_of_not_compound ha, wrapElement_of_not_compound hb] at h

theorem array_value_eq_iff {a b : Guess κ} {c d : κ} :
    (array a c).value = (array b d).value ↔ a.value = b.value := by
  simp only [array, String.append_left_inj]
  exact wrapElement_injective.eq_iff

theorem nested_value_eq_iff {a b : Guess κ} {cs ds : List κ} (hdepth : cs.length = ds.length) :
    (cs.foldl array a).value = (ds.foldl array b).value ↔ a.value = b.value := by
  induction cs generalizing a b ds with
  | nil =>
    obtain rfl := List.eq_nil_of_length_eq_zero hdepth.symm
    rfl
  | cons c cs ih =>
    obtain ⟨d, ds, rfl⟩ := List.exists_cons_of_length_eq_add_one hdepth.symm
    rw [List.foldl_cons, List.foldl_cons, ih (by simpa using hdepth), array_value_eq_iff]

/-- A mark in a printed array type is a mark of its element, which then stands in parentheses. -/
theorem mark_within_array {e : Guess κ} {c : κ} {mark : String} (hmark : mark ∈ compoundMarks)
    {before behind : List Char}
    (htext : (array e c).value.toList = before ++ (mark.toList ++ behind)) :
    ∃ inner outer, before = '(' :: inner ∧ behind = outer ++ [')', '[', ']'] ∧
      e.value.toList = inner ++ (mark.toList ++ outer) := by
  have hne : mark.toList ≠ [] := by
    rcases List.mem_pair.mp hmark with rfl | rfl <;> simp [unionMark]
  have hother : ∀ x ∈ mark.toList, x ∉ ['(', ')', '[', ']'] := by
    rcases List.mem_pair.mp hmark with rfl | rfl <;> simp [unionMark]
  by_cases hcompound : CompoundText e.value
  · have hvalue : (array e c).value.toList = ('(' :: e.value.toList) ++ [')', '[', ']'] := by
      simp [array, wrapElement_of_compound hcompound]
    rw [hvalue] at htext
    obtain ⟨outer, hopened, rfl⟩ := mark_within_of_append hne
      (fun x hx hmem => hother x hx (List.mem_cons_of_mem _ hmem)) htext
    cases before with
    | nil =>
      have hparenthesis : '(' ∈ mark.toList := by
        obtain ⟨x, xs, hxs⟩ := List.exists_cons_of_ne_nil hne
        rw [hxs] at hopened ⊢
        exact (List.cons.inj hopened).1 ▸ List.mem_cons_self
      exact absurd List.mem_cons_self (hother '(' hparenthesis)
    | cons o inner =>
      obtain ⟨rfl, helement⟩ := List.cons.inj hopened
      exact ⟨inner, outer, rfl, rfl, helement⟩
  · have hvalue : (array e c).value.toList = e.value.toList ++ ['[', ']'] := by
      simp [array, wrapElement_of_not_compound hcompound]
    rw [hvalue] at htext
    obtain ⟨u, helement, -⟩ := mark_within_of_append hne
      (fun x hx hmem => hother x hx (List.mem_cons_of_mem _ (List.mem_cons_of_mem _ hmem))) htext
    exact absurd (compoundText_iff.mpr ⟨mark, hmark, before, u, by simp [helement]⟩) hcompound

theorem arrayOf_eq_array [Score κ] (name : String) (c : κ) :
    ∃ e : Guess κ, e.value = name ∧ arrayOf name c = array e c := by
  refine ⟨if name == "unknown" then unknown 0.0 else primitive name 1.0, ?_, rfl⟩
  by_cases h : name = "unknown" <;> simp [h, unknown, primitive]

end Guess

/-- Arrays of one depth print alike exactly if their innermost elements do, whatever is printed for
these. In the printed type of any array, each union mark and each arrow stands between a parenthesis
at the very start and one right before the final brackets, and these two belong together if the
brackets of the element are balanced. -/
theorem array_rendering_unambiguous [Score κ] :
    (∀ (a b : Guess κ) (cs ds : List κ), cs.length = ds.length →
      ((cs.foldl Guess.array a).value = (ds.foldl Guess.array b).value ↔ a.value = b.value)) ∧
    (∀ (name : String) (c : κ), ∃ e : Guess κ, e.value = name ∧ Guess.arrayOf name c = e.array c) ∧
    ∀ (e : Guess κ) (c : κ), ∀ mark ∈ [" | ", "=>"], ∀ before behind : List Char,
      (e.array c).value.toList = before ++ (mark.toList ++ behind) →
      ∃ inner outer, before = '(' :: inner ∧ behind = outer ++ [')', '[', ']'] ∧
        e.value.toList = inner ++ (mark.toList ++ outer) ∧
        (Balanced e.value.toList → Enclosed (before ++ (mark.toList ++ outer) ++ [')'])) := by
  refine ⟨fun a b cs ds => Guess.nested_value_eq_iff, Guess.arrayOf_eq_array, ?_⟩
  intro e c mark hmark before behind htext
  obtain ⟨inner, outer, rfl, rfl, helement⟩ := Guess.mark_within_array hmark htext
  refine ⟨inner, outer, rfl, rfl, helement, fun hbalanced => ?_⟩
  rw [List.cons_append, ← helement]
  exact hbalanced.enclosed_parentheses

/-- A union, and a type that is printed as the union in parentheses. -/
theorem array_rendering_unambiguous_parenthesized :
    let union : Guess Float := .union ["string", "number"] 1.0
    let printed : Guess Float := .primitive "(string | number)" 1.0
    ([1.0, 0.5].foldl Guess.array union).value = "((string | number)[])[]" ∧
    ([1.0, 0.5].foldl Guess.array union).value ≠ ([0.5, 1.0].foldl Guess.array printed).value ∧
    Balanced union.value.toList ∧
    ∃ outer, "number)[]".toList = outer ++ [')', '[', ']'] ∧
      Enclosed ("(string".toList ++ (" | ".toList ++ outer) ++ [')']) := by
  intro union printed
  obtain ⟨hdepth, -, hmarks⟩ := array_rendering_unambiguous (κ := Float)
  have hbalanced : Balanced union.value.toList := by decide +kernel
  refine ⟨by decide +kernel, ?_, hbalanced, ?_⟩
  · rw [ne_eq, hdepth union printed [1.0, 0.5] [0.5, 1.0] (by simp)]
    decide +kernel
  · obtain ⟨_, outer, -, hbehind, -, henclosed⟩ := hmarks union 1.0 " | " (by simp)
      "(string".toList "number)[]".toList (by decide +kernel)
    exact ⟨outer, hbehind, henclosed hbalanced⟩

end ScriptTyping
