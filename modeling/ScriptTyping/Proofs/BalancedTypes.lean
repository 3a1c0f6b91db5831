import ScriptTyping.Proofs.PrintedNames
import ScriptTyping.Proofs.PrintedTypes

/-! # Brackets in printed types

Where the names of parameters have no brackets and no quotes, a printed type is balanced and has no
exposed semicolon. An exposed bar in a member of a union then belongs to the result of a function,
so it stands behind an exposed arrow.
-/
namespace ScriptTyping

/-- The name has neither a bracket nor a double quote. -/
def TidyName (name : String) : Prop := ∀ c ∈ name.toList, isPlainChar c = true

theorem TidyName.balanced {name : String} (h : TidyName name) : Balanced name.toList :=
  .of_plain (List.all_eq_true.mpr h)

def bar : List Char := [' ', '|', ' ']

def arrow : List Char := ['=', '>']

section Joins

theorem toList_intercalate (sep first : String) (rest : List String) :
    (sep.intercalate (first :: rest)).toList =
      first.toList ++ rest.flatMap fun s => sep.toList ++ s.toList := by
  rw [String.toList_intercalate]
  induction rest generalizing first with
  | nil => simp [List.intercalate]
  | cons s rest ih =>
    have hnext := ih s
    simp only [List.map_cons, List.intercalate_cons_cons, List.flatMap_cons] at hnext ⊢
    rw [hnext]
    simp

theorem balanced_intercalate {sep : String} (hsep : Balanced sep.toList) {texts : List String}
    (h : ∀ s ∈ texts, Balanced s.toList) : Balanced (sep.intercalate texts).toList := by
  cases texts with
  | nil => simpa [String.toList_intercalate] using Balanced.nil
  | cons first rest =>
    obtain ⟨hfirst, hrest⟩ := List.forall_mem_cons.mp h
    rw [toList_intercalate]
    exact hfirst.append (.flatMap fun s hs => hsep.append (hrest s hs))

theorem not_exposed_intercalate {c : Char} {sep : String} (hsep : Balanced sep.toList)
    (hnone : c ∉ sep.toList) {texts : List String} (h : ∀ s ∈ texts, Balanced s.toList)
    (hexposed : ∀ s ∈ texts, ¬Exposed [c] s.toList) :
    ¬Exposed [c] (sep.intercalate texts).toList := by
  cases texts with
  | nil =>
    apply not_exposed_of_notMem
    simp
  | cons first rest =>
    obtain ⟨hfirst, hrest⟩ := List.forall_mem_cons.mp h
    rw [toList_intercalate, exposed_append hfirst]
    rintro (hb | hb)
    · exact hexposed first List.mem_cons_self hb
    · obtain ⟨s, hs, hb⟩ := exposed_flatMap (fun s hs => hsep.append (hrest s hs)) hb
      rcases (exposed_append hsep).mp hb with hb | hb
      · exact not_exposed_of_notMem hnone hb
      · exact hexposed s (List.mem_cons_of_mem first hs) hb

end Joins

section Parts

theorem balanced_number (i : Nat) : Balanced ("arg" ++ toString i).toList := by
  rw [String.toList_append]
  refine Balanced.append rfl (.of_plain (List.all_eq_true.mpr ?_))
  intro c hc
  have hdigit : c.isDigit = true := by
    have htext : (toString i).toList = Nat.toDigits 10 i := Nat.toList_repr
    rw [htext] at hc
    exact Nat.isDigit_of_mem_toDigits (by omega) (by omega) hc
  have hne : ∀ d : Char, d.isDigit = false → c ≠ d := by
    rintro d hd rfl
    rw [hd] at hdigit
    cases hdigit
  simp only [isPlainChar, Place.opens, Place.closes, Bool.and_eq_true, Bool.not_eq_true',
    Bool.or_eq_false_iff, beq_eq_false_iff_ne, bne_iff_ne]
  refine ⟨⟨⟨⟨?_, ?_⟩, ?_⟩, ⟨?_, ?_⟩, ?_⟩, ?_⟩ <;> exact hne _ rfl

theorem ParamLabel.balanced {label : String} (h : ParamLabel TidyName label) :
    Balanced label.toList := by
  obtain ⟨dots, name, hdots, hname, rfl⟩ := h
  rw [String.toList_append]
  apply Balanced.append
  · rcases hdots with rfl | rfl <;> rfl
  · rcases hname with hname | ⟨i, rfl⟩
    · exact hname.balanced
    · exact balanced_number i

theorem Property.toList_inline {p : Property} (h : p.optional = false ∧ p.readonly = false) :
    p.inline.toList = (printName p.name).toList ++ ':' :: ' ' :: p.type.toList := by
  simp only [inline, h.1, h.2, Bool.false_eq_true, ↓reduceIte, String.toList_append]
  simp

theorem Property.balanced_inline {p : Property} (h : p.optional = false ∧ p.readonly = false)
    (htype : Balanced p.type.toList) : Balanced p.inline.toList := by
  have hcolon : Balanced [':', ' '] := rfl
  rw [p.toList_inline h]
  exact (balanced_printName p.name).append (hcolon.append htype)

/-- An inline shape is what stands between its braces, with a blank at either end. -/
theorem toList_inlineShape (properties : List Property) :
    (inlineShape properties).toList =
      '\x7b' :: (' ' :: (("; ".intercalate (properties.map Property.inline)).toList ++ [' '])) ++
        ['\x7d'] := by
  simp [inlineShape, String.toList_append]

theorem balanced_shapeBody {properties : List Property}
    (h : ∀ p ∈ properties, Balanced p.inline.toList) :
    Balanced (' ' :: (("; ".intercalate (properties.map Property.inline)).toList ++ [' '])) := by
  have hblank : Balanced [' '] := rfl
  have hsep : Balanced "; ".toList := rfl
  exact hblank.append ((balanced_intercalate hsep (List.forall_mem_map.mpr h)).append hblank)

def paramsText (params : List (String × String)) : List Char :=
  '(' :: (", ".intercalate (params.map fun x => x.1 ++ ": " ++ x.2)).toList ++ [')']

theorem toList_signatureText (params : List (String × String)) (result : String) :
    (signatureText params result).toList =
      paramsText params ++ (' ' :: (arrow ++ ' ' :: result.toList)) := by
  simp [signatureText, paramsText, String.toList_append, arrow]

theorem balanced_params {params : List (String × String)}
    (hlabels : ∀ x ∈ params, ParamLabel TidyName x.1) (htypes : ∀ x ∈ params, Balanced x.2.toList) :
    Balanced (", ".intercalate (params.map fun x => x.1 ++ ": " ++ x.2)).toList := by
  have hsep : Balanced ", ".toList := rfl
  have hcolon : Balanced ": ".toList := rfl
  refine balanced_intercalate hsep (List.forall_mem_map.mpr ?_)
  intro x hx
  rw [String.toList_append, String.toList_append]
  exact ((hlabels x hx).balanced.append hcolon).append (htypes x hx)

theorem balanced_paramsText {params : List (String × String)}
    (hlabels : ∀ x ∈ params, ParamLabel TidyName x.1) (htypes : ∀ x ∈ params, Balanced x.2.toList) :
    Balanced (paramsText params) :=
  (balanced_params hlabels htypes).enclosed rfl rfl

theorem balanced_unionMark : Balanced unionMark.toList := rfl

end Parts

namespace TypeText

variable {rank : Rank} {text : String}

theorem balanced_of_mem_typeWords (h : text ∈ typeWords) : Balanced text.toList := by
  have hall : typeWords.all (fun w => decide (Balanced w.toList)) = true := rfl
  exact of_decide_eq_true (List.all_eq_true.mp hall text h)

theorem notMem_of_mem_typeWords (h : text ∈ typeWords) : ';' ∉ text.toList ∧ '|' ∉ text.toList := by
  have hall : typeWords.all (fun w => !w.toList.contains ';' && !w.toList.contains '|') = true :=
    rfl
  simpa using List.all_eq_true.mp hall text h

/-- The two forms of an element type before the brackets of its array. -/
theorem wrapElement_forms (element : String) :
    (Guess.wrapElement element).toList = '(' :: element.toList ++ [')'] ∨
      ¬CompoundText element ∧ Guess.wrapElement element = element := by
  by_cases h : CompoundText element
  · rw [Guess.wrapElement_of_compound h]
    simp
  · exact .inr ⟨h, Guess.wrapElement_of_not_compound h⟩

theorem balanced (h : TypeText TidyName rank text) : Balanced text.toList := by
  induction h with
  | word mem => exact balanced_of_mem_typeWords mem
  | @array element type ih =>
    rw [String.toList_append]
    refine Balanced.append ?_ rfl
    rcases wrapElement_forms element with hwrap | ⟨-, hwrap⟩
    · rw [hwrap]
      exact ih.enclosed rfl rfl
    · rwa [hwrap]
  | shape ne plain types ih =>
    rw [toList_inlineShape]
    exact (balanced_shapeBody fun p hp => p.balanced_inline (plain p hp) (ih p hp)).enclosed rfl rfl
  | signature labels types type ihtypes ihtype =>
    rw [toList_signatureText]
    have hmark : Balanced [' ', '=', '>', ' '] := rfl
    exact (balanced_paramsText labels ihtypes).append (hmark.append ihtype)
  | single type ih => exact ih
  | union ne types ih => exact balanced_intercalate balanced_unionMark ih

theorem not_exposed_semicolon (h : TypeText TidyName rank text) : ¬Exposed [';'] text.toList := by
  induction h with
  | word mem => exact not_exposed_of_notMem (notMem_of_mem_typeWords mem).1
  | @array element type ih =>
    have hbrackets : ¬Exposed [';'] "[]".toList := not_exposed_of_notMem (by simp)
    rw [String.toList_append]
    rcases wrapElement_forms element with hwrap | ⟨-, hwrap⟩
    · rw [hwrap, exposed_append (type.balanced.enclosed rfl rfl), not_or]
      exact ⟨not_exposed_enclosed type.balanced rfl (by simp), hbrackets⟩
    · rw [hwrap, exposed_append type.balanced, not_or]
      exact ⟨ih, hbrackets⟩
  | shape ne plain types ih =>
    rw [toList_inlineShape]
    apply not_exposed_enclosed _ rfl (by simp)
    exact balanced_shapeBody fun p hp => p.balanced_inline (plain p hp) (types p hp).balanced
  | signature labels types type ihtypes ihtype =>
    have hparams := balanced_params labels fun x hx => (types x hx).balanced
    have hmark : Balanced [' ', '=', '>', ' '] := rfl
    have htext : ∀ result : List Char, ' ' :: (arrow ++ ' ' :: result) =
        [' ', '=', '>', ' '] ++ result := fun _ => rfl
    rw [toList_signatureText, paramsText, exposed_append (hparams.enclosed rfl rfl), htext,
      exposed_append hmark, not_or, not_or]
    exact ⟨not_exposed_enclosed hparams rfl (by simp), not_exposed_of_notMem (by simp), ihtype⟩
  | single type ih => exact ih
  | union ne types ih =>
    exact not_exposed_intercalate balanced_unionMark (by simp [unionMark])
      (fun m hm => (types m hm).balanced) ih

/-- A bar cannot reach into the brackets of an array from what stands before them. -/
theorem bar_infix_of_append_brackets {s : List Char} (h : bar <:+: s ++ ['[', ']']) :
    bar <:+: s := by
  obtain ⟨before, behind, htext⟩ := h
  rw [List.append_assoc] at htext
  obtain ⟨u, rfl, -⟩ := mark_within_of_append (by simp [bar]) (by simp [bar]) htext.symm
  exact ⟨before, u, by simp⟩

theorem exposed_arrow_of_exposed_bar (h : TypeText TidyName .member text)
    (hbar : Exposed bar text.toList) : Exposed arrow text.toList := by
  cases h with
  | word mem =>
    have hmem : '|' ∈ text.toList := hbar.isInfix.subset (by simp [bar])
    exact absurd hmem (notMem_of_mem_typeWords mem).2
  | @array element type =>
    exfalso
    rw [String.toList_append] at hbar
    rcases wrapElement_forms element with hwrap | ⟨hcompound, hwrap⟩
    · rw [hwrap] at hbar
      rcases (exposed_append (type.balanced.enclosed rfl rfl)).mp hbar.head with hb | hb
      · exact not_exposed_enclosed type.balanced rfl (by simp) hb
      · exact not_exposed_of_notMem (by simp) hb
    · rw [hwrap] at hbar
      exact hcompound (.inl (bar_infix_of_append_brackets hbar.isInfix))
  | shape ne plain types =>
    rw [toList_inlineShape] at hbar
    refine absurd hbar.head (not_exposed_enclosed ?_ rfl (by simp))
    exact balanced_shapeBody fun p hp => p.balanced_inline (plain p hp) (types p hp).balanced
  | @signature params result labels types type =>
    have hparams := balanced_paramsText labels fun x hx => (types x hx).balanced
    have hblank : Balanced [' '] := rfl
    rw [toList_signatureText]
    exact ⟨paramsText params ++ [' '], ' ' :: result.toList, by simp, hparams.append hblank⟩

end TypeText

end ScriptTyping
