import Mathlib.Data.List.Infix

/-! # Brackets and string literals in printed types

A printed type is read from the left. The reader counts the open brackets and knows whether it
stands in a string literal, where brackets do not count. A text is balanced if the reader comes back
to where it was, and a mark is exposed if it stands outside of all brackets and literals.
-/
namespace ScriptTyping

inductive Place where
  | code (depth : Nat)
  | literal (depth : Nat)
  /-- In a literal, after a backslash. -/
  | escape (depth : Nat)
deriving DecidableEq, Repr

namespace Place

def top : Place := code 0

def opens (c : Char) : Bool := c == '(' || c == '[' || c == '\x7b'

def closes (c : Char) : Bool := c == ')' || c == ']' || c == '\x7d'

/-- The place after a character, unless it closes a bracket that is not open. -/
def next? : Place → Char → Option Place
  | code d, c =>
    if opens c then some (code (d + 1))
    else if closes c then if d = 0 then none else some (code (d - 1))
    else if c == '\x22' then some (literal d)
    else some (code d)
  | literal d, c =>
    if c == '\x22' then some (code d)
    else if c == '\\' then some (escape d)
    else some (literal d)
  | escape d, _ => some (literal d)

def after? (p : Place) (text : List Char) : Option Place := text.foldlM next? p

@[simp] theorem after?_nil (p : Place) : p.after? [] = some p := rfl

@[simp] theorem after?_cons (p : Place) (c : Char) (text : List Char) :
    p.after? (c :: text) = (p.next? c).bind fun q => q.after? text := rfl

theorem after?_append (p : Place) (s t : List Char) :
    p.after? (s ++ t) = (p.after? s).bind fun q => q.after? t := by
  simp only [after?, List.foldlM_append]
  rfl

/-- A place to which each of several texts leads back. -/
theorem after?_flatMap {α : Type} {p : Place} {f : α → List Char} {xs : List α}
    (h : ∀ x ∈ xs, p.after? (f x) = some p) : p.after? (xs.flatMap f) = some p := by
  induction xs with
  | nil => rfl
  | cons x xs ih =>
    obtain ⟨hx, hxs⟩ := List.forall_mem_cons.mp h
    rw [List.flatMap_cons, after?_append, hx]
    exact ih hxs

/-- The same place inside one more bracket. -/
def deeper : Place → Place
  | code d => code (d + 1)
  | literal d => literal (d + 1)
  | escape d => escape (d + 1)

theorem next?_deeper {p q : Place} {c : Char} (h : p.next? c = some q) :
    p.deeper.next? c = some q.deeper := by
  cases p with
  | code d =>
    simp only [next?, deeper] at h ⊢
    split at h
    · cases h
      simp [*]
    · split at h
      · split at h
        · cases h
        · cases h
          have hd : d - 1 + 1 = d := by omega
          simp [*]
      · split at h <;> cases h <;> simp [*]
  | literal d =>
    simp only [next?, deeper] at h ⊢
    split at h
    · cases h
      simp [*]
    · split at h <;> cases h <;> simp [*]
  | escape d =>
    cases h
    rfl

theorem after?_deeper {p q : Place} {text : List Char} (h : p.after? text = some q) :
    p.deeper.after? text = some q.deeper := by
  induction text generalizing p with
  | nil =>
    cases h
    rfl
  | cons c text ih =>
    rw [after?_cons] at h
    obtain ⟨r, hr, hq⟩ := Option.bind_eq_some_iff.mp h
    rw [after?_cons, next?_deeper hr]
    exact ih hq

theorem deeper_ne_top (p : Place) : p.deeper ≠ top := by
  cases p <;> simp [deeper, top]

end Place

open Place

/-- Every bracket that the text opens is closed in it, and so is every literal. -/
def Balanced (text : List Char) : Prop := top.after? text = some top

instance (text : List Char) : Decidable (Balanced text) :=
  inferInstanceAs (Decidable (top.after? text = some top))

namespace Balanced

theorem nil : Balanced [] := rfl

theorem after? {text : List Char} (h : Balanced text) (d : Nat) :
    (code d).after? text = some (code d) := by
  induction d with
  | zero => exact h
  | succ d ih => exact after?_deeper ih

theorem append {s t : List Char} (hs : Balanced s) (ht : Balanced t) : Balanced (s ++ t) := by
  rw [Balanced, after?_append, hs]
  exact ht

theorem flatMap {α : Type} {f : α → List Char} {xs : List α} (h : ∀ x ∈ xs, Balanced (f x)) :
    Balanced (xs.flatMap f) := after?_flatMap h

end Balanced

/-- A character that the reader passes over. -/
def isPlainChar (c : Char) : Bool := !opens c && !closes c && c != '\x22'

theorem next?_plain {c : Char} (h : isPlainChar c = true) (d : Nat) :
    (code d).next? c = some (code d) := by
  simp only [isPlainChar, Bool.and_eq_true, Bool.not_eq_true', bne_iff_ne, ne_eq] at h
  obtain ⟨⟨ho, hc⟩, hq⟩ := h
  simp [next?, ho, hc, hq]

theorem Balanced.of_plain {text : List Char} (h : text.all isPlainChar = true) :
    Balanced text := by
  induction text with
  | nil => exact .nil
  | cons c text ih =>
    simp only [List.all_cons, Bool.and_eq_true] at h
    rw [Balanced, after?_cons, top, next?_plain h.1]
    exact ih h.2

theorem next?_opens {o : Char} (ho : opens o = true) (d : Nat) :
    (code d).next? o = some (code (d + 1)) := by
  simp [next?, ho]

theorem next?_closes {c : Char} (hc : closes c = true) (d : Nat) :
    (code (d + 1)).next? c = some (code d) := by
  have ho : opens c = false := by
    simp only [closes, Bool.or_eq_true, beq_iff_eq] at hc
    rcases hc with (rfl | rfl) | rfl <;> rfl
  simp [next?, ho, hc]

theorem Balanced.enclosed {text : List Char} (h : Balanced text) {o c : Char}
    (ho : opens o = true) (hc : closes c = true) : Balanced (o :: text ++ [c]) := by
  rw [Balanced, List.cons_append, after?_cons, top, next?_opens ho, Option.bind_some,
    after?_append, h.after?, Option.bind_some, after?_cons, next?_closes hc]
  rfl

/-- Within a bracket, no part of a balanced text leads out of it. -/
theorem Balanced.after?_within {s t : List Char} (h : Balanced (s ++ t)) {o : Char}
    (ho : opens o = true) : top.after? (o :: s) ≠ some top := by
  rw [Balanced, after?_append] at h
  obtain ⟨p, hp, -⟩ := Option.bind_eq_some_iff.mp h
  have hdeep : (code (0 + 1)).after? s = some p.deeper := after?_deeper hp
  rw [after?_cons, top, next?_opens ho, Option.bind_some, hdeep]
  intro htop
  exact p.deeper_ne_top (Option.some.inj htop)

/-- The mark stands outside of brackets and literals for a reader who starts at the place. -/
def Place.Exposes (p : Place) (mark text : List Char) : Prop :=
  ∃ before behind, text = before ++ (mark ++ behind) ∧ p.after? before = some top

theorem Place.not_exposes_nil (p : Place) {c : Char} {mark : List Char} :
    ¬p.Exposes (c :: mark) [] := by
  rintro ⟨before, behind, htext, -⟩
  simp at htext

theorem Place.exposes_cons {p : Place} {c : Char} {mark text : List Char} :
    p.Exposes mark (c :: text) ↔
      (p = top ∧ mark <+: c :: text) ∨ ∃ q, p.next? c = some q ∧ q.Exposes mark text := by
  constructor
  · rintro ⟨before, behind, htext, htop⟩
    cases before with
    | nil => exact .inl ⟨Option.some.inj htop, behind, htext.symm⟩
    | cons d before =>
      obtain ⟨rfl, hrest⟩ := List.cons.inj htext
      obtain ⟨q, hq, hbefore⟩ := Option.bind_eq_some_iff.mp htop
      exact .inr ⟨q, hq, before, behind, hrest, hbefore⟩
  · rintro (⟨rfl, behind, htext⟩ | ⟨q, hq, before, behind, rfl, hbefore⟩)
    · exact ⟨[], behind, htext.symm, rfl⟩
    · refine ⟨c :: before, behind, rfl, ?_⟩
      rw [after?_cons, hq]
      exact hbefore

/-- A mark that shares no character with what follows a text stands in the text itself. -/
theorem mark_within_of_append {mark s t before behind : List Char} (hne : mark ≠ [])
    (hother : ∀ c ∈ mark, c ∉ t) (htext : s ++ t = before ++ (mark ++ behind)) :
    ∃ u, s = before ++ (mark ++ u) ∧ behind = u ++ t := by
  rw [← List.append_assoc] at htext
  rcases List.append_eq_append_iff.mp htext with ⟨u, hs, ht⟩ | ⟨u, hs, hbehind⟩
  · rcases List.eq_nil_or_concat u with rfl | ⟨u, c, rfl⟩
    · exact ⟨[], by simpa using hs.symm, by simpa using ht.symm⟩
    · -- The last character of the mark would stand behind the text.
      have hlast : mark.getLast? = some c := by
        have hends := congrArg List.getLast? hs
        rw [List.getLast?_append_of_ne_nil _ hne] at hends
        simpa using hends
      exact absurd (ht ▸ by simp) (hother c (List.mem_of_getLast? hlast))
  · exact ⟨u, by simpa using hs, hbehind⟩

/-- The mark stands in the text outside of brackets and literals. -/
def Exposed (mark text : List Char) : Prop := top.Exposes mark text

namespace Exposed

theorem isInfix {mark text : List Char} (h : Exposed mark text) : mark <:+: text := by
  obtain ⟨before, behind, rfl, _⟩ := h
  exact ⟨before, behind, List.append_assoc _ _ _⟩

theorem head {c : Char} {mark text : List Char} (h : Exposed (c :: mark) text) :
    Exposed [c] text := by
  obtain ⟨before, behind, htext, htop⟩ := h
  exact ⟨before, mark ++ behind, htext, htop⟩

theorem left {mark s : List Char} (h : Exposed mark s) (t : List Char) : Exposed mark (s ++ t) := by
  obtain ⟨before, behind, rfl, htop⟩ := h
  exact ⟨before, behind ++ t, by simp, htop⟩

theorem right {mark s t : List Char} (hs : Balanced s) (h : Exposed mark t) :
    Exposed mark (s ++ t) := by
  obtain ⟨before, behind, rfl, htop⟩ := h
  exact ⟨s ++ before, behind, by simp, hs.append htop⟩

end Exposed

theorem not_exposed_of_notMem {c : Char} {text : List Char} (h : c ∉ text) : ¬Exposed [c] text :=
  fun hexposed => h (hexposed.isInfix.subset (List.mem_singleton_self c))

theorem exposed_append {c : Char} {s t : List Char} (hs : Balanced s) :
    Exposed [c] (s ++ t) ↔ Exposed [c] s ∨ Exposed [c] t := by
  constructor
  · rintro ⟨before, behind, htext, htop⟩
    rcases List.append_eq_append_iff.mp htext with ⟨u, rfl, ht⟩ | ⟨u, hsu, hu⟩
    · rw [after?_append, hs, Option.bind_some] at htop
      exact .inr ⟨u, behind, ht, htop⟩
    · cases u with
      | nil =>
        rw [List.append_nil] at hsu
        exact .inr ⟨[], behind, hu.symm, rfl⟩
      | cons d u =>
        obtain ⟨rfl, -⟩ := List.cons.inj hu
        exact .inl ⟨before, u, hsu, htop⟩
  · rintro (h | h)
    · exact h.left t
    · exact h.right hs

theorem exposed_flatMap {α : Type} {c : Char} {f : α → List Char} {xs : List α}
    (h : ∀ x ∈ xs, Balanced (f x)) : Exposed [c] (xs.flatMap f) → ∃ x ∈ xs, Exposed [c] (f x) := by
  induction xs with
  | nil => exact fun hexposed => absurd hexposed (not_exposed_of_notMem List.not_mem_nil)
  | cons x xs ih =>
    obtain ⟨hx, hxs⟩ := List.forall_mem_cons.mp h
    rw [List.flatMap_cons, exposed_append hx]
    rintro (hexposed | hexposed)
    · exact ⟨x, List.mem_cons_self, hexposed⟩
    · obtain ⟨y, hy, hexposed⟩ := ih hxs hexposed
      exact ⟨y, List.mem_cons_of_mem x hy, hexposed⟩

/-- Only the opening bracket itself is exposed in a text that stands in brackets. -/
theorem not_exposed_enclosed {text : List Char} (h : Balanced text) {o c x : Char}
    (ho : opens o = true) (hx : x ≠ o) : ¬Exposed [x] (o :: text ++ [c]) := by
  rintro ⟨before, behind, htext, htop⟩
  cases before with
  | nil =>
    rw [List.cons_append, List.nil_append, List.singleton_append] at htext
    exact hx (List.cons.inj htext).1.symm
  | cons d before =>
    obtain ⟨rfl, hrest⟩ := List.cons.inj htext
    -- What stands before the mark is a part of the text, which never goes below its own depth.
    have hpart : ∃ u, text = before ++ u := by
      rcases List.append_eq_append_iff.mp hrest with ⟨u, hu, hsingle⟩ | ⟨u, hu, _⟩
      · cases u with
        | nil => exact ⟨[], by rw [hu, List.append_nil, List.append_nil]⟩
        | cons e u => simp at hsingle
      · exact ⟨u, hu⟩
    obtain ⟨u, rfl⟩ := hpart
    exact h.after?_within ho htop

end ScriptTyping
