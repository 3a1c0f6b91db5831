import ScriptTyping.Proofs.PrintedShapes

/-! # Reading unions back

A reader of a printed union splits it at the bars outside of brackets and literals. An exposed arrow
makes all that follows the result of a function, so the reader takes no text that has one. A printed
union is read as its members exactly if each member is read as the one type it is, which fails for
function types: they are not parenthesized as members.
-/
namespace ScriptTyping

open Place

section Reading

def prependChar (c : Char) (parts : List (List Char)) : List (List Char) :=
  (c :: parts.headD []) :: parts.tail

/-- The parts of a text between its exposed bars, read from a place. The number counts the
characters of a bar still to be dropped. -/
def readParts : Place → Nat → List Char → Option (List (List Char))
  | p, skip + 1, _ :: rest => readParts p skip rest
  | p, 0, c :: rest =>
    if p = top ∧ arrow.isPrefixOf (c :: rest) then none
    else if p = top ∧ bar.isPrefixOf (c :: rest) then (readParts top 2 rest).map ([] :: ·)
    else (p.next? c).bind fun q => (readParts q 0 rest).map (prependChar c)
  | p, _, [] => if p = top then some [[]] else none

def readMembers (text : String) : Option (List String) :=
  (readParts top 0 text.toList).map (List.map String.ofList)

variable {p : Place} {text : List Char}

theorem readParts_nil (p : Place) : readParts p 0 [] = if p = top then some [[]] else none := by
  rw [readParts]

theorem readParts_arrow (h : arrow <+: text) : readParts top 0 text = none := by
  cases text with
  | nil => simp [arrow] at h
  | cons c rest => rw [readParts, if_pos ⟨rfl, List.isPrefixOf_iff_prefix.mpr h⟩]

theorem readParts_bar (rest : List Char) :
    readParts top 0 (bar ++ rest) = (readParts top 0 rest).map ([] :: ·) := by
  simp [bar, arrow, readParts]

/-- A part that ends where it starts has no characters. -/
theorem readParts_bar_ne (h : bar <+: text) {c : Char} {part : List Char}
    {parts : List (List Char)} : readParts top 0 text ≠ some ((c :: part) :: parts) := by
  obtain ⟨rest, rfl⟩ := h
  rw [readParts_bar]
  simp

theorem readParts_step {c : Char} {rest : List Char} (harrow : ¬(p = top ∧ arrow <+: c :: rest))
    (hbar : ¬(p = top ∧ bar <+: c :: rest)) :
    readParts p 0 (c :: rest) =
      (p.next? c).bind fun q => (readParts q 0 rest).map (prependChar c) := by
  rw [readParts, if_neg, if_neg]
  · rwa [List.isPrefixOf_iff_prefix]
  · rwa [List.isPrefixOf_iff_prefix]

theorem readParts_ne_nil {skip : Nat} {parts : List (List Char)}
    (h : readParts p skip text = some parts) : parts ≠ [] := by
  rintro rfl
  induction text generalizing p skip with
  | nil => cases skip <;> simp [readParts] at h
  | cons c rest ih =>
    cases skip with
    | succ skip => exact ih (by rwa [readParts] at h)
    | zero =>
      rw [readParts] at h
      split at h
      · cases h
      · split at h
        · simp at h
        · obtain ⟨q, -, hq⟩ := Option.bind_eq_some_iff.mp h
          simp [prependChar] at hq

theorem map_prependChar_eq_some_iff {c : Char} {part : List Char} {parts : List (List Char)} :
    (readParts p 0 text).map (prependChar c) = some ((c :: part) :: parts) ↔
      readParts p 0 text = some (part :: parts) := by
  constructor
  · intro h
    obtain ⟨read, hread, heq⟩ := Option.map_eq_some_iff.mp h
    cases read with
    | nil => exact absurd rfl (readParts_ne_nil hread)
    | cons first more =>
      simp only [prependChar, List.headD_cons, List.tail_cons, List.cons.injEq, true_and] at heq
      rw [hread, heq.1, heq.2]
  · intro h
    rw [h]
    rfl

/-- A text is read as one part if it is balanced and has neither mark outside of brackets. -/
theorem readParts_alone_iff :
    readParts p 0 text = some [text] ↔
      p.after? text = some top ∧ ¬p.Exposes bar text ∧ ¬p.Exposes arrow text := by
  induction text generalizing p with
  | nil =>
    have hbar : ¬p.Exposes bar [] := p.not_exposes_nil
    have harrow : ¬p.Exposes arrow [] := p.not_exposes_nil
    simp [readParts_nil, hbar, harrow]
  | cons c rest ih =>
    by_cases harrow : p = top ∧ arrow <+: c :: rest
    · have hexposed : p.Exposes arrow (c :: rest) := exposes_cons.mpr (.inl harrow)
      rw [harrow.1] at hexposed ⊢
      simp [readParts_arrow harrow.2, hexposed]
    · by_cases hbar : p = top ∧ bar <+: c :: rest
      · have hexposed : p.Exposes bar (c :: rest) := exposes_cons.mpr (.inl hbar)
        rw [hbar.1] at hexposed ⊢
        simp [readParts_bar_ne hbar.2, hexposed]
      · rw [readParts_step harrow hbar, exposes_cons, exposes_cons, after?_cons]
        cases p.next? c with
        | none => simp
        | some q =>
          rw [Option.bind_some, map_prependChar_eq_some_iff, ih]
          simp [harrow, hbar]

theorem arrow_prefix_append_bar (text rest : List Char) :
    arrow <+: text ++ (bar ++ rest) ↔ arrow <+: text := by
  rcases text with _ | ⟨c, _ | ⟨d, text⟩⟩ <;> simp [arrow, bar]

/-- A bar starts in a text only if it ends there, unless the text ends in its first half. -/
theorem bar_prefix_append_bar (hne : text ≠ []) (hend : ¬[' ', '|'] <:+ text) (rest : List Char) :
    bar <+: text ++ (bar ++ rest) ↔ bar <+: text := by
  rcases text with _ | ⟨c, _ | ⟨d, _ | ⟨e, text⟩⟩⟩
  · exact absurd rfl hne
  · simp [bar]
  · have hhalf : ¬(' ' = c ∧ '|' = d) := by
      rintro ⟨rfl, rfl⟩
      exact hend List.suffix_rfl
    simp [bar, hhalf]
  · simp [bar]

theorem readParts_append_bar {rest : List Char} {parts : List (List Char)}
    (hend : ¬[' ', '|'] <:+ text) :
    readParts p 0 (text ++ (bar ++ rest)) = some (text :: parts) ↔
      readParts p 0 text = some [text] ∧ readParts top 0 rest = some parts := by
  induction text generalizing p with
  | nil =>
    rw [List.nil_append, readParts_nil]
    by_cases hp : p = top
    · subst hp
      simp [readParts_bar]
    · have hread : readParts p 0 (bar ++ rest) ≠ some ([] :: parts) := by
        rw [bar, List.cons_append, readParts_step (fun h => hp h.1) (fun h => hp h.1)]
        intro hread
        obtain ⟨q, -, hq⟩ := Option.bind_eq_some_iff.mp hread
        simp [prependChar] at hq
      simp [hp, hread]
  | cons c text ih =>
    have harrow := arrow_prefix_append_bar (c :: text) rest
    have hbar := bar_prefix_append_bar (List.cons_ne_nil c text) hend rest
    rw [List.cons_append] at harrow hbar ⊢
    -- No mark starts in the text and ends behind it, so the text is read alike in both places.
    by_cases h₁ : p = top ∧ arrow <+: c :: text
    · rw [h₁.1, readParts_arrow h₁.2, readParts_arrow (harrow.mpr h₁.2)]
      simp
    · by_cases h₂ : p = top ∧ bar <+: c :: text
      · rw [h₂.1]
        simp [readParts_bar_ne h₂.2, readParts_bar_ne (hbar.mpr h₂.2)]
      · rw [readParts_step h₁ h₂, readParts_step (by rwa [harrow]) (by rwa [hbar])]
        cases p.next? c with
        | none => simp
        | some q =>
          have htail : ¬[' ', '|'] <:+ text := fun h => hend (h.trans (List.suffix_cons c text))
          rw [Option.bind_some, Option.bind_some, map_prependChar_eq_some_iff,
            map_prependChar_eq_some_iff, ih htail]

/-- Texts joined by bars are read as these texts if each of them is read as itself. -/
theorem readParts_join_iff {first : List Char} {others : List (List Char)}
    (hend : ∀ m ∈ first :: others, ¬[' ', '|'] <:+ m) :
    readParts top 0 (first ++ others.flatMap (bar ++ ·)) = some (first :: others) ↔
      ∀ m ∈ first :: others, readParts top 0 m = some [m] := by
  induction others generalizing first with
  | nil => simp
  | cons second others ih =>
    obtain ⟨hfirst, hrest⟩ := List.forall_mem_cons.mp hend
    rw [List.flatMap_cons, List.append_assoc, readParts_append_bar hfirst, ih hrest]
    exact (List.forall_mem_cons (p := fun m => readParts top 0 m = some [m])).symm

theorem readMembers_eq_some_iff {text : String} {members : List String} :
    readMembers text = some members ↔
      readParts top 0 text.toList = some (members.map String.toList) := by
  have hback : ∀ parts : List (List Char), (parts.map String.ofList).map String.toList = parts := by
    intro parts
    simp
  constructor
  · intro h
    obtain ⟨parts, hparts, rfl⟩ := Option.map_eq_some_iff.mp h
    rw [hback, hparts]
  · intro h
    rw [readMembers, h]
    simp

theorem readMembers_alone_iff {text : String} :
    readMembers text = some [text] ↔
      Balanced text.toList ∧ ¬Exposed bar text.toList ∧ ¬Exposed arrow text.toList := by
  rw [readMembers_eq_some_iff]
  exact readParts_alone_iff

theorem readMembers_union_iff {members : List String} (hne : members ≠ [])
    (hend : ∀ m ∈ members, ¬[' ', '|'] <:+ m.toList) :
    readMembers (unionMark.intercalate members) = some members ↔
      ∀ m ∈ members, readMembers m = some [m] := by
  cases members with
  | nil => exact absurd rfl hne
  | cons first others =>
    have hjoin : (unionMark.intercalate (first :: others)).toList =
        first.toList ++ (others.map String.toList).flatMap (bar ++ ·) := by
      rw [toList_intercalate, List.flatMap_map]
      rfl
    rw [readMembers_eq_some_iff, hjoin, List.map_cons, readParts_join_iff]
    · simp [readMembers_eq_some_iff]
    · simpa using hend

end Reading

section Ends

theorem getLast?_append_ne {c : Char} {s t : List Char} (hs : s.getLast? ≠ some c)
    (ht : t.getLast? ≠ some c) : (s ++ t).getLast? ≠ some c := by
  rw [List.getLast?_append]
  cases hlast : t.getLast? with
  | none => simpa using hs
  | some d => simpa [hlast] using ht

theorem getLast?_flatMap_ne {α : Type} {c : Char} {f : α → List Char} {xs : List α}
    (h : ∀ x ∈ xs, (f x).getLast? ≠ some c) : (xs.flatMap f).getLast? ≠ some c := by
  induction xs with
  | nil => simp
  | cons x xs ih =>
    obtain ⟨hx, hxs⟩ := List.forall_mem_cons.mp h
    exact getLast?_append_ne hx (ih hxs)

/-- No printed type ends in a bar, whatever the names of parameters are. -/
theorem TypeText.getLast?_ne {N : String → Prop} {rank : Rank} {text : String}
    (h : TypeText N rank text) : text.toList.getLast? ≠ some '|' := by
  induction h with
  | word mem =>
    intro hlast
    exact (notMem_of_mem_typeWords mem).2 (List.mem_of_getLast? hlast)
  | array type ih => simp
  | shape ne plain types ih =>
    rw [toList_inlineShape, List.getLast?_concat]
    simp
  | signature labels types type ihtypes ihtype =>
    have hmark : [' ', '=', '>', ' '].getLast? ≠ some '|' := by simp
    rw [toList_signatureText]
    apply getLast?_append_ne
    · rw [paramsText, List.getLast?_concat]
      simp
    · exact getLast?_append_ne hmark ihtype
  | single type ih => exact ih
  | @union members ne types ih =>
    have hmark : unionMark.toList.getLast? ≠ some '|' := by simp [unionMark]
    cases members with
    | nil => exact absurd rfl ne
    | cons first others =>
      obtain ⟨hfirst, hothers⟩ := List.forall_mem_cons.mp ih
      rw [toList_intercalate]
      exact getLast?_append_ne hfirst
        (getLast?_flatMap_ne fun m hm => getLast?_append_ne hmark (hothers m hm))

theorem TypeText.not_suffix {N : String → Prop} {rank : Rank} {text : String}
    (h : TypeText N rank text) : ¬[' ', '|'] <:+ text.toList := by
  rintro ⟨before, htext⟩
  apply h.getLast?_ne
  rw [← htext]
  simp

end Ends

namespace Guess

variable {κ : Type} [Score κ]

theorem Inferred.reads_iff {T : Node → Prop} {g : Guess κ} (hg : g.Inferred T)
    (hkind : g.kind = .union) :
    readMembers g.value = some g.members ↔ ∀ m ∈ g.members, readMembers m = some [m] := by
  have hprinted : g.Printed fun _ => True := hg.printed fun _ _ _ _ _ _ => trivial
  obtain ⟨hne, -, hvalue⟩ := hg.wellFormed.formed.union hkind
  rw [hvalue]
  exact readMembers_union_iff hne fun m hm => (hprinted.members hkind m hm).not_suffix

/-- In a tree with tidy names, only a function type is not read as itself. -/
theorem Inferred.member_reads_iff {g : Guess κ} (hg : g.Inferred Node.TidyParams)
    (hkind : g.kind = .union) {m : String} (hm : m ∈ g.members) :
    readMembers m = some [m] ↔ ¬Exposed arrow m.toList := by
  have htext : TypeText TidyName .member m :=
    (hg.printed fun _ hn => hn.namesParams).members hkind m hm
  rw [readMembers_alone_iff]
  constructor
  · exact fun h => h.2.2
  · exact fun h => ⟨htext.balanced, fun hbar => h (htext.exposed_arrow_of_exposed_bar hbar), h⟩

end Guess

variable {κ : Type} [Score κ]

/-- A printed union is read back as its members if and only if each member is read as itself. In a
tree with tidy names these are the unions without function types, and among them the printed type
determines the members. -/
theorem union_reads_back_iff {g : Guess κ} (hg : g.Inferred fun _ => True)
    (hkind : g.kind = .union) :
    (readMembers g.value = some g.members ↔ ∀ m ∈ g.members, readMembers m = some [m]) ∧
      (g.Inferred Node.TidyParams → (readMembers g.value = some g.members ↔
        ∀ m ∈ g.members, ¬Exposed arrow m.toList)) ∧
      ∀ h : Guess κ, h.Inferred (fun _ => True) → g.alike h = true →
        (∀ m ∈ g.members ++ h.members, readMembers m = some [m]) → g.members = h.members := by
  refine ⟨hg.reads_iff hkind, ?_, ?_⟩
  · intro htidy
    rw [hg.reads_iff hkind]
    exact forall₂_congr fun m hm => htidy.member_reads_iff hkind hm
  · intro h hh halike hreads
    simp only [Guess.alike, Bool.and_eq_true, beq_iff_eq] at halike
    have hleft := (hg.reads_iff hkind).mpr fun m hm => hreads m (List.mem_append_left _ hm)
    have hright := (hh.reads_iff (halike.1 ▸ hkind)).mpr fun m hm =>
      hreads m (List.mem_append_right _ hm)
    rw [halike.2, hright] at hleft
    exact (Option.some.inj hleft).symm

section Scripts

def Node.choice (yes no : Node) : Node :=
  branch "ternary_expression" [(leaf "identifier" "c").inRole "condition",
    yes.inRole "consequence", no.inRole "alternative"]

/-- `x = c ? { 'a | b': f } : [f]` after `function f() {}`. -/
def bracketedFunctionsScript : Node :=
  .branch "program" [.defining "f" [],
    .letting "x" (.choice
      (.branch "object" [.branch "pair" [(Node.leaf "string" "'a | b'").inRole "key",
        (Node.leaf "identifier" "f").inRole "value"]])
      (.branch "array" [.leaf "identifier" "f"]))]

theorem union_reads_back_bracketedFunctions :
    let g : Guess Float := bracketedFunctionsScript.nameAfter "x"
    g.value = "\x7b \"a | b\": () => void \x7d | (() => void)[]" ∧
      g.members = ["\x7b \"a | b\": () => void \x7d", "(() => void)[]"] ∧
      readMembers g.value = some g.members ∧ ∀ m ∈ g.members, ¬Exposed arrow m.toList := by
  have hinferred : (bracketedFunctionsScript.nameAfter "x" : Guess Float).Inferred fun _ => True :=
    Node.nameAfter_inferred (fun _ _ _ _ => trivial) trivial trivial
  have htidy : (bracketedFunctionsScript.nameAfter "x" : Guess Float).Inferred Node.TidyParams :=
    Node.nameAfter_inferred Node.hereditary_tidyParams (Node.tidyParams_of_all rfl)
      (Node.tidyParams_of_all rfl)
  obtain ⟨hiff, hiffTidy, -⟩ := union_reads_back_iff hinferred rfl
  have hreads := hiff.mpr (List.forall_mem_cons.mpr ⟨rfl, List.forall_mem_singleton.mpr rfl⟩)
  exact ⟨rfl, rfl, hreads, (hiffTidy htidy).mp hreads⟩

/-- `x = c ? f : true` and `y = c ? h : c ? 1 : true` after `function f() { return c ? '' : 1 }` and
`function h() { return '' }`. -/
def unionOfFunctionScript : Node :=
  .branch "program"
    [.defining "f"
       [.branch "return_statement" [.choice (.leaf "string" "''") (.leaf "number" "1")]],
     .defining "h" [.branch "return_statement" [.leaf "string" "''"]],
     .letting "x" (.choice (.leaf "identifier" "f") (.leaf "true" "true")),
     .letting "y" (.choice (.leaf "identifier" "h")
       (.choice (.leaf "number" "1") (.leaf "true" "true")))]

/-- The function types of the two unions run into their other members, so neither union is read
back, and the two print alike although their members differ. -/
theorem union_of_function_misread :
    let g : Guess Float := unionOfFunctionScript.nameAfter "x"
    let h : Guess Float := unionOfFunctionScript.nameAfter "y"
    (g.Inferred (fun _ => True) ∧ h.Inferred (fun _ => True)) ∧
      (g.kind = .union ∧ g.value = "() => string | number | boolean" ∧
        g.members = ["() => string | number", "boolean"] ∧ readMembers g.value = none) ∧
      g.alike h = true ∧ h.members = ["() => string", "number", "boolean"] := by
  have hinferred : ∀ name,
      (unionOfFunctionScript.nameAfter name : Guess Float).Inferred fun _ => True := fun _ =>
    Node.nameAfter_inferred (fun _ _ _ _ => trivial) trivial trivial
  exact ⟨⟨hinferred "x", hinferred "y"⟩, ⟨rfl, rfl, rfl, rfl⟩, rfl, rfl⟩

end Scripts

end ScriptTyping
