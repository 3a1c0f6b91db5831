import Mathlib.Data.List.TakeWhile
import Mathlib.Tactic.IntervalCases
import ScriptTyping.Json.Reader
import ScriptTyping.Json.Value
import ScriptTyping.Proofs.CanonicalText
import ScriptTyping.Proofs.Nesting

/-! # Printed names

A property name is printed as it is or as a string literal. A reader of literals gets the units of
the name back and stops right behind the closing quote, so the name and the text after it can be
told apart. For brackets a printed name does not count.
-/
namespace ScriptTyping

namespace Text

theorem hex_succ {width : Nat} (h : 0 < width) (n : Nat) :
    hex (width + 1) n = hex width (n / 16) ++ [Nat.digitChar (n % 16)] := by
  by_cases hn : n < 16
  · have hdiv : n / 16 = 0 := Nat.div_eq_of_lt hn
    have hmod : n % 16 = n := Nat.mod_eq_of_lt hn
    have hzero : hex width 0 = List.replicate width '0' := by
      obtain ⟨k, rfl⟩ : ∃ k, width = k + 1 := ⟨width - 1, by omega⟩
      rw [hex, Nat.toDigits_zero]
      exact (List.replicate_succ' (n := k)).symm
    rw [hdiv, hmod, hzero, hex, Nat.toDigits_of_lt_base hn]
    simp
  · have hdigits := Nat.toDigits_of_base_le (b := 16) (by omega) (Nat.le_of_not_lt hn)
    simp only [hex, hdigits, List.length_append, List.length_singleton, Nat.add_sub_add_right,
      List.append_assoc]

/-- The four digits of a unit. -/
theorem hex_four {n : Nat} (h : n < 0x10000) :
    hex 4 n = [Nat.digitChar (n / 16 / 16 / 16), Nat.digitChar (n / 16 / 16 % 16),
      Nat.digitChar (n / 16 % 16), Nat.digitChar (n % 16)] := by
  have hfirst : n / 16 / 16 / 16 < 16 := by omega
  have hone : hex 1 (n / 16 / 16 / 16) = [Nat.digitChar (n / 16 / 16 / 16)] := by
    rw [hex, Nat.toDigits_of_lt_base hfirst]
    rfl
  rw [hex_succ (by omega), hex_succ (by omega), hex_succ (by omega), hone]
  rfl

theorem hexValue?_digitChar {d : Nat} (h : d < 16) : hexValue? (Nat.digitChar d) = some d := by
  interval_cases d <;> rfl

theorem digitChar_ne {d : Nat} (h : d < 16) :
    Nat.digitChar d ≠ '\x22' ∧ Nat.digitChar d ≠ '\\' := by
  interval_cases d <;> decide

/-- The UTF-16 units of a character. -/
def codeUnits (c : Char) : List Nat :=
  if c.toNat < 0x10000 then [c.toNat]
  else [0xD800 + (c.toNat - 0x10000) / 0x400, 0xDC00 + (c.toNat - 0x10000) % 0x400]

/-- Characters are not surrogates. -/
theorem toNat_valid (c : Char) :
    c.toNat < 0xD800 ∨ 0xDFFF < c.toNat ∧ c.toNat < 0x110000 := c.valid

theorem codeUnits_lt {c : Char} {n : Nat} (h : n ∈ codeUnits c) : n < 0x10000 := by
  have hc := toNat_valid c
  unfold codeUnits at h
  split at h
  · next hsmall => exact List.mem_singleton.mp h ▸ hsmall
  · simp only [List.mem_cons, List.not_mem_nil, or_false] at h
    omega

theorem units_eq_flatMap (c : Char) : Literal.units c = (codeUnits c).flatMap Literal.unit := by
  simp only [Literal.units, codeUnits]
  split <;> simp

theorem joinPairs_cons {n : Nat} (h : Wording.isHighSurrogate n = false) (rest : List Nat) :
    Wording.joinPairs (n :: rest) = n :: Wording.joinPairs rest := by
  cases rest with
  | nil => rfl
  | cons low rest => simp [Wording.joinPairs, h]

/-- Joining surrogates undoes the split into units. -/
theorem joinPairs_codeUnits (cs : List Char) :
    Wording.joinPairs (cs.flatMap codeUnits) = cs.map Char.toNat := by
  induction cs with
  | nil => rfl
  | cons c rest ih =>
    have hc := toNat_valid c
    rw [List.flatMap_cons, List.map_cons, ← ih]
    unfold codeUnits
    split
    · have hplain : Wording.isHighSurrogate c.toNat = false := by
        simp only [Wording.isHighSurrogate, Bool.and_eq_false_iff, decide_eq_false_iff_not]
        omega
      exact joinPairs_cons hplain _
    · next hlarge =>
      have hhigh : Wording.isHighSurrogate (0xD800 + (c.toNat - 0x10000) / 0x400) = true := by
        simp only [Wording.isHighSurrogate, Bool.and_eq_true, decide_eq_true_eq]
        omega
      have hlow : Wording.isLowSurrogate (0xDC00 + (c.toNat - 0x10000) % 0x400) = true := by
        simp only [Wording.isLowSurrogate, Bool.and_eq_true, decide_eq_true_eq]
        omega
      have hjoined : 0x10000 + (0xD800 + (c.toNat - 0x10000) / 0x400 - 0xD800) * 0x400 +
          (0xDC00 + (c.toNat - 0x10000) % 0x400 - 0xDC00) = c.toNat := by omega
      simp only [List.cons_append, List.nil_append, Wording.joinPairs, hhigh, hlow, Bool.and_self,
        ↓reduceIte, hjoined]

/-- A name is known by the units of its characters. -/
theorem eq_of_codeUnits {cs ds : List Char} (h : cs.flatMap codeUnits = ds.flatMap codeUnits) :
    cs = ds := by
  have hjoined := congrArg Wording.joinPairs h
  rw [joinPairs_codeUnits, joinPairs_codeUnits] at hjoined
  exact List.map_injective_iff.mpr (fun _ _ => Char.toNat_inj.mp) hjoined

end Text

namespace Json

open Text

theorem unit?_hex {n : Nat} (h : n < 0x10000) : ∃ a b c d, hex 4 n = [a, b, c, d] ∧
    unit? a b c d = some n := by
  refine ⟨_, _, _, _, hex_four h, ?_⟩
  have hvalue : ((n / 16 / 16 / 16 * 16 + n / 16 / 16 % 16) * 16 + n / 16 % 16) * 16 + n % 16 = n := by
    omega
  simp only [unit?, hexValue?_digitChar (show n / 16 / 16 / 16 < 16 by omega),
    hexValue?_digitChar (Nat.mod_lt _ (by omega : 0 < 16)), Option.pure_def, Option.bind_eq_bind,
    Option.bind_some, hvalue]

/-- A numeric escape is read as its unit, if the literal goes on. -/
theorem readString_unit (opening : List Char) {n : Nat} (h : n < 0x10000) {rest : List Char}
    (hrest : rest ≠ []) :
    readString opening (Literal.unit n ++ rest) =
      (readString opening rest).map fun (units, after) => (n :: units, after) := by
  obtain ⟨a, b, c, d, hhex, hunit⟩ := unit?_hex h
  obtain ⟨next, more, rfl⟩ := List.exists_cons_of_ne_nil hrest
  simp only [Literal.unit, hhex, List.cons_append, List.nil_append]
  rw [readString]
  simp only [hunit]

theorem readString_units (opening : List Char) {ns : List Nat} (h : ∀ n ∈ ns, n < 0x10000)
    {rest : List Char} (hrest : rest ≠ []) :
    readString opening (ns.flatMap Literal.unit ++ rest) =
      (readString opening rest).map fun (units, after) => (ns ++ units, after) := by
  induction ns with
  | nil =>
    cases hread : readString opening rest <;> simp [hread, Except.map]
  | cons n ns ih =>
    obtain ⟨hn, hns⟩ := List.forall_mem_cons.mp h
    rw [List.flatMap_cons, List.append_assoc, readString_unit opening hn (by simp [hrest]), ih hns]
    cases readString opening rest <;> rfl

theorem readString_short (opening rest : List Char) {c decoded : Char} (hc : c ≠ 'u')
    (h : shortEscape? c = some decoded) :
    readString opening ('\\' :: c :: rest) =
      (readString opening rest).map fun (units, after) => (decoded.toNat :: units, after) := by
  rw [readString]
  · simp only [h]
  · simp [hc]
  · simp [hc]

theorem readString_plain (opening rest : List Char) {c : Char} (hquote : c ≠ '\x22')
    (hslash : c ≠ '\\') (h : ' ' ≤ c) :
    readString opening (c :: rest) =
      (readString opening rest).map fun (units, after) => (c.toNat :: units, after) := by
  rw [readString]
  · simp [h]
  · simp [hquote]
  · simp [hslash]
  · simp [hslash]
  · simp [hslash]
  · simp [hslash]

/-- The three ways in which a literal holds a character. -/
theorem encodeChar_cases (c : Char) :
    (∃ e, e ≠ 'u' ∧ shortEscape? e = some c ∧ Literal.encodeChar c = ['\\', e]) ∨
    (c ≠ '\x22' ∧ c ≠ '\\' ∧ ' ' ≤ c ∧ c ≤ '~' ∧ Literal.encodeChar c = [c]) ∨
    Literal.encodeChar c = (codeUnits c).flatMap Literal.unit := by
  by_cases hshort : ∃ e, e ≠ 'u' ∧ shortEscape? e = some c ∧ Literal.encodeChar c = ['\\', e]
  · exact .inl hshort
  have hnot : ∀ e d, e ≠ 'u' → shortEscape? e = some d → Literal.encodeChar d = ['\\', e] → c ≠ d := by
    rintro e d he hd hc rfl
    exact hshort ⟨e, he, hd, hc⟩
  have hquote : c ≠ '\x22' := hnot '\x22' _ (by decide) rfl rfl
  have hslash : c ≠ '\\' := hnot '\\' _ (by decide) rfl rfl
  have hn : c ≠ '\n' := hnot 'n' _ (by decide) rfl rfl
  have hr : c ≠ '\r' := hnot 'r' _ (by decide) rfl rfl
  have ht : c ≠ '\t' := hnot 't' _ (by decide) rfl rfl
  have hb : c ≠ '\x08' := hnot 'b' _ (by decide) rfl rfl
  have hf : c ≠ '\x0c' := hnot 'f' _ (by decide) rfl rfl
  have hencode : Literal.encodeChar c =
      if ' ' ≤ c ∧ c ≤ '~' then [c] else (codeUnits c).flatMap Literal.unit := by
    simp [Literal.encodeChar, hquote, hslash, hn, hr, ht, hb, hf, units_eq_flatMap]
  rw [hencode]
  by_cases hrange : ' ' ≤ c ∧ c ≤ '~'
  · exact .inr (.inl ⟨hquote, hslash, hrange.1, hrange.2, if_pos hrange⟩)
  · exact .inr (.inr (if_neg hrange))

theorem le_of_shortEscape? {e c : Char} (h : shortEscape? e = some c) : c ≤ '~' := by
  unfold shortEscape? at h
  split at h <;> cases h <;> decide

theorem codeUnits_of_le {c : Char} (h : c ≤ '~') : codeUnits c = [c.toNat] := by
  have hle : c.toNat ≤ '~'.toNat := h
  exact if_pos (Nat.lt_of_le_of_lt hle (by decide))

/-- An encoded character is read as its units. -/
theorem readString_encodeChar (opening : List Char) (c : Char) {rest : List Char}
    (hrest : rest ≠ []) :
    readString opening (Literal.encodeChar c ++ rest) =
      (readString opening rest).map fun (units, after) => (codeUnits c ++ units, after) := by
  rcases encodeChar_cases c with ⟨e, he, hshort, hc⟩ | ⟨hquote, hslash, hlow, hhigh, hc⟩ | hc
  · rw [hc, codeUnits_of_le (le_of_shortEscape? hshort)]
    exact readString_short opening rest he hshort
  · rw [hc, codeUnits_of_le hhigh]
    exact readString_plain opening rest hquote hslash hlow
  · rw [hc]
    exact readString_units opening (fun n => codeUnits_lt) hrest

theorem readString_encoded (opening cs rest : List Char) :
    readString opening (cs.flatMap Literal.encodeChar ++ '\x22' :: rest) =
      .ok (cs.flatMap codeUnits, rest) := by
  induction cs with
  | nil => rfl
  | cons c cs ih =>
    rw [List.flatMap_cons, List.append_assoc, readString_encodeChar opening c (by simp), ih]
    rfl

end Json

theorem Text.Literal.toList_encode (s : String) :
    (encode s).toList = '\x22' :: (s.toList.flatMap encodeChar ++ ['\x22']) := by
  simp [encode]

/-- What stands behind a literal is told apart from it. -/
theorem Text.Literal.encode_append_inj {s t : String} {rest more : List Char}
    (h : (encode s).toList ++ rest = (encode t).toList ++ more) : s = t ∧ rest = more := by
  rw [toList_encode, toList_encode, List.cons_append, List.cons_append, List.append_assoc,
    List.append_assoc] at h
  have hread := congrArg (Json.readString []) (List.cons.inj h).2
  simp only [List.singleton_append, Json.readString_encoded, Except.ok.injEq,
    Prod.mk.injEq] at hread
  exact ⟨String.toList_inj.mp (eq_of_codeUnits hread.1), hread.2⟩

/-- A literal holds neither a quote nor a backslash that is not escaped, so a reader comes out of it
where it went in. -/
theorem after?_encodeChar (d : Nat) (c : Char) :
    (Place.literal d).after? (Text.Literal.encodeChar c) = some (.literal d) := by
  have hplain : ∀ x : Char, x ≠ '\x22' → x ≠ '\\' →
      (Place.literal d).next? x = some (.literal d) := by
    intro x hquote hslash
    simp [Place.next?, hquote, hslash]
  have hunit : ∀ n < 0x10000, (Place.literal d).after? (Text.Literal.unit n) = some (.literal d) := by
    intro n hn
    have hdigit : ∀ k < 16, (Place.literal d).next? (Nat.digitChar k) = some (.literal d) :=
      fun k hk => hplain _ (Text.digitChar_ne hk).1 (Text.digitChar_ne hk).2
    have hslash : (Place.literal d).next? '\\' = some (.escape d) := rfl
    have hu : (Place.escape d).next? 'u' = some (.literal d) := rfl
    simp only [Text.Literal.unit, Text.hex_four hn, Place.after?_cons, hslash, hu,
      Option.bind_some, hdigit _ (Nat.mod_lt _ (by omega : 0 < 16)),
      hdigit _ (show n / 16 / 16 / 16 < 16 by omega), Place.after?_nil]
  rcases Json.encodeChar_cases c with ⟨e, _, _, hc⟩ | ⟨hquote, hslash, _, _, hc⟩ | hc
  · rw [hc]
    rfl
  · rw [hc, Place.after?_cons, hplain c hquote hslash]
    rfl
  · rw [hc]
    exact Place.after?_flatMap fun n hn => hunit n (Text.codeUnits_lt hn)

theorem balanced_encode (s : String) : Balanced (Text.Literal.encode s).toList := by
  have hbody : (Place.literal 0).after? (s.toList.flatMap Text.Literal.encodeChar) =
      some (.literal 0) := Place.after?_flatMap fun c _ => after?_encodeChar 0 c
  have hopen : Place.top.next? '\x22' = some (.literal 0) := rfl
  rw [Balanced, Text.Literal.toList_encode, Place.after?_cons, hopen, Option.bind_some,
    Place.after?_append, hbody]
  rfl

/-- The characters of a plain name. -/
theorem isPlainName_chars {name : String} (h : isPlainName name = true) :
    (∃ c rest, name.toList = c :: rest ∧ startsName c = true) ∧
      ∀ x ∈ name.toList, continuesName x = true ∨ x = '\n' := by
  unfold isPlainName at h
  cases hname : name.toList with
  | nil => simp [hname] at h
  | cons c rest =>
    simp only [hname, Bool.and_eq_true, Bool.or_eq_true, List.isEmpty_iff, beq_iff_eq] at h
    obtain ⟨hstart, htail⟩ := h
    refine ⟨⟨c, rest, rfl, hstart⟩, ?_⟩
    intro x hx
    rcases List.mem_cons.mp hx with rfl | hx
    · left
      simp only [startsName, continuesName, Char.isAlphanum, Bool.or_eq_true] at hstart ⊢
      tauto
    · rw [← List.takeWhile_append_dropWhile (p := continuesName) (l := rest)] at hx
      rcases List.mem_append.mp hx with hx | hx
      · exact .inl (List.mem_takeWhile_imp hx)
      · rcases htail with htail | htail
        · rw [htail] at hx
          cases hx
        · rw [htail] at hx
          exact .inr (List.mem_singleton.mp hx)

theorem isPlainName_ne {name : String} (h : isPlainName name = true) {x y : Char}
    (hx : x ∈ name.toList) (hy : continuesName y = false) (hline : y ≠ '\n') : x ≠ y := by
  rintro rfl
  rcases (isPlainName_chars h).2 x hx with hc | hc
  · rw [hc] at hy
    cases hy
  · exact hline hc

theorem balanced_printName (name : String) : Balanced (printName name).toList := by
  unfold printName
  split
  · next h =>
    apply Balanced.of_plain
    rw [List.all_eq_true]
    intro x hx
    simp only [isPlainChar, Place.opens, Place.closes, Bool.and_eq_true, Bool.not_eq_true',
      Bool.or_eq_false_iff, beq_eq_false_iff_ne, bne_iff_ne]
    refine ⟨⟨⟨⟨?_, ?_⟩, ?_⟩, ⟨?_, ?_⟩, ?_⟩, ?_⟩ <;> exact isPlainName_ne h hx rfl (by decide)
  · exact balanced_encode name

theorem plainName_ne_encode {name other : String} (h : isPlainName name = true)
    (rest more : List Char) : name.toList ++ rest ≠ (Text.Literal.encode other).toList ++ more := by
  obtain ⟨⟨c, tail, hname, hstart⟩, _⟩ := isPlainName_chars h
  rw [hname, Text.Literal.toList_encode]
  intro heq
  obtain ⟨rfl, _⟩ := List.cons.inj heq
  cases hstart

/-- A colon ends a printed name. -/
theorem printName_append_inj {name other : String} {rest more : List Char}
    (h : (printName name).toList ++ ':' :: rest = (printName other).toList ++ ':' :: more) :
    name = other ∧ rest = more := by
  have hmarks : ∀ s : String, isPlainName s = true → ∀ x ∈ s.toList, ¬IsMarker x := by
    rintro s hs x hx (hmark | hmark | hmark)
    · exact isPlainName_ne hs hx rfl (by decide) hmark
    · exact isPlainName_ne hs hx rfl (by decide) hmark
    · exact isPlainName_ne hs hx rfl (by decide) hmark
  unfold printName at h
  split at h
  · next hname =>
    split at h
    · next hother =>
      obtain ⟨hlist, hrest⟩ := append_marker_inj (hmarks name hname) (hmarks other hother)
        (.inr (.inr rfl)) (.inr (.inr rfl)) h
      exact ⟨String.toList_inj.mp hlist, (List.cons.inj hrest).2⟩
    · exact absurd h (plainName_ne_encode hname _ _)
  · split at h
    · next hother => exact absurd h.symm (plainName_ne_encode hother _ _)
    · obtain ⟨hname, hrest⟩ := Text.Literal.encode_append_inj h
      exact ⟨hname, (List.cons.inj hrest).2⟩

end ScriptTyping
