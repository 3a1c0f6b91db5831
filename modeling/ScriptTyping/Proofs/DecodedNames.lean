import ScriptTyping.Json.Reader
import ScriptTyping.Proofs.PrintedNames

/-! # Names read back

A printed name is a string literal or stands for itself. A literal has printable characters of ASCII
only, whatever the name is, and a reader of JSON gets the name back from it. No plain name looks
like a literal, so a printed name tells the name.
-/
namespace ScriptTyping

section Pattern

/-- The class `[A-Za-z_$]`. -/
def InFirstClass (c : Char) : Prop :=
  ('A' ≤ c ∧ c ≤ 'Z') ∨ ('a' ≤ c ∧ c ≤ 'z') ∨ c = '_' ∨ c = '$'

/-- The class `[A-Za-z0-9_$]`. -/
def InLaterClass (c : Char) : Prop := InFirstClass c ∨ ('0' ≤ c ∧ c ≤ '9')

/-- The names that match `^[A-Za-z_$][A-Za-z0-9_$]*$`. The pattern ends at the end of the name or
before a line end that is the last character. -/
def MatchesIdentifier (name : String) : Prop :=
  ∃ first later ending, name.toList = first :: (later ++ ending) ∧ InFirstClass first ∧
    (∀ c ∈ later, InLaterClass c) ∧ (ending = [] ∨ ending = ['\n'])

theorem startsName_iff (c : Char) : startsName c = true ↔ InFirstClass c := by
  have hupper : c.isUpper = true ↔ 'A' ≤ c ∧ c ≤ 'Z' := decide_eq_true_iff
  have hlower : c.isLower = true ↔ 'a' ≤ c ∧ c ≤ 'z' :=
    Bool.and_eq_true_iff.trans (and_congr decide_eq_true_iff decide_eq_true_iff)
  have halpha : c.isAlpha = true ↔ c.isUpper = true ∨ c.isLower = true := Bool.or_eq_true_iff
  simp only [startsName, InFirstClass, Bool.or_eq_true, beq_iff_eq, halpha, hupper, hlower,
    or_assoc]

theorem continuesName_iff (c : Char) : continuesName c = true ↔ InLaterClass c := by
  have hfirst := startsName_iff c
  simp only [startsName, Bool.or_eq_true, beq_iff_eq] at hfirst
  have hdigit : c.isDigit = true ↔ '0' ≤ c ∧ c ≤ '9' := by
    simp only [Char.isDigit, Bool.and_eq_true, decide_eq_true_eq, Char.le_def, ge_iff_le]
  simp only [continuesName, InLaterClass, Char.isAlphanum, Bool.or_eq_true, beq_iff_eq, ← hfirst,
    ← hdigit]
  tauto

theorem isPlainName_iff (name : String) : isPlainName name = true ↔ MatchesIdentifier name := by
  constructor
  · intro h
    unfold isPlainName at h
    cases hname : name.toList with
    | nil => simp [hname] at h
    | cons c rest =>
      simp only [hname, Bool.and_eq_true, Bool.or_eq_true, List.isEmpty_iff, beq_iff_eq] at h
      refine ⟨c, rest.takeWhile continuesName, rest.dropWhile continuesName, ?_,
        (startsName_iff c).mp h.1, ?_, h.2⟩
      · rw [List.takeWhile_append_dropWhile, hname]
      · intro x hx
        exact (continuesName_iff x).mp (List.mem_takeWhile_imp hx)
  · rintro ⟨first, later, ending, hname, hfirst, hlater, hending⟩
    -- neither the end of the name nor a line end goes on with it
    have hdrop : (later ++ ending).dropWhile continuesName = ending := by
      rw [List.dropWhile_append_of_pos fun x hx => (continuesName_iff x).mpr (hlater x hx)]
      rcases hending with rfl | rfl <;> rfl
    simp only [isPlainName, hname, hdrop, (startsName_iff first).mpr hfirst, Bool.true_and,
      Bool.or_eq_true, List.isEmpty_iff, beq_iff_eq]
    exact hending

end Pattern

section Literals

/-- The printable characters of ASCII. -/
def IsPrintableAscii (c : Char) : Prop := ' ' ≤ c ∧ c ≤ '~'

instance (c : Char) : Decidable (IsPrintableAscii c) := inferInstanceAs (Decidable (_ ∧ _))

theorem printableAscii_digitChar {d : Nat} (h : d < 16) : IsPrintableAscii (Nat.digitChar d) := by
  interval_cases d <;> decide

theorem printableAscii_unit {n : Nat} (h : n < 0x10000) :
    ∀ c ∈ Text.Literal.unit n, IsPrintableAscii c := by
  have hdigit : ∀ d, IsPrintableAscii (Nat.digitChar (d % 16)) :=
    fun d => printableAscii_digitChar (Nat.mod_lt _ (by omega))
  have hfirst : IsPrintableAscii (Nat.digitChar (n / 16 / 16 / 16)) :=
    printableAscii_digitChar (by omega)
  have hslash : IsPrintableAscii '\\' := by decide
  have hu : IsPrintableAscii 'u' := by decide
  simp only [Text.Literal.unit, Text.hex_four h, List.forall_mem_cons]
  exact ⟨hslash, hu, hfirst, hdigit _, hdigit _, hdigit _, List.forall_mem_nil _⟩

theorem printableAscii_of_shortEscape? {e c : Char} (h : Json.shortEscape? e = some c) :
    IsPrintableAscii e := by
  unfold Json.shortEscape? at h
  split at h <;> cases h <;> decide

theorem printableAscii_encodeChar (c : Char) :
    ∀ x ∈ Text.Literal.encodeChar c, IsPrintableAscii x := by
  rcases Json.encodeChar_cases c with ⟨e, _, hshort, hc⟩ | ⟨_, _, hlow, hhigh, hc⟩ | hc
  · have hslash : IsPrintableAscii '\\' := by decide
    simpa [hc, hslash] using printableAscii_of_shortEscape? hshort
  · have hplain : IsPrintableAscii c := ⟨hlow, hhigh⟩
    simpa [hc] using hplain
  · intro x hx
    rw [hc] at hx
    obtain ⟨n, hn, hx⟩ := List.mem_flatMap.mp hx
    exact printableAscii_unit (Text.codeUnits_lt hn) x hx

theorem printableAscii_encode (s : String) :
    ∀ c ∈ (Text.Literal.encode s).toList, IsPrintableAscii c := by
  have hquote : IsPrintableAscii '\x22' := by decide
  intro c hc
  rw [Text.Literal.toList_encode, List.mem_cons, List.mem_append, List.mem_singleton,
    List.mem_flatMap] at hc
  rcases hc with rfl | ⟨x, _, hx⟩ | rfl
  · exact hquote
  · exact printableAscii_encodeChar x c hx
  · exact hquote

/-- The units of a text are joined to the text. -/
theorem Wording.ofUnits_codeUnits (s : String) :
    Wording.ofUnits (s.toList.flatMap Text.codeUnits) = .plain s := by
  have hpaired : (s.toList.map Char.toNat).any Wording.isSurrogate = false := by
    rw [List.any_eq_false]
    intro n hn
    obtain ⟨c, _, rfl⟩ := List.mem_map.mp hn
    have hc := Text.toNat_valid c
    simp only [Wording.isSurrogate, Wording.isHighSurrogate, Wording.isLowSurrogate,
      Bool.or_eq_true, Bool.and_eq_true, decide_eq_true_eq]
    omega
  have hchars : (s.toList.map Char.toNat).map Char.ofNat = s.toList := by
    rw [List.map_map]
    exact List.map_id'' Char.ofNat_toNat s.toList
  rw [Wording.ofUnits, Text.joinPairs_codeUnits, Wording.ofPoints, hpaired, hchars]
  simp

theorem Json.read_encode (s : String) :
    Json.read (Text.Literal.encode s) = .ok (.string (.plain s)) := by
  have hvalue : ∀ fuel, Json.readValue (fuel + 1) (Text.Literal.encode s).toList =
      .ok (.string (.plain s), []) := by
    intro fuel
    rw [Text.Literal.toList_encode, Json.readValue]
    simp only [Json.readString_encoded, Except.map, Wording.ofUnits_codeUnits]
  have hblanks : Json.skipBlanks (Text.Literal.encode s).toList =
      (Text.Literal.encode s).toList := by
    rw [Text.Literal.toList_encode]
    rfl
  have hmark : ((Text.Literal.encode s).toList.head? == some '\ufeff') = false := by
    rw [Text.Literal.toList_encode]
    rfl
  rw [Json.read, Json.readText, hmark, hblanks, hvalue]
  rfl

end Literals

/-- The text that a printed name stands for: a JSON literal if it starts with a quote, and otherwise
itself. -/
def readName? (printed : String) : Option String :=
  if printed.toList.head? = some '\x22' then
    match Json.read printed with
    | .ok (.string (.plain s)) => some s
    | _ => none
  else some printed

theorem head?_plainName {name : String} (h : isPlainName name = true) :
    name.toList.head? ≠ some '\x22' := by
  obtain ⟨⟨c, rest, hname, hstart⟩, _⟩ := isPlainName_chars h
  rw [hname, List.head?_cons]
  rintro ⟨⟩
  cases hstart

theorem head?_encode (s : String) : (Text.Literal.encode s).toList.head? = some '\x22' := by
  rw [Text.Literal.toList_encode, List.head?_cons]

theorem readName?_printName (name : String) : readName? (printName name) = some name := by
  unfold printName
  split
  · next h => rw [readName?, if_neg (head?_plainName h)]
  · rw [readName?, if_pos (head?_encode name), Json.read_encode]

theorem head?_printName_iff (name : String) :
    (printName name).toList.head? = some '\x22' ↔ ¬MatchesIdentifier name := by
  rw [← isPlainName_iff, printName]
  split
  · next h => exact iff_of_false (head?_plainName h) (not_not_intro h)
  · next h => exact iff_of_true (head?_encode name) h

/-- A printed name is read back as the name. It is a literal exactly if the name does not match the
identifier pattern, and a literal has printable characters of ASCII only. So no two names are
printed alike. -/
theorem printed_name_reads_back :
    (∀ name, readName? (printName name) = some name ∧
      ((printName name).toList.head? = some '\x22' ↔ ¬MatchesIdentifier name) ∧
      (¬MatchesIdentifier name → ∀ c ∈ (printName name).toList, IsPrintableAscii c)) ∧
    Function.Injective printName := by
  refine ⟨fun name => ⟨readName?_printName name, head?_printName_iff name, ?_⟩, ?_⟩
  · intro h
    rw [printName, if_neg (mt (isPlainName_iff name).mp h)]
    exact printableAscii_encode name
  · intro first second h
    have hread := readName?_printName first
    rw [h, readName?_printName second] at hread
    exact (Option.some.inj hread).symm

/-- A name with a quote, a delete character, a letter beyond ASCII and a character beyond U+FFFF. -/
theorem printed_name_reads_back_delete :
    ¬MatchesIdentifier "a\x22\x7fé😀" ∧
    (∀ c ∈ (printName "a\x22\x7fé😀").toList, IsPrintableAscii c) ∧
    readName? (printName "a\x22\x7fé😀") = some "a\x22\x7fé😀" := by
  have hname : ¬MatchesIdentifier "a\x22\x7fé😀" := by
    rw [← isPlainName_iff]
    decide
  obtain ⟨hread, -, hascii⟩ := printed_name_reads_back.1 "a\x22\x7fé😀"
  exact ⟨hname, hascii hname, hread⟩

end ScriptTyping
