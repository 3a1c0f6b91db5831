import ScriptTyping.Proofs.DecodedNames
import ScriptTyping.Proofs.ResemblingNodes
import ScriptTyping.Proofs.Runs

/-! # String keys

A string of a script is a sequence of UTF-16 units, and a literal spells it with escape sequences.
As a key a literal is taken without its quotes, and its escape sequences are left as they are. So the
printed name denotes the content of the literal, which is the string only if nothing in it is
escaped.
-/
namespace ScriptTyping

namespace ScriptString

/-- The UTF-16 units of a code point. -/
def pointUnits (n : Nat) : List Nat :=
  if n < 0x10000 then [n]
  else [0xD800 + (n - 0x10000) / 0x400, 0xDC00 + (n - 0x10000) % 0x400]

/-- The characters that end a line of a script. -/
def endsLine (c : Char) : Bool :=
  c == '\n' || c == '\r' || c == '\u2028' || c == '\u2029'

/-- What a character behind a backslash stands for if it starts no longer sequence. -/
def escaped (c : Char) : Char :=
  match c with
  | 'b' => '\x08'
  | 't' => '\t'
  | 'n' => '\n'
  | 'v' => '\x0b'
  | 'f' => '\x0c'
  | 'r' => '\r'
  | c => c

def isOctalDigit (c : Char) : Bool := '0' ≤ c && c ≤ '7'

/-- An octal escape has up to three digits and stands for a number below 256. -/
def octalEscape (first : Char) (rest : List Char) : List Nat × List Char :=
  let more := (rest.take (if first ≤ '3' then 2 else 1)).takeWhile isOctalDigit
  ([(first :: more).foldl (fun n c => 8 * n + (c.toNat - '0'.toNat)) 0], rest.drop more.length)

/-- Two hexadecimal digits. -/
def hexEscape? : List Char → Option (List Nat × List Char)
  | a :: b :: rest => (Json.unit? '0' '0' a b).map fun n => ([n], rest)
  | _ => none

/-- The digits of a code point up to the closing brace. -/
def pointEscape? (cs : List Char) : Option (List Nat × List Char) :=
  let digits := cs.takeWhile fun c => (Text.hexValue? c).isSome
  let after := cs.drop digits.length
  if after.head? = some '\x7d' then
    ((Numeral.natural? 16 digits).filter (· ≤ 0x10FFFF)).map fun n => (pointUnits n, after.tail)
  else none

/-- Four hexadecimal digits, or any number of them in braces. -/
def unicodeEscape? : List Char → Option (List Nat × List Char)
  | '\x7b' :: rest => pointEscape? rest
  | a :: b :: c :: d :: rest => (Json.unit? a b c d).map fun n => ([n], rest)
  | _ => none

/-- The units that the sequence behind a backslash stands for, and the text after it. The end of a
line stands for nothing. -/
def escape? : List Char → Option (List Nat × List Char)
  | [] => none
  | c :: rest =>
    if endsLine c then
      some ([], if c == '\r' && rest.head? == some '\n' then rest.tail else rest)
    else if c == 'x' then hexEscape? rest
    else if c == 'u' then unicodeEscape? rest
    else if isOctalDigit c then some (octalEscape c rest)
    else some (Text.codeUnits (escaped c), rest)

section Lengths

/-- The number of units of a text. -/
def width (cs : List Char) : Nat := (cs.flatMap Text.codeUnits).length

theorem one_le_length_codeUnits (c : Char) : 1 ≤ (Text.codeUnits c).length := by
  unfold Text.codeUnits
  split <;> simp

theorem width_cons (c : Char) (cs : List Char) :
    width (c :: cs) = (Text.codeUnits c).length + width cs := by
  rw [width, List.flatMap_cons, List.length_append, width]

theorem width_append (cs ds : List Char) : width (cs ++ ds) = width cs + width ds := by
  rw [width, List.flatMap_append, List.length_append, width, width]

theorem length_le_width (cs : List Char) : cs.length ≤ width cs := by
  induction cs with
  | nil => exact Nat.zero_le _
  | cons c cs ih =>
    have hc := one_le_length_codeUnits c
    rw [width_cons, List.length_cons]
    omega

theorem length_codeUnits_escaped (c : Char) :
    (Text.codeUnits (escaped c)).length ≤ (Text.codeUnits c).length := by
  unfold escaped
  split <;> exact le_rfl

theorem length_pointUnits (n : Nat) : (pointUnits n).length ≤ 2 := by
  unfold pointUnits
  split <;> simp

/-- What follows the first character of a sequence takes, with that character, at least as many
characters as it gives units. -/
def Shrinks (cs : List Char) (read : List Nat × List Char) : Prop :=
  ∃ taken, cs = taken ++ read.2 ∧ read.1.length ≤ taken.length + 1

theorem hexEscape?_shrinks {cs : List Char} {read : List Nat × List Char}
    (h : hexEscape? cs = some read) : Shrinks cs read := by
  unfold hexEscape? at h
  split at h
  · next a b rest =>
    obtain ⟨n, -, rfl⟩ := Option.map_eq_some_iff.mp h
    exact ⟨[a, b], rfl, by simp⟩
  · cases h

theorem pointEscape?_shrinks {cs : List Char} {read : List Nat × List Char}
    (h : pointEscape? cs = some read) : Shrinks cs read := by
  simp only [pointEscape?] at h
  generalize hdigits : cs.takeWhile (fun c => (Text.hexValue? c).isSome) = digits at h
  have hcs : cs = digits ++ cs.drop digits.length := by
    rw [← hdigits]
    exact (List.prefix_iff_eq_append.mp (List.takeWhile_prefix _)).symm
  split at h
  · next hbrace =>
    obtain ⟨n, -, rfl⟩ := Option.map_eq_some_iff.mp h
    obtain ⟨rest, hrest⟩ := List.head?_eq_some_iff.mp hbrace
    refine ⟨digits ++ ['\x7d'], ?_, ?_⟩
    · rw [hrest] at hcs ⊢
      rw [hcs]
      simp
    · rw [List.length_append, List.length_singleton]
      exact (length_pointUnits n).trans (Nat.le_add_left 2 _)
  · cases h

theorem unicodeEscape?_shrinks {cs : List Char} {read : List Nat × List Char}
    (h : unicodeEscape? cs = some read) : Shrinks cs read := by
  unfold unicodeEscape? at h
  split at h
  · next rest =>
    obtain ⟨taken, hrest, hlength⟩ := pointEscape?_shrinks h
    refine ⟨'\x7b' :: taken, by rw [hrest]; rfl, ?_⟩
    rw [List.length_cons]
    omega
  · next a b c d rest _ =>
    obtain ⟨n, -, rfl⟩ := Option.map_eq_some_iff.mp h
    exact ⟨[a, b, c, d], rfl, by simp⟩
  · cases h

theorem octalEscape_shrinks (first : Char) (rest : List Char) :
    Shrinks rest (octalEscape first rest) := by
  refine ⟨(rest.take (if first ≤ '3' then 2 else 1)).takeWhile isOctalDigit, ?_, ?_⟩
  · have hprefix : (rest.take (if first ≤ '3' then 2 else 1)).takeWhile isOctalDigit <+: rest :=
      (List.takeWhile_prefix _).trans (List.take_prefix _ _)
    exact (List.prefix_iff_eq_append.mp hprefix).symm
  · exact Nat.le_add_left 1 _

/-- A sequence behind a backslash has no fewer units than it stands for. -/
theorem escape?_shrinks {cs after : List Char} {units : List Nat}
    (h : escape? cs = some (units, after)) :
    ∃ taken, cs = taken ++ after ∧ units.length ≤ width taken := by
  cases cs with
  | nil => cases h
  | cons c rest =>
    have hlonger : Shrinks rest (units, after) →
        ∃ taken, c :: rest = taken ++ after ∧ units.length ≤ width taken := by
      rintro ⟨taken, hrest, hlength⟩
      refine ⟨c :: taken, by rw [hrest]; rfl, ?_⟩
      exact hlength.trans (length_le_width (c :: taken))
    rw [escape?] at h
    split at h
    · obtain ⟨rfl, hafter⟩ := Prod.mk.inj (Option.some.inj h)
      refine hlonger ?_
      split at hafter
      · next hbreak =>
        rw [Bool.and_eq_true, beq_iff_eq, beq_iff_eq] at hbreak
        obtain ⟨tail, rfl⟩ := List.head?_eq_some_iff.mp hbreak.2
        exact ⟨['\n'], by rw [← hafter]; rfl, Nat.zero_le _⟩
      · exact ⟨[], hafter, Nat.zero_le _⟩
    split at h
    · exact hlonger (hexEscape?_shrinks h)
    split at h
    · exact hlonger (unicodeEscape?_shrinks h)
    split at h
    · exact hlonger (Option.some.inj h ▸ octalEscape_shrinks c rest)
    · obtain ⟨rfl, rfl⟩ := Prod.mk.inj (Option.some.inj h)
      refine ⟨[c], rfl, ?_⟩
      rw [width_cons]
      exact (length_codeUnits_escaped c).trans (Nat.le_add_right _ _)

end Lengths

/-- The units of what stands between the quotes of a literal. -/
def bodyUnits? (quote : Char) : List Char → Option (List Nat)
  | [] => some []
  | c :: rest =>
    if c = '\\' then
      match _hread : escape? rest with
      | some (units, after) => (bodyUnits? quote after).map (units ++ ·)
      | none => none
    else if c = quote ∨ c = '\n' ∨ c = '\r' then none
    else (bodyUnits? quote rest).map (Text.codeUnits c ++ ·)
termination_by cs => cs.length
decreasing_by
  · obtain ⟨taken, rfl, _⟩ := escape?_shrinks _hread
    simp only [List.length_append, List.length_cons]
    omega
  · exact Nat.lt_succ_self _

/-- The units of the string that a literal in single or double quotes stands for. -/
def literalUnits? (text : List Char) : Option (List Nat) :=
  match text with
  | [] => none
  | quote :: rest =>
    if (quote = '\x27' ∨ quote = '\x22') ∧ rest.getLast? = some quote then
      bodyUnits? quote rest.dropLast
    else none

section Bodies

variable {quote : Char}

theorem bodyUnits?_nil : bodyUnits? quote [] = some [] := by
  rw [bodyUnits?]

theorem bodyUnits?_escape {rest after : List Char} {units : List Nat}
    (h : escape? rest = some (units, after)) :
    bodyUnits? quote ('\\' :: rest) = (bodyUnits? quote after).map (units ++ ·) := by
  rw [bodyUnits?, if_pos rfl]
  split
  · next hread =>
    rw [h] at hread
    cases hread
    rfl
  · next hread =>
    rw [h] at hread
    cases hread

theorem bodyUnits?_plain {c : Char} (hslash : c ≠ '\\') (hquote : c ≠ quote) (hline : c ≠ '\n')
    (hreturn : c ≠ '\r') (rest : List Char) :
    bodyUnits? quote (c :: rest) = (bodyUnits? quote rest).map (Text.codeUnits c ++ ·) := by
  rw [bodyUnits?, if_neg hslash, if_neg (by simp [hquote, hline, hreturn])]

/-- The two ways in which a body that spells a string starts. -/
theorem bodyUnits?_cons {c : Char} {rest : List Char} {units : List Nat}
    (h : bodyUnits? quote (c :: rest) = some units) :
    (∃ read after more, c = '\\' ∧ escape? rest = some (read, after) ∧
      bodyUnits? quote after = some more ∧ units = read ++ more) ∨
    (∃ more, c ≠ '\\' ∧ c ≠ '\n' ∧ bodyUnits? quote rest = some more ∧
      units = Text.codeUnits c ++ more) := by
  rw [bodyUnits?] at h
  split at h
  · next hc =>
    split at h
    · next read after hread =>
      obtain ⟨more, hmore, rfl⟩ := Option.map_eq_some_iff.mp h
      exact .inl ⟨read, after, more, hc, hread, hmore, rfl⟩
    · cases h
  · next hc =>
    split at h
    · cases h
    · next hplain =>
      obtain ⟨more, hmore, rfl⟩ := Option.map_eq_some_iff.mp h
      exact .inr ⟨more, hc, fun hline => hplain (.inr (.inl hline)), hmore, rfl⟩

/-- A body without escapes spells itself, and any other one spells a string with fewer units. -/
theorem bodyUnits?_cases {cs : List Char} {units : List Nat}
    (h : bodyUnits? quote cs = some units) :
    ('\\' ∉ cs ∧ '\n' ∉ cs ∧ units = cs.flatMap Text.codeUnits) ∨
    ('\\' ∈ cs ∧ units.length < width cs) := by
  -- by induction on the length, since an escape takes any number of characters
  induction hlength : cs.length using Nat.strong_induction_on generalizing cs units with
  | _ n ih =>
    cases cs with
    | nil =>
      rw [bodyUnits?_nil] at h
      exact .inl ⟨List.not_mem_nil, List.not_mem_nil, (Option.some.inj h).symm⟩
    | cons c rest =>
      rcases bodyUnits?_cons h with ⟨read, after, more, rfl, hread, hmore, rfl⟩ |
        ⟨more, hc, hline, hmore, rfl⟩
      · right
        obtain ⟨taken, rfl, hread⟩ := escape?_shrinks hread
        have hshorter : after.length < n := by
          rw [← hlength, List.length_cons, List.length_append]
          omega
        have hafter : more.length ≤ width after := by
          rcases ih after.length hshorter hmore rfl with ⟨-, -, rfl⟩ | ⟨-, hlt⟩
          · exact le_rfl
          · exact hlt.le
        have hslash := one_le_length_codeUnits '\\'
        refine ⟨List.mem_cons_self, ?_⟩
        rw [width_cons, width_append, List.length_append]
        omega
      · have hshorter : rest.length < n := hlength ▸ Nat.lt_succ_self _
        rcases ih rest.length hshorter hmore rfl with ⟨hslash, hbreak, rfl⟩ | ⟨hslash, hlt⟩
        · left
          refine ⟨?_, ?_, List.flatMap_cons.symm⟩
          · exact List.not_mem_cons_of_ne_of_not_mem (Ne.symm hc) hslash
          · exact List.not_mem_cons_of_ne_of_not_mem (Ne.symm hline) hbreak
        · right
          refine ⟨List.mem_cons_of_mem c hslash, ?_⟩
          rw [width_cons, List.length_append]
          omega

end Bodies

section Printed

theorem escape?_short {e c : Char} (he : e ≠ 'u') (h : Json.shortEscape? e = some c)
    (rest : List Char) : escape? (e :: rest) = some (Text.codeUnits c, rest) := by
  unfold Json.shortEscape? at h
  split at h <;> cases h <;> rfl

theorem escape?_unit {n : Nat} (h : n < 0x10000) (rest : List Char) :
    escape? ('u' :: Text.hex 4 n ++ rest) = some ([n], rest) := by
  obtain ⟨a, b, c, d, hhex, hunit⟩ := Json.unit?_hex h
  have hbrace : Text.hexValue? '\x7b' = none := rfl
  have ha : a ≠ '\x7b' := by
    rintro rfl
    simp [Json.unit?, hbrace] at hunit
  have hread : unicodeEscape? (a :: b :: c :: d :: rest) = some ([n], rest) := by
    rw [unicodeEscape?, hunit, Option.map_some]
    simp [ha]
  rw [hhex]
  exact hread

theorem bodyUnits?_units {ns : List Nat} (h : ∀ n ∈ ns, n < 0x10000) (rest : List Char) :
    bodyUnits? '\x22' (ns.flatMap Text.Literal.unit ++ rest) =
      (bodyUnits? '\x22' rest).map (ns ++ ·) := by
  induction ns with
  | nil => simp
  | cons n ns ih =>
    obtain ⟨hn, hns⟩ := List.forall_mem_cons.mp h
    have hread := escape?_unit hn (ns.flatMap Text.Literal.unit ++ rest)
    rw [List.flatMap_cons, List.append_assoc, Text.Literal.unit, List.cons_append,
      bodyUnits?_escape hread, ih hns, Option.map_map]
    rfl

/-- An encoded character is read as its units. -/
theorem bodyUnits?_encodeChar (c : Char) (rest : List Char) :
    bodyUnits? '\x22' (Text.Literal.encodeChar c ++ rest) =
      (bodyUnits? '\x22' rest).map (Text.codeUnits c ++ ·) := by
  rcases Json.encodeChar_cases c with ⟨e, he, hshort, hc⟩ | ⟨hquote, hslash, hlow, hhigh, hc⟩ | hc
  · rw [hc]
    exact bodyUnits?_escape (escape?_short he hshort rest)
  · rw [hc]
    have hcontrol : ∀ x : Char, x < ' ' → c ≠ x := by
      rintro x hx rfl
      exact Char.not_le.mpr hx hlow
    have hline := hcontrol '\n' (by decide)
    have hreturn := hcontrol '\r' (by decide)
    exact bodyUnits?_plain hslash hquote hline hreturn rest
  · rw [hc]
    exact bodyUnits?_units (fun n => Text.codeUnits_lt) rest

theorem bodyUnits?_encoded (cs : List Char) :
    bodyUnits? '\x22' (cs.flatMap Text.Literal.encodeChar) = some (cs.flatMap Text.codeUnits) := by
  induction cs with
  | nil => exact bodyUnits?_nil
  | cons c cs ih =>
    rw [List.flatMap_cons, bodyUnits?_encodeChar, ih, Option.map_some, List.flatMap_cons]

theorem literalUnits?_encode (s : String) :
    literalUnits? (Text.Literal.encode s).toList = some (s.toList.flatMap Text.codeUnits) := by
  have hlast : (s.toList.flatMap Text.Literal.encodeChar ++ ['\x22']).getLast? = some '\x22' :=
    List.getLast?_concat
  rw [Text.Literal.toList_encode, literalUnits?, if_pos ⟨.inr rfl, hlast⟩, List.dropLast_concat,
    bodyUnits?_encoded]

/-- The units of the name that a printed name denotes in a type: those of a string literal, or of an
identifier. -/
def nameUnits? (printed : String) : Option (List Nat) :=
  if printed.toList.head? = some '\x22' then literalUnits? printed.toList
  else if printed.toList.head?.any startsName && printed.toList.all continuesName then
    some (printed.toList.flatMap Text.codeUnits)
  else none

/-- A printed name denotes the name, unless the name is an identifier with a line end behind it. -/
theorem nameUnits?_printName (name : String) (h : '\n' ∉ name.toList ∨ '\\' ∈ name.toList) :
    nameUnits? (printName name) = some (name.toList.flatMap Text.codeUnits) := by
  unfold printName
  split
  · next hplain =>
    have hslash : '\\' ∉ name.toList := fun hmem => isPlainName_ne hplain hmem rfl (by decide) rfl
    have hline : '\n' ∉ name.toList := h.resolve_right hslash
    obtain ⟨⟨c, rest, hname, hstart⟩, hchars⟩ := isPlainName_chars hplain
    have hfirst : name.toList.head?.any startsName = true := by
      rw [hname]
      exact hstart
    have hall : name.toList.all continuesName = true := by
      rw [List.all_eq_true]
      intro x hx
      refine (hchars x hx).resolve_right ?_
      rintro rfl
      exact hline hx
    rw [nameUnits?, if_neg (head?_plainName hplain), hfirst, hall]
    rfl
  · rw [nameUnits?, if_pos (head?_encode name), literalUnits?_encode]

end Printed

theorem literalUnits?_cases {text : List Char} {units : List Nat}
    (h : literalUnits? text = some units) :
    ∃ quote body, (quote = '\x27' ∨ quote = '\x22') ∧ text = quote :: (body ++ [quote]) ∧
      bodyUnits? quote body = some units := by
  cases text with
  | nil => cases h
  | cons quote rest =>
    rw [literalUnits?] at h
    split at h
    · next hquoted =>
      obtain ⟨body, rfl⟩ := List.getLast?_eq_some_iff.mp hquoted.2
      rw [List.dropLast_concat] at h
      exact ⟨quote, body, hquoted.1, rfl, h⟩
    · cases h

theorem unquote_literal {text : String} {quote : Char} {body : List Char}
    (hquote : quote = '\x27' ∨ quote = '\x22') (htext : text.toList = quote :: (body ++ [quote])) :
    Reading.unquote text = String.ofList body := by
  obtain ⟨d, rest, hrest⟩ := List.exists_cons_of_ne_nil (List.concat_ne_nil quote body)
  have hlast : (d :: rest).getLast? = some quote := by rw [← hrest, List.getLast?_concat]
  have hbody : (d :: rest).dropLast = body := by rw [← hrest, List.dropLast_concat]
  have hquoted : ((quote == '\x27' || quote == '\x22') && (d :: rest).getLast? == some quote) =
      true := by
    rw [hlast]
    simpa using hquote
  simp only [Reading.unquote, htext, hrest, hquoted, hbody, ↓reduceIte]

theorem keyName?_string {n : Node} (h : n.kind = "string") :
    Reading.keyName? (some n.asChild) = some (Reading.unquote n.label.text) := by
  have hkind : n.asChild.label.kind = "string" := h
  simp only [Reading.keyName?, Option.bind_some, hkind]
  rfl

end ScriptString

open ScriptString

/-- The name that is printed for a string key denotes what stands between the quotes of the literal.
This is the string of the literal exactly if the literal has no escape sequence. -/
theorem string_key_keeps_meaning_iff {n : Node} {units : List Nat} (hkind : n.kind = "string")
    (hliteral : literalUnits? n.label.text.toList = some units) :
    ∃ name, Reading.keyName? (some n.asChild) = some name ∧
      nameUnits? (printName name) = some (name.toList.flatMap Text.codeUnits) ∧
      (nameUnits? (printName name) = some units ↔ '\\' ∉ n.label.text.toList) := by
  obtain ⟨quote, body, hquote, htext, hbody⟩ := literalUnits?_cases hliteral
  have hkey : Reading.keyName? (some n.asChild) = some (String.ofList body) := by
    rw [← unquote_literal hquote htext]
    exact keyName?_string hkind
  have hslash : '\\' ∈ n.label.text.toList ↔ '\\' ∈ body := by
    rw [htext]
    rcases hquote with rfl | rfl <;> simp
  have hcases := bodyUnits?_cases hbody
  have hdenotes : nameUnits? (printName (String.ofList body)) =
      some (body.flatMap Text.codeUnits) := by
    have hline : '\n' ∉ body ∨ '\\' ∈ body := hcases.imp (fun h => h.2.1) (fun h => h.1)
    have hread := nameUnits?_printName (String.ofList body) (by rwa [String.toList_ofList])
    rwa [String.toList_ofList] at hread
  refine ⟨String.ofList body, hkey, by rw [hdenotes, String.toList_ofList], ?_⟩
  rw [hdenotes, hslash, Option.some.injEq]
  rcases hcases with ⟨hplain, -, rfl⟩ | ⟨hescaped, hshorter⟩
  · exact iff_of_true rfl hplain
  · -- the content of an escaped literal has more units than its string
    refine iff_of_false ?_ (not_not_intro hescaped)
    rintro rfl
    exact absurd hshorter (lt_irrefl _)

/-- The other quote and characters beyond ASCII need no escape in a literal. -/
theorem string_key_keeps_meaning_unescaped :
    (Node.leaf "string" "'é\x22😀'").kind = "string" ∧
    literalUnits? (Node.leaf "string" "'é\x22😀'").label.text.toList =
      some [0xE9, 0x22, 0xD83D, 0xDE00] ∧
    ∃ name, Reading.keyName? (some (Node.leaf "string" "'é\x22😀'").asChild) = some name ∧
      nameUnits? (printName name) = some [0xE9, 0x22, 0xD83D, 0xDE00] := by
  have hliteral : literalUnits? (Node.leaf "string" "'é\x22😀'").label.text.toList =
      some [0xE9, 0x22, 0xD83D, 0xDE00] := by decide +kernel
  obtain ⟨name, hname, -, hmeaning⟩ := string_key_keeps_meaning_iff rfl hliteral
  exact ⟨rfl, hliteral, name, hname, hmeaning.mpr (by decide +kernel)⟩

/-- The backslash of an escaped quote becomes a character of the name. -/
theorem string_key_keeps_backslash :
    literalUnits? "'it\\'s'".toList = some ("it's".toList.flatMap Text.codeUnits) ∧
    Reading.keyName? (some (Node.leaf "string" "'it\\'s'").asChild) = some "it\\'s" ∧
    nameUnits? (printName "it\\'s") = some ("it\\'s".toList.flatMap Text.codeUnits) ∧
    nameUnits? (printName "it\\'s") ≠ literalUnits? "'it\\'s'".toList := by
  decide +kernel

end ScriptTyping
