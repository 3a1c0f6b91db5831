import Mathlib.Data.List.Forall2
import Mathlib.Data.Nat.Digits.Defs
import Mathlib.Tactic.IntervalCases
import ScriptTyping.Tree.Reading

/-! # Integer keys

An integer literal may be written in four bases, with letters of either case as digits, with zeros
before the digits of a marked base and with separators anywhere. As a key it names one property: the
decimal form of its number.
-/
namespace ScriptTyping.Numeral

section Spellings

/-- The digits of a base. Those from ten on are letters of either case. -/
def IsDigit (base : Nat) (c : Char) (d : Nat) : Prop :=
  d < base ∧ (c = Nat.digitChar d ∨ c = (Nat.digitChar d).toUpper)

/-- The letters that mark a base after a zero. -/
def baseMarks : List (Char × Nat) :=
  [('x', 16), ('X', 16), ('o', 8), ('O', 8), ('b', 2), ('B', 2)]

/-- The integer literals of a number, separators apart. A decimal one has no leading zeros. -/
inductive Spells : Nat → List Char → Prop
  | decimal {cs : List Char} {ds : List Nat} (hdigits : List.Forall₂ (IsDigit 10) cs ds)
      (hne : ds ≠ []) (hlead : ds.head? = some 0 → ds = [0]) :
      Spells (Nat.ofDigits 10 ds.reverse) cs
  | marked {mark : Char} {base : Nat} {cs : List Char} {ds : List Nat}
      (hmark : (mark, base) ∈ baseMarks) (hdigits : List.Forall₂ (IsDigit base) cs ds)
      (hne : ds ≠ []) : Spells (Nat.ofDigits base ds.reverse) ('0' :: mark :: cs)

/-- The texts that come from a text by inserting separators at any places. -/
inductive Separated : List Char → List Char → Prop
  | nil : Separated [] []
  | char (c : Char) {cs text : List Char} (h : Separated cs text) : Separated (c :: cs) (c :: text)
  | separator {cs text : List Char} (h : Separated cs text) : Separated cs ('_' :: text)

theorem Separated.filter_eq {cs text : List Char} (h : Separated cs text) (hcs : '_' ∉ cs) :
    text.filter (· != '_') = cs := by
  induction h with
  | nil => rfl
  | char c h ih =>
    rw [List.mem_cons, not_or] at hcs
    rw [List.filter_cons_of_pos (by simpa using Ne.symm hcs.1), ih hcs.2]
  | separator h ih => rw [List.filter_cons_of_neg (by simp), ih hcs]

end Spellings

section Digits

theorem digitValue?_of_isDigit {base d : Nat} {c : Char} (hbase : base ≤ 16)
    (h : IsDigit base c d) : digitValue? base c = some d := by
  obtain ⟨hd, hc⟩ := h
  have hfilter : digitValue? base c = (some d).filter (· < base) := by
    have hsmall : d < 16 := by omega
    clear hd hbase
    interval_cases d <;> rcases hc with rfl | rfl <;> rfl
  rw [hfilter, Option.filter_some, if_pos (by simpa using hd)]

theorem isAlphanum_of_isDigit {base d : Nat} {c : Char} (hbase : base ≤ 16)
    (h : IsDigit base c d) : c.isAlphanum = true := by
  obtain ⟨hd, hc⟩ := h
  have hsmall : d < 16 := by omega
  clear hd hbase
  interval_cases d <;> rcases hc with rfl | rfl <;> rfl

theorem isDigit_of_isDigit {d : Nat} {c : Char} (h : IsDigit 10 c d) : c.isDigit = true := by
  obtain ⟨hd, hc⟩ := h
  interval_cases d <;> rcases hc with rfl | rfl <;> rfl

theorem forall_of_digits {base : Nat} {cs : List Char} {ds : List Nat} {p : Char → Prop}
    (hp : ∀ c d, IsDigit base c d → p c) (h : List.Forall₂ (IsDigit base) cs ds) :
    ∀ c ∈ cs, p c := by
  induction h with
  | nil => exact List.forall_mem_nil p
  | cons hc _ ih => exact List.forall_mem_cons.mpr ⟨hp _ _ hc, ih⟩

theorem accumulate_digits {base : Nat} {cs : List Char} {ds : List Nat} (hbase : base ≤ 16)
    (h : List.Forall₂ (IsDigit base) cs ds) (n : Nat) :
    accumulate base n cs = some (ds.foldl (fun n d => base * n + d) n) := by
  induction h generalizing n with
  | nil => rfl
  | cons hc _ ih =>
    rw [accumulate, digitValue?_of_isDigit hbase hc, Option.bind_some, ih, List.foldl_cons]

theorem ofDigits_reverse_eq_foldl (base : Nat) (ds : List Nat) :
    Nat.ofDigits base ds.reverse = ds.foldl (fun n d => base * n + d) 0 := by
  rw [Nat.ofDigits_eq_foldr, List.foldr_reverse]
  simp only [Nat.cast_id, Nat.add_comm]

/-- Digits read from the left spell their number in the base. -/
theorem natural?_digits {base : Nat} {cs : List Char} {ds : List Nat} (hbase : base ≤ 16)
    (h : List.Forall₂ (IsDigit base) cs ds) (hne : ds ≠ []) :
    natural? base cs = some (Nat.ofDigits base ds.reverse) := by
  have hcs : cs.isEmpty = false := by
    cases h with
    | nil => exact absurd rfl hne
    | cons _ _ => rfl
  rw [natural?, hcs, ofDigits_reverse_eq_foldl]
  exact accumulate_digits hbase h 0

/-- A number whose first digit is not zero is at least a power of the base. -/
theorem length_le_of_ofDigits_lt {ds : List Nat} {k : Nat} (hlead : ds.head? = some 0 → ds = [0])
    (hk : 0 < k) (h : Nat.ofDigits 10 ds.reverse < 10 ^ k) : ds.length ≤ k := by
  cases ds with
  | nil => exact Nat.zero_le k
  | cons d rest =>
    by_cases hd : d = 0
    · have hzero := hlead (by rw [hd, List.head?_cons])
      rw [hzero]
      exact hk
    · have hpow : 10 ^ rest.length ≤ Nat.ofDigits 10 (d :: rest).reverse := by
        rw [Nat.ofDigits_reverse_cons]
        calc 10 ^ rest.length ≤ 10 ^ rest.length * d := Nat.le_mul_of_pos_right _ (by omega)
          _ ≤ _ := Nat.le_add_left _ _
      have hlt : rest.length < k :=
        (Nat.pow_lt_pow_iff_right (by omega)).mp (Nat.lt_of_le_of_lt hpow h)
      exact hlt

end Digits

section Texts

theorem asciiDigit_of_lt {c : Char} (h : c.toNat < 0x660) : Text.asciiDigit c = c := by
  have hzeros : ∀ z ∈ Text.decimalZeros, z = 0x30 ∨ 0x660 ≤ z := by decide
  unfold Text.asciiDigit Text.decimalValue?
  cases hfind : Text.decimalZeros.find? fun z => z ≤ c.toNat && c.toNat < z + 10 with
  | none => rfl
  | some z =>
    have hmem := List.mem_of_find?_eq_some hfind
    have hrange := List.find?_some hfind
    simp only [Bool.and_eq_true, decide_eq_true_eq] at hrange
    rcases hzeros z hmem with rfl | hz
    · have hnat : '0'.toNat + (c.toNat - 0x30) = c.toNat := by
        have hzero : '0'.toNat = 0x30 := rfl
        omega
      simp only [Option.map_some, hnat, Char.ofNat_toNat]
    · omega

theorem toNat_of_isAlphanum {c : Char} (h : c.isAlphanum = true) :
    0x30 ≤ c.toNat ∧ c.toNat < 0x7B := by
  have hrange : ∀ low high : Char, 0x30 ≤ low.toNat → high.toNat < 0x7B →
      c.val ≥ low.val → c.val ≤ high.val → 0x30 ≤ c.toNat ∧ c.toNat < 0x7B := by
    intro low high hlow hhigh hge hle
    exact ⟨hlow.trans (UInt32.le_iff_toNat_le.mp hge),
      (UInt32.le_iff_toNat_le.mp hle).trans_lt hhigh⟩
  rcases Bool.or_eq_true_iff.mp h with hletter | hdigit
  · rcases Bool.or_eq_true_iff.mp hletter with hupper | hlower
    · obtain ⟨hge, hle⟩ := of_decide_eq_true hupper
      exact hrange 'A' 'Z' (by decide) (by decide) hge hle
    · obtain ⟨hge, hle⟩ := Bool.and_eq_true_iff.mp hlower
      exact hrange 'a' 'z' (by decide) (by decide) (of_decide_eq_true hge) (of_decide_eq_true hle)
  · obtain ⟨hge, hle⟩ := Bool.and_eq_true_iff.mp hdigit
    exact hrange '0' '9' (by decide) (by decide) (of_decide_eq_true hge) (of_decide_eq_true hle)

theorem ne_of_isAlphanum {c x : Char} (h : c.isAlphanum = true) (hx : x.isAlphanum = false) :
    c ≠ x := by
  rintro rfl
  rw [h] at hx
  cases hx

theorem isBlank_of_isAlphanum {c : Char} (h : c.isAlphanum = true) : Text.isBlank c = false := by
  have hrange := toNat_of_isAlphanum h
  simp only [Text.isBlank, Bool.or_eq_false_iff, Bool.and_eq_false_iff, decide_eq_false_iff_not,
    beq_eq_false_iff_ne]
  omega

theorem dropWhile_eq_self {p : Char → Bool} {cs : List Char} (h : ∀ c ∈ cs, p c = false) :
    cs.dropWhile p = cs := by
  cases cs with
  | nil => rfl
  | cons c rest => rw [List.dropWhile_cons_of_neg (by simp [h])]

/-- Letters and digits of ASCII are left as they are. -/
theorem normalize_of_alphanum {cs : List Char} (h : ∀ c ∈ cs, c.isAlphanum = true) :
    normalize cs = cs := by
  have hblank : ∀ c ∈ cs, Text.isBlank c = false := fun c hc => isBlank_of_isAlphanum (h c hc)
  have hmap : cs.map Text.asciiDigit = cs := by
    conv_rhs => rw [← List.map_id cs]
    refine List.map_congr_left fun c hc => asciiDigit_of_lt ?_
    have hrange := toNat_of_isAlphanum (h c hc)
    omega
  have hreverse : ∀ c ∈ cs.reverse, Text.isBlank c = false :=
    fun c hc => hblank c (List.mem_reverse.mp hc)
  rw [normalize, hmap, Text.trimBy, dropWhile_eq_self hblank, dropWhile_eq_self hreverse,
    List.reverse_reverse]

theorem splitSign_of_alphanum {cs : List Char} (h : ∀ c ∈ cs, c.isAlphanum = true) :
    splitSign cs = (false, cs) := by
  unfold splitSign
  split
  · exact absurd rfl (ne_of_isAlphanum (h '-' (by simp)) (by decide))
  · exact absurd rfl (ne_of_isAlphanum (h '+' (by simp)) (by decide))
  · rfl

theorem integer?_of_alphanum {cs : List Char} (h : ∀ c ∈ cs, c.isAlphanum = true) :
    integer? cs = (unsigned? cs).map fun n : Nat => (n : Int) := by
  simp only [integer?, normalize_of_alphanum h, splitSign_of_alphanum h, negateIf,
    Bool.false_eq_true, ↓reduceIte]
  cases unsigned? cs <;> rfl

/-- A literal without a mark is decimal. -/
theorem unsigned?_of_digits {cs : List Char} (h : ∀ c ∈ cs, c.isDigit = true ∨ c = 'e') :
    unsigned? cs = decimal? cs := by
  have hmark : ∀ (x : Char) (rest : List Char), cs = '0' :: x :: rest →
      x.isDigit = true ∨ x = 'e' :=
    fun x rest hcs => h x (by simp [hcs])
  unfold unsigned?
  split
  case h_7 => rfl
  all_goals exact absurd (hmark _ _ rfl) (by decide)

theorem unsigned?_marked {mark : Char} {base : Nat} (h : (mark, base) ∈ baseMarks)
    (cs : List Char) : unsigned? ('0' :: mark :: cs) = natural? base cs := by
  simp only [baseMarks, List.mem_cons, Prod.mk.injEq, List.not_mem_nil, or_false] at h
  rcases h with ⟨rfl, rfl⟩ | ⟨rfl, rfl⟩ | ⟨rfl, rfl⟩ | ⟨rfl, rfl⟩ | ⟨rfl, rfl⟩ | ⟨rfl, rfl⟩ <;> rfl

theorem of_mem_baseMarks {mark : Char} {base : Nat} (h : (mark, base) ∈ baseMarks) :
    base ≤ 16 ∧ mark.isAlphanum = true := by
  have hall : ∀ m ∈ baseMarks, m.2 ≤ 16 ∧ m.1.isAlphanum = true := by decide
  exact hall _ h

end Texts

section Keys

theorem Spells.isAlphanum {n : Nat} {cs : List Char} (h : Spells n cs) :
    ∀ c ∈ cs, c.isAlphanum = true := by
  cases h with
  | decimal hdigits =>
    exact forall_of_digits (fun _ _ => isAlphanum_of_isDigit (by omega)) hdigits
  | marked hmark hdigits =>
    obtain ⟨hbase, hletter⟩ := of_mem_baseMarks hmark
    exact List.forall_mem_cons.mpr ⟨rfl, List.forall_mem_cons.mpr
      ⟨hletter, forall_of_digits (fun _ _ => isAlphanum_of_isDigit hbase) hdigits⟩⟩

theorem head?_of_digits {cs : List Char} {ds : List Nat} (h : List.Forall₂ (IsDigit 10) cs ds)
    (hzero : cs.head? = some '0') : ds.head? = some 0 := by
  cases h with
  | nil => cases hzero
  | cons hc _ =>
    rw [List.head?_cons, Option.some.injEq] at hzero
    subst hzero
    exact (digitValue?_of_isDigit (by omega) hc).symm

/-- A decimal literal of a number with few enough digits has few enough digits itself. -/
theorem decimal?_digits {cs : List Char} {ds : List Nat}
    (hdigits : List.Forall₂ (IsDigit 10) cs ds) (hne : ds ≠ [])
    (hlead : ds.head? = some 0 → ds = [0]) (h : Nat.ofDigits 10 ds.reverse < 10 ^ maxDigits) :
    decimal? cs = some (Nat.ofDigits 10 ds.reverse) := by
  have hlength : ¬maxDigits < cs.length := by
    rw [hdigits.length_eq, Nat.not_lt]
    exact length_le_of_ofDigits_lt hlead (by decide) h
  have hzero : (Nat.ofDigits 10 ds.reverse == 0 || cs.head? != some '0') = true := by
    rw [Bool.or_eq_true, beq_iff_eq, bne_iff_ne, or_iff_not_imp_right, not_not]
    intro hhead
    rw [hlead (head?_of_digits hdigits hhead)]
    rfl
  rw [decimal?, if_neg hlength, natural?_digits (by omega) hdigits hne, Option.filter_some,
    if_pos hzero]

theorem Spells.unsigned? {n : Nat} {cs : List Char} (h : Spells n cs) (hn : n < 10 ^ maxDigits) :
    unsigned? cs = some n := by
  cases h with
  | decimal hdigits hne hlead =>
    rw [unsigned?_of_digits, decimal?_digits hdigits hne hlead hn]
    exact forall_of_digits (fun _ _ h => .inl (isDigit_of_isDigit h)) hdigits
  | marked hmark hdigits hne =>
    rw [unsigned?_marked hmark, natural?_digits (of_mem_baseMarks hmark).1 hdigits hne]

theorem written?_natCast {n : Nat} (h : n < 10 ^ maxDigits) : written? n = some (toString n) := by
  have hcount : ¬maxDigits < Decimal.digitCount (n : Int).natAbs := by
    rw [Int.natAbs_natCast, Nat.not_lt]
    exact (Nat.length_toDigits_le_iff (by omega) (by decide)).mpr h
  rw [written?, if_neg hcount]
  rfl

/-- Separators and spelling do not matter for the key. -/
theorem Spells.key_eq {n : Nat} {cs : List Char} {text : String} (h : Spells n cs)
    (htext : Separated cs text.toList) (hn : n < 10 ^ maxDigits) : key text = toString n := by
  have hplain : text.toList.filter (· != '_') = cs := by
    refine htext.filter_eq fun hmem => ?_
    exact absurd rfl (ne_of_isAlphanum (h.isAlphanum _ hmem) (by decide))
  simp only [key, hplain, integer?_of_alphanum h.isAlphanum, h.unsigned? hn, Option.map_some,
    Option.bind_some, written?_natCast hn]

end Keys

/-- As a key every integer literal stands for the decimal form of its number, in whatever base it is
written, with letters of either case, with zeros after the mark of a base and with separators. -/
theorem integer_key_ignores_spelling {n : Nat} {cs : List Char} {text : String}
    (hn : (toString n).length ≤ 4300) (hspelled : Spells n cs)
    (hseparated : Separated cs text.toList) :
    key text = toString n ∧
    ∀ c : Child, c.label.kind = "number" → c.label.text = text →
      Reading.keyName? (some c) = some (toString n) := by
  have hlt : n < 10 ^ maxDigits := by
    rw [Nat.toString_eq_ofList_toDigits, String.length_ofList] at hn
    exact (Nat.length_toDigits_le_iff (by omega) (by decide)).mp hn
  have hkey := hspelled.key_eq hseparated hlt
  refine ⟨hkey, ?_⟩
  intro c hkind htext
  simp [Reading.keyName?, hkind, htext, hkey]

/-- The number 255 with a zero before its digits, digits of both cases and three separators. -/
theorem integer_key_ignores_spelling_hexadecimal :
    (toString 255).length ≤ 4300 ∧ Spells 255 "0X0fF".toList ∧
    Separated "0X0fF".toList "0_X_0fF_".toList ∧ key "0_X_0fF_" = "255" := by
  have hdigits : List.Forall₂ (IsDigit 16) ['0', 'f', 'F'] [0, 15, 15] := by
    simp only [List.forall₂_cons, List.forall₂_nil_left_iff, and_true]
    exact ⟨⟨by decide, .inl rfl⟩, ⟨by decide, .inl rfl⟩, ⟨by decide, .inr rfl⟩⟩
  have hspelled : Spells 255 "0X0fF".toList := .marked (by decide) hdigits (by simp)
  have hseparated : Separated "0X0fF".toList "0_X_0fF_".toList :=
    .char '0' (.separator (.char 'X' (.separator (.char '0' (.char 'f' (.char 'F'
      (.separator .nil)))))))
  have hlength : (toString 255).length ≤ 4300 := by decide
  exact ⟨hlength, hspelled, hseparated,
    (integer_key_ignores_spelling hlength hspelled hseparated).1⟩

end ScriptTyping.Numeral
