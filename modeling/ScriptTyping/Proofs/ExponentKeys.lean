import ScriptTyping.Proofs.ExactDoubles
import ScriptTyping.Proofs.IntegerKeys

/-! # Keys with an exponent

A number literal with an exponent is read as a double, and one without it as an integer of any size.
The two spellings of a number make one key exactly if the number is a double.
-/
namespace ScriptTyping.Numeral

section Digits

theorem isDigit_digitChar {d : Nat} (h : d < 10) : IsDigit 10 (Nat.digitChar d) d := ⟨h, .inl rfl⟩

/-- The decimal form of a number is made of its digits. -/
theorem exists_digits (n : Nat) :
    ∃ ds, List.Forall₂ (IsDigit 10) (Nat.toDigits 10 n) ds ∧ ds ≠ [] ∧
      (ds.head? = some 0 → ds = [0]) ∧ Nat.ofDigits 10 ds.reverse = n := by
  induction n using Nat.strong_induction_on with
  | _ n ih =>
    by_cases hn : n < 10
    · refine ⟨[n], ?_, by simp, ?_, by simp⟩
      · rw [Nat.toDigits_of_lt_base hn]
        exact .cons (isDigit_digitChar hn) .nil
      · simp
    · obtain ⟨ds, hdigits, hne, hlead, hvalue⟩ := ih (n / 10) (by omega)
      refine ⟨ds ++ [n % 10], ?_, by simp, ?_, ?_⟩
      · rw [Nat.toDigits_of_base_le (by omega) (by omega)]
        exact List.rel_append hdigits (.cons (isDigit_digitChar (Nat.mod_lt n (by omega))) .nil)
      · -- the first digit is that of the other digits, whose number is not zero
        rw [List.head?_append_of_ne_nil _ hne]
        intro hzero
        rw [hlead hzero, List.reverse_singleton, Nat.ofDigits_singleton] at hvalue
        omega
      · rw [List.reverse_append, List.reverse_singleton, List.singleton_append, Nat.ofDigits_cons,
          hvalue]
        exact Nat.mod_add_div n 10

theorem spells_toDigits (n : Nat) : Spells n (Nat.toDigits 10 n) := by
  obtain ⟨ds, hdigits, hne, hlead, hvalue⟩ := exists_digits n
  have hspelled := Spells.decimal hdigits hne hlead
  rwa [hvalue] at hspelled

theorem natural?_toDigits (n : Nat) : natural? 10 (Nat.toDigits 10 n) = some n := by
  obtain ⟨ds, hdigits, hne, -, hvalue⟩ := exists_digits n
  rw [natural?_digits (by omega) hdigits hne, hvalue]

theorem Separated.refl (cs : List Char) : Separated cs cs := by
  induction cs with
  | nil => exact .nil
  | cons c _ ih => exact .char c ih

theorem key_toString {n : Nat} (h : n < 10 ^ maxDigits) : key (toString n) = toString n := by
  refine (spells_toDigits n).key_eq ?_ h
  rw [Nat.toString_eq_ofList_toDigits, String.toList_ofList]
  exact Separated.refl _

end Digits

section Exponents

/-- The literal of `m` with the exponent `k`. -/
def withExponent (m k : Nat) : String := toString m ++ "e" ++ toString k

theorem toList_withExponent (m k : Nat) :
    (withExponent m k).toList = Nat.toDigits 10 m ++ 'e' :: Nat.toDigits 10 k := by
  simp [withExponent]

theorem isDigit_or_e {m k : Nat} {c : Char}
    (h : c ∈ Nat.toDigits 10 m ++ 'e' :: Nat.toDigits 10 k) : c.isDigit = true ∨ c = 'e' := by
  rw [List.mem_append, List.mem_cons] at h
  rcases h with h | h | h
  · exact .inl (Nat.isDigit_of_mem_toDigits (by omega) (by omega) h)
  · exact .inr h
  · exact .inl (Nat.isDigit_of_mem_toDigits (by omega) (by omega) h)

theorem isAlphanum_withExponent {m k : Nat} :
    ∀ c ∈ Nat.toDigits 10 m ++ 'e' :: Nat.toDigits 10 k, c.isAlphanum = true := by
  intro c hc
  rcases isDigit_or_e hc with h | rfl
  · simp [Char.isAlphanum, h]
  · rfl

theorem accumulate_append (base n : Nat) (cs rest : List Char) :
    accumulate base n (cs ++ rest) =
      (accumulate base n cs).bind fun m => accumulate base m rest := by
  induction cs generalizing n with
  | nil => rfl
  | cons c cs ih =>
    simp only [List.cons_append, accumulate, Option.bind_assoc, ih]

/-- The mark of the exponent is no decimal digit. -/
theorem integer?_withExponent (m k : Nat) :
    integer? (Nat.toDigits 10 m ++ 'e' :: Nat.toDigits 10 k) = none := by
  have hletter : ∀ n, accumulate 10 n ('e' :: Nat.toDigits 10 k) = none := fun _ => rfl
  have hnatural : natural? 10 (Nat.toDigits 10 m ++ 'e' :: Nat.toDigits 10 k) = none := by
    have hne : (Nat.toDigits 10 m ++ 'e' :: Nat.toDigits 10 k).isEmpty = false := by simp
    simp only [natural?, hne, accumulate_append, hletter, Bool.false_eq_true, ↓reduceIte,
      Option.bind_fun_none]
  rw [integer?_of_alphanum isAlphanum_withExponent, unsigned?_of_digits fun _ => isDigit_or_e,
    decimal?, hnatural]
  split <;> rfl

theorem fraction?_withExponent (m k : Nat) :
    fraction? (Nat.toDigits 10 m ++ 'e' :: Nat.toDigits 10 k) = some (Decimal.nearest m k) := by
  have hdigits : ∀ c ∈ Nat.toDigits 10 m, c.isDigit = true :=
    fun c hc => Nat.isDigit_of_mem_toDigits (by omega) (by omega) hc
  have htake : (Nat.toDigits 10 m ++ 'e' :: Nat.toDigits 10 k).takeWhile Char.isDigit =
      Nat.toDigits 10 m := by
    rw [List.takeWhile_append_of_pos hdigits]
    exact List.append_nil _
  have hdrop : (Nat.toDigits 10 m ++ 'e' :: Nat.toDigits 10 k).dropWhile Char.isDigit =
      'e' :: Nat.toDigits 10 k := by
    rw [List.dropWhile_append_of_pos hdigits]
    rfl
  have hexponent : exponent? ('e' :: Nat.toDigits 10 k) = some (k : Int) := by
    have hsign : splitSign (Nat.toDigits 10 k) = (false, Nat.toDigits 10 k) :=
      splitSign_of_alphanum (spells_toDigits k).isAlphanum
    simp [exponent?, hsign, natural?_toDigits, negateIf]
  rw [fraction?, htake, hdrop]
  change (natural? 10 (Nat.toDigits 10 m ++ [])).bind (fun n =>
    (exponent? ('e' :: Nat.toDigits 10 k)).map fun e => Decimal.nearest n (e - (0 : Nat))) = _
  rw [List.append_nil, natural?_toDigits, hexponent, Option.bind_some, Option.map_some,
    Nat.cast_zero, sub_zero]

theorem isDigit_toLower {c : Char} {d : Nat} (h : IsDigit 10 c d) : c.toLower.isDigit = true := by
  obtain ⟨hd, hc⟩ := h
  interval_cases d <;> rcases hc with rfl | rfl <;> rfl

theorem head?_toLower_withExponent (m k : Nat) :
    ∃ c, ((Nat.toDigits 10 m ++ 'e' :: Nat.toDigits 10 k).map Char.toLower).head? = some c ∧
      c.isDigit = true := by
  obtain ⟨ds, hdigits, -⟩ := exists_digits m
  obtain ⟨c, rest, hm⟩ := List.exists_cons_of_ne_nil (Nat.toDigits_ne_nil (n := m) (b := 10))
  refine ⟨c.toLower, by rw [hm]; rfl, ?_⟩
  refine forall_of_digits (p := fun c => c.toLower.isDigit = true) (fun _ _ => isDigit_toLower)
    hdigits c ?_
  rw [hm]
  exact List.mem_cons_self

/-- The words that are read as doubles start with a letter. -/
theorem double?_withExponent (m k : Nat) :
    double? (Nat.toDigits 10 m ++ 'e' :: Nat.toDigits 10 k) = some (Decimal.nearest m k) := by
  obtain ⟨first, hfirst, hdigit⟩ := head?_toLower_withExponent m k
  have hword : ∀ word : String, word.toList.head? ≠ some first →
      (String.ofList ((Nat.toDigits 10 m ++ 'e' :: Nat.toDigits 10 k).map Char.toLower) == word) =
        false := by
    intro word hhead
    rw [beq_eq_false_iff_ne]
    rintro rfl
    rw [String.toList_ofList] at hhead
    exact hhead hfirst
  have hletter : ∀ c : Char, c.isDigit = false → some c ≠ some first := by
    rintro c hc ⟨⟩
    rw [hdigit] at hc
    cases hc
  have hinf := hword "inf" (hletter 'i' (by decide))
  have hinfinity := hword "infinity" (hletter 'i' (by decide))
  have hnan := hword "nan" (hletter 'n' (by decide))
  simp only [double?, normalize_of_alphanum isAlphanum_withExponent,
    splitSign_of_alphanum isAlphanum_withExponent, hinf, hinfinity, hnan, Bool.or_self,
    Bool.false_eq_true, ↓reduceIte, fraction?_withExponent, Option.map_some]

theorem key_withExponent (m k : Nat) :
    key (withExponent m k) = doubleKey (Decimal.nearest m k) := by
  have hplain : (withExponent m k).toList.filter (· != '_') =
      Nat.toDigits 10 m ++ 'e' :: Nat.toDigits 10 k := by
    rw [toList_withExponent, List.filter_eq_self]
    intro c hc
    exact bne_iff_ne.mpr (ne_of_isAlphanum (isAlphanum_withExponent c hc) (by decide))
  simp only [key, hplain, integer?_withExponent, double?_withExponent, Option.bind_none]

end Exponents

/-- A literal with an exponent makes the same key as the plain literal of its number exactly if the
number has at most 53 binary digits before a run of zeros. -/
theorem exponent_key_agrees_iff {m k : Nat} (h : (toString (m * 10 ^ k)).length ≤ 300) :
    key (withExponent m k) = key (toString (m * 10 ^ k)) ↔ Decimal.FitsDouble (m * 10 ^ k) := by
  have hcount : Decimal.digitCount (m * 10 ^ k) ≤ 300 := by
    rwa [Nat.toString_eq_ofList_toDigits, String.length_ofList] at h
  have hplain : key (toString (m * 10 ^ k)) = toString (m * 10 ^ k) := by
    refine key_toString ((Decimal.lt_pow_digitCount _).trans_le ?_)
    exact Nat.pow_le_pow_right (by omega) (hcount.trans (by decide))
  obtain ⟨r, hinteger, hexact⟩ := Decimal.integer?_nearest hcount
  have hexponent : key (withExponent m k) = toString r := by
    rw [key_withExponent]
    simp only [doubleKey, hinteger]
    rfl
  rw [hplain, hexponent]
  constructor
  · intro heq
    -- the digits of a number are read as the number
    have hdigits : Nat.toDigits 10 r = Nat.toDigits 10 (m * 10 ^ k) := by
      simpa using congrArg String.toList heq
    have hr : r = m * 10 ^ k := by
      rw [← Option.some.injEq, ← natural?_toDigits r, hdigits, natural?_toDigits]
    exact Decimal.fitsDouble_of_integer? (hr ▸ hinteger)
  · intro hfits
    rw [hexact hfits]

/-- The number `10 ^ 22` is a double. -/
theorem exponent_key_agrees_ten :
    (toString (1 * 10 ^ 22)).length ≤ 300 ∧ Decimal.FitsDouble (1 * 10 ^ 22) ∧
    key "1e22" = key "10000000000000000000000" := by
  have hlength : (toString (1 * 10 ^ 22)).length ≤ 300 := by decide +kernel
  have hfits : Decimal.FitsDouble (1 * 10 ^ 22) := ⟨5 ^ 22, 22, by norm_num, by norm_num⟩
  exact ⟨hlength, hfits, (exponent_key_agrees_iff hlength).mpr hfits⟩

/-- The double nearest to `10 ^ 23` is a smaller number. -/
theorem exponent_key_differs :
    (toString (1 * 10 ^ 23)).length ≤ 300 ∧
    key (withExponent 1 23) = "99999999999999991611392" ∧
    key (withExponent 1 23) ≠ key (toString (1 * 10 ^ 23)) := by
  decide +kernel

end ScriptTyping.Numeral
