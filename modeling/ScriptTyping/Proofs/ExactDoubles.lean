import Mathlib.Algebra.Order.Field.Power
import Mathlib.Algebra.Order.Field.Rat
import Mathlib.Tactic.Positivity
import Mathlib.Tactic.Ring
import ScriptTyping.Decimal

/-! # Doubles that are equal to a number

Reading a decimal rounds it to 53 binary digits. A number with no more of them, zeros at its end
apart, is read as it is, and every double that is an integer is such a number.
-/
namespace ScriptTyping.Decimal

open Float.Model Float.Model.UnpackedFloat

/-- A number with at most 53 binary digits before a run of zeros. -/
def FitsDouble (n : Nat) : Prop := ∃ a b, a < 2 ^ 53 ∧ n = a * 2 ^ b

theorem fitsDouble_of_lt {n : Nat} (h : n < 2 ^ 53) : FitsDouble n :=
  ⟨n, 0, h, by rw [Nat.pow_zero, Nat.mul_one]⟩

section Parts

theorem mantissa_lt {x : Float} {negative : Bool} {m : Nat} {q : Int}
    (h : parts x = .finite negative m q) : m < 2 ^ 53 := by
  have hfraction : x.toBits.toNat % Nat.pow 2 52 < 2 ^ 52 := Nat.mod_lt _ (by decide)
  simp only [parts] at h
  split at h
  · split at h <;> cases h
  · split at h
    · cases h
      omega
    · cases h
      rw [Nat.pow_eq] at hfraction ⊢
      omega

/-- The integer that a finite double is equal to, sign apart. -/
theorem integer?_finite (negative : Bool) (m : Nat) (q : Int) :
    (Parts.finite negative m q).integer? =
      if 0 ≤ q then
        some (if negative then -((m * 2 ^ q.toNat : Nat) : Int) else (m * 2 ^ q.toNat : Nat))
      else if m % 2 ^ (-q).toNat = 0 then
        some (if negative then -((m / 2 ^ (-q).toNat : Nat) : Int) else (m / 2 ^ (-q).toNat : Nat))
      else none := by
  by_cases hq : 0 ≤ q
  · simp only [Parts.integer?, hq, ↓reduceIte]
    rfl
  · by_cases hdiv : m % 2 ^ (-q).toNat = 0
    · simp only [Parts.integer?, Nat.pow_eq, hq, hdiv, ↓reduceIte, BEq.rfl]
      rfl
    · simp only [Parts.integer?, Nat.pow_eq, hq, hdiv, beq_iff_eq, ↓reduceIte]
      rfl

/-- Whatever integer a double is equal to fits a double. -/
theorem fitsDouble_of_integer? {x : Float} {n : Nat}
    (h : (parts x).integer? = some (n : Int)) : FitsDouble n := by
  cases hparts : parts x with
  | nan => simp [hparts, Parts.integer?] at h
  | infinite _ => simp [hparts, Parts.integer?] at h
  | finite negative m q =>
    have hm := mantissa_lt hparts
    have hsize : ∀ size : Nat, (if negative then -(size : Int) else size) = n → n = size := by
      intro size hsize
      split at hsize <;> omega
    rw [hparts, integer?_finite] at h
    split at h
    · exact ⟨m, q.toNat, hm, hsize _ (Option.some.inj h)⟩
    · split at h
      · refine ⟨m / 2 ^ (-q).toNat, 0, Nat.lt_of_le_of_lt (Nat.div_le_self _ _) hm, ?_⟩
        rw [Nat.pow_zero, Nat.mul_one]
        exact hsize _ (Option.some.inj h)
      · cases h

end Parts

section Values

/-- The number `m * 2 ^ e`. -/
def scaled (m : Nat) (e : Int) : ℚ := m * (2 : ℚ) ^ e

theorem scaled_mul (m n : Nat) (e f : Int) : scaled (m * n) (e + f) = scaled m e * scaled n f := by
  simp only [scaled, Nat.cast_mul, zpow_add₀ (two_ne_zero' ℚ)]
  ring

theorem scaled_shift (m s : Nat) (e : Int) : scaled (m * 2 ^ s) e = scaled m (e + s) := by
  simp only [scaled, Nat.cast_mul, Nat.cast_pow, Nat.cast_ofNat, zpow_add₀ (two_ne_zero' ℚ),
    zpow_natCast]
  ring

theorem scaled_zero (m : Nat) : scaled m 0 = m := by
  rw [scaled, zpow_zero, mul_one]

theorem two_zpow_le_scaled {m k : Nat} (h : 2 ^ k ≤ m) (e : Int) :
    (2 : ℚ) ^ (k + e) ≤ scaled m e := by
  have hm : ((2 ^ k : Nat) : ℚ) ≤ m := Nat.cast_le.mpr h
  rw [zpow_add₀ (two_ne_zero' ℚ), zpow_natCast, scaled]
  push_cast at hm
  gcongr

theorem scaled_lt_two_zpow {m k : Nat} (h : m < 2 ^ k) (e : Int) :
    scaled m e < (2 : ℚ) ^ (k + e) := by
  have hm : (m : ℚ) < ((2 ^ k : Nat) : ℚ) := Nat.cast_lt.mpr h
  rw [zpow_add₀ (two_ne_zero' ℚ), zpow_natCast, scaled]
  push_cast at hm
  gcongr

/-- A number that fits a double has at most 53 binary digits before its zeros, however it is
scaled. -/
theorem dvd_of_fitsDouble {n m s : Nat} {e : Int} (hn : FitsDouble n) (hvalue : scaled m e = n)
    (hm : 2 ^ (52 + s) ≤ m) : 2 ^ s ∣ m := by
  obtain ⟨a, b, ha, rfl⟩ := hn
  have hab : scaled m e = scaled a b := by
    rw [hvalue, scaled, zpow_natCast]
    push_cast
    ring
  have hbig := two_zpow_le_scaled hm e
  have hsmall := scaled_lt_two_zpow ha b
  rw [hab] at hbig
  have hexp := (zpow_lt_zpow_iff_right₀ one_lt_two).mp (hbig.trans_lt hsmall)
  -- so the zeros of `a * 2 ^ b` reach down to the place `s` of `m`
  have hshift : scaled m e = scaled (a * 2 ^ ((b : Int) - e).toNat) e := by
    rw [scaled_shift, hab]
    congr 1
    push_cast at hexp
    omega
  have hm' : m = a * 2 ^ ((b : Int) - e).toNat := by
    have h2 : (2 : ℚ) ^ e ≠ 0 := zpow_ne_zero _ two_ne_zero
    exact Nat.cast_injective (mul_right_cancel₀ h2 hshift)
  rw [hm']
  refine Dvd.dvd.mul_left (Nat.pow_dvd_pow 2 ?_) a
  push_cast at hexp
  omega

/-- A double that is equal to a natural number is taken for it. -/
theorem integer?_of_scaled {a n : Nat} {q : Int} (h : scaled a q = n) :
    (Parts.finite false a q).integer? = some (n : Int) := by
  rw [integer?_finite]
  by_cases hq : 0 ≤ q
  · have hn : a * 2 ^ q.toNat = n := by
      have hshift := scaled_shift a q.toNat 0
      rw [scaled_zero, Int.toNat_of_nonneg hq, zero_add, h] at hshift
      exact Nat.cast_injective hshift
    rw [if_pos hq, hn]
    rfl
  · have ha : a = n * 2 ^ (-q).toNat := by
      have hshift := scaled_shift n (-q).toNat q
      rw [Int.toNat_of_nonneg (by omega), add_neg_cancel, scaled_zero, ← h] at hshift
      have hpow : (2 : ℚ) ^ q ≠ 0 := zpow_ne_zero _ two_ne_zero
      exact Nat.cast_injective (mul_right_cancel₀ hpow hshift.symm)
    have hdiv : a % 2 ^ (-q).toNat = 0 := by rw [ha, Nat.mul_mod_left]
    have hquot : a / 2 ^ (-q).toNat = n := by
      rw [ha, Nat.mul_div_cancel n (by positivity)]
    rw [if_neg hq, if_pos hdiv, hquot]
    rfl

end Values

section Packing

theorem log2_of_normal {a : Nat} (hlow : 2 ^ 52 ≤ a) (hhigh : a < 2 ^ 53) : a.log2 = 52 := by
  have hne : a ≠ 0 := by omega
  have h1 := (Nat.le_log2 hne).mpr hlow
  have h2 := (Nat.log2_lt hne).mpr hhigh
  omega

theorem pack_normal {a : Nat} {q : Int} (ha : 0 < a) (hlow : 2 ^ 52 ≤ a) (hhigh : a < 2 ^ 53)
    (hleast : -1074 ≤ q) (hmost : q ≤ 971) :
    UnpackedFloat.pack Format.binary64 (.finite .positive a q ha) =
      packComponents Format.binary64 .positive (BitVec.ofNat 11 (q + 1075).toNat)
        (BitVec.ofNat 52 a) := by
  have hbias : (q + (Format.exponentBias Format.binary64 : Int) +
      (Format.binary64.mantissaBitsWithoutImplicit : Int)).toNat = (q + 1075).toNat := by
    simp only [Format.exponentBias]
    norm_num
    omega
  have hfinite : ¬(2 ^ Format.binary64.exponentBits ≤
      (q + (Format.exponentBias Format.binary64 : Int) +
        (Format.binary64.mantissaBitsWithoutImplicit : Int)).toNat + 1) := by
    rw [hbias]
    norm_num
    omega
  have hnormal : a.log2 + 1 = Format.mantissaBits Format.binary64 := by
    rw [log2_of_normal hlow hhigh]
    rfl
  rw [← hbias]
  exact (if_neg hfinite).trans (if_pos hnormal)

theorem toNat_packComponents (exponent : BitVec 11) (mantissa : BitVec 52) :
    (packComponents Format.binary64 .positive exponent mantissa).toNat =
      exponent.toNat * 2 ^ 52 + mantissa.toNat := by
  have hm := mantissa.isLt
  have he := exponent.isLt
  simp only [packComponents, Sign.toBitVec, BitVec.toNat_append]
  rw [← Nat.shiftLeft_add_eq_or_of_lt hm, Nat.shiftLeft_eq]
  simp

/-- A double that is positive has no bit for its sign. -/
theorem unpackSign_positive (exponent : BitVec 11) (mantissa : BitVec 52) :
    unpackSign (packComponents Format.binary64 .positive exponent mantissa) = 0#1 := by
  have hm := mantissa.isLt
  have he := exponent.isLt
  apply BitVec.eq_of_toNat_eq
  change (packComponents Format.binary64 .positive exponent mantissa).toNat >>> 63 % 2 = 0
  rw [toNat_packComponents, Nat.shiftRight_eq_div_pow]
  omega

theorem unpack_components {exponent : BitVec 11} {mantissa : BitVec 52} {a : Nat} {q : Int}
    {ha : 0 < a} (hall : exponent ≠ -1#11) (hzero : exponent ≠ 0#11)
    (hmantissa : (1#1 ++ mantissa).toNat = a)
    (hexponent : (exponent.toNat : Int) - (Format.binary64.exponentBias + (52 : Nat)) = q) :
    UnpackedFloat.unpack Format.binary64
      (packComponents Format.binary64 .positive exponent mantissa) = .finite .positive a q ha := by
  have hsign := unpackSign_positive exponent mantissa
  have hexponentBits : unpackExponent (packComponents Format.binary64 .positive exponent mantissa) =
      exponent := unpackExponent_packComponents
  have hmantissaBits : unpackMantissa (packComponents Format.binary64 .positive exponent mantissa) =
      mantissa := unpackMantissa_packComponents
  generalize packComponents Format.binary64 .positive exponent mantissa = bits at *
  subst hexponentBits hmantissaBits hmantissa hexponent
  have hpositive : Sign.ofBitVec (unpackSign bits) = .positive := by
    rw [hsign]
    rfl
  refine (if_neg hall).trans ((if_neg hzero).trans ?_)
  rw [hpositive]

theorem parts_of_components {x : Float} {exponent fraction : Nat}
    (h : x.toBits.toNat = exponent * 2 ^ 52 + fraction) (he : 0 < exponent) (he' : exponent < 2047)
    (hf : fraction < 2 ^ 52) : parts x = .finite false (2 ^ 52 + fraction) (exponent - 1075) := by
  have hsign : x.toBits.toNat / Nat.pow 2 63 = 0 := by
    rw [h, Nat.pow_eq]
    omega
  have hexponent : x.toBits.toNat / Nat.pow 2 52 % Nat.pow 2 11 = exponent := by
    rw [h, Nat.pow_eq, Nat.pow_eq]
    omega
  have hfraction : x.toBits.toNat % Nat.pow 2 52 = fraction := by
    rw [h, Nat.pow_eq]
    omega
  have hfinite : (exponent == 2047) = false := beq_eq_false_iff_ne.mpr (by omega)
  have hnormal : (exponent == 0) = false := beq_eq_false_iff_ne.mpr (by omega)
  simp only [parts, hsign, hexponent, hfraction, hfinite, hnormal]
  rfl

/-- A normal double is taken apart into what it was made of. -/
theorem parts_pack {a : Nat} {q : Int} (ha : 0 < a) (hlow : 2 ^ 52 ≤ a) (hhigh : a < 2 ^ 53)
    (hleast : -1074 ≤ q) (hmost : q ≤ 971) :
    parts (.ofModel (.pack (.finite .positive a q ha))) = .finite false a q := by
  have hbits : (Float.ofModel (.pack (.finite .positive a q ha))).toBits.toNat =
      (q + 1075).toNat * 2 ^ 52 + (a - 2 ^ 52) := by
    have hpack := congrArg BitVec.toNat (pack_normal ha hlow hhigh hleast hmost)
    rw [toNat_packComponents, BitVec.toNat_ofNat, BitVec.toNat_ofNat,
      Nat.mod_eq_of_lt (by omega)] at hpack
    have hfraction : a % 2 ^ 52 = a - 2 ^ 52 := by omega
    rw [hfraction] at hpack
    exact hpack
  have hmantissa : 2 ^ 52 + (a - 2 ^ 52) = a := by omega
  have hexponent : ((q + 1075).toNat : Int) - 1075 = q := by omega
  rw [parts_of_components hbits (by omega) (by omega) (by omega), hmantissa, hexponent]

theorem unpack_pack {a : Nat} {q : Int} (ha : 0 < a) (hlow : 2 ^ 52 ≤ a) (hhigh : a < 2 ^ 53)
    (hleast : -1074 ≤ q) (hmost : q ≤ 971) :
    (Float.Model.pack (.finite .positive a q ha)).unpack = .finite .positive a q ha := by
  have hpack : (Float.Model.pack (.finite .positive a q ha)).toBits.toBitVec = _ :=
    pack_normal ha hlow hhigh hleast hmost
  have hbits : (BitVec.ofNat 11 (q + 1075).toNat).toNat = (q + 1075).toNat := by
    rw [BitVec.toNat_ofNat, Nat.mod_eq_of_lt (by omega)]
  have hall : BitVec.ofNat 11 (q + 1075).toNat ≠ -1#_ := by
    have hones : (-1#11).toNat = 2047 := rfl
    rw [ne_eq, ← BitVec.toNat_inj, hbits, hones]
    omega
  have hzero : BitVec.ofNat 11 (q + 1075).toNat ≠ 0#_ := by
    rw [ne_eq, ← BitVec.toNat_inj, hbits, BitVec.toNat_ofNat]
    omega
  have hmantissa : (1#1 ++ BitVec.ofNat 52 a).toNat = a := by
    have hfraction : a % 2 ^ 52 = a - 2 ^ 52 := by omega
    rw [BitVec.toNat_append, ← Nat.shiftLeft_add_eq_or_of_lt (BitVec.isLt _), BitVec.toNat_ofNat,
      BitVec.toNat_ofNat, hfraction, Nat.shiftLeft_eq]
    omega
  have hexponent : ((BitVec.ofNat 11 (q + 1075).toNat).toNat : Int) -
      (Format.binary64.exponentBias + (52 : Nat)) = q := by
    rw [hbits]
    simp only [Format.exponentBias]
    norm_num
    omega
  rw [Float.Model.unpack, hpack]
  exact unpack_components hall hzero hmantissa hexponent

end Packing

section Rounding

theorem shiftRight_zero (em : ExtendedMantissa) : em >>> 0 = em := rfl

theorem shiftRight_succ (em : ExtendedMantissa) (n : Nat) :
    em >>> (n + 1) = (em >>> n).shiftRightOne := rfl

theorem mantissa_shiftRight (em : ExtendedMantissa) (n : Nat) :
    (em >>> n).mantissa = em.mantissa / 2 ^ n := by
  induction n with
  | zero =>
    rw [Nat.pow_zero, Nat.div_one]
    rfl
  | succ n ih =>
    rw [shiftRight_succ, Nat.pow_succ, ← Nat.div_div_eq_div_mul, ← ih]
    rfl

theorem shiftRight_exact (a n : Nat) :
    (ExtendedMantissa.mk (a * 2 ^ n) false false) >>> n = ⟨a, false, false⟩ := by
  induction n generalizing a with
  | zero =>
    rw [Nat.pow_zero, Nat.mul_one]
    rfl
  | succ n ih =>
    have heq : a * 2 ^ (n + 1) = a * 2 * 2 ^ n := by ring
    have hmod : a * 2 % 2 = 0 := Nat.mul_mod_left a 2
    have hdiv : a * 2 / 2 = a := Nat.mul_div_cancel a (by omega)
    rw [heq, shiftRight_succ, ih]
    simp only [ExtendedMantissa.shiftRightOne, hmod, hdiv]
    rfl

theorem roundedMantissa_mem (em : ExtendedMantissa) :
    em.mantissa ≤ em.roundedMantissa ∧ em.roundedMantissa ≤ em.mantissa + 1 := by
  obtain ⟨m, roundBit, stickyBit⟩ := em
  cases roundBit <;> cases stickyBit <;>
    simp only [ExtendedMantissa.roundedMantissa, ExtendedMantissa.accuracy,
      Accuracy.roundToNearestEven] <;> omega

theorem targetExponent_eq (m : Nat) (e : Int) :
    Format.binary64.targetExponent (totalExponent m e) = max (m.log2 + e - 52) (-1074) := by
  have hbits : Format.mantissaBits Format.binary64 = 53 := rfl
  simp only [Format.targetExponent, totalExponent, Format.minExponent, hbits]
  norm_num
  omega

/-- A mantissa with 53 binary digits at least is cut down to 53. -/
theorem shiftToTargetExponent_eq {m s : Nat} {e : Int} (hs : m.log2 = 52 + s)
    (he : -1074 ≤ e + s) :
    shiftToTargetExponent Format.binary64 m e .exact =
      (ExtendedMantissa.mk m false false >>> s, e + s) := by
  have hshift : (max ((m.log2 : Int) + e - 52) (-1074) - e).toNat = s := by omega
  simp only [shiftToTargetExponent, shiftToExponent, targetExponent_eq, hshift,
    ExtendedMantissa.ofMantissaAndAccuracy]

theorem roundWithAccuracy_of {m : Nat} {e e' q : Int} {first second : ExtendedMantissa}
    (hfirst : shiftToTargetExponent Format.binary64 m e .exact = (first, e'))
    (hsecond : shiftToTargetExponent Format.binary64 first.roundedMantissa e' .exact = (second, q))
    (h : 0 < second.mantissa) :
    roundWithAccuracy Format.binary64 .positive m e .exact =
      .finite .positive second.mantissa q h := by
  unfold roundWithAccuracy
  rw [hfirst]
  dsimp only
  rw [hsecond]
  exact dif_neg (Nat.ne_of_gt h)

theorem cut_bounds {m s : Nat} (h : m.log2 = 52 + s) : 2 ^ 52 ≤ m / 2 ^ s ∧ m / 2 ^ s < 2 ^ 53 := by
  have hne : m ≠ 0 := by
    rintro rfl
    rw [Nat.log2_zero] at h
    omega
  constructor
  · rw [Nat.le_div_iff_mul_le (by positivity), ← Nat.pow_add, ← h]
    exact Nat.log2_self_le hne
  · have hlog : 53 + s = m.log2 + 1 := by omega
    rw [Nat.div_lt_iff_lt_mul (by positivity), ← Nat.pow_add, hlog]
    exact Nat.lt_log2_self

/-- Rounding cuts a mantissa down to 53 binary digits and may carry into one more. A number that has
no more of them is left as it is. -/
theorem roundWithAccuracy_eq {m : Nat} {e : Int} {s : Nat} (hm : m.log2 = 52 + s)
    (he : -1074 ≤ e + s) :
    ∃ a q ha, roundWithAccuracy Format.binary64 .positive m e .exact = .finite .positive a q ha ∧
      2 ^ 52 ≤ a ∧ a < 2 ^ 53 ∧ e + s ≤ q ∧ q ≤ e + s + 1 ∧
      (2 ^ s ∣ m → a * 2 ^ s = m ∧ q = e + s) := by
  have hfirst := shiftToTargetExponent_eq hm he
  have hexact : 2 ^ s ∣ m →
      (ExtendedMantissa.mk m false false >>> s).roundedMantissa * 2 ^ s = m := by
    rintro ⟨a, rfl⟩
    rw [Nat.mul_comm (2 ^ s) a, shiftRight_exact]
    rfl
  have hcut := cut_bounds hm
  rw [← mantissa_shiftRight ⟨m, false, false⟩] at hcut
  generalize ExtendedMantissa.mk m false false >>> s = cut at hfirst hexact hcut
  have hround := roundedMantissa_mem cut
  by_cases hcarry : cut.roundedMantissa < 2 ^ 53
  · have hlog : cut.roundedMantissa.log2 = 52 + 0 := log2_of_normal (by omega) hcarry
    have hsecond := shiftToTargetExponent_eq hlog (e := e + s) (by omega)
    rw [shiftRight_zero, Nat.cast_zero, add_zero] at hsecond
    have hpos : 0 < cut.roundedMantissa := by omega
    exact ⟨_, _, hpos, roundWithAccuracy_of hfirst hsecond hpos, by omega, hcarry, le_rfl, by omega,
      fun h => ⟨hexact h, rfl⟩⟩
  · have hcarried : cut.roundedMantissa = 2 ^ 53 := by omega
    have hlog : cut.roundedMantissa.log2 = 52 + 1 := by rw [hcarried, Nat.log2_two_pow]
    have hsecond := shiftToTargetExponent_eq hlog (e := e + s) (by omega)
    have hhalf : ExtendedMantissa.mk cut.roundedMantissa false false >>> 1 =
        ⟨2 ^ 52, false, false⟩ := by
      rw [hcarried]
      exact shiftRight_exact (2 ^ 52) 1
    rw [hhalf] at hsecond
    refine ⟨_, _, by decide, roundWithAccuracy_of hfirst hsecond (by decide), le_rfl, by decide,
      by omega, by omega, ?_⟩
    -- a number that is cut without loss carries nothing
    intro h
    have hlarge := hexact h
    rw [hcarried, ← Nat.pow_add] at hlarge
    rw [← hlarge, Nat.log2_two_pow] at hm
    omega

/-- Rounding a natural number gives an integer, and the number itself if it fits a double. -/
theorem integer?_rounded {n m b : Nat} {e : Int} (hn : 0 < n) (hb : b ≤ 1000) (hsize : n < 2 ^ b)
    (hm : 2 ^ 52 ≤ m) (hvalue : scaled m e = n) :
    ∃ r : Nat, (parts (.ofModel (.pack
        (roundWithAccuracy Format.binary64 .positive m e .exact)))).integer? = some (r : Int) ∧
      (FitsDouble n → r = n) := by
  have hne : m ≠ 0 := by omega
  obtain ⟨s, hs⟩ : ∃ s, m.log2 = 52 + s := Nat.exists_eq_add_of_le ((Nat.le_log2 hne).mpr hm)
  have hlow : 2 ^ (52 + s) ≤ m := hs ▸ Nat.log2_self_le hne
  have hhigh : m < 2 ^ (53 + s) := by
    rw [show 53 + s = m.log2 + 1 by omega]
    exact Nat.lt_log2_self
  have hbelow := two_zpow_le_scaled hlow e
  have habove := scaled_lt_two_zpow hhigh e
  rw [hvalue] at hbelow habove
  have hleast : -53 < e + s := by
    have hone : (2 : ℚ) ^ (0 : Int) ≤ n := by
      rw [zpow_zero]
      exact Nat.one_le_cast.mpr hn
    have hexp := (zpow_lt_zpow_iff_right₀ one_lt_two).mp (hone.trans_lt habove)
    push_cast at hexp
    omega
  have hmost : e + s < 948 := by
    have hlt : (n : ℚ) < 2 ^ (b : Int) := by exact_mod_cast hsize
    have hexp := (zpow_lt_zpow_iff_right₀ one_lt_two).mp (hbelow.trans_lt hlt)
    push_cast at hexp
    omega
  obtain ⟨a, q, ha, hround, halow, hahigh, hqlow, hqhigh, hexact⟩ :=
    roundWithAccuracy_eq hs (by omega : -1074 ≤ e + s)
  rw [hround, parts_pack ha halow hahigh (by omega) (by omega)]
  by_cases hfits : FitsDouble n
  · obtain ⟨hcut, rfl⟩ := hexact (dvd_of_fitsDouble hfits hvalue hlow)
    refine ⟨n, integer?_of_scaled ?_, fun _ => rfl⟩
    rw [← scaled_shift, hcut, hvalue]
  · -- a number that does not fit has more than 53 digits, so its last digits are cut off
    have hlarge : (2 : ℚ) ^ (53 : Int) ≤ n := by
      have hge : 2 ^ 53 ≤ n := Nat.le_of_not_lt (mt fitsDouble_of_lt hfits)
      exact_mod_cast hge
    have hexp := (zpow_lt_zpow_iff_right₀ one_lt_two).mp (hlarge.trans_lt habove)
    have hq : 0 ≤ q := by
      push_cast at hexp
      omega
    refine ⟨a * 2 ^ q.toNat, ?_, fun h => absurd h hfits⟩
    rw [integer?_finite, if_pos hq]
    rfl

end Rounding

section Reading

/-- A normal double that is equal to a natural number. -/
def IsNormal (x : Float) (n : Nat) : Prop :=
  ∃ a q ha, x.toModel.unpack = .finite .positive a q ha ∧ 2 ^ 52 ≤ a ∧ scaled a q = n

theorem isNormal_toFloat {m : Nat} (hpos : 0 < m) (hm : m < 2 ^ 53) :
    IsNormal m.toUInt64.toFloat m := by
  have hlog : m.log2 < 53 := (Nat.log2_lt (by omega)).mpr hm
  obtain ⟨j, hj⟩ : ∃ j, 52 = m.log2 + j := Nat.exists_eq_add_of_le (by omega)
  have hdigits : (m * 2 ^ j).log2 = 52 + 0 := by
    refine log2_of_normal ?_ ?_
    · rw [hj, Nat.pow_add]
      exact Nat.mul_le_mul_right _ (Nat.log2_self_le (by omega))
    · rw [show 53 = m.log2 + 1 + j by omega, Nat.pow_add]
      exact Nat.mul_lt_mul_of_pos_right Nat.lt_log2_self (by positivity)
  have hdecrease : decreaseExponent m 0 (Format.binary64.targetExponent (totalExponent m 0)) =
      (m * 2 ^ j, -(j : Int)) := by
    have hshift : (0 - max ((m.log2 : Int) + 0 - 52) (-1074)).toNat = j := by omega
    rw [targetExponent_eq, decreaseExponent, hshift, Nat.shiftLeft_eq, zero_sub]
  obtain ⟨a, q, ha, hround, hlow, hhigh, hqlow, hqhigh, hexact⟩ :=
    roundWithAccuracy_eq hdigits (e := -(j : Int)) (by omega)
  obtain ⟨hcut, hq⟩ := hexact (by rw [Nat.pow_zero]; exact Nat.one_dvd _)
  have hnat : m.toUInt64.toNat = m := Nat.mod_eq_of_lt (by omega)
  have hmodel : m.toUInt64.toFloat.toModel = .pack (.finite .positive a q ha) := by
    have hpositive : compare (m : Int) 0 = .gt := Int.compare_eq_gt.mpr (by omega)
    rw [← hround]
    simp only [UInt64.toFloat, Float.Model.ofUInt64, UnpackedFloat.ofUInt64, UnpackedFloat.ofNat,
      UnpackedFloat.ofInt, UnpackedFloat.normalize, hnat, hpositive, Int.toNat_natCast,
      UnpackedFloat.round, hdecrease]
  refine ⟨a, q, ha, ?_, hlow, ?_⟩
  · rw [hmodel, unpack_pack ha hlow hhigh (by omega) (by omega)]
  · rw [Nat.pow_zero, Nat.mul_one] at hcut
    rw [hcut, hq, Nat.cast_zero, add_zero, scaled_shift, neg_add_cancel, scaled_zero]

/-- A test for normal doubles that compares natural numbers only. -/
def isNormal (x : Float) (n : Nat) : Bool :=
  match x.toModel.unpack with
  | .finite .positive a q _ => 2 ^ 52 ≤ a && -52 ≤ q && a * 2 ^ (q + 52).toNat == n * 2 ^ 52
  | _ => false

theorem isNormal_sound {x : Float} {n : Nat} (h : isNormal x n = true) : IsNormal x n := by
  unfold isNormal at h
  split at h
  · next a q ha hx =>
    simp only [Bool.and_eq_true, decide_eq_true_eq, beq_iff_eq] at h
    obtain ⟨⟨hlow, hq⟩, hvalue⟩ := h
    refine ⟨a, q, ha, hx, hlow, ?_⟩
    have hscaled := scaled_shift a (q + 52).toNat (-52)
    rw [hvalue, Int.toNat_of_nonneg (by omega), show -52 + (q + 52) = q by omega] at hscaled
    rw [← hscaled, scaled_shift n 52 (-52)]
    exact scaled_zero n
  · cases h

/-- The powers of ten up to the one with exponent 22 are doubles. -/
theorem isNormal_powerOfTen (i : Fin Float.exactlyRepresentablePowersOfTen.size) :
    IsNormal Float.exactlyRepresentablePowersOfTen[i] (10 ^ i.val) := by
  refine isNormal_sound ?_
  revert i
  decide +kernel

theorem unpack_mul {x y : Float} {m n : Nat} (hx : IsNormal x m) (hy : IsNormal y n) :
    ∃ a e, 2 ^ 52 ≤ a ∧ scaled a e = (m * n : Nat) ∧
      x * y = .ofModel (.pack (roundWithAccuracy Format.binary64 .positive a e .exact)) := by
  obtain ⟨a, e, ha, hxa, hlow, hm⟩ := hx
  obtain ⟨b, f, hb, hyb, hlow', hn⟩ := hy
  refine ⟨a * b, e + f, ?_, ?_, ?_⟩
  · exact hlow.trans (Nat.le_mul_of_pos_right a hb)
  · rw [scaled_mul, hm, hn, Nat.cast_mul]
  · change Float.ofModel (.pack (UnpackedFloat.mul Format.binary64 x.toModel.unpack
      y.toModel.unpack)) = _
    rw [hxa, hyb]
    rfl

theorem ofScientific_eq {m k : Nat} (hm : 0 < m) (hk : k ≤ 2 ^ 11) :
    ∃ a e, 2 ^ 52 ≤ a ∧ scaled a e = (m * 10 ^ k : Nat) ∧
      Float.ofScientific m false k =
        .ofModel (.pack (roundWithAccuracy Format.binary64 .positive a e .exact)) := by
  by_cases hfast : m < 2 ^ 53 ∧ k ≤ 22
  · obtain ⟨a, e, hlow, hvalue, hmul⟩ :=
      unpack_mul (isNormal_toFloat hm hfast.1) (isNormal_powerOfTen ⟨k, Nat.lt_succ_of_le hfast.2⟩)
    refine ⟨a, e, hlow, hvalue, ?_⟩
    rw [Float.ofScientific, dif_pos hfast]
    exact hmul
  · refine ⟨m <<< 53 * 10 ^ k, -53, ?_, ?_, ?_⟩
    · rw [Nat.shiftLeft_eq]
      calc 2 ^ 52 ≤ 2 ^ 53 := by omega
        _ ≤ m * 2 ^ 53 := Nat.le_mul_of_pos_left _ hm
        _ ≤ m * 2 ^ 53 * 10 ^ k := Nat.le_mul_of_pos_right _ (by positivity)
    · rw [Nat.shiftLeft_eq, Nat.mul_right_comm, scaled_shift]
      exact scaled_zero _
    · have hbound : ¬((k : Int) > 2 ^ Format.binary64.exponentBits) := by
        norm_num
        omega
      have hbound' : ¬((k : Int) < -((2 ^ Format.binary64.exponentBits : Int) + m.log2)) := by
        norm_num
        omega
      have hscaled : UnpackedFloat.ofScientific Format.binary64 m k =
          roundWithAccuracy Format.binary64 .positive (m <<< 53 * 10 ^ k) (-53) .exact := by
        rw [UnpackedFloat.ofScientific, dif_neg (Nat.ne_of_gt hm), if_neg hbound, if_neg hbound',
          if_pos (Int.natCast_nonneg k)]
        rfl
      rw [Float.ofScientific, dif_neg hfast, ← hscaled]
      rfl

theorem lt_pow_digitCount (n : Nat) : n < 10 ^ digitCount n :=
  (Nat.length_toDigits_le_iff (by omega) Nat.length_toDigits_pos).mp le_rfl

theorem digitCount_le {n k : Nat} (hk : 0 < k) (h : n < 10 ^ k) : digitCount n ≤ k :=
  (Nat.length_toDigits_le_iff (by omega) hk).mpr h

/-- Three decimal digits are less than ten binary ones. -/
theorem lt_of_digitCount_le {n k : Nat} (h : digitCount n ≤ 3 * k) : n < 2 ^ (10 * k) := by
  calc n < 10 ^ digitCount n := lt_pow_digitCount n
    _ ≤ 10 ^ (3 * k) := Nat.pow_le_pow_right (by omega) h
    _ = (10 ^ 3) ^ k := Nat.pow_mul 10 3 k
    _ ≤ (2 ^ 10) ^ k := Nat.pow_le_pow_left (by decide) k
    _ = 2 ^ (10 * k) := (Nat.pow_mul 2 10 k).symm

/-- The exponent moves the digits before it to the left. -/
theorem digitCount_add_le {m : Nat} (hm : 0 < m) (k : Nat) :
    digitCount m + k ≤ digitCount (m * 10 ^ k) := by
  have hlt := lt_pow_digitCount (m * 10 ^ k)
  have hk : k < digitCount (m * 10 ^ k) := by
    have hpow : 10 ^ k < 10 ^ digitCount (m * 10 ^ k) :=
      Nat.lt_of_le_of_lt (Nat.le_mul_of_pos_left _ hm) hlt
    exact (Nat.pow_lt_pow_iff_right (by omega)).mp hpow
  have hcount : digitCount m ≤ digitCount (m * 10 ^ k) - k := by
    refine digitCount_le (by omega) ?_
    rwa [← Nat.mul_lt_mul_right (show 0 < 10 ^ k by positivity), ← Nat.pow_add,
      Nat.sub_add_cancel hk.le]
  omega

/-- The double that is read for a natural number of at most 300 digits is an integer, and it is the
number itself if that fits a double. -/
theorem integer?_nearest {m k : Nat} (h : digitCount (m * 10 ^ k) ≤ 300) :
    ∃ r : Nat, (parts (nearest m k)).integer? = some (r : Int) ∧
      (FitsDouble (m * 10 ^ k) → r = m * 10 ^ k) := by
  rcases Nat.eq_zero_or_pos m with rfl | hm
  · refine ⟨0, ?_, fun _ => (Nat.zero_mul _).symm⟩
    have hzero : nearest 0 k = 0.0 := by simp [nearest]
    rw [hzero]
    decide +kernel
  · have hcount := digitCount_add_le hm k
    obtain ⟨a, e, hlow, hvalue, hread⟩ := ofScientific_eq hm (show k ≤ 2 ^ 11 by omega)
    have hnearest : nearest m k = Float.ofScientific m false k := by
      have hsmall : (m == 0 || decide ((digitCount m : Int) + k < -330)) = false := by
        rw [Bool.or_eq_false_iff, beq_eq_false_iff_ne, decide_eq_false_iff_not]
        omega
      have hlarge : ¬310 < (digitCount m : Int) + k := by omega
      simp only [nearest, hsmall, hlarge, Int.natCast_nonneg, Int.toNat_natCast, ↓reduceIte,
        Bool.false_eq_true]
    rw [hnearest, hread]
    have hsize : m * 10 ^ k < 2 ^ (10 * 100) := lt_of_digitCount_le h
    exact integer?_rounded (Nat.mul_pos hm (by positivity)) (by decide) hsize hlow hvalue

end Reading

end ScriptTyping.Decimal
