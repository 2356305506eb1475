import Mathlib
import TemplateEngine.Heap.Conversion

/-!
# The numbers that floats are

A float that is finite stands for a rational number, its signed mantissa times a power of two
(`exactValue?`). What is read off the bits of a float is the same sign, mantissa and exponent
(`FloatView.of_eq`), so the integer that a binary fraction is said to be is its value
(`Dyadic.toInt?_eq_some_iff`). A float is therefore converted if its value is an integer that a
script can hold, and to that integer, but for the float `2 ^ 63`, which passes the test for the
greatest integer because that integer is no float (`integerOfFloat_eq_ok_iff`).
-/

namespace TemplateEngine

open Float.Model Float.Model.UnpackedFloat

/-! ## What is read off the bits -/

/-- The number that a float stands for, if it is finite. -/
def unpackedValue? : UnpackedFloat → Option ℚ
  | .zero _ => some 0
  | .finite s m e _ => some (s.apply m * 2 ^ e)
  | _ => none

/-- The number that a float stands for, if it is finite. -/
def exactValue? (x : Float) : Option ℚ := unpackedValue? x.toModel.unpack

/-- The view of a float by its sign, its mantissa and its exponent. -/
def FloatView.ofUnpacked : UnpackedFloat → FloatView
  | .notANumber => .notANumber
  | .infinity s => .infinite (s == .negative)
  | .zero s => .finite ⟨s == .negative, 0, -1074⟩
  | .finite s m e _ => .finite ⟨s == .negative, m, e⟩

section

variable (b : BitVec 64)

theorem toNat_unpackMantissa : (@unpackMantissa Format.binary64 b).toNat = b.toNat % 2 ^ 52 := by
  simp [unpackMantissa]

theorem toNat_unpackExponent :
    (@unpackExponent Format.binary64 b).toNat = b.toNat / 2 ^ 52 % 2 ^ 11 := by
  simp [unpackExponent, Nat.shiftRight_eq_div_pow]

theorem toNat_unpackSign : (@unpackSign Format.binary64 b).toNat = b.toNat / 2 ^ 63 := by
  have hlt : b.toNat < 2 ^ 64 := b.isLt
  simp [unpackSign, Nat.shiftRight_eq_div_pow]
  omega

theorem ofBitVec_beq_negative (b : BitVec 1) :
    (Sign.ofBitVec b == .negative) = decide (b.toNat ≠ 0) := by
  revert b
  decide

/-- The leading bit of a normal mantissa, which is not stored. -/
theorem toNat_append_implicit {width : Nat} (m : BitVec width) :
    (1#1 ++ m).toNat = 2 ^ width + m.toNat := by
  rw [BitVec.toNat_append, ← Nat.shiftLeft_add_eq_or_of_lt m.isLt]
  simp [Nat.shiftLeft_eq]

theorem FloatView.ofUnpacked_unpack :
    ofUnpacked (UnpackedFloat.unpack Format.binary64 b) =
      if b.toNat / 2 ^ 52 % 2 ^ 11 = 2047 then
        if b.toNat % 2 ^ 52 = 0 then .infinite (2 ^ 63 ≤ b.toNat) else .notANumber
      else if b.toNat / 2 ^ 52 % 2 ^ 11 = 0 then
        .finite ⟨2 ^ 63 ≤ b.toNat, b.toNat % 2 ^ 52, -1074⟩
      else
        .finite ⟨2 ^ 63 ≤ b.toNat, 2 ^ 52 + b.toNat % 2 ^ 52,
          ((b.toNat / 2 ^ 52 % 2 ^ 11 : Nat) : Int) - 1075⟩ := by
  have hsign : (Sign.ofBitVec (@unpackSign Format.binary64 b) == .negative) =
      decide (2 ^ 63 ≤ b.toNat) := by
    rw [ofBitVec_beq_negative, toNat_unpackSign]
    simp
  have hfull : @unpackExponent Format.binary64 b = -1#_ ↔ b.toNat / 2 ^ 52 % 2 ^ 11 = 2047 := by
    rw [← toNat_unpackExponent, ← BitVec.toNat_inj]
    rfl
  have hempty : @unpackExponent Format.binary64 b = 0#_ ↔ b.toNat / 2 ^ 52 % 2 ^ 11 = 0 := by
    rw [← toNat_unpackExponent, ← BitVec.toNat_inj]
    rfl
  have hfraction : @unpackMantissa Format.binary64 b = 0#_ ↔ b.toNat % 2 ^ 52 = 0 := by
    rw [← toNat_unpackMantissa, ← BitVec.toNat_inj]
    rfl
  have hbias : (Format.binary64.exponentBias : Int) + Format.binary64.mantissaBitsWithoutImplicit =
      1075 := rfl
  simp only [UnpackedFloat.unpack, hfull, hempty, hfraction]
  split
  · split
    · simp only [ofUnpacked, hsign]
    · rfl
  next hnormal =>
    split
    next hsubnormal =>
      split
      next hzero => simp only [ofUnpacked, hsign, hzero]
      · simp only [ofUnpacked, hsign, toNat_unpackMantissa, toNat_unpackExponent, hbias, hsubnormal]
        rfl
    · simp only [ofUnpacked, hsign, toNat_append_implicit, toNat_unpackMantissa,
        toNat_unpackExponent, hbias]

end

/-- The view of a float shows the sign, the mantissa and the exponent that it is unpacked to. -/
theorem FloatView.of_eq (x : Float) : of x = ofUnpacked x.toModel.unpack :=
  (ofUnpacked_unpack x.toModel.toBits.toBitVec).symm

/-! ## Integer values -/

/-- The number that a binary fraction is. -/
def Dyadic.value (d : Dyadic) : ℚ :=
  (if d.negative then -(d.mantissa : ℚ) else d.mantissa) * 2 ^ d.exponent

/-- The value of a finite float is that of its view. -/
theorem exactValue?_eq_some_iff {x : Float} {q : ℚ} :
    exactValue? x = some q ↔ ∃ d, FloatView.of x = .finite d ∧ d.value = q := by
  rw [FloatView.of_eq, exactValue?]
  cases x.toModel.unpack with
  | notANumber => simp [unpackedValue?, FloatView.ofUnpacked]
  | infinity s => simp [unpackedValue?, FloatView.ofUnpacked]
  | zero s => simp [unpackedValue?, FloatView.ofUnpacked, Dyadic.value]
  | finite s m e h =>
    have hvalue : Dyadic.value ⟨s == .negative, m, e⟩ = s.apply m * 2 ^ e := by cases s <;> rfl
    simp [unpackedValue?, FloatView.ofUnpacked, hvalue]

/-- A mantissa times a power of two is a whole number if the power is whole or divides it. -/
theorem magnitude_eq_some_iff (m : Nat) (e : Int) (n : Nat) :
    (if 0 ≤ e then some (m * Nat.pow 2 e.toNat)
      else if m % Nat.pow 2 (-e).toNat = 0 then some (m / Nat.pow 2 (-e).toNat) else none) =
        some n ↔ (m : ℚ) * 2 ^ e = n := by
  split
  next he =>
    obtain ⟨k, rfl⟩ := Int.eq_ofNat_of_zero_le he
    simp only [Option.some.injEq, zpow_natCast, Int.toNat_natCast]
    norm_cast
  next he =>
    obtain ⟨k, rfl⟩ : ∃ k : Nat, e = -k := ⟨(-e).toNat, by omega⟩
    have hpos : 0 < 2 ^ k := Nat.two_pow_pos k
    have hvalue : (m : ℚ) * 2 ^ (-(k : Int)) = n ↔ m = n * 2 ^ k := by
      rw [zpow_neg, zpow_natCast, ← div_eq_mul_inv, div_eq_iff (pow_ne_zero k two_ne_zero)]
      norm_cast
    rw [hvalue]
    simp only [neg_neg, Int.toNat_natCast, Nat.pow_eq]
    split
    next hdvd =>
      rw [Option.some.injEq, Nat.div_eq_iff_eq_mul_left hpos (Nat.dvd_of_mod_eq_zero hdvd)]
    next hdvd =>
      refine iff_of_false nofun fun hm => hdvd ?_
      rw [hm, Nat.mul_mod_left]

theorem exists_natCast_iff {q : ℚ} (hq : 0 ≤ q) (n : Int) :
    (∃ k : Nat, q = k ∧ (k : Int) = n) ↔ q = n := by
  constructor
  · rintro ⟨k, hk, rfl⟩
    exact_mod_cast hk
  · rintro rfl
    obtain ⟨k, rfl⟩ := Int.eq_ofNat_of_zero_le (by exact_mod_cast hq : 0 ≤ n)
    exact ⟨k, by norm_cast, rfl⟩

/-- A binary fraction is said to be the integer that is its value. -/
theorem Dyadic.toInt?_eq_some_iff {d : Dyadic} {n : Int} : d.toInt? = some n ↔ d.value = n := by
  obtain ⟨negative, m, e⟩ := d
  have hnonneg : 0 ≤ (m : ℚ) * 2 ^ e :=
    mul_nonneg (Nat.cast_nonneg m) (zpow_nonneg zero_le_two e)
  have hmagnitude : toInt? ⟨negative, m, e⟩ = some n ↔
      ∃ k : Nat, (m : ℚ) * 2 ^ e = k ∧ (if negative then -(k : Int) else k) = n := by
    simp [toInt?, ← magnitude_eq_some_iff, Option.bind_eq_some_iff]
  rw [hmagnitude, value]
  cases negative with
  | false => exact exists_natCast_iff hnonneg n
  | true =>
    have hneg : -(m : ℚ) * 2 ^ e = n ↔ (m : ℚ) * 2 ^ e = ((-n : Int) : ℚ) := by
      rw [neg_mul, neg_eq_iff_eq_neg, Int.cast_neg]
    simp only [if_true, neg_eq_iff_eq_neg (b := n)]
    rw [exists_natCast_iff hnonneg, hneg]

/-- A float is converted if its value is an integer that a script can hold, and to that integer; the
one above them is converted to the greatest. -/
theorem integerOfFloat_eq_ok_iff {x : Float} {n : Int} :
    integerOfFloat x = .ok n ↔ ∃ k : Int, exactValue? x = some (k : ℚ) ∧
      Integer.least ≤ k ∧ k ≤ Integer.greatest + 1 ∧ n = min k Integer.greatest := by
  simp only [exactValue?_eq_some_iff, ← Dyadic.toInt?_eq_some_iff]
  unfold integerOfFloat
  split
  next d hd =>
    split
    next k hk =>
      simp only [hd, FloatView.finite.injEq, exists_eq_left', hk, Option.some.injEq,
        Bool.and_eq_true, decide_eq_true_eq]
      split
      next hbounds => simp [hbounds.1, hbounds.2, eq_comm (a := n)]
      next hbounds => exact iff_of_false nofun fun h => hbounds ⟨h.1, h.2.1⟩
    next hk => simp [hd, hk]
  next hd =>
    refine iff_of_false nofun ?_
    rintro ⟨k, ⟨d, hfinite, -⟩, -⟩
    exact hd d hfinite

/-- A float that is not converted is refused by its own text. -/
theorem integerOfFloat_eq_ok_or_error (x : Float) :
    (∃ n, integerOfFloat x = .ok n) ∨ integerOfFloat x = .error (.floatToInteger x) := by
  unfold integerOfFloat
  split
  · split
    · split
      · exact .inl ⟨_, rfl⟩
      · exact .inr rfl
    · exact .inr rfl
  · exact .inr rfl

end TemplateEngine
