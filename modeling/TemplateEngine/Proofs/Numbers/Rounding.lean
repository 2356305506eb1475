import TemplateEngine.Proofs.Numbers.FloatValues

/-!
# Rounding whole numbers to floats

The nearest float to a whole number of more than 53 binary digits has the first 53 of them as its
mantissa, which is rounded by what follows, to the even one in the middle (`roundHalfEven`). The
digits that are shifted out are not kept but for two bits, the last one and whether any before it
was set; what the two say of the remainder is the invariant of the shift (`Residue`). Rounding up
can give a 54th digit, which is shifted out as well, and it is a zero then. So the float has the
rounded number as its value, or is infinite if that is too large (`exactValue?_nearest`).
-/

namespace TemplateEngine

open Float.Model Float.Model.UnpackedFloat

/-! ## Rounding a quotient -/

/-- The whole number nearest to a quotient, the even one in the middle between two. -/
def roundHalfEven (n d : Nat) : Nat :=
  if 2 * (n % d) < d ∨ 2 * (n % d) = d ∧ n / d % 2 = 0 then n / d else n / d + 1

section

variable {n d : Nat}

theorem div_le_roundHalfEven (n d : Nat) : n / d ≤ roundHalfEven n d := by
  unfold roundHalfEven
  split <;> omega

theorem roundHalfEven_le (n d : Nat) : roundHalfEven n d ≤ n / d + 1 := by
  unfold roundHalfEven
  split <;> omega

theorem roundHalfEven_mul_right {c : Nat} (hc : 0 < c) (n d : Nat) :
    roundHalfEven (n * c) (d * c) = roundHalfEven n d := by
  have hlt : 2 * (n % d * c) < d * c ↔ 2 * (n % d) < d := by
    rw [← Nat.mul_assoc]
    exact Nat.mul_lt_mul_right hc
  have heq : 2 * (n % d * c) = d * c ↔ 2 * (n % d) = d := by
    rw [← Nat.mul_assoc]
    exact Nat.mul_left_inj (by omega)
  simp only [roundHalfEven, Nat.mul_div_mul_right _ _ hc, Nat.mul_mod_mul_right, hlt, heq]

/-- What the mantissa and the two bits say of a number of which digits were shifted out: the
quotient by the power of two, and how the remainder compares with half of it. -/
structure Residue (n d : Nat) (e : ExtendedMantissa) : Prop where
  mantissa : e.mantissa = n / d
  roundBit : e.roundBit = true ↔ d ≤ 2 * (n % d)
  stickyBit : e.stickyBit = true ↔ 2 * (n % d) ≠ 0 ∧ 2 * (n % d) ≠ d

/-- Shifting out one more digit keeps the bits true to the remainder. -/
theorem Residue.shiftRightOne {e : ExtendedMantissa} (h : Residue n d e) (hd : 0 < d) :
    Residue n (d * 2) e.shiftRightOne := by
  have hmod : n % (d * 2) = n % d + d * (n / d % 2) := Nat.mod_mul
  have hlt : n % d < d := Nat.mod_lt n hd
  have hbit : n / d % 2 = 0 ∨ n / d % 2 = 1 := by omega
  refine ⟨?_, ?_, ?_⟩
  · simp [ExtendedMantissa.shiftRightOne, h.mantissa, Nat.div_div_eq_div_mul]
  · simp only [ExtendedMantissa.shiftRightOne, h.mantissa, hmod, bne_iff_ne]
    rcases hbit with hbit | hbit <;> rw [hbit] <;> omega
  · simp only [ExtendedMantissa.shiftRightOne, Bool.or_eq_true, h.roundBit, h.stickyBit, hmod]
    rcases hbit with hbit | hbit <;> rw [hbit] <;> omega

theorem Residue.exact (n : Nat) : Residue n 1 ⟨n, false, false⟩ := by
  refine ⟨by simp, ?_, ?_⟩ <;> simp [Nat.mod_one]

/-- The bits stay true to the remainder over a run of shifts. -/
theorem Residue.shiftRight (n k : Nat) :
    Residue n (2 ^ k) ((⟨n, false, false⟩ : ExtendedMantissa) >>> k) := by
  induction k with
  | zero => exact .exact n
  | succ k ih => exact ih.shiftRightOne (Nat.two_pow_pos k)

/-- Rounding by the two bits is rounding by the remainder. -/
theorem Residue.roundedMantissa {e : ExtendedMantissa} (h : Residue n d e) (hd : 0 < d) :
    e.roundedMantissa = roundHalfEven n d := by
  obtain ⟨m, r, s⟩ := e
  obtain ⟨hm, hr, hs⟩ := h
  simp only at hm hr hs
  subst hm
  unfold roundHalfEven
  cases r with
  | false =>
    have hbelow : 2 * (n % d) < d := by simpa using hr
    rw [if_pos (.inl hbelow)]
    cases s <;> rfl
  | true =>
    have habove : d ≤ 2 * (n % d) := hr.1 rfl
    cases s with
    | false =>
      have hmiddle : 2 * (n % d) = d := by
        have : 2 * (n % d) ≠ 0 → 2 * (n % d) = d := by simpa using hs
        omega
      show n / d + n / d % 2 = _
      split <;> omega
    | true =>
      rw [if_neg (by have := hs.1 rfl; omega)]
      rfl

end

/-! ## Packing -/

theorem ofBitVec_unpackSign_packComponents (s : Sign) (e : BitVec 11) (m : BitVec 52) :
    Sign.ofBitVec (@unpackSign Format.binary64 (packComponents Format.binary64 s e m)) = s := by
  simp only [unpackSign, packComponents, BitVec.extractLsb]
  rw [BitVec.extractLsb'_append_eq_of_le (by decide),
    BitVec.extractLsb'_append_eq_of_le (by decide)]
  cases s <;> rfl

theorem log2_of_digits {m : Nat} (hlow : 2 ^ 52 ≤ m) (hhigh : m < 2 ^ 53) : m.log2 = 52 :=
  (Nat.log2_eq_iff (by omega)).2 ⟨hlow, hhigh⟩

theorem pack_finite (s : Sign) {m : Nat} (e : Int) (h : 0 < m) :
    UnpackedFloat.pack Format.binary64 (.finite s m e h) =
      if 2 ^ 11 ≤ (e + 1075).toNat + 1 then packedInfinity Format.binary64 s
      else if m.log2 + 1 = 53 then
        packComponents Format.binary64 s (BitVec.ofNat 11 (e + 1075).toNat) (BitVec.ofNat 52 m)
      else packComponents Format.binary64 s 0#11 (BitVec.ofNat 52 m) := by
  have hbias : (e + 1075).toNat = (e + 1023 + 52).toNat := by omega
  rw [hbias]
  rfl

/-- A float with 53 digits is unpacked to what was packed. -/
theorem unpack_pack_of_digits (s : Sign) {m : Nat} {e : Int} (h : 0 < m) (hlow : 2 ^ 52 ≤ m)
    (hhigh : m < 2 ^ 53) (he : 0 ≤ e) (hfits : e ≤ 971) :
    (Float.Model.pack (.finite s m e h)).unpack = .finite s m e h := by
  have hexponent : (BitVec.ofNat 11 (e + 1075).toNat).toNat = (e + 1075).toNat := by
    rw [BitVec.toNat_ofNat, Nat.mod_eq_of_lt (by omega)]
  have hfull : BitVec.ofNat 11 (e + 1075).toNat ≠ -1#11 := fun hfull => by
    have : (e + 1075).toNat = 2047 := hexponent ▸ congrArg BitVec.toNat hfull
    omega
  have hempty : BitVec.ofNat 11 (e + 1075).toNat ≠ 0#11 := fun hempty => by
    have : (e + 1075).toNat = 0 := hexponent ▸ congrArg BitVec.toNat hempty
    omega
  have hmantissa : (1#1 ++ BitVec.ofNat 52 m).toNat = m := by
    rw [toNat_append_implicit, BitVec.toNat_ofNat]
    omega
  have hbias : (Format.binary64.exponentBias : Int) + Format.binary64.mantissaBitsWithoutImplicit =
      1075 := rfl
  change UnpackedFloat.unpack Format.binary64 (UnpackedFloat.pack Format.binary64 _) = _
  rw [pack_finite, if_neg (by omega), if_pos (by rw [log2_of_digits hlow hhigh])]
  simp only [UnpackedFloat.unpack, unpackMantissa_packComponents, unpackExponent_packComponents,
    ofBitVec_unpackSign_packComponents, hfull, hempty, hexponent, hmantissa, hbias, if_false,
    UnpackedFloat.finite.injEq, true_and]
  omega

/-- A float whose exponent is too large is unpacked to infinity. -/
theorem unpack_pack_too_large (s : Sign) {m : Nat} {e : Int} (h : 0 < m) (hlarge : 971 < e) :
    (Float.Model.pack (.finite s m e h)).unpack = .infinity s := by
  change UnpackedFloat.unpack Format.binary64 (UnpackedFloat.pack Format.binary64 _) = _
  rw [pack_finite, if_pos (by omega)]
  cases s <;> rfl

/-! ## The nearest float -/

/-- The whole number with 53 binary digits and zeros behind them that is nearest to a whole number
of at least as many. -/
def roundToDigits (n : Nat) : Nat :=
  roundHalfEven n (2 ^ (n.log2 - 52)) * 2 ^ (n.log2 - 52)

/-- The digits that are left of a number, after rounding, and with one more at the most. -/
theorem roundHalfEven_digits {m t : Nat} (hm : m ≠ 0) (ht : m.log2 = t + 52) :
    2 ^ 52 ≤ roundHalfEven m (2 ^ t) ∧ roundHalfEven m (2 ^ t) ≤ 2 ^ 53 := by
  constructor
  · refine Nat.le_trans ?_ (div_le_roundHalfEven m _)
    rw [Nat.le_div_iff_mul_le (Nat.two_pow_pos t), ← Nat.pow_add, Nat.add_comm, ← ht]
    exact Nat.log2_self_le hm
  · refine Nat.le_trans (roundHalfEven_le m _) ?_
    rw [Nat.add_one_le_iff, Nat.div_lt_iff_lt_mul (Nat.two_pow_pos t), ← Nat.pow_add,
      show 53 + t = m.log2 + 1 by omega]
    exact Nat.lt_log2_self

theorem log2_mul_two_pow {m : Nat} (hm : m ≠ 0) (k : Nat) : (m * 2 ^ k).log2 = m.log2 + k := by
  have hpos : 0 < 2 ^ k := Nat.two_pow_pos k
  have hlow : 2 ^ m.log2 ≤ m := Nat.log2_self_le hm
  have hhigh : m < 2 ^ (m.log2 + 1) := Nat.lt_log2_self
  rw [Nat.log2_eq_iff (Nat.mul_ne_zero hm (by omega)), Nat.pow_add, Nat.add_right_comm, Nat.pow_add]
  exact ⟨Nat.mul_le_mul_right _ hlow, Nat.mul_lt_mul_of_pos_right hhigh hpos⟩

theorem shiftToTargetExponent_binary64 (m : Nat) (e : Int) :
    shiftToTargetExponent Format.binary64 m e .exact =
      ((⟨m, false, false⟩ : ExtendedMantissa) >>> (max (m.log2 + 1 + e - 53) (-1074) - e).toNat,
        e + (max (m.log2 + 1 + e - 53) (-1074) - e).toNat) := rfl

/-- A number of 53 digits, or the next one after them, is left with 53 digits. -/
theorem shiftToTargetExponent_of_digits {m : Nat} {e : Int} (hlow : 2 ^ 52 ≤ m)
    (hhigh : m ≤ 2 ^ 53) (he : 0 ≤ e) :
    ∃ (em : ExtendedMantissa) (k : Nat),
      shiftToTargetExponent Format.binary64 m e .exact = (em, e + k) ∧
      em.mantissa * 2 ^ k = m ∧ 2 ^ 52 ≤ em.mantissa ∧ em.mantissa < 2 ^ 53 := by
  rw [shiftToTargetExponent_binary64]
  rcases Nat.lt_or_eq_of_le hhigh with hlt | rfl
  · rw [log2_of_digits hlow hlt, show (max ((52 : Nat) + 1 + e - 53) (-1074) - e).toNat = 0 by omega]
    exact ⟨_, 0, rfl, Nat.mul_one m, hlow, hlt⟩
  · rw [Nat.log2_two_pow, show (max ((53 : Nat) + 1 + e - 53) (-1074) - e).toNat = 1 by omega]
    have hmantissa : 2 ^ 53 / 2 = 2 ^ 52 := rfl
    exact ⟨⟨2 ^ 53 / 2, false, false⟩, 1, rfl, rfl, by rw [hmantissa], by rw [hmantissa]; decide⟩

/-- Rounding a whole number gives 53 digits and an exponent, of which the rounded number is made. -/
theorem roundWithAccuracy_whole (s : Sign) {m : Nat} (hm : 2 ^ 53 ≤ m) :
    ∃ (d : Nat) (k : Nat) (h : 0 < d), 2 ^ 52 ≤ d ∧ d < 2 ^ 53 ∧ d * 2 ^ k = roundToDigits m ∧
      roundWithAccuracy Format.binary64 s (m * 2 ^ 53) (-53) .exact = .finite s d k h := by
  have hlog : 53 ≤ m.log2 := (Nat.le_log2 (by omega)).2 hm
  obtain ⟨t, ht⟩ : ∃ t, m.log2 = t + 52 := ⟨m.log2 - 52, by omega⟩
  have hfirst : shiftToTargetExponent Format.binary64 (m * 2 ^ 53) (-53) .exact =
      ((⟨m * 2 ^ 53, false, false⟩ : ExtendedMantissa) >>> (t + 53), (t : Int)) := by
    rw [shiftToTargetExponent_binary64, log2_mul_two_pow (by omega), ht,
      show (max (((t + 52 + 53 : Nat) : Int) + 1 + -53 - 53) (-1074) - -53).toNat = t + 53 by omega]
    congr 1
    omega
  have hrounded : ((⟨m * 2 ^ 53, false, false⟩ : ExtendedMantissa) >>> (t + 53)).roundedMantissa =
      roundHalfEven m (2 ^ t) := by
    rw [(Residue.shiftRight _ _).roundedMantissa (Nat.two_pow_pos _), Nat.pow_add,
      roundHalfEven_mul_right (by decide)]
  obtain ⟨hlow, hhigh⟩ := roundHalfEven_digits (by omega) ht
  obtain ⟨em, k, hsecond, hvalue, hdlow, hdhigh⟩ :=
    shiftToTargetExponent_of_digits hlow hhigh (Int.natCast_nonneg t)
  refine ⟨em.mantissa, t + k, by omega, hdlow, hdhigh, ?_, ?_⟩
  · rw [roundToDigits, show m.log2 - 52 = t by omega, ← hvalue, Nat.mul_assoc, ← Nat.pow_add,
      Nat.add_comm k]
  · simp only [roundWithAccuracy, hfirst, hrounded, hsecond]
    rw [dif_neg (by omega)]
    rfl

/-- The float read from the digits of a whole number is the packed rounded number. -/
theorem ofScientific_whole {m : Nat} (hm : 2 ^ 53 ≤ m) :
    Float.ofScientific m false 0 = Float.ofModel (Float.Model.pack
      (roundWithAccuracy Format.binary64 .positive (m * 2 ^ 53) (-53) .exact)) := by
  have hmodel : Float.ofScientific m false 0 = Float.ofModel (Float.Model.ofScientific m 0) :=
    dif_neg (by omega)
  have hnonzero : m ≠ 0 := by omega
  have hlarge : ¬(0 : Int) < -((2 ^ Format.binary64.exponentBits : Int) + m.log2) := by
    change ¬(0 : Int) < -(2048 + (m.log2 : Int))
    omega
  have hone : m <<< 53 * 10 ^ (0 : Int).toNat = m * 2 ^ 53 := by
    rw [Nat.shiftLeft_eq]
    exact Nat.mul_one _
  rw [hmodel, Float.Model.ofScientific, UnpackedFloat.ofScientific, dif_neg hnonzero,
    if_neg (by decide), if_neg hlarge, if_pos (by decide), ← hone]
  rfl

/-- The float with the sign, which is written before it. -/
def signed (negative : Bool) (x : Float) : Float := if negative then -x else x

/-- A sign is put before what a float is unpacked to, if that survives being packed. -/
theorem unpack_signed {x : Float} {u : UnpackedFloat} (hx : x.toModel.unpack = u)
    (hneg : (Float.Model.pack u.neg).unpack = u.neg) (negative : Bool) :
    (signed negative x).toModel.unpack = if negative then u.neg else u := by
  cases negative with
  | false => exact hx
  | true =>
    change (Float.Model.pack x.toModel.unpack.neg).unpack = u.neg
    rw [hx, hneg]

/-- A float of 53 digits has the number that they make as its value, with either sign. -/
theorem exactValue?_of_digits {x : Float} {d k : Nat} {h : 0 < d}
    (hx : x.toModel = Float.Model.pack (.finite .positive d k h)) (hlow : 2 ^ 52 ≤ d)
    (hhigh : d < 2 ^ 53) (hk : k ≤ 971) (negative : Bool) :
    exactValue? (signed negative x) =
      some (((if negative then -(d * 2 ^ k : Nat) else (d * 2 ^ k : Nat)) : Int) : ℚ) := by
  have hback (s : Sign) : (Float.Model.pack (.finite s d k h)).unpack = .finite s d k h :=
    unpack_pack_of_digits s h hlow hhigh (Int.natCast_nonneg k) (by omega)
  have hunpack : x.toModel.unpack = .finite .positive d k h := by rw [hx, hback]
  rw [exactValue?, unpack_signed hunpack (hback .negative)]
  have hvalue (s : Sign) :
      unpackedValue? (.finite s d k h) = some ((s.apply (d * 2 ^ k : Nat) : Int) : ℚ) := by
    cases s <;> simp [unpackedValue?, Sign.apply]
  cases negative with
  | false => exact hvalue .positive
  | true => exact hvalue .negative

/-- A float whose exponent is too large has no value, with either sign. -/
theorem exactValue?_of_too_large {x : Float} {d k : Nat} {h : 0 < d}
    (hx : x.toModel = Float.Model.pack (.finite .positive d k h)) (hk : 971 < k)
    (negative : Bool) : exactValue? (signed negative x) = none := by
  have hunpack : x.toModel.unpack = .infinity .positive := by
    rw [hx, unpack_pack_too_large _ _ (by omega)]
  rw [exactValue?, unpack_signed hunpack rfl]
  cases negative <;> rfl

/-- The float read from a whole number and a sign has the rounded number as its value, unless that
is too large for a float. -/
theorem exactValue?_ofScientific (negative : Bool) {m : Nat} (hm : 2 ^ 53 ≤ m) :
    exactValue? (signed negative (Float.ofScientific m false 0)) =
      if (roundToDigits m).log2 < 1024 then
        some (((if negative then -(roundToDigits m : Int) else roundToDigits m) : Int) : ℚ)
      else none := by
  obtain ⟨d, k, hpos, hlow, hhigh, hvalue, hround⟩ := roundWithAccuracy_whole .positive hm
  have hx : (Float.ofScientific m false 0).toModel =
      Float.Model.pack (.finite .positive d k hpos) := by
    rw [ofScientific_whole hm, hround]
  have hlog : (roundToDigits m).log2 = 52 + k := by
    rw [← hvalue, log2_mul_two_pow (by omega), log2_of_digits hlow hhigh]
  by_cases hk : k ≤ 971
  · rw [if_pos (by omega), exactValue?_of_digits hx hlow hhigh hk, hvalue]
  · rw [if_neg (by omega), exactValue?_of_too_large hx (by omega)]

/-- A number is rounded to no fewer digits than it has. -/
theorem log2_le_log2_roundToDigits {m : Nat} (hm : 2 ^ 53 ≤ m) :
    m.log2 ≤ (roundToDigits m).log2 := by
  have hlog : 53 ≤ m.log2 := (Nat.le_log2 (by omega)).2 hm
  obtain ⟨t, ht⟩ : ∃ t, m.log2 = t + 52 := ⟨m.log2 - 52, by omega⟩
  have hlow := (roundHalfEven_digits (by omega) ht).1
  rw [roundToDigits, show m.log2 - 52 = t by omega, log2_mul_two_pow (by omega), ht, Nat.add_comm,
    Nat.add_le_add_iff_right]
  exact (Nat.le_log2 (by omega)).2 hlow

theorem exactValue?_infinite (negative : Bool) :
    exactValue? (signed negative (1.0 / 0.0)) = none := by
  have hview : FloatView.of (signed negative (1.0 / 0.0)) = .infinite negative := by
    cases negative <;> decide +kernel
  rw [Option.eq_none_iff_forall_ne_some]
  intro q hq
  obtain ⟨d, hd, -⟩ := exactValue?_eq_some_iff.1 hq
  rw [hview] at hd
  cases hd

/-- The float nearest to a whole number, with a sign, has the rounded number as its value, unless
that is too large for a float. -/
theorem exactValue?_nearest (negative : Bool) {m : Nat} (hm : 2 ^ 53 ≤ m) :
    exactValue? (signed negative (Reading.nearest m 0)) =
      if (roundToDigits m).log2 < 1024 then
        some (((if negative then -(roundToDigits m : Int) else roundToDigits m) : Int) : ℚ)
      else none := by
  unfold Reading.nearest
  extract_lets size
  rw [if_neg (by simp [size]; omega)]
  split
  next hsize =>
    have hnonzero : m ≠ 0 := by omega
    have hlong := Nat.not_lt.1 (mt (Nat.length_repr_le_iff (n := m) (k := 400) (by decide)).2 (by
      change ¬(toString m).length ≤ 400
      omega))
    have hlog : 1024 ≤ m.log2 :=
      (Nat.le_log2 hnonzero).2 (Nat.le_trans (by decide +kernel) hlong)
    have := log2_le_log2_roundToDigits hm
    rw [if_neg (by omega), exactValue?_infinite]
  · exact exactValue?_ofScientific negative hm

/-- Of the whole numbers from `2 ^ 63` on, those up to the middle between it and the next float are
rounded to it, and the others are rounded to more. -/
theorem roundToDigits_of_le {m : Nat} (hlow : 2 ^ 63 ≤ m) (hhigh : m ≤ 2 ^ 63 + 1024) :
    roundToDigits m = 2 ^ 63 := by
  have hlog : m.log2 = 63 := (Nat.log2_eq_iff (by omega)).2 ⟨hlow, by omega⟩
  rw [roundToDigits, hlog]
  have hrounded : roundHalfEven m (2 ^ (63 - 52)) = 2 ^ 52 := by
    unfold roundHalfEven
    split <;> omega
  rw [hrounded]
  rfl

theorem lt_roundToDigits {m : Nat} (h : 2 ^ 63 + 1024 < m) : 2 ^ 63 < roundToDigits m := by
  have hlog : 63 ≤ m.log2 := (Nat.le_log2 (by omega)).2 (by omega)
  rcases Nat.eq_or_lt_of_le hlog with hlog | hlog
  · have hhigh : m < 2 ^ (63 + 1) := hlog ▸ Nat.lt_log2_self
    rw [roundToDigits, ← hlog]
    have hrounded : 2 ^ 52 + 1 ≤ roundHalfEven m (2 ^ (63 - 52)) := by
      unfold roundHalfEven
      split <;> omega
    omega
  · have hdigits := log2_le_log2_roundToDigits (show 2 ^ 53 ≤ m by omega)
    have hnonzero : roundToDigits m ≠ 0 := fun hzero => by
      rw [hzero, Nat.log2_zero] at hdigits
      omega
    have := (Nat.le_log2 hnonzero).1 (show 64 ≤ (roundToDigits m).log2 by omega)
    omega

/-- The float nearest to a number that no integer can hold, with a sign, is converted if it is the
one next to the integers, and then to the last of them. -/
theorem integerOfFloat_nearest (negative : Bool) {m : Nat} (hm : 2 ^ 63 ≤ m) :
    integerOfFloat (signed negative (Reading.nearest m 0)) =
      if m ≤ 2 ^ 63 + 1024 then
        .ok (if negative then Integer.least else Integer.greatest)
      else .error (.floatToInteger (signed negative (Reading.nearest m 0))) := by
  have hvalue := exactValue?_nearest negative (Nat.le_trans (by decide : 2 ^ 53 ≤ 2 ^ 63) hm)
  split
  next hsmall =>
    rw [roundToDigits_of_le hm hsmall, if_pos (by decide)] at hvalue
    rw [integerOfFloat_eq_ok_iff]
    refine ⟨_, hvalue, ?_⟩
    cases negative <;> decide
  next hlarge =>
    refine (integerOfFloat_eq_ok_or_error _).resolve_left ?_
    rintro ⟨n, hn⟩
    obtain ⟨k, hk, hleast, hgreatest, -⟩ := integerOfFloat_eq_ok_iff.1 hn
    have hround := lt_roundToDigits (Nat.not_le.1 hlarge)
    rw [hvalue] at hk
    split at hk
    · have hk := Rat.intCast_injective (Option.some.inj hk)
      simp only [Integer.least, Integer.greatest] at hleast hgreatest
      split at hk <;> omega
    · cases hk

end TemplateEngine
