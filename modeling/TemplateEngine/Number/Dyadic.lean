/-!
# Floats as exact binary fractions

A finite float is a sign, a whole mantissa and a power of two. Everything about floats that must
be exact (their integer value, the remainder of a division, their decimal digits) is computed on
that form in whole numbers.
-/

namespace TemplateEngine

/-- The number `± mantissa · 2 ^ exponent`. -/
structure Dyadic where
  negative : Bool
  mantissa : Nat
  exponent : Int
deriving DecidableEq

/-- What a float stands for. -/
inductive FloatView
  | notANumber
  | infinite (negative : Bool)
  | finite (value : Dyadic)
deriving DecidableEq

namespace Dyadic

/-- The mantissa over the common power of two `2 ^ least`, for `least` at most the exponent. -/
def unitsOf (d : Dyadic) (least : Int) : Nat := d.mantissa * Nat.pow 2 (d.exponent - least).toNat

/-- The whole number that a binary fraction is, if it is one. -/
def toInt? (d : Dyadic) : Option Int :=
  let magnitude : Option Nat :=
    if 0 ≤ d.exponent then some (d.mantissa * Nat.pow 2 d.exponent.toNat)
    else if d.mantissa % Nat.pow 2 (-d.exponent).toNat = 0 then
      some (d.mantissa / Nat.pow 2 (-d.exponent).toNat)
    else none
  magnitude.map fun n => if d.negative then -(n : Int) else n

/-- The float with this value, for a value of at most 53 significant bits. -/
def toFloat (d : Dyadic) : Float :=
  let sign : Nat := if d.negative then Nat.pow 2 63 else 0
  let magnitude : Nat :=
    if d.mantissa = 0 then 0
    else
      let top := d.mantissa.log2
      let power := d.exponent + top
      if power < -1022 then d.unitsOf (-1074)
      else if 1023 < power then 2047 * Nat.pow 2 52
      else
        let aligned :=
          if top ≤ 52 then d.mantissa * Nat.pow 2 (52 - top)
          else d.mantissa / Nat.pow 2 (top - 52)
        (power + 1023).toNat * Nat.pow 2 52 + (aligned - Nat.pow 2 52)
  Float.ofBits (UInt64.ofNat (sign + magnitude))

/-- The remainder of the division toward zero; it has the sign of the dividend. -/
def remainder (a b : Dyadic) : Dyadic :=
  let least := min a.exponent b.exponent
  ⟨a.negative, a.unitsOf least % b.unitsOf least, least⟩

end Dyadic

namespace FloatView

/-- Reads the sign, the exponent and the fraction off the bits of a float. -/
def of (x : Float) : FloatView :=
  let bits := x.toBits.toNat
  let negative := Nat.pow 2 63 ≤ bits
  let power : Nat := bits / Nat.pow 2 52 % Nat.pow 2 11
  let fraction := bits % Nat.pow 2 52
  if power = 2047 then if fraction = 0 then .infinite negative else .notANumber
  else if power = 0 then .finite ⟨negative, fraction, -1074⟩
  else .finite ⟨negative, Nat.pow 2 52 + fraction, (power : Int) - 1075⟩

end FloatView

/-- The remainder of two floats, exact for a finite dividend and a divisor other than zero. -/
def floatRemainder (a b : Float) : Float :=
  match FloatView.of a, FloatView.of b with
  | .finite x, .finite y => (x.remainder y).toFloat
  | .finite _, .infinite _ => a
  | _, _ => 0.0 / 0.0

end TemplateEngine
