import TemplateEngine.Number.Dyadic

/-!
# Decimal text of floats

The digits of a float are the fewest that read back as it: on the grid of `1`, `2`, … significant
digits the two neighbours of the value are tested, the first grid with a neighbour that reads
back wins, of two such neighbours the nearer, and of two equally near the greater. A `Layout`
then says how digits are set: where positional notation ends and whether a whole number keeps
its `.0`.
-/

namespace TemplateEngine

/-- The number `digits · 10 ^ scale`. -/
structure Decimal where
  digits : Nat
  scale : Int
deriving DecidableEq

namespace Decimal

/-- `num / den ≤ n · 10 ^ scale`, or with `<` when the bound is not itself included. -/
private def above (n : Nat) (scale : Int) (num den : Nat) (included : Bool) : Bool :=
  let left := num * Nat.pow 10 (-scale).toNat
  let right := n * Nat.pow 10 scale.toNat * den
  if included then left ≤ right else left < right

/-- `n · 10 ^ scale ≤ num / den`, or with `<` when the bound is not itself included. -/
private def below (n : Nat) (scale : Int) (num den : Nat) (included : Bool) : Bool :=
  let left := n * Nat.pow 10 scale.toNat * den
  let right := num * Nat.pow 10 (-scale).toNat
  if included then left ≤ right else left < right

/-- The least `k` in reach with `num < den · 10 ^ k`. -/
private def magnitude (num den : Nat) : Int :=
  let guess : Int := ((num.log2 : Int) - (den.log2 : Int)) * 1233 / 4096 - 2
  let fits (k : Int) : Bool := num * Nat.pow 10 (-k).toNat < den * Nat.pow 10 k.toNat
  let rec climb (k : Int) : Nat → Int
    | 0 => k
    | n + 1 => if fits k then k else climb (k + 1) n
  climb guess 6

/-- Drops zeros at the end of the digits. -/
private def strip (digits : Nat) (scale : Int) : Nat → Decimal
  | 0 => ⟨digits, scale⟩
  | n + 1 => if digits % 10 = 0 then strip (digits / 10) (scale + 1) n else ⟨digits, scale⟩

/-- The neighbour with `count` digits that reads back, if there is one. -/
private def candidate? (mantissa : Nat) (exponent : Int) (size : Int) (count : Nat) :
    Option Decimal :=
  let num := mantissa * Nat.pow 2 exponent.toNat
  let den := Nat.pow 2 (-exponent).toNat
  let scale : Int := size - count
  let floor := num * Nat.pow 10 (-scale).toNat / (den * Nat.pow 10 scale.toNat)
  let even := mantissa % 2 = 0
  -- the values that round to this float lie between the midpoints to its neighbours
  let narrow := mantissa = Nat.pow 2 52 && exponent != -1074
  let lowNum := if narrow then 4 * mantissa - 1 else 4 * mantissa - 2
  let lowOk := above floor scale (lowNum * Nat.pow 2 exponent.toNat) (4 * den) even
  let highNum := 4 * mantissa + 2
  let highOk := below (floor + 1) scale (highNum * Nat.pow 2 exponent.toNat) (4 * den) even
  let nearLow :=
    2 * num * Nat.pow 10 (-scale).toNat < (2 * floor + 1) * Nat.pow 10 scale.toNat * den
  if lowOk && (nearLow || !highOk) then some (strip floor scale count)
  else if highOk then some (strip (floor + 1) scale (count + 1))
  else none

/-- The shortest decimal that reads back as `mantissa · 2 ^ exponent`. -/
def shortest (mantissa : Nat) (exponent : Int) : Decimal :=
  if mantissa = 0 then ⟨0, 0⟩
  else
    let size := magnitude (mantissa * Nat.pow 2 exponent.toNat) (Nat.pow 2 (-exponent).toNat)
    let rec search (count : Nat) : Nat → Decimal
      | 0 => ⟨mantissa, 0⟩
      | n + 1 => (candidate? mantissa exponent size count).getD (search (count + 1) n)
    search 1 17

end Decimal

/-- How the digits of a float are set. -/
structure Layout where
  /-- The least power of ten that is written positionally; without one, every power is. -/
  least : Option Int
  /-- The first power of ten that is not written positionally any more. -/
  limit : Option Int
  /-- A whole number keeps a point and a zero. -/
  pointZero : Bool

namespace Layout

/-- Positional from `10⁻⁴` to below `10¹⁶`, and always visibly a float. -/
def compact : Layout := ⟨some (-4), some 16, true⟩

/-- Positional however long it gets, whole numbers without a point. -/
def full : Layout := ⟨none, none, false⟩

private def zeros (n : Int) : String := String.ofList (List.replicate n.toNat '0')

/-- Digits set around a decimal point. -/
def positional (layout : Layout) (d : Decimal) : String :=
  let text := (toString d.digits).toList
  let whole : Int := text.length + d.scale
  if 0 ≤ d.scale then
    String.ofList text ++ zeros d.scale ++ if layout.pointZero then ".0" else ""
  else if 0 < whole then
    String.ofList (text.take whole.toNat) ++ "." ++ String.ofList (text.drop whole.toNat)
  else "0." ++ zeros (-whole) ++ String.ofList text

/-- Digits with a power of ten behind them. -/
def scientific (d : Decimal) : String :=
  let text := (toString d.digits).toList
  let power : Int := text.length + d.scale - 1
  let fraction := if text.length ≤ 1 then "" else "." ++ String.ofList (text.drop 1)
  String.ofList (text.take 1) ++ fraction ++ "e" ++ toString power

/-- Chooses between the two by the power of ten of the first digit. -/
def decimal (layout : Layout) (d : Decimal) : String :=
  let power : Int := (toString d.digits).length + d.scale - 1
  let low := layout.least.any fun least => power < least
  let high := layout.limit.any fun limit => limit ≤ power
  if d.digits ≠ 0 && (low || high) then scientific d else layout.positional d

/-- The text of a float. -/
def float (layout : Layout) (x : Float) : String :=
  match FloatView.of x with
  | .notANumber => "NaN"
  | .infinite negative => if negative then "-inf" else "inf"
  | .finite d =>
    (if d.negative then "-" else "") ++ layout.decimal (Decimal.shortest d.mantissa d.exponent)

end Layout

/-- The text a script sees of a float: a whole number is written exactly, with `.0`; every other
one by its shortest digits, however many zeros that takes. -/
def floatText (x : Float) : String :=
  match FloatView.of x with
  | .finite d =>
    match d.toInt? with
    | some n => (if d.negative then "-" else "") ++ toString n.natAbs ++ ".0"
    | none => Layout.full.float x
  | _ => Layout.full.float x

end TemplateEngine
