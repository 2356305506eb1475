import TemplateEngine.Number.Integer

/-!
# Reading floats

A float is written as digits with an optional point among or beside them and an optional power of
ten, or as one of the words for infinity and for what is not a number, in any letter case; a sign
may come first. The value is the nearest float.
-/

namespace TemplateEngine.Reading

/-- The float nearest to `digits · 10 ^ power`. -/
def nearest (digits : Nat) (power : Int) : Float :=
  let size : Int := (toString digits).length + power
  if digits = 0 || size < -400 then 0.0
  else if 400 < size then 1.0 / 0.0
  else Float.ofScientific digits (power < 0) power.natAbs

/-- The power of ten at the end of a number: nothing, or the letter, a sign and digits. -/
def power? : List Char → Option Int
  | [] => some 0
  | e :: rest =>
    if e = 'e' || e = 'E' then
      match rest with
      | '-' :: ds => (Integer.unsigned? ds).map fun n => -(n : Int)
      | '+' :: ds => (Integer.unsigned? ds).map fun n => (n : Int)
      | ds => (Integer.unsigned? ds).map fun n => (n : Int)
    else none

/-- A number without its sign. -/
def unsigned? (text : List Char) : Option Float :=
  let word := text.map Char.toLower
  if word = "inf".toList || word = "infinity".toList then some (1.0 / 0.0)
  else if word = "nan".toList then some (0.0 / 0.0)
  else
    let whole := text.takeWhile Char.isDigit
    let afterWhole := text.dropWhile Char.isDigit
    let (fraction, rest) := match afterWhole with
      | '.' :: more => (more.takeWhile Char.isDigit, more.dropWhile Char.isDigit)
      | more => ([], more)
    if whole.isEmpty && fraction.isEmpty then none
    else (power? rest).map fun power =>
      nearest (Integer.ofDigits (whole ++ fraction)) (power - fraction.length)

/-- A number with an optional sign. -/
def float? : List Char → Option Float
  | '-' :: rest => (unsigned? rest).map fun x => -x
  | '+' :: rest => unsigned? rest
  | rest => unsigned? rest

end TemplateEngine.Reading
