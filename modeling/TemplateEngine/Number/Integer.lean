/-!
# Script integers

Integers are exact, and an operation that leaves the 64-bit range has no result. `fit?` is the
one test for that range, and `narrow` cuts a number of any size down to it; `read?` reads decimal
text, which has an optional sign and at least one digit.
-/

namespace TemplateEngine.Integer

/-- The least integer a script can hold. -/
def least : Int := -9223372036854775808

/-- The greatest integer a script can hold. -/
def greatest : Int := 9223372036854775807

/-- The integer lies in the 64-bit range. -/
def Fits (n : Int) : Prop := least ≤ n ∧ n ≤ greatest

instance (n : Int) : Decidable (Fits n) := inferInstanceAs (Decidable (_ ∧ _))

/-- The integer itself if it lies in the 64-bit range. -/
def fit? (n : Int) : Option Int := if Fits n then some n else none

theorem fit?_eq_some_iff {n m : Int} : fit? n = some m ↔ n = m ∧ Fits n := by
  unfold fit?
  split <;> simp_all

theorem fit?_eq_none_iff {n : Int} : fit? n = none ↔ ¬ Fits n := by
  unfold fit?
  split <;> simp_all

/-- The integer with the same lowest 64 bits. -/
def narrow (n : Int) : Int := n.bmod 18446744073709551616

/-- An integer that a script can hold is not cut. -/
theorem narrow_of_fits {n : Int} (h : Fits n) : narrow n = n := by
  simp only [Fits, least, greatest] at h
  exact Int.bmod_eq_of_le (by omega) (by omega)

/-- The number that decimal digits write, most significant first. -/
def ofDigits (ds : List Char) : Nat :=
  ds.foldl (fun n d => 10 * n + (d.toNat - '0'.toNat)) 0

/-- The number written by digits alone, of which there is at least one. -/
def unsigned? (ds : List Char) : Option Nat :=
  if !ds.isEmpty && ds.all Char.isDigit then some (ofDigits ds) else none

/-- The integer written in decimal with an optional sign, if it lies in the 64-bit range. -/
def read? : List Char → Option Int
  | '-' :: ds => (unsigned? ds).bind fun n => fit? (-(n : Int))
  | '+' :: ds => (unsigned? ds).bind fun n => fit? (n : Int)
  | ds => (unsigned? ds).bind fun n => fit? (n : Int)

end TemplateEngine.Integer
