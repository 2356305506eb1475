import TemplateEngine.Heap.Equality
import TemplateEngine.State.Fault

/-!
# Operators

Integers are computed exactly, and a result that no integer can hold is a fault. As soon as a
float takes part, both sides are floats. Division gives an integer only if it comes out even.
-/

namespace TemplateEngine

/-- An exact result, if an integer can hold it. -/
def exactly (n : Int) : Except ScriptFault Value :=
  match Integer.fit? n with
  | some n => .ok (.int n)
  | none => .error (.type .integerOverflow)

/-- The quotient of integers: exact if it comes out even, else a float. The one even quotient
that no integer can hold is a float as well. -/
def divideIntegers (a b : Int) : Except ScriptFault Value :=
  if b = 0 then .error .divisionByZero
  else if a.tmod b = 0 ∧ Integer.Fits (a.tdiv b) then .ok (.int (a.tdiv b))
  else .ok (.float (Float.ofInt a / Float.ofInt b))

/-- The remainder of integers, with the sign of the dividend. The remainder of the one quotient
that no integer can hold is refused. -/
def remainderIntegers (a b : Int) : Except ScriptFault Value :=
  if b = 0 then .error .divisionByZero
  else if Integer.Fits (a.tdiv b) then .ok (.int (a.tmod b))
  else .error (.type .integerOverflow)

namespace Value

/-- A number as a float. -/
def toFloat? : Value → Option Float
  | .int n => some (Float.ofInt n)
  | .float x => some x
  | _ => none

end Value

/-- The order of two floats, of which neither may be a NaN. -/
def orderFloats (a b : Float) : Option Ordering :=
  if a < b then some .lt
  else if a == b then some .eq
  else if b < a then some .gt
  else none

/-- The order of two texts, character by character by code point. -/
def orderTexts (a b : String) : Ordering :=
  if a < b then .lt else if a = b then .eq else .gt

/-- The order of two values: integers, texts, and numbers in general. -/
def orderValues : Value → Value → Option Ordering
  | .int a, .int b => some (compare a b)
  | .text a, .text b => some (orderTexts a b)
  | a, b =>
    match a.toFloat?, b.toFloat? with
    | some x, some y => orderFloats x y
    | _, _ => none

/-- Arithmetic on floats. -/
def arithmeticFloats (op : BinaryOp) (a b : Float) : Except ScriptFault Value :=
  match op with
  | .add => .ok (.float (a + b))
  | .sub => .ok (.float (a - b))
  | .mul => .ok (.float (a * b))
  | .div => if b == 0.0 then .error .divisionByZero else .ok (.float (a / b))
  | _ => if b == 0.0 then .error .divisionByZero else .ok (.float (floatRemainder a b))

/-- Arithmetic on integers. -/
def arithmeticIntegers (op : BinaryOp) (a b : Int) : Except ScriptFault Value :=
  match op with
  | .add => exactly (a + b)
  | .sub => exactly (a - b)
  | .mul => exactly (a * b)
  | .div => divideIntegers a b
  | _ => remainderIntegers a b

namespace Store

/-- Arithmetic on numbers. -/
def arithmetic (s : Store) (op : BinaryOp) (a b : Value) : Except ScriptFault Value :=
  match a, b with
  | .int a, .int b => arithmeticIntegers op a b
  | a, b =>
    match a.toFloat?, b.toFloat? with
    | some x, some y => arithmeticFloats op x y
    | _, _ => .error (.type (.operands op (s.typeName a) (s.typeName b)))

/-- The two texts one after the other. -/
def concat (s : Store) (a b : Value) : Except ScriptFault Value := do
  let left ← (s.toText a).mapError .conversion
  let right ← (s.toText b).mapError .conversion
  pure (.text (left ++ right))

/-- Addition also joins texts, with any other value, and makes a new list of two lists. -/
def add (s : Store) (a b : Value) : Except ScriptFault (Value × Store) :=
  match a, b with
  | .text _, _ | _, .text _ => (s.concat a b).map fun v => (v, s)
  | .list p, .list q => .ok (s.newList (s.items p ++ s.items q))
  | _, _ => (s.arithmetic .add a b).map fun v => (v, s)

/-- Refuses a value that cannot be walked through. -/
def comparable (s : Store) (v : Value) : Except ScriptFault Unit :=
  match s.nestingFault? v with
  | some fault => .error (.type (.nested (s.typeName v) fault))
  | none => .ok ()

/-- Whether two values are equal, of which neither may be unfit to be walked through. -/
def equals (s : Store) (a b : Value) : Except ScriptFault Bool := do
  s.comparable a
  s.comparable b
  pure (s.equal a b)

/-- Whether two values are in an order that `accept` takes. -/
def ordered (s : Store) (accept : Ordering → Bool) (a b : Value) : Except ScriptFault Value :=
  match orderValues a b with
  | some o => .ok (.bool (accept o))
  | none => .error (.type (.order (s.typeName a) (s.typeName b)))

/-- The value of an operator on one operand. -/
def unary (s : Store) (op : UnaryOp) (v : Value) : Except ScriptFault Value :=
  match op, v with
  | .not, v => .ok (.bool (!s.isTruthy v))
  | .neg, .int n => exactly (-n)
  | .neg, .float x => .ok (.float (-x))
  | .neg, v => .error (.type (.negate (s.typeName v)))

/-- The value of an operator on two operands. -/
def binary (s : Store) (op : BinaryOp) (a b : Value) : Except ScriptFault (Value × Store) :=
  let unchanged (r : Except ScriptFault Value) := r.map fun v => (v, s)
  match op with
  | .eq => unchanged ((s.equals a b).map .bool)
  | .ne => unchanged ((s.equals a b).map fun same => .bool (!same))
  | .lt => unchanged (s.ordered (· == .lt) a b)
  | .gt => unchanged (s.ordered (· == .gt) a b)
  | .le => unchanged (s.ordered (· != .gt) a b)
  | .ge => unchanged (s.ordered (· != .lt) a b)
  | .concat => unchanged (s.concat a b)
  | .add => s.add a b
  | .sub | .mul | .div | .rem => unchanged (s.arithmetic op a b)
  | .and => .ok (if s.isTruthy a then b else a, s)
  | .or => .ok (if s.isTruthy a then a else b, s)

end Store

end TemplateEngine
