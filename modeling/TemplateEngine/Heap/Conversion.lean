import TemplateEngine.Heap.Display
import TemplateEngine.Number.Reading
import TemplateEngine.Text.Blank

/-!
# Values as text and as integers

Everything but a function has a text, unless a walk through it would have to stop. Integers,
truth values, whole floats and text that writes such a number have an integer.
-/

namespace TemplateEngine

/-- Why a value cannot be converted. -/
inductive ConversionFault
  | functionToText (name : String)
  | nestedToText (kind : String) (fault : NestingFault)
  | textToInteger (text : String)
  | floatToInteger (x : Float)
  | kindToInteger (kind : String)

/-- The wording of the reason. -/
def ConversionFault.message : ConversionFault → String
  | .functionToText name => s!"cannot convert function `{name}` to text"
  | .nestedToText kind fault => s!"cannot convert {kind} to text: it {fault.message}"
  | .textToInteger text => "cannot convert \"" ++ text ++ "\" to an integer"
  | .floatToInteger x => "cannot convert " ++ Layout.full.float x ++ " to an integer"
  | .kindToInteger kind => s!"cannot convert {kind} to an integer"

/-- The integer that a float is. The one float above the integers that rounding an integer can
give, `2 ^ 63`, stands for the greatest integer. -/
def integerOfFloat (x : Float) : Except ConversionFault Int :=
  match FloatView.of x with
  | .finite d =>
    match d.toInt? with
    | some n =>
      if Integer.least ≤ n && n ≤ Integer.greatest + 1 then .ok (min n Integer.greatest)
      else .error (.floatToInteger x)
    | none => .error (.floatToInteger x)
  | _ => .error (.floatToInteger x)

namespace Store

/-- The text of a value in output. -/
def toText (s : Store) (v : Value) : Except ConversionFault String :=
  match v with
  | .function f => .error (.functionToText f.name)
  | v =>
    match s.nestingFault? v with
    | some fault => .error (.nestedToText (s.typeName v) fault)
    | none => .ok (s.display v)

/-- The integer that a value stands for as a position. -/
def toInteger (s : Store) : Value → Except ConversionFault Int
  | .int n => .ok n
  | .float x => integerOfFloat x
  | .bool b => .ok (if b then 1 else 0)
  | .text t =>
    let digits := Text.trim t.toList
    match Integer.read? digits with
    | some n => .ok n
    | none =>
      match Reading.float? digits with
      | some x => integerOfFloat x
      | none => .error (.textToInteger t)
  | v => .error (.kindToInteger (s.typeName v))

end Store

end TemplateEngine
