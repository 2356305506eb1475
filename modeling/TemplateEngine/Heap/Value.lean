import TemplateEngine.Syntax.Stmt

/-!
# Values

Numbers, text and functions are plain data. Everything that can change, or that can be met again
under another name, is a place in a `Store`, and a value holds only the number of that place.
-/

namespace TemplateEngine

/-- The number of a place in a store. -/
abbrev Ref := Nat

/-- The functions that every template can call. -/
inductive Builtin
  | len
  | upper
  | lower
  | trim
  | join
  | range
  | keys
  | default
  | str
  | int
deriving DecidableEq

namespace Builtin

/-- The name under which templates find it. -/
def name : Builtin → String
  | .len => "len"
  | .upper => "upper"
  | .lower => "lower"
  | .trim => "trim"
  | .join => "join"
  | .range => "range"
  | .keys => "keys"
  | .default => "default"
  | .str => "str"
  | .int => "int"

/-- All of them. -/
def all : List Builtin :=
  [.len, .upper, .lower, .trim, .join, .range, .keys, .default, .str, .int]

theorem mem_all (b : Builtin) : b ∈ all := by cases b <;> decide

end Builtin

/-- A function of the host: the name it shows and the operation that it runs. Two of them are the
same function only if they carry the same identity. -/
structure Native where
  identity : Nat
  name : String
  operation : String
deriving DecidableEq

/-- A function. -/
inductive Function
  | builtin (b : Builtin)
  | native (n : Native)
  | defined (d : FunctionDef)

namespace Function

/-- The name in messages. -/
def name : Function → String
  | .builtin b => b.name
  | .native n => n.name
  | .defined d => d.name.name

/-- Whether two values are one function. -/
def same : Function → Function → Bool
  | .builtin a, .builtin b => a = b
  | .native a, .native b => a.identity = b.identity
  | .defined a, .defined b => a.identity = b.identity
  | _, _ => false

end Function

/-- A value. -/
inductive Value
  /-- What reading something gives that is not there. -/
  | undefined
  | null
  | bool (b : Bool)
  | int (n : Int)
  | float (x : Float)
  | text (s : String)
  /-- A sequence that grows. -/
  | list (r : Ref)
  /-- A sequence of fixed length. -/
  | array (r : Ref)
  /-- Values under text keys. -/
  | map (r : Ref)
  /-- A thing that answers by itself when it is read or written. -/
  | object (r : Ref)
  /-- A record of the host, whose members are declared apart from it. -/
  | record (r : Ref)
  | function (f : Function)

namespace Value

instance : Inhabited Value := ⟨undefined⟩

/-- Nothing is there: missing or null. -/
def isAbsent : Value → Bool
  | .undefined | .null => true
  | _ => false

/-- A value without members: text, a number or a truth value. -/
def isPrimitive : Value → Bool
  | .bool _ | .int _ | .float _ | .text _ => true
  | _ => false

/-- Missing, and not merely null. -/
def isUndefined : Value → Bool
  | .undefined => true
  | _ => false

/-- The function that a value is. -/
def function? : Value → Option Function
  | .function f => some f
  | _ => none

/-- The text that a value is. -/
def text? : Value → Option String
  | .text s => some s
  | _ => none

/-- A constant as a value. -/
def ofLiteral : Literal → Value
  | .null => .null
  | .bool b => .bool b
  | .int n => .int n
  | .float x => .float x
  | .text s => .text s

end Value

end TemplateEngine
