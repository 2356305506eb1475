import TemplateEngine.Heap.Store

/-!
# Declared members

Records of the host show templates the members that their shape declares; lists and arrays show
their length. What reading a member gives is described first and made afterwards, because a
member can answer with a function that is new at every reading.
-/

namespace TemplateEngine

/-- What reading a member gives. -/
inductive Answer
  /-- A value that exists already. -/
  | value (v : Value)
  /-- A function that is made for this reading. -/
  | newFunction (name operation : String)

/-- How a member is read and, if it can be, written. -/
inductive Member
  /-- The number of items of a list or an array. -/
  | length
  /-- A member of a record. Writing it gives the record as it is from then on. -/
  | field (read : Record → Answer) (write : Option (Store → Record → Value → Record))

namespace Member

/-- Reads a member of a value; a value of another kind has nothing there. -/
def read (m : Member) (s : Store) (target : Value) : Answer :=
  match m, target with
  | .length, .list r | .length, .array r => .value (.int (s.items r).length)
  | .field read _, .record r => read (s.record r)
  | _, _ => .value .undefined

/-- Writes a member of a value. -/
def write (m : Member) (s : Store) (target value : Value) : Except AccessFault Store :=
  match m, target with
  | .field _ (some write), .record r => .ok (s.changeRecord r fun x => write s x value)
  | .field _ (some _), _ => .error .noSuchMember
  | _, _ => .error .readOnly

end Member

/-- Members in the order of their declaration, under the names that the host gives them. -/
abbrev Shape := List (String × Member)

/-! ## Concrete types -/

/-- The concrete type of a value: values of one type share their members. -/
inductive TypeKey
  | list
  | array
  | record (type : String)
  | builtin (kind : String)
deriving DecidableEq

/-- The concrete type of a value. -/
def Store.typeKey (s : Store) : Value → TypeKey
  | .list _ => .list
  | .array _ => .array
  | .record r => .record (s.record r).type
  | v => .builtin (s.typeName v)

/-- The shapes that the host declares for its record types. -/
structure Shapes where
  records : Dictionary Shape

namespace Shapes

/-- No record type has a shape. -/
def empty : Shapes := ⟨.empty⟩

/-- Declares the shape of a record type, in place of an earlier one. -/
def register (s : Shapes) (type : String) (shape : Shape) : Shapes := ⟨s.records.insert type shape⟩

/-- The members of a concrete type. -/
def get (s : Shapes) : TypeKey → Shape
  | .list | .array => [("length", .length)]
  | .record type => (s.records.get? type).getD []
  | .builtin _ => []

end Shapes

end TemplateEngine
