import TemplateEngine.Members.Shape

/-!
# Members by name

Which rule reads and writes the members of a value depends on its kind: absent values have none,
objects answer by themselves, maps have their entries, and everything else has the declared
members of its concrete type. The table of a concrete type is made when it is first needed and
kept.
-/

namespace TemplateEngine

/-- The declared members of one concrete type under the names that templates use. -/
structure MemberTable where
  /-- How many tables were made before. -/
  serial : Nat
  type : String
  members : Dictionary Member

namespace MemberTable

/-- The members of a shape under their transformed names. Of two members with one name the first
wins. -/
def membersOf (transform : String → String) (shape : Shape) : Dictionary Member :=
  shape.foldl (fun d (name, m) =>
    let name := transform name
    if d.contains name then d else d.insert name m) .empty

/-- Makes the table of a concrete type. -/
def build (serial : Nat) (type : String) (transform : String → String) (shape : Shape) :
    MemberTable :=
  ⟨serial, type, membersOf transform shape⟩

end MemberTable

/-- A rule for the members of values. -/
inductive MemberAccessor
  | none
  | object
  | map
  | reflected (table : MemberTable)

namespace MemberAccessor

/-- Reads a member of a value. -/
def get (a : MemberAccessor) (s : Store) (target : Value) (name : String) : Answer :=
  match a, target with
  | .object, .object r => .value (s.objectGet r name)
  | .map, .map r => .value (((s.entries r).get? name).getD .undefined)
  | .reflected table, v =>
    match table.members.get? name with
    | some m => m.read s v
    | .none => .value .undefined
  | _, _ => .value .undefined

/-- Writes a member of a value. -/
def set (a : MemberAccessor) (s : Store) (target : Value) (name : String) (value : Value) :
    Except AccessFault Store :=
  match a, target with
  | .object, .object r => s.objectSet r name value
  | .map, .map r => .ok (s.setEntry r name value)
  | .reflected table, v =>
    match table.members.get? name with
    | some m => m.write s v value
    | .none => .error .noSuchMember
  | _, _ => .error .noSuchMember

/-- Whether two rules are one and the same, made at one time. -/
def same : MemberAccessor → MemberAccessor → Bool
  | .none, .none => true
  | .object, .object => true
  | .map, .map => true
  | .reflected a, .reflected b => a.serial = b.serial
  | _, _ => false

end MemberAccessor

/-- Finds the rule for a value; tables are kept with the concrete type that they are for. -/
structure MemberAccessors where
  shapes : Shapes
  transform : String → String
  tables : List (TypeKey × MemberTable)

namespace MemberAccessors

/-- No table has been made. -/
def new (shapes : Shapes) (transform : String → String) : MemberAccessors :=
  ⟨shapes, transform, []⟩

/-- The number of tables that were made. -/
def built (a : MemberAccessors) : Nat := a.tables.length

/-- The table of a concrete type, made now if it is not there. -/
def table (a : MemberAccessors) (key : TypeKey) (type : String) : MemberTable × MemberAccessors :=
  match a.tables.lookup key with
  | some t => (t, a)
  | none =>
    let t := MemberTable.build a.built type a.transform (a.shapes.get key)
    (t, { a with tables := (key, t) :: a.tables })

/-- A table that is there is given out again, and nothing changes. -/
theorem table_of_lookup {a : MemberAccessors} {key : TypeKey} {t : MemberTable}
    (h : a.tables.lookup key = some t) (type : String) : a.table key type = (t, a) := by
  simp [table, h]

theorem table_of_lookup_eq_none {a : MemberAccessors} {key : TypeKey}
    (h : a.tables.lookup key = none) (type : String) :
    a.table key type =
      (.build a.built type a.transform (a.shapes.get key),
        { a with tables :=
            (key, .build a.built type a.transform (a.shapes.get key)) :: a.tables }) := by
  simp [table, h]

/-- The table of a concrete type is made once. -/
theorem table_again (a : MemberAccessors) (key : TypeKey) (type other : String) :
    (a.table key type).2.table key other = a.table key type := by
  cases h : a.tables.lookup key with
  | some t => simp [table_of_lookup h]
  | none =>
    rw [table_of_lookup_eq_none h]
    exact table_of_lookup (by simp) other

/-- The rule for a value. -/
def resolve (a : MemberAccessors) (s : Store) (v : Value) : MemberAccessor × MemberAccessors :=
  match v with
  | .undefined | .null => (.none, a)
  | .object _ => (.object, a)
  | .map _ => (.map, a)
  | v =>
    let (t, a) := a.table (s.typeKey v) (s.typeName v)
    (.reflected t, a)

end MemberAccessors

end TemplateEngine
