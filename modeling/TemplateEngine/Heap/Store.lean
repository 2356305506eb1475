import TemplateEngine.Heap.Frame

/-!
# The store

A store holds what values refer to. Places are numbered in the order in which they were opened
and are never given up, so a number means the same thing for as long as the store is used. Every
view of a place is total: a number that stands for something else reads as an empty thing of the
kind that is asked for.
-/

namespace TemplateEngine

/-- An object of the host that keeps nothing in the store: what it answers when it is asked. -/
structure Capability where
  /-- The kind of object in messages. -/
  typeName : String
  /-- How the object is shown to developers. -/
  label : String
  /-- The value of a member. -/
  get : String → Value
  /-- Why a write is refused, if it is; a write that is not refused changes nothing. -/
  refuses : String → Option AccessFault
  /-- The members that are reported as locked. -/
  isReadOnly : String → Bool
  /-- The members that iteration shows, in its order. -/
  keys : List String

/-- A record of the host: its type and its fields. -/
structure Record where
  type : String
  fields : Dictionary Value

/-- What a place holds. -/
inductive Cell
  /-- The items of a list or an array. -/
  | items (xs : List Value)
  /-- The entries of a map. -/
  | entries (d : Dictionary Value)
  /-- The names of a namespace, which is an object. -/
  | names (f : Frame)
  /-- An object of the host. -/
  | capability (c : Capability)
  /-- A record of the host. -/
  | record (r : Record)

/-- What values refer to, and the next identity that is free for a function or a template. -/
structure Store where
  cells : Array Cell
  nextIdentity : Nat

namespace Store

/-- Nothing has been opened. -/
def empty : Store := ⟨#[], 0⟩

instance : Inhabited Store := ⟨empty⟩

/-! ## Places -/

/-- What a place holds. -/
def cell? (s : Store) (r : Ref) : Option Cell := s.cells[r]?

/-- Opens a place. -/
def alloc (s : Store) (c : Cell) : Ref × Store := (s.cells.size, ⟨s.cells.push c, s.nextIdentity⟩)

/-- Replaces what a place holds; a number that is not a place is left alone. -/
def put (s : Store) (r : Ref) (c : Cell) : Store :=
  ⟨s.cells.setIfInBounds r c, s.nextIdentity⟩

/-- An identity that was not given out before. -/
def fresh (s : Store) : Nat × Store := (s.nextIdentity, ⟨s.cells, s.nextIdentity + 1⟩)

theorem cell?_alloc (s : Store) (c : Cell) (r : Ref) :
    (s.alloc c).2.cell? r = if r = s.cells.size then some c else s.cell? r := by
  simp [alloc, cell?, Array.getElem?_push]

theorem cell?_put_self {s : Store} {r : Ref} {c d : Cell} (h : s.cell? r = some d) :
    (s.put r c).cell? r = some c := by
  have hr : r < s.cells.size := (Array.getElem?_eq_some_iff.1 h).1
  simp [put, cell?, hr]

theorem cell?_put_of_ne (s : Store) {r q : Ref} (c : Cell) (h : r ≠ q) :
    (s.put r c).cell? q = s.cell? q := by
  simp [put, cell?, h]

@[simp] theorem cell?_fresh (s : Store) (r : Ref) : s.fresh.2.cell? r = s.cell? r := rfl

/-! ## Views -/

/-- The items of a list or an array. -/
def items (s : Store) (r : Ref) : List Value :=
  match s.cell? r with
  | some (.items xs) => xs
  | _ => []

/-- The entries of a map. -/
def entries (s : Store) (r : Ref) : Dictionary Value :=
  match s.cell? r with
  | some (.entries d) => d
  | _ => .empty

/-- The names of a namespace. -/
def names (s : Store) (r : Ref) : Frame :=
  match s.cell? r with
  | some (.names f) => f
  | _ => .empty

/-- A record. -/
def record (s : Store) (r : Ref) : Record :=
  match s.cell? r with
  | some (.record x) => x
  | _ => ⟨"record", .empty⟩

/-! ## Changes inside a place -/

/-- Replaces the item at a position of a list or an array. -/
def setItem (s : Store) (r : Ref) (i : Nat) (value : Value) : Store :=
  match s.cell? r with
  | some (.items xs) => s.put r (.items (xs.set i value))
  | _ => s

/-- Binds a key of a map. -/
def setEntry (s : Store) (r : Ref) (key : String) (value : Value) : Store :=
  match s.cell? r with
  | some (.entries d) => s.put r (.entries (d.insert key value))
  | _ => s

/-- Replaces a record by what `change` makes of it. -/
def changeRecord (s : Store) (r : Ref) (change : Record → Record) : Store :=
  match s.cell? r with
  | some (.record x) => s.put r (.record (change x))
  | _ => s

/-! ## New values -/

/-- A new list of items. -/
def newList (s : Store) (xs : List Value) : Value × Store :=
  let (r, s) := s.alloc (.items xs)
  (.list r, s)

/-- A new array of items. -/
def newArray (s : Store) (xs : List Value) : Value × Store :=
  let (r, s) := s.alloc (.items xs)
  (.array r, s)

/-- A new map of entries. -/
def newMap (s : Store) (d : Dictionary Value) : Value × Store :=
  let (r, s) := s.alloc (.entries d)
  (.map r, s)

/-- A new object that keeps names. -/
def newNamespace (s : Store) (f : Frame) : Value × Store :=
  let (r, s) := s.alloc (.names f)
  (.object r, s)

/-- A new object of the host. -/
def newObject (s : Store) (c : Capability) : Value × Store :=
  let (r, s) := s.alloc (.capability c)
  (.object r, s)

/-- A new record of the host. -/
def newRecord (s : Store) (x : Record) : Value × Store :=
  let (r, s) := s.alloc (.record x)
  (.record r, s)

/-- A new function of the host. -/
def newNative (s : Store) (name operation : String) : Value × Store :=
  let (n, s) := s.fresh
  (.function (.native ⟨n, name, operation⟩), s)

/-! ## What is read back -/

theorem items_alloc (s : Store) (c : Cell) (r : Ref) (h : r ≠ s.cells.size) :
    (s.alloc c).2.items r = s.items r := by
  simp [items, cell?_alloc, h]

theorem entries_alloc (s : Store) (c : Cell) (r : Ref) (h : r ≠ s.cells.size) :
    (s.alloc c).2.entries r = s.entries r := by
  simp [entries, cell?_alloc, h]

theorem items_setItem {s : Store} {r : Ref} {xs : List Value} (h : s.cell? r = some (.items xs))
    (i : Nat) (value : Value) : (s.setItem r i value).items r = (s.items r).set i value := by
  simp [items, setItem, h, cell?_put_self h]

theorem entries_setEntry {s : Store} {r : Ref} {d : Dictionary Value}
    (h : s.cell? r = some (.entries d)) (key : String) (value : Value) :
    (s.setEntry r key value).entries r = (s.entries r).insert key value := by
  simp [entries, setEntry, h, cell?_put_self h]

theorem cell?_setItem_of_ne (s : Store) {r q : Ref} (h : r ≠ q) (i : Nat) (value : Value) :
    (s.setItem r i value).cell? q = s.cell? q := by
  unfold setItem
  split
  · exact cell?_put_of_ne s _ h
  · rfl

theorem cell?_setEntry_of_ne (s : Store) {r q : Ref} (h : r ≠ q) (key : String) (value : Value) :
    (s.setEntry r key value).cell? q = s.cell? q := by
  unfold setEntry
  split
  · exact cell?_put_of_ne s _ h
  · rfl

/-! ## Objects -/

/-- The kind of an object in messages. -/
def objectType (s : Store) (r : Ref) : String :=
  match s.cell? r with
  | some (.names _) => "namespace"
  | some (.capability c) => c.typeName
  | _ => "object"

/-- The value of a member of an object. -/
def objectGet (s : Store) (r : Ref) (name : String) : Value :=
  match s.cell? r with
  | some (.names f) => f.get name
  | some (.capability c) => c.get name
  | _ => .undefined

/-- Writes a member of an object. -/
def objectSet (s : Store) (r : Ref) (name : String) (value : Value) : Except AccessFault Store :=
  match s.cell? r with
  | some (.names f) => (f.set name value).map fun g => s.put r (.names g)
  | some (.capability c) =>
    match c.refuses name with
    | some e => .error e
    | none => .ok s
  | _ => .error .noSuchMember

/-- Whether an object reports a member as locked. -/
def objectIsReadOnly (s : Store) (r : Ref) (name : String) : Bool :=
  match s.cell? r with
  | some (.names f) => f.isReadOnly name
  | some (.capability c) => c.isReadOnly name
  | _ => false

/-- Locks or unlocks a member of an object that keeps such locks, which only a namespace does. -/
def objectSetReadOnly? (s : Store) (r : Ref) (name : String) (readOnly : Bool) : Option Store :=
  match s.cell? r with
  | some (.names f) => some (s.put r (.names (f.setReadOnly name readOnly)))
  | _ => none

/-- Binds a name of a namespace, locked or not, whatever was there. -/
def objectDefine (s : Store) (r : Ref) (name : String) (value : Value) (readOnly : Bool) : Store :=
  match s.cell? r with
  | some (.names f) => s.put r (.names (f.define name value readOnly))
  | _ => s

/-- The members that an object shows, in its order. -/
def objectKeys (s : Store) (r : Ref) : List String :=
  match s.cell? r with
  | some (.names f) => f.names
  | some (.capability c) => c.keys
  | _ => []

/-! ## Kinds of values -/

/-- The kind of a value in messages. -/
def typeName (s : Store) : Value → String
  | .undefined => "undefined"
  | .null => "null"
  | .bool _ => "bool"
  | .int _ => "int"
  | .float _ => "float"
  | .text _ => "string"
  | .list _ => "list"
  | .array _ => "array"
  | .map _ => "map"
  | .object r => s.objectType r
  | .record r => (s.record r).type
  | .function _ => "function"

/-- Whether a condition with this value holds: what is absent, zero or empty does not. -/
def isTruthy (s : Store) : Value → Bool
  | .undefined | .null => false
  | .bool b => b
  | .int n => n != 0
  | .float x => x != 0.0
  | .text t => !t.isEmpty
  | .list r | .array r => !(s.items r).isEmpty
  | .map r => !(s.entries r).isEmpty
  | .object _ | .record _ | .function _ => true

end Store

end TemplateEngine
