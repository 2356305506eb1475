import TemplateEngine.Dictionary
import TemplateEngine.Heap.Value

/-!
# Frames

A frame binds names to values. A name can be locked, and then assignments to it are refused until
it is unlocked; defining a name binds it whether it is locked or not.
-/

namespace TemplateEngine

/-- Why a member or a name cannot be written. -/
inductive AccessFault
  | readOnly
  | noSuchMember
deriving DecidableEq

/-- The wording of the reason. -/
def AccessFault.message : AccessFault → String
  | .readOnly => "member is read-only"
  | .noSuchMember => "no such member"

/-- What a name is bound to. -/
structure Slot where
  value : Value
  readOnly : Bool

/-- Names bound to values, each locked or not. -/
structure Frame where
  slots : Dictionary Slot

namespace Frame

/-- The frame that binds nothing. -/
def empty : Frame := ⟨.empty⟩

instance : Inhabited Frame := ⟨empty⟩

/-- The value of a name. -/
def get? (f : Frame) (name : String) : Option Value := (f.slots.get? name).map (·.value)

/-- The value of a name, which is undefined if the name is not bound. -/
def get (f : Frame) (name : String) : Value := (f.get? name).getD .undefined

/-- Whether a name is bound. -/
def contains (f : Frame) (name : String) : Bool := f.slots.contains name

/-- Whether assignments to a name are refused. -/
def isReadOnly (f : Frame) (name : String) : Bool :=
  ((f.slots.get? name).map (·.readOnly)).getD false

/-- Binds a name, locked or not, whatever was there. -/
def define (f : Frame) (name : String) (value : Value) (readOnly : Bool) : Frame :=
  ⟨f.slots.insert name ⟨value, readOnly⟩⟩

/-- Assigns to a name unless it is locked. -/
def set (f : Frame) (name : String) (value : Value) : Except AccessFault Frame :=
  if f.isReadOnly name then .error .readOnly else .ok (f.define name value false)

/-- Locks or unlocks a name, which is bound to undefined first if it is not bound. -/
def setReadOnly (f : Frame) (name : String) (readOnly : Bool) : Frame :=
  f.define name (f.get name) readOnly

/-- The bound names in order. -/
def names (f : Frame) : List String := f.slots.keys

/-- The number of bound names. -/
def size (f : Frame) : Nat := f.slots.size

/-- Whether nothing is bound. -/
def isEmpty (f : Frame) : Bool := f.slots.isEmpty

/-- The bindings of the second frame, and those of the first that it does not replace. -/
def update (f g : Frame) : Frame := ⟨f.slots.update g.slots⟩

/-! ## What is read back -/

@[simp] theorem get?_empty (name : String) : empty.get? name = none := rfl

@[simp] theorem isReadOnly_empty (name : String) : empty.isReadOnly name = false := rfl

@[simp] theorem get?_define (f : Frame) (key name : String) (value : Value) (flag : Bool) :
    (f.define key value flag).get? name = if key = name then some value else f.get? name := by
  by_cases h : key = name <;> simp [get?, define, h]

@[simp] theorem isReadOnly_define (f : Frame) (key name : String) (value : Value) (flag : Bool) :
    (f.define key value flag).isReadOnly name =
      if key = name then flag else f.isReadOnly name := by
  by_cases h : key = name <;> simp [isReadOnly, define, h]

@[simp] theorem get_setReadOnly (f : Frame) (key name : String) (flag : Bool) :
    (f.setReadOnly key flag).get name = f.get name := by
  by_cases h : key = name
  · subst h; simp [setReadOnly, get]
  · simp [setReadOnly, get, h]

@[simp] theorem isReadOnly_setReadOnly (f : Frame) (key name : String) (flag : Bool) :
    (f.setReadOnly key flag).isReadOnly name =
      if key = name then flag else f.isReadOnly name := by
  simp [setReadOnly]

theorem set_eq_error_iff {f : Frame} {name : String} {value : Value} {e : AccessFault} :
    f.set name value = .error e ↔ f.isReadOnly name = true ∧ .readOnly = e := by
  unfold set
  split <;> simp_all

theorem set_eq_ok_iff {f g : Frame} {name : String} {value : Value} :
    f.set name value = .ok g ↔
      f.isReadOnly name = false ∧ f.define name value false = g := by
  unfold set
  split <;> simp_all

end Frame

end TemplateEngine
