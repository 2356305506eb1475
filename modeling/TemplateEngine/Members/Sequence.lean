import TemplateEngine.Heap.Store

/-!
# Items by position

Lists and arrays are read and written at positions counted from zero. Only a position below the
length is in bounds.
-/

namespace TemplateEngine

/-- A position that a sequence does not have. -/
structure OutOfBounds where
  index : Int
  length : Nat
deriving DecidableEq

/-- The wording of the refusal. -/
def OutOfBounds.message (e : OutOfBounds) : String :=
  s!"index {e.index} out of bounds for length {e.length}"

/-- The position as a number below the length. -/
def inBounds (index : Int) (length : Nat) : Except OutOfBounds Nat :=
  if 0 ≤ index ∧ index < length then .ok index.toNat else .error ⟨index, length⟩

theorem inBounds_eq_ok_iff {index : Int} {length i : Nat} :
    inBounds index length = .ok i ↔ index = i ∧ i < length := by
  unfold inBounds
  split
  · next h =>
    simp only [Except.ok.injEq]
    omega
  · next h =>
    simp only [reduceCtorEq, false_iff]
    omega

theorem inBounds_eq_error_iff {index : Int} {length : Nat} {e : OutOfBounds} :
    inBounds index length = .error e ↔ (index < 0 ∨ length ≤ index) ∧ ⟨index, length⟩ = e := by
  unfold inBounds
  split
  · next h =>
    simp only [reduceCtorEq, false_iff]
    omega
  · next h =>
    simp only [Except.error.injEq, iff_and_self]
    omega

/-- A rule for the items of sequences. -/
inductive SequenceAccessor
  /-- For lists. -/
  | growable
  /-- For arrays. -/
  | fixed
deriving DecidableEq

namespace SequenceAccessor

/-- The place of a sequence that the rule is for. -/
def place? : SequenceAccessor → Value → Option Ref
  | .growable, .list r => some r
  | .fixed, .array r => some r
  | _, _ => none

/-- The rule for a value, if it is a sequence. -/
def of? : Value → Option SequenceAccessor
  | .list _ => some .growable
  | .array _ => some .fixed
  | _ => none

/-- The number of items; a value of another kind has none. -/
def length (a : SequenceAccessor) (s : Store) (target : Value) : Nat :=
  match a.place? target with
  | some r => (s.items r).length
  | none => 0

/-- The item at a position. -/
def get (a : SequenceAccessor) (s : Store) (target : Value) (index : Int) :
    Except OutOfBounds Value :=
  match a.place? target with
  | some r => do
    let i ← inBounds index (s.items r).length
    pure (((s.items r)[i]?).getD .undefined)
  | none => .error ⟨index, 0⟩

/-- Replaces the item at a position. -/
def set (a : SequenceAccessor) (s : Store) (target : Value) (index : Int) (value : Value) :
    Except OutOfBounds Store :=
  match a.place? target with
  | some r => do
    let i ← inBounds index (s.items r).length
    pure (s.setItem r i value)
  | none => .error ⟨index, 0⟩

end SequenceAccessor

/-- Finds the rule for a sequence and remembers which ones were needed. -/
structure SequenceAccessors where
  made : List SequenceAccessor

namespace SequenceAccessors

/-- None has been needed. -/
def new : SequenceAccessors := ⟨[]⟩

/-- The number of rules that were needed. -/
def built (a : SequenceAccessors) : Nat := a.made.length

/-- The rule for a value, if it is a sequence. -/
def resolve (a : SequenceAccessors) (v : Value) : Option SequenceAccessor × SequenceAccessors :=
  match SequenceAccessor.of? v with
  | none => (none, a)
  | some k => (some k, if k ∈ a.made then a else ⟨k :: a.made⟩)

end SequenceAccessors

end TemplateEngine
