/-!
# Stacks with a ground

A stack whose lowest element is never taken off, so that it always has a top.
-/

namespace TemplateEngine

/-- The lowest element, and the others with the top first. -/
structure Stack (α : Type) where
  ground : α
  above : List α

namespace Stack

variable {α : Type}

/-- The element on top. -/
def top (s : Stack α) : α := s.above.head?.getD s.ground

/-- Puts an element on top. -/
def push (s : Stack α) (a : α) : Stack α := ⟨s.ground, a :: s.above⟩

/-- Takes the top off, unless it is the ground. -/
def pop? (s : Stack α) : Option (α × Stack α) :=
  match s.above with
  | [] => none
  | a :: rest => some (a, ⟨s.ground, rest⟩)

/-- Changes the element on top. -/
def modifyTop (s : Stack α) (f : α → α) : Stack α :=
  match s.above with
  | [] => ⟨f s.ground, []⟩
  | a :: rest => ⟨s.ground, f a :: rest⟩

/-- The number of elements. -/
def size (s : Stack α) : Nat := s.above.length + 1

/-- The elements, top first. -/
def toList (s : Stack α) : List α := s.above ++ [s.ground]

@[simp] theorem top_push (s : Stack α) (a : α) : (s.push a).top = a := rfl

@[simp] theorem pop?_push (s : Stack α) (a : α) : (s.push a).pop? = some (a, s) := rfl

@[simp] theorem size_push (s : Stack α) (a : α) : (s.push a).size = s.size + 1 := rfl

@[simp] theorem toList_push (s : Stack α) (a : α) : (s.push a).toList = a :: s.toList := rfl

theorem pop?_eq_none_iff {s : Stack α} : s.pop? = none ↔ s.size = 1 := by
  obtain ⟨g, a⟩ := s
  cases a <;> simp [pop?, size]

theorem pop?_eq_some_iff {s t : Stack α} {a : α} : s.pop? = some (a, t) ↔ s = t.push a := by
  obtain ⟨g, above⟩ := s
  obtain ⟨g', above'⟩ := t
  cases above <;> simp [pop?, push]
  constructor
  · rintro ⟨rfl, rfl, rfl⟩; exact ⟨rfl, rfl, rfl⟩
  · rintro ⟨rfl, rfl, rfl⟩; exact ⟨rfl, rfl, rfl⟩

@[simp] theorem size_modifyTop (s : Stack α) (f : α → α) : (s.modifyTop f).size = s.size := by
  obtain ⟨g, a⟩ := s
  cases a <;> rfl

@[simp] theorem top_modifyTop (s : Stack α) (f : α → α) : (s.modifyTop f).top = f s.top := by
  obtain ⟨g, a⟩ := s
  cases a <;> rfl

end Stack

end TemplateEngine
