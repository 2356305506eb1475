import TemplateEngine.Heap.Store

/-!
# Nesting

Lists, arrays and maps can hold each other to any depth, and even themselves. A walk through a
value therefore remembers the places it came through and how many more it may enter. It stops at
a place that it is already inside of, and at a container that has `maxNesting` others around it.
-/

namespace TemplateEngine

/-- The most containers that a walk enters on one path. -/
def maxNesting : Nat := 64

/-- Why a value cannot be walked through. -/
inductive NestingFault
  | cyclic
  | deep
deriving DecidableEq

/-- The wording of the reason. -/
def NestingFault.message : NestingFault → String
  | .cyclic => "contains itself"
  | .deep => "is nested too deeply"

namespace Store

/-- The place of a list, an array or a map, and what lies in it. -/
def container? (s : Store) : Value → Option (Ref × List Value)
  | .list r | .array r => some (r, s.items r)
  | .map r => some (r, (s.entries r).values)
  | _ => none

/-- The first reason to stop on a walk that is inside of `path` and may enter `room` more
containers. -/
def faultWithin (s : Store) : Nat → List Ref → Value → Option NestingFault
  | room, path, v =>
    match s.container? v with
    | none => none
    | some (r, parts) =>
      if path.contains r then some .cyclic
      else
        match room with
        | 0 => some .deep
        | room + 1 => parts.findSome? (s.faultWithin room (r :: path))

/-- Why a value cannot be walked through, if it cannot. -/
def nestingFault? (s : Store) (v : Value) : Option NestingFault := s.faultWithin maxNesting [] v

end Store

end TemplateEngine
