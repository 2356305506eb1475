import TemplateEngine.Library.Loader

/-!
# File trees

A directory with the files below it. A name is followed part by part, and every part but the last
has to lead to a directory. What lies above the directory is not known: nothing is found there.
-/

namespace TemplateEngine

/-- Files by the parts of their names; a file that is not text has none. -/
structure FileTree where
  files : List (List (List Char) × Option String)

namespace FileTree

/-- Where a walk through the tree is. -/
inductive Place
  /-- Below the directory, innermost part first. -/
  | within (parts : List (List Char))
  /-- In the directory that is this many steps above, or beside the path to it. -/
  | above (steps : Nat)
  | nowhere
deriving DecidableEq

/-- The parts of a name that lead anywhere. -/
def stepsOf (name : String) : List (List Char) :=
  (Path.parts name.toList).filter fun part => part ≠ [] ∧ part ≠ ['.']

/-- Adds a file, or replaces the one of the same name. -/
def insert (t : FileTree) (name : String) (content : Option String) : FileTree :=
  ⟨(stepsOf name, content) :: t.files⟩

/-- The file at a place. -/
def file? (t : FileTree) (parts : List (List Char)) : Option (Option String) :=
  (t.files.find? fun f => f.1 = parts.reverse).map (·.2)

/-- Whether a place is a directory: the root, or something that files lie below. -/
def isDirectory (t : FileTree) (parts : List (List Char)) : Bool :=
  parts.isEmpty || t.files.any fun f => f.1 ≠ parts.reverse && parts.reverse.isPrefixOf f.1

/-- One step of a walk, which has to start in a directory. -/
def step (t : FileTree) (place : Place) (part : List Char) : Except ReadFault Place :=
  let inside : Except ReadFault Unit := match place with
    | .within parts =>
      if t.isDirectory parts then .ok ()
      else if (t.file? parts).isSome then .error .notDirectory
      else .error .missing
    | .above _ => .ok ()
    | .nowhere => .error .missing
  inside.bind fun _ =>
    if part = [] ∨ part = ['.'] then .ok place
    else if part = ['.', '.'] then
      match place with
      | .within (_ :: parts) => .ok (.within parts)
      | .within [] => .ok (.above 1)
      | .above n => .ok (.above (n + 1))
      | .nowhere => .ok .nowhere
    else if 255 < (String.ofList part).utf8ByteSize then .error .nameTooLong
    else
      match place with
      | .within parts => .ok (.within (part :: parts))
      | _ => .ok .nowhere

/-- The text of the file that a name leads to. -/
def read (t : FileTree) (name : String) : Except ReadFault String :=
  if name.toList.any (·.toNat = 0) then .error .zeroInName
  else if 4096 ≤ name.utf8ByteSize then .error .nameTooLong
  else
    let parts := Path.parts name.toList
    let start : Place := if name.toList.head? = some '/' then .above 1 else .within []
    (parts.foldlM t.step start).bind fun
      | .within parts =>
        if t.isDirectory parts then .error .directory
        else
          match t.file? parts with
          | some (some text) => .ok text
          | some none => .error .notText
          | none => .error .missing
      | .above _ => .error .directory
      | .nowhere => .error .missing

end FileTree

end TemplateEngine
