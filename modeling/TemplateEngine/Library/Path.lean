/-!
# Template paths

A path is read relative to the directory of the template that names it, or relative to the root
if it begins with a slash. Parts that are empty or a single dot stay where they are, two dots go
up, and no path goes up from the root.
-/

namespace TemplateEngine.Path

/-- The texts between the slashes. -/
def parts : List Char → List (List Char)
  | [] => [[]]
  | c :: rest =>
    if c = '/' then [] :: parts rest
    else
      match parts rest with
      | [] => [[c]]
      | first :: more => (c :: first) :: more

/-- Walks along parts from a directory, which is given innermost part first. -/
def climb? : List (List Char) → List (List Char) → Option (List (List Char))
  | at', [] => some at'
  | at', part :: rest =>
    if part = [] ∨ part = ['.'] then climb? at' rest
    else if part = ['.', '.'] then
      match at' with
      | [] => none
      | _ :: above => climb? above rest
    else climb? (part :: at') rest

/-- The parts of the directory that a template lies in. -/
def directory (template : List Char) : List (List Char) := (parts template).dropLast

/-- The parts from which a path starts: those of the directory of the includer, or none if there
is no includer or the path begins with a slash. -/
def base (includer : Option String) (path : String) : List (List Char) :=
  match includer with
  | some template => if path.toList.head? = some '/' then [] else directory template.toList
  | none => []

/-- The name of the place where a path leads, unless it goes up from the root. -/
def join? (includer : Option String) (path : String) : Option String :=
  (climb? [] (base includer path ++ parts path.toList)).map fun place =>
    "/".intercalate (place.reverse.map String.ofList)

end TemplateEngine.Path
