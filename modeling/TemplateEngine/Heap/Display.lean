import TemplateEngine.Heap.Nesting
import TemplateEngine.Number.Decimal
import TemplateEngine.Text.Quoted

/-!
# Values as text

`display` is what a template writes for a value; a container where a walk has to stop is cut to
`[...]`. `debug` shows to developers which kind of value each part is.
-/

namespace TemplateEngine

/-- Parts with commas between. -/
def commaSeparated (parts : List String) : String := ", ".intercalate parts

namespace Store

/-! ## For templates -/

/-- The text of a value on a walk that is inside of `path` and may enter `room` more
containers. -/
def displayWithin (s : Store) : Nat → List Ref → Value → String
  | _, _, .undefined | _, _, .null => ""
  | _, _, .bool b => if b then "true" else "false"
  | _, _, .int n => toString n
  | _, _, .float x => floatText x
  | _, _, .text t => t
  | room, path, .list r | room, path, .array r =>
    if path.contains r then "[...]"
    else
      match room with
      | 0 => "[...]"
      | room + 1 =>
        "[" ++ commaSeparated ((s.items r).map (s.displayWithin room (r :: path))) ++ "]"
  | room, path, .map r =>
    if path.contains r then "[...]"
    else
      match room with
      | 0 => "[...]"
      | room + 1 =>
        "\x7b" ++ commaSeparated ((s.entries r).entries.map fun e =>
          e.1 ++ ": " ++ s.displayWithin room (r :: path) e.2) ++ "\x7d"
  | _, _, .object r => "[object " ++ s.objectType r ++ "]"
  | _, _, .record r => "[" ++ (s.record r).type ++ "]"
  | _, _, .function f => "[function " ++ f.name ++ "]"

/-- The text that a template writes for a value. -/
def display (s : Store) (v : Value) : String := s.displayWithin maxNesting [] v

/-! ## For developers -/

/-- A value named with its kind, down to `room` levels. -/
def debugWithin (s : Store) : Nat → Value → String
  | _, .undefined => "Undefined"
  | _, .null => "Null"
  | _, .bool b => "Bool(" ++ (if b then "true" else "false") ++ ")"
  | _, .int n => "Int(" ++ toString n ++ ")"
  | _, .float x => "Float(" ++ Layout.compact.float x ++ ")"
  | _, .text t => "String(" ++ Text.quoted t ++ ")"
  | _, .record r =>
    "Host(HostValue \x7b type_name: " ++ Text.quoted (s.record r).type ++ ", .. \x7d)"
  | _, .function (.builtin b) => "Function(native " ++ b.name ++ ")"
  | _, .function (.native n) => "Function(native " ++ n.name ++ ")"
  | _, .function (.defined d) =>
    "Function(" ++ d.name.name ++ "/" ++ toString d.params.length ++ ")"
  | 0, v => s.typeName v ++ "(..)"
  | room + 1, .list r =>
    if (s.nestingFault? (.list r)).isSome then "list(..)"
    else "List([" ++ commaSeparated ((s.items r).map (s.debugWithin room)) ++ "])"
  | room + 1, .array r =>
    if (s.nestingFault? (.array r)).isSome then "array(..)"
    else "Array([" ++ commaSeparated ((s.items r).map (s.debugWithin room)) ++ "])"
  | room + 1, .map r =>
    if (s.nestingFault? (.map r)).isSome then "map(..)"
    else
      "Map(\x7b" ++ commaSeparated ((s.entries r).entries.map fun e =>
        Text.quoted e.1 ++ ": " ++ s.debugWithin room e.2) ++ "\x7d)"
  | room + 1, .object r =>
    match s.cell? r with
    | some (.names f) =>
      "Object(Namespace \x7b frame: RefCell \x7b value: Frame \x7b slots: \x7b" ++
        commaSeparated (f.slots.entries.map fun e =>
          Text.quoted e.1 ++ ": Slot \x7b value: " ++ s.debugWithin room e.2.value ++
            ", read_only: " ++ (if e.2.readOnly then "true" else "false") ++ " \x7d") ++
        "\x7d \x7d \x7d \x7d)"
    | some (.capability c) => "Object(" ++ c.label ++ ")"
    | _ => "Object(..)"

/-- A value named with its kind, for developers. A container that cannot be walked through is
cut, but an object inside of it starts a walk of its own, so a value may be shown through any
number of objects. Values inside each other that come back to no place are fewer than the places
of the store are, and so none of them is cut for want of room. -/
def debug (s : Store) (v : Value) : String := s.debugWithin (s.cells.size + 1) v

end Store

end TemplateEngine
