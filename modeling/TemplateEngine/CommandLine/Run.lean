import TemplateEngine.CommandLine.Arguments
import TemplateEngine.CommandLine.Report
import TemplateEngine.Semantics.Execute
import TemplateEngine.Text.SnakeCase

/-!
# The program

Renders one template file with the model that the arguments give. Includes are looked up in the
directory of the file. Files are asked for by name, so the whole program is a function of its
arguments and of what the files hold.
-/

namespace TemplateEngine

namespace CommandLine

/-! ## The file and its directory -/

/-- The parts of a file name that lead anywhere; a dot counts only at the beginning. -/
def partsOf (file : String) : List (List Char) :=
  match Path.parts file.toList with
  | ['.'] :: rest => ['.'] :: rest.filter fun part => part ≠ [] ∧ part ≠ ['.']
  | parts => parts.filter fun part => part ≠ [] ∧ part ≠ ['.']

/-- The name of the file in its directory, if it can have one. -/
def fileName? (file : String) : Option String :=
  match (partsOf file).getLast? with
  | none => none
  | some part => if part = ['.'] ∨ part = ['.', '.'] then none else some (String.ofList part)

/-- The directory of the file. -/
def directoryOf (file : String) : String :=
  let inner := "/".intercalate ((partsOf file).dropLast.map String.ofList)
  if file.toList.head? = some '/' then "/" ++ inner
  else if inner.isEmpty then "."
  else inner

/-- A name below a directory. -/
def below (directory name : String) : String :=
  if directory.toList.getLast? = some '/' then directory ++ name else directory ++ "/" ++ name

/-! ## The model -/

/-- The value that a text is: an integer, a number or a truth value if it writes one. -/
def parseValue (text : String) : Value :=
  match Integer.read? text.toList with
  | some n => .int n
  | none =>
    match Reading.float? text.toList with
    | some x => .float x
    | none =>
      if text = "true" then .bool true
      else if text = "false" then .bool false
      else .text text

/-- The binding that `name=value` writes. -/
def binding? (text : String) : Option (String × Value) :=
  match text.toList.dropWhile (· ≠ '=') with
  | _ :: value =>
    some (String.ofList (Text.trim (text.toList.takeWhile (· ≠ '='))),
      parseValue (String.ofList value))
  | [] => none

/-- All bindings, or the first text that writes none. -/
def bindings : List String → Except String (List (String × Value))
  | [] => .ok []
  | text :: rest =>
    match binding? text with
    | none => .error text
    | some b => (bindings rest).map (b :: ·)

/-! ## The run -/

/-- The name and the version of the program. -/
def versionText : String := "templet 0.1.0\n"

/-- How the program is called. -/
def usageText : String := "Usage: templet [OPTIONS] <FILE>\n"

/-- What the program is for and which arguments it takes. -/
def helpText : String :=
  "Render a template file\n\n" ++ usageText ++
  "\nArguments:\n  <FILE>  Template file to render\n\nOptions:\n" ++
  "      --set <NAME=VALUE>       Model variable as name=value (repeatable)\n" ++
  "      --max-loops <MAX_LOOPS>  Loop iteration budget for the whole render [default: 1000]\n" ++
  "      --max-depth <MAX_DEPTH>  Maximum function/include nesting depth [default: 100]\n" ++
  "      --trim-blocks            Drop the first newline after each statement tag\n" ++
  "  -h, --help                   Print help\n" ++
  "  -V, --version                Print version\n"

/-- The context for a file whose templates are read below its directory. -/
def contextFor (a : Arguments) (read : String → Except ReadFault String) : Context :=
  let settings := Settings.standard Text.snakeCase
  Settings.newContext { settings with
    limits := ⟨a.maxLoops.getD settings.limits.loops, a.maxDepth.getD settings.limits.depth⟩
    options := ⟨a.trimBlocks⟩
    loader := some (.ofFiles fun name => read (below (directoryOf a.file) name)) }

/-- Renders the file of a name with a model. -/
def renderFile (a : Arguments) (name : String) (model : List (String × Value))
    (read : String → Except ReadFault String) : Outcome String :=
  let c := contextFor a read
  let action : Action String := do
    let v ← Action.onStore fun s => s.newMap (.ofList model)
    renderPath (machine .none c.callLevels) name v
  (action c).1

/-- The file that has not been read yet and without which a run cannot go on. -/
def wanted? (a : Arguments) : Outcome String → Option String
  | .error (.script _ (.load _ (.unreadable name .unread))) =>
    some (below (directoryOf a.file) name)
  | _ => none

/-- The report of a run. -/
def reportOf (a : Arguments) : Outcome String → Report
  | .ok text => .success text
  | .error e => .failure ("failed to render " ++ a.file) e.causes
  | .outOfFuel => .failure ("failed to render " ++ a.file) ["too many calls"]

/-- What a run comes to. -/
inductive Step
  | finished (r : Report)
  /-- The run has to be repeated with this file at hand. -/
  | needs (file : String)
deriving DecidableEq

/-- Runs the program, as far as it gets with the files that can be read. -/
def run (args : List String) (read : String → Except ReadFault String) : Step :=
  match Arguments.read args with
  | .error .usage => .finished ⟨2, "", usageText⟩
  | .error .help => .finished (.success helpText)
  | .error .version => .finished (.success versionText)
  | .ok a =>
    match fileName? a.file with
    | none => .finished (.failure ("'" ++ a.file ++ "' is not a template file") [])
    | some name =>
      match bindings a.sets with
      | .error text => .finished (.failure ("--set expects NAME=VALUE, got '" ++ text ++ "'") [])
      | .ok model =>
        let outcome := renderFile a name model read
        match wanted? a outcome with
        | some file => .needs file
        | none => .finished (reportOf a outcome)

end CommandLine

end TemplateEngine
