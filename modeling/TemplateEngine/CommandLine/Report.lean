import TemplateEngine.State.Fault

/-!
# Reports

What the program leaves behind: an exit code, and text on its two outputs. A failure is reported
with its causes, from the outermost inwards, numbered if there is more than one.
-/

namespace TemplateEngine

/-- How a run of the program ends. -/
structure Report where
  code : Nat
  output : String
  errors : String
deriving DecidableEq

/-- What is behind a failure to load, outermost first. -/
def LoadError.causes : LoadError → List String
  | .unreadable name fault => [(LoadError.unreadable name fault).message, fault.message]
  | e => [e.message]

/-- What is behind a failure, outermost first. -/
def EvalError.causes : EvalError → List String
  | .script p (.load path fault) => (EvalError.script p (.load path fault)).message :: fault.causes
  | e => [e.message]

namespace Report

/-- A text whose further lines are set in. -/
def indented (blanks : Nat) (text : String) : String :=
  String.ofList (text.toList.flatMap fun c =>
    if c = '\n' then '\n' :: List.replicate blanks ' ' else [c])

/-- The list of causes. -/
def causesText : List String → String
  | [] => ""
  | [cause] => "\n\nCaused by:\n    " ++ indented 4 cause
  | causes =>
    "\n\nCaused by:" ++ String.join (causes.zipIdx.map fun c =>
      "\n    " ++ toString c.2 ++ ": " ++ indented 7 c.1)

/-- The report of a failure with its causes. -/
def failure (message : String) (causes : List String) : Report :=
  ⟨1, "", "Error: " ++ message ++ causesText causes ++ "\n"⟩

/-- The report of a success with the text that was rendered. -/
def success (text : String) : Report := ⟨0, text, ""⟩

end Report

end TemplateEngine
