import TemplateEngine.Semantics.Builtins
import TemplateEngine.State.Region

/-!
# Calls

Evaluation follows the syntax down, and leaves it only where a function is called or a template is
included. There it asks a machine, which is the evaluation itself with one level of calls less to
go.
-/

namespace TemplateEngine

/-- How control leaves a statement. -/
inductive Flow
  | normal
  /-- The innermost loop ends. -/
  | stop
  /-- This round of the innermost loop ends. -/
  | next
  /-- The function, include or template ends, with this value. -/
  | leave (value : Option Value)

/-- What evaluation asks for where it leaves the syntax. -/
structure Machine where
  /-- Runs the body of a function or of a template. -/
  run : Block → Action Flow
  /-- Runs an operation of the host, called under a name. -/
  native : Native → List Value → Position → Action Value

namespace Machine

/-- Binds parameters to arguments, of which those that are missing are undefined. -/
def bindParams : List String → List Value → Action Unit
  | [], _ => pure ()
  | name :: rest, args => do
    Action.bindLocal name (args.head?.getD .undefined)
    bindParams rest args.tail

/-- Calls a function that a template defines. Its value is what it returns, or else the text that
it writes. -/
def callDefined (m : Machine) (d : FunctionDef) (args : List Value) (p : Position) :
    Action Value :=
  if d.params.length < args.length then
    Action.failAt p (.argumentCount d.name.name d.params.length args.length)
  else
    Region.function.around (Action.enterFunction p) do
      bindParams d.params args
      let (flow, text) ← Region.output.holding Action.pushOutput (m.run d.body)
      match flow with
      | .leave (some v) => pure v
      | _ => pure text

/-- Calls a function at a place. -/
def call (m : Machine) (f : Function) (args : List Value) (p : Position) : Action Value :=
  match f with
  | .builtin b => b.call args p
  | .native n => m.native n args p
  | .defined d => m.callDefined d args p

end Machine

/-- The operations of a host, by their names. -/
abbrev Host := Native → Machine → List Value → Position → Action Value

/-- The host without operations. -/
def Host.none : Host := fun n _ _ _ =>
  Action.misuse (.host s!"there is no operation {n.operation}")

end TemplateEngine
