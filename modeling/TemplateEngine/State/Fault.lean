import TemplateEngine.Heap.Conversion
import TemplateEngine.Library.Loader
import TemplateEngine.Syntax.Printer

/-!
# Why a run fails

A run fails because of the script, and then the failure has a place in a source; or because the
program around it used the engine wrongly, and then it has none.
-/

namespace TemplateEngine

/-- A wrong use of the engine by the program around it. -/
inductive UsageFault
  | modelMissing
  | rootModel
  | noFunction
  | noLoop
  | rootBuffer
  | sourceNameMissing
  | noSource
  /-- What an operation of the host says about itself. -/
  | host (message : String)
deriving DecidableEq

/-- The wording of the fault. -/
def UsageFault.message : UsageFault → String
  | .modelMissing => "push_global requires a model"
  | .rootModel => "pop_global called on the root global frame"
  | .noFunction => "exit_function called without a matching enter_function"
  | .noLoop => "exit_loop called without a matching enter_loop"
  | .rootBuffer => "pop_output called on the root buffer"
  | .sourceNameMissing => "push_source_file requires a name"
  | .noSource => "pop_source_file called on an empty stack"
  | .host message => message

/-- Operands or arguments of the wrong kind. -/
inductive TypeFault
  | integerOverflow
  | negate (kind : String)
  | operands (op : BinaryOp) (left right : String)
  | order (left right : String)
  | nested (kind : String) (fault : NestingFault)
  | iterate (kind : String)
  | includeModel (path : String)
  | lenOf (kind : String)
  | joinOf (kind : String)
  | keysOf (kind : String)
  | rangeEmpty
  | rangeStep
  /-- What an operation of the host says about its arguments. -/
  | host (message : String)

/-- The wording of the fault. -/
def TypeFault.message : TypeFault → String
  | .integerOverflow => "integer overflow"
  | .negate kind => s!"cannot negate {kind}"
  | .operands op left right =>
    s!"unsupported operands for `{op.symbol}`: {left} and {right}"
  | .order left right => s!"cannot compare {left} with {right}"
  | .nested kind fault => s!"cannot compare {kind}: it {fault.message}"
  | .iterate kind => s!"cannot iterate over {kind}"
  | .includeModel path => s!"model for include `{path}` is null"
  | .lenOf kind => s!"len() is not defined for {kind}"
  | .joinOf kind => s!"join() expects a list, found {kind}"
  | .keysOf kind => s!"keys() expects a map, found {kind}"
  | .rangeEmpty => "range() expects at least one argument"
  | .rangeStep => "range() step cannot be zero"
  | .host message => message

/-- A fault of a script. Targets are named as they are written. -/
inductive ScriptFault
  | readOnlyVariable (name : String)
  | readOnlyMember (target member : String)
  | noSuchMember (target member : String)
  | memberOfNull (target member : String)
  | memberOfPrimitive (target member kind : String)
  | indexOfNull (target : String)
  | nullIndex (target : String)
  | notIndexable (target kind : String)
  | indexOutOfBounds (target : String) (index : Int) (length : Nat)
  | loopVariableOutsideLoop (name : String)
  | loopLimit (limit : Nat)
  | recursionLimit (limit : Nat)
  | invalidTarget (target : String)
  | conversion (fault : ConversionFault)
  | notCallable (callee kind : String)
  | argumentCount (name : String) (expected actual : Nat)
  | type (fault : TypeFault)
  | divisionByZero
  | load (path : String) (fault : LoadError)

/-- The wording of the fault. -/
def ScriptFault.message : ScriptFault → String
  | .readOnlyVariable name => s!"cannot assign to read-only variable `{name}`"
  | .readOnlyMember target member => s!"cannot assign to read-only member `{member}` of `{target}`"
  | .noSuchMember target member => s!"`{target}` has no member `{member}`"
  | .memberOfNull target member =>
    s!"cannot access member `{member}` of `{target}` because it is null"
  | .memberOfPrimitive target member kind =>
    s!"cannot access member `{member}` of `{target}`: {kind} values have no members"
  | .indexOfNull target => s!"cannot index `{target}` because it is null"
  | .nullIndex target => s!"index into `{target}` is null"
  | .notIndexable target kind => s!"`{target}` of type {kind} cannot be indexed"
  | .indexOutOfBounds target index length =>
    s!"index {index} is out of bounds for `{target}` (length {length})"
  | .loopVariableOutsideLoop name => s!"loop variable `{name}` referenced outside of a loop"
  | .loopLimit limit => s!"loop iteration limit of {limit} exceeded"
  | .recursionLimit limit => s!"recursion depth limit of {limit} exceeded"
  | .invalidTarget target => s!"`{target}` is not a valid assignment target"
  | .conversion fault => fault.message
  | .notCallable callee kind => s!"`{callee}` is not callable (found {kind})"
  | .argumentCount name expected actual =>
    s!"`{name}` takes at most {expected} arguments, got {actual}"
  | .type fault => fault.message
  | .divisionByZero => "division by zero"
  | .load path fault => s!"cannot load template `{path}`: {fault.message}"

/-- Why a run fails. -/
inductive EvalError
  | usage (fault : UsageFault)
  /-- A loop variable is bound while no loop is open. -/
  | noLoopFrame
  | script (position : Position) (fault : ScriptFault)

namespace EvalError

/-- The place that is to blame; wrong use of the engine has none. -/
def position? : EvalError → Option Position
  | .script p _ => some p
  | _ => none

/-- Whether the script is to blame. -/
def isRuntime : EvalError → Bool
  | .script _ _ => true
  | _ => false

/-- The wording of the failure. -/
def message : EvalError → String
  | .usage fault => s!"invalid usage: {fault.message}"
  | .noLoopFrame => "invalid context: no active loop frame"
  | .script p fault => s!"{p.display}: {fault.message}"

theorem isRuntime_iff (e : EvalError) : e.isRuntime = true ↔ ∃ p, e.position? = some p := by
  cases e <;> simp [isRuntime, position?]

end EvalError

end TemplateEngine
