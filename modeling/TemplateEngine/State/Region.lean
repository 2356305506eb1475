import TemplateEngine.State.Action

/-!
# Regions

What can be opened on a context and has to be closed again: models, calls, loops, buffers and
sources. Closing gives back what the region held. A round of a loop is counted before it runs, and
the count only ever grows.
-/

namespace TemplateEngine

namespace Action

/-! ## Models -/

/-- Opens a model, which must not be absent. -/
def pushGlobal (model : Value) : Action Unit :=
  if model.isAbsent then misuse .modelMissing
  else modify fun c => { c with scopes := c.scopes.pushGlobal model }

/-- Closes the innermost model and gives it back; the root stays. -/
def popGlobal : Action Value := fun c =>
  match c.scopes.popGlobal? with
  | some (model, scopes) => (.ok model, { c with scopes := scopes })
  | none => (.error (.usage .rootModel), c)

/-! ## Calls -/

/-- Begins a call that is made at a place, unless too many are active. -/
def enterFunction (caller : Position) : Action Unit := fun c =>
  if c.scopes.depth < c.limits.depth then
    (.ok (), { c with scopes := { c.scopes.pushLocal with depth := c.scopes.depth + 1 } })
  else (.error (.script caller (.recursionLimit c.limits.depth)), c)

/-- Ends a call. -/
def exitFunction : Action Unit := fun c =>
  if c.scopes.depth = 0 then (.error (.usage .noFunction), c)
  else
    match c.scopes.popLocal? with
    | some scopes => (.ok (), { c with scopes := { scopes with depth := c.scopes.depth - 1 } })
    | none => (.error (.usage .noFunction), c)

/-- Binds a name in the frame of the active call. -/
def bindLocal (name : String) (value : Value) : Action Unit := modify fun c =>
  { c with scopes := c.scopes.setLocalFrame (c.scopes.localFrame.define name value false) }

/-! ## Loops -/

/-- Begins a loop that stands at a place. -/
def enterLoop (position : Position) : Action Unit := modify fun c =>
  { c with scopes := c.scopes.pushLoop position }

/-- Ends the innermost loop. -/
def exitLoop : Action Unit := fun c =>
  match c.scopes.popLoop? with
  | some scopes => (.ok (), { c with scopes := scopes })
  | none => (.error (.usage .noLoop), c)

/-- Counts a round, which fails once all rounds are used up. -/
def stepLoop : Action Unit := fun c =>
  let d := { c with scopes := { c.scopes with iterations := c.scopes.iterations + 1 } }
  if c.scopes.iterations < c.limits.loops then (.ok (), d)
  else (.error (.script c.scopes.loopPosition (.loopLimit c.limits.loops)), d)

/-- Copies the bindings of the loop around into the innermost loop. -/
def inheritLoop : Action Unit := modify fun c => { c with scopes := c.scopes.inheritLoop }

/-- Binds a name of the innermost loop and locks it. -/
def bindLoop (name : String) (value : Value) : Action Unit := fun c =>
  match c.scopes.loopFrame? with
  | some frame =>
    (.ok (), { c with scopes := c.scopes.setLoopFrame (frame.define name value true) })
  | none => (.error .noLoopFrame, c)

/-! ## Output -/

/-- Opens a buffer. -/
def pushOutput : Action Unit := modify fun c => { c with output := c.output.push }

/-- Closes the buffer on top and gives its text; the root stays. -/
def popOutput : Action String := fun c =>
  match c.output.pop? with
  | some (text, output) => (.ok text, { c with output := output })
  | none => (.error (.usage .rootBuffer), c)

/-- Writes text. -/
def writeText (text : String) : Action Unit := modify fun c =>
  { c with output := c.output.write text }

/-- Writes the text of a value; an absent value writes nothing. -/
def writeValue (v : Value) (p : Position) : Action Unit :=
  if v.isAbsent then pure () else do
    let text ← toText v p
    writeText text

/-- Empties the root buffer and gives its text. -/
def takeOutput : Action String := fun c =>
  let (text, output) := c.output.takeRoot
  (.ok text, { c with output := output })

/-- Turns output on or off. -/
def setOutputEnabled (enabled : Bool) : Action Unit := modify fun c =>
  { c with output := c.output.enable enabled }

/-! ## Sources -/

/-- Begins the rendering of a template, which must have a name. -/
def pushSource (name : String) : Action Unit :=
  if name.isEmpty then misuse .sourceNameMissing
  else modify fun c => { c with sources := name :: c.sources }

/-- Ends the rendering of a template and gives its name. -/
def popSource : Action String := fun c =>
  match c.sources with
  | name :: rest => (.ok name, { c with sources := rest })
  | [] => (.error (.usage .noSource), c)

end Action

/-! ## Regions -/

/-- What can be opened and has to be closed. -/
inductive Region
  | function
  | loop
  | global
  | output
  | source
deriving DecidableEq

namespace Region

/-- The region in the words of developers. -/
def label : Region → String
  | .function => "Function"
  | .loop => "Loop"
  | .global => "Global"
  | .output => "Output"
  | .source => "Source"

/-- An open region, for developers. -/
def debug (r : Region) : String :=
  "ScopeGuard \x7b release: " ++ r.label ++ ", armed: true, .. \x7d"

/-- Closes the innermost region of a kind and gives what it held. -/
def close : Region → Action Value
  | .function => do
    Action.exitFunction
    pure .undefined
  | .loop => do
    Action.exitLoop
    pure .undefined
  | .global => Action.popGlobal
  | .output => do
    let text ← Action.popOutput
    pure (.text text)
  | .source => do
    let name ← Action.popSource
    pure (.text name)

/-- Runs an action inside a region. The second part of the result is what the region held. -/
def holding {α : Type} (r : Region) (opening : Action Unit) (body : Action α) :
    Action (α × Value) :=
  Action.between opening r.close body

/-- Runs an action inside a region of which nothing is kept. -/
def around {α : Type} (r : Region) (opening : Action Unit) (body : Action α) : Action α := do
  let (a, _) ← r.holding opening body
  pure a

end Region

end TemplateEngine
