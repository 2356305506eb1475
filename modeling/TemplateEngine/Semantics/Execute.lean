import TemplateEngine.Semantics.Evaluate
import TemplateEngine.Semantics.Loop
import TemplateEngine.State.Templates

/-!
# Execution

Statements run in order until one of them leaves the block. A template that is included runs as a
call of its own, with its own locals, and what leaves it goes no further.
-/

namespace TemplateEngine

open TemplateEngine.Action

/-- The model of an include, which must not be absent. -/
def includedModel (m : Machine) (path : String) : Option Expr → Action (Option Value)
  | none => pure none
  | some e => do
    let v ← e.evaluate m
    if v.isAbsent then failAt e.position (.type (.includeModel path)) else pure (some v)

/-- Runs the body of a template inside the one that includes it. -/
def runIncluded (m : Machine) (t : Template) (model : Option Value) (p : Position) :
    Action Unit :=
  Region.function.around (enterFunction p) <|
    Region.source.around (pushSource t.name) do
      let _ ← match model with
        | some v => Region.global.around (pushGlobal v) (m.run t.body)
        | none => m.run t.body
      pure ()

mutual

/-- Runs a statement. -/
def Stmt.run (m : Machine) : Stmt → Action Flow
  | .text content => do
    writeText content
    pure .normal
  | .output value => do
    let v ← value.evaluate m
    writeValue v value.position
    pure .normal
  | .assign target value => do
    let v ← value.evaluate m
    target.assign m v
    pure .normal
  | .assignGlobal ref value => do
    let v ← value.evaluate m
    writeVariable ref v
    pure .normal
  | .choose branches otherwise => do
    let flow ← runBranches m branches
    match flow with
    | some flow => pure flow
    | none =>
      match otherwise with
      | none => pure .normal
      | some block => runBlock m block
  | .each ref items body otherwise p => do
    let v ← items.evaluate m
    let xs ← tryView items.position fun s => s.iterationItems v
    match xs with
    | [] =>
      match otherwise with
      | none => pure .normal
      | some block => runBlock m block
    | xs => Machine.forEach ref.name p xs (runBlock m body)
  | .repeatWhile condition body p =>
    Machine.whileLoop p (condition.evaluate m) (runBlock m body)
  | .define identity name params body p => do
    writeVariable name (.function (.defined ⟨identity, name, params, body, p⟩))
    pure .normal
  | .leave none _ => pure (.leave none)
  | .leave (some e) _ => do
    let v ← e.evaluate m
    pure (.leave (some v))
  | .stop _ => pure .stop
  | .next _ => pure .next
  | .capture target body => do
    let (flow, text) ← Region.output.holding pushOutput (runBlock m body)
    target.assign m text
    pure flow
  | .include path model p => do
    let v ← path.evaluate m
    let name ← toText v path.position
    let t ← loadTemplate name p
    let v ← includedModel m name model
    runIncluded m t v p
    pure .normal

/-- Runs statements in order until one leaves the block. -/
def runBlock (m : Machine) : List Stmt → Action Flow
  | [] => pure .normal
  | s :: rest => do
    let flow ← s.run m
    match flow with
    | .normal => runBlock m rest
    | flow => pure flow

/-- Runs the body of the first branch whose condition holds, if there is one. -/
def runBranches (m : Machine) : List (Expr × List Stmt) → Action (Option Flow)
  | [] => pure none
  | (condition, body) :: rest => do
    let v ← condition.evaluate m
    let holds ← inStore fun s => s.isTruthy v
    if holds then do
      let flow ← runBlock m body
      pure (some flow)
    else runBranches m rest

end

/-! ## Levels of calls -/

/-- The machine with so many levels of calls. -/
def machine (host : Host) : Nat → Machine
  | 0 => ⟨fun _ => outOfFuel, fun _ _ _ => outOfFuel⟩
  | n + 1 => {
      run := fun block => runBlock (machine host n) block
      native := fun f args p => host f (machine host n) args p }

/-! ## Rendering -/

/-- The text of what a buffer held. -/
def bufferText (v : Value) : String := (v.text?).getD ""

/-- Renders a template. The model is opened, and over it a fresh namespace, which takes the
functions and the global assignments of the template; both are closed again in any case. An
absent model is an empty map. -/
def Template.render (m : Machine) (t : Template) (model : Value) : Action String := do
  let model ← if model.isAbsent then onStore fun s => s.newMap .empty else pure model
  Region.global.around (pushGlobal model) do
    let names ← onStore fun s => s.newNamespace .empty
    Region.global.around (pushGlobal names) <|
      Region.source.around (pushSource (if t.name.isEmpty then "<inline>" else t.name)) do
        let (_, text) ← Region.output.holding pushOutput (runBlock m t.body)
        pure (bufferText text)

/-- Loads a template and renders it. -/
def renderPath (m : Machine) (path : String) (model : Value) : Action String := do
  let t ← loadTemplate path .unknown
  t.render m model

/-- As many levels of calls as templates can use: the calls that a context admits, and with each of
them up to a thousand operations of the host within each other. -/
def Context.callLevels (c : Context) : Nat := 1000 * (c.limits.depth + 1)

end TemplateEngine
