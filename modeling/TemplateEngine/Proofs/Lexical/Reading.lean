import TemplateEngine.Proofs.Evaluation.Congruence

/-!
# Evaluation in sight of the loops around

Here expressions and statements are evaluated with what the names of the loops around them stand
for (`LoopNames`): in the body of a `for`, its variable stands for the item of the current round and
`loop` for what is told about the round. The bodies of functions and templates begin without such
names. A reader gives the values of variables; it sees the names and may use them or not (`Reader`).
Everything else, the frames of loops included, is as in evaluation.
-/

namespace TemplateEngine

open TemplateEngine.Action

/-! ## Names and readers -/

/-- What the names of the loops around a place stand for. -/
def LoopNames : Type := String → Option Value

namespace LoopNames

/-- No loop is around. -/
def none : LoopNames := fun _ => .none

/-- The names with a further one, which hides another with the same name. -/
def bind (names : LoopNames) (name : String) (v : Value) : LoopNames :=
  fun n => if name = n then some v else names n

/-- The names in a round of a `for`. -/
def within (names : LoopNames) (name : String) (item info : Value) : LoopNames :=
  (names.bind name item).bind "loop" info

end LoopNames

/-- Gives the value of a variable at a place, from the names of the loops around it and what a
context holds. -/
abbrev Reader := LoopNames → VarRef → Action Value

namespace Reader

/-- The reader reads other variables as evaluation does, and it agrees with evaluation where this
reads of a loop name what it stands for. What it does where evaluation reads anything else is left
open. -/
structure Faithful (read : Reader) : Prop where
  other (names : LoopNames) (ref : VarRef) : ref.scope ≠ .loop → read names ref = readVariable ref
  loop (names : LoopNames) (ref : VarRef) (v : Value) (c : Context) : ref.scope = .loop →
    names ref.name = some v → readVariable ref c = (.ok v, c) → read names ref c = (.ok v, c)

/-- The reader for which loop names are what they stand for, whatever the frames bind. -/
def lexical : Reader := fun names ref =>
  if ref.scope = .loop then pure ((names ref.name).getD .undefined) else readVariable ref

theorem faithful_lexical : lexical.Faithful where
  other names ref h := by simp only [lexical, h, if_false]
  loop names ref v c h hv _ := by simp only [lexical, h, hv, if_true, Option.getD_some, pure_apply]

end Reader

/-! ## Expressions -/

mutual

/-- The value of an expression, outermost or on the way to a member or an item. -/
def Expr.reachBy (look : VarRef → Action Value) (m : Machine) (outermost : Bool) :
    Expr → Action Value
  | .literal value p => m.settle outermost p (.ofLiteral value)
  | .var ref => do
    let v ← look ref
    m.settle outermost ref.position v
  | .member target name p => do
    let object ← target.reachBy look m false
    let place ← Place.ofMember object name target p
    let v ← place.read
    m.settle outermost p v
  | .index target key p => do
    let object ← target.reachBy look m false
    if object.isAbsent then failAt p (.indexOfNull target.display)
    else
      let k ← withSuppression false (key.reachBy look m true)
      let place ← Place.ofKey object k key.position target p
      let v ← place.read
      m.settle outermost p v
  | .call callee args p => do
    let f ← withSuppression true (callee.reachBy look m true)
    let vs ← evaluateItemsBy look m args
    let v ← m.callValue f vs callee p
    m.settle outermost p v
  | .list items p => do
    let vs ← evaluateItemsBy look m items
    let v ← onStore fun s => s.newList vs
    m.settle outermost p v
  | .map entries p => do
    let es ← evaluateEntriesBy look m entries
    let v ← onStore fun s => s.newMap (.ofList es)
    m.settle outermost p v
  | .unary op operand p => do
    let x ← withSuppression false (operand.reachBy look m true)
    let v ← tryView p fun s => s.unary op x
    m.settle outermost p v
  | .binary .and left right p => do
    let a ← withSuppression false (left.reachBy look m true)
    let holds ← inStore fun s => s.isTruthy a
    let v ← if holds then withSuppression false (right.reachBy look m true) else pure a
    m.settle outermost p v
  | .binary .or left right p => do
    let a ← withSuppression false (left.reachBy look m true)
    let holds ← inStore fun s => s.isTruthy a
    let v ← if holds then pure a else withSuppression false (right.reachBy look m true)
    m.settle outermost p v
  | .binary op left right p => do
    let a ← withSuppression false (left.reachBy look m true)
    let b ← withSuppression false (right.reachBy look m true)
    let v ← tryStore p fun s => s.binary op a b
    m.settle outermost p v

/-- The values of expressions, each in turn. -/
def evaluateItemsBy (look : VarRef → Action Value) (m : Machine) :
    List Expr → Action (List Value)
  | [] => pure []
  | e :: rest => do
    let v ← withSuppression false (e.reachBy look m true)
    let vs ← evaluateItemsBy look m rest
    pure (v :: vs)

/-- The entries of a map literal, each in turn. -/
def evaluateEntriesBy (look : VarRef → Action Value) (m : Machine) :
    List (String × Expr) → Action (List (String × Value))
  | [] => pure []
  | (key, e) :: rest => do
    let v ← withSuppression false (e.reachBy look m true)
    let vs ← evaluateEntriesBy look m rest
    pure ((key, v) :: vs)

end

namespace Expr

/-- The value of an expression; a function that comes out is called. -/
def evaluateBy (look : VarRef → Action Value) (m : Machine) (e : Expr) : Action Value :=
  withSuppression false (e.reachBy look m true)

/-- Assigns through an expression. -/
def writeBy (look : VarRef → Action Value) (m : Machine) (value : Value) : Expr → Action Unit
  | .var ref => writeVariable ref value
  | .member target name p => do
    let object ← target.reachBy look m false
    let place ← Place.ofMember object name target p
    place.write value
  | .index target key p => do
    let object ← target.reachBy look m false
    if object.isAbsent then failAt p (.indexOfNull target.display)
    else
      let k ← key.evaluateBy look m
      let place ← Place.ofKey object k key.position target p
      place.write value
  | e => failAt e.position (.invalidTarget e.display)

/-- Assigns to a variable, a member or an item. -/
def assignBy (look : VarRef → Action Value) (m : Machine) (e : Expr) (value : Value) :
    Action Unit := withSuppression false (e.writeBy look m value)

end Expr

/-! ## Statements -/

/-- The model of an include, which must not be absent. -/
def includedModelBy (look : VarRef → Action Value) (m : Machine) (path : String) :
    Option Expr → Action (Option Value)
  | none => pure none
  | some e => do
    let v ← e.evaluateBy look m
    if v.isAbsent then failAt e.position (.type (.includeModel path)) else pure (some v)

namespace Machine

/-- One round of a loop over items, whose body sees the item and what is told about the round. -/
def eachBodyBy (name : String) (length : Nat) (body : Value → Value → Action Flow)
    (item : Value × Nat) : Action (Option Flow) := do
  stepLoop
  bindLoop name item.1
  let info ← onStore fun s => s.newMap (loopEntries item.2 length)
  bindLoop "loop" info
  let flow ← body item.1 info
  pure flow.endsLoop

/-- The loop over items, of which there is at least one. -/
def forEachBy (name : String) (p : Position) (items : List Value)
    (body : Value → Value → Action Flow) : Action Flow :=
  inLoop p (eachRound (eachBodyBy name items.length body) items.zipIdx)

end Machine

mutual

/-- Runs a statement. -/
def Stmt.runBy (read : Reader) (m : Machine) (names : LoopNames) : Stmt → Action Flow
  | .text content => do
    writeText content
    pure .normal
  | .output value => do
    let v ← value.evaluateBy (read names) m
    writeValue v value.position
    pure .normal
  | .assign target value => do
    let v ← value.evaluateBy (read names) m
    target.assignBy (read names) m v
    pure .normal
  | .assignGlobal ref value => do
    let v ← value.evaluateBy (read names) m
    writeVariable ref v
    pure .normal
  | .choose branches otherwise => do
    let flow ← runBranchesBy read m names branches
    match flow with
    | some flow => pure flow
    | none =>
      match otherwise with
      | none => pure .normal
      | some block => runBlockBy read m names block
  | .each ref items body otherwise p => do
    let v ← items.evaluateBy (read names) m
    let xs ← tryView items.position fun s => s.iterationItems v
    match xs with
    | [] =>
      match otherwise with
      | none => pure .normal
      | some block => runBlockBy read m names block
    | xs => Machine.forEachBy ref.name p xs fun item info =>
        runBlockBy read m (names.within ref.name item info) body
  | .repeatWhile condition body p =>
    Machine.whileLoop p (condition.evaluateBy (read names) m) (runBlockBy read m names body)
  | .define identity name params body p => do
    writeVariable name (.function (.defined ⟨identity, name, params, body, p⟩))
    pure .normal
  | .leave none _ => pure (.leave none)
  | .leave (some e) _ => do
    let v ← e.evaluateBy (read names) m
    pure (.leave (some v))
  | .stop _ => pure .stop
  | .next _ => pure .next
  | .capture target body => do
    let (flow, text) ← Region.output.holding pushOutput (runBlockBy read m names body)
    target.assignBy (read names) m text
    pure flow
  | .include path model p => do
    let v ← path.evaluateBy (read names) m
    let name ← toText v path.position
    let t ← loadTemplate name p
    let v ← includedModelBy (read names) m name model
    runIncluded m t v p
    pure .normal

/-- Runs statements in order until one leaves the block. -/
def runBlockBy (read : Reader) (m : Machine) (names : LoopNames) : List Stmt → Action Flow
  | [] => pure .normal
  | s :: rest => do
    let flow ← s.runBy read m names
    match flow with
    | .normal => runBlockBy read m names rest
    | flow => pure flow

/-- Runs the body of the first branch whose condition holds, if there is one. -/
def runBranchesBy (read : Reader) (m : Machine) (names : LoopNames) :
    List (Expr × List Stmt) → Action (Option Flow)
  | [] => pure none
  | (condition, body) :: rest => do
    let v ← condition.evaluateBy (read names) m
    let holds ← inStore fun s => s.isTruthy v
    if holds then do
      let flow ← runBlockBy read m names body
      pure (some flow)
    else runBranchesBy read m names rest

end

/-! ## Calls and templates -/

/-- The machine with so many levels of calls. The bodies that it runs begin without loop names. -/
def machineBy (read : Reader) (host : Host) : Nat → Machine
  | 0 => ⟨fun _ => outOfFuel, fun _ _ _ => outOfFuel⟩
  | n + 1 => {
      run := fun block => runBlockBy read (machineBy read host n) .none block
      native := fun f args p => host f (machineBy read host n) args p }

/-- Renders a template. -/
def Template.renderBy (read : Reader) (m : Machine) (t : Template) (model : Value) :
    Action String := do
  let model ← if model.isAbsent then onStore fun s => s.newMap .empty else pure model
  rendering (if t.name.isEmpty then "<inline>" else t.name)
    (runBlockBy read m .none t.body) model

/-- Loads a template and renders it. -/
def renderPathBy (read : Reader) (m : Machine) (path : String) (model : Value) :
    Action String := do
  let t ← loadTemplate path .unknown
  t.renderBy read m model

end TemplateEngine
