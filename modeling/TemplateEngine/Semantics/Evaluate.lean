import TemplateEngine.Semantics.Machine
import TemplateEngine.Semantics.Operators
import TemplateEngine.State.Variables

/-!
# Evaluation

An expression is evaluated from the inside out. A function that is met on the way to a member or
an item is called without arguments, and so is one that comes out at the end, unless the
expression is evaluated for the function itself.
-/

namespace TemplateEngine

/-! ## Members and items -/

/-- Something that can be read and assigned to inside a value that has been evaluated. The target
is the expression that gave the value, as messages name it. -/
inductive Place
  | member (object : Value) (name : String) (target : Expr) (position : Position)
  | item (accessor : SequenceAccessor) (object : Value) (index : Int) (target : Expr)
      (position : Position)

namespace Place

open TemplateEngine.Action

/-- The member of a value, which must not be absent or primitive. -/
def ofMember (object : Value) (name : String) (target : Expr) (p : Position) : Action Place := do
  if object.isAbsent then failAt p (.memberOfNull target.display name)
  else if object.isPrimitive then
    let kind ← inStore fun s => s.typeName object
    failAt p (.memberOfPrimitive target.display name kind)
  else pure (.member object name target p)

/-- The item of a value under a key, which must not be absent. Maps and objects take the text of
the key, lists and arrays its integer. -/
def ofKey (object key : Value) (keyPosition : Position) (target : Expr) (p : Position) :
    Action Place := do
  if key.isAbsent then failAt p (.nullIndex target.display)
  else
    match object with
    | .map _ | .object _ =>
      let name ← toText key keyPosition
      pure (.member object name target p)
    | _ =>
      let accessor ← sequenceAccessor object
      match accessor with
      | none =>
        let kind ← inStore fun s => s.typeName object
        failAt p (.notIndexable target.display kind)
      | some accessor =>
        let index ← toInteger key keyPosition
        pure (.item accessor object index target p)

/-- The value at a place. -/
def read : Place → Action Value
  | .member object name _ _ => readMember object name
  | .item accessor object index target p =>
    tryView p fun s => (accessor.get s object index).mapError fun e =>
      .indexOutOfBounds target.display e.index e.length

/-- Assigns to a place. -/
def write (value : Value) : Place → Action Unit
  | .member object name target p => do
    let r ← writeMember object name value
    match r with
    | .ok () => pure ()
    | .error .readOnly => failAt p (.readOnlyMember target.display name)
    | .error .noSuchMember => failAt p (.noSuchMember target.display name)
  | .item accessor object index target p =>
    tryStore p fun s =>
      match accessor.set s object index value with
      | .ok t => .ok ((), t)
      | .error e => .error (.indexOutOfBounds target.display e.index e.length)

end Place

/-! ## Expressions -/

namespace Machine

open TemplateEngine.Action

/-- Calls the function that an expression gave. Only the outermost expression can be kept from
being called. -/
def settle (m : Machine) (outermost : Bool) (p : Position) (v : Value) : Action Value :=
  match v with
  | .function f => do
    let suppressed ← view fun c => c.suppressed
    if outermost && suppressed then pure v else m.call f [] p
  | v => pure v

/-- Calls what a callee gave with arguments. -/
def callValue (m : Machine) (v : Value) (args : List Value) (callee : Expr) (p : Position) :
    Action Value :=
  match v with
  | .function f => m.call f args p
  | v => do
    let kind ← inStore fun s => s.typeName v
    failAt p (.notCallable callee.display kind)

end Machine

open TemplateEngine.Action in
mutual

/-- The value of an expression, outermost or on the way to a member or an item. -/
def Expr.reach (m : Machine) (outermost : Bool) : Expr → Action Value
  | .literal value p => m.settle outermost p (.ofLiteral value)
  | .var ref => do
    let v ← readVariable ref
    m.settle outermost ref.position v
  | .member target name p => do
    let object ← target.reach m false
    let place ← Place.ofMember object name target p
    let v ← place.read
    m.settle outermost p v
  | .index target key p => do
    let object ← target.reach m false
    if object.isAbsent then failAt p (.indexOfNull target.display)
    else
      let k ← withSuppression false (key.reach m true)
      let place ← Place.ofKey object k key.position target p
      let v ← place.read
      m.settle outermost p v
  | .call callee args p => do
    let f ← withSuppression true (callee.reach m true)
    let vs ← evaluateItems m args
    let v ← m.callValue f vs callee p
    m.settle outermost p v
  | .list items p => do
    let vs ← evaluateItems m items
    let v ← onStore fun s => s.newList vs
    m.settle outermost p v
  | .map entries p => do
    let es ← evaluateEntries m entries
    let v ← onStore fun s => s.newMap (.ofList es)
    m.settle outermost p v
  | .unary op operand p => do
    let x ← withSuppression false (operand.reach m true)
    let v ← tryView p fun s => s.unary op x
    m.settle outermost p v
  | .binary .and left right p => do
    let a ← withSuppression false (left.reach m true)
    let holds ← inStore fun s => s.isTruthy a
    let v ← if holds then withSuppression false (right.reach m true) else pure a
    m.settle outermost p v
  | .binary .or left right p => do
    let a ← withSuppression false (left.reach m true)
    let holds ← inStore fun s => s.isTruthy a
    let v ← if holds then pure a else withSuppression false (right.reach m true)
    m.settle outermost p v
  | .binary op left right p => do
    let a ← withSuppression false (left.reach m true)
    let b ← withSuppression false (right.reach m true)
    let v ← tryStore p fun s => s.binary op a b
    m.settle outermost p v

/-- The values of expressions, each in turn. -/
def evaluateItems (m : Machine) : List Expr → Action (List Value)
  | [] => pure []
  | e :: rest => do
    let v ← withSuppression false (e.reach m true)
    let vs ← evaluateItems m rest
    pure (v :: vs)

/-- The entries of a map literal, each in turn. -/
def evaluateEntries (m : Machine) : List (String × Expr) → Action (List (String × Value))
  | [] => pure []
  | (key, e) :: rest => do
    let v ← withSuppression false (e.reach m true)
    let vs ← evaluateEntries m rest
    pure ((key, v) :: vs)

end

namespace Expr

open TemplateEngine.Action

/-- The value of an expression; a function that comes out is called. -/
def evaluate (m : Machine) (e : Expr) : Action Value := withSuppression false (e.reach m true)

/-- The value of an expression; a function that comes out is given as it is. -/
def evaluateUninvoked (m : Machine) (e : Expr) : Action Value :=
  withSuppression true (e.reach m true)

/-- Assigns through an expression. -/
def write (m : Machine) (value : Value) : Expr → Action Unit
  | .var ref => writeVariable ref value
  | .member target name p => do
    let object ← target.reach m false
    let place ← Place.ofMember object name target p
    place.write value
  | .index target key p => do
    let object ← target.reach m false
    if object.isAbsent then failAt p (.indexOfNull target.display)
    else
      let k ← key.evaluate m
      let place ← Place.ofKey object k key.position target p
      place.write value
  | e => failAt e.position (.invalidTarget e.display)

/-- Assigns to a variable, a member or an item. -/
def assign (m : Machine) (e : Expr) (value : Value) : Action Unit :=
  withSuppression false (e.write m value)

end Expr

end TemplateEngine
