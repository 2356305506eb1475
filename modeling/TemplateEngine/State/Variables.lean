import TemplateEngine.State.Action

/-!
# Variables

A global name is read from the innermost model that gives it a value and written to the innermost
model; a local name lives in the frame of the active call, and a loop name in the frame of the
innermost loop. Locked names refuse to be written.
-/

namespace TemplateEngine

namespace Action

/-! ## Members -/

/-- The rule for the members of a value. -/
def memberAccessor (target : Value) : Action MemberAccessor := fun c =>
  let (a, members) := c.members.resolve c.store target
  (.ok a, { c with members := members })

/-- The rule for the items of a value, if it is a sequence. -/
def sequenceAccessor (target : Value) : Action (Option SequenceAccessor) := fun c =>
  let (a, sequences) := c.sequences.resolve target
  (.ok a, { c with sequences := sequences })

/-- The value that an answer stands for. -/
def realise : Answer → Action Value
  | .value v => pure v
  | .newFunction name operation => onStore fun s => s.newNative name operation

/-- Reads a member of a value. -/
def readMember (target : Value) (name : String) : Action Value := do
  let accessor ← memberAccessor target
  let answer ← inStore fun s => accessor.get s target name
  realise answer

/-- Writes a member of a value; a refusal is a result here. -/
def writeMember (target : Value) (name : String) (value : Value) :
    Action (Except AccessFault Unit) := do
  let accessor ← memberAccessor target
  onStore fun s =>
    match accessor.set s target name value with
    | .ok t => (.ok (), t)
    | .error fault => (.error fault, s)

/-! ## Reading -/

/-- The first value other than undefined that models have for a name, innermost model first. -/
def readGlobal (name : String) : List GlobalFrame → Action Value
  | [] => pure .undefined
  | g :: rest => do
    let v ← readMember g.model name
    if v.isUndefined then readGlobal name rest else pure v

/-- The value of a variable. -/
def readVariable (ref : VarRef) : Action Value :=
  match ref.scope with
  | .global => do
    let globals ← view fun c => c.scopes.globals.toList
    readGlobal ref.name globals
  | .locals => view fun c => c.scopes.localFrame.get ref.name
  | .loop => do
    let frame ← view fun c => c.scopes.loopFrame?
    match frame with
    | some frame => pure (frame.get ref.name)
    | none => failAt ref.position (.loopVariableOutsideLoop ref.name)

/-! ## Writing -/

/-- Assigns to a variable. -/
def writeVariable (ref : VarRef) (value : Value) : Action Unit :=
  match ref.scope with
  | .global => do
    let g ← view fun c => c.scopes.globals.top
    if g.readOnly.contains ref.name then failAt ref.position (.readOnlyVariable ref.name)
    else
      let r ← writeMember g.model ref.name value
      match r with
      | .ok () => pure ()
      | .error .readOnly => failAt ref.position (.readOnlyVariable ref.name)
      | .error .noSuchMember =>
        let kind ← inStore fun s => s.typeName g.model
        failAt ref.position (.noSuchMember kind ref.name)
  | .locals => do
    let frame ← view fun c => c.scopes.localFrame
    match frame.set ref.name value with
    | .ok frame => modify fun c => { c with scopes := c.scopes.setLocalFrame frame }
    | .error _ => failAt ref.position (.readOnlyVariable ref.name)
  | .loop => do
    let frame ← view fun c => c.scopes.loopFrame?
    match frame with
    | none => failAt ref.position (.loopVariableOutsideLoop ref.name)
    | some frame =>
      match frame.set ref.name value with
      | .ok frame => modify fun c => { c with scopes := c.scopes.setLoopFrame frame }
      | .error _ => failAt ref.position (.readOnlyVariable ref.name)

/-! ## Locks -/

/-- Locks or unlocks a variable. The innermost model keeps the lock itself if it can. -/
def setReadOnly (ref : VarRef) (readOnly : Bool) : Action Unit :=
  match ref.scope with
  | .global => modify fun c =>
    let kept := match c.scopes.globals.top.model with
      | .object r => c.store.objectSetReadOnly? r ref.name readOnly
      | _ => none
    match kept with
    | some store => { c with store := store }
    | none => { c with scopes := c.scopes.flagGlobal ref.name readOnly }
  | .locals => modify fun c =>
    let frame := c.scopes.localFrame.setReadOnly ref.name readOnly
    { c with scopes := c.scopes.setLocalFrame frame }
  | .loop => do
    let frame ← view fun c => c.scopes.loopFrame?
    match frame with
    | none => failAt ref.position (.loopVariableOutsideLoop ref.name)
    | some frame =>
      modify fun c =>
        { c with scopes := c.scopes.setLoopFrame (frame.setReadOnly ref.name readOnly) }

end Action

/-- Whether a variable is locked. -/
def Context.isReadOnly (c : Context) (ref : VarRef) : Bool :=
  match ref.scope with
  | .global =>
    let g := c.scopes.globals.top
    g.readOnly.contains ref.name ||
      match g.model with
      | .object r => c.store.objectIsReadOnly r ref.name
      | _ => false
  | .locals => c.scopes.localFrame.isReadOnly ref.name
  | .loop => (c.scopes.loopFrame?.map fun f => f.isReadOnly ref.name).getD false

end TemplateEngine
