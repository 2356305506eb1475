import TemplateEngine.State.FramePool
import TemplateEngine.State.Stack
import TemplateEngine.Position

/-!
# Scopes

Three stacks of what names can mean: models, where a global name is looked up from the innermost
one outwards; local frames, of which only the top one is seen; and frames of the active loops, of
which also only the top one is seen. Opening a model opens a local frame with it. Beside the
stacks stand the depth of calls and the number of loop rounds that were begun so far.
-/

namespace TemplateEngine

/-- A model and the names on it that are locked here, for models that keep no locks themselves. -/
structure GlobalFrame where
  model : Value
  readOnly : List String

/-- The frame of an active loop and the place of its statement. -/
structure LoopFrame where
  frame : Nat
  position : Position

/-- What names mean, and how much has been used up. -/
structure Scopes where
  pool : FramePool
  globals : Stack GlobalFrame
  locals : Stack Nat
  loops : List LoopFrame
  /-- Calls and includes that are active. -/
  depth : Nat
  /-- Loop rounds that were begun. -/
  iterations : Nat

namespace Scopes

/-- The scopes with one model. -/
def new (root : Value) : Scopes :=
  let (i, pool) := FramePool.empty.acquire
  ⟨pool, ⟨⟨root, []⟩, []⟩, ⟨i, []⟩, [], 0, 0⟩

/-! ## Models -/

/-- Opens a model and a local frame. -/
def pushGlobal (s : Scopes) (model : Value) : Scopes :=
  let (i, pool) := s.pool.acquire
  { s with pool := pool, globals := s.globals.push ⟨model, []⟩, locals := s.locals.push i }

/-- Closes the innermost model and the top local frame, if both have another below. -/
def popGlobal? (s : Scopes) : Option (Value × Scopes) :=
  match s.globals.pop?, s.locals.pop? with
  | some (g, globals), some (i, locals) =>
    some (g.model, { s with pool := s.pool.release i, globals := globals, locals := locals })
  | _, _ => none

/-- Locks or unlocks a name on the innermost model. -/
def flagGlobal (s : Scopes) (name : String) (readOnly : Bool) : Scopes :=
  { s with globals := s.globals.modifyTop fun g =>
      let others := g.readOnly.filter (· ≠ name)
      ⟨g.model, if readOnly then name :: others else others⟩ }

/-! ## Local frames -/

/-- Opens a local frame. -/
def pushLocal (s : Scopes) : Scopes :=
  let (i, pool) := s.pool.acquire
  { s with pool := pool, locals := s.locals.push i }

/-- Closes the top local frame, if there is another below. -/
def popLocal? (s : Scopes) : Option Scopes :=
  match s.locals.pop? with
  | some (i, locals) => some { s with pool := s.pool.release i, locals := locals }
  | none => none

/-- The local frame that is seen. -/
def localFrame (s : Scopes) : Frame := s.pool.get s.locals.top

/-- Replaces the local frame that is seen. -/
def setLocalFrame (s : Scopes) (f : Frame) : Scopes :=
  { s with pool := s.pool.set s.locals.top f }

/-! ## Loops -/

/-- Opens the frame of a loop. -/
def pushLoop (s : Scopes) (position : Position) : Scopes :=
  let (i, pool) := s.pool.acquire
  { s with pool := pool, loops := ⟨i, position⟩ :: s.loops }

/-- Closes the frame of the innermost loop. -/
def popLoop? (s : Scopes) : Option Scopes :=
  match s.loops with
  | [] => none
  | l :: loops => some { s with pool := s.pool.release l.frame, loops := loops }

/-- The loop frame that is seen. -/
def loopFrame? (s : Scopes) : Option Frame := s.loops.head?.map fun l => s.pool.get l.frame

/-- Replaces the loop frame that is seen. -/
def setLoopFrame (s : Scopes) (f : Frame) : Scopes :=
  match s.loops with
  | [] => s
  | l :: _ => { s with pool := s.pool.set l.frame f }

/-- Copies the bindings of the loop around into the innermost loop. -/
def inheritLoop (s : Scopes) : Scopes :=
  match s.loops with
  | inner :: outer :: _ =>
    let frame := (s.pool.get inner.frame).update (s.pool.get outer.frame)
    { s with pool := s.pool.set inner.frame frame }
  | _ => s

/-- The place of the innermost loop. -/
def loopPosition (s : Scopes) : Position := (s.loops.head?.map (·.position)).getD .unknown

end Scopes

end TemplateEngine
