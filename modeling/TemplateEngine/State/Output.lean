import TemplateEngine.State.Stack

/-!
# Output

Text is written to the buffer on top of a stack. The lowest buffer is the root, which cannot be
closed but can be emptied at any time. While output is off, nothing is written.
-/

namespace TemplateEngine

/-- Open buffers, and whether output is on. -/
structure Output where
  buffers : Stack String
  enabled : Bool

namespace Output

/-- The root buffer, with nothing in it. -/
def new (enabled : Bool) : Output := ⟨⟨"", []⟩, enabled⟩

/-- What the buffer on top holds. -/
def current (o : Output) : String := o.buffers.top

/-- The number of open buffers. -/
def depth (o : Output) : Nat := o.buffers.size

/-- Opens a buffer. -/
def push (o : Output) : Output := { o with buffers := o.buffers.push "" }

/-- Closes the buffer on top and hands out what it held. -/
def pop? (o : Output) : Option (String × Output) :=
  match o.buffers.pop? with
  | none => none
  | some (text, rest) => some (text, { o with buffers := rest })

/-- Adds text to the buffer on top, if output is on. -/
def write (o : Output) (text : String) : Output :=
  if o.enabled then { o with buffers := o.buffers.modifyTop (· ++ text) } else o

/-- Empties the root buffer and hands out what it held. -/
def takeRoot (o : Output) : String × Output :=
  (o.buffers.ground, { o with buffers := ⟨"", o.buffers.above⟩ })

/-- Turns output on or off. -/
def enable (o : Output) (enabled : Bool) : Output := { o with enabled := enabled }

/-! ## What is read back -/

@[simp] theorem current_push (o : Output) : o.push.current = "" := rfl

@[simp] theorem depth_push (o : Output) : o.push.depth = o.depth + 1 := rfl

@[simp] theorem pop?_push (o : Output) : o.push.pop? = some ("", o) := rfl

@[simp] theorem depth_write (o : Output) (text : String) : (o.write text).depth = o.depth := by
  unfold write depth
  split <;> simp

@[simp] theorem enabled_write (o : Output) (text : String) :
    (o.write text).enabled = o.enabled := by
  unfold write
  split <;> rfl

theorem current_write (o : Output) (text : String) :
    (o.write text).current = if o.enabled then o.current ++ text else o.current := by
  unfold write current
  split <;> simp

/-- What was written to a buffer is what it held, and all the buffers below are untouched. -/
theorem pop?_write_push (o : Output) (text : String) (h : o.enabled = true) :
    (o.push.write text).pop? = some (text, o) := by
  obtain ⟨buffers, enabled⟩ := o
  cases h
  simp [write, push, pop?, Stack.push, Stack.pop?, Stack.modifyTop]

end Output

end TemplateEngine
