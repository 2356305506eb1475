import TemplateEngine.Heap.Frame

/-!
# Pools of frames

A pool hands out numbered frames and takes them back. A frame that was taken back is emptied and
is the first to be handed out again, so a frame is always empty when it is handed out.
-/

namespace TemplateEngine

/-- All frames that were ever handed out, and the numbers of those that are free. -/
structure FramePool where
  frames : Array Frame
  free : List Nat

namespace FramePool

/-- No frame has been handed out. -/
def empty : FramePool := ⟨#[], []⟩

/-- Hands out a frame. -/
def acquire (p : FramePool) : Nat × FramePool :=
  match p.free with
  | i :: rest => (i, { p with free := rest })
  | [] => (p.frames.size, ⟨p.frames.push .empty, []⟩)

/-- Takes a frame back. -/
def release (p : FramePool) (i : Nat) : FramePool :=
  if i < p.frames.size then ⟨p.frames.setIfInBounds i .empty, i :: p.free⟩ else p

/-- The frame of a number. -/
def get (p : FramePool) (i : Nat) : Frame := (p.frames[i]?).getD .empty

/-- Replaces a frame. -/
def set (p : FramePool) (i : Nat) (f : Frame) : FramePool :=
  { p with frames := p.frames.setIfInBounds i f }

/-! ## What is read back -/

theorem get_set_self {p : FramePool} {i : Nat} (h : i < p.frames.size) (f : Frame) :
    (p.set i f).get i = f := by
  simp [get, set, h]

theorem get_set_of_ne (p : FramePool) {i j : Nat} (h : i ≠ j) (f : Frame) :
    (p.set i f).get j = p.get j := by
  simp [get, set, h]

/-- A frame that was taken back is empty. -/
theorem get_release_self (p : FramePool) (i : Nat) : (p.release i).get i = .empty := by
  unfold release
  split
  · next h => simp [get, h]
  · next h => simp [get, Array.getElem?_eq_none (Nat.le_of_not_lt h)]

theorem get_release_of_ne (p : FramePool) {i j : Nat} (h : i ≠ j) :
    (p.release i).get j = p.get j := by
  unfold release
  split <;> simp [get, h]

/-- Handing out a frame leaves what the frames hold as it is. -/
theorem get_acquire (p : FramePool) (j : Nat) : p.acquire.2.get j = p.get j := by
  unfold acquire
  split
  · rfl
  · simp only [get, Array.getElem?_push]
    split
    · next h => simp [h]
    · rfl

end FramePool

end TemplateEngine
