import Mathlib.Data.List.Basic
import Mathlib.Data.List.Nodup
import Mathlib.Data.List.Perm.Subperm
import TemplateEngine.Proofs.Isolation.Scopes

/-!
# Frames in order

What happens to the frames of a context, event by event: a frame is opened or the one opened last is
closed. A history that begins with some frames open says how many are open at its end
(`FrameHistory.final`) and how many were open at once at most (`FrameHistory.peak`). The peak of one
history after the other is the greater of their peaks (`FrameHistory.peak_append`), and the peak is
reached after some of the events and never passed (`FrameHistory.exists_final_take_eq_peak`,
`FrameHistory.final_take_le_peak`).

The frames in use and the free ones are all frames that a pool has, each once, and the free ones
bind nothing (`FramePool.Complete`). Scopes are in order if that holds of their local and loop
frames, if there is a local frame for each model and for each active call, and if no more calls are
active than the ceiling says (`Scopes.InOrder`). Opening a frame, closing one and binding names in
one that is in use keep the scopes in order, whatever is opened or closed first. A frame is added to
the pool only while all of them are in use (`FramePool.Complete.size_acquire`), so that the pool has
as many frames as were ever in use at once (`Scopes.Books`).
-/

namespace TemplateEngine

/-! ## Histories -/

/-- What can happen to frames. -/
inductive FrameEvent
  | opened
  | closed
deriving DecidableEq

/-- How many frames are open after an event. -/
def FrameEvent.after (n : Nat) : FrameEvent → Nat
  | .opened => n + 1
  | .closed => n - 1

/-- Events, earliest first. -/
abbrev FrameHistory := List FrameEvent

namespace FrameHistory

/-- How many frames are open at the end, if `n` were open at the beginning. -/
def final (n : Nat) (h : FrameHistory) : Nat := h.foldl FrameEvent.after n

/-- How many frames were open at once at most, if `n` were open at the beginning. -/
def peak (n : Nat) : FrameHistory → Nat
  | [] => n
  | e :: rest => max n (peak (e.after n) rest)

@[simp] theorem final_nil (n : Nat) : final n [] = n := rfl

@[simp] theorem final_cons (n : Nat) (e : FrameEvent) (h : FrameHistory) :
    final n (e :: h) = final (e.after n) h := rfl

@[simp] theorem final_append (n : Nat) (h k : FrameHistory) :
    final n (h ++ k) = final (final n h) k := List.foldl_append

@[simp] theorem peak_nil (n : Nat) : peak n [] = n := rfl

@[simp] theorem peak_cons (n : Nat) (e : FrameEvent) (h : FrameHistory) :
    peak n (e :: h) = max n (peak (e.after n) h) := rfl

theorem le_peak (n : Nat) (h : FrameHistory) : n ≤ peak n h := by
  cases h with
  | nil => exact Nat.le_refl n
  | cons e rest => exact Nat.le_max_left _ _

theorem peak_append (n : Nat) (h k : FrameHistory) :
    peak n (h ++ k) = max (peak n h) (peak (final n h) k) := by
  induction h generalizing n with
  | nil =>
    have := le_peak n k
    simp only [List.nil_append, peak_nil, final_nil]
    omega
  | cons e rest ih =>
    simp only [List.cons_append, peak_cons, final_cons, ih]
    omega

/-! ## The peak is reached and never passed -/

theorem final_take_le_peak (n k : Nat) (h : FrameHistory) : final n (h.take k) ≤ peak n h := by
  induction h generalizing n k with
  | nil => simp
  | cons e rest ih =>
    cases k with
    | zero => exact le_peak n (e :: rest)
    | succ k => exact Nat.le_trans (ih _ k) (Nat.le_max_right _ _)

theorem exists_final_take_eq_peak (n : Nat) (h : FrameHistory) :
    ∃ k, final n (h.take k) = peak n h := by
  induction h generalizing n with
  | nil => exact ⟨0, rfl⟩
  | cons e rest ih =>
    obtain ⟨k, hk⟩ := ih (e.after n)
    by_cases hle : peak (e.after n) rest ≤ n
    · refine ⟨0, ?_⟩
      simp only [List.take_zero, final_nil, peak_cons]
      omega
    · refine ⟨k + 1, ?_⟩
      simp only [List.take_succ_cons, final_cons, peak_cons, hk]
      omega

end FrameHistory

/-! ## Pools -/

/-- Every frame of the pool is in use or free. -/
structure FramePool.Complete (p : FramePool) (used : List Nat) : Prop extends p.Sound used where
  count : used.length + p.free.length = p.frames.size

namespace FramePool

variable {p : FramePool} {used other : List Nat} {i : Nat}

/-- The frames in use and the free ones are the frames of the pool, each once. -/
theorem Complete.numbers (h : p.Complete used) :
    (used ++ p.free).Perm (List.range p.frames.size) := by
  have hsub : (used ++ p.free).Subperm (List.range p.frames.size) :=
    List.subperm_of_subset h.nodup fun i hi => List.mem_range.2 (h.bound i hi)
  refine hsub.perm_of_length_le ?_
  simp only [List.length_range, List.length_append, h.count, Nat.le_refl]

theorem Complete.perm (h : p.Complete used) (hp : used.Perm other) : p.Complete other where
  toSound := h.toSound.perm hp
  count := by rw [← hp.length_eq, h.count]

theorem Complete.acquire (h : p.Complete used) :
    p.acquire.2.Complete (p.acquire.1 :: used) where
  toSound := h.toSound.acquire
  count := by
    have hcount := h.count
    unfold FramePool.acquire
    split
    · next hfree =>
      simp only [hfree, List.length_cons] at hcount ⊢
      omega
    · next hfree =>
      simp only [hfree, List.length_nil] at hcount
      simp only [List.length_cons, List.length_nil, Array.size_push]
      omega

/-- A frame is added only while all of them are in use. -/
theorem Complete.size_acquire (h : p.Complete used) :
    p.acquire.2.frames.size = max p.frames.size (used.length + 1) := by
  have hcount := h.count
  unfold FramePool.acquire
  split
  · next hfree =>
    simp only [hfree, List.length_cons] at hcount ⊢
    omega
  · next hfree =>
    simp only [hfree, List.length_nil] at hcount
    simp only [Array.size_push]
    omega

@[simp] theorem size_release (p : FramePool) (i : Nat) :
    (p.release i).frames.size = p.frames.size := by
  unfold release
  split <;> simp

theorem Complete.release (h : p.Complete (i :: used)) : (p.release i).Complete used where
  toSound := h.toSound.release
  count := by
    have hcount := h.count
    have hi : i < p.frames.size := h.bound i (by simp)
    rw [size_release]
    simp only [FramePool.release, hi, if_true, List.length_cons] at hcount ⊢
    omega

@[simp] theorem size_set (p : FramePool) (i : Nat) (f : Frame) :
    (p.set i f).frames.size = p.frames.size := by
  simp [set]

theorem Complete.set (h : p.Complete used) (hi : i ∈ used) (f : Frame) :
    (p.set i f).Complete used where
  toSound := h.toSound.set hi f
  count := by rw [size_set]; exact h.count

end FramePool

/-! ## Scopes -/

namespace Scopes

/-- All frames are accounted for, there is a local frame for each model and each active call, and
no more calls are active than the ceiling says. -/
structure InOrder (ceiling : Nat) (s : Scopes) : Prop where
  pool : s.pool.Complete s.frames
  locals : s.locals.size = s.globals.size + s.depth
  depth : s.depth ≤ ceiling

variable {ceiling : Nat} {s : Scopes}

theorem inOrder_new (ceiling : Nat) (root : Value) : (new root).InOrder ceiling := by
  refine ⟨⟨⟨?_, ?_, ?_⟩, rfl⟩, rfl, Nat.zero_le _⟩ <;>
    simp [new, frames, Stack.toList, FramePool.empty, FramePool.acquire]

/-! ### Frames in use -/

theorem frames_eq (s : Scopes) :
    s.frames = s.locals.toList ++ s.loops.map LoopFrame.frame := rfl

theorem length_frames (s : Scopes) : s.frames.length = s.locals.size + s.loops.length := by
  simp only [frames_eq, Stack.toList, Stack.size, List.length_append, List.length_map,
    List.length_cons, List.length_nil]

theorem top_mem_frames (s : Scopes) : s.locals.top ∈ s.frames := by
  obtain ⟨pool, globals, ⟨ground, above⟩, loops, depth, iterations⟩ := s
  cases above <;> simp [frames_eq, Stack.toList, Stack.top]

theorem loop_mem_frames {l : LoopFrame} (h : l ∈ s.loops) : l.frame ∈ s.frames :=
  List.mem_append_right _ (List.mem_map_of_mem h)

/-! ### What was opened and closed -/

/-- What is done to scopes keeps them in order, opens and closes frames as the history says, and
adds frames to the pool only where more of them are in use than the pool had. -/
structure Books (ceiling : Nat) (s : Scopes) (log : FrameHistory) (t : Scopes) : Prop where
  order : s.InOrder ceiling → t.InOrder ceiling
  count : t.frames.length = log.final s.frames.length
  size : s.InOrder ceiling → t.pool.frames.size = max s.pool.frames.size (log.peak s.frames.length)

/-- No more frames are in use than the pool has. -/
theorem InOrder.length_le (h : s.InOrder ceiling) : s.frames.length ≤ s.pool.frames.size := by
  have := h.pool.count
  omega

namespace Books

variable {t u : Scopes} {log rest : FrameHistory} {i : Nat}

theorem append (h : Books ceiling s log t) (k : Books ceiling t rest u) :
    Books ceiling s (log ++ rest) u where
  order hs := k.order (h.order hs)
  count := by rw [k.count, h.count, FrameHistory.final_append]
  size hs := by
    rw [k.size (h.order hs), h.size hs, h.count, FrameHistory.peak_append]
    omega

/-- The frames stay in use, and there are as many of them in the pool. -/
theorem nil (hframes : t.frames = s.frames) (hsize : t.pool.frames.size = s.pool.frames.size)
    (hpool : s.pool.Complete s.frames → t.pool.Complete s.frames)
    (hlocals : t.locals.size = s.locals.size) (hglobals : t.globals.size = s.globals.size)
    (hdepth : t.depth = s.depth) : Books ceiling s [] t where
  order hs := ⟨hframes ▸ hpool hs.pool, by rw [hlocals, hglobals, hdepth, hs.locals],
    hdepth ▸ hs.depth⟩
  count := by rw [hframes, FrameHistory.final_nil]
  size hs := by
    have := hs.length_le
    simp only [FrameHistory.peak_nil]
    omega

theorem refl (ceiling : Nat) (s : Scopes) : Books ceiling s [] s := .nil rfl rfl id rfl rfl rfl

/-- A frame is handed out. -/
theorem opened (hpool : t.pool = s.pool.acquire.2)
    (hframes : (s.pool.acquire.1 :: s.frames).Perm t.frames)
    (hlocals : t.locals.size + s.globals.size + s.depth =
      s.locals.size + t.globals.size + t.depth)
    (hdepth : t.depth ≤ max s.depth ceiling) : Books ceiling s [.opened] t where
  order hs := by
    have hl := hs.locals
    have hd := hs.depth
    exact ⟨hpool ▸ hs.pool.acquire.perm hframes, by omega, by omega⟩
  count := hframes.length_eq.symm
  -- a free frame is taken first, so the pool grows only where the peak does
  size hs := by
    have := hs.length_le
    rw [hpool, hs.pool.size_acquire]
    simp only [FrameHistory.peak_cons, FrameHistory.peak_nil, FrameEvent.after]
    omega

/-- A frame is taken back. -/
theorem closed (hpool : t.pool = s.pool.release i) (hframes : s.frames.Perm (i :: t.frames))
    (hlocals : t.locals.size + s.globals.size + s.depth =
      s.locals.size + t.globals.size + t.depth)
    (hdepth : t.depth ≤ s.depth) : Books ceiling s [.closed] t where
  order hs := by
    have hl := hs.locals
    have hd := hs.depth
    exact ⟨hpool ▸ (hs.pool.perm hframes).release, by omega, by omega⟩
  count := by
    rw [hframes.length_eq]
    rfl
  size hs := by
    have := hs.length_le
    rw [hpool, FramePool.size_release]
    simp only [FrameHistory.peak_cons, FrameHistory.peak_nil, FrameEvent.after]
    omega

end Books

/-! ### Operations -/

/-- Names are bound in a frame that is in use. -/
theorem books_fill (hi : i ∈ s.frames) (f : Frame) :
    Books ceiling s [] { s with pool := s.pool.set i f } :=
  .nil rfl (FramePool.size_set _ _ _) (fun hpool => hpool.set hi f) rfl rfl rfl

theorem books_setLocalFrame (s : Scopes) (f : Frame) : Books ceiling s [] (s.setLocalFrame f) :=
  books_fill s.top_mem_frames f

theorem books_setLoopFrame (s : Scopes) (f : Frame) : Books ceiling s [] (s.setLoopFrame f) := by
  unfold setLoopFrame
  split
  · exact .refl ceiling s
  · next l rest hl => exact books_fill (loop_mem_frames (by simp [hl])) f

theorem books_inheritLoop (s : Scopes) : Books ceiling s [] s.inheritLoop := by
  unfold inheritLoop
  split
  · next l l' rest hl => exact books_fill (loop_mem_frames (by simp [hl])) _
  · exact .refl ceiling s

theorem books_flagGlobal (s : Scopes) (name : String) (readOnly : Bool) :
    Books ceiling s [] (s.flagGlobal name readOnly) :=
  .nil rfl rfl id rfl (Stack.size_modifyTop _ _) rfl

theorem books_pushGlobal (s : Scopes) (model : Value) :
    Books ceiling s [.opened] (s.pushGlobal model) :=
  .opened rfl .rfl (by simp only [pushGlobal, Stack.size_push]; omega) (Nat.le_max_left _ _)

theorem books_popGlobal {v : Value} {t : Scopes} (h : s.popGlobal? = some (v, t)) :
    Books ceiling s [.closed] t := by
  unfold popGlobal? at h
  split at h
  · next g globals i locals hg hl =>
    rw [Stack.pop?_eq_some_iff] at hg hl
    cases h
    refine .closed rfl ?_ ?_ (Nat.le_refl _)
    · simp [frames_eq, hl]
    · simp only [hg, hl, Stack.size_push]
      omega
  · cases h

/-- A call may begin while fewer are active than the ceiling says. -/
theorem books_enter (h : s.depth < ceiling) :
    Books ceiling s [.opened] { s.pushLocal with depth := s.depth + 1 } :=
  .opened rfl .rfl (by simp only [pushLocal, Stack.size_push]; omega)
    (by dsimp only; omega)

theorem books_exit {t : Scopes} (hd : s.depth ≠ 0) (h : s.popLocal? = some t) :
    Books ceiling s [.closed] { t with depth := s.depth - 1 } := by
  unfold popLocal? at h
  split at h
  · next i locals hl =>
    rw [Stack.pop?_eq_some_iff] at hl
    cases h
    refine .closed rfl ?_ ?_ (Nat.sub_le _ _)
    · simp [frames_eq, hl]
    · simp only [hl, Stack.size_push]
      omega
  · cases h

theorem books_pushLoop (s : Scopes) (p : Position) : Books ceiling s [.opened] (s.pushLoop p) :=
  .opened rfl List.perm_middle.symm rfl (Nat.le_max_left _ _)

theorem books_popLoop {t : Scopes} (h : s.popLoop? = some t) : Books ceiling s [.closed] t := by
  unfold popLoop? at h
  split at h
  · cases h
  · next l loops hl =>
    cases h
    refine .closed rfl ?_ rfl (Nat.le_refl _)
    simp only [frames_eq, hl, List.map_cons]
    exact List.perm_middle

/-! ### What order gives -/

variable (h : s.InOrder ceiling)

include h

/-- Two places on the stacks have two frames, and each frame is one of the pool. -/
theorem InOrder.apart : s.frames.Nodup ∧ ∀ i ∈ s.frames, i < s.pool.frames.size :=
  ⟨(List.nodup_append.1 h.pool.nodup).1, fun i hi => h.pool.bound i (by simp [hi])⟩

/-- What is bound in one frame in use shows there and in no other frame. -/
theorem InOrder.fill {i : Nat} (hi : i ∈ s.frames) (f : Frame) :
    (s.pool.set i f).get i = f ∧ ∀ j, j ≠ i → (s.pool.set i f).get j = s.pool.get j :=
  ⟨FramePool.get_set_self (h.apart.2 i hi) f,
    fun _ hj => FramePool.get_set_of_ne _ (Ne.symm hj) f⟩

/-- A frame that is opened binds nothing. -/
theorem InOrder.opens_empty :
    s.pushLocal.localFrame = .empty ∧ (∀ model, (s.pushGlobal model).localFrame = .empty) ∧
      ∀ p, (s.pushLoop p).loopFrame? = some .empty :=
  have hnew := h.pool.toSound.get_acquire_self
  ⟨hnew, fun _ => hnew, fun _ => congrArg some hnew⟩

end Scopes

end TemplateEngine
