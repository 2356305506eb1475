import TemplateEngine.Proofs.Isolation.Scopes

/-!
# What is seen of scopes

Frames are handed out by number, and which number a frame has does not matter. A view of scopes
forgets the numbers (`Scopes.view`): it lists what the local frames and the frames of loops bind,
and counts models and calls. As long as no frame in use was handed out twice (`Scopes.Tidy`), each
operation on scopes does to their view what its name says.
-/

namespace TemplateEngine

/-! ## Copying bindings -/

namespace Dictionary

variable {α : Type}

theorem lookupEntry_eq_none {key : String} {es : List (String × α)}
    (h : key ∉ es.map Prod.fst) : lookupEntry key es = none := by
  induction es with
  | nil => rfl
  | cons x rest ih =>
    obtain ⟨k, v⟩ := x
    simp only [List.map_cons, List.mem_cons, not_or] at h
    simp only [lookupEntry, if_neg (Ne.symm h.1), ih h.2]

theorem get?_foldl_insert (d : Dictionary α) {es : List (String × α)}
    (h : (es.map Prod.fst).Pairwise (· < ·)) (name : String) :
    (es.foldl (fun d (key, value) => d.insert key value) d).get? name =
      (lookupEntry name es).or (d.get? name) := by
  induction es generalizing d with
  | nil => rfl
  | cons x rest ih =>
    obtain ⟨k, v⟩ := x
    rw [List.map_cons, List.pairwise_cons] at h
    rw [List.foldl_cons, ih _ h.2, get?_insert, lookupEntry]
    by_cases hk : k = name
    · have hnot : name ∉ rest.map Prod.fst := fun hm => String.lt_irrefl name (hk ▸ h.1 name hm)
      simp [hk, lookupEntry_eq_none hnot]
    · simp [hk]

theorem get?_update (d e : Dictionary α) (name : String) :
    (d.update e).get? name = (e.get? name).or (d.get? name) := get?_foldl_insert d e.sorted name

end Dictionary

namespace Frame

/-- A frame without bindings takes over those of another. -/
theorem slots_update_empty (f : Frame) (name : String) :
    (empty.update f).slots.get? name = f.slots.get? name := by
  simp [update, empty, Dictionary.get?_update]

end Frame

/-! ## Views -/

/-- What the local frames and the frames of loops bind, from the top on, where the loops stand, and
how many models and calls there are. -/
@[ext] structure ScopeView where
  locals : List Frame
  loops : List (Frame × Position)
  models : Nat
  calls : Nat

namespace ScopeView

/-- The view with a call begun. -/
def called (v : ScopeView) : ScopeView :=
  { v with locals := .empty :: v.locals, calls := v.calls + 1 }

/-- The view with a model opened. -/
def modelled (v : ScopeView) : ScopeView :=
  { v with locals := .empty :: v.locals, models := v.models + 1 }

/-- The view with a loop begun. -/
def looping (v : ScopeView) (p : Position) : ScopeView := { v with loops := (.empty, p) :: v.loops }

/-- The view with other local bindings. -/
def withLocal (v : ScopeView) (f : Frame) : ScopeView := { v with locals := f :: v.locals.tail }

/-- The view with other bindings of the innermost loop. -/
def withLoop (v : ScopeView) (k : Frame) : ScopeView :=
  { v with loops := v.loops.modifyHead fun x => (k, x.2) }

/-- What the innermost loop binds. -/
def loop? (v : ScopeView) : Option Frame := v.loops.head?.map Prod.fst

/-- The place of the innermost loop. -/
def position (v : ScopeView) : Position := (v.loops.head?.map Prod.snd).getD .unknown

/-- What a loop takes over from the one around it. -/
def inherited (v : ScopeView) : Frame := (v.loop?.map Frame.empty.update).getD .empty

variable (v : ScopeView) (f g k l : Frame) (p : Position)

@[simp] theorem withLocal_withLocal : (v.withLocal f).withLocal g = v.withLocal g := rfl

@[simp] theorem withLoop_withLocal : (v.withLocal f).withLoop k = (v.withLoop k).withLocal f := rfl

@[simp] theorem withLoop_withLoop : (v.withLoop k).withLoop l = v.withLoop l := by
  obtain ⟨locals, loops, models, calls⟩ := v
  cases loops <;> rfl

@[simp] theorem loop?_withLocal : (v.withLocal f).loop? = v.loop? := rfl

@[simp] theorem loop?_withLoop : (v.withLoop k).loop? = v.loop?.map fun _ => k := by
  obtain ⟨locals, loops, models, calls⟩ := v
  cases loops <;> rfl

@[simp] theorem loop?_looping : (v.looping p).loop? = some .empty := rfl

@[simp] theorem position_withLocal : (v.withLocal f).position = v.position := rfl

@[simp] theorem position_withLoop : (v.withLoop k).position = v.position := by
  obtain ⟨locals, loops, models, calls⟩ := v
  cases loops <;> rfl

@[simp] theorem position_looping : (v.looping p).position = p := rfl

end ScopeView

namespace Scopes

/-- What is seen of the scopes. -/
def view (s : Scopes) : ScopeView where
  locals := s.locals.toList.map s.pool.get
  loops := s.loops.map fun l => (s.pool.get l.frame, l.position)
  models := s.globals.size
  calls := s.depth

/-- The frames in use are handed out once each, and the free ones bind nothing. -/
def Tidy (s : Scopes) : Prop := s.pool.Sound s.frames

theorem tidy_new (root : Value) : (new root).Tidy := by
  constructor <;> simp [new, frames, Stack.toList, FramePool.empty, FramePool.acquire]

/-! ### Reading -/

theorem toList_eq_top_cons {α : Type} (s : Stack α) : s.toList = s.top :: s.toList.tail := by
  obtain ⟨ground, above⟩ := s
  cases above <;> rfl

theorem view_locals (s : Scopes) : s.view.locals = s.localFrame :: s.view.locals.tail := by
  simp only [view, localFrame]
  rw [toList_eq_top_cons]
  rfl

theorem locals_ne_nil (s : Scopes) : s.view.locals ≠ [] := by
  rw [view_locals]
  exact List.cons_ne_nil _ _

theorem loopFrame?_eq (s : Scopes) : s.loopFrame? = s.view.loop? := by
  cases h : s.loops <;> simp [loopFrame?, view, ScopeView.loop?, h]

theorem loopPosition_eq (s : Scopes) : s.loopPosition = s.view.position := by
  cases h : s.loops <;> simp [loopPosition, view, ScopeView.position, h]

theorem top_mem (s : Scopes) : s.locals.top ∈ s.frames := by
  rw [frames, toList_eq_top_cons]
  exact List.mem_cons_self

/-- Binding names in a loop is no matter of models, calls and rounds. -/
theorem setLoopFrame_eq (s : Scopes) (f : Frame) :
    let t := s.setLoopFrame f
    t = { s with pool := t.pool, locals := t.locals, loops := t.loops } := by
  unfold Scopes.setLoopFrame
  split <;> rfl

/-- Beginning a loop is no matter of models, calls and rounds. -/
theorem inherit_eq (s : Scopes) (p : Position) :
    let t := (s.pushLoop p).inheritLoop
    t = { s with pool := t.pool, locals := t.locals, loops := t.loops } := by
  unfold Scopes.inheritLoop
  split <;> rfl

/-! ### Frames that change -/

/-- Only the frames in use are seen. -/
theorem view_congr {s : Scopes} {pool : FramePool} {locals : Stack Nat} {loops : List LoopFrame}
    (hl : ∀ i ∈ locals.toList, pool.get i = s.pool.get i)
    (hk : ∀ l ∈ loops, pool.get l.frame = s.pool.get l.frame) :
    view { s with pool := pool, locals := locals, loops := loops } =
      { s.view with
        locals := locals.toList.map s.pool.get
        loops := loops.map fun l => (s.pool.get l.frame, l.position) } := by
  have hloops : loops.map (fun l => (pool.get l.frame, l.position)) =
      loops.map fun l => (s.pool.get l.frame, l.position) :=
    List.map_congr_left fun l hl => by rw [hk l hl]
  simp only [view, List.map_congr_left hl, hloops]

variable {s : Scopes} (h : s.Tidy)

include h

/-- The top local frame is none of the other frames in use. -/
theorem Tidy.top_ne :
    (∀ i ∈ s.locals.toList.tail, s.locals.top ≠ i) ∧ ∀ l ∈ s.loops, s.locals.top ≠ l.frame := by
  have hnodup := (List.nodup_append.1 h.nodup).1
  rw [frames, toList_eq_top_cons, List.cons_append, List.nodup_cons] at hnodup
  refine ⟨fun i hi he => hnodup.1 ?_, fun l hl he => hnodup.1 ?_⟩
  · simp [he, hi]
  · rw [he]
    exact List.mem_append_right _ (List.mem_map_of_mem hl)

/-- The frame of the innermost loop is none of the other frames in use. -/
theorem Tidy.loop_ne {l : LoopFrame} {rest : List LoopFrame} (hl : s.loops = l :: rest) :
    (∀ i ∈ s.locals.toList, l.frame ≠ i) ∧ ∀ k ∈ rest, l.frame ≠ k.frame := by
  have hnodup := (List.nodup_append.1 h.nodup).1
  rw [frames, hl, List.map_cons] at hnodup
  obtain ⟨_, hloops, hne⟩ := List.nodup_append.1 hnodup
  refine ⟨fun i hi he => hne i hi l.frame List.mem_cons_self he.symm, fun k hk he => ?_⟩
  exact (List.nodup_cons.1 hloops).1 (he ▸ List.mem_map_of_mem hk)

/-- A frame that is about to be handed out binds nothing. -/
theorem Tidy.get_new : s.pool.get s.pool.acquire.1 = .empty := by
  rw [← s.pool.get_acquire]
  exact h.get_acquire_self

/-! ### Local frames -/

theorem Tidy.pushLocal : s.pushLocal.Tidy := h.acquire

theorem Tidy.view_pushLocal :
    s.pushLocal.view = { s.view with locals := .empty :: s.view.locals } := by
  have hpush : s.pushLocal =
      { s with pool := s.pool.acquire.2, locals := s.locals.push s.pool.acquire.1 } := rfl
  rw [hpush, view_congr (fun i _ => s.pool.get_acquire i) fun l _ => s.pool.get_acquire l.frame]
  simp only [Stack.toList_push, List.map_cons, h.get_new, view]

theorem Tidy.view_enter : view { s.pushLocal with depth := s.depth + 1 } = s.view.called :=
  congrArg (fun v : ScopeView => { v with calls := s.depth + 1 }) h.view_pushLocal

theorem Tidy.pushGlobal (model : Value) : (s.pushGlobal model).Tidy := h.pushLocal

theorem Tidy.view_pushGlobal (model : Value) : (s.pushGlobal model).view = s.view.modelled :=
  congrArg (fun v : ScopeView => { v with models := s.globals.size + 1 }) h.view_pushLocal

theorem Tidy.setLocalFrame (f : Frame) : (s.setLocalFrame f).Tidy := h.set s.top_mem f

theorem Tidy.view_setLocalFrame (f : Frame) : (s.setLocalFrame f).view = s.view.withLocal f := by
  obtain ⟨hl, hk⟩ := h.top_ne
  have htop : (s.pool.set s.locals.top f).get s.locals.top = f :=
    FramePool.get_set_self (h.bound _ (List.mem_append_left _ s.top_mem)) f
  have hrest : s.locals.toList.tail.map (s.pool.set s.locals.top f).get =
      s.locals.toList.tail.map s.pool.get :=
    List.map_congr_left fun i hi => FramePool.get_set_of_ne _ (hl i hi) f
  have hloops : s.loops.map (fun l => ((s.pool.set s.locals.top f).get l.frame, l.position)) =
      s.loops.map fun l => (s.pool.get l.frame, l.position) :=
    List.map_congr_left fun l hl => by rw [FramePool.get_set_of_ne _ (hk l hl) f]
  simp only [view, Scopes.setLocalFrame, ScopeView.withLocal, hloops]
  rw [toList_eq_top_cons, List.map_cons, List.map_cons, List.tail_cons, htop, hrest]

/-- The top local frame is taken back. -/
theorem Tidy.release {i : Nat} {rest : Stack Nat} (hs : s.locals = rest.push i) :
    Tidy { s with pool := s.pool.release i, locals := rest } ∧
    view { s with pool := s.pool.release i, locals := rest } =
      { s.view with locals := s.view.locals.tail } := by
  obtain ⟨pool, globals, _, loops, depth, iterations⟩ := s
  cases hs
  obtain ⟨hl, hk⟩ := h.top_ne
  refine ⟨FramePool.Sound.release h, ?_⟩
  exact view_congr (s := ⟨pool, globals, rest.push i, loops, depth, iterations⟩)
    (fun j hj => FramePool.get_release_of_ne _ (hl j hj))
    fun l hl => FramePool.get_release_of_ne _ (hk l hl)

omit h in
theorem exists_push (hne : s.view.locals.tail ≠ []) : ∃ i rest, s.locals = Stack.push rest i := by
  obtain ⟨pool, globals, ⟨ground, above⟩, loops, depth, iterations⟩ := s
  cases above with
  | nil => exact absurd rfl hne
  | cons i rest => exact ⟨i, ⟨ground, rest⟩, rfl⟩

/-- The top local frame is closed, if there is another one. -/
theorem Tidy.popLocal (hne : s.view.locals.tail ≠ []) : ∃ t, s.popLocal? = some t ∧ t.Tidy ∧
    t = { s with pool := t.pool, locals := t.locals } ∧
    t.view = { s.view with locals := s.view.locals.tail } := by
  obtain ⟨i, rest, hs⟩ := exists_push hne
  obtain ⟨htidy, hview⟩ := h.release hs
  exact ⟨_, by rw [popLocal?, hs]; rfl, htidy, rfl, hview⟩

/-- The innermost model is closed, if there is another one and another local frame. -/
theorem Tidy.popGlobal (hmodels : 1 < s.view.models) (hne : s.view.locals.tail ≠ []) :
    ∃ t, s.popGlobal? = some (s.globals.top.model, t) ∧ t.Tidy ∧
    t = { s with pool := t.pool, globals := ⟨s.globals.ground, s.globals.above.tail⟩,
                 locals := t.locals } ∧
    t.view = { s.view with locals := s.view.locals.tail, models := s.view.models - 1 } := by
  obtain ⟨i, rest, hs⟩ := exists_push hne
  obtain ⟨htidy, hview⟩ := h.release hs
  obtain ⟨pool, ⟨root, gs⟩, locals, loops, depth, iterations⟩ := s
  cases gs with
  | nil => exact absurd hmodels (Nat.lt_irrefl 1)
  | cons g gs =>
    refine ⟨⟨pool.release i, ⟨root, gs⟩, rest, loops, depth, iterations⟩, ?_, htidy, rfl, ?_⟩
    · cases hs
      rfl
    · exact congrArg (fun v : ScopeView => { v with models := gs.length + 1 }) hview

/-! ### Loops -/

theorem Tidy.pushLoop (p : Position) : (s.pushLoop p).Tidy := h.acquire.perm List.perm_middle.symm

theorem Tidy.view_pushLoop (p : Position) : (s.pushLoop p).view = s.view.looping p := by
  have hpush : s.pushLoop p =
      { s with pool := s.pool.acquire.2, loops := ⟨s.pool.acquire.1, p⟩ :: s.loops } := rfl
  rw [hpush, view_congr (fun i _ => s.pool.get_acquire i) fun l _ => s.pool.get_acquire l.frame]
  simp only [List.map_cons, h.get_new, view, ScopeView.looping]

theorem Tidy.setLoopFrame (f : Frame) : (s.setLoopFrame f).Tidy := by
  unfold Scopes.setLoopFrame
  split
  · exact h
  · next l rest hl => exact h.set (by simp [frames, hl]) f

theorem Tidy.view_setLoopFrame (f : Frame) : (s.setLoopFrame f).view = s.view.withLoop f := by
  rcases hl : s.loops with _ | ⟨l, rest⟩
  · simp [Scopes.setLoopFrame, ScopeView.withLoop, view, hl]
  · obtain ⟨hlocals, hrest⟩ := h.loop_ne hl
    have hself : (s.pool.set l.frame f).get l.frame = f :=
      FramePool.get_set_self (h.bound _ (by simp [frames, hl])) f
    have hother : rest.map (fun k => ((s.pool.set l.frame f).get k.frame, k.position)) =
        rest.map fun k => (s.pool.get k.frame, k.position) :=
      List.map_congr_left fun k hk => by rw [FramePool.get_set_of_ne _ (hrest k hk) f]
    have hsame : s.locals.toList.map (s.pool.set l.frame f).get =
        s.locals.toList.map s.pool.get :=
      List.map_congr_left fun i hi => FramePool.get_set_of_ne _ (hlocals i hi) f
    simp [Scopes.setLoopFrame, ScopeView.withLoop, view, hl, hself, hother, hsame]

/-- A loop that has just begun takes over what the loop around it binds. -/
theorem Tidy.inherit (p : Position) : (s.pushLoop p).inheritLoop.Tidy ∧
    (s.pushLoop p).inheritLoop.view = (s.view.looping p).withLoop s.view.inherited := by
  have hpush := h.pushLoop p
  have hview := h.view_pushLoop p
  have hempty : (s.pushLoop p).pool.get s.pool.acquire.1 = .empty := h.get_acquire_self
  rcases hl : s.loops with _ | ⟨l, rest⟩
  · have heq : (s.pushLoop p).inheritLoop = s.pushLoop p := by
      simp [Scopes.pushLoop, Scopes.inheritLoop, hl]
    rw [heq]
    refine ⟨hpush, hview.trans ?_⟩
    simp [ScopeView.looping, ScopeView.withLoop, ScopeView.inherited, ScopeView.loop?, view, hl]
  · have heq : (s.pushLoop p).inheritLoop =
        (s.pushLoop p).setLoopFrame (Frame.empty.update (s.pool.get l.frame)) := by
      rw [← s.pool.get_acquire l.frame, ← hempty]
      simp [Scopes.pushLoop, Scopes.inheritLoop, Scopes.setLoopFrame, hl]
    rw [heq]
    refine ⟨hpush.setLoopFrame _, (hpush.view_setLoopFrame _).trans ?_⟩
    rw [hview]
    simp [ScopeView.inherited, ScopeView.loop?, view, hl]

theorem Tidy.popLoop (hne : s.view.loops ≠ []) : ∃ t, s.popLoop? = some t ∧ t.Tidy ∧
    t = { s with pool := t.pool, loops := t.loops } ∧
    t.view = { s.view with loops := s.view.loops.tail } := by
  rcases hl : s.loops with _ | ⟨l, rest⟩
  · simp [view, hl] at hne
  · obtain ⟨hlocals, hrest⟩ := h.loop_ne hl
    have hperm : s.frames.Perm (l.frame :: (s.locals.toList ++ rest.map LoopFrame.frame)) := by
      simp only [frames, hl, List.map_cons]
      exact List.perm_middle
    refine ⟨{ s with pool := s.pool.release l.frame, loops := rest }, by simp [popLoop?, hl],
      (FramePool.Sound.perm h hperm).release, rfl, ?_⟩
    refine (view_congr (s := s) (fun i hi => FramePool.get_release_of_ne _ (hlocals i hi))
      fun k hk => FramePool.get_release_of_ne _ (hrest k hk)).trans ?_
    simp [view, hl]

end Scopes

end TemplateEngine
