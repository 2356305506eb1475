import TemplateEngine.Proofs.Isolation.Cells
import TemplateEngine.State.Scopes

/-!
# Scopes alike

Two runs number their frames differently, since a pool hands out the frame that came back last.
What matters is that no frame is handed out twice and that a frame which is free binds nothing
(`FramePool.Sound`). Then each operation on stacks that are alike leaves them alike. The grounds of
the stacks are not compared: the lowest model is the root namespace of either run, and nothing is
bound in the lowest local frame while a template is rendered.
-/

namespace TemplateEngine

/-! ## Pools -/

/-- The frames in use and the free ones are all different, and the free ones bind nothing. -/
structure FramePool.Sound (p : FramePool) (used : List Nat) : Prop where
  nodup : (used ++ p.free).Nodup
  bound : ∀ i ∈ used ++ p.free, i < p.frames.size
  empty : ∀ i ∈ p.free, p.get i = .empty

namespace FramePool

variable {p q : FramePool} {used other : List Nat} {i j : Nat}

theorem Sound.perm (h : p.Sound used) (hp : used.Perm other) : p.Sound other where
  nodup := (hp.append_right p.free).nodup_iff.1 h.nodup
  bound i hi := h.bound i ((hp.append_right p.free).mem_iff.2 hi)
  empty := h.empty

theorem Sound.acquire (h : p.Sound used) : p.acquire.2.Sound (p.acquire.1 :: used) := by
  obtain ⟨frames, free⟩ := p
  obtain ⟨hnodup, hbound, hempty⟩ := h
  cases free with
  | nil =>
    simp only [List.append_nil] at hnodup hbound
    refine ⟨?_, fun i hi => ?_, fun i hi => absurd hi (by simp [FramePool.acquire])⟩
    · simp only [FramePool.acquire, List.append_nil]
      exact List.nodup_cons.2 ⟨fun hm => absurd (hbound _ hm) (Nat.lt_irrefl _), hnodup⟩
    · simp only [FramePool.acquire, List.append_nil, List.mem_cons, Array.size_push] at hi ⊢
      rcases hi with rfl | hi
      · omega
      · have := hbound i hi
        omega
  | cons a rest =>
    have hperm : (used ++ a :: rest).Perm (a :: used ++ rest) := List.perm_middle
    exact ⟨hperm.nodup_iff.1 hnodup, fun i hi => hbound i (hperm.mem_iff.2 hi),
      fun i hi => hempty i (List.mem_cons_of_mem _ hi)⟩

/-- A frame that is handed out binds nothing. -/
theorem Sound.get_acquire_self (h : p.Sound used) : p.acquire.2.get p.acquire.1 = .empty := by
  rw [get_acquire]
  obtain ⟨frames, free⟩ := p
  cases free with
  | nil => simp [FramePool.acquire, FramePool.get]
  | cons a rest => exact h.empty a (by simp)

theorem Sound.release (h : p.Sound (i :: used)) : (p.release i).Sound used := by
  have hi : i < p.frames.size := h.bound i (by simp)
  have hperm : (i :: used ++ p.free).Perm (used ++ i :: p.free) := List.perm_middle.symm
  have hfree : (p.release i).free = i :: p.free := by simp [FramePool.release, hi]
  have hsize : (p.release i).frames.size = p.frames.size := by simp [FramePool.release, hi]
  refine ⟨?_, fun j hj => ?_, fun j hj => ?_⟩
  · rw [hfree]
    exact hperm.nodup_iff.1 h.nodup
  · rw [hfree] at hj
    rw [hsize]
    exact h.bound j (hperm.mem_iff.2 hj)
  · by_cases hij : i = j
    · rw [← hij, get_release_self]
    · rw [hfree] at hj
      rw [get_release_of_ne p hij]
      exact h.empty j ((List.mem_cons.1 hj).resolve_left fun he => hij he.symm)

theorem Sound.set (h : p.Sound used) (hi : i ∈ used) (f : Frame) : (p.set i f).Sound used where
  nodup := h.nodup
  bound j hj := by
    simp only [FramePool.set, Array.size_setIfInBounds]
    exact h.bound j hj
  empty j hj := by
    have hij : i ≠ j := fun he => (List.nodup_append.1 h.nodup).2.2 i hi j hj he
    rw [get_set_of_ne p hij]
    exact h.empty j hj

/-- The frames under two numbers are alike. -/
def Alike (w : Pairing) (p q : FramePool) (i j : Nat) : Prop := (p.get i).Alike w (q.get j)

/-- Frames stay alike in pools that hold the same of them. -/
theorem forall₂_alike {w : Pairing} {p q p' q' : FramePool} {is js : List Nat}
    (h : List.Forall₂ (p.Alike w q) is js) (hp : ∀ i ∈ is, p'.get i = p.get i)
    (hq : ∀ j ∈ js, q'.get j = q.get j) : List.Forall₂ (p'.Alike w q') is js := by
  induction h with
  | nil => exact .nil
  | @cons i j is js hij _ ih =>
    refine .cons ?_ (ih (fun k hk => hp k (by simp [hk])) fun k hk => hq k (by simp [hk]))
    unfold Alike
    rw [hp i (by simp), hq j (by simp)]
    exact hij

end FramePool

/-! ## Stacks -/

/-- Models that are alike, with the same names locked. -/
structure GlobalFrame.Alike (w : Pairing) (g h : GlobalFrame) : Prop where
  model : g.model.Alike w h.model
  readOnly : g.readOnly = h.readOnly

namespace Scopes

/-- The frames in use. -/
def frames (s : Scopes) : List Nat := s.locals.toList ++ s.loops.map LoopFrame.frame

/-- The frames in use are handed out once each, and the lowest model is the root namespace. -/
structure Sound (s : Scopes) : Prop where
  pool : s.pool.Sound s.frames
  root : s.globals.ground.model = .object 0

/-- The stacks are alike above their grounds, and the first scopes have counted so many loop rounds
more than the second. -/
structure Alike (w : Pairing) (gap : Nat) (s t : Scopes) : Prop where
  left : s.Sound
  right : t.Sound
  globals : List.Forall₂ (GlobalFrame.Alike w) s.globals.above t.globals.above
  locals : List.Forall₂ (s.pool.Alike w t.pool) s.locals.above t.locals.above
  loops : List.Forall₂ (s.pool.Alike w t.pool) (s.loops.map LoopFrame.frame)
    (t.loops.map LoopFrame.frame)
  positions : s.loops.map LoopFrame.position = t.loops.map LoopFrame.position
  depth : s.depth = t.depth
  iterations : s.iterations = t.iterations + gap

section

variable {s : Scopes} {i : Nat} {l : LoopFrame} {is : List Nat} {ls : List LoopFrame}

/-- The top local frame is none of the other frames in use. -/
theorem Sound.local_ne (h : s.Sound) (hi : s.locals.above = i :: is) :
    i ∈ s.frames ∧ (∀ k ∈ is, i ≠ k) ∧ ∀ k ∈ s.loops.map LoopFrame.frame, i ≠ k := by
  have hnodup := (List.nodup_append.1 h.pool.nodup).1
  simp only [frames, Stack.toList, hi, List.cons_append, List.nodup_cons] at hnodup ⊢
  refine ⟨List.mem_cons_self, fun k hk he => hnodup.1 ?_, fun k hk he => hnodup.1 ?_⟩
  · simp [he, hk]
  · simp only [he, List.mem_append]
    exact .inr hk

/-- The frame of the innermost loop is none of the other frames in use. -/
theorem Sound.loop_ne (h : s.Sound) (hl : s.loops = l :: ls) :
    l.frame ∈ s.frames ∧ (∀ k ∈ s.locals.above, l.frame ≠ k) ∧
      ∀ k ∈ ls.map LoopFrame.frame, l.frame ≠ k := by
  have hnodup := (List.nodup_append.1 h.pool.nodup).1
  simp only [frames, hl, List.map_cons] at hnodup ⊢
  obtain ⟨_, hloops, hne⟩ := List.nodup_append.1 hnodup
  refine ⟨by simp, fun k hk he => ?_, fun k hk he => ?_⟩
  · exact hne k (by simp [Stack.toList, hk]) _ List.mem_cons_self he.symm
  · exact (List.nodup_cons.1 hloops).1 (he ▸ hk)

end

section

variable {w v : Pairing} {gap : Nat} {s t : Scopes} (h : s.Alike w gap t)

include h

theorem Alike.mono (hle : w ≤ v) : s.Alike v gap t :=
  { h with
    globals := h.globals.imp fun _ _ hg => ⟨hg.model.mono hle, hg.readOnly⟩
    locals := h.locals.imp fun _ _ hf => Frame.Alike.mono hle hf
    loops := h.loops.imp fun _ _ hf => Frame.Alike.mono hle hf }

theorem Alike.withDepth (depth : Nat) :
    Alike w gap { s with depth := depth } { t with depth := depth } :=
  { h with
    left := ⟨h.left.pool, h.left.root⟩
    right := ⟨h.right.pool, h.right.root⟩
    depth := rfl }

/-- Counting a loop round on both sides. -/
theorem Alike.count :
    Alike w gap { s with iterations := s.iterations + 1 }
      { t with iterations := t.iterations + 1 } :=
  { h with
    left := ⟨h.left.pool, h.left.root⟩
    right := ⟨h.right.pool, h.right.root⟩
    iterations := by
      have := h.iterations
      dsimp only
      omega }

/-- Handing out a frame on both sides. -/
theorem Alike.acquire :
    List.Forall₂ (s.pool.acquire.2.Alike w t.pool.acquire.2)
      (s.pool.acquire.1 :: s.locals.above) (t.pool.acquire.1 :: t.locals.above) ∧
    List.Forall₂ (s.pool.acquire.2.Alike w t.pool.acquire.2)
      (s.pool.acquire.1 :: s.loops.map LoopFrame.frame)
      (t.pool.acquire.1 :: t.loops.map LoopFrame.frame) := by
  have hnew : s.pool.acquire.2.Alike w t.pool.acquire.2 s.pool.acquire.1 t.pool.acquire.1 := by
    unfold FramePool.Alike
    rw [h.left.pool.get_acquire_self, h.right.pool.get_acquire_self]
    exact .empty w
  have hold : ∀ {is js : List Nat}, List.Forall₂ (s.pool.Alike w t.pool) is js →
      List.Forall₂ (s.pool.acquire.2.Alike w t.pool.acquire.2) is js := fun hf =>
    FramePool.forall₂_alike hf (fun i _ => s.pool.get_acquire i) fun j _ => t.pool.get_acquire j
  exact ⟨.cons hnew (hold h.locals), .cons hnew (hold h.loops)⟩

omit h in
theorem Sound.pushLocal (h : s.Sound) : s.pushLocal.Sound := ⟨h.pool.acquire, h.root⟩

omit h in
theorem Sound.pushLoop (h : s.Sound) (p : Position) : (s.pushLoop p).Sound :=
  ⟨h.pool.acquire.perm List.perm_middle.symm, h.root⟩

theorem Alike.pushLocal : s.pushLocal.Alike w gap t.pushLocal :=
  { h with
    left := h.left.pushLocal
    right := h.right.pushLocal
    locals := h.acquire.1
    loops := (List.forall₂_cons.1 h.acquire.2).2 }

theorem Alike.pushGlobal {a b : Value} (hab : a.Alike w b) :
    (s.pushGlobal a).Alike w gap (t.pushGlobal b) :=
  { h.pushLocal with
    left := ⟨h.pushLocal.left.pool, h.left.root⟩
    right := ⟨h.pushLocal.right.pool, h.right.root⟩
    globals := .cons ⟨hab, rfl⟩ h.globals }

theorem Alike.pushLoop (p : Position) : (s.pushLoop p).Alike w gap (t.pushLoop p) :=
  { h with
    left := h.left.pushLoop p
    right := h.right.pushLoop p
    locals := (List.forall₂_cons.1 h.acquire.1).2
    loops := h.acquire.2
    positions := congrArg (p :: ·) h.positions }

/-! ### Closing -/

/-- Taking back the top local frame on both sides. -/
theorem Alike.dropLocal {i j : Nat} {is js : List Nat} (hs : s.locals.above = i :: is)
    (ht : t.locals.above = j :: js) :
    Alike w gap { s with pool := s.pool.release i, locals := ⟨s.locals.ground, is⟩ }
      { t with pool := t.pool.release j, locals := ⟨t.locals.ground, js⟩ } := by
  have hrest := h.locals
  rw [hs, ht, List.forall₂_cons] at hrest
  obtain ⟨_, hsl, hso⟩ := h.left.local_ne hs
  obtain ⟨_, htl, hto⟩ := h.right.local_ne ht
  have hsound : ∀ {s : Scopes} {i : Nat} {is : List Nat}, s.Sound → s.locals.above = i :: is →
      Sound { s with pool := s.pool.release i, locals := ⟨s.locals.ground, is⟩ } := by
    intro s i is h hs
    have hpool := h.pool
    simp only [frames, Stack.toList, hs] at hpool
    exact ⟨hpool.release, h.root⟩
  exact { h with
    left := hsound h.left hs
    right := hsound h.right ht
    locals := FramePool.forall₂_alike hrest.2
      (fun k hk => s.pool.get_release_of_ne (hsl k hk))
      fun k hk => t.pool.get_release_of_ne (htl k hk)
    loops := FramePool.forall₂_alike h.loops
      (fun k hk => s.pool.get_release_of_ne (hso k hk))
      fun k hk => t.pool.get_release_of_ne (hto k hk) }

theorem Alike.popLocal? : Option.Rel (Alike w gap) s.popLocal? t.popLocal? := by
  have hlocals := h.locals
  unfold Scopes.popLocal? Stack.pop?
  generalize hs : s.locals.above = is at hlocals ⊢
  generalize ht : t.locals.above = js at hlocals ⊢
  cases hlocals with
  | nil => exact .none
  | cons _ _ => exact .some (h.dropLocal hs ht)

theorem Alike.popGlobal? :
    Option.Rel (fun x y => x.1.Alike w y.1 ∧ x.2.Alike w gap y.2) s.popGlobal? t.popGlobal? := by
  have hglobals := h.globals
  have hlocals := h.locals
  unfold Scopes.popGlobal? Stack.pop?
  generalize s.globals.above = gs at hglobals ⊢
  generalize t.globals.above = ks at hglobals ⊢
  generalize hs : s.locals.above = is at hlocals ⊢
  generalize ht : t.locals.above = js at hlocals ⊢
  cases hglobals with
  | nil => exact .none
  | cons hg hrest =>
    cases hlocals with
    | nil => exact .none
    | cons _ _ =>
      have hd := h.dropLocal hs ht
      exact .some ⟨hg.model, { hd with
        left := ⟨hd.left.pool, h.left.root⟩
        right := ⟨hd.right.pool, h.right.root⟩
        globals := hrest }⟩

theorem Alike.popLoop? : Option.Rel (Alike w gap) s.popLoop? t.popLoop? := by
  have hloops := h.loops
  have hpositions := h.positions
  unfold Scopes.popLoop?
  rcases hs : s.loops with _ | ⟨k, ks⟩ <;> rcases ht : t.loops with _ | ⟨l, ls⟩ <;>
    rw [hs, ht] at hloops hpositions
  · exact .none
  · cases hpositions
  · cases hpositions
  · rw [List.map_cons, List.map_cons, List.forall₂_cons] at hloops
    obtain ⟨_, hsl, hso⟩ := h.left.loop_ne hs
    obtain ⟨_, htl, hto⟩ := h.right.loop_ne ht
    have hsound : ∀ {s : Scopes} {k : LoopFrame} {ks : List LoopFrame}, s.Sound →
        s.loops = k :: ks → Sound { s with pool := s.pool.release k.frame, loops := ks } := by
      intro s k ks h hs
      have hpool := h.pool
      simp only [frames, hs, List.map_cons] at hpool
      exact ⟨(hpool.perm List.perm_middle).release, h.root⟩
    exact .some { h with
      left := hsound h.left hs
      right := hsound h.right ht
      locals := FramePool.forall₂_alike h.locals
        (fun k hk => s.pool.get_release_of_ne (hsl k hk))
        fun k hk => t.pool.get_release_of_ne (htl k hk)
      loops := FramePool.forall₂_alike hloops.2
        (fun k hk => s.pool.get_release_of_ne (hso k hk))
        fun k hk => t.pool.get_release_of_ne (hto k hk)
      positions := (List.cons.inj hpositions).2 }

/-! ### What frames bind -/

theorem Alike.topGlobal (hinner : s.globals.above ≠ []) :
    s.globals.top.Alike w t.globals.top := by
  have hglobals := h.globals
  unfold Stack.top
  generalize s.globals.above = gs at hglobals hinner
  generalize t.globals.above = ks at hglobals
  cases hglobals with
  | nil => exact absurd rfl hinner
  | cons hgk _ => exact hgk

theorem Alike.localFrame (hinner : s.locals.above ≠ []) :
    s.localFrame.Alike w t.localFrame := by
  have hlocals := h.locals
  unfold Scopes.localFrame Stack.top
  generalize s.locals.above = is at hlocals hinner
  generalize t.locals.above = js at hlocals
  cases hlocals with
  | nil => exact absurd rfl hinner
  | cons hij _ => exact hij

theorem Alike.setLocalFrame (hinner : s.locals.above ≠ []) {f g : Frame} (hfg : f.Alike w g) :
    (s.setLocalFrame f).Alike w gap (t.setLocalFrame g) := by
  have hlocals := h.locals
  rcases hs : s.locals.above with _ | ⟨i, is⟩
  · exact absurd hs hinner
  rcases ht : t.locals.above with _ | ⟨j, js⟩ <;> rw [hs, ht] at hlocals
  · cases hlocals
  rw [List.forall₂_cons] at hlocals
  obtain ⟨hsi, hsl, hso⟩ := h.left.local_ne hs
  obtain ⟨htj, htl, hto⟩ := h.right.local_ne ht
  have hi := h.left.pool.bound i (by simp [hsi])
  have hj := h.right.pool.bound j (by simp [htj])
  simp only [Scopes.setLocalFrame, Stack.top, hs, ht, List.head?_cons, Option.getD_some]
  refine { h with
    left := ⟨h.left.pool.set hsi f, h.left.root⟩
    right := ⟨h.right.pool.set htj g, h.right.root⟩
    locals := ?_
    loops := FramePool.forall₂_alike h.loops
      (fun k hk => s.pool.get_set_of_ne (hso k hk) f)
      fun k hk => t.pool.get_set_of_ne (hto k hk) g }
  simp only [hs, ht]
  refine .cons ?_ (FramePool.forall₂_alike hlocals.2
    (fun k hk => s.pool.get_set_of_ne (hsl k hk) f)
    fun k hk => t.pool.get_set_of_ne (htl k hk) g)
  unfold FramePool.Alike
  rw [FramePool.get_set_self hi, FramePool.get_set_self hj]
  exact hfg

theorem Alike.loopFrame? : Option.Rel (Frame.Alike w) s.loopFrame? t.loopFrame? := by
  have hloops := h.loops
  unfold Scopes.loopFrame?
  rcases hs : s.loops with _ | ⟨k, ks⟩ <;> rcases ht : t.loops with _ | ⟨l, ls⟩ <;>
    rw [hs, ht] at hloops
  · exact .none
  · cases hloops
  · cases hloops
  · exact .some (List.forall₂_cons.1 hloops).1

theorem Alike.setLoopFrame {f g : Frame} (hfg : f.Alike w g) :
    (s.setLoopFrame f).Alike w gap (t.setLoopFrame g) := by
  have hloops := h.loops
  rcases hs : s.loops with _ | ⟨k, ks⟩ <;> rcases ht : t.loops with _ | ⟨l, ls⟩ <;>
    rw [hs, ht] at hloops
  · simpa only [Scopes.setLoopFrame, hs, ht] using h
  · cases hloops
  · cases hloops
  obtain ⟨hsk, hsl, hso⟩ := h.left.loop_ne hs
  obtain ⟨htl', htl, hto⟩ := h.right.loop_ne ht
  have hk := h.left.pool.bound k.frame (by simp [hsk])
  have hl := h.right.pool.bound l.frame (by simp [htl'])
  have hes : s.setLoopFrame f = { s with pool := s.pool.set k.frame f } := by
    simp only [Scopes.setLoopFrame, hs]
  have het : t.setLoopFrame g = { t with pool := t.pool.set l.frame g } := by
    simp only [Scopes.setLoopFrame, ht]
  rw [hes, het]
  refine { h with
    left := ⟨h.left.pool.set hsk f, h.left.root⟩
    right := ⟨h.right.pool.set htl' g, h.right.root⟩
    locals := FramePool.forall₂_alike h.locals
      (fun i hi => s.pool.get_set_of_ne (hsl i hi) f)
      fun i hi => t.pool.get_set_of_ne (htl i hi) g
    loops := ?_ }
  simp only [hs, ht, List.map_cons, List.forall₂_cons] at hloops ⊢
  refine ⟨?_, FramePool.forall₂_alike hloops.2
    (fun i hi => s.pool.get_set_of_ne (hso i hi) f)
    fun i hi => t.pool.get_set_of_ne (hto i hi) g⟩
  unfold FramePool.Alike
  rw [FramePool.get_set_self hk, FramePool.get_set_self hl]
  exact hfg

/-- The innermost loop takes over what the loop around binds. -/
theorem Alike.inheritLoop : s.inheritLoop.Alike w gap t.inheritLoop := by
  have hloops := h.loops
  rcases hs : s.loops with _ | ⟨k, _ | ⟨l, ks⟩⟩ <;>
    rcases ht : t.loops with _ | ⟨k', _ | ⟨l', ls⟩⟩ <;>
    simp only [hs, ht, List.map_cons, List.map_nil, List.forall₂_cons, List.forall₂_nil_left_iff,
      List.forall₂_nil_right_iff, reduceCtorEq, and_false] at hloops
  · simpa only [Scopes.inheritLoop, hs, ht] using h
  · simpa only [Scopes.inheritLoop, hs, ht] using h
  · have hes : s.inheritLoop =
        s.setLoopFrame ((s.pool.get k.frame).update (s.pool.get l.frame)) := by
      simp only [Scopes.inheritLoop, Scopes.setLoopFrame, hs]
    have het : t.inheritLoop =
        t.setLoopFrame ((t.pool.get k'.frame).update (t.pool.get l'.frame)) := by
      simp only [Scopes.inheritLoop, Scopes.setLoopFrame, ht]
    rw [hes, het]
    exact h.setLoopFrame (hloops.1.update hloops.2.1)

theorem Alike.loopPosition_eq : s.loopPosition = t.loopPosition := by
  unfold Scopes.loopPosition
  rw [← List.head?_map, ← List.head?_map, h.positions]

end

end Scopes

end TemplateEngine
