import TemplateEngine.Proofs.Frames.Reports

/-!
# Frames over the life of a context

The program around the engine may open, close, write and render in any order, and its calls may fail
(`HostCall`); so may its operations inside of a render (`Host.Watched`). Through all of this the
scopes stay in order, and the pool has as many frames as were ever in use at once
(`frames_stay_in_order`).
-/

namespace TemplateEngine

open TemplateEngine.Action

/-- What the program around the engine does with a context. -/
inductive HostCall
  | pushGlobal (model : Value)
  | popGlobal
  | enterFunction (p : Position)
  | exitFunction
  | enterLoop (p : Position)
  | exitLoop
  | stepLoop
  | pushOutput
  | popOutput
  | write (ref : VarRef) (v : Value)
  | setReadOnly (ref : VarRef) (readOnly : Bool)
  | render (t : Template) (model : Value)
  | renderPath (path : String) (model : Value)
  | execute (b : Block)
  | evaluate (e : Expr)
  | evaluateUninvoked (e : Expr)
  | assign (e : Expr) (v : Value)
  | call (f : Function) (args : List Value) (p : Position)

namespace HostCall

/-- Does it, without what it gives. -/
def act (m : Machine) : HostCall → Action Unit
  | pushGlobal model => Action.pushGlobal model
  | popGlobal => do let _ ← Action.popGlobal
  | enterFunction p => Action.enterFunction p
  | exitFunction => Action.exitFunction
  | enterLoop p => Action.enterLoop p
  | exitLoop => Action.exitLoop
  | stepLoop => Action.stepLoop
  | pushOutput => Action.pushOutput
  | popOutput => do let _ ← Action.popOutput
  | write ref v => writeVariable ref v
  | setReadOnly ref readOnly => Action.setReadOnly ref readOnly
  | render t model => do let _ ← t.render m model
  | renderPath path model => do let _ ← TemplateEngine.renderPath m path model
  | execute b => do let _ ← runBlock m b
  | evaluate e => do let _ ← e.evaluate m
  | evaluateUninvoked e => do let _ ← e.evaluateUninvoked m
  | assign e v => e.assign m v
  | call f args p => do let _ ← m.call f args p

def watched {m : Machine} (h : m.Watched) : ∀ call : HostCall, Watched (call.act m)
  | pushGlobal model => .pushGlobal model
  | popGlobal => Watched.popGlobal.bind fun _ => .pure ()
  | enterFunction p => .enterFunction p
  | exitFunction => .exitFunction
  | enterLoop p => .enterLoop p
  | exitLoop => .exitLoop
  | stepLoop => .silent frameBooks_stepLoop
  | pushOutput => .pushOutput
  | popOutput => Watched.popOutput.bind fun _ => .pure ()
  | write ref v => .silent (frameBooks_writeVariable ref v)
  | setReadOnly ref readOnly => .silent (frameBooks_setReadOnly ref readOnly)
  | render t model =>
    (Congruence.watching.render (n := m) h.run h.native t model).bind fun _ => .pure ()
  | renderPath path model =>
    (Congruence.watching.renderPath (n := m) h.run h.native path model).bind fun _ => .pure ()
  | execute b => (Congruence.watching.block (n := m) h.run h.native b).bind fun _ => .pure ()
  | evaluate e => (Congruence.watching.evaluate (n := m) h.run h.native e).bind fun _ => .pure ()
  | evaluateUninvoked e =>
    (Congruence.watching.evaluateUninvoked (n := m) h.run h.native e).bind fun _ => .pure ()
  | assign e v => Congruence.watching.assign (n := m) h.run h.native e v
  | call f args p =>
    (Congruence.watching.call (n := m) h.run h.native f args p).bind fun _ => .pure ()

end HostCall

/-- What calls with so many levels each report in turn, and the context after them, however they
ended. -/
def frameLife {host : Host} (h : host.Watched) :
    List (Nat × HostCall) → Context → FrameHistory × Context
  | [], c => ([], c)
  | (n, call) :: rest, c =>
    let (log, d) := frameLife h rest (call.act (machine host n) c).2
    ((call.watched (h.machine n)).log c ++ log, d)

theorem frameBooks_life {host : Host} (h : host.Watched) (calls : List (Nat × HostCall))
    (c : Context) : FrameBooks c (frameLife h calls c).1 (frameLife h calls c).2 := by
  induction calls generalizing c with
  | nil => exact .refl c
  | cons call rest ih => exact ((call.2.watched (h.machine call.1)).books c).append (ih _)

/-- Whatever is done with a context from its opening on, in any order and with calls that fail among
it: the local frames, the loop frames and the free frames are the frames of the pool, each once; the
free ones bind nothing; there is a local frame for each model and each active call; no more calls
are active than the limit says; a model, a local frame and a buffer remain; and the pool has as many
frames as were ever open at once. So each frame in use is one of the pool, a frame that is opened
binds nothing, and what is bound in one frame in use shows in no other. -/
theorem frames_stay_in_order {host : Host} (h : host.Watched) (s : Settings)
    (calls : List (Nat × HostCall)) :
    let history := .opened :: (frameLife h calls s.newContext).1
    let scopes := (frameLife h calls s.newContext).2.scopes
    ((scopes.frames ++ scopes.pool.free).Perm (List.range scopes.pool.frames.size) ∧
      ∀ i ∈ scopes.pool.free, scopes.pool.get i = .empty) ∧
    (scopes.locals.size = scopes.globals.size + scopes.depth ∧ scopes.depth ≤ s.limits.depth) ∧
    (1 ≤ scopes.globals.size ∧ 1 ≤ scopes.locals.size ∧
      1 ≤ (frameLife h calls s.newContext).2.output.depth) ∧
    (scopes.locals.size + scopes.loops.length = FrameHistory.final 0 history ∧
      (∀ k, FrameHistory.final 0 (history.take k) ≤ scopes.pool.frames.size) ∧
      ∃ k, FrameHistory.final 0 (history.take k) = scopes.pool.frames.size) ∧
    (∀ i ∈ scopes.frames, i < scopes.pool.frames.size) ∧
    (scopes.pushLocal.localFrame = .empty ∧
      (∀ model, (scopes.pushGlobal model).localFrame = .empty) ∧
      ∀ p, (scopes.pushLoop p).loopFrame? = some .empty) ∧
    scopes.frames.Nodup ∧ ∀ i ∈ scopes.frames, ∀ f, (scopes.pool.set i f).get i = f ∧
      ∀ j, j ≠ i → (scopes.pool.set i f).get j = scopes.pool.get j := by
  have hbooks := (frameBooks_life h calls s.newContext).scopes
  have hnew : s.newContext.scopes.InOrder s.newContext.limits.depth := Scopes.inOrder_new _ _
  have horder := hbooks.order hnew
  have hsize := hbooks.size hnew
  generalize frameLife h calls s.newContext = life at hbooks horder hsize ⊢
  obtain ⟨log, d⟩ := life
  have hpeak : d.scopes.pool.frames.size = FrameHistory.peak 0 (.opened :: log) := by
    have hle := FrameHistory.le_peak 1 log
    have hone : s.newContext.scopes.frames.length = 1 := rfl
    have hpool : s.newContext.scopes.pool.frames.size = 1 := rfl
    simp only [hone, hpool] at hsize
    simp only [FrameHistory.peak_cons, FrameEvent.after, Nat.zero_add]
    omega
  refine ⟨⟨horder.pool.numbers, horder.pool.empty⟩, ⟨horder.locals, horder.depth⟩, ?_, ?_,
    horder.apart.2, horder.opens_empty, horder.apart.1, fun i hi f => horder.fill hi f⟩
  · simp [Stack.size, Output.depth]
  · refine ⟨?_, fun k => ?_, ?_⟩
    · rw [← Scopes.length_frames]
      exact hbooks.count
    · rw [hpeak]
      exact FrameHistory.final_take_le_peak 0 k _
    · rw [hpeak]
      exact FrameHistory.exists_final_take_eq_peak 0 _

/-- A frame that was closed is opened again before another is added to the pool. -/
example :
    let p : Position := ⟨1, 1⟩
    let s : Settings := Settings.standard id
    let calls : List (Nat × HostCall) := [(0, .enterFunction p), (0, .exitFunction),
      (0, .exitFunction), (1, .execute [.repeatWhile (.literal .null p) [] p])]
    (frameLife Host.none_watched calls s.newContext).1 = [.opened, .closed, .opened, .closed] ∧
      (frameLife Host.none_watched calls s.newContext).2.scopes.pool.frames.size = 2 := by
  decide +kernel

end TemplateEngine
