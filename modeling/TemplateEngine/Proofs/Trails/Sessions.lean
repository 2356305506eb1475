import TemplateEngine.Proofs.Contexts.Order
import TemplateEngine.Proofs.Evaluation.Passages
import TemplateEngine.Proofs.Trails.Steps

/-!
# Trails of what the host does

Everything that the program around the engine does with a context has a trail (`HostCall.trail`,
`HostWork.trail`), if the operations that it adds to the engine have one. What it does in turn is
told by the trails one after the other (`lifeTrail`), which lead to every context that can be
brought about (`Context.reached_iff`); and so every moment of the life of a context, also inside of
what is evaluated and rendered, is reached by a part of that list.

A relation that every step respects holds between any two moments of this life
(`Passage.of_life`): of what the program around the engine does, only putting a template into the
context from outside is none of the steps that a passage knows.
-/

namespace TemplateEngine

open TemplateEngine.Action

/-- A deed of the host, which may begin a loop without ending it. -/
def Trail.bare {α : Type} {x : Action α} (d : Deed) (h : ∀ c, (x c).2 = (d.act c).2) :
    Trail False [] x := ⟨fun _ => [d], h, False.elim⟩

/-- What a call does, if what bodies and operations do is known. -/
def HostCall.trail {m : Machine} (h : m.Trailed False) : ∀ c : HostCall, Trail False [] (c.act m) :=
  let C := Composition.trails False
  fun
  | .pushGlobal model => .bare (.openModel model) fun _ => rfl
  | .popGlobal => .bare .closeModel fun _ => rfl
  | .enterFunction p => .bare (.beginCall p [] []) fun c =>
    congrArg Prod.snd (congrFun (beginCall_nil p) c)
  | .exitFunction => .bare .endCall fun _ => rfl
  | .enterLoop p => .bare (.beginLoop .bare p) fun _ => rfl
  | .exitLoop => .bare .endLoop fun _ => rfl
  | .stepLoop => .lasting lasting_stepLoop
  | .pushOutput => .lasting lasting_pushOutput
  | .popOutput => .lasting (lasting_popOutput.bind fun _ => .pure ())
  | .write ref v => C.write ref v
  | .setReadOnly ref readOnly => .bare (.lock ref readOnly) fun _ => rfl
  | .render t model => (C.render h.run h.native t model).bind fun _ => .pure ()
  | .renderPath path model => (C.renderPath h.run h.native path model).bind fun _ => .pure ()
  | .execute b => (C.block h.run h.native b).bind fun _ => .pure ()
  | .evaluate e => (C.evaluate h.run h.native e).bind fun _ => .pure ()
  | .evaluateUninvoked e => (C.evaluateUninvoked h.run h.native e).bind fun _ => .pure ()
  | .assign e v => C.assign h.run h.native e v
  | .call f args p => (C.callFunction h.run h.native f args p).bind fun _ => .pure ()

/-- What other work of the host does. -/
def HostWork.trail (work : HostWork) : Trail False [] work.act :=
  match work with
  | .change f => .bare (.change f) fun _ => rfl
  | .read ref => .lasting ((lasting_readVariable ref).bind fun _ => .pure ())
  | .memberAccessor v => .lasting ((lasting_memberAccessor v).bind fun _ => .pure ())
  | .sequenceAccessor v => .lasting ((lasting_sequenceAccessor v).bind fun _ => .pure ())
  | .writeText text => .lasting (lasting_writeText text)
  | .writeValue v p => .lasting (lasting_writeValue v p)
  | .takeOutput => .lasting fun _ => .same rfl rfl
  | .setOutputEnabled _ => .lasting fun _ => .same rfl rfl
  | .pushSource name => .lasting (lasting_pushSource name)
  | .popSource => .lasting (lasting_popSource.bind fun _ => .pure ())
  | .load path p => .lasting ((lasting_loadTemplate path p).bind fun _ => .pure ())
  | .cache _ => .lasting fun _ => .same rfl rfl
  | .setMetadata _ _ => .lasting fun _ => .same rfl rfl

/-! ## One after the other -/

/-- What the program around the engine does next: a call with so many levels, or other work. -/
inductive Errand
  | call (levels : Nat) (call : HostCall)
  | work (work : HostWork)

/-- Does it. -/
def Errand.act (host : Host) : Errand → Action Unit
  | .call n made => made.act (machine host n)
  | .work done => done.act

section

variable {host : Host} (h : host.Trailed False)

/-- What an errand does. -/
def Errand.trail : ∀ e : Errand, Trail False [] (e.act host)
  | .call n made => made.trail (h.machine n)
  | .work done => done.trail

/-- All that is done in a number of errands. -/
def lifeTrail : List Errand → Context → List Deed
  | [], _ => []
  | e :: rest, c => (Errand.trail h e).log c ++ lifeTrail rest (e.act host c).2

theorem after_lifeTrail (life : List Errand) (c : Context) :
    c.after (lifeTrail h life c) = life.foldl (fun c e => (e.act host c).2) c := by
  induction life generalizing c with
  | nil => rfl
  | cons e rest ih =>
    rw [lifeTrail, Context.after_append, ← (Errand.trail h e).replays, ih, List.foldl_cons]

/-- What can be brought about is what comes after a number of errands. -/
theorem Context.reached_iff {s : Settings} {c : Context} : c.Reached host s ↔
    ∃ life, c = s.newContext.after (lifeTrail h life s.newContext) := by
  constructor
  · intro hc
    have hstep {c : Context} (e : Errand)
        (hlife : ∃ life, c = s.newContext.after (lifeTrail h life s.newContext)) :
        ∃ life, (e.act host c).2 = s.newContext.after (lifeTrail h life s.newContext) := by
      obtain ⟨life, rfl⟩ := hlife
      refine ⟨life ++ [e], ?_⟩
      rw [after_lifeTrail, after_lifeTrail, List.foldl_append]
      rfl
    induction hc with
    | opened => exact ⟨[], rfl⟩
    | called n call _ ih => exact hstep (.call n call) ih
    | worked work _ ih => exact hstep (.work work) ih
  · rintro ⟨life, rfl⟩
    rw [after_lifeTrail]
    have hlife : ∀ (life : List Errand) (c : Context), c.Reached host s →
        (life.foldl (fun c e => (e.act host c).2) c).Reached host s := by
      intro life
      induction life with
      | nil => exact fun c hc => hc
      | cons e rest ih =>
        intro c hc
        cases e with
        | call n made => exact ih _ (.called n made hc)
        | work done => exact ih _ (.worked done hc)
    exact hlife life _ .opened

end

/-! ## Passages of a life -/

namespace Passage

variable {α : Type} {R : Context → Context → Prop} (h : Passage R)

include h

/-- What a region gives when it is closed does not matter. -/
theorem of_close (r : Region) {x : Action α} (g : α → Value)
    (hclose : r.close = x >>= fun a => Pure.pure (g a)) : x.Passes R :=
  fun c => Trail.snd_bind_pure x g c ▸ hclose ▸ h.close r c

theorem call {m : Machine} (hm : m.Passes R) (call : HostCall) : (call.act m).Passes R := by
  have C := h.congruence
  cases call with
  | pushGlobal model => exact h.pushGlobal model
  | popGlobal => exact h.bind (h.close .global) fun _ => h.pure ()
  | enterFunction p => exact h.enterFunction p
  | exitFunction => exact h.of_close .function _ rfl
  | enterLoop p => exact h.of_leaves fun _ => rfl
  | exitLoop => exact h.of_close .loop _ rfl
  | stepLoop => exact h.stepLoop
  | pushOutput => exact h.of_leaves fun _ => rfl
  | popOutput => exact h.bind (h.of_close .output _ rfl) fun _ => h.pure ()
  | write ref v => exact h.writeVariable ref v
  | setReadOnly ref readOnly => exact h.setReadOnly ref readOnly
  | render t model => exact h.bind (C.render (n := m) hm.run hm.native t model) fun _ => h.pure ()
  | renderPath path model =>
    exact h.bind (C.renderPath (n := m) hm.run hm.native path model) fun _ => h.pure ()
  | execute b => exact h.bind (C.block (n := m) hm.run hm.native b) fun _ => h.pure ()
  | evaluate e => exact h.bind (C.evaluate (n := m) hm.run hm.native e) fun _ => h.pure ()
  | evaluateUninvoked e =>
    exact h.bind (C.evaluateUninvoked (n := m) hm.run hm.native e) fun _ => h.pure ()
  | assign e v => exact C.assign (n := m) hm.run hm.native e v
  | call f args p => exact h.bind (C.call (n := m) hm.run hm.native f args p) fun _ => h.pure ()

theorem work (work : HostWork) (hcache : ∀ t, work = .cache t → (cacheTemplate t).Passes R) :
    work.act.Passes R := by
  cases work with
  | cache t => exact hcache t rfl
  | load path p => exact h.bind (h.load path p) fun _ => h.pure ()
  | read ref => exact h.bind (h.readVariable ref) fun _ => h.pure ()
  | memberAccessor v => exact h.bind (h.member v) fun _ => h.pure ()
  | sequenceAccessor v => exact h.bind (h.sequence v) fun _ => h.pure ()
  | writeValue v p => exact h.writeValue v p
  | pushSource name => exact h.pushSource name
  | popSource => exact h.bind (h.of_close .source _ rfl) fun _ => h.pure ()
  | change | writeText | takeOutput | setOutputEnabled | setMetadata =>
    exact h.of_leaves fun _ => rfl

/-- Whatever is done with a context, the relation holds between the context before it and the one
after it. -/
theorem of_life {host : Host} (hhost : host.Passes R) {life : List Errand}
    (hcache : ∀ t, .work (.cache t) ∈ life → (cacheTemplate t).Passes R) (c : Context) :
    R c (life.foldl (fun c e => (e.act host c).2) c) := by
  induction life generalizing c with
  | nil => exact h.aside rfl
  | cons e rest ih =>
    have he : (e.act host).Passes R := by
      cases e with
      | call n made => exact h.call (h.machine hhost n) made
      | work done => exact h.work done fun t ht => hcache t (ht ▸ List.mem_cons_self)
    exact h.trans (he c) (ih (fun t ht => hcache t (List.mem_cons_of_mem _ ht)) _)

end Passage

end TemplateEngine
