import TemplateEngine.Proofs.Lexical.Bodies
import TemplateEngine.Proofs.Lexical.Evaluation
import TemplateEngine.Proofs.Suppression.Outermost

/-!
# Loop variables are lexical and calls are isolated

A context is ready if what it works on is lexical and no frame in use was handed out twice. A
context that is opened over a loader of sources is ready (`Settings.Lexical.ready`), and rendering
leaves it ready. On a ready context, a lexical template is rendered just as it is in sight of the
loops around each place: in the end, in what it writes and in all that it changes, whatever a
faithful reader does with a loop name that evaluation reads as anything else than what the loops
around it say (`loop_names_are_lexical`). So no evaluation of a loop name ever gives anything else.

A function of a template that was read is called with the same outcome and the same effects wherever
it is called: what the local frames and the frames of loops of the caller bind has no part in it,
and is as before afterwards (`calls_are_isolated`). The reason is that what runs in lockstep with
evaluation in sight of the loops around it cannot tell twins apart (`Action.Lockstep.alike`). An
include leaves the frames around it as they are, too. A function that was not read but put together
otherwise can look up the name of a loop that is not in it, and so it tells callers apart, even if
it is called by a function that was read (`stray_function_sees_loops`).
-/

namespace TemplateEngine

open TemplateEngine.Action ScopeView

/-! ## Contexts that are ready -/

/-- What the context works on is lexical, and its frames in use are handed out once each. -/
structure Context.Ready (c : Context) : Prop where
  lexical : c.Lexical
  scopes : c.scopes.Tidy

theorem Settings.Lexical.ready {s : Settings} (h : s.Lexical) : s.newContext.Ready :=
  ⟨h.newContext, Scopes.tidy_new _⟩

/-- A ready context is its own twin. -/
theorem Context.Ready.twins {c : Context} (h : c.Ready) :
    c.Twins (Unmoved c.scopes.view c.scopes.view) c :=
  ⟨rfl, rfl, h.lexical, h.scopes, h.scopes, rfl, rfl⟩

/-! ## Rendering -/

/-- On this context the first run is the second one, which is in sight of the loops around. It does
not fail because of a loop name, and leaves the context ready. -/
structure Action.InSight {α : Type} (x y : Action α) (c : Context) : Prop where
  same : x c = y c
  inLoops (p : Position) (name : String) :
    (x c).1 ≠ .error (.script p (.loopVariableOutsideLoop name))
  ready : (x c).2.Ready

theorem Action.Lockstep.inSight {α : Type} {A : α → Prop} {x y : Action α} {c : Context}
    (hc : c.Ready) (h : Lockstep (Unmoved c.scopes.view c.scopes.view) A x y) :
    InSight x y c := by
  obtain ⟨⟨_, hr, ht⟩, hsame⟩ := h c c hc.twins
  refine ⟨hsame rfl, fun p name herror => ?_, ht.lexical, ht.left⟩
  rw [herror] at hr
  cases hr with
  | error hstray => exact hstray trivial

theorem lockstep_renderPath {m m' : Machine} (hm : m.Lockstep m') {read : Reader}
    (hread : read.Faithful) (path : String) {model : Value} (hmodel : model.Lexical)
    (P : ScopeView → ScopeView → Prop) :
    Action.Lockstep P (fun _ => True) (renderPath m path model)
      (renderPathBy read m' path model) :=
  .bind (.of_unaware (unaware_loadTemplate path .unknown) (yields_loadTemplate path .unknown))
    fun _ ht => lockstep_render hm hread ht hmodel P

theorem Host.applying_discreet : Host.applying.Discreet := by
  intro f m m' hm args p hargs P
  unfold Host.applying
  split
  · next g rest =>
    rw [List.forall_mem_cons] at hargs
    exact hm.call P hargs.1 hargs.2 p
  · exact .pure trivial

/-- A loop in a loop, in which both variables are named and what is told about the inner loop. -/
def nestedLoops : String :=
  "\x7b% for x in [1, 2] %\x7d\x7b% for y in [x, 3] %\x7d" ++
    "\x7b\x7b [x, y, loop.index] \x7d\x7d\x7b% endfor %\x7d\x7b% endfor %\x7d"

/-- Both contexts of twins are ready. -/
theorem Context.Twins.ready {P : ScopeView → ScopeView → Prop} {c d : Context}
    (h : c.Twins P d) : c.Ready ∧ d.Ready := ⟨⟨h.lexical, h.left⟩, h.right_lexical, h.right⟩

/-- An action in lockstep with another one, however frames are related, ends alike on twins and
leaves their frames as they are. -/
theorem Action.Lockstep.alike {α : Type} {A : α → Prop} {x y : Action α}
    {P : ScopeView → ScopeView → Prop} {c d : Context} (hcd : c.Twins P d)
    (h : ∀ Q, Lockstep Q A x y) :
    EndsAlike A (Unmoved c.scopes.view d.scopes.view) (x c) (x d) := by
  -- on one context the two actions are the same, so `y d` stands between `x c` and `x d`
  have hd : x d = y d := (h _ d d hcd.ready.2.twins).2 rfl
  rw [hd]
  exact (h _ c d { hcd with views := ⟨rfl, rfl⟩ }).1

section

variable {host : Host} (hhost : host.Discreet) (n : Nat)

include hhost

theorem endsAlike_call {P : ScopeView → ScopeView → Prop} {c d : Context} (hcd : c.Twins P d)
    {f : FunctionDef} (hf : f.Lexical) {args : List Value} (hargs : ∀ v ∈ args, v.Lexical)
    (p : Position) : EndsAlike Value.Lexical (Unmoved c.scopes.view d.scopes.view)
      ((machine host n).call (.defined f) args p c)
      ((machine host n).call (.defined f) args p d) :=
  Lockstep.alike hcd fun Q =>
    (hhost.machine Reader.faithful_lexical n).call Q (f := .defined f) hf hargs p

/-- An include leaves the frames as they are. -/
theorem view_include {c : Context} (hc : c.Ready) {names : LoopNames} (hnames : names.Lexical)
    (hheld : names.Held c.scopes.view) (hlocal : c.scopes.localFrame.Lexical) {path : Expr}
    {model : Option Expr} {p : Position}
    (hs : (Stmt.include path model p).Lexical names.Bound) :
    ((Stmt.include path model p).run (machine host n) c).2.scopes.view = c.scopes.view := by
  cases hs with
  | «include» _ hpath hmodel =>
    have hsees : ∀ v w, Unmoved c.scopes.view c.scopes.view v w → Sees names v w := by
      rintro _ _ ⟨rfl, rfl⟩
      refine ⟨rfl, ?_, hheld, hheld⟩
      rw [c.scopes.view_locals]
      rintro _ ⟨⟩
      exact hlocal
    have hplace : Outlook (machine host n) (machineBy .lexical host n) .lexical names
        (Unmoved c.scopes.view c.scopes.view) :=
      ⟨hhost.machine Reader.faithful_lexical n, Reader.faithful_lexical, hnames, hsees⟩
    exact (hplace.inclusion hpath hmodel p c c hc.twins).1.twins.views.1

end

/-- On twins, whatever their frames bind, a function of a template that was read comes to the same
result and the same effects. Its body begins with its parameters and nothing else. Neither the call
nor an include changes what the frames around it bind. -/
theorem calls_are_isolated {host : Host} (hhost : host.Discreet) (n : Nat) {c d : Context}
    (h : c.Twins (fun _ _ => True) d) :
    let m := machine host n
    (∀ f : FunctionDef, f.OfSource → ∀ args : List Value, (∀ v ∈ args, v.Lexical) → ∀ p : Position,
      EndsAlike Value.Lexical (Unmoved c.scopes.view d.scopes.view)
        (m.call (.defined f) args p c) (m.call (.defined f) args p d)) ∧
    (∀ (f : FunctionDef) (args : List Value) (p : Position),
      args.length ≤ f.params.length → c.scopes.depth < c.limits.depth →
      ∃ b, c.Begins f args b ∧ m.call (.defined f) args p c = finishCall (m.run f.body b)) ∧
    ∀ (names : LoopNames) (path : Expr) (model : Option Expr) (p : Position), names.Lexical →
      names.Held c.scopes.view → c.scopes.localFrame.Lexical →
      (Stmt.include path model p).Lexical names.Bound →
      ((Stmt.include path model p).run m c).2.scopes.view = c.scopes.view := by
  intro m
  refine ⟨fun f hf args hargs p => endsAlike_call hhost n h hf.lexical hargs p,
    fun f args p hargs hdepth => ?_,
    fun names path model p hnames hheld hlocal hs =>
      view_include hhost n h.ready.1 hnames hheld hlocal hs⟩
  exact ⟨c.bodyStart f args, c.begins_bodyStart h.left f args,
    callDefined_eq m h.left hargs hdepth p⟩

/-! ## An instance and its limits -/

/-- The first function that a source defines. -/
def functionOfSource (source : String) : Option FunctionDef :=
  match Template.parse "t" source .plain with
  | .ok t => (functionsIn (t.identify 0).1.body).head?
  | .error _ => none

theorem ofSource_of_functionOfSource {source : String} {f : FunctionDef}
    (h : functionOfSource source = some f) : f.OfSource := by
  unfold functionOfSource at h
  split at h
  · next t hread => exact ⟨"t", source, .plain, t, hread, 0, List.mem_of_head? h⟩
  · cases h

/-- The context in a loop whose variable `x` stands for 1. -/
def Context.inLoop (c : Context) : Context :=
  (bindLoop "x" (.int 1) (enterLoop .unknown c).2).2

theorem Context.Ready.twins_inLoop {c : Context} (h : c.Ready) :
    c.Twins (fun _ _ => True) c.inLoop := by
  have hloop : (enterLoop .unknown c).2.scopes.loopFrame? = some .empty := by
    rw [Scopes.loopFrame?_eq]
    exact congrArg ScopeView.loop? (h.scopes.view_pushLoop .unknown)
  unfold inLoop bindLoop
  rw [hloop]
  exact ⟨rfl, rfl, h.lexical, h.scopes, (h.scopes.pushLoop _).setLoopFrame _, trivial⟩

/-- A function with a loop in which the parameter of the function and the variable of the loop are
named. -/
def echoing : String :=
  "\x7b% function f(x) %\x7d\x7b% for y in [x] %\x7d\x7b\x7b [x, y] \x7d\x7d\x7b% endfor %\x7d" ++
    "\x7b% endfunction %\x7d"

theorem echoing_is_isolated : ∃ f : FunctionDef, f.OfSource ∧
    let c := (Settings.standard id).newContext
    EndsAlike Value.Lexical (Unmoved c.scopes.view c.inLoop.scopes.view)
      ((machine .applying 2).call (.defined f) [.int 5] .unknown c)
      ((machine .applying 2).call (.defined f) [.int 5] .unknown c.inLoop) := by
  have hread : (functionOfSource echoing).isSome = true := by decide +kernel
  obtain ⟨f, hf⟩ := Option.isSome_iff_exists.1 hread
  have hsource := ofSource_of_functionOfSource hf
  have hready : (Settings.standard id).newContext.Ready :=
    Settings.Lexical.ready ⟨nofun, Shapes.lexical_empty⟩
  have hargs : ∀ v ∈ [Value.int 5], v.Lexical := List.forall_mem_singleton.2 trivial
  exact ⟨f, hsource, (calls_are_isolated Host.applying_discreet 2 hready.twins_inLoop).1 f hsource
    _ hargs .unknown⟩

/-- A function that calls another one. -/
def forwarding : String := "\x7b% function f() %\x7d\x7b\x7b g() \x7d\x7d\x7b% endfunction %\x7d"

/-- A function without loops that looks up the variable of a loop. -/
def stray : FunctionDef :=
  ⟨0, ⟨"g", .global, .unknown⟩, [], [.output (.var ⟨"x", .loop, .unknown⟩)], .unknown⟩

/-- The context under a model with a function. -/
def Context.offering (c : Context) (f : FunctionDef) : Context :=
  let (model, store) := c.store.newMap (.ofList [(f.name.name, .function (.defined f))])
  { c with store := store, scopes := c.scopes.pushGlobal model }

/-- The call comes to a value. -/
def Outcome.isOk {α : Type} : Outcome α → Bool
  | .ok _ => true
  | _ => false

theorem stray_function_sees_loops : ∃ f : FunctionDef, f.OfSource ∧ ∃ c d : Context,
    c.withForeground d.foreground = d ∧ c.suppressed = d.suppressed ∧ c.scopes.Tidy ∧
    d.scopes.Tidy ∧ ((machine .none 2).call (.defined f) [] .unknown c).1 ≠
      ((machine .none 2).call (.defined f) [] .unknown d).1 := by
  let c := (Settings.standard id).newContext.offering stray
  have hprobe : ((functionOfSource forwarding).any fun f =>
      !((machine .none 2).call (.defined f) [] .unknown c).1.isOk &&
        ((machine .none 2).call (.defined f) [] .unknown c.inLoop).1.isOk) = true := by
    decide +kernel
  obtain ⟨f, hf, hdiffers⟩ := (Option.any_eq_true _ _).1 hprobe
  have htidy : c.scopes.Tidy := (Scopes.tidy_new _).pushGlobal _
  refine ⟨f, ofSource_of_functionOfSource hf, c, c.inLoop, rfl, rfl, htidy,
    (htidy.pushLoop _).setLoopFrame _, fun heq => ?_⟩
  rw [heq] at hdiffers
  simp at hdiffers

end TemplateEngine
