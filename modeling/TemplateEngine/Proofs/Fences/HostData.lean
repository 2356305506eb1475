import TemplateEngine.Proofs.Contexts.Order
import TemplateEngine.Proofs.Fences.Statements
import TemplateEngine.Proofs.Includes.Homes

/-!
# Data that templates cannot shrink

Whatever is rendered, the data that was there has at most grown: writing an item keeps the length of
a sequence, and writing an entry or a name takes none away (`grown_render`). The namespace of the
built-in functions does not even grow. It is the ground of the models, and no value refers to it:
the program around the engine is never given it (`Context.ReachedBlind`), and templates get values
only from values (`Context.ReachedBlind.conceals`). So it could be written to only as the innermost
model, which it never is while a template is rendered (`renders_take_nothing_away`).
-/

namespace TemplateEngine

open TemplateEngine.Action

/-! ## Fences -/

/-- Everything may only grow. -/
def Fence.growth : Fence := ⟨fun _ => False, fun _ => False, True⟩

/-- No value refers to the place; it may change. -/
def Fence.concealing (r : Ref) : Fence := ⟨fun _ => False, (· = r), False⟩

/-- No value refers to the place, and it has to stay as it is. -/
def Fence.keeping (r : Ref) : Fence := ⟨(· = r), (· = r), False⟩

theorem Fence.sealed_growth : growth.Sealed := fun _ => id

theorem Fence.sealed_concealing (r : Ref) : (concealing r).Sealed := fun _ => False.elim

theorem Fence.sealed_keeping (r : Ref) : (keeping r).Sealed := fun _ => id

variable {r : Ref} {c : Context}

theorem Member.Confined.keeping {m : Member} (h : m.Confined (.concealing r)) :
    m.Confined (.keeping r) := by
  cases m with
  | length => trivial
  | field read write =>
    exact ⟨h.1, fun f hf s x v hs => h.2 f hf s x v ⟨fun _ => False.elim, hs.hidden_lt, hs.cells⟩⟩

/-- What no value refers to may as well be fenced off. -/
theorem Context.Known.keeping (h : c.Known (.concealing r)) : c.Known (.keeping r) where
  store := ⟨h.store.hidden_lt, h.store.hidden_lt, h.store.cells⟩
  frames := h.frames
  models := h.models
  members := ⟨fun key x hx => (h.members.shapes key x hx).keeping,
    fun t ht m hm => (h.members.tables t ht m hm).keeping⟩

/-! ## What grows -/

/-- Whatever is rendered with built-in functions and those of templates, in whatever context, with
whatever model, and whether it fails or not: every place holds the same kind of thing as before, and
nothing has been taken away from it. -/
theorem grown_render (c : Context) (n : Nat) (model : Value) :
    (∀ t : Template, c.store.Grown (t.render (machine .none n) model c).2.store) ∧
    ∀ path : String, c.store.Grown (renderPath (machine .none n) path model c).2.store := by
  have hm : (machine .none n).Respects .growth := Host.none_respects.machine Fence.sealed_growth n
  have hc : c.Known .growth := c.known_of_open (fun _ => id) fun _ => False.elim
  have hmodel : model.Known .growth := model.known_of_open fun _ => id
  exact ⟨fun t => (hm.render Fence.sealed_growth hc t hmodel).spared.stays.grown trivial,
    fun path => (hm.renderPath Fence.sealed_growth hc path hmodel).spared.stays.grown trivial⟩

/-! ## A place that is concealed -/

/-- The place is the ground of the models, and no value refers to it. -/
structure Context.Conceals (r : Ref) (c : Context) : Prop where
  known : c.Known (.concealing r)
  ground : c.scopes.globals.ground.model = .object r

/-- However the action ends, the place stays concealed. -/
def Action.Conceals (r : Ref) {α : Type} (x : Action α) : Prop :=
  ∀ c : Context, c.Conceals r → (x c).2.Conceals r

namespace Action.Conceals

variable {α β : Type} {x : Action α}

theorem discard (h : x.Conceals r) : (do let _ ← x : Action Unit).Conceals r :=
  fun c hc => holds_after_bind (P := Context.Conceals r) (h c hc) fun _ _ hd => hd

theorem of_spared {A : α → Prop}
    (h : ∀ c : Context, c.Known (.concealing r) → SparedWith (.concealing r) A c (x c)) :
    x.Conceals r := fun c hc => by
  obtain ⟨hspared, -⟩ := h c hc.known
  exact ⟨hspared.known, by rw [hspared.stands.globals]; exact hc.ground⟩

/-- Any model may change. -/
theorem of_respects {A : α → Prop} (h : x.Respects (.concealing r) A) : x.Conceals r :=
  .of_spared fun c hc => h c hc fun _ _ => id

/-- The models are left alone. -/
theorem of_known (hglobals : x.Leaves fun c => c.scopes.globals)
    (h : ∀ c : Context, c.Known (.concealing r) → (x c).2.Known (.concealing r)) :
    x.Conceals r := fun c hc => by
  have hsame : (x c).2.scopes.globals = c.scopes.globals := hglobals c
  exact ⟨h c hc.known, by rw [hsame]; exact hc.ground⟩

theorem modify {f : Context → Context} (hglobals : ∀ c, (f c).scopes.globals = c.scopes.globals)
    (h : ∀ c : Context, c.Known (.concealing r) → (f c).Known (.concealing r)) :
    (modify f).Conceals r := of_known hglobals h

end Action.Conceals

/-! ### Operations on contexts -/

theorem conceals_pushGlobal {model : Value} (hmodel : model.Known (.concealing r)) :
    (pushGlobal model).Conceals r := fun c hc => by
  refine ⟨(Region.known_pushGlobal hc.known hmodel).1, ?_⟩
  unfold pushGlobal
  split <;> exact hc.ground

/-- The ground is not closed. -/
theorem conceals_popGlobal : popGlobal.Conceals r := fun c hc => by
  refine ⟨hc.known.popGlobal.1, ?_⟩
  unfold popGlobal Scopes.popGlobal?
  cases hg : c.scopes.globals.pop? with
  | none => exact hc.ground
  | some g =>
    cases c.scopes.locals.pop? with
    | none => exact hc.ground
    | some l =>
      have hground : c.scopes.globals.ground = g.2.ground := by
        rw [Stack.pop?_eq_some_iff.1 hg]
        rfl
      exact hground ▸ hc.ground

theorem leaves_globals_enterFunction (p : Position) :
    (enterFunction p).Leaves fun c => c.scopes.globals := fun c => by
  unfold enterFunction
  split <;> rfl

theorem leaves_globals_exitFunction : exitFunction.Leaves fun c => c.scopes.globals := fun c => by
  unfold exitFunction Scopes.popLocal?
  split
  · rfl
  · cases c.scopes.locals.pop? <;> rfl

theorem leaves_globals_exitLoop : exitLoop.Leaves fun c => c.scopes.globals := fun c => by
  unfold exitLoop Scopes.popLoop?
  cases c.scopes.loops <;> rfl

theorem leaves_globals_popOutput : popOutput.Leaves fun c => c.scopes.globals := fun c => by
  unfold popOutput
  split <;> rfl

theorem leaves_globals_popSource : popSource.Leaves fun c => c.scopes.globals := fun c => by
  unfold popSource
  split <;> rfl

theorem leaves_globals_pushSource (name : String) :
    (pushSource name).Leaves fun c => c.scopes.globals := fun c => by
  unfold pushSource
  split <;> rfl

/-- A name that is locked beside the innermost model leaves the models themselves alone. -/
theorem Context.Conceals.flagGlobal (hc : c.Conceals r) (name : String) (readOnly : Bool) :
    Context.Conceals r { c with scopes := c.scopes.flagGlobal name readOnly } := by
  have hmodels := hc.known.models
  have hground := hc.ground
  unfold Scopes.flagGlobal Stack.modifyTop
  cases habove : c.scopes.globals.above with
  | nil => exact ⟨hc.known.with_scopes hc.known.frames nofun, hground⟩
  | cons g rest =>
    rw [habove] at hmodels
    have hall := List.forall_mem_cons.1 hmodels
    exact ⟨hc.known.with_scopes hc.known.frames (List.forall_mem_cons.2 ⟨hall.1, hall.2⟩), hground⟩

theorem conceals_setReadOnly (ref : VarRef) (readOnly : Bool) :
    (setReadOnly ref readOnly).Conceals r := by
  unfold setReadOnly
  split
  · intro c hc
    dsimp only [Action.modify]
    split
    · next store hstore =>
      split at hstore
      · exact ⟨(hc.known.spared_store (hc.known.store.objectSetReadOnly id hstore)).known,
          hc.ground⟩
      · cases hstore
    · exact hc.flagGlobal _ _
  · exact .of_respects <| .modify fun c hc =>
      hc.spared_pool (hc.frames.set _ ((hc.frames _).setReadOnly _ _))
  · refine .of_respects (A := fun _ => True)
      (.bind (A := fun frame => ∀ f ∈ frame, f.Known (.concealing r))
        (.view fun _ hc => hc.loopFrame) ?_)
    rintro (_ | frame) hframe
    · exact .failAt _ _
    · exact .modify fun c hc => hc.spared_loopFrame ((hframe frame rfl).setReadOnly _ _)

/-! ## The life of a context -/

/-- The values that are given do not refer to hidden places. -/
def HostCall.Known (F : Fence) : HostCall → Prop
  | .pushGlobal model | .render _ model | .renderPath _ model => model.Known F
  | .write _ v | .assign _ v => v.Known F
  | .call _ args _ => ∀ v ∈ args, v.Known F
  | .popGlobal | .enterFunction _ | .exitFunction | .enterLoop _ | .exitLoop | .stepLoop
  | .pushOutput | .popOutput | .setReadOnly _ _ | .execute _ | .evaluate _
  | .evaluateUninvoked _ => True

/-- What the program changes of its own does not refer to hidden places afterwards if it did not
before. -/
def HostWork.Known (F : Fence) : HostWork → Prop
  | .change f => ∀ s : Store, s.Known F → (f s).Known F
  | .read _ | .memberAccessor _ | .sequenceAccessor _ | .writeText _ | .writeValue _ _
  | .takeOutput | .setOutputEnabled _ | .pushSource _ | .popSource | .load _ _ | .cache _
  | .setMetadata _ _ => True

/-- The contexts that the program around the engine can bring about if it is never given a value
that refers to a hidden place. -/
inductive Context.ReachedBlind (F : Fence) (host : Host) (s : Settings) : Context → Prop
  | opened : ReachedBlind F host s s.newContext
  | called {c : Context} (n : Nat) (call : HostCall) :
    ReachedBlind F host s c → call.Known F → ReachedBlind F host s (call.act (machine host n) c).2
  | worked {c : Context} (work : HostWork) :
    ReachedBlind F host s c → work.Known F → ReachedBlind F host s (work.act c).2

/-- The namespace of the built-in functions is the first place that is opened. -/
theorem Settings.root_known (s : Settings) (F : Fence) :
    s.root.1.Known F ∧ s.root.2.cells = #[] := by
  unfold root
  have hown : (Builtin.all.foldl
      (fun f b => f.define b.name (.function (.builtin b)) true) Frame.empty).Known F :=
    List.foldlRecOn (motive := Frame.Known F) Builtin.all _ .empty
      fun f hf b _ => hf.define b.name (Value.known_of_plain rfl) true
  refine List.foldlRecOn (motive := fun x : Frame × Store => x.1.Known F ∧ x.2.cells = #[])
    s.functions _ ⟨hown, rfl⟩ ?_
  rintro ⟨f, store⟩ ⟨hf, hs⟩ ⟨name, operation⟩ _
  exact ⟨hf.define name (Value.known_of_plain rfl) true, hs⟩

theorem Settings.conceals_newContext {s : Settings} (h : s.shapes.Confined (.concealing 0)) :
    s.newContext.Conceals 0 := by
  obtain ⟨hroot, hcells⟩ := s.root_known (.concealing 0)
  have hstore : s.newContext.store.cells = #[.names s.root.1] := by
    change s.root.2.cells.push (.names s.root.1) = _
    rw [hcells]
    rfl
  have hempty : FramePool.empty.Known (.concealing 0) := fun i => by
    simp only [FramePool.get, FramePool.empty, Array.getElem?_empty, Option.getD_none]
    exact .empty
  refine ⟨⟨⟨fun _ => False.elim, ?_, ?_⟩, hempty.acquire, List.forall_mem_nil _, .new h _⟩, ?_⟩
  · rintro _ rfl
    rw [hstore]
    exact Nat.one_pos
  · intro r cell hcell
    rw [Option.mem_def, Store.cell?, hstore, Array.getElem?_singleton] at hcell
    split at hcell
    · cases hcell
      exact hroot
    · cases hcell
  · change Value.object s.root.2.cells.size = _
    rw [hcells]
    rfl

theorem HostCall.conceals {m : Machine} (h : m.Respects (.concealing r)) {call : HostCall}
    (hcall : call.Known (.concealing r)) : (call.act m).Conceals r := by
  have hsealed := Fence.sealed_concealing r
  cases call with
  | pushGlobal model => exact conceals_pushGlobal hcall
  | popGlobal => exact conceals_popGlobal.discard
  | enterFunction p =>
    exact .of_known (leaves_globals_enterFunction p) (Region.opensWithin_function p).known
  | exitFunction => exact .of_known leaves_globals_exitFunction fun _ hc => hc.exitFunction
  | enterLoop p => exact .of_known (fun _ => rfl) (Region.opensWithin_loop p).known
  | exitLoop => exact .of_known leaves_globals_exitLoop fun _ hc => hc.exitLoop
  | stepLoop => exact .of_respects respects_stepLoop
  | pushOutput => exact .of_known (fun _ => rfl) Region.opensWithin_output.known
  | popOutput =>
    exact (Action.Conceals.of_known leaves_globals_popOutput fun _ hc => hc.popOutput).discard
  | write ref v => exact .of_respects (respects_writeVariable ref hcall)
  | setReadOnly ref readOnly => exact conceals_setReadOnly ref readOnly
  | render t model =>
    exact (Action.Conceals.of_spared fun _ hc => h.render hsealed hc t hcall).discard
  | renderPath path model =>
    exact (Action.Conceals.of_spared fun _ hc => h.renderPath hsealed hc path hcall).discard
  | execute b => exact (Action.Conceals.of_respects (h.run_block hsealed b)).discard
  | evaluate e => exact (Action.Conceals.of_respects (h.evaluate e)).discard
  | evaluateUninvoked e => exact (Action.Conceals.of_respects (h.evaluateUninvoked e)).discard
  | assign e v => exact .of_respects (h.assign (fun _ => hsealed) hcall)
  | call f args p => exact (Action.Conceals.of_respects (h.call f hcall p)).discard

theorem HostWork.conceals {work : HostWork} (hwork : work.Known (.concealing r)) :
    work.act.Conceals r := by
  cases work with
  | change f =>
    exact .modify (fun _ => rfl) fun c hc => { hc with store := hwork c.store hc.store }
  | read ref => exact (Action.Conceals.of_respects (respects_readVariable ref)).discard
  | memberAccessor v => exact (Action.Conceals.of_respects (respects_memberAccessor v)).discard
  | sequenceAccessor v => exact (Action.Conceals.of_respects (respects_sequenceAccessor v)).discard
  | writeText text => exact .of_respects (respects_writeText text)
  | writeValue v p => exact .of_respects (respects_writeValue v p)
  | takeOutput =>
    exact (Action.Conceals.of_known (fun _ => rfl) fun c hc =>
      ⟨hc.store, hc.frames, hc.models, hc.members⟩).discard
  | pushSource name =>
    exact .of_known (leaves_globals_pushSource name) (Region.opensWithin_source name).known
  | popSource =>
    exact (Action.Conceals.of_known leaves_globals_popSource fun _ hc => hc.popSource).discard
  | load path p =>
    exact (Action.Conceals.of_spared fun _ hc => spared_loadTemplate hc path p).discard
  | setOutputEnabled enabled | cache t | setMetadata key datum =>
    exact .modify (fun _ => rfl) fun _ hc => ⟨hc.store, hc.frames, hc.models, hc.members⟩

/-- The namespace of the built-in functions stays concealed, by induction on what was done. -/
theorem Context.ReachedBlind.conceals {s : Settings} (hs : s.shapes.Confined (.concealing 0))
    {host : Host} (hhost : host.Respects (.concealing 0))
    (h : c.ReachedBlind (.concealing 0) host s) : c.Conceals 0 := by
  induction h with
  | opened => exact Settings.conceals_newContext hs
  | called n call _ hcall ih =>
    exact HostCall.conceals (hhost.machine (Fence.sealed_concealing 0) n) hcall _ ih
  | worked work _ hwork ih => exact HostWork.conceals hwork _ ih

/-! ## Renders -/

/-- Whatever is rendered with built-in functions and those of templates, and whether it fails or
not: every list and every array has the length that it had, every map and every namespace has all
the keys that it had, and the namespace of the built-in functions, which is the ground of the
models, is as it was with all that it binds and locks. For the latter the context may have been used
before in whatever way and with whatever operations of the host, but neither these nor the members
of records that the host declares may give a value that refers to this namespace. None of them can
have one, for there is none to begin with. -/
theorem renders_take_nothing_away (n : Nat) :
    (∀ (c : Context) (model : Value),
      (∀ t : Template, c.store.Grown (t.render (machine .none n) model c).2.store) ∧
      ∀ path : String, c.store.Grown (renderPath (machine .none n) path model c).2.store) ∧
    ∀ (s : Settings) (host : Host) (c : Context) (model : Value),
      s.shapes.Confined (.concealing 0) → host.Respects (.concealing 0) →
      c.ReachedBlind (.concealing 0) host s → model.Known (.concealing 0) →
      c.scopes.globals.ground.model = .object 0 ∧
      (∀ t : Template,
        (t.render (machine .none n) model c).2.store.cell? 0 = c.store.cell? 0 ∧
        (t.render (machine .none n) model c).2.scopes.globals = c.scopes.globals) ∧
      ∀ path : String,
        (renderPath (machine .none n) path model c).2.store.cell? 0 = c.store.cell? 0 ∧
        (renderPath (machine .none n) path model c).2.scopes.globals = c.scopes.globals := by
  refine ⟨fun c model => grown_render c n model, fun s host c model hs hhost hc hmodel => ?_⟩
  obtain ⟨hknown, hground⟩ := hc.conceals hs hhost
  have hsealed := Fence.sealed_keeping 0
  have hm : (machine .none n).Respects (.keeping 0) := Host.none_respects.machine hsealed n
  have hmodel : model.Known (.keeping 0) := hmodel
  refine ⟨hground, fun t => ?_, fun path => ?_⟩
  · have hspared := (hm.render hsealed hknown.keeping t hmodel).spared
    exact ⟨hspared.stays.kept 0 rfl, hspared.stands.globals⟩
  · have hspared := (hm.renderPath hsealed hknown.keeping path hmodel).spared
    exact ⟨hspared.stays.kept 0 rfl, hspared.stands.globals⟩

/-- An assignment to the name of a built-in function makes a name of the render. -/
theorem shadowed_builtin_stays :
    let p : Position := ⟨1, 1⟩
    let s : Settings := .standard id
    let made := s.newContext.store.newList [.int 1, .int 2]
    let c : Context := { s.newContext with store := made.2 }
    let len : VarRef := ⟨"len", .global, p⟩
    let t : Template := ⟨0, "", [.assign (.var len) (.literal (.int 7) p), .output (.var len)]⟩
    (t.render (machine .none 1) made.1 c).1.value? = some "7" ∧
      c.store.Grown (t.render (machine .none 1) made.1 c).2.store ∧
      (t.render (machine .none 1) made.1 c).2.store.cell? 0 = c.store.cell? 0 := by
  intro p s made c len t
  have hitems : ∀ v ∈ [Value.int 1, .int 2], v.Known (.concealing 0) := by
    simp only [List.forall_mem_cons, List.not_mem_nil, false_implies, implies_true, and_true]
    exact ⟨Value.known_of_plain rfl, Value.known_of_plain rfl⟩
  have hc : c.ReachedBlind (.concealing 0) .none s :=
    .worked (.change fun σ => (σ.newList [.int 1, .int 2]).2) .opened fun σ hσ =>
      (hσ.alloc (c := .items _) hitems).known
  have hmodel : made.1.Known (.concealing 0) := by
    rintro _ ⟨⟩
    exact Nat.one_ne_zero
  obtain ⟨hgrown, hroot⟩ := renders_take_nothing_away 1
  obtain ⟨-, hsame, -⟩ :=
    hroot s .none c made.1 Shapes.confined_empty Host.none_respects hc hmodel
  exact ⟨by decide +kernel, (hgrown c made.1).1 t, (hsame t).1⟩

end TemplateEngine
