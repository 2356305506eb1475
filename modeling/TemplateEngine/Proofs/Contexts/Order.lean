import TemplateEngine.Proofs.Evaluation.Passages
import TemplateEngine.Proofs.Frames.Sessions
import TemplateEngine.Proofs.Isolation.Members

/-!
# Contexts in order

The table of members of a concrete type is kept once it was made. Every action leaves the tables
that were kept saying what a table made now would say (`Action.KeepsTables`): finding the rule for
the members of a value makes such a table or none, and nothing else touches the tables
(`passage_tables`).

A context is in order for the settings that it was opened with if its frames are in order, the
limits are those of the settings, and the tables of members that were kept say what a table made now
would say (`Context.InOrder`). It is in order when it is opened, and whatever runs leaves it so
(`Congruence.orderly`), if the operations of the host do the same (`Host.Orderly.machine`). So every
context that the program around the engine can bring about is in order (`Context.Reached.inOrder`).
-/

namespace TemplateEngine

open TemplateEngine.Action

variable {s : Settings}

/-! ## Tables of members -/

namespace Action

variable {α : Type}

/-- However the action ends, tables of members that were sound are sound afterwards. -/
def KeepsTables (s : Settings) (x : Action α) : Prop :=
  ∀ c : Context, c.members.Sound s.shapes s.transform →
    (x c).2.members.Sound s.shapes s.transform

/-- The tables are left alone. -/
theorem KeepsTables.of_leaves {x : Action α} (hx : x.Leaves Context.members) :
    x.KeepsTables s := by
  intro c h
  rw [hx c]
  exact h

theorem keepsTables_memberAccessor (target : Value) : (memberAccessor target).KeepsTables s :=
  fun c h => h.resolve_sound c.store target

theorem passage_tables (s : Settings) : Passage fun c d =>
    c.members.Sound s.shapes s.transform → d.members.Sound s.shapes s.transform where
  aside {c d} h hc := by
    have hmembers : d.members = c.members := congrArg Prod.fst h
    rw [hmembers]
    exact hc
  trans hc hd := hd ∘ hc
  member := keepsTables_memberAccessor
  sequence _ _ h := h
  load path p := KeepsTables.of_leaves (leaves_loadTemplate (fun _ _ _ => rfl) path p)

theorem Primitive.keepsTables {x : Action α} (h : x.Primitive) : x.KeepsTables s :=
  (passage_tables s).primitive h

end Action

/-! ## Order -/

/-- The frames, the limits and the tables of members are as they should be with these settings. -/
structure Context.InOrder (s : Settings) (c : Context) : Prop where
  limits : c.limits = s.limits
  scopes : c.scopes.InOrder s.limits.depth
  members : c.members.Sound s.shapes s.transform

theorem Settings.inOrder_newContext (s : Settings) : s.newContext.InOrder s :=
  ⟨rfl, Scopes.inOrder_new _ _, MemberAccessors.sound_new _ _⟩

namespace Context.InOrder

variable {c d : Context}

/-- What keeps the books and leaves the tables sound leaves the context in order. -/
theorem of_books {log : FrameHistory} (h : c.InOrder s) (hbooks : FrameBooks c log d)
    (hmembers : d.members.Sound s.shapes s.transform) : d.InOrder s where
  limits := hbooks.limits.trans h.limits
  scopes := by
    have hscopes := hbooks.scopes.order
    rw [h.limits] at hscopes
    exact hscopes h.scopes
  members := hmembers

/-- Nothing but limits, scopes and tables has to be in order. -/
theorem same (h : c.InOrder s) (hlimits : d.limits = c.limits) (hscopes : d.scopes = c.scopes)
    (hmembers : d.members = c.members) : d.InOrder s :=
  h.of_books (.same hlimits hscopes) (hmembers ▸ h.members)

end Context.InOrder

/-! ## Actions -/

namespace Action

variable {α β : Type}

/-- However the action ends, a context that was in order is in order afterwards. -/
def Orderly (s : Settings) (x : Action α) : Prop :=
  ∀ c : Context, c.InOrder s → (x c).2.InOrder s

namespace Orderly

/-- What reports its frames and leaves the tables sound is orderly. -/
theorem of_watched {x : Action α} (hx : Watched x) (hmembers : x.KeepsTables s) : x.Orderly s :=
  fun c h => h.of_books (hx.books c) (hmembers c h.members)

/-- What opens and closes frames at most, and leaves the tables alone, is orderly. -/
theorem of_leaves {x : Action α} (hx : Watched x) (hmembers : x.Leaves Context.members) :
    x.Orderly s := of_watched hx (.of_leaves hmembers)

protected theorem pure (a : α) : Orderly s (pure a : Action α) := fun _ h => h

theorem bind {x : Action α} {f : α → Action β} (hx : x.Orderly s) (hf : ∀ a, (f a).Orderly s) :
    (x >>= f).Orderly s := fun c h =>
  holds_after_bind (P := Context.InOrder s) (hx c h) hf

theorem withSuppression {x : Action α} (b : Bool) (hx : x.Orderly s) :
    (withSuppression b x).Orderly s := fun c h =>
  (hx _ (h.same (d := { c with suppressed := b }) rfl rfl rfl)).same rfl rfl rfl

end Orderly

theorem Primitive.orderly {x : Action α} (h : x.Primitive) : x.Orderly s :=
  .of_watched (.silent h.frameBooks) h.keepsTables

theorem orderly_setReadOnly (ref : VarRef) (readOnly : Bool) :
    (setReadOnly ref readOnly).Orderly s :=
  .of_watched (.silent (frameBooks_setReadOnly ref readOnly))
    ((passage_tables s).setReadOnly ref readOnly)

theorem orderly_bindLoop (name : String) (v : Value) : (bindLoop name v).Orderly s :=
  .of_watched (.silent (frameBooks_bindLoop name v)) ((passage_tables s).bindLoop name v)

theorem orderly_stepLoop : stepLoop.Orderly s :=
  .of_watched (.silent frameBooks_stepLoop) (passage_tables s).stepLoop

theorem orderly_writeValue (v : Value) (p : Position) : (writeValue v p).Orderly s := by
  unfold writeValue
  split
  · exact .pure ()
  · exact .bind (Primitive.tryView p _).orderly fun _ c h => h.same rfl rfl rfl

/-! ### Opening and closing -/

theorem orderly_enterFunction (p : Position) : (enterFunction p).Orderly s :=
  .of_watched (.enterFunction p) ((passage_tables s).enterFunction p)

theorem orderly_pushGlobal (model : Value) : (pushGlobal model).Orderly s :=
  .of_watched (.pushGlobal model) ((passage_tables s).pushGlobal model)

theorem orderly_enterLoop (p : Position) : (enterLoop p).Orderly s :=
  .of_leaves (.enterLoop p) fun _ => rfl

theorem orderly_pushOutput : pushOutput.Orderly s := .of_leaves .pushOutput fun _ => rfl

theorem orderly_pushSource (name : String) : (pushSource name).Orderly s :=
  .of_watched (.pushSource name) ((passage_tables s).pushSource name)

theorem orderly_exitFunction : exitFunction.Orderly s := by
  refine .of_leaves .exitFunction fun c => ?_
  unfold exitFunction
  split
  · rfl
  · split <;> rfl

theorem orderly_popGlobal : popGlobal.Orderly s := by
  refine .of_leaves .popGlobal fun c => ?_
  unfold popGlobal
  split <;> rfl

theorem orderly_exitLoop : exitLoop.Orderly s := by
  refine .of_leaves .exitLoop fun c => ?_
  unfold exitLoop
  split <;> rfl

theorem orderly_popOutput : popOutput.Orderly s := by
  refine .of_leaves .popOutput fun c => ?_
  unfold popOutput
  split <;> rfl

theorem orderly_popSource : popSource.Orderly s := by
  refine .of_leaves .popSource fun c => ?_
  unfold popSource
  split <;> rfl

end Action

namespace Region

theorem orderly_close (r : Region) : r.close.Orderly s := by
  cases r with
  | function => exact .bind orderly_exitFunction fun _ => .pure _
  | loop => exact .bind orderly_exitLoop fun _ => .pure _
  | global => exact orderly_popGlobal
  | output => exact .bind orderly_popOutput fun _ => .pure _
  | source => exact .bind orderly_popSource fun _ => .pure _

/-- Whatever is done in a region, closing it leaves the context in order. -/
theorem orderly_holding {α : Type} (r : Region) {opening : Action Unit} {x : Action α}
    (ho : opening.Orderly s) (hx : x.Orderly s) : (r.holding opening x).Orderly s := by
  intro c h
  by_cases hok : (opening c).1 = .ok ()
  · rw [holding_snd_of_ok (Prod.ext hok rfl)]
    exact r.orderly_close _ (hx _ (ho c h))
  · rw [holding_snd_of_not_ok fun _ => hok]
    exact ho c h

end Region

/-! ## Runs -/

theorem orderly_countedRound {prepare : Action Unit} {body : Action Flow}
    (hp : prepare.Orderly s) (h : body.Orderly s) :
    (Machine.countedRound prepare body).Orderly s :=
  .bind orderly_stepLoop fun _ => .bind hp fun _ => h

theorem orderly_bindRound (name : String) (length : Nat) (item : Value × Nat) :
    (Machine.bindRound name length item).Orderly s :=
  .bind (orderly_bindLoop _ _) fun _ =>
    .bind (Primitive.newMap _).orderly fun _ => orderly_bindLoop _ _

theorem orderly_whileBody {condition : Action Value} {body : Action Flow}
    (hc : condition.Orderly s) (h : body.Orderly s) :
    (Machine.whileBody condition body).Orderly s := by
  rw [Machine.whileBody_eq]
  refine .bind hc fun v => .bind (Primitive.inStore _).orderly fun holds => ?_
  split
  · exact .bind (orderly_countedRound (.pure ()) h) fun _ => .pure _
  · exact .pure _

theorem orderly_repeatRound {round : Action (Option Flow)} (h : round.Orderly s) (bound : Nat) :
    Action.Orderly s (Machine.repeatRound round bound) := by
  induction bound with
  | zero => exact fun _ h => h
  | succ n ih =>
    rw [Machine.repeatRound_succ]
    refine .bind h ?_
    intro flow
    match flow with
    | none => exact ih
    | some flow => exact .pure flow

/-- Every construct leaves the context in order. -/
def Congruence.orderly (s : Settings) : Congruence fun _ _ _ x _ => x.Orderly s where
  pure := .pure
  bind := .bind
  congr hx _ h := hx ▸ h
  up h := h
  primitive h := h.orderly
  suppress b _ _ h := h.withSuppression b
  text _ := .of_leaves (.silent fun _ => .same rfl rfl) fun _ => rfl
  function p _ _ h := Region.orderly_holding _ (orderly_enterFunction p) h
  global v _ _ h := Region.orderly_holding _ (orderly_pushGlobal v) h
  source name _ _ h := Region.orderly_holding _ (orderly_pushSource name) h
  output h := Region.orderly_holding _ orderly_pushOutput h
  loop p _ _ h := Region.orderly_holding _ (orderly_enterLoop p) h
  round name length item _ _ h := orderly_countedRound (orderly_bindRound name length item) h
  whileRounds hc h _ := orderly_repeatRound (orderly_whileBody hc h) _ _

/-- Whatever the machine is asked for leaves the context in order. -/
structure Machine.Orderly (s : Settings) (m : Machine) : Prop where
  run (b : Block) : (m.run b).Orderly s
  native (f : Native) (args : List Value) (p : Position) : (m.native f args p).Orderly s

/-- The operations of the host leave the context in order if what they ask for does. -/
def Host.Orderly (s : Settings) (host : Host) : Prop :=
  ∀ (f : Native) (m : Machine), m.Orderly s → ∀ args p, (host f m args p).Orderly s

theorem Host.none_orderly : Host.none.Orderly s := fun _ _ _ _ _ _ h => h

/-- Whatever runs leaves the context in order, by induction on the levels of calls. -/
theorem Host.Orderly.machine {host : Host} (h : host.Orderly s) (n : Nat) :
    (machine host n).Orderly s := by
  induction n with
  | zero => exact ⟨fun _ _ h => h, fun _ _ _ _ h => h⟩
  | succ n ih =>
    exact ⟨(Congruence.orderly s).block (n := TemplateEngine.machine host n) ih.run ih.native,
      fun f args p => h f _ ih args p⟩

/-! ## The life of a context -/

theorem HostCall.orderly {m : Machine} (h : m.Orderly s) (call : HostCall) :
    (call.act m).Orderly s := by
  have C := Congruence.orderly s
  cases call with
  | pushGlobal model => exact orderly_pushGlobal model
  | popGlobal => exact .bind orderly_popGlobal fun _ => .pure ()
  | enterFunction p => exact orderly_enterFunction p
  | exitFunction => exact orderly_exitFunction
  | enterLoop p => exact orderly_enterLoop p
  | exitLoop => exact orderly_exitLoop
  | stepLoop => exact orderly_stepLoop
  | pushOutput => exact orderly_pushOutput
  | popOutput => exact .bind orderly_popOutput fun _ => .pure ()
  | write ref v => exact (Primitive.writeVariable ref v).orderly
  | setReadOnly ref readOnly => exact orderly_setReadOnly ref readOnly
  | render t model => exact .bind (C.render (n := m) h.run h.native t model) fun _ => .pure ()
  | renderPath path model =>
    exact .bind (C.renderPath (n := m) h.run h.native path model) fun _ => .pure ()
  | execute b => exact .bind (C.block (n := m) h.run h.native b) fun _ => .pure ()
  | evaluate e => exact .bind (C.evaluate (n := m) h.run h.native e) fun _ => .pure ()
  | evaluateUninvoked e =>
    exact .bind (C.evaluateUninvoked (n := m) h.run h.native e) fun _ => .pure ()
  | assign e v => exact C.assign (n := m) h.run h.native e v
  | call f args p => exact .bind (C.call (n := m) h.run h.native f args p) fun _ => .pure ()

/-- What else the program around the engine does with a context: it changes what values of its own
refer to, and it uses the parts of a context one by one. -/
inductive HostWork
  | change (f : Store → Store)
  | read (ref : VarRef)
  | memberAccessor (v : Value)
  | sequenceAccessor (v : Value)
  | writeText (text : String)
  | writeValue (v : Value) (p : Position)
  | takeOutput
  | setOutputEnabled (enabled : Bool)
  | pushSource (name : String)
  | popSource
  | load (path : String) (p : Position)
  | cache (t : Template)
  | setMetadata (key : String) (datum : Metadatum)

namespace HostWork

/-- Does it, without what it gives. -/
def act : HostWork → Action Unit
  | change f => modify fun c => { c with store := f c.store }
  | read ref => do let _ ← readVariable ref
  | memberAccessor v => do let _ ← Action.memberAccessor v
  | sequenceAccessor v => do let _ ← Action.sequenceAccessor v
  | writeText text => Action.writeText text
  | writeValue v p => Action.writeValue v p
  | takeOutput => do let _ ← Action.takeOutput
  | setOutputEnabled enabled => Action.setOutputEnabled enabled
  | pushSource name => Action.pushSource name
  | popSource => do let _ ← Action.popSource
  | load path p => do let _ ← loadTemplate path p
  | cache t => cacheTemplate t
  | setMetadata key datum => modify fun c => { c with metadata := c.metadata.insert key datum }

theorem orderly (work : HostWork) : work.act.Orderly s := by
  cases work with
  | change f | writeText text | takeOutput | setOutputEnabled enabled | cache t
  | setMetadata key datum => exact fun c h => h.same rfl rfl rfl
  | read ref => exact .bind (Primitive.readVariable ref).orderly fun _ => .pure ()
  | memberAccessor v =>
    refine .bind (.of_watched ?_ (keepsTables_memberAccessor v)) fun _ => .pure ()
    exact .silent fun _ => .same rfl rfl
  | sequenceAccessor v => exact .bind (fun c h => h.same rfl rfl rfl) fun _ => .pure ()
  | writeValue v p => exact orderly_writeValue v p
  | pushSource name => exact orderly_pushSource name
  | popSource => exact .bind orderly_popSource fun _ => .pure ()
  | load path p => exact .bind (Primitive.load path p).orderly fun _ => .pure ()

end HostWork

/-- The contexts that the program around the engine can bring about: it opens a context and then
does with it what it likes, whether that fails or not. -/
inductive Context.Reached (host : Host) (s : Settings) : Context → Prop
  | opened : Reached host s s.newContext
  | called {c : Context} (n : Nat) (call : HostCall) :
    Reached host s c → Reached host s (call.act (machine host n) c).2
  | worked {c : Context} (work : HostWork) : Reached host s c → Reached host s (work.act c).2

/-- Every context that can be brought about is in order. -/
theorem Context.Reached.inOrder {host : Host} {c : Context} (hhost : host.Orderly s)
    (h : c.Reached host s) : c.InOrder s := by
  induction h with
  | opened => exact s.inOrder_newContext
  | called n call _ ih => exact call.orderly (hhost.machine n) _ ih
  | worked work _ ih => exact work.orderly _ ih

/-- The context with a model made and opened. -/
def Context.opening (c : Context) (make : Store → Value × Store) : Context :=
  (pushGlobal (make c.store).1 { c with store := (make c.store).2 }).2

theorem Context.Reached.opening {host : Host} {c : Context} (h : c.Reached host s)
    (make : Store → Value × Store) : (c.opening make).Reached host s :=
  .called 0 (.pushGlobal (make c.store).1) (.worked (.change fun σ => (make σ).2) h)

end TemplateEngine
