import TemplateEngine.Proofs.Evaluation.Primitive
import TemplateEngine.State.Region

/-!
# The foreground of a context

Some parts of a context belong to the code that is being run and not to what it works on: the frames
that are in use, and whether the outermost function is given instead of called. They are its
foreground. Most actions neither look at it nor change it (`Action.Unaware`): they do the same on
contexts that differ there only, and leave it as it is (`Action.Unaware.foreground`).
-/

namespace TemplateEngine

/-- The frames in use, and whether the outermost function is given instead of called. -/
structure Foreground where
  pool : FramePool
  locals : Stack Nat
  loops : List LoopFrame
  suppressed : Bool

namespace Context

/-- The foreground of a context. -/
def foreground (c : Context) : Foreground :=
  ⟨c.scopes.pool, c.scopes.locals, c.scopes.loops, c.suppressed⟩

/-- The context with another foreground. -/
def withForeground (c : Context) (f : Foreground) : Context :=
  { c with
    scopes := { c.scopes with pool := f.pool, locals := f.locals, loops := f.loops }
    suppressed := f.suppressed }

@[simp] theorem foreground_withForeground (c : Context) (f : Foreground) :
    (c.withForeground f).foreground = f := rfl

@[simp] theorem withForeground_foreground (c : Context) : c.withForeground c.foreground = c := rfl

@[simp] theorem store_withForeground (c : Context) (f : Foreground) :
    (c.withForeground f).store = c.store := rfl

end Context

namespace Action

variable {α β : Type}

/-- The action neither looks at the foreground nor changes it. -/
def Unaware (x : Action α) : Prop :=
  ∀ c f, x (c.withForeground f) = ((x c).1, (x c).2.withForeground f)

namespace Unaware

theorem foreground {x : Action α} (h : x.Unaware) (c : Context) :
    (x c).2.foreground = c.foreground := by
  have hc := h c c.foreground
  rw [Context.withForeground_foreground] at hc
  rw [hc, Context.foreground_withForeground]

/-! ## Putting actions together -/

theorem pure (a : α) : Unaware (pure a : Action α) := fun _ _ => rfl

theorem bind {x : Action α} {f : α → Action β} (hx : x.Unaware) (hf : ∀ a, (f a).Unaware) :
    (x >>= f).Unaware := by
  intro c g
  have hc := hx c g
  rcases h : x c with ⟨a | e | _, d⟩ <;> rw [h] at hc
  · rw [bind_of_ok h, bind_of_ok hc]
    exact hf a d g
  · rw [bind_of_error h, bind_of_error hc]
  · rw [bind_of_outOfFuel h, bind_of_outOfFuel hc]

theorem ite {p : Prop} [Decidable p] {x y : Action α} (hx : x.Unaware) (hy : y.Unaware) :
    (if p then x else y).Unaware := by
  split
  · exact hx
  · exact hy

theorem view {v : Context → α} (h : ∀ c f, v (c.withForeground f) = v c) : (view v).Unaware := by
  intro c f
  simp only [Action.view, h]

/-- What is done with the context as it is found. -/
theorem viewing {g : Context → Action α} (hg : ∀ c f, g (c.withForeground f) = g c)
    (h : ∀ c, (g c).Unaware) : (Action.view id >>= g).Unaware := by
  intro c f
  change g (c.withForeground f) (c.withForeground f) = _
  rw [hg c f]
  exact h c c f

theorem inStore (f : Store → α) : (inStore f).Unaware := view fun _ _ => rfl

theorem fail (e : EvalError) : Unaware (fail e : Action α) := fun _ _ => rfl

theorem failAt (p : Position) (fault : ScriptFault) : Unaware (failAt p fault : Action α) :=
  fail (.script p fault)

theorem onStore (f : Store → α × Store) : (onStore f).Unaware := fun _ _ => rfl

theorem tryView (p : Position) (f : Store → Except ScriptFault α) : (tryView p f).Unaware := by
  intro c g
  simp only [Action.tryView, Context.store_withForeground]
  cases f c.store <;> rfl

theorem tryStore (p : Position) (f : Store → Except ScriptFault (α × Store)) :
    (tryStore p f).Unaware := by
  intro c g
  simp only [Action.tryStore, Context.store_withForeground]
  cases f c.store <;> rfl

theorem toText (v : Value) (p : Position) : (toText v p).Unaware := tryView p _

theorem toInteger (v : Value) (p : Position) : (toInteger v p).Unaware := tryView p _

end Unaware

/-! ## Members and global names -/

theorem unaware_memberAccessor (target : Value) : (memberAccessor target).Unaware :=
  fun _ _ => rfl

theorem unaware_sequenceAccessor (target : Value) : (sequenceAccessor target).Unaware :=
  fun _ _ => rfl

theorem unaware_realise (a : Answer) : (realise a).Unaware := by
  cases a with
  | value v => exact .pure v
  | newFunction name operation => exact .onStore fun s => s.newNative name operation

theorem unaware_readMember (target : Value) (name : String) : (readMember target name).Unaware :=
  .bind (unaware_memberAccessor target) fun _ => .bind (.inStore _) unaware_realise

theorem unaware_writeMember (target : Value) (name : String) (v : Value) :
    (writeMember target name v).Unaware :=
  .bind (unaware_memberAccessor target) fun _ => .onStore _

theorem unaware_readGlobal (name : String) (gs : List GlobalFrame) :
    (readGlobal name gs).Unaware := by
  induction gs with
  | nil => exact .pure _
  | cons g rest ih => exact .bind (unaware_readMember g.model name) fun _ => .ite ih (.pure _)

theorem unaware_readVariable {ref : VarRef} (h : ref.scope = .global) :
    (readVariable ref).Unaware := by
  simp only [readVariable, h]
  exact .bind (.view fun _ _ => rfl) fun _ => unaware_readGlobal _ _

theorem unaware_writeVariable {ref : VarRef} (h : ref.scope = .global) (v : Value) :
    (writeVariable ref v).Unaware := by
  simp only [writeVariable, h]
  refine .bind (.view fun _ _ => rfl) fun g => .ite (.failAt _ _) ?_
  refine .bind (unaware_writeMember _ _ _) ?_
  intro r
  split
  · exact .pure _
  · exact .failAt _ _
  · exact .bind (.inStore _) fun _ => .failAt _ _

/-! ## Places -/

theorem unaware_ofMember (object : Value) (name : String) (target : Expr) (p : Position) :
    (Place.ofMember object name target p).Unaware :=
  .ite (.failAt _ _) (.ite (.bind (.inStore _) fun _ => .failAt _ _) (.pure _))

theorem unaware_ofKey (object key : Value) (q : Position) (target : Expr) (p : Position) :
    (Place.ofKey object key q target p).Unaware := by
  refine .ite (.failAt _ _) ?_
  split
  · exact .bind (.toText _ _) fun _ => .pure _
  · exact .bind (.toText _ _) fun _ => .pure _
  · refine .bind (unaware_sequenceAccessor _) ?_
    intro accessor
    cases accessor with
    | none => exact .bind (.inStore _) fun _ => .failAt _ _
    | some accessor => exact .bind (.toInteger _ _) fun _ => .pure _

theorem unaware_read (place : Place) : place.read.Unaware := by
  unfold Place.read
  cases place with
  | member object name target p => exact unaware_readMember object name
  | item accessor object index target p => exact .tryView p _

theorem unaware_write (v : Value) (place : Place) : (place.write v).Unaware := by
  unfold Place.write
  cases place with
  | member object name target p =>
    refine .bind (unaware_writeMember _ _ _) ?_
    intro r
    split
    · exact .pure _
    · exact .failAt _ _
    · exact .failAt _ _
  | item accessor object index target p => exact .tryStore p _

/-! ## Built-in functions -/

theorem unaware_textsOf (p : Position) (vs : List Value) : (Builtin.textsOf p vs).Unaware := by
  induction vs with
  | nil => exact .pure _
  | cons v rest ih => exact .bind (.toText v p) fun _ => .bind ih fun _ => .pure _

theorem unaware_rangeBounds (p : Position) (args : List Value) :
    (Builtin.rangeBounds p args).Unaware := by
  unfold Builtin.rangeBounds
  split
  · exact .failAt _ _
  · exact .bind (.toInteger _ _) fun _ => .pure _
  · exact .bind (.toInteger _ _) fun _ => .bind (.toInteger _ _) fun _ => .pure _

theorem unaware_rangeOf (args : List Value) (p : Position) :
    (Builtin.rangeOf args p).Unaware := by
  refine .bind (unaware_rangeBounds p args) fun ⟨start, stop⟩ => ?_
  have hstep : ∀ step : Int, Unaware
      (if step = 0 then failAt p (.type .rangeStep)
      else do
        let limit ← view fun c => c.limits.loops
        if limit < rangeCount start stop step then failAt p (.loopLimit limit)
        else onStore fun s => s.newList (rangeItems start stop step)) := fun step =>
    .ite (.failAt _ _) (.bind (.view fun _ _ => rfl) fun _ => .ite (.failAt _ _) (.onStore _))
  dsimp only
  split
  · exact .bind (.toInteger _ _) hstep
  · exact .bind (.pure _) hstep

theorem unaware_builtin (b : Builtin) (args : List Value) (p : Position) :
    (b.call args p).Unaware := by
  refine .ite (.failAt _ _) ?_
  cases b with
  | len => exact .bind (.tryView _ _) fun _ => .pure _
  | upper => exact .bind (.toText _ _) fun _ => .pure _
  | lower => exact .bind (.toText _ _) fun _ => .pure _
  | trim => exact .bind (.toText _ _) fun _ => .pure _
  | join =>
    exact .bind (.toText _ _) fun _ => .bind (.tryView _ _) fun _ =>
      .bind (unaware_textsOf _ _) fun _ => .pure _
  | range => exact unaware_rangeOf args p
  | keys => exact .bind (.tryView _ _) fun _ => .onStore _
  | default => exact .pure _
  | str => exact .bind (.toText _ _) fun _ => .pure _
  | int => exact .bind (.toInteger _ _) fun _ => .pure _

/-! ## Output, sources and templates -/

theorem unaware_writeText (text : String) : (writeText text).Unaware := fun _ _ => rfl

theorem unaware_writeValue (v : Value) (p : Position) : (writeValue v p).Unaware :=
  .ite (.pure _) (.bind (.toText v p) unaware_writeText)

theorem unaware_pushOutput : pushOutput.Unaware := fun _ _ => rfl

theorem unaware_popOutput : popOutput.Unaware := by
  intro c f
  simp only [popOutput, Context.withForeground]
  cases c.output.pop? <;> rfl

theorem unaware_pushSource (name : String) : (pushSource name).Unaware :=
  .ite (.fail _) fun _ _ => rfl

theorem unaware_popSource : popSource.Unaware := by
  intro c f
  unfold popSource
  rcases h : c.sources with _ | ⟨name, rest⟩ <;> simp [Context.withForeground, h]

theorem unaware_loadTemplate (path : String) (p : Position) : (loadTemplate path p).Unaware := by
  refine .viewing (fun _ _ => rfl) fun c => ?_
  split
  · exact .failAt _ _
  · split
    · exact .failAt _ _
    · split
      · exact .pure _
      · split
        · exact .failAt _ _
        · exact .bind (.onStore _) fun t => .bind (fun _ _ => rfl) fun _ => .pure t

end Action

end TemplateEngine
