import TemplateEngine.Semantics.Execute

/-!
# Primitive actions

Evaluation is put together from actions that work on what values refer to and on what frames bind,
and that open and close nothing. They are listed once (`Action.Primitive`), and whatever they do,
they leave the context standing where it is: the stacks, the counters, the output and the settings
are as they were (`Action.Primitive.still`), and they end with a result or with an error
(`Action.Primitive.finishes`).

An action leaves a component of the context alone if it is the same afterwards, however the action
ends (`Action.Leaves`). Closing a region works on the scopes, the output or the sources, and leaves
everything else alone (`Region.close_leaves`).
-/

namespace TemplateEngine

namespace Context

/-- The second context is the first one up to what values refer to, what frames bind, the rules
for members and items found so far, and the templates loaded so far. -/
def Still (c d : Context) : Prop :=
  { c with
    store := d.store, members := d.members, sequences := d.sequences, templates := d.templates,
    scopes := { c.scopes with pool := d.scopes.pool } } = d

namespace Still

variable {c d e : Context}

theorem refl (c : Context) : c.Still c := rfl

theorem trans (h : c.Still d) (k : d.Still e) : c.Still e := by
  unfold Still at *
  rw [← k, ← h]

theorem globals (h : c.Still d) : d.scopes.globals = c.scopes.globals := by rw [← h]

theorem locals (h : c.Still d) : d.scopes.locals = c.scopes.locals := by rw [← h]

theorem loops (h : c.Still d) : d.scopes.loops = c.scopes.loops := by rw [← h]

theorem depth (h : c.Still d) : d.scopes.depth = c.scopes.depth := by rw [← h]

theorem iterations (h : c.Still d) : d.scopes.iterations = c.scopes.iterations := by rw [← h]

theorem output (h : c.Still d) : d.output = c.output := by rw [← h]

theorem sources (h : c.Still d) : d.sources = c.sources := by rw [← h]

theorem limits (h : c.Still d) : d.limits = c.limits := by rw [← h]

theorem suppressed (h : c.Still d) : d.suppressed = c.suppressed := by rw [← h]

end Still

end Context

namespace Action

variable {α β : Type}

instance : LawfulMonad Action := .mk' Action
  (fun x => by
    funext c
    change Action.bind x (fun a => Action.pure a) c = x c
    unfold Action.bind Action.pure
    rcases x c with ⟨a | e | _, d⟩ <;> rfl)
  (fun _ _ => rfl)
  (fun x f g => by
    funext c
    simp only [bind_apply]
    rcases x c with ⟨a | e | _, d⟩ <;> rfl)

/-- An action that goes on has a result only through a result of its first part. -/
theorem bind_eq_ok {x : Action α} {f : α → Action β} {c d : Context} {b : β} :
    (x >>= f) c = (.ok b, d) ↔ ∃ a e, x c = (.ok a, e) ∧ f a e = (.ok b, d) := by
  rcases h : x c with ⟨a | e | _, c'⟩
  · simp [bind_of_ok h, and_assoc]
  · simp [bind_of_error h]
  · simp [bind_of_outOfFuel h]

/-! ## The list -/

/-- The actions that open and close nothing and write nothing. -/
inductive Primitive : ∀ {α : Type}, Action α → Prop
  | suppressed : Primitive (view fun c => c.suppressed)
  | failAt {α : Type} (p : Position) (fault : ScriptFault) : Primitive (failAt p fault : Action α)
  | inStore {α : Type} (f : Store → α) : Primitive (inStore f)
  | tryView {α : Type} (p : Position) (f : Store → Except ScriptFault α) :
    Primitive (tryView p f)
  | newList (vs : List Value) : Primitive (onStore fun s => s.newList vs)
  | newMap (d : Dictionary Value) : Primitive (onStore fun s => s.newMap d)
  | newNamespace (f : Frame) : Primitive (onStore fun s => s.newNamespace f)
  | bindLocal (name : String) (v : Value) : Primitive (bindLocal name v)
  | inheritLoop : Primitive inheritLoop
  | binary (p : Position) (op : BinaryOp) (a b : Value) :
    Primitive (tryStore p fun s => s.binary op a b)
  | readVariable (ref : VarRef) : Primitive (readVariable ref)
  | writeVariable (ref : VarRef) (v : Value) : Primitive (writeVariable ref v)
  | ofMember (object : Value) (name : String) (target : Expr) (p : Position) :
    Primitive (Place.ofMember object name target p)
  | ofKey (object key : Value) (q : Position) (target : Expr) (p : Position) :
    Primitive (Place.ofKey object key q target p)
  | read (place : Place) : Primitive place.read
  | write (v : Value) (place : Place) : Primitive (place.write v)
  | builtin (b : Builtin) (args : List Value) (p : Position) : Primitive (b.call args p)
  | load (path : String) (p : Position) : Primitive (loadTemplate path p)

/-! ## What all of them keep -/

/-- The action ends with a result or an error, and leaves the context standing where it is. -/
def Quiet (x : Action α) : Prop := ∀ c, (x c).1 ≠ .outOfFuel ∧ c.Still (x c).2

namespace Quiet

theorem pure (a : α) : Quiet (pure a : Action α) := fun c => ⟨nofun, .refl c⟩

theorem bind {x : Action α} {f : α → Action β} (hx : x.Quiet) (hf : ∀ a, (f a).Quiet) :
    (x >>= f).Quiet := by
  intro c
  obtain ⟨hr, hc⟩ := hx c
  cases h : x c with
  | mk r d =>
    rw [h] at hr hc
    cases r with
    | ok a =>
      rw [bind_of_ok h]
      exact ⟨(hf a d).1, hc.trans (hf a d).2⟩
    | error e =>
      rw [bind_of_error h]
      exact ⟨nofun, hc⟩
    | outOfFuel => exact absurd rfl hr

theorem ite {p : Prop} [Decidable p] {x y : Action α} (hx : x.Quiet) (hy : y.Quiet) :
    (if p then x else y).Quiet := by
  split
  · exact hx
  · exact hy

theorem view (f : Context → α) : Quiet (view f) := fun c => ⟨nofun, .refl c⟩

theorem fail (e : EvalError) : Quiet (fail e : Action α) := fun c => ⟨nofun, .refl c⟩

theorem failAt (p : Position) (fault : ScriptFault) : Quiet (failAt p fault : Action α) :=
  fail (.script p fault)

theorem onStore (f : Store → α × Store) : Quiet (onStore f) := fun _ => ⟨nofun, rfl⟩

theorem tryView (p : Position) (f : Store → Except ScriptFault α) : Quiet (tryView p f) := by
  intro c
  unfold Action.tryView
  split
  · exact ⟨nofun, .refl c⟩
  · exact ⟨nofun, .refl c⟩

theorem tryStore (p : Position) (f : Store → Except ScriptFault (α × Store)) :
    Quiet (tryStore p f) := by
  intro c
  unfold Action.tryStore
  split
  · exact ⟨nofun, rfl⟩
  · exact ⟨nofun, .refl c⟩

end Quiet

/-! ### Members and variables -/

theorem quiet_memberAccessor (target : Value) : (memberAccessor target).Quiet :=
  fun _ => ⟨nofun, rfl⟩

theorem quiet_sequenceAccessor (target : Value) : (sequenceAccessor target).Quiet :=
  fun _ => ⟨nofun, rfl⟩

theorem quiet_realise (a : Answer) : (realise a).Quiet := by
  cases a with
  | value v => exact .pure v
  | newFunction name operation => exact .onStore _

theorem quiet_readMember (target : Value) (name : String) : (readMember target name).Quiet :=
  .bind (quiet_memberAccessor target) fun _ => .bind (.view _) quiet_realise

theorem quiet_writeMember (target : Value) (name : String) (v : Value) :
    (writeMember target name v).Quiet :=
  .bind (quiet_memberAccessor target) fun _ => .onStore _

theorem quiet_readGlobal (name : String) (gs : List GlobalFrame) : (readGlobal name gs).Quiet := by
  induction gs with
  | nil => exact .pure _
  | cons g rest ih => exact .bind (quiet_readMember g.model name) fun _ => .ite ih (.pure _)

theorem quiet_readVariable (ref : VarRef) : (readVariable ref).Quiet := by
  unfold readVariable
  split
  · exact .bind (.view _) fun _ => quiet_readGlobal _ _
  · exact .view _
  · refine .bind (.view _) ?_
    intro frame
    cases frame with
    | none => exact .failAt _ _
    | some frame => exact .pure _

/-- Changing what a local frame binds is quiet. -/
theorem quiet_setLocalFrame (f : Context → Frame) :
    (modify fun c => { c with scopes := c.scopes.setLocalFrame (f c) }).Quiet :=
  fun _ => ⟨nofun, rfl⟩

theorem still_setLoopFrame (c : Context) (f : Frame) :
    c.Still { c with scopes := c.scopes.setLoopFrame f } := by
  unfold Scopes.setLoopFrame
  split
  · exact .refl c
  · rfl

theorem quiet_writeVariable (ref : VarRef) (v : Value) : (writeVariable ref v).Quiet := by
  unfold writeVariable
  split
  · refine .bind (.view _) fun g => .ite (.failAt _ _) ?_
    refine .bind (quiet_writeMember _ _ _) ?_
    intro r
    split
    · exact .pure _
    · exact .failAt _ _
    · exact .bind (.view _) fun _ => .failAt _ _
  · refine .bind (.view _) ?_
    intro frame
    split
    · exact quiet_setLocalFrame _
    · exact .failAt _ _
  · refine .bind (.view _) ?_
    intro frame
    split
    · exact .failAt _ _
    · split
      · exact fun c => ⟨nofun, still_setLoopFrame c _⟩
      · exact .failAt _ _

/-! ### Loops -/

theorem quiet_bindLoop (name : String) (v : Value) : (bindLoop name v).Quiet := by
  intro c
  unfold bindLoop
  split
  · exact ⟨nofun, still_setLoopFrame c _⟩
  · exact ⟨nofun, .refl c⟩

theorem quiet_inheritLoop : inheritLoop.Quiet := by
  refine fun c => ⟨nofun, ?_⟩
  unfold inheritLoop modify Scopes.inheritLoop
  dsimp only
  split
  · rfl
  · exact .refl c

/-! ### Places -/

theorem quiet_toText (v : Value) (p : Position) : (toText v p).Quiet := .tryView p _

theorem quiet_toInteger (v : Value) (p : Position) : (toInteger v p).Quiet := .tryView p _

theorem quiet_ofMember (object : Value) (name : String) (target : Expr) (p : Position) :
    (Place.ofMember object name target p).Quiet :=
  .ite (.failAt _ _) (.ite (.bind (.view _) fun _ => .failAt _ _) (.pure _))

theorem quiet_ofKey (object key : Value) (q : Position) (target : Expr) (p : Position) :
    (Place.ofKey object key q target p).Quiet := by
  refine .ite (.failAt _ _) ?_
  split
  · exact .bind (quiet_toText _ _) fun _ => .pure _
  · exact .bind (quiet_toText _ _) fun _ => .pure _
  · refine .bind (quiet_sequenceAccessor _) ?_
    intro accessor
    cases accessor with
    | none => exact .bind (.view _) fun _ => .failAt _ _
    | some accessor => exact .bind (quiet_toInteger _ _) fun _ => .pure _

theorem quiet_read (place : Place) : place.read.Quiet := by
  cases place with
  | member object name target p => exact quiet_readMember object name
  | item accessor object index target p => exact .tryView p _

theorem quiet_write (v : Value) (place : Place) : (place.write v).Quiet := by
  cases place with
  | member object name target p =>
    refine .bind (quiet_writeMember _ _ _) ?_
    intro r
    split
    · exact .pure _
    · exact .failAt _ _
    · exact .failAt _ _
  | item accessor object index target p => exact .tryStore p _

/-! ### Built-in functions -/

theorem quiet_textsOf (p : Position) (vs : List Value) : (Builtin.textsOf p vs).Quiet := by
  induction vs with
  | nil => exact .pure _
  | cons v rest ih => exact .bind (quiet_toText v p) fun _ => .bind ih fun _ => .pure _

theorem quiet_rangeBounds (p : Position) (args : List Value) :
    (Builtin.rangeBounds p args).Quiet := by
  unfold Builtin.rangeBounds
  split
  · exact .failAt _ _
  · exact .bind (quiet_toInteger _ _) fun _ => .pure _
  · exact .bind (quiet_toInteger _ _) fun _ => .bind (quiet_toInteger _ _) fun _ => .pure _

theorem quiet_rangeOf (args : List Value) (p : Position) : (Builtin.rangeOf args p).Quiet := by
  refine .bind (quiet_rangeBounds p args) fun ⟨start, stop⟩ => ?_
  have hstep : ∀ step : Int, Quiet
      (if step = 0 then failAt p (.type .rangeStep)
      else do
        let limit ← view fun c => c.limits.loops
        if limit < rangeCount start stop step then failAt p (.loopLimit limit)
        else onStore fun s => s.newList (rangeItems start stop step)) := fun step =>
    .ite (.failAt _ _) (.bind (.view _) fun limit => .ite (.failAt _ _) (.onStore _))
  dsimp only
  split
  · exact .bind (quiet_toInteger _ _) hstep
  · exact .bind (.pure _) hstep

theorem quiet_builtin (b : Builtin) (args : List Value) (p : Position) : (b.call args p).Quiet := by
  refine .ite (.failAt _ _) ?_
  cases b with
  | len => exact .bind (.tryView _ _) fun _ => .pure _
  | upper => exact .bind (quiet_toText _ _) fun _ => .pure _
  | lower => exact .bind (quiet_toText _ _) fun _ => .pure _
  | trim => exact .bind (quiet_toText _ _) fun _ => .pure _
  | join =>
    exact .bind (quiet_toText _ _) fun _ => .bind (.tryView _ _) fun _ =>
      .bind (quiet_textsOf _ _) fun _ => .pure _
  | range => exact quiet_rangeOf args p
  | keys => exact .bind (.tryView _ _) fun _ => .onStore _
  | default => exact .pure _
  | str => exact .bind (quiet_toText _ _) fun _ => .pure _
  | int => exact .bind (quiet_toInteger _ _) fun _ => .pure _

/-! ### Templates -/

theorem quiet_loadTemplate (path : String) (p : Position) : (loadTemplate path p).Quiet := by
  refine .bind (.view _) ?_
  intro c
  split
  · exact .failAt _ _
  · split
    · exact .failAt _ _
    · split
      · exact .pure _
      · split
        · exact .failAt _ _
        · exact .bind (.onStore _) fun t => .bind (fun _ => ⟨nofun, rfl⟩) fun _ => .pure t

/-! ## All of them -/

theorem Primitive.quiet {x : Action α} (h : x.Primitive) : x.Quiet := by
  cases h with
  | suppressed => exact .view _
  | failAt p fault => exact .failAt p fault
  | inStore f => exact .view _
  | tryView p f => exact .tryView p f
  | newList vs => exact .onStore _
  | newMap d => exact .onStore _
  | newNamespace f => exact .onStore _
  | bindLocal name v => exact quiet_setLocalFrame _
  | inheritLoop => exact quiet_inheritLoop
  | binary p op a b => exact .tryStore p _
  | readVariable ref => exact quiet_readVariable ref
  | writeVariable ref v => exact quiet_writeVariable ref v
  | ofMember object name target p => exact quiet_ofMember object name target p
  | ofKey object key q target p => exact quiet_ofKey object key q target p
  | read place => exact quiet_read place
  | write v place => exact quiet_write v place
  | builtin b args p => exact quiet_builtin b args p
  | load path p => exact quiet_loadTemplate path p

theorem Primitive.still {x : Action α} (h : x.Primitive) (c : Context) : c.Still (x c).2 :=
  (h.quiet c).2

theorem Primitive.finishes {x : Action α} (h : x.Primitive) (c : Context) :
    (x c).1 ≠ .outOfFuel := (h.quiet c).1

/-! ## Components that are left alone -/

variable {γ : Type} {f : Context → γ}

/-- What holds after one action and is kept by what it goes on with holds after both, however they
end. -/
theorem holds_after_bind {P : Context → Prop} {x : Action α} {g : α → Action β} {c : Context}
    (hx : P (x c).2) (hg : ∀ a d, P d → P (g a d).2) : P ((x >>= g) c).2 := by
  rcases h : x c with ⟨a | e | _, d⟩ <;> rw [h] at hx
  · rw [bind_of_ok h]
    exact hg a d hx
  · rw [bind_of_error h]
    exact hx
  · rw [bind_of_outOfFuel h]
    exact hx

/-- However the action ends, the component is the same as before. -/
def Leaves (f : Context → γ) (x : Action α) : Prop := ∀ c : Context, f (x c).2 = f c

namespace Leaves

protected theorem pure (a : α) : Leaves f (pure a : Action α) := fun _ => rfl

theorem bind {x : Action α} {g : α → Action β} (hx : x.Leaves f) (hg : ∀ a, (g a).Leaves f) :
    (x >>= g).Leaves f := fun c =>
  holds_after_bind (P := fun d => f d = f c) (hx c) fun a d hd => (hg a d).trans hd

end Leaves

end Action

open TemplateEngine.Action

/-- Closing a region leaves a component alone that is none of those that are closed. -/
theorem Region.close_leaves {γ : Type} {f : Context → γ} (r : Region)
    (hscopes : ∀ (c : Context) (scopes : Scopes), f { c with scopes := scopes } = f c)
    (houtput : ∀ (c : Context) (output : Output), f { c with output := output } = f c)
    (hsources : r = .source →
      ∀ (c : Context) (sources : List String), f { c with sources := sources } = f c) :
    r.close.Leaves f := by
  cases r with
  | function =>
    refine .bind (fun c => ?_) fun _ => .pure _
    unfold exitFunction
    split
    · rfl
    · split
      · exact hscopes c _
      · rfl
  | loop =>
    refine .bind (fun c => ?_) fun _ => .pure _
    unfold exitLoop
    split
    · exact hscopes c _
    · rfl
  | global =>
    intro c
    unfold close popGlobal
    dsimp only
    split
    · exact hscopes c _
    · rfl
  | output =>
    refine .bind (fun c => ?_) fun _ => .pure _
    unfold popOutput
    split
    · exact houtput c _
    · rfl
  | source =>
    refine .bind (fun c => ?_) fun _ => .pure _
    unfold popSource
    split
    · exact hsources rfl c _
    · rfl

end TemplateEngine
