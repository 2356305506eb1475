import TemplateEngine.Proofs.Evaluation.Congruence

/-!
# What is done without the output

Most actions neither look at the output nor change it (`Action.IgnoresOutput`): on contexts that
differ there only they do the same and leave the output as it is. All primitive actions are of this
kind (`Action.Primitive.ignoresOutput`), and so is what opens and closes every region but a buffer.
-/

namespace TemplateEngine

/-- The context with another output. -/
def Context.withOutput (c : Context) (o : Output) : Context := { c with output := o }

namespace Action

variable {α β : Type}

/-- The action neither looks at the output nor changes it. -/
def IgnoresOutput (x : Action α) : Prop :=
  ∀ c o, x (c.withOutput o) = ((x c).1, (x c).2.withOutput o)

namespace IgnoresOutput

/-! ## Putting actions together -/

theorem pure (a : α) : IgnoresOutput (pure a : Action α) := fun _ _ => rfl

theorem bind {x : Action α} {f : α → Action β} (hx : x.IgnoresOutput)
    (hf : ∀ a, (f a).IgnoresOutput) : (x >>= f).IgnoresOutput := by
  intro c o
  have hc := hx c o
  rcases h : x c with ⟨a | e | _, d⟩ <;> rw [h] at hc
  · rw [bind_of_ok h, bind_of_ok hc]
    exact hf a d o
  · rw [bind_of_error h, bind_of_error hc]
  · rw [bind_of_outOfFuel h, bind_of_outOfFuel hc]

theorem ite {p : Prop} [Decidable p] {x y : Action α} (hx : x.IgnoresOutput)
    (hy : y.IgnoresOutput) : (if p then x else y).IgnoresOutput := by
  split
  · exact hx
  · exact hy

theorem view {v : Context → α} (h : ∀ c o, v (c.withOutput o) = v c) :
    (view v).IgnoresOutput := by
  intro c o
  simp only [Action.view, h]

/-- What is done with the context as it is found. -/
theorem viewing {g : Context → Action α} (hg : ∀ c o, g (c.withOutput o) = g c)
    (h : ∀ c, (g c).IgnoresOutput) : (Action.view id >>= g).IgnoresOutput := by
  intro c o
  change g (c.withOutput o) (c.withOutput o) = _
  rw [hg c o]
  exact h c c o

theorem modify {f : Context → Context}
    (h : ∀ c o, f (c.withOutput o) = (f c).withOutput o) : (modify f).IgnoresOutput := by
  intro c o
  simp only [Action.modify, h]

theorem inStore (f : Store → α) : (inStore f).IgnoresOutput := view fun _ _ => rfl

theorem fail (e : EvalError) : IgnoresOutput (fail e : Action α) := fun _ _ => rfl

theorem failAt (p : Position) (fault : ScriptFault) : IgnoresOutput (failAt p fault : Action α) :=
  fail (.script p fault)

theorem onStore (f : Store → α × Store) : (onStore f).IgnoresOutput := fun _ _ => rfl

theorem tryView (p : Position) (f : Store → Except ScriptFault α) :
    (tryView p f).IgnoresOutput := by
  intro c o
  simp only [Action.tryView, Context.withOutput]
  cases f c.store <;> rfl

theorem tryStore (p : Position) (f : Store → Except ScriptFault (α × Store)) :
    (tryStore p f).IgnoresOutput := by
  intro c o
  simp only [Action.tryStore, Context.withOutput]
  cases f c.store <;> rfl

theorem toText (v : Value) (p : Position) : (toText v p).IgnoresOutput := tryView p _

theorem toInteger (v : Value) (p : Position) : (toInteger v p).IgnoresOutput := tryView p _

end IgnoresOutput

/-! ## Members and variables -/

theorem ignoresOutput_readMember (target : Value) (name : String) :
    (readMember target name).IgnoresOutput := by
  refine .bind (fun _ _ => rfl) fun _ => .bind (.inStore _) fun answer => ?_
  cases answer with
  | value v => exact .pure v
  | newFunction name operation => exact .onStore fun s => s.newNative name operation

theorem ignoresOutput_writeMember (target : Value) (name : String) (v : Value) :
    (writeMember target name v).IgnoresOutput :=
  .bind (fun _ _ => rfl) fun _ => .onStore _

theorem ignoresOutput_readGlobal (name : String) (gs : List GlobalFrame) :
    (readGlobal name gs).IgnoresOutput := by
  induction gs with
  | nil => exact .pure _
  | cons g rest ih =>
    exact .bind (ignoresOutput_readMember g.model name) fun _ => .ite ih (.pure _)

theorem ignoresOutput_readVariable (ref : VarRef) : (readVariable ref).IgnoresOutput := by
  unfold readVariable
  split
  · exact .bind (.view fun _ _ => rfl) fun _ => ignoresOutput_readGlobal _ _
  · exact .view fun _ _ => rfl
  · refine .bind (.view fun _ _ => rfl) ?_
    intro frame
    cases frame with
    | none => exact .failAt _ _
    | some frame => exact .pure _

theorem ignoresOutput_writeVariable (ref : VarRef) (v : Value) :
    (writeVariable ref v).IgnoresOutput := by
  unfold writeVariable
  split
  · refine .bind (.view fun _ _ => rfl) fun g => .ite (.failAt _ _) ?_
    refine .bind (ignoresOutput_writeMember _ _ _) ?_
    intro r
    split
    · exact .pure _
    · exact .failAt _ _
    · exact .bind (.inStore _) fun _ => .failAt _ _
  · refine .bind (.view fun _ _ => rfl) ?_
    intro frame
    split
    · exact .modify fun _ _ => rfl
    · exact .failAt _ _
  · refine .bind (.view fun _ _ => rfl) ?_
    intro frame
    split
    · exact .failAt _ _
    · split
      · exact .modify fun _ _ => rfl
      · exact .failAt _ _

/-! ## Places -/

theorem ignoresOutput_ofMember (object : Value) (name : String) (target : Expr) (p : Position) :
    (Place.ofMember object name target p).IgnoresOutput :=
  .ite (.failAt _ _) (.ite (.bind (.inStore _) fun _ => .failAt _ _) (.pure _))

theorem ignoresOutput_ofKey (object key : Value) (q : Position) (target : Expr) (p : Position) :
    (Place.ofKey object key q target p).IgnoresOutput := by
  refine .ite (.failAt _ _) ?_
  split
  · exact .bind (.toText _ _) fun _ => .pure _
  · exact .bind (.toText _ _) fun _ => .pure _
  · refine .bind (fun _ _ => rfl) ?_
    intro accessor
    cases accessor with
    | none => exact .bind (.inStore _) fun _ => .failAt _ _
    | some accessor => exact .bind (.toInteger _ _) fun _ => .pure _

theorem ignoresOutput_read (place : Place) : place.read.IgnoresOutput := by
  unfold Place.read
  cases place with
  | member object name target p => exact ignoresOutput_readMember object name
  | item accessor object index target p => exact .tryView p _

theorem ignoresOutput_write (v : Value) (place : Place) : (place.write v).IgnoresOutput := by
  unfold Place.write
  cases place with
  | member object name target p =>
    refine .bind (ignoresOutput_writeMember _ _ _) ?_
    intro r
    split
    · exact .pure _
    · exact .failAt _ _
    · exact .failAt _ _
  | item accessor object index target p => exact .tryStore p _

/-! ## Built-in functions and templates -/

theorem ignoresOutput_textsOf (p : Position) (vs : List Value) :
    (Builtin.textsOf p vs).IgnoresOutput := by
  induction vs with
  | nil => exact .pure _
  | cons v rest ih => exact .bind (.toText v p) fun _ => .bind ih fun _ => .pure _

theorem ignoresOutput_rangeOf (args : List Value) (p : Position) :
    (Builtin.rangeOf args p).IgnoresOutput := by
  have hbounds : (Builtin.rangeBounds p args).IgnoresOutput := by
    unfold Builtin.rangeBounds
    split
    · exact .failAt _ _
    · exact .bind (.toInteger _ _) fun _ => .pure _
    · exact .bind (.toInteger _ _) fun _ => .bind (.toInteger _ _) fun _ => .pure _
  refine .bind hbounds fun ⟨start, stop⟩ => ?_
  have hstep : ∀ step : Int, IgnoresOutput
      (if step = 0 then failAt p (.type .rangeStep)
      else do
        let limit ← view fun c => c.limits.loops
        if limit < rangeCount start stop step then failAt p (.loopLimit limit)
        else onStore fun s => s.newList (rangeItems start stop step)) := fun step =>
    .ite (.failAt _ _) <| .bind (.view fun _ _ => rfl) fun _ => .ite (.failAt _ _) (.onStore _)
  dsimp only
  split
  · exact .bind (.toInteger _ _) hstep
  · exact .bind (.pure _) hstep

theorem ignoresOutput_builtin (b : Builtin) (args : List Value) (p : Position) :
    (b.call args p).IgnoresOutput := by
  refine .ite (.failAt _ _) ?_
  cases b with
  | len => exact .bind (.tryView _ _) fun _ => .pure _
  | upper | lower | trim | str => exact .bind (.toText _ _) fun _ => .pure _
  | join =>
    exact .bind (.toText _ _) fun _ => .bind (.tryView _ _) fun _ =>
      .bind (ignoresOutput_textsOf _ _) fun _ => .pure _
  | range => exact ignoresOutput_rangeOf args p
  | keys => exact .bind (.tryView _ _) fun _ => .onStore _
  | default => exact .pure _
  | int => exact .bind (.toInteger _ _) fun _ => .pure _

theorem ignoresOutput_loadTemplate (path : String) (p : Position) :
    (loadTemplate path p).IgnoresOutput := by
  refine .viewing (fun _ _ => rfl) fun c => ?_
  split
  · exact .failAt _ _
  · split
    · exact .failAt _ _
    · split
      · exact .pure _
      · split
        · exact .failAt _ _
        · exact .bind (.onStore _) fun t => .bind (fun _ _ => rfl) fun _ => .pure t

theorem ignoresOutput_inheritLoop : inheritLoop.IgnoresOutput := .modify fun _ _ => rfl

theorem Primitive.ignoresOutput {x : Action α} (h : x.Primitive) : x.IgnoresOutput := by
  cases h with
  | suppressed => exact .view fun _ _ => rfl
  | failAt p fault => exact .failAt p fault
  | inStore f => exact .inStore f
  | tryView p f => exact .tryView p f
  | newList vs => exact .onStore _
  | newMap d => exact .onStore _
  | newNamespace f => exact .onStore _
  | bindLocal name v => exact .modify fun _ _ => rfl
  | inheritLoop => exact ignoresOutput_inheritLoop
  | binary p op a b => exact .tryStore p _
  | readVariable ref => exact ignoresOutput_readVariable ref
  | writeVariable ref v => exact ignoresOutput_writeVariable ref v
  | ofMember object name target p => exact ignoresOutput_ofMember object name target p
  | ofKey object key q target p => exact ignoresOutput_ofKey object key q target p
  | read place => exact ignoresOutput_read place
  | write v place => exact ignoresOutput_write v place
  | builtin b args p => exact ignoresOutput_builtin b args p
  | load path p => exact ignoresOutput_loadTemplate path p

/-! ## Regions and rounds -/

theorem ignoresOutput_enterFunction (p : Position) : (enterFunction p).IgnoresOutput := by
  intro c o
  unfold enterFunction
  by_cases h : c.scopes.depth < c.limits.depth <;> simp [Context.withOutput, h]

theorem ignoresOutput_pushGlobal (model : Value) : (pushGlobal model).IgnoresOutput :=
  .ite (.fail _) (.modify fun _ _ => rfl)

theorem ignoresOutput_pushSource (name : String) : (pushSource name).IgnoresOutput :=
  .ite (.fail _) (.modify fun _ _ => rfl)

theorem ignoresOutput_enterLoop (p : Position) : (enterLoop p).IgnoresOutput :=
  .modify fun _ _ => rfl

theorem ignoresOutput_close {r : Region} (h : r ≠ .output) : r.close.IgnoresOutput := by
  cases r with
  | function =>
    refine .bind (fun c o => ?_) fun _ => .pure _
    unfold exitFunction
    by_cases h : c.scopes.depth = 0
    · simp [Context.withOutput, h]
    · simp only [Context.withOutput, h, if_false]
      cases c.scopes.popLocal? <;> rfl
  | loop =>
    refine .bind (fun c o => ?_) fun _ => .pure _
    simp only [exitLoop, Context.withOutput]
    cases c.scopes.popLoop? <;> rfl
  | global =>
    intro c o
    simp only [Region.close, popGlobal, Context.withOutput]
    cases c.scopes.popGlobal? <;> rfl
  | output => exact absurd rfl h
  | source =>
    refine .bind (fun c o => ?_) fun _ => .pure _
    unfold popSource
    rcases h : c.sources with _ | ⟨name, rest⟩ <;> simp [Context.withOutput, h]

theorem ignoresOutput_stepLoop : stepLoop.IgnoresOutput := by
  intro c o
  unfold stepLoop
  by_cases h : c.scopes.iterations < c.limits.loops <;> simp [Context.withOutput, h]

theorem ignoresOutput_bindRound (name : String) (length : Nat) (item : Value × Nat) :
    (Machine.bindRound name length item).IgnoresOutput := by
  have hbind (name : String) (v : Value) : (bindLoop name v).IgnoresOutput := by
    intro c o
    simp only [bindLoop, Context.withOutput]
    cases c.scopes.loopFrame? <;> rfl
  exact .bind (hbind _ _) fun _ => .bind (.onStore _) fun _ => hbind _ _

end Action

end TemplateEngine
