import TemplateEngine.Proofs.Evaluation.Primitive

/-!
# Actions that let everything last

Most of what evaluation does takes nothing back: it looks things up, makes values that were not
there before, counts, and writes text. What frames bind, which models are open and what every place
holds is afterwards as it was (`Context.Lasts`). Of the primitive actions all are of this kind but
assignments and what binds names in frames.
-/

namespace TemplateEngine

/-- Every place that was there holds what it held. -/
def Store.Adds (s t : Store) : Prop := ∀ r x, s.cell? r = some x → t.cell? r = some x

namespace Store.Adds

variable {s t u : Store}

theorem refl (s : Store) : s.Adds s := fun _ _ h => h

theorem trans (h : s.Adds t) (k : t.Adds u) : s.Adds u := fun r x hx => k r x (h r x hx)

theorem alloc (s : Store) (x : Cell) : s.Adds (s.alloc x).2 := fun r y hy => by
  have hr : r < s.cells.size := (Array.getElem?_eq_some_iff.1 hy).1
  rw [cell?_alloc, if_neg (Nat.ne_of_lt hr), hy]

/-- An operator makes a new list at most. -/
theorem binary {op : BinaryOp} {a b v : Value} (h : s.binary op a b = .ok (v, t)) : s.Adds t := by
  have hsame {r : Except ScriptFault Value} (hr : (r.map fun v => (v, s)) = .ok (v, t)) :
      s.Adds t := by
    cases r <;> cases hr
    exact .refl s
  cases op with
  | add =>
    simp only [Store.binary, Store.add] at h
    split at h
    · exact hsame h
    · exact hsame h
    · cases h
      exact .alloc s _
    · exact hsame h
  | and | or =>
    cases h
    exact .refl s
  | _ => exact hsame h

end Store.Adds

/-- Nothing but rounds was counted in the scopes, and places were only added. -/
structure Context.Lasts (c d : Context) : Prop where
  scopes : d.scopes = { c.scopes with iterations := d.scopes.iterations }
  store : c.store.Adds d.store

namespace Context.Lasts

variable {c d e : Context}

theorem refl (c : Context) : c.Lasts c := ⟨rfl, .refl _⟩

theorem trans (h : c.Lasts d) (k : d.Lasts e) : c.Lasts e :=
  ⟨by rw [k.scopes, h.scopes], h.store.trans k.store⟩

/-- Neither the scopes nor the store were worked on. -/
theorem same (hscopes : d.scopes = c.scopes) (hstore : d.store = c.store) : c.Lasts d :=
  ⟨by rw [hscopes], hstore ▸ .refl _⟩

end Context.Lasts

namespace Action

variable {α β : Type}

/-- However the action ends, everything lasts. -/
def Lasting (x : Action α) : Prop := ∀ c : Context, c.Lasts (x c).2

namespace Lasting

theorem pure (a : α) : Lasting (pure a : Action α) := Context.Lasts.refl

theorem bind {x : Action α} {f : α → Action β} (hx : x.Lasting) (hf : ∀ a, (f a).Lasting) :
    (x >>= f).Lasting := fun c =>
  holds_after_bind (P := c.Lasts) (hx c) fun a d hd => hd.trans (hf a d)

theorem ite {p : Prop} [Decidable p] {x y : Action α} (hx : x.Lasting) (hy : y.Lasting) :
    (if p then x else y).Lasting := by
  split
  · exact hx
  · exact hy

theorem view (f : Context → α) : (view f).Lasting := Context.Lasts.refl

theorem fail (e : EvalError) : Lasting (fail e : Action α) := Context.Lasts.refl

theorem failAt (p : Position) (fault : ScriptFault) : Lasting (failAt p fault : Action α) :=
  Context.Lasts.refl

theorem onStore {f : Store → α × Store} (h : ∀ s : Store, s.Adds (f s).2) : (onStore f).Lasting :=
  fun c => ⟨rfl, h c.store⟩

theorem tryView (p : Position) (f : Store → Except ScriptFault α) : (tryView p f).Lasting := by
  intro c
  unfold Action.tryView
  split
  · exact .refl c
  · exact .refl c

end Lasting

/-! ## Members, items and variables -/

theorem lasting_toText (v : Value) (p : Position) : (toText v p).Lasting := .tryView p _

theorem lasting_toInteger (v : Value) (p : Position) : (toInteger v p).Lasting := .tryView p _

theorem lasting_memberAccessor (target : Value) : (memberAccessor target).Lasting :=
  fun _ => .same rfl rfl

theorem lasting_sequenceAccessor (target : Value) : (sequenceAccessor target).Lasting :=
  fun _ => .same rfl rfl

theorem lasting_readMember (target : Value) (name : String) : (readMember target name).Lasting := by
  refine .bind (lasting_memberAccessor target) fun _ => .bind (.view _) fun answer => ?_
  cases answer with
  | value v => exact .pure v
  | newFunction name operation => exact .onStore fun s _ _ h => h

theorem lasting_readGlobal (name : String) (gs : List GlobalFrame) :
    (readGlobal name gs).Lasting := by
  induction gs with
  | nil => exact .pure _
  | cons g rest ih => exact .bind (lasting_readMember g.model name) fun _ => .ite ih (.pure _)

theorem lasting_readVariable (ref : VarRef) : (readVariable ref).Lasting := by
  unfold readVariable
  split
  · exact .bind (.view _) fun _ => lasting_readGlobal _ _
  · exact .view _
  · refine .bind (.view _) ?_
    intro frame
    cases frame with
    | none => exact .failAt _ _
    | some frame => exact .pure _

theorem lasting_ofMember (object : Value) (name : String) (target : Expr) (p : Position) :
    (Place.ofMember object name target p).Lasting :=
  .ite (.failAt _ _) (.ite (.bind (.view _) fun _ => .failAt _ _) (.pure _))

theorem lasting_ofKey (object key : Value) (q : Position) (target : Expr) (p : Position) :
    (Place.ofKey object key q target p).Lasting := by
  refine .ite (.failAt _ _) ?_
  split
  · exact .bind (lasting_toText _ _) fun _ => .pure _
  · exact .bind (lasting_toText _ _) fun _ => .pure _
  · refine .bind (lasting_sequenceAccessor _) ?_
    intro accessor
    cases accessor with
    | none => exact .bind (.view _) fun _ => .failAt _ _
    | some accessor => exact .bind (lasting_toInteger _ _) fun _ => .pure _

theorem lasting_read (place : Place) : place.read.Lasting := by
  cases place with
  | member object name target p => exact lasting_readMember object name
  | item accessor object index target p => exact .tryView p _

/-! ## Operators, functions and templates -/

theorem lasting_binary (p : Position) (op : BinaryOp) (a b : Value) :
    (tryStore p fun s => s.binary op a b).Lasting := by
  intro c
  unfold tryStore
  split
  · next h => exact ⟨rfl, .binary h⟩
  · exact .refl c

theorem lasting_textsOf (p : Position) (vs : List Value) : (Builtin.textsOf p vs).Lasting := by
  induction vs with
  | nil => exact .pure _
  | cons v rest ih => exact .bind (lasting_toText v p) fun _ => .bind ih fun _ => .pure _

theorem lasting_rangeOf (args : List Value) (p : Position) : (Builtin.rangeOf args p).Lasting := by
  have hbounds : (Builtin.rangeBounds p args).Lasting := by
    unfold Builtin.rangeBounds
    split
    · exact .failAt _ _
    · exact .bind (lasting_toInteger _ _) fun _ => .pure _
    · exact .bind (lasting_toInteger _ _) fun _ => .bind (lasting_toInteger _ _) fun _ => .pure _
  refine .bind hbounds fun ⟨start, stop⟩ => ?_
  have hstep : ∀ step : Int, Lasting
      (if step = 0 then failAt p (.type .rangeStep)
      else do
        let limit ← view fun c => c.limits.loops
        if limit < rangeCount start stop step then failAt p (.loopLimit limit)
        else onStore fun s => s.newList (rangeItems start stop step)) := fun step =>
    .ite (.failAt _ _) <| .bind (.view _) fun _ =>
      .ite (.failAt _ _) (.onStore fun s => .alloc s _)
  dsimp only
  split
  · exact .bind (lasting_toInteger _ _) hstep
  · exact .bind (.pure _) hstep

theorem lasting_builtin (b : Builtin) (args : List Value) (p : Position) :
    (b.call args p).Lasting := by
  refine .ite (.failAt _ _) ?_
  cases b with
  | len => exact .bind (.tryView _ _) fun _ => .pure _
  | upper | lower | trim | str => exact .bind (lasting_toText _ _) fun _ => .pure _
  | join =>
    exact .bind (lasting_toText _ _) fun _ => .bind (.tryView _ _) fun _ =>
      .bind (lasting_textsOf _ _) fun _ => .pure _
  | range => exact lasting_rangeOf args p
  | keys => exact .bind (.tryView _ _) fun _ => .onStore fun s => .alloc s _
  | default => exact .pure _
  | int => exact .bind (lasting_toInteger _ _) fun _ => .pure _

theorem lasting_loadTemplate (path : String) (p : Position) : (loadTemplate path p).Lasting := by
  refine .bind (.view _) ?_
  intro c
  split
  · exact .failAt _ _
  · split
    · exact .failAt _ _
    · split
      · exact .pure _
      · split
        · exact .failAt _ _
        · exact .bind (.onStore fun s _ _ h => h) fun t =>
            .bind (fun _ => .same rfl rfl) fun _ => .pure t

/-! ## Rounds, output and sources -/

theorem lasting_stepLoop : stepLoop.Lasting := by
  intro c
  unfold stepLoop
  dsimp only
  split
  · exact ⟨rfl, .refl _⟩
  · exact ⟨rfl, .refl _⟩

theorem lasting_writeText (text : String) : (writeText text).Lasting := fun _ => .same rfl rfl

theorem lasting_writeValue (v : Value) (p : Position) : (writeValue v p).Lasting :=
  .ite (.pure _) (.bind (lasting_toText v p) lasting_writeText)

theorem lasting_pushOutput : pushOutput.Lasting := fun _ => .same rfl rfl

theorem lasting_popOutput : popOutput.Lasting := by
  intro c
  unfold popOutput
  split
  · exact .same rfl rfl
  · exact .refl c

theorem lasting_pushSource (name : String) : (pushSource name).Lasting :=
  .ite (.fail _) fun _ => .same rfl rfl

theorem lasting_popSource : popSource.Lasting := by
  intro c
  unfold popSource
  split
  · exact .same rfl rfl
  · exact .refl c

end Action

end TemplateEngine
