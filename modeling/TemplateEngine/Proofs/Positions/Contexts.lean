import TemplateEngine.Proofs.Evaluation.Balance
import TemplateEngine.Proofs.Evaluation.Carried
import TemplateEngine.Proofs.Evaluation.Primitive
import TemplateEngine.Proofs.Positions.Nodes
import TemplateEngine.Semantics.Evaluate
import TemplateEngine.State.Templates

/-!
# What contexts are made of

A context is made of certain statements if it holds no others: in the functions that values carry
with them, in the templates that it has loaded, and in those that it can load (`Context.MadeOf`).
Two actions agree on such statements if they do the same on every context that is made of them and
leave one that is (`Action.Accord`). The result then has a property, and what goes on with it needs
to agree for such results only. A primitive action agrees with itself (`Action.Stays`): it brings no
statement into a context.
-/

namespace TemplateEngine

open TemplateEngine.Action

variable {S : Stmt → Prop}

/-! ## Contexts -/

/-- The function has only such statements. -/
def FunctionDef.MadeOf (S : Stmt → Prop) (d : FunctionDef) : Prop := d.body.Everywhere S

/-- The template has only such statements. -/
def Template.MadeOf (S : Stmt → Prop) (t : Template) : Prop := t.body.Everywhere S

/-- Every template that the loader gives has only such statements, however it is numbered. -/
def Loader.MadeOf (S : Stmt → Prop) (l : Loader) : Prop :=
  ∀ name options t, l.load name options = .ok t → ∀ n, (t.identify n).1.MadeOf S

/-- The value is no function that a template defines, or one with only such statements. -/
abbrev Value.MadeOf (S : Stmt → Prop) (v : Value) : Prop := v.Carries (FunctionDef.MadeOf S)

/-- Functions and templates that the context works on have only such statements, and members of the
host give it no others. -/
structure Context.MadeOf (S : Stmt → Prop) (c : Context) : Prop where
  store : c.store.Carries (FunctionDef.MadeOf S)
  frames (i : Nat) : (c.scopes.pool.get i).Carries (FunctionDef.MadeOf S)
  globals : ∀ g ∈ c.scopes.globals.toList, g.model.MadeOf S
  members : c.members.Keep (FunctionDef.MadeOf S)
  templates : c.templates.All (Template.MadeOf S)
  loader : ∀ l ∈ c.loader, l.MadeOf S

namespace Context.MadeOf

variable {c d : Context}

/-- Something is worked on that holds no statements. -/
theorem same (h : c.MadeOf S) (hstore : d.store = c.store) (hpool : d.scopes.pool = c.scopes.pool)
    (hglobals : d.scopes.globals = c.scopes.globals) (hmembers : d.members = c.members)
    (htemplates : d.templates = c.templates) (hloader : d.loader = c.loader) : d.MadeOf S :=
  ⟨hstore ▸ h.store, hpool ▸ h.frames, hglobals ▸ h.globals, hmembers ▸ h.members,
    htemplates ▸ h.templates, hloader ▸ h.loader⟩

theorem with_scopes (h : c.MadeOf S) {scopes : Scopes}
    (hframes : ∀ i, (scopes.pool.get i).Carries (FunctionDef.MadeOf S))
    (hglobals : ∀ g ∈ scopes.globals.toList, g.model.MadeOf S) :
    Context.MadeOf S { c with scopes := scopes } :=
  ⟨h.store, hframes, hglobals, h.members, h.templates, h.loader⟩

theorem set_frame (h : c.MadeOf S) (i : Nat) {f : Frame} (hf : f.Carries (FunctionDef.MadeOf S)) :
    Context.MadeOf S { c with scopes := { c.scopes with pool := c.scopes.pool.set i f } } := by
  refine h.with_scopes (fun j => ?_) h.globals
  by_cases hij : i = j
  · subst hij
    by_cases hi : i < c.scopes.pool.frames.size
    · rw [FramePool.get_set_self hi]
      exact hf
    · simp only [FramePool.get, FramePool.set, Array.getElem?_setIfInBounds_self, if_neg hi]
      exact .empty
  · rw [FramePool.get_set_of_ne _ hij]
    exact h.frames j

theorem acquired (h : c.MadeOf S) (i : Nat) :
    (c.scopes.pool.acquire.2.get i).Carries (FunctionDef.MadeOf S) := by
  rw [FramePool.get_acquire]
  exact h.frames i

theorem released (h : c.MadeOf S) (i j : Nat) :
    ((c.scopes.pool.release i).get j).Carries (FunctionDef.MadeOf S) := by
  by_cases hij : i = j
  · subst hij
    rw [FramePool.get_release_self]
    exact .empty
  · rw [FramePool.get_release_of_ne _ hij]
    exact h.frames j

theorem set_loopFrame (h : c.MadeOf S) {f : Frame} (hf : f.Carries (FunctionDef.MadeOf S)) :
    Context.MadeOf S { c with scopes := c.scopes.setLoopFrame f } := by
  unfold Scopes.setLoopFrame
  split
  · exact h
  · exact h.set_frame _ hf

theorem loopFrame (h : c.MadeOf S) :
    ∀ f ∈ c.scopes.loopFrame?, f.Carries (FunctionDef.MadeOf S) := by
  unfold Scopes.loopFrame?
  cases c.scopes.loops with
  | nil => nofun
  | cons l rest =>
    rintro _ ⟨⟩
    exact h.frames l.frame

end Context.MadeOf

/-- A context that is opened is made of such statements if its loader is and the members that the
host declares bring no others. -/
theorem Settings.madeOf_newContext {s : Settings} (hloader : ∀ l ∈ s.loader, l.MadeOf S)
    (hshapes : s.shapes.Keep (FunctionDef.MadeOf S)) : s.newContext.MadeOf S where
  store := s.carries_root.2.alloc (c := .names _) s.carries_root.1
  frames i := by
    change (FramePool.empty.acquire.2.get i).Carries (FunctionDef.MadeOf S)
    rw [FramePool.get_acquire]
    exact .empty
  globals := by
    intro g hg
    obtain rfl := List.mem_singleton.1 hg
    trivial
  members := .new hshapes s.transform
  templates := .empty
  loader := hloader

/-! ## Actions -/

namespace Action

variable {α β : Type}

/-- On a context that is made of such statements the actions do the same and leave one that is, and
their result has the property. -/
structure Accord (S : Stmt → Prop) (A : α → Prop) (x y : Action α) : Prop where
  same (c : Context) : c.MadeOf S → x c = y c
  leaves (c : Context) : c.MadeOf S → (x c).2.MadeOf S
  gives (c : Context) : c.MadeOf S → ∀ a, (x c).1 = .ok a → A a

/-- The action brings no other statements into a context. -/
abbrev Stays (S : Stmt → Prop) (A : α → Prop) (x : Action α) : Prop := Accord S A x x

variable {A : α → Prop} {B : β → Prop} {x y : Action α}

theorem stays_iff : x.Stays S A ↔
    ∀ c : Context, c.MadeOf S → (x c).2.MadeOf S ∧ ∀ a, (x c).1 = .ok a → A a :=
  ⟨fun h c hc => ⟨h.leaves c hc, h.gives c hc⟩,
    fun h => ⟨fun _ _ => rfl, fun c hc => (h c hc).1, fun c hc => (h c hc).2⟩⟩

namespace Accord

theorem ok {f : Context → α × Context}
    (h : ∀ c : Context, c.MadeOf S → A (f c).1 ∧ (f c).2.MadeOf S) :
    Stays S A (fun c => (.ok (f c).1, (f c).2)) := by
  refine stays_iff.2 fun c hc => ⟨(h c hc).2, ?_⟩
  rintro _ ⟨⟩
  exact (h c hc).1

theorem pure {a : α} (h : A a) : Stays S A (pure a : Action α) :=
  ok (f := fun c => (a, c)) fun _ hc => ⟨h, hc⟩

theorem fail (e : EvalError) : Stays S A (fail e : Action α) :=
  stays_iff.2 fun _ hc => ⟨hc, fun _ => nofun⟩

theorem failAt (p : Position) (fault : ScriptFault) : Stays S A (failAt p fault : Action α) :=
  fail _

theorem outOfFuel : Stays S A (outOfFuel : Action α) :=
  stays_iff.2 fun _ hc => ⟨hc, fun _ => nofun⟩

theorem bind (h : Accord S A x y) {f g : α → Action β} (hf : ∀ a, A a → Accord S B (f a) (g a)) :
    Accord S B (x >>= f) (y >>= g) := by
  have hall (c : Context) (hc : c.MadeOf S) : (x >>= f) c = (y >>= g) c ∧
      ((x >>= f) c).2.MadeOf S ∧ ∀ b, ((x >>= f) c).1 = .ok b → B b := by
    have hsame := h.same c hc
    have hd := h.leaves c hc
    have ha := h.gives c hc
    rcases hx : x c with ⟨a | e | _, d⟩ <;> rw [hx] at hsame hd ha
    · rw [bind_of_ok hx, bind_of_ok hsame.symm]
      have hfa := hf a (ha a rfl)
      exact ⟨hfa.same d hd, hfa.leaves d hd, hfa.gives d hd⟩
    · rw [bind_of_error hx, bind_of_error hsame.symm]
      exact ⟨rfl, hd, fun _ => nofun⟩
    · rw [bind_of_outOfFuel hx, bind_of_outOfFuel hsame.symm]
      exact ⟨rfl, hd, fun _ => nofun⟩
  exact ⟨fun c hc => (hall c hc).1, fun c hc => (hall c hc).2.1, fun c hc => (hall c hc).2.2⟩

theorem ite {p : Prop} [Decidable p] {x' y' : Action α} (hx : Accord S A x x')
    (hy : Accord S A y y') : Accord S A (if p then x else y) (if p then x' else y') := by
  split
  · exact hx
  · exact hy

theorem view {v : Context → α} (h : ∀ c : Context, c.MadeOf S → A (v c)) :
    (view v).Stays S A := ok (f := fun c => (v c, c)) fun c hc => ⟨h c hc, hc⟩

theorem inStore {f : Store → α} (h : ∀ s : Store, s.Carries (FunctionDef.MadeOf S) → A (f s)) :
    (inStore f).Stays S A := view fun _ hc => h _ hc.store

/-- What is done with something that is looked up. -/
theorem viewing {v : Context → α} {f g : α → Action β}
    (h : ∀ c : Context, c.MadeOf S → Accord S B (f (v c)) (g (v c))) :
    Accord S B (Action.view v >>= f) (Action.view v >>= g) :=
  ⟨fun c hc => (h c hc).same c hc, fun c hc => (h c hc).leaves c hc,
    fun c hc => (h c hc).gives c hc⟩

theorem onStore {f : Store → α × Store} (h : ∀ s : Store, s.Carries (FunctionDef.MadeOf S) →
    A (f s).1 ∧ (f s).2.Carries (FunctionDef.MadeOf S)) : (onStore f).Stays S A :=
  ok (f := fun c => ((f c.store).1, { c with store := (f c.store).2 })) fun c hc =>
    ⟨(h c.store hc.store).1, { hc with store := (h c.store hc.store).2 }⟩

theorem tryView (p : Position) {f : Store → Except ScriptFault α}
    (h : ∀ s : Store, s.Carries (FunctionDef.MadeOf S) → ∀ a, f s = .ok a → A a) :
    (tryView p f).Stays S A := by
  refine stays_iff.2 fun c hc => ?_
  unfold Action.tryView
  split
  · next a hf =>
    refine ⟨hc, ?_⟩
    rintro _ ⟨⟩
    exact h c.store hc.store a hf
  · exact ⟨hc, fun _ => nofun⟩

theorem tryStore (p : Position) {f : Store → Except ScriptFault (α × Store)}
    (h : ∀ s : Store, s.Carries (FunctionDef.MadeOf S) → ∀ a t, f s = .ok (a, t) →
      A a ∧ t.Carries (FunctionDef.MadeOf S)) : (tryStore p f).Stays S A := by
  refine stays_iff.2 fun c hc => ?_
  unfold Action.tryStore
  split
  · next a t hf =>
    obtain ⟨ha, ht⟩ := h c.store hc.store a t hf
    refine ⟨{ hc with store := ht }, ?_⟩
    rintro _ ⟨⟩
    exact ha
  · exact ⟨hc, fun _ => nofun⟩

theorem modify {f : Context → Context} (h : ∀ c : Context, c.MadeOf S → (f c).MadeOf S) :
    (modify f).Stays S fun _ => True :=
  ok (f := fun c => ((), f c)) fun c hc => ⟨trivial, h c hc⟩

theorem toText (v : Value) (p : Position) : (toText v p).Stays S fun _ => True :=
  tryView p fun _ _ _ _ => trivial

theorem toInteger (v : Value) (p : Position) : (toInteger v p).Stays S fun _ => True :=
  tryView p fun _ _ _ _ => trivial

theorem withSuppression (b : Bool) (h : Accord S A x y) :
    Accord S A (withSuppression b x) (withSuppression b y) := by
  have hc' {c : Context} (hc : c.MadeOf S) : Context.MadeOf S { c with suppressed := b } :=
    hc.same rfl rfl rfl rfl rfl rfl
  refine ⟨fun c hc => ?_, fun c hc => ?_, fun c hc => h.gives _ (hc' hc)⟩
  · unfold Action.withSuppression
    rw [h.same _ (hc' hc)]
  · exact (h.leaves _ (hc' hc)).same rfl rfl rfl rfl rfl rfl

end Accord

/-! ## Members and variables -/

theorem stays_memberAccessor (target : Value) :
    (memberAccessor target).Stays S (MemberAccessor.Keeps (FunctionDef.MadeOf S)) :=
  .ok (f := fun c => ((c.members.resolve c.store target).1,
    { c with members := (c.members.resolve c.store target).2 })) fun c hc =>
    have h := hc.members.resolve c.store target
    ⟨h.1, { hc with members := h.2 }⟩

theorem stays_sequenceAccessor (target : Value) :
    (sequenceAccessor target).Stays S fun _ => True :=
  .ok (f := fun c => ((c.sequences.resolve target).1,
    { c with sequences := (c.sequences.resolve target).2 })) fun _ hc =>
    ⟨trivial, hc.same rfl rfl rfl rfl rfl rfl⟩

theorem stays_realise {a : Answer} (h : a.Carries (FunctionDef.MadeOf S)) :
    (realise a).Stays S (Value.MadeOf S) := by
  cases a with
  | value v => exact .pure h
  | newFunction name operation =>
    exact .onStore (f := fun s => s.newNative name operation) fun s hs => ⟨trivial, hs⟩

theorem stays_readMember (target : Value) (name : String) :
    (readMember target name).Stays S (Value.MadeOf S) :=
  .bind (stays_memberAccessor target) fun _ ha =>
    .bind (.inStore fun _ hs => ha.get hs target name) fun _ => stays_realise

theorem stays_writeMember (target : Value) (name : String) {v : Value} (hv : v.MadeOf S) :
    (writeMember target name v).Stays S fun _ => True := by
  refine .bind (stays_memberAccessor target) fun a ha => .onStore fun s hs => ?_
  split
  · next t ht => exact ⟨trivial, ha.set hs hv ht⟩
  · exact ⟨trivial, hs⟩

theorem stays_readGlobal (name : String) (gs : List GlobalFrame) :
    (readGlobal name gs).Stays S (Value.MadeOf S) := by
  induction gs with
  | nil => exact .pure trivial
  | cons g rest ih => exact .bind (stays_readMember g.model name) fun _ hv => .ite ih (.pure hv)

theorem stays_readVariable (ref : VarRef) : (readVariable ref).Stays S (Value.MadeOf S) := by
  unfold readVariable
  split
  · exact .viewing fun _ _ => stays_readGlobal _ _
  · exact .view fun _ hc => (hc.frames _).get _
  · refine .bind (A := fun frame => ∀ f ∈ frame, f.Carries (FunctionDef.MadeOf S))
      (.view fun _ hc => hc.loopFrame) ?_
    rintro (_ | frame) hframe
    · exact .failAt _ _
    · exact .pure ((hframe frame rfl).get _)

theorem stays_writeVariable (ref : VarRef) {v : Value} (hv : v.MadeOf S) :
    (writeVariable ref v).Stays S fun _ => True := by
  unfold writeVariable
  split
  · refine .viewing fun c _ => .ite (.failAt _ _) ?_
    refine .bind (stays_writeMember _ _ hv) fun r _ => ?_
    split
    · exact .pure trivial
    · exact .failAt _ _
    · exact .viewing fun _ _ => .failAt _ _
  · refine .viewing fun c hc => ?_
    split
    · next f hf =>
      have hf : f.Carries (FunctionDef.MadeOf S) := Frame.Carries.set (hc.frames _) hv hf
      exact .modify fun d hd => hd.set_frame _ hf
    · exact .failAt _ _
  · refine .viewing fun c hc => ?_
    split
    · exact .failAt _ _
    · next frame hframe =>
      split
      · next f hf =>
        have hf : f.Carries (FunctionDef.MadeOf S) :=
          Frame.Carries.set (hc.loopFrame frame hframe) hv hf
        exact .modify fun d hd => hd.set_loopFrame hf
      · exact .failAt _ _

/-! ## Places -/

theorem stays_ofMember (object : Value) (name : String) (target : Expr) (p : Position) :
    (Place.ofMember object name target p).Stays S fun _ => True :=
  .ite (.failAt _ _) (.ite (.viewing fun _ _ => .failAt _ _) (.pure trivial))

theorem stays_ofKey (object key : Value) (q : Position) (target : Expr) (p : Position) :
    (Place.ofKey object key q target p).Stays S fun _ => True := by
  refine .ite (.failAt _ _) ?_
  split
  · exact .bind (.toText _ _) fun _ _ => .pure trivial
  · exact .bind (.toText _ _) fun _ _ => .pure trivial
  · refine .bind (stays_sequenceAccessor _) ?_
    rintro (_ | accessor) -
    · exact .viewing fun _ _ => .failAt _ _
    · exact .bind (.toInteger _ _) fun _ _ => .pure trivial

theorem stays_read (place : Place) : place.read.Stays S (Value.MadeOf S) := by
  unfold Place.read
  cases place with
  | member object name target p => exact stays_readMember object name
  | item accessor object index target p =>
    refine .tryView p fun s hs v hv => ?_
    cases hget : accessor.get s object index with
    | error e =>
      rw [hget] at hv
      cases hv
    | ok w =>
      rw [hget] at hv
      cases hv
      exact SequenceAccessor.carries_get hs hget

theorem stays_write (place : Place) {v : Value} (hv : v.MadeOf S) :
    (place.write v).Stays S fun _ => True := by
  unfold Place.write
  cases place with
  | member object name target p =>
    refine .bind (stays_writeMember _ _ hv) fun r _ => ?_
    split
    · exact .pure trivial
    · exact .failAt _ _
    · exact .failAt _ _
  | item accessor object index target p =>
    refine .tryStore p fun s hs u t ht => ?_
    split at ht
    · next t' ht' =>
      cases ht
      exact ⟨trivial, SequenceAccessor.carries_set hs hv ht'⟩
    · cases ht

/-! ## Built-in functions -/

theorem stays_newList {vs : List Value} (h : ∀ v ∈ vs, v.MadeOf S) :
    (onStore fun s => s.newList vs).Stays S (Value.MadeOf S) :=
  .onStore fun _ hs => ⟨trivial, hs.alloc (c := .items vs) h⟩

theorem stays_newMap {d : Dictionary Value} (h : d.All (Value.MadeOf S)) :
    (onStore fun s => s.newMap d).Stays S (Value.MadeOf S) :=
  .onStore fun _ hs => ⟨trivial, hs.alloc (c := .entries d) h⟩

theorem stays_textsOf (p : Position) (vs : List Value) :
    (Builtin.textsOf p vs).Stays S fun _ => True := by
  induction vs with
  | nil => exact .pure trivial
  | cons v rest ih => exact .bind (.toText v p) fun _ _ => .bind ih fun _ _ => .pure trivial

theorem stays_rangeBounds (p : Position) (args : List Value) :
    (Builtin.rangeBounds p args).Stays S fun _ => True := by
  unfold Builtin.rangeBounds
  split
  · exact .failAt _ _
  · exact .bind (.toInteger _ _) fun _ _ => .pure trivial
  · exact .bind (.toInteger _ _) fun _ _ => .bind (.toInteger _ _) fun _ _ => .pure trivial

theorem stays_rangeOf (args : List Value) (p : Position) :
    (Builtin.rangeOf args p).Stays S (Value.MadeOf S) := by
  have hitems (start stop step : Int) : ∀ v ∈ rangeItems start stop step, v.MadeOf S := by
    simp only [rangeItems, List.forall_mem_map]
    exact fun _ _ => trivial
  refine .bind (stays_rangeBounds p args) fun ⟨start, stop⟩ _ => ?_
  have hstep : ∀ step : Int, True → Stays S (Value.MadeOf S)
      (if step = 0 then failAt p (.type .rangeStep)
      else do
        let limit ← view fun c => c.limits.loops
        if limit < rangeCount start stop step then failAt p (.loopLimit limit)
        else onStore fun s => s.newList (rangeItems start stop step)) := fun step _ =>
    .ite (.failAt _ _) <| .viewing fun _ _ =>
      .ite (.failAt _ _) (stays_newList (hitems start stop step))
  dsimp only
  split
  · exact .bind (.toInteger _ _) hstep
  · exact .bind (.pure trivial) hstep

theorem stays_builtin (b : Builtin) {args : List Value} (h : ∀ v ∈ args, v.MadeOf S)
    (p : Position) : (b.call args p).Stays S (Value.MadeOf S) := by
  refine .ite (.failAt _ _) ?_
  cases b with
  | len =>
    exact .bind (A := fun _ => True) (.tryView _ fun _ _ _ _ => trivial) fun _ _ => .pure trivial
  | upper | lower | trim | str => exact .bind (.toText _ _) fun _ _ => .pure trivial
  | join =>
    exact .bind (.toText _ _) fun _ _ =>
      .bind (A := fun _ => True) (.tryView _ fun _ _ _ _ => trivial) fun _ _ =>
      .bind (stays_textsOf _ _) fun _ _ => .pure trivial
  | range => exact stays_rangeOf args p
  | keys =>
    exact .bind (A := fun _ => True) (.tryView _ fun _ _ _ _ => trivial) fun names _ =>
      stays_newList (Value.carries_texts names)
  | default =>
    refine .pure ?_
    split
    · exact Builtin.carries_argument h 1
    · exact Builtin.carries_argument h 0
  | int => exact .bind (.toInteger _ _) fun _ _ => .pure trivial

/-! ## Frames and output -/

theorem stays_bindLocal (name : String) {v : Value} (hv : v.MadeOf S) :
    (bindLocal name v).Stays S fun _ => True :=
  .modify fun _ hc => hc.set_frame _ ((hc.frames _).define name hv false)

theorem stays_bindLoop (name : String) {v : Value} (hv : v.MadeOf S) :
    (bindLoop name v).Stays S fun _ => True := by
  refine stays_iff.2 fun c hc => ?_
  unfold bindLoop
  split
  · next f hf =>
    exact ⟨hc.set_loopFrame ((hc.loopFrame f hf).define name hv true), fun _ _ => trivial⟩
  · exact ⟨hc, fun _ _ => trivial⟩

theorem stays_inheritLoop : inheritLoop.Stays S fun _ => True := by
  refine .modify fun c hc => ?_
  unfold Scopes.inheritLoop
  split
  · exact hc.set_frame _ ((hc.frames _).update (hc.frames _))
  · exact hc

theorem stays_stepLoop : stepLoop.Stays S fun _ => True := by
  refine stays_iff.2 fun c hc => ⟨?_, fun _ _ => trivial⟩
  unfold stepLoop
  dsimp only
  split <;> exact hc.same rfl rfl rfl rfl rfl rfl

theorem stays_writeText (text : String) : (writeText text).Stays S fun _ => True :=
  .modify fun _ hc => hc.same rfl rfl rfl rfl rfl rfl

theorem stays_writeValue (v : Value) (p : Position) : (writeValue v p).Stays S fun _ => True :=
  .ite (.pure trivial) (.bind (.toText v p) fun t _ => stays_writeText t)

/-! ## Templates -/

theorem stays_loadTemplate (path : String) (p : Position) :
    (loadTemplate path p).Stays S (Template.MadeOf S) := by
  refine .viewing fun c hc => ?_
  dsimp only [id]
  split
  · exact .failAt _ _
  · next loader hloader =>
    split
    · exact .failAt _ _
    · next name _ =>
      split
      · next t ht => exact .pure (hc.templates.get? t ht)
      · split
        · exact .failAt _ _
        · next t ht =>
          refine .bind (.onStore fun s hs => ⟨hc.loader loader hloader _ _ t ht _, hs⟩) ?_
          refine fun t ht => .bind (.modify fun d hd => ?_) fun _ _ => .pure ht
          exact { hd with templates := hd.templates.insert name ht }

end Action

end TemplateEngine
