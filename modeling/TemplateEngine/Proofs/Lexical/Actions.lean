import TemplateEngine.Proofs.Lexical.Parsing
import TemplateEngine.Proofs.Lexical.Values
import TemplateEngine.Semantics.Evaluate
import TemplateEngine.State.Region
import TemplateEngine.State.Templates

/-!
# Lexical contexts

A context is lexical if everything that it works on is: the values in its store and its models, the
members found so far, and the templates that it has loaded or can load. The frames in use do not
count. A context that is opened over a loader of sources is lexical (`Settings.Lexical.newContext`).
An action yields a property if, on a lexical context, its result has the property, it does not fail
because of a loop name, the context stays lexical, and its scopes stay as they are
(`Action.Yields`).
-/

namespace TemplateEngine

/-! ## Contexts -/

/-- What the context works on is lexical. -/
structure Context.Lexical (c : Context) : Prop where
  store : c.store.Lexical
  globals : ∀ g ∈ c.scopes.globals.toList, g.model.Lexical
  members : c.members.Lexical
  templates : c.templates.All Template.Lexical
  loader : ∀ l ∈ c.loader, l.Lexical

/-- What a context is opened with is lexical. -/
structure Settings.Lexical (s : Settings) : Prop where
  loader : ∀ l ∈ s.loader, l.Lexical
  shapes : s.shapes.Lexical

namespace Settings

/-- The root namespace binds functions that no template defines. -/
theorem lexical_root (s : Settings) : s.root.1.Lexical ∧ s.root.2.Lexical :=
  s.carries_root (P := FunctionDef.Lexical)

theorem Lexical.newContext {s : Settings} (h : s.Lexical) : s.newContext.Lexical where
  store := s.lexical_root.2.alloc (c := .names _) s.lexical_root.1
  globals := by
    intro g hg
    obtain rfl := List.mem_singleton.1 hg
    trivial
  members := .new h.shapes s.transform
  templates := .empty
  loader := h.loader

end Settings

/-! ## Actions -/

/-- There is no result, or one with the property, and no fault about a loop name. -/
inductive Outcome.Regular {α : Type} (A : α → Prop) : Outcome α → Prop
  | ok {a : α} : A a → Regular A (.ok a)
  | error {e : EvalError} : ¬ e.Stray → Regular A (.error e)
  | outOfFuel : Regular A .outOfFuel

theorem Outcome.Regular.mono {α : Type} {A B : α → Prop} {o : Outcome α} (h : o.Regular A)
    (hAB : ∀ a, A a → B a) : o.Regular B := by
  cases h with
  | ok ha => exact .ok (hAB _ ha)
  | error he => exact .error he
  | outOfFuel => exact .outOfFuel

namespace Action

variable {α β : Type}

/-- On a lexical context the action gives results with the property and does not fail because of a
loop name; it leaves a lexical context with the same scopes. -/
def Yields (A : α → Prop) (x : Action α) : Prop :=
  ∀ c : Context, c.Lexical → (x c).1.Regular A ∧ (x c).2.Lexical ∧ (x c).2.scopes = c.scopes

namespace Yields

variable {A : α → Prop} {B : β → Prop}

theorem pure {a : α} (h : A a) : Yields A (pure a : Action α) := fun _ hc => ⟨.ok h, hc, rfl⟩

theorem bind {x : Action α} {f : α → Action β} (hx : x.Yields A)
    (hf : ∀ a, A a → (f a).Yields B) : (x >>= f).Yields B := by
  intro c hc
  obtain ⟨hr, hd, hs⟩ := hx c hc
  rcases h : x c with ⟨a | e | _, d⟩ <;> rw [h] at hr hd hs
  · rw [bind_of_ok h]
    cases hr with
    | ok ha =>
      obtain ⟨hr', hd', hs'⟩ := hf a ha d hd
      exact ⟨hr', hd', hs'.trans hs⟩
  · rw [bind_of_error h]
    cases hr with
    | error he => exact ⟨.error he, hd, hs⟩
  · rw [bind_of_outOfFuel h]
    exact ⟨.outOfFuel, hd, hs⟩

theorem ite {p : Prop} [Decidable p] {x y : Action α} (hx : x.Yields A) (hy : y.Yields A) :
    (if p then x else y).Yields A := by
  split
  · exact hx
  · exact hy

theorem view {v : Context → α} (h : ∀ c : Context, c.Lexical → A (v c)) : (view v).Yields A :=
  fun c hc => ⟨.ok (h c hc), hc, rfl⟩

theorem inStore {f : Store → α} (h : ∀ s : Store, s.Lexical → A (f s)) : (inStore f).Yields A :=
  view fun _ hc => h _ hc.store

/-- What is done with something that is looked up. -/
theorem viewing {v : Context → α} {f : α → Action β}
    (h : ∀ c : Context, c.Lexical → (f (v c)).Yields B) : (Action.view v >>= f).Yields B :=
  fun c hc => h c hc c hc

theorem fail {e : EvalError} (h : ¬ e.Stray) : Yields A (fail e : Action α) :=
  fun _ hc => ⟨.error h, hc, rfl⟩

theorem failAt (p : Position) {fault : ScriptFault} (h : ¬ fault.Stray) :
    Yields A (failAt p fault : Action α) := fail h

theorem onStore {f : Store → α × Store}
    (h : ∀ s : Store, s.Lexical → A (f s).1 ∧ (f s).2.Lexical) : (onStore f).Yields A :=
  fun c hc => ⟨.ok (h c.store hc.store).1, { hc with store := (h c.store hc.store).2 }, rfl⟩

theorem tryView (p : Position) {f : Store → Except ScriptFault α}
    (h : ∀ s : Store, s.Lexical → Regular A (f s)) : (tryView p f).Yields A := by
  intro c hc
  have hr := h c.store hc.store
  unfold Action.tryView
  cases hf : f c.store <;> rw [hf] at hr <;> cases hr
  · next hstray => exact ⟨.error hstray, hc, rfl⟩
  · next ha => exact ⟨.ok ha, hc, rfl⟩

theorem tryStore (p : Position) {f : Store → Except ScriptFault (α × Store)}
    (h : ∀ s : Store, s.Lexical → Regular (fun x => A x.1 ∧ x.2.Lexical) (f s)) :
    (tryStore p f).Yields A := by
  intro c hc
  have hr := h c.store hc.store
  unfold Action.tryStore
  cases hf : f c.store <;> rw [hf] at hr <;> cases hr
  · next hstray => exact ⟨.error hstray, hc, rfl⟩
  · next ha => exact ⟨.ok ha.1, { hc with store := ha.2 }, rfl⟩

theorem toText (v : Value) (p : Position) : (toText v p).Yields fun _ => True :=
  tryView p fun _ _ => .conversion _

theorem toInteger (v : Value) (p : Position) : (toInteger v p).Yields fun _ => True :=
  tryView p fun _ _ => .conversion _

end Yields

/-! ### Members and global names -/

theorem yields_memberAccessor (target : Value) :
    (memberAccessor target).Yields MemberAccessor.Lexical := fun c hc =>
  have h := hc.members.resolve c.store target
  ⟨.ok h.1, { hc with members := h.2 }, rfl⟩

theorem yields_sequenceAccessor (target : Value) :
    (sequenceAccessor target).Yields fun _ => True := fun _ hc => ⟨.ok trivial, { hc with }, rfl⟩

theorem yields_realise {a : Answer} (h : a.Lexical) : (realise a).Yields Value.Lexical := by
  cases a with
  | value v => exact .pure h
  | newFunction name operation => exact .onStore fun s hs => ⟨trivial, hs.newNative name operation⟩

theorem yields_readMember (target : Value) (name : String) :
    (readMember target name).Yields Value.Lexical :=
  .bind (yields_memberAccessor target) fun _ ha =>
    .bind (.inStore fun _ hs => ha.get hs target name) fun _ => yields_realise

theorem yields_writeMember (target : Value) (name : String) {v : Value} (hv : v.Lexical) :
    (writeMember target name v).Yields fun _ => True := by
  refine .bind (yields_memberAccessor target) fun a ha => .onStore fun s hs => ?_
  split
  · next t ht => exact ⟨trivial, ha.set hs hv ht⟩
  · exact ⟨trivial, hs⟩

theorem yields_readGlobal (name : String) (gs : List GlobalFrame) :
    (readGlobal name gs).Yields Value.Lexical := by
  induction gs with
  | nil => exact .pure trivial
  | cons g rest ih => exact .bind (yields_readMember g.model name) fun _ hv => .ite ih (.pure hv)

theorem yields_readVariable {ref : VarRef} (h : ref.scope = .global) :
    (readVariable ref).Yields Value.Lexical := by
  simp only [readVariable, h]
  exact .viewing fun _ _ => yields_readGlobal ref.name _

theorem yields_writeVariable {ref : VarRef} (h : ref.scope = .global) {v : Value}
    (hv : v.Lexical) : (writeVariable ref v).Yields fun _ => True := by
  simp only [writeVariable, h]
  refine .viewing fun c _ => .ite (.failAt _ id) ?_
  refine .bind (yields_writeMember _ _ hv) fun r _ => ?_
  split
  · exact .pure trivial
  · exact .failAt _ id
  · exact .viewing fun _ _ => .failAt _ id

/-! ### Places -/

theorem yields_ofMember (object : Value) (name : String) (target : Expr) (p : Position) :
    (Place.ofMember object name target p).Yields fun _ => True :=
  .ite (.failAt _ id) <|
    .ite (.viewing fun _ _ => .failAt _ id) (.pure trivial)

theorem yields_ofKey (object key : Value) (q : Position) (target : Expr) (p : Position) :
    (Place.ofKey object key q target p).Yields fun _ => True := by
  refine .ite (.failAt _ id) ?_
  split
  · exact .bind (.toText _ _) fun _ _ => .pure trivial
  · exact .bind (.toText _ _) fun _ _ => .pure trivial
  · refine .bind (yields_sequenceAccessor _) ?_
    rintro (_ | accessor) -
    · exact .viewing fun _ _ => .failAt _ id
    · exact .bind (.toInteger _ _) fun _ _ => .pure trivial

theorem yields_read (place : Place) : place.read.Yields Value.Lexical := by
  unfold Place.read
  cases place with
  | member object name target p => exact yields_readMember object name
  | item accessor object index target p =>
    exact .tryView p fun _ hs => accessor.regular_get hs object index _

theorem yields_write {v : Value} (hv : v.Lexical) (place : Place) :
    (place.write v).Yields fun _ => True := by
  unfold Place.write
  cases place with
  | member object name target p =>
    refine .bind (yields_writeMember _ _ hv) fun r _ => ?_
    split
    · exact .pure trivial
    · exact .failAt _ id
    · exact .failAt _ id
  | item accessor object index target p =>
    refine .tryStore p fun s hs => ?_
    split
    · next t ht => exact .ok ⟨trivial, accessor.lexical_set hs hv ht⟩
    · exact .error id

/-! ### Built-in functions -/

theorem yields_textsOf (p : Position) (vs : List Value) :
    (Builtin.textsOf p vs).Yields fun _ => True := by
  induction vs with
  | nil => exact .pure trivial
  | cons v rest ih => exact .bind (.toText v p) fun _ _ => .bind ih fun _ _ => .pure trivial

theorem yields_rangeBounds (p : Position) (args : List Value) :
    (Builtin.rangeBounds p args).Yields fun _ => True := by
  unfold Builtin.rangeBounds
  split
  · exact .failAt _ id
  · exact .bind (.toInteger _ _) fun _ _ => .pure trivial
  · exact .bind (.toInteger _ _) fun _ _ => .bind (.toInteger _ _) fun _ _ => .pure trivial

theorem yields_newList {vs : List Value} (h : ∀ v ∈ vs, v.Lexical) :
    (onStore fun s => s.newList vs).Yields Value.Lexical :=
  .onStore fun _ hs => ⟨trivial, hs.alloc (c := .items vs) h⟩

theorem yields_newMap {d : Dictionary Value} (h : d.All Value.Lexical) :
    (onStore fun s => s.newMap d).Yields Value.Lexical :=
  .onStore fun _ hs => ⟨trivial, hs.alloc (c := .entries d) h⟩

theorem yields_newNamespace : (onStore fun s => s.newNamespace .empty).Yields Value.Lexical :=
  .onStore fun _ hs => ⟨trivial, hs.alloc (c := .names .empty) .empty⟩

theorem lexical_rangeItems (start stop step : Int) :
    ∀ v ∈ rangeItems start stop step, v.Lexical := by
  simp only [rangeItems, List.forall_mem_map]
  exact fun _ _ => trivial

theorem yields_rangeOf (args : List Value) (p : Position) :
    (Builtin.rangeOf args p).Yields Value.Lexical := by
  refine .bind (yields_rangeBounds p args) fun ⟨start, stop⟩ _ => ?_
  have hstep : ∀ step : Int, True → Yields Value.Lexical
      (if step = 0 then failAt p (.type .rangeStep)
      else do
        let limit ← view fun c => c.limits.loops
        if limit < rangeCount start stop step then failAt p (.loopLimit limit)
        else onStore fun s => s.newList (rangeItems start stop step)) := fun step _ =>
    .ite (.failAt _ id) <| .viewing fun _ _ =>
      .ite (.failAt _ id) (yields_newList (lexical_rangeItems start stop step))
  dsimp only
  split
  · exact .bind (.toInteger _ _) hstep
  · exact .bind (.pure trivial) hstep

theorem yields_builtin (b : Builtin) {args : List Value} (h : ∀ v ∈ args, v.Lexical)
    (p : Position) : (b.call args p).Yields Value.Lexical := by
  refine .ite (.failAt _ id) ?_
  cases b with
  | len => exact .bind (.tryView _ fun s _ => Builtin.regular_countOf s _) fun _ _ => .pure trivial
  | upper => exact .bind (.toText _ _) fun _ _ => .pure trivial
  | lower => exact .bind (.toText _ _) fun _ _ => .pure trivial
  | trim => exact .bind (.toText _ _) fun _ _ => .pure trivial
  | join =>
    exact .bind (.toText _ _) fun _ _ => .bind (.tryView _ fun s _ => Builtin.regular_joinItems s _)
      fun _ _ => .bind (yields_textsOf _ _) fun _ _ => .pure trivial
  | range => exact yields_rangeOf args p
  | keys =>
    refine .bind (.tryView _ fun s _ => Builtin.regular_keysOf s _) fun names _ =>
      yields_newList ?_
    simp only [List.forall_mem_map]
    exact fun _ _ => trivial
  | default =>
    refine .pure ?_
    split
    · exact Builtin.lexical_argument h 1
    · exact Builtin.lexical_argument h 0
  | str => exact .bind (.toText _ _) fun _ _ => .pure trivial
  | int => exact .bind (.toInteger _ _) fun _ _ => .pure trivial

/-! ### Output, sources and templates -/

theorem yields_writeText (text : String) : (writeText text).Yields fun _ => True :=
  fun _ hc => ⟨.ok trivial, { hc with }, rfl⟩

theorem yields_writeValue (v : Value) (p : Position) : (writeValue v p).Yields fun _ => True :=
  .ite (.pure trivial) (.bind (.toText v p) fun t _ => yields_writeText t)

theorem yields_pushOutput : pushOutput.Yields fun _ => True :=
  fun _ hc => ⟨.ok trivial, { hc with }, rfl⟩

theorem yields_popOutput : popOutput.Yields fun _ => True := by
  intro c hc
  unfold popOutput
  cases c.output.pop? with
  | none => exact ⟨.error id, hc, rfl⟩
  | some x => exact ⟨.ok trivial, { hc with }, rfl⟩

theorem yields_pushSource (name : String) : (pushSource name).Yields fun _ => True :=
  .ite (.fail id) fun _ hc => ⟨.ok trivial, { hc with }, rfl⟩

theorem yields_popSource : popSource.Yields fun _ => True := by
  intro c hc
  unfold popSource
  split
  · exact ⟨.ok trivial, { hc with }, rfl⟩
  · exact ⟨.error id, hc, rfl⟩

theorem yields_identify {t : Template} (h : t.Lexical) : (identify t).Yields Template.Lexical :=
  .onStore fun _ hs => ⟨h.identify _, hs⟩

theorem yields_loadTemplate (path : String) (p : Position) :
    (loadTemplate path p).Yields Template.Lexical := by
  refine .viewing fun c hc => ?_
  dsimp only [id]
  split
  · exact .failAt _ id
  · next loader hloader =>
    split
    · exact .failAt _ id
    · next name _ =>
      split
      · next t ht => exact .pure (hc.templates.get? t ht)
      · split
        · exact .failAt _ id
        · next t ht =>
          refine .bind (yields_identify (hc.loader loader hloader _ _ t ht)) fun t ht => ?_
          exact .bind (A := fun _ => True)
            (fun _ hd => ⟨.ok trivial, { hd with templates := hd.templates.insert name ht }, rfl⟩)
            fun _ _ => .pure ht

end Action

end TemplateEngine
