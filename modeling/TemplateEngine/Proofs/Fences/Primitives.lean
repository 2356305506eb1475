import TemplateEngine.Proofs.Fences.Actions

/-!
# Primitive actions inside of fences

Variables respect every fence, because a global name is written to the innermost model only. A
member or an item is written in whatever value an expression gives, and so it respects the fence if
no value refers to what has to stay. Built-in functions give what they are given, or what they make.
-/

namespace TemplateEngine

open TemplateEngine.Action

variable {F : Fence}

/-- The value that the place is in is known. -/
def Place.Known (F : Fence) : Place → Prop
  | .member object _ _ _ | .item _ object _ _ _ => object.Known F

namespace Action

/-! ## Members and variables -/

theorem respects_memberAccessor (target : Value) :
    (memberAccessor target).Respects F (MemberAccessor.Confined F) := fun c hc _ => by
  obtain ⟨ha, hmembers⟩ := hc.members.resolve c.store target
  have hspared : c.Spared F { c with members := (c.members.resolve c.store target).2 } :=
    ⟨{ hc with members := hmembers }, .refl _, { Context.Kept.refl c with }⟩
  exact .ok hspared ha

theorem respects_sequenceAccessor (target : Value) :
    (sequenceAccessor target).Respects F fun _ => True := fun c hc _ =>
  ⟨hc.spared_same { Context.Kept.refl c with } rfl rfl rfl, fun _ _ => trivial⟩

theorem respects_realise {a : Answer} (h : a.Known F) :
    (realise a).Respects F (Value.Known F) := by
  cases a with
  | value v => exact .pure h
  | newFunction name operation =>
    exact Respects.onStore (f := fun s => s.newNative name operation) fun s hs =>
      ⟨Value.known_of_plain rfl, hs.renumber _⟩

theorem respects_readMember (target : Value) (name : String) :
    (readMember target name).Respects F (Value.Known F) :=
  .bind (respects_memberAccessor target) fun _ ha =>
    .bind (.inStore fun _ hs => ha.get hs target name) fun _ => respects_realise

theorem respects_writeMember {target : Value} (htarget : target.Outside F) (name : String)
    {v : Value} (hv : v.Known F) : (writeMember target name v).Respects F fun _ => True := by
  refine .bind (respects_memberAccessor target) fun a ha => .onStore fun s hs => ?_
  split
  · next t ht => exact ⟨trivial, ha.set hs htarget hv ht⟩
  · exact ⟨trivial, hs.spared⟩

theorem respects_readGlobal (name : String) (gs : List GlobalFrame) :
    (readGlobal name gs).Respects F (Value.Known F) := by
  induction gs with
  | nil => exact .pure (Value.known_of_plain rfl)
  | cons g rest ih => exact .bind (respects_readMember g.model name) fun _ hv => .ite ih (.pure hv)

theorem respects_readVariable (ref : VarRef) :
    (readVariable ref).Respects F (Value.Known F) := by
  unfold readVariable
  split
  · exact .viewing fun _ _ _ => respects_readGlobal _ _
  · exact .view fun _ hc => (hc.frames _).get _
  · refine .bind (A := fun frame => ∀ f ∈ frame, f.Known F) (.view fun _ hc => hc.loopFrame) ?_
    rintro (_ | frame) hframe
    · exact .failAt _ _
    · exact .pure ((hframe frame rfl).get _)

/-- A global name is written to the innermost model, and the other names to frames. -/
theorem respects_writeVariable (ref : VarRef) {v : Value} (hv : v.Known F) :
    (writeVariable ref v).Respects F fun _ => True := by
  unfold writeVariable
  split
  · refine .viewing fun c _ hopen => .ite (.failAt _ _) ?_
    refine .bind (respects_writeMember hopen _ hv) fun r _ => ?_
    split
    · exact .pure trivial
    · exact .failAt _ _
    · exact .viewing fun _ _ _ => .failAt _ _
  · refine .viewing fun c hc _ => ?_
    split
    · next f hf =>
      have hf : f.Known F := Frame.Known.set (hc.frames _) hv hf
      exact .modify fun d hd => hd.spared_pool (hd.frames.set _ hf)
    · exact .failAt _ _
  · refine .viewing fun c hc _ => ?_
    split
    · exact .failAt _ _
    · next frame hframe =>
      split
      · next f hf =>
        have hf : f.Known F := Frame.Known.set (hc.loopFrame frame hframe) hv hf
        exact .modify fun d hd => hd.spared_loopFrame hf
      · exact .failAt _ _

/-! ## Places -/

theorem respects_ofMember {object : Value} (h : object.Known F) (name : String) (target : Expr)
    (p : Position) : (Place.ofMember object name target p).Respects F (Place.Known F) :=
  .ite (.failAt _ _) (.ite (.viewing fun _ _ _ => .failAt _ _) (.pure h))

theorem respects_ofKey {object : Value} (h : object.Known F) (key : Value) (q : Position)
    (target : Expr) (p : Position) :
    (Place.ofKey object key q target p).Respects F (Place.Known F) := by
  refine .ite (.failAt _ _) ?_
  split
  · exact .bind (.toText _ _) fun _ _ => .pure h
  · exact .bind (.toText _ _) fun _ _ => .pure h
  · refine .bind (respects_sequenceAccessor _) ?_
    rintro (_ | accessor) -
    · exact .viewing fun _ _ _ => .failAt _ _
    · exact .bind (.toInteger _ _) fun _ _ => .pure h

theorem respects_read (place : Place) : place.read.Respects F (Value.Known F) := by
  unfold Place.read
  cases place with
  | member object name target p => exact respects_readMember object name
  | item accessor object index target p =>
    refine .tryView p fun s hs v hv => ?_
    cases hget : accessor.get s object index with
    | error e =>
      rw [hget] at hv
      cases hv
    | ok w =>
      rw [hget] at hv
      cases hv
      exact SequenceAccessor.known_get hs hget

/-- What no value refers to is not written. -/
theorem respects_write (hF : F.Sealed) {place : Place} (h : place.Known F) {v : Value}
    (hv : v.Known F) : (place.write v).Respects F fun _ => True := by
  unfold Place.write
  cases place with
  | member object name target p =>
    have hobject : object.Known F := h
    refine .bind (respects_writeMember (hobject.outside hF) _ hv) fun r _ => ?_
    split
    · exact .pure trivial
    · exact .failAt _ _
    · exact .failAt _ _
  | item accessor object index target p =>
    have hobject : object.Known F := h
    refine .tryStore p fun s hs u t ht => ?_
    split at ht
    · next t' ht' =>
      cases ht
      exact ⟨trivial, SequenceAccessor.spared_set hs (hobject.outside hF) hv ht'⟩
    · cases ht

/-! ## Built-in functions -/

theorem respects_newList {vs : List Value} (h : ∀ v ∈ vs, v.Known F) :
    (onStore fun s => s.newList vs).Respects F (Value.Known F) :=
  .onStore fun s hs =>
    have hopened := hs.opened (c := .items vs) h (v := .list s.cells.size) rfl
    ⟨hopened.1.1, hopened.2⟩

theorem respects_newMap {d : Dictionary Value} (h : d.All (Value.Known F)) :
    (onStore fun s => s.newMap d).Respects F fun v => v.Known F ∧ v.Outside F :=
  .onStore fun s hs => hs.opened (c := .entries d) h (v := .map s.cells.size) rfl

theorem respects_textsOf (p : Position) (vs : List Value) :
    (Builtin.textsOf p vs).Respects F fun _ => True := by
  induction vs with
  | nil => exact .pure trivial
  | cons v rest ih => exact .bind (.toText v p) fun _ _ => .bind ih fun _ _ => .pure trivial

theorem respects_rangeBounds (p : Position) (args : List Value) :
    (Builtin.rangeBounds p args).Respects F fun _ => True := by
  unfold Builtin.rangeBounds
  split
  · exact .failAt _ _
  · exact .bind (.toInteger _ _) fun _ _ => .pure trivial
  · exact .bind (.toInteger _ _) fun _ _ => .bind (.toInteger _ _) fun _ _ => .pure trivial

theorem known_rangeItems (start stop step : Int) :
    ∀ v ∈ rangeItems start stop step, v.Known F := by
  simp only [rangeItems, List.forall_mem_map]
  exact fun _ _ => Value.known_of_plain rfl

theorem respects_rangeOf (args : List Value) (p : Position) :
    (Builtin.rangeOf args p).Respects F (Value.Known F) := by
  refine .bind (respects_rangeBounds p args) fun ⟨start, stop⟩ _ => ?_
  have hstep : ∀ step : Int, True → Respects F (Value.Known F)
      (if step = 0 then failAt p (.type .rangeStep)
      else do
        let limit ← view fun c => c.limits.loops
        if limit < rangeCount start stop step then failAt p (.loopLimit limit)
        else onStore fun s => s.newList (rangeItems start stop step)) := fun step _ =>
    .ite (.failAt _ _) <| .viewing fun _ _ _ =>
      .ite (.failAt _ _) (respects_newList (known_rangeItems start stop step))
  dsimp only
  split
  · exact .bind (.toInteger _ _) hstep
  · exact .bind (.pure trivial) hstep

theorem respects_builtin (b : Builtin) {args : List Value} (h : ∀ v ∈ args, v.Known F)
    (p : Position) : (b.call args p).Respects F (Value.Known F) := by
  have hplain {α : Type} {x : Action α} {f : α → Value} (hx : x.Respects F fun _ => True)
      (hf : ∀ a, (f a).ref? = none) :
      (x >>= fun a => Pure.pure (f a)).Respects F (Value.Known F) :=
    .bind hx fun a _ => .pure (Value.known_of_plain (hf a))
  refine .ite (.failAt _ _) ?_
  cases b with
  | len => exact hplain (.tryView _ fun _ _ _ _ => trivial) fun _ => rfl
  | upper | lower | trim | str => exact hplain (.toText _ _) fun _ => rfl
  | join =>
    exact .bind (.toText _ _) fun _ _ =>
      .bind (A := fun _ => True) (.tryView _ fun _ _ _ _ => trivial) fun _ _ =>
      hplain (respects_textsOf _ _) fun _ => rfl
  | range => exact respects_rangeOf args p
  | keys =>
    exact .bind (A := fun _ => True) (.tryView _ fun _ _ _ _ => trivial) fun names _ =>
      respects_newList (Value.known_texts names)
  | default =>
    refine .pure ?_
    split
    · exact Builtin.known_argument h 1
    · exact Builtin.known_argument h 0
  | int => exact hplain (.toInteger _ _) fun _ => rfl

/-! ## Frames and output -/

theorem respects_bindLocal (name : String) {v : Value} (hv : v.Known F) :
    (bindLocal name v).Respects F fun _ => True :=
  .modify fun _ hc => hc.spared_pool (hc.frames.set _ ((hc.frames _).define name hv false))

theorem respects_bindLoop (name : String) {v : Value} (hv : v.Known F) :
    (bindLoop name v).Respects F fun _ => True := by
  intro c hc _
  unfold bindLoop
  split
  · next f hf =>
    exact ⟨hc.spared_loopFrame ((hc.loopFrame f hf).define name hv true), fun _ _ => trivial⟩
  · exact ⟨hc.spared, fun _ _ => trivial⟩

theorem respects_inheritLoop : inheritLoop.Respects F fun _ => True := by
  refine .modify fun c hc => ?_
  unfold Scopes.inheritLoop
  split
  · exact hc.spared_pool (hc.frames.set _ ((hc.frames _).update (hc.frames _)))
  · exact hc.spared

theorem respects_stepLoop : stepLoop.Respects F fun _ => True := by
  intro c hc _
  refine ⟨hc.spared_same (keeps_stepLoop c).whatever ?_ ?_ ?_, fun _ _ => trivial⟩ <;>
  · unfold stepLoop
    dsimp only
    split <;> rfl

theorem respects_writeText (text : String) : (writeText text).Respects F fun _ => True :=
  .modify fun c hc => hc.spared_same (keeps_writeText text c).whatever rfl rfl rfl

theorem respects_writeValue (v : Value) (p : Position) :
    (writeValue v p).Respects F fun _ => True :=
  .ite (.pure trivial) (.bind (.toText v p) fun t _ => respects_writeText t)

/-! ## Templates -/

/-- Loading a template gives no value, and it does not matter which model is the innermost one. -/
theorem spared_loadTemplate {c : Context} (hc : c.Known F) (path : String) (p : Position) :
    SparedWith F (fun _ => True) c (loadTemplate path p c) := by
  unfold loadTemplate
  rw [bind_of_ok (rfl : view id c = (.ok c, c)), id]
  cases c.loader with
  | none => exact .fail hc _
  | some loader =>
    dsimp only
    cases loader.resolve path c.source? with
    | error e => exact .fail hc _
    | ok name =>
      dsimp only
      cases c.templates.get? name with
      | some t => exact .pure hc trivial
      | none =>
        dsimp only
        cases loader.load name c.options with
        | error e => exact .fail hc _
        | ok t =>
          refine .bind (A := fun _ => True) (.onStore hc fun s hs => ⟨trivial, hs.renumber _⟩) ?_
          intro t d _ hd
          exact .bind (A := fun _ => True) ⟨hd.known.spared_same { Context.Kept.refl d with }
            rfl rfl rfl, fun _ _ => trivial⟩ fun _ e _ he => .pure he.known trivial

theorem respects_loadTemplate (path : String) (p : Position) :
    (loadTemplate path p).Respects F fun _ => True := fun _ hc _ => spared_loadTemplate hc path p

end Action

end TemplateEngine
