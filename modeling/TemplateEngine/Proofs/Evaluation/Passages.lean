import TemplateEngine.Proofs.Evaluation.Balance
import TemplateEngine.Proofs.Evaluation.Primitive

/-!
# Passages

Much of what is known of a run is a relation between the context before it and the context after
it: what was asked for on the way, or that something is sound if it was sound before. Such a
relation holds for everything that runs, however it ends, if it can be followed from context to
context and holds for the three steps that do more than work on the store, the scopes, the output
and the sources: finding the rule for members, finding the rule for items, and loading a template
(`Passage`). Everything else is made of these steps: the primitive actions (`Passage.primitive`),
the constructs of evaluation (`Passage.congruence`), and whatever the machine is asked for
(`Passage.machine`).
-/

namespace TemplateEngine

open TemplateEngine.Action

/-- What stands while values are worked on, scopes are opened and closed, and text is written. -/
def Context.standing (c : Context) : MemberAccessors × SequenceAccessors × Dictionary Template ×
    Option Loader × ParserOptions × Limits :=
  (c.members, c.sequences, c.templates, c.loader, c.options, c.limits)

/-- However the action ends, it leads to a context that is related to the one before. -/
def Action.Passes {α : Type} (R : Context → Context → Prop) (x : Action α) : Prop :=
  ∀ c : Context, R c (x c).2

/-- A relation between contexts that every step respects. -/
structure Passage (R : Context → Context → Prop) : Prop where
  aside {c d : Context} : d.standing = c.standing → R c d
  trans {c d e : Context} : R c d → R d e → R c e
  member (target : Value) : (memberAccessor target).Passes R
  sequence (target : Value) : (sequenceAccessor target).Passes R
  load (path : String) (p : Position) : (loadTemplate path p).Passes R

/-- Loading a template works on the store and on the templates that are kept. -/
theorem Action.leaves_loadTemplate {γ : Type} {f : Context → γ}
    (hf : ∀ (c : Context) (store : Store) (templates : Dictionary Template),
      f { c with store := store, templates := templates } = f c) (path : String) (p : Position) :
    (loadTemplate path p).Leaves f := by
  refine .bind (fun _ => rfl) fun c => ?_
  split
  · exact fun _ => rfl
  · split
    · exact fun _ => rfl
    · split
      · exact fun _ => rfl
      · split
        · exact fun _ => rfl
        · exact .bind (fun d => hf d _ d.templates) fun t =>
            .bind (fun d => hf d d.store _) fun _ => .pure t

variable {α β : Type} {R : Context → Context → Prop}

theorem Action.Passes.ite {p : Prop} [Decidable p] {x y : Action α} (hx : x.Passes R)
    (hy : y.Passes R) : (if p then x else y).Passes R := by
  split
  · exact hx
  · exact hy

namespace Passage

variable (h : Passage R)

include h

/-! ## Steps -/

theorem of_leaves {x : Action α} (hx : x.Leaves Context.standing) : x.Passes R :=
  fun c => h.aside (hx c)

protected theorem pure (a : α) : (pure a : Action α).Passes R := h.of_leaves fun _ => rfl

theorem bind {x : Action α} {f : α → Action β} (hx : x.Passes R) (hf : ∀ a, (f a).Passes R) :
    (x >>= f).Passes R := fun c =>
  holds_after_bind (P := R c) (hx c) fun a d hd => h.trans hd (hf a d)

theorem view (f : Context → α) : (view f).Passes R := h.of_leaves fun _ => rfl

theorem failAt (p : Position) (fault : ScriptFault) : (failAt p fault : Action α).Passes R :=
  h.of_leaves fun _ => rfl

theorem onStore (f : Store → α × Store) : (onStore f).Passes R := h.of_leaves fun _ => rfl

theorem tryView (p : Position) (f : Store → Except ScriptFault α) : (tryView p f).Passes R := by
  refine h.of_leaves fun c => ?_
  unfold Action.tryView
  split <;> rfl

theorem tryStore (p : Position) (f : Store → Except ScriptFault (α × Store)) :
    (tryStore p f).Passes R := by
  refine h.of_leaves fun c => ?_
  unfold Action.tryStore
  split <;> rfl

theorem withSuppression {x : Action α} (b : Bool) (hx : x.Passes R) :
    (withSuppression b x).Passes R := fun c =>
  have hset : R c { c with suppressed := b } := h.aside rfl
  h.trans hset (h.trans (hx _) (h.aside rfl))

/-! ## Members and variables -/

theorem readMember (target : Value) (name : String) : (readMember target name).Passes R := by
  refine h.bind (h.member target) fun _ => h.bind (h.view _) fun answer => ?_
  cases answer with
  | value v => exact h.pure v
  | newFunction name operation => exact h.onStore _

theorem writeMember (target : Value) (name : String) (v : Value) :
    (writeMember target name v).Passes R :=
  h.bind (h.member target) fun _ => h.onStore _

theorem readGlobal (name : String) (gs : List GlobalFrame) : (readGlobal name gs).Passes R := by
  induction gs with
  | nil => exact h.pure _
  | cons g rest ih => exact h.bind (h.readMember g.model name) fun _ => .ite ih (h.pure _)

theorem readVariable (ref : VarRef) : (readVariable ref).Passes R := by
  unfold Action.readVariable
  split
  · exact h.bind (h.view _) fun _ => h.readGlobal _ _
  · exact h.view _
  · refine h.bind (h.view _) fun frame => ?_
    cases frame with
    | none => exact h.failAt _ _
    | some frame => exact h.pure _

theorem writeVariable (ref : VarRef) (v : Value) : (writeVariable ref v).Passes R := by
  unfold Action.writeVariable
  split
  · refine h.bind (h.view _) fun g => .ite (h.failAt _ _) ?_
    refine h.bind (h.writeMember _ _ _) fun r => ?_
    split
    · exact h.pure _
    · exact h.failAt _ _
    · exact h.bind (h.view _) fun _ => h.failAt _ _
  · refine h.bind (h.view _) fun frame => ?_
    split
    · exact h.of_leaves fun _ => rfl
    · exact h.failAt _ _
  · refine h.bind (h.view _) fun frame => ?_
    split
    · exact h.failAt _ _
    · split
      · exact h.of_leaves fun _ => rfl
      · exact h.failAt _ _

/-! ## Places -/

theorem ofKey (object key : Value) (q : Position) (target : Expr) (p : Position) :
    (Place.ofKey object key q target p).Passes R := by
  refine .ite (h.failAt _ _) ?_
  split
  · exact h.bind (h.tryView _ _) fun _ => h.pure _
  · exact h.bind (h.tryView _ _) fun _ => h.pure _
  · refine h.bind (h.sequence _) fun accessor => ?_
    cases accessor with
    | none => exact h.bind (h.view _) fun _ => h.failAt _ _
    | some accessor => exact h.bind (h.tryView _ _) fun _ => h.pure _

theorem read (place : Place) : place.read.Passes R := by
  cases place with
  | member object name target p => exact h.readMember object name
  | item accessor object index target p => exact h.tryView p _

theorem write (v : Value) (place : Place) : (place.write v).Passes R := by
  cases place with
  | member object name target p =>
    refine h.bind (h.writeMember _ _ _) fun r => ?_
    split
    · exact h.pure _
    · exact h.failAt _ _
    · exact h.failAt _ _
  | item accessor object index target p => exact h.tryStore p _

/-! ## Built-in functions -/

theorem textsOf (p : Position) (vs : List Value) : (Builtin.textsOf p vs).Passes R := by
  induction vs with
  | nil => exact h.pure _
  | cons v rest ih => exact h.bind (h.tryView p _) fun _ => h.bind ih fun _ => h.pure _

theorem rangeBounds (p : Position) (args : List Value) :
    (Builtin.rangeBounds p args).Passes R := by
  unfold Builtin.rangeBounds
  split
  · exact h.failAt _ _
  · exact h.bind (h.tryView p _) fun _ => h.pure _
  · exact h.bind (h.tryView p _) fun _ => h.bind (h.tryView p _) fun _ => h.pure _

theorem rangeOf (args : List Value) (p : Position) : (Builtin.rangeOf args p).Passes R := by
  refine h.bind (h.rangeBounds p args) fun ⟨start, stop⟩ => ?_
  have hstep : ∀ step : Int, Passes R
      (if step = 0 then Action.failAt p (.type .rangeStep)
      else do
        let limit ← Action.view fun c => c.limits.loops
        if limit < rangeCount start stop step then Action.failAt p (.loopLimit limit)
        else Action.onStore fun s => s.newList (rangeItems start stop step)) := fun step =>
    .ite (h.failAt _ _) (h.bind (h.view _) fun limit => .ite (h.failAt _ _) (h.onStore _))
  dsimp only
  split
  · exact h.bind (h.tryView p _) hstep
  · exact h.bind (h.pure _) hstep

theorem builtin (b : Builtin) (args : List Value) (p : Position) : (b.call args p).Passes R := by
  refine .ite (h.failAt _ _) ?_
  cases b with
  | join =>
    exact h.bind (h.tryView _ _) fun _ => h.bind (h.tryView _ _) fun _ =>
      h.bind (h.textsOf _ _) fun _ => h.pure _
  | range => exact h.rangeOf args p
  | keys => exact h.bind (h.tryView _ _) fun _ => h.onStore _
  | default => exact h.pure _
  | len | upper | lower | trim | str | int => exact h.bind (h.tryView _ _) fun _ => h.pure _

theorem primitive {x : Action α} (hx : x.Primitive) : x.Passes R := by
  cases hx with
  | suppressed | inStore => exact h.view _
  | failAt p fault => exact h.failAt p fault
  | tryView p f => exact h.tryView p f
  | newList | newMap | newNamespace => exact h.onStore _
  | bindLocal | inheritLoop => exact h.of_leaves fun _ => rfl
  | binary p op a b => exact h.tryStore p _
  | readVariable ref => exact h.readVariable ref
  | writeVariable ref v => exact h.writeVariable ref v
  | ofMember object name target p =>
    exact .ite (h.failAt _ _) (.ite (h.bind (h.view _) fun _ => h.failAt _ _) (h.pure _))
  | ofKey object key q target p => exact h.ofKey object key q target p
  | read place => exact h.read place
  | write v place => exact h.write v place
  | builtin b args p => exact h.builtin b args p
  | load path p => exact h.load path p

/-! ## Frames, rounds and output -/

theorem bindLoop (name : String) (v : Value) : (bindLoop name v).Passes R := by
  refine h.of_leaves fun c => ?_
  unfold Action.bindLoop
  split <;> rfl

theorem stepLoop : stepLoop.Passes R := by
  refine h.of_leaves fun c => ?_
  unfold Action.stepLoop
  dsimp only
  split <;> rfl

theorem writeValue (v : Value) (p : Position) : (writeValue v p).Passes R := by
  unfold Action.writeValue
  exact .ite (h.pure ()) (h.bind (h.tryView p _) fun _ => h.of_leaves fun _ => rfl)

theorem setReadOnly (ref : VarRef) (readOnly : Bool) : (setReadOnly ref readOnly).Passes R := by
  unfold Action.setReadOnly
  split
  · refine h.of_leaves fun c => ?_
    dsimp only [Action.modify]
    split <;> rfl
  · exact h.of_leaves fun _ => rfl
  · refine h.bind (h.view _) fun frame => ?_
    cases frame with
    | none => exact h.failAt _ _
    | some frame => exact h.of_leaves fun _ => rfl

theorem enterFunction (p : Position) : (enterFunction p).Passes R := by
  refine h.of_leaves fun c => ?_
  unfold Action.enterFunction
  split <;> rfl

theorem pushGlobal (model : Value) : (pushGlobal model).Passes R := by
  refine h.of_leaves fun c => ?_
  unfold Action.pushGlobal
  split <;> rfl

theorem pushSource (name : String) : (pushSource name).Passes R := by
  refine h.of_leaves fun c => ?_
  unfold Action.pushSource
  split <;> rfl

theorem close (r : Region) : r.close.Passes R :=
  h.of_leaves <| r.close_leaves (fun _ _ => rfl) (fun _ _ => rfl) fun _ _ _ => rfl

/-- What a region holds passes between its opening and its closing. -/
theorem holding (r : Region) {opening : Action Unit} {x : Action α} (ho : opening.Passes R)
    (hx : x.Passes R) : (r.holding opening x).Passes R := by
  intro c
  by_cases hok : (opening c).1 = .ok ()
  · rw [Region.holding_snd_of_ok (Prod.ext hok rfl)]
    exact h.trans (ho c) (h.trans (hx _) (h.close r _))
  · rw [Region.holding_snd_of_not_ok fun _ => hok]
    exact ho c

/-! ## Runs -/

theorem countedRound {prepare : Action Unit} {body : Action Flow} (hp : prepare.Passes R)
    (hb : body.Passes R) : (Machine.countedRound prepare body).Passes R :=
  h.bind h.stepLoop fun _ => h.bind hp fun _ => hb

theorem bindRound (name : String) (length : Nat) (item : Value × Nat) :
    (Machine.bindRound name length item).Passes R :=
  h.bind (h.bindLoop _ _) fun _ => h.bind (h.onStore _) fun _ => h.bindLoop _ _

theorem whileBody {condition : Action Value} {body : Action Flow} (hc : condition.Passes R)
    (hb : body.Passes R) : (Machine.whileBody condition body).Passes R := by
  rw [Machine.whileBody_eq]
  refine h.bind hc fun v => h.bind (h.view _) fun holds => .ite ?_ (h.pure _)
  exact h.bind (h.countedRound (h.pure ()) hb) fun _ => h.pure _

theorem repeatRound {round : Action (Option Flow)} (hr : round.Passes R) (bound : Nat) :
    Action.Passes R (Machine.repeatRound round bound) := by
  induction bound with
  | zero => exact h.of_leaves fun _ => rfl
  | succ n ih =>
    rw [Machine.repeatRound_succ]
    refine h.bind hr fun flow => ?_
    cases flow with
    | none => exact ih
    | some flow => exact h.pure flow

omit h in
/-- Every construct passes. -/
def congruence (h : Passage R) : Congruence fun _ _ _ x _ => x.Passes R where
  pure := h.pure
  bind := h.bind
  congr hx _ hpasses := hx ▸ hpasses
  up hpasses := hpasses
  primitive := h.primitive
  suppress b _ _ hx := h.withSuppression b hx
  text _ := h.of_leaves fun _ => rfl
  function p _ _ hx := h.holding _ (h.enterFunction p) hx
  global model _ _ hx := h.holding _ (h.pushGlobal model) hx
  source name _ _ hx := h.holding _ (h.pushSource name) hx
  output hx := h.holding _ (h.of_leaves fun _ => rfl) hx
  loop _ _ _ hx := h.holding _ (h.of_leaves fun _ => rfl) hx
  round name length item _ _ hx := h.countedRound (h.bindRound name length item) hx
  whileRounds hc hb _ := h.repeatRound (h.whileBody hc hb) _ _

end Passage

/-! ## Machines -/

/-- Whatever the machine is asked for passes. -/
structure Machine.Passes (R : Context → Context → Prop) (m : Machine) : Prop where
  run (b : Block) : (m.run b).Passes R
  native (f : Native) (args : List Value) (p : Position) : (m.native f args p).Passes R

/-- The operations of the host pass if what they ask the machine for does. -/
def Host.Passes (R : Context → Context → Prop) (host : Host) : Prop :=
  ∀ (f : Native) (m : Machine), m.Passes R → ∀ args p, (host f m args p).Passes R

namespace Passage

variable (h : Passage R)

include h

theorem none : Host.none.Passes R := fun _ _ _ _ _ => h.of_leaves fun _ => rfl

/-- Whatever runs passes, by induction on the levels of calls. -/
theorem machine {host : Host} (hhost : host.Passes R) (n : Nat) : (machine host n).Passes R := by
  induction n with
  | zero => exact ⟨fun _ => h.of_leaves fun _ => rfl, fun _ _ _ => h.of_leaves fun _ => rfl⟩
  | succ n ih =>
    exact ⟨h.congruence.block (n := TemplateEngine.machine host n) ih.run ih.native,
      fun f args p => hhost f _ ih args p⟩

end Passage

end TemplateEngine
