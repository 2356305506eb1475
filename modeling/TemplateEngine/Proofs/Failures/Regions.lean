import TemplateEngine.Proofs.Evaluation.Balance
import TemplateEngine.Proofs.Evaluation.Primitive

/-!
# Fair failures

The actions that evaluation is put together from fail because of the script, if they fail, and not
because the engine is used wrongly. Loading aside, they leave the templates that were loaded alone
(`Action.Plain`).

A failure is fair if the script is to blame, or else what surrounds the run: a source on the shelf
that has no name, or an operation of the host (`EvalError.Fair`). Ways to put actions together keep
failures fair (`Action.Fair`). Regions do so because whatever is opened is there to be closed,
however the body ends (`Region.Closes`): the body leaves the context standing.
-/

namespace TemplateEngine

/-! ## Failures because of the script -/

namespace Action

variable {α β : Type}

/-- The action fails because of the script, if it fails, and loads no template. -/
def Plain (x : Action α) : Prop :=
  ∀ c : Context, (∀ e, (x c).1 = .error e → e.isRuntime = true) ∧ (x c).2.templates = c.templates

namespace Plain

theorem pure (a : α) : Plain (pure a : Action α) := fun _ => ⟨fun _ => nofun, rfl⟩

theorem bind {x : Action α} {f : α → Action β} (hx : x.Plain) (hf : ∀ a, (f a).Plain) :
    (x >>= f).Plain := by
  intro c
  obtain ⟨hfails, htemplates⟩ := hx c
  rcases h : x c with ⟨a | e | _, d⟩ <;> rw [h] at hfails htemplates
  · rw [bind_of_ok h]
    exact ⟨(hf a d).1, (hf a d).2.trans htemplates⟩
  · rw [bind_of_error h]
    refine ⟨?_, htemplates⟩
    rintro _ ⟨⟩
    exact hfails e rfl
  · rw [bind_of_outOfFuel h]
    exact ⟨fun _ => nofun, htemplates⟩

theorem ite {p : Prop} [Decidable p] {x y : Action α} (hx : x.Plain) (hy : y.Plain) :
    (if p then x else y).Plain := by
  split
  · exact hx
  · exact hy

theorem view (f : Context → α) : Plain (view f) := fun _ => ⟨fun _ => nofun, rfl⟩

theorem failAt (p : Position) (fault : ScriptFault) : Plain (failAt p fault : Action α) := by
  refine fun _ => ⟨?_, rfl⟩
  rintro _ ⟨⟩
  rfl

theorem onStore (f : Store → α × Store) : Plain (onStore f) := fun _ => ⟨fun _ => nofun, rfl⟩

theorem tryView (p : Position) (f : Store → Except ScriptFault α) : Plain (tryView p f) := by
  intro c
  unfold Action.tryView
  split
  · exact ⟨fun _ => nofun, rfl⟩
  · exact failAt p _ c

theorem tryStore (p : Position) (f : Store → Except ScriptFault (α × Store)) :
    Plain (tryStore p f) := by
  intro c
  unfold Action.tryStore
  split
  · exact ⟨fun _ => nofun, rfl⟩
  · exact failAt p _ c

end Plain

/-! ### Members and variables -/

theorem plain_memberAccessor (target : Value) : (memberAccessor target).Plain :=
  fun _ => ⟨fun _ => nofun, rfl⟩

theorem plain_sequenceAccessor (target : Value) : (sequenceAccessor target).Plain :=
  fun _ => ⟨fun _ => nofun, rfl⟩

theorem plain_readMember (target : Value) (name : String) : (readMember target name).Plain := by
  refine .bind (plain_memberAccessor target) fun _ => .bind (.view _) fun a => ?_
  cases a with
  | value v => exact .pure v
  | newFunction name operation => exact .onStore _

theorem plain_writeMember (target : Value) (name : String) (v : Value) :
    (writeMember target name v).Plain :=
  .bind (plain_memberAccessor target) fun _ => .onStore _

theorem plain_readGlobal (name : String) (gs : List GlobalFrame) : (readGlobal name gs).Plain := by
  induction gs with
  | nil => exact .pure _
  | cons g rest ih => exact .bind (plain_readMember g.model name) fun _ => .ite ih (.pure _)

theorem plain_readVariable (ref : VarRef) : (readVariable ref).Plain := by
  unfold readVariable
  split
  · exact .bind (.view _) fun _ => plain_readGlobal _ _
  · exact .view _
  · refine .bind (.view _) fun frame => ?_
    cases frame with
    | none => exact .failAt _ _
    | some frame => exact .pure _

theorem plain_writeVariable (ref : VarRef) (v : Value) : (writeVariable ref v).Plain := by
  unfold writeVariable
  split
  · refine .bind (.view _) fun g => .ite (.failAt _ _) ?_
    refine .bind (plain_writeMember _ _ _) fun r => ?_
    split
    · exact .pure _
    · exact .failAt _ _
    · exact .bind (.view _) fun _ => .failAt _ _
  · refine .bind (.view _) fun frame => ?_
    split
    · exact fun _ => ⟨fun _ => nofun, rfl⟩
    · exact .failAt _ _
  · refine .bind (.view _) fun frame => ?_
    split
    · exact .failAt _ _
    · split
      · exact fun _ => ⟨fun _ => nofun, rfl⟩
      · exact .failAt _ _

/-! ### Places -/

theorem plain_toText (v : Value) (p : Position) : (toText v p).Plain := .tryView p _

theorem plain_toInteger (v : Value) (p : Position) : (toInteger v p).Plain := .tryView p _

theorem plain_ofMember (object : Value) (name : String) (target : Expr) (p : Position) :
    (Place.ofMember object name target p).Plain :=
  .ite (.failAt _ _) (.ite (.bind (.view _) fun _ => .failAt _ _) (.pure _))

theorem plain_ofKey (object key : Value) (q : Position) (target : Expr) (p : Position) :
    (Place.ofKey object key q target p).Plain := by
  refine .ite (.failAt _ _) ?_
  split
  · exact .bind (plain_toText _ _) fun _ => .pure _
  · exact .bind (plain_toText _ _) fun _ => .pure _
  · refine .bind (plain_sequenceAccessor _) fun accessor => ?_
    cases accessor with
    | none => exact .bind (.view _) fun _ => .failAt _ _
    | some accessor => exact .bind (plain_toInteger _ _) fun _ => .pure _

theorem plain_read (place : Place) : place.read.Plain := by
  cases place with
  | member object name target p => exact plain_readMember object name
  | item accessor object index target p => exact .tryView p _

theorem plain_write (v : Value) (place : Place) : (place.write v).Plain := by
  cases place with
  | member object name target p =>
    refine .bind (plain_writeMember _ _ _) fun r => ?_
    split
    · exact .pure _
    · exact .failAt _ _
    · exact .failAt _ _
  | item accessor object index target p => exact .tryStore p _

/-! ### Built-in functions -/

theorem plain_textsOf (p : Position) (vs : List Value) : (Builtin.textsOf p vs).Plain := by
  induction vs with
  | nil => exact .pure _
  | cons v rest ih => exact .bind (plain_toText v p) fun _ => .bind ih fun _ => .pure _

theorem plain_rangeOf (args : List Value) (p : Position) : (Builtin.rangeOf args p).Plain := by
  have hbounds : (Builtin.rangeBounds p args).Plain := by
    unfold Builtin.rangeBounds
    split
    · exact .failAt _ _
    · exact .bind (plain_toInteger _ _) fun _ => .pure _
    · exact .bind (plain_toInteger _ _) fun _ => .bind (plain_toInteger _ _) fun _ => .pure _
  refine .bind hbounds fun ⟨start, stop⟩ => ?_
  have hstep : ∀ step : Int, Plain
      (if step = 0 then failAt p (.type .rangeStep)
      else do
        let limit ← view fun c => c.limits.loops
        if limit < rangeCount start stop step then failAt p (.loopLimit limit)
        else onStore fun s => s.newList (rangeItems start stop step)) := fun step =>
    .ite (.failAt _ _) (.bind (.view _) fun limit => .ite (.failAt _ _) (.onStore _))
  dsimp only
  split
  · exact .bind (plain_toInteger _ _) hstep
  · exact .bind (.pure _) hstep

theorem plain_builtin (b : Builtin) (args : List Value) (p : Position) :
    (b.call args p).Plain := by
  refine .ite (.failAt _ _) ?_
  cases b with
  | len => exact .bind (.tryView _ _) fun _ => .pure _
  | upper => exact .bind (plain_toText _ _) fun _ => .pure _
  | lower => exact .bind (plain_toText _ _) fun _ => .pure _
  | trim => exact .bind (plain_toText _ _) fun _ => .pure _
  | join =>
    exact .bind (plain_toText _ _) fun _ => .bind (.tryView _ _) fun _ =>
      .bind (plain_textsOf _ _) fun _ => .pure _
  | range => exact plain_rangeOf args p
  | keys => exact .bind (.tryView _ _) fun _ => .onStore _
  | default => exact .pure _
  | str => exact .bind (plain_toText _ _) fun _ => .pure _
  | int => exact .bind (plain_toInteger _ _) fun _ => .pure _

end Action

open TemplateEngine.Action

/-! ## Contexts over a shelf -/

/-- What a run is surrounded by: the shelf that templates come from, and what the operations of the
host can fail with beside what a script can. -/
structure Surroundings where
  shelf : Option Shelf
  own : EvalError → Prop

/-- The templates of the context come from the shelf, if there is one, and are kept under their own
names; a loop is open if this is said. -/
structure Context.Over (s : Surroundings) (looping : Bool) (c : Context) : Prop where
  loader : c.loader = s.shelf.map Shelf.loader
  named : ∀ name t, c.templates.get? name = some t → t.name = name
  loop : looping = true → c.scopes.loops ≠ []

/-- The shelf has a source at its root, under no name. -/
def Surroundings.HasNameless (s : Surroundings) : Prop :=
  ∃ x ∈ s.shelf, x.sources.contains "" = true

/-- The script is to blame, or a source without a name, or an operation of the host. -/
def EvalError.Fair (s : Surroundings) (e : EvalError) : Prop :=
  e.isRuntime = true ∨ (e = .usage .sourceNameMissing ∧ s.HasNameless) ∨ s.own e

variable {s : Surroundings} {l : Bool}

theorem Context.Over.of_still {c d : Context} (h : c.Over s l) (hd : c.Still d)
    (ht : d.templates = c.templates) : d.Over s l where
  loader := by
    rw [← h.loader, ← hd]
  named := ht ▸ h.named
  loop := hd.loops ▸ h.loop

/-- The action leaves the context standing and its templates under their names, and its failures are
fair. -/
structure Action.Fair (s : Surroundings) (l : Bool) (v : Voice) {α : Type} (x : Action α) :
    Prop where
  keeps : x.Keeps v.Change
  stays (c : Context) : c.Over s l → (x c).2.Over s l
  fails (c : Context) : c.Over s l → ∀ e, (x c).1 = .error e → e.Fair s

namespace Action.Fair

variable {α β : Type} {v : Voice} {x : Action α} {f : α → Action β}

theorem plain (hq : x.Quiet) (hp : x.Plain) : Fair s l .silent x where
  keeps := hq.keeps
  stays c hc := hc.of_still (hq c).2 (hp c).2
  fails c _ e he := .inl ((hp c).1 e he)

theorem pure (a : α) : Fair s l .silent (pure a : Action α) := plain (.pure a) (.pure a)

theorem outOfFuel : Fair s l v (outOfFuel : Action α) :=
  ⟨fun c => .refl c, fun _ hc => hc, fun _ _ _ => nofun⟩

/-- The second part has to be fair after the results that the first part has in contexts over the
shelf. In other contexts it has to leave the context standing, too. -/
theorem bind_over {A : α → Prop} (hx : Fair s l v x)
    (hA : ∀ c, c.Over s l → ∀ a, (x c).1 = .ok a → A a) (hkeeps : (x >>= f).Keeps v.Change)
    (hf : ∀ a, A a → Fair s l v (f a)) : Fair s l v (x >>= f) where
  keeps := hkeeps
  stays c hc := by
    have hd := hx.stays c hc
    have ha := hA c hc
    rcases h : x c with ⟨a | e | _, d⟩ <;> rw [h] at hd ha
    · rw [bind_of_ok h]
      exact (hf a (ha a rfl)).stays d hd
    · rw [bind_of_error h]
      exact hd
    · rw [bind_of_outOfFuel h]
      exact hd
  fails c hc := by
    have hd := hx.stays c hc
    have ha := hA c hc
    have hfails := hx.fails c hc
    rcases h : x c with ⟨a | e | _, d⟩ <;> rw [h] at hd ha hfails
    · rw [bind_of_ok h]
      exact (hf a (ha a rfl)).fails d hd
    · rw [bind_of_error h]
      rintro _ ⟨⟩
      exact hfails e rfl
    · rw [bind_of_outOfFuel h]
      exact fun _ => nofun

/-- The second part has to be fair after the results that the first part has. -/
theorem bind_of {A : α → Prop} (hx : Fair s l v x) (hA : ∀ c a, (x c).1 = .ok a → A a)
    (hf : ∀ a, A a → Fair s l v (f a)) : Fair s l v (x >>= f) := by
  refine bind_over hx (fun c _ => hA c) (fun c => ?_) hf
  have hd := hx.keeps c
  have ha := hA c
  rcases h : x c with ⟨a | e | _, d⟩ <;> rw [h] at hd ha
  · rw [bind_of_ok h]
    exact hd.trans ((hf a (ha a rfl)).keeps d)
  · rw [bind_of_error h]
    exact hd
  · rw [bind_of_outOfFuel h]
    exact hd

theorem bind (hx : Fair s l v x) (hf : ∀ a, Fair s l v (f a)) : Fair s l v (x >>= f) :=
  bind_of (A := fun _ => True) hx (fun _ _ _ => trivial) fun a _ => hf a

/-- What goes on with the result of an operation on the store. -/
theorem onStore_bind {g : Store → α × Store} (hf : ∀ st, Fair s l .silent (f (g st).1)) :
    Fair s l .silent (onStore g >>= f) := by
  refine bind_of (A := fun a => ∃ st, (g st).1 = a) (plain (.onStore g) (.onStore g)) ?_ ?_
  · rintro c _ ⟨⟩
    exact ⟨c.store, rfl⟩
  · rintro _ ⟨st, rfl⟩
    exact hf st

theorem up (h : Fair s l .silent x) : Fair s l .writing x := ⟨h.keeps.up, h.stays, h.fails⟩

theorem ite {p : Prop} [Decidable p] {y : Action α} (hx : Fair s l v x) (hy : Fair s l v y) :
    Fair s l v (if p then x else y) := by
  split
  · exact hx
  · exact hy

/-- In a loop, too, since no loop is closed. -/
theorem inner (h : Fair s false v x) : Fair s l v x := by
  have hout (c : Context) (hc : c.Over s l) : c.Over s false := ⟨hc.loader, hc.named, nofun⟩
  refine ⟨h.keeps, fun c hc => ?_, fun c hc => h.fails c (hout c hc)⟩
  have hd := h.stays c (hout c hc)
  exact ⟨hd.loader, hd.named, (h.keeps c).loops ▸ hc.loop⟩

theorem withSuppression (b : Bool) (h : Fair s l .silent x) :
    Fair s l .silent (withSuppression b x) where
  keeps := h.keeps.withSuppression b
  stays c hc :=
    have hd := h.stays { c with suppressed := b } ⟨hc.loader, hc.named, hc.loop⟩
    ⟨hd.loader, hd.named, hd.loop⟩
  fails c hc := h.fails { c with suppressed := b } ⟨hc.loader, hc.named, hc.loop⟩

theorem writeText (t : String) : Fair s l .writing (writeText t) where
  keeps := keeps_writeText t
  stays _ hc := ⟨hc.loader, hc.named, hc.loop⟩
  fails _ _ _ := nofun

theorem first {x : Action (α × Value)} (h : Fair s l v x) :
    Fair s l v (x >>= fun r => Pure.pure r.1) := by
  cases v with
  | silent => exact h.bind fun _ => .pure _
  | writing => exact h.bind fun _ => .up (.pure _)

end Action.Fair

/-! ## Regions -/

/-- Where templates come from and which of them are there. -/
def Context.files (c : Context) : Option Loader × Dictionary Template := (c.loader, c.templates)

theorem Context.Over.of_files {c d : Context} (h : c.Over s l) (hfiles : d.files = c.files)
    {looping : Bool} (hloop : looping = true → d.scopes.loops ≠ []) : d.Over s looping where
  loader := (congrArg Prod.fst hfiles).trans h.loader
  named := by
    have htemplates : d.templates = c.templates := congrArg Prod.snd hfiles
    exact htemplates ▸ h.named
  loop := hloop

/-- What is opened is given back, it can be closed after the body, and opening it fails only as
said. In the body a loop is open if this is said. -/
structure Region.Closes (s : Surroundings) (looping : Bool) (r : Region) (opening : Action Unit)
    (body out : Voice) : Prop where
  restores : r.Restores opening body.Change out.Change
  files : opening.Leaves Context.files
  fails (c : Context) : ∀ e, (opening c).1 = .error e → e.Fair s
  loops (c : Context) : looping = true → (opening c).2.scopes.loops ≠ []
  closes (c d : Context) : (opening c).1 = .ok () → (opening c).2.Kept body.Change d →
    ∃ a, (r.close d).1 = .ok a

namespace Region

theorem close_leaves_files (r : Region) : r.close.Leaves Context.files :=
  r.close_leaves (fun _ _ => rfl) (fun _ _ => rfl) fun _ _ _ => rfl

/-- An action in a region is fair, if it is so in what opening the region leaves behind. -/
theorem fair_holding {α : Type} {r : Region} {opening : Action Unit} {body out : Voice}
    {x : Action α} (h : r.Closes s l opening body out) (hx : x.Fair s l body) :
    (r.holding opening x).Fair s false out where
  keeps := keeps_holding h.restores hx.keeps
  stays c hc := by
    have hopened : (opening c).2.Over s l := hc.of_files (h.files c) (h.loops c)
    by_cases hok : (opening c).1 = .ok ()
    · rw [holding_snd_of_ok (Prod.ext hok rfl)]
      exact (hx.stays _ hopened).of_files (r.close_leaves_files _) nofun
    · rw [holding_snd_of_not_ok fun _ => hok]
      exact hc.of_files (h.files c) nofun
  fails c hc := by
    have hopened : (opening c).2.Over s l := hc.of_files (h.files c) (h.loops c)
    have hfails := h.fails c
    have hbody := hx.fails _ hopened
    have hcloses := h.closes c (x (opening c).2).2
    have hkept := hx.keeps (opening c).2
    unfold holding between
    rcases hopen : opening c with ⟨u | e | _, d⟩ <;> rw [hopen] at hfails hbody hcloses hkept
    · dsimp only at hbody hcloses hkept ⊢
      obtain ⟨v, hv⟩ := hcloses rfl hkept
      rcases hx' : x d with ⟨a | e | _, d'⟩ <;> rw [hx'] at hbody hv
      · dsimp only at hv ⊢
        rcases hclose : r.close d' with ⟨v | e | _, d''⟩
        · exact fun _ => nofun
        · rw [hclose] at hv
          cases hv
        · exact fun _ => nofun
      · rintro _ ⟨⟩
        exact hbody e rfl
      · exact fun _ => nofun
    · rintro _ ⟨⟩
      exact hfails e rfl
    · exact fun _ => nofun

theorem closes_function (p : Position) (v : Voice) :
    function.Closes s false (enterFunction p) v v where
  restores := restores_function p
  files c := by
    unfold enterFunction
    split <;> rfl
  fails c e he := by
    unfold enterFunction at he
    split at he
    · cases he
    · cases he
      exact .inl rfl
  loops _ := nofun
  closes c d hok hd := by
    unfold enterFunction at hok hd
    split at hok
    · next hdepth =>
      rw [if_pos hdepth] at hd
      have hd' : d.scopes.depth = c.scopes.depth + 1 := hd.depth
      have hl : d.scopes.locals = c.scopes.locals.push _ := hd.locals
      exact ⟨.undefined, by simp [close, exitFunction, Scopes.popLocal?, bind_apply, hd', hl,
        Stack.pop?_push]⟩
    · cases hok

theorem closes_loop (p : Position) : loop.Closes s true (enterLoop p) .writing .writing where
  restores := restores_loop p
  files _ := rfl
  fails _ _ := nofun
  loops _ _ := List.cons_ne_nil _ _
  closes c d _ hd := by
    have hl : d.scopes.loops = _ :: c.scopes.loops := hd.loops
    exact ⟨.undefined, by simp [close, exitLoop, Scopes.popLoop?, bind_apply, hl]⟩

/-- A model that is there can be opened. -/
theorem closes_global {model : Value} (hmodel : model.isAbsent = false) (v : Voice) :
    global.Closes s false (pushGlobal model) v v where
  restores := restores_global model
  files c := by
    unfold pushGlobal
    split <;> rfl
  fails c e he := by
    unfold pushGlobal at he
    rw [hmodel] at he
    cases he
  loops _ := nofun
  closes c d _ hd := by
    unfold pushGlobal at hd
    rw [hmodel] at hd
    have hg : d.scopes.globals = c.scopes.globals.push _ := hd.globals
    have hl : d.scopes.locals = c.scopes.locals.push _ := hd.locals
    exact ⟨model, by simp [close, popGlobal, Scopes.popGlobal?, hg, hl, Stack.pop?_push]⟩

/-- A template can be put on the stack of sources if it has a name, or else a source without a name
is to blame. -/
theorem closes_source {name : String} (hname : name = "" → s.HasNameless) (v : Voice) :
    source.Closes s false (pushSource name) v v where
  restores := restores_source name
  files c := by
    unfold pushSource
    split <;> rfl
  fails c e he := by
    unfold pushSource at he
    split at he
    · next hempty =>
      cases he
      exact .inr (.inl ⟨rfl, hname (String.isEmpty_iff.1 hempty)⟩)
    · cases he
  loops _ := nofun
  closes c d hok hd := by
    unfold pushSource at hok hd
    split at hok
    · cases hok
    · next hnonempty =>
      rw [if_neg hnonempty] at hd
      have hs : d.sources = name :: c.sources := hd.sources
      exact ⟨.text name, by simp [close, popSource, bind_apply, hs]⟩

theorem closes_output : output.Closes s false pushOutput .writing .silent where
  restores := restores_output
  files _ := rfl
  fails _ _ := nofun
  loops _ := nofun
  closes c d _ hd := by
    obtain ⟨text, hpop⟩ := hd.output.pop?_of_push
    exact ⟨.text text, by simp [close, popOutput, bind_apply, hpop]⟩

end Region

end TemplateEngine
