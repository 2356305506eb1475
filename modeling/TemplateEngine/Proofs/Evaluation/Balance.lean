import TemplateEngine.Proofs.Evaluation.Congruence

/-!
# Balance

Whatever a run does and however it ends, it leaves the context standing as it was: what was opened
has been closed again, so the models, frames, loops, calls and sources are those from before, and so
are the buffers, of which a block can only have added to the one on top (`Context.Kept`). Each kind
of region gives back what stood before it (`Region.Restores`), everything else opens nothing, and
the evaluation is put together from these.
-/

namespace TemplateEngine

/-- The second output is the first one with some text added to the buffer on top. -/
def Output.Extends (o p : Output) : Prop :=
  ∃ text, p = { o with buffers := o.buffers.modifyTop (· ++ text) }

instance : Std.Refl (@Eq Output) := ⟨.refl⟩

namespace Output.Extends

protected theorem refl (o : Output) : o.Extends o := by
  refine ⟨"", ?_⟩
  obtain ⟨⟨ground, above⟩, enabled⟩ := o
  cases above <;> simp [Stack.modifyTop]

protected theorem trans {o p q : Output} (h : o.Extends p) (k : p.Extends q) : o.Extends q := by
  obtain ⟨s, rfl⟩ := h
  obtain ⟨t, rfl⟩ := k
  refine ⟨s ++ t, ?_⟩
  obtain ⟨⟨ground, above⟩, enabled⟩ := o
  cases above <;> simp [Stack.modifyTop, String.append_assoc]

instance : Std.Refl Output.Extends := ⟨.refl⟩

instance : Trans Output.Extends Output.Extends Output.Extends := ⟨.trans⟩

theorem write (o : Output) (text : String) : o.Extends (o.write text) := by
  unfold Output.write
  split
  · exact ⟨text, rfl⟩
  · exact .refl o

/-- Closing a buffer gives back the output from before it was opened. -/
theorem pop?_of_push {o p : Output} (h : o.push.Extends p) :
    ∃ text, p.pop? = some (text, o) := by
  obtain ⟨text, rfl⟩ := h
  exact ⟨"" ++ text, rfl⟩

end Output.Extends

/-! ## What is kept -/

/-- The second context stands as the first one did, with the output related as said; loop rounds
may have been used up. -/
structure Context.Kept (out : Output → Output → Prop) (c d : Context) : Prop where
  globals : d.scopes.globals = c.scopes.globals
  locals : d.scopes.locals = c.scopes.locals
  loops : d.scopes.loops = c.scopes.loops
  depth : d.scopes.depth = c.scopes.depth
  sources : d.sources = c.sources
  suppressed : d.suppressed = c.suppressed
  output : out c.output d.output
  limits : d.limits = c.limits
  iterations : c.scopes.iterations ≤ d.scopes.iterations

namespace Context

variable {out : Output → Output → Prop} {c d e : Context}

theorem Still.kept (h : c.Still d) : c.Kept Eq d where
  globals := h.globals
  locals := h.locals
  loops := h.loops
  depth := h.depth
  sources := h.sources
  suppressed := h.suppressed
  output := h.output.symm
  limits := h.limits
  iterations := Nat.le_of_eq h.iterations.symm

theorem Kept.refl [Std.Refl out] (c : Context) : c.Kept out c :=
  { (Still.refl c).kept with output := Std.Refl.refl _ }

theorem Kept.trans [Trans out out out] (h : c.Kept out d) (k : d.Kept out e) :
    c.Kept out e where
  globals := k.globals.trans h.globals
  locals := k.locals.trans h.locals
  loops := k.loops.trans h.loops
  depth := k.depth.trans h.depth
  sources := k.sources.trans h.sources
  suppressed := k.suppressed.trans h.suppressed
  output := Trans.trans h.output k.output
  limits := k.limits.trans h.limits
  iterations := Nat.le_trans h.iterations k.iterations

end Context

namespace Action

variable {α β : Type} {out : Output → Output → Prop}

/-- However the action ends, the context stands as before. -/
def Keeps (out : Output → Output → Prop) (x : Action α) : Prop :=
  ∀ c : Context, c.Kept out (x c).2

theorem Quiet.keeps {x : Action α} (h : x.Quiet) : x.Keeps Eq := fun c => (h c).2.kept

theorem Keeps.bind [Trans out out out] {x : Action α} {f : α → Action β} (hx : x.Keeps out)
    (hf : ∀ a, (f a).Keeps out) : (x >>= f).Keeps out := by
  intro c
  have hc := hx c
  cases h : x c with
  | mk r d =>
    rw [h] at hc
    cases r with
    | ok a =>
      rw [bind_of_ok h]
      exact hc.trans (hf a d)
    | error e =>
      rw [bind_of_error h]
      exact hc
    | outOfFuel =>
      rw [bind_of_outOfFuel h]
      exact hc

/-- What writes nothing at all keeps any relation of outputs. -/
theorem Keeps.up [Std.Refl out] {x : Action α} (h : x.Keeps Eq) : x.Keeps out := fun c =>
  { h c with output := (h c).output ▸ Std.Refl.refl _ }

theorem Keeps.withSuppression {x : Action α} (b : Bool) (h : x.Keeps out) :
    (withSuppression b x).Keeps out :=
  fun c => { h { c with suppressed := b } with suppressed := rfl }

theorem keeps_writeText (text : String) : (writeText text).Keeps Output.Extends := fun c =>
  { (Context.Still.refl c).kept with output := .write c.output text }

end Action

/-! ## Regions -/

open TemplateEngine.Action

/-- Closing what the opening opened gives back what stood before. The body may relate the output
in one way and the region as a whole in another. -/
def Region.Restores (r : Region) (opening : Action Unit) (body out : Output → Output → Prop) :
    Prop :=
  ∀ c, ((∀ u, (opening c).1 ≠ .ok u) ∧ c.Kept out (opening c).2) ∨
    (opening c).1 = .ok () ∧ ∀ d, (opening c).2.Kept body d → c.Kept out (r.close d).2

namespace Region

variable {α : Type} {body out : Output → Output → Prop}

/-- What was opened is closed in the context that the body leaves behind. -/
theorem holding_snd_of_ok {r : Region} {opening : Action Unit} {x : Action α} {c d : Context}
    (h : opening c = (.ok (), d)) : (r.holding opening x c).2 = (r.close (x d).2).2 := by
  simp only [holding, between, h]
  rcases x d with ⟨a | e | _, d'⟩
  · dsimp only
    rcases r.close d' with ⟨v | e | _, d''⟩ <;> rfl
  · rfl
  · rfl

theorem holding_snd_of_not_ok {r : Region} {opening : Action Unit} {x : Action α} {c : Context}
    (h : ∀ u, (opening c).1 ≠ .ok u) : (r.holding opening x c).2 = (opening c).2 := by
  unfold holding between
  rcases hc : opening c with ⟨u | e | _, d⟩
  · exact absurd (by rw [hc]) (h u)
  · rfl
  · rfl

theorem keeps_holding {r : Region} {opening : Action Unit} {x : Action α}
    (h : r.Restores opening body out) (hx : x.Keeps body) :
    (r.holding opening x).Keeps out := by
  intro c
  obtain ⟨hfail, hkept⟩ | ⟨hok, hclose⟩ := h c
  · rw [holding_snd_of_not_ok hfail]
    exact hkept
  · rw [holding_snd_of_ok (Prod.ext hok rfl)]
    exact hclose _ (hx _)

theorem restores_function [Std.Refl out] (p : Position) :
    function.Restores (enterFunction p) out out := by
  intro c
  unfold enterFunction
  split
  · refine .inr ⟨rfl, fun d h => ?_⟩
    have hd : d.scopes.depth = c.scopes.depth + 1 := h.depth
    have hl : d.scopes.locals = c.scopes.locals.push _ := h.locals
    simp only [close, exitFunction, Scopes.popLocal?, bind_apply, hd, hl, Nat.add_one_ne_zero,
      if_false, Nat.add_sub_cancel, Stack.pop?_push]
    exact { h with locals := rfl, depth := rfl }
  · exact .inl ⟨nofun, .refl c⟩

theorem restores_loop (p : Position) : loop.Restores (enterLoop p) out out := by
  intro c
  refine .inr ⟨rfl, fun d h => ?_⟩
  have hl : d.scopes.loops = _ :: c.scopes.loops := h.loops
  simp only [close, exitLoop, Scopes.popLoop?, bind_apply, hl]
  exact { h with loops := rfl }

theorem restores_global [Std.Refl out] (model : Value) :
    global.Restores (pushGlobal model) out out := by
  intro c
  unfold pushGlobal
  split
  · exact .inl ⟨nofun, .refl c⟩
  · refine .inr ⟨rfl, fun d h => ?_⟩
    have hg : d.scopes.globals = c.scopes.globals.push _ := h.globals
    have hl : d.scopes.locals = c.scopes.locals.push _ := h.locals
    simp only [close, popGlobal, Scopes.popGlobal?, hg, hl, Stack.pop?_push]
    exact { h with globals := rfl, locals := rfl }

theorem restores_source [Std.Refl out] (name : String) :
    source.Restores (pushSource name) out out := by
  intro c
  unfold pushSource
  split
  · exact .inl ⟨nofun, .refl c⟩
  · refine .inr ⟨rfl, fun d h => ?_⟩
    have hs : d.sources = name :: c.sources := h.sources
    simp only [close, popSource, bind_apply, hs]
    exact { h with sources := rfl }

/-- A buffer that is closed leaves the ones below as they were, whatever was written to it. -/
theorem restores_output : output.Restores pushOutput Output.Extends Eq := by
  intro c
  refine .inr ⟨rfl, fun d h => ?_⟩
  obtain ⟨text, hpop⟩ := h.output.pop?_of_push
  simp only [close, popOutput, bind_apply, hpop]
  exact { h with output := rfl }

end Region

/-! ## Loops -/

theorem keeps_stepLoop : stepLoop.Keeps Eq := by
  intro c
  unfold stepLoop
  dsimp only
  split
  · exact { (Context.Still.refl c).kept with iterations := Nat.le_succ _ }
  · exact { (Context.Still.refl c).kept with iterations := Nat.le_succ _ }

theorem keeps_countedRound {prepare : Action Unit} {body : Action Flow} (hp : prepare.Quiet)
    (h : body.Keeps Output.Extends) :
    (Machine.countedRound prepare body).Keeps Output.Extends :=
  .bind keeps_stepLoop.up fun _ => .bind hp.keeps.up fun _ => h

theorem keeps_whileBody {condition : Action Value} {body : Action Flow} (hc : condition.Keeps Eq)
    (h : body.Keeps Output.Extends) : (Machine.whileBody condition body).Keeps Output.Extends := by
  rw [Machine.whileBody_eq]
  refine .bind hc.up fun v => .bind (Quiet.view _).keeps.up ?_
  intro holds
  split
  · exact .bind (keeps_countedRound (.pure ()) h) fun _ => (Quiet.pure _).keeps.up
  · exact (Quiet.pure _).keeps.up

theorem keeps_repeatRound {round : Action (Option Flow)} (h : round.Keeps Output.Extends)
    (bound : Nat) : Action.Keeps Output.Extends (Machine.repeatRound round bound) := by
  induction bound with
  | zero => exact fun c => .refl c
  | succ n ih =>
    rw [Machine.repeatRound_succ]
    refine .bind h ?_
    intro flow
    match flow with
    | none => exact ih
    | some flow => exact (Quiet.pure flow).keeps.up

/-! ## Every run -/

/-- How a voice can change the output. -/
def Voice.Change : Voice → Output → Output → Prop
  | .silent => Eq
  | .writing => Output.Extends

instance (v : Voice) : Std.Refl v.Change := by
  cases v
  · exact inferInstanceAs (Std.Refl (@Eq Output))
  · exact inferInstanceAs (Std.Refl Output.Extends)

instance (v : Voice) : Trans v.Change v.Change v.Change := by
  cases v
  · exact inferInstanceAs (Trans (@Eq Output) Eq Eq)
  · exact inferInstanceAs (Trans Output.Extends Output.Extends Output.Extends)

/-- Every construct keeps the context. -/
def Congruence.keeping : Congruence fun _ v _ x _ => x.Keeps v.Change where
  pure a := (Quiet.pure a).keeps
  bind := .bind
  congr hx _ h := hx ▸ h
  up := .up
  primitive h := h.quiet.keeps
  suppress b _ _ h := h.withSuppression b
  text := keeps_writeText
  function p _ _ h := Region.keeps_holding (Region.restores_function p) h
  global model _ _ h := Region.keeps_holding (Region.restores_global model) h
  source name _ _ h := Region.keeps_holding (Region.restores_source name) h
  output h := Region.keeps_holding Region.restores_output h
  loop p _ _ h := Region.keeps_holding (Region.restores_loop p) h
  round name length item _ _ h := keeps_countedRound (Machine.quiet_bindRound name length item) h
  whileRounds hc h _ := keeps_repeatRound (keeps_whileBody hc h) _ _

/-! ### Operations of a host -/

/-- Whatever the machine is asked for leaves the context standing as it was. -/
structure Machine.Balanced (m : Machine) : Prop where
  run (b : Block) : (m.run b).Keeps Output.Extends
  native (f : Native) (args : List Value) (p : Position) : (m.native f args p).Keeps Eq

/-- The operations of the host leave the context standing if what they ask for does. -/
def Host.Balanced (host : Host) : Prop :=
  ∀ (f : Native) (m : Machine), m.Balanced → ∀ args p, (host f m args p).Keeps Eq

theorem Host.none_balanced : Host.none.Balanced := fun _ _ _ _ _ => (Quiet.fail _).keeps

/-- Whatever runs leaves the context standing, by induction on the levels of calls. -/
theorem Host.Balanced.machine {host : Host} (h : host.Balanced) (n : Nat) :
    (machine host n).Balanced := by
  induction n with
  | zero => exact ⟨fun _ c => .refl c, fun _ _ _ c => .refl c⟩
  | succ n ih =>
    exact ⟨Congruence.keeping.block (n := TemplateEngine.machine host n) ih.run ih.native,
      fun f args p => h f _ ih args p⟩

/-! ### Without a host -/

theorem keeps_native (n : Nat) (f : Native) (args : List Value) (p : Position) :
    ((machine .none n).native f args p).Keeps Eq :=
  (Host.none_balanced.machine n).native f args p

theorem keeps_run (n : Nat) (b : Block) : ((machine .none n).run b).Keeps Output.Extends :=
  (Host.none_balanced.machine n).run b

/-- However a run ends, at whatever depth, it leaves the context standing as it was. A block can
have added text to the buffer on top; expressions, assignments and renderings leave every buffer
as it was. -/
theorem run_leaves_context_standing (n : Nat) (c : Context) :
    (∀ b : Block, c.Kept Output.Extends (runBlock (machine .none n) b c).2) ∧
    (∀ e : Expr, c.Kept Eq (e.evaluate (machine .none n) c).2) ∧
    (∀ e : Expr, c.Kept Eq (e.evaluateUninvoked (machine .none n) c).2) ∧
    (∀ (e : Expr) (v : Value), c.Kept Eq (e.assign (machine .none n) v c).2) ∧
    (∀ (t : Template) (v : Value), c.Kept Eq (t.render (machine .none n) v c).2) ∧
    ∀ (path : String) (v : Value), c.Kept Eq (renderPath (machine .none n) path v c).2 := by
  have hrun := keeps_run n
  have hnative := keeps_native n
  refine ⟨fun b => ?_, fun e => ?_, fun e => ?_, fun e v => ?_, fun t v => ?_, fun path v => ?_⟩
  · exact Congruence.keeping.block (n := machine .none n) hrun hnative b c
  · exact Congruence.keeping.evaluate (n := machine .none n) hrun hnative e c
  · exact Congruence.keeping.evaluateUninvoked (n := machine .none n) hrun hnative e c
  · exact Congruence.keeping.assign (n := machine .none n) hrun hnative e v c
  · exact Congruence.keeping.render (n := machine .none n) hrun hnative t v c
  · exact Congruence.keeping.renderPath (n := machine .none n) hrun hnative path v c

end TemplateEngine
