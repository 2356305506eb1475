import TemplateEngine.Proofs.Evaluation.Balance
import TemplateEngine.Proofs.Evaluation.Primitive

/-!
# The stack of sources

A template is on the stack of sources while its body runs, and only then: rendering and including
put it there and take it away again, however the body ends, and nothing else touches the stack
(`Congruence.sources`). An operation of the host is trusted with the same
(`Host.KeepsSources`), so the stack is after a run as it was before (`Host.KeepsSources.machine`).
-/

namespace TemplateEngine

open TemplateEngine.Action

namespace Action

variable {α β : Type}

/-- However the action ends, the same templates are being rendered as before. -/
def KeepsSources (x : Action α) : Prop := x.Leaves Context.sources

theorem Quiet.keepsSources {x : Action α} (h : x.Quiet) : x.KeepsSources :=
  fun c => (h c).2.sources

theorem Primitive.keepsSources {x : Action α} (h : x.Primitive) : x.KeepsSources :=
  h.quiet.keepsSources

theorem KeepsSources.pure (a : α) : (Pure.pure a : Action α).KeepsSources := Leaves.pure a

theorem KeepsSources.bind {x : Action α} {f : α → Action β} (hx : x.KeepsSources)
    (hf : ∀ a, (f a).KeepsSources) : (x >>= f).KeepsSources := Leaves.bind hx hf

theorem KeepsSources.withSuppression {x : Action α} (b : Bool) (h : x.KeepsSources) :
    (withSuppression b x).KeepsSources := fun c => h { c with suppressed := b }

theorem keepsSources_writeText (text : String) : (writeText text).KeepsSources := fun _ => rfl

theorem keepsSources_writeValue (v : Value) (p : Position) : (writeValue v p).KeepsSources := by
  unfold writeValue
  split
  · exact .pure _
  · exact .bind (quiet_toText v p).keepsSources fun _ => keepsSources_writeText _

theorem keepsSources_stepLoop : stepLoop.KeepsSources := by
  intro c
  unfold stepLoop
  dsimp only
  split <;> rfl

/-! ## Opening and closing -/

theorem keepsSources_pushGlobal (model : Value) : (pushGlobal model).KeepsSources := by
  intro c
  unfold pushGlobal
  split <;> rfl

theorem keepsSources_enterFunction (p : Position) : (enterFunction p).KeepsSources := by
  intro c
  unfold enterFunction
  split <;> rfl

theorem keepsSources_enterLoop (p : Position) : (enterLoop p).KeepsSources := fun _ => rfl

theorem keepsSources_pushOutput : pushOutput.KeepsSources := fun _ => rfl

end Action

namespace Region

variable {α : Type}

/-- What is no source is closed without touching the sources. -/
theorem keepsSources_close {r : Region} (hr : r ≠ .source) : r.close.KeepsSources :=
  r.close_leaves (fun _ _ => rfl) (fun _ _ => rfl) fun h => absurd h hr

/-- The sources are those from before once what was opened is closed, or if it was not opened. -/
theorem sources_holding {r : Region} {opening : Action Unit} {x : Action α} {c : Context}
    (hfail : (∀ u, (opening c).1 ≠ .ok u) → (opening c).2.sources = c.sources)
    (hok : (opening c).1 = .ok () → (r.close (x (opening c).2).2).2.sources = c.sources) :
    (r.holding opening x c).2.sources = c.sources := by
  by_cases h : (opening c).1 = .ok ()
  · rw [holding_snd_of_ok (Prod.ext h rfl)]
    exact hok h
  · have hnot : ∀ u, (opening c).1 ≠ .ok u := fun _ => h
    rw [holding_snd_of_not_ok hnot]
    exact hfail hnot

theorem keepsSources_holding {r : Region} (hr : r ≠ .source) {opening : Action Unit}
    {x : Action α} (ho : opening.KeepsSources) (hx : x.KeepsSources) :
    (r.holding opening x).KeepsSources := fun c =>
  sources_holding (fun _ => ho c) fun _ =>
    (keepsSources_close hr _).trans ((hx _).trans (ho c))

/-- The template that is put on the stack is the one that is taken away. -/
theorem keepsSources_source (name : String) {x : Action α} (hx : x.KeepsSources) :
    (source.holding (pushSource name) x).KeepsSources := by
  intro c
  by_cases hname : name.isEmpty = true
  · have ho : pushSource name c = (.error (.usage .sourceNameMissing), c) := by
      simp [pushSource, hname, misuse, fail]
    exact sources_holding (fun _ => by rw [ho]) fun h => by
      rw [ho] at h
      cases h
  · have ho : pushSource name c = (.ok (), { c with sources := name :: c.sources }) := by
      simp [pushSource, hname, Action.modify]
    refine sources_holding (fun h => absurd (by rw [ho]) (h ())) fun _ => ?_
    rw [ho]
    have hd := hx { c with sources := name :: c.sources }
    simp only [close, popSource, bind_apply, hd, pure_apply]

end Region

/-! ## Runs -/

theorem keepsSources_countedRound {prepare : Action Unit} {body : Action Flow}
    (hp : prepare.Quiet) (h : body.KeepsSources) :
    (Machine.countedRound prepare body).KeepsSources :=
  .bind keepsSources_stepLoop fun _ => .bind hp.keepsSources fun _ => h

theorem keepsSources_whileBody {condition : Action Value} {body : Action Flow}
    (hc : condition.KeepsSources) (h : body.KeepsSources) :
    (Machine.whileBody condition body).KeepsSources := by
  rw [Machine.whileBody_eq]
  refine .bind hc fun v => .bind (Quiet.view _).keepsSources fun holds => ?_
  split
  · exact .bind (keepsSources_countedRound (.pure ()) h) fun _ => .pure _
  · exact .pure _

theorem keepsSources_repeatRound {round : Action (Option Flow)} (h : round.KeepsSources)
    (bound : Nat) : Action.KeepsSources (Machine.repeatRound round bound) := by
  induction bound with
  | zero => exact fun _ => rfl
  | succ n ih =>
    rw [Machine.repeatRound_succ]
    refine .bind h ?_
    intro flow
    match flow with
    | none => exact ih
    | some flow => exact .pure flow

/-- Every construct keeps the sources. -/
def Congruence.sources : Congruence fun _ _ _ x _ => x.KeepsSources where
  pure := .pure
  bind := .bind
  congr hx _ h := hx ▸ h
  up h := h
  primitive h := h.keepsSources
  suppress b _ _ h := h.withSuppression b
  text := keepsSources_writeText
  function p _ _ h := Region.keepsSources_holding (by decide) (keepsSources_enterFunction p) h
  global v _ _ h := Region.keepsSources_holding (by decide) (keepsSources_pushGlobal v) h
  source name _ _ h := Region.keepsSources_source name h
  output h := Region.keepsSources_holding (by decide) keepsSources_pushOutput h
  loop p _ _ h := Region.keepsSources_holding (by decide) (keepsSources_enterLoop p) h
  round name length item _ _ h :=
    keepsSources_countedRound (Machine.quiet_bindRound name length item) h
  whileRounds hc h _ := keepsSources_repeatRound (keepsSources_whileBody hc h) _ _

/-- Whatever the machine is asked for keeps the sources. -/
structure Machine.KeepsSources (m : Machine) : Prop where
  run (b : Block) : (m.run b).KeepsSources
  native (f : Native) (args : List Value) (p : Position) : (m.native f args p).KeepsSources

/-- The operations of the host keep the sources if what they ask for does. -/
def Host.KeepsSources (host : Host) : Prop :=
  ∀ (f : Native) (m : Machine), m.KeepsSources → ∀ args p, (host f m args p).KeepsSources

/-- Whatever runs keeps the sources, by induction on the levels of calls. -/
theorem Host.KeepsSources.machine {host : Host} (h : host.KeepsSources) (n : Nat) :
    (machine host n).KeepsSources := by
  induction n with
  | zero => exact ⟨fun _ _ => rfl, fun _ _ _ _ => rfl⟩
  | succ n ih =>
    exact ⟨Congruence.sources.block (n := TemplateEngine.machine host n) ih.run ih.native,
      fun f args p => h f _ ih args p⟩

end TemplateEngine
