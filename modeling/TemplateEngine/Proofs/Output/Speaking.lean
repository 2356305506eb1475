import TemplateEngine.Proofs.Evaluation.Balance
import TemplateEngine.Proofs.Lexical.Bodies
import TemplateEngine.Proofs.Output.Ignoring
import TemplateEngine.Proofs.Output.Nesting

/-!
# One text for every output

What runs adds one text to the buffer on top and does the same whatever the buffers hold and however
many there are, as long as output is on, or off (`Action.Speaks`). Every construct of evaluation is
of this kind (`Congruence.speaking`), and so is every block without a host (`speaks_block`). What is
written while a buffer is held is the text that would have been written without it
(`Action.Speaks.exists_held`).
-/

namespace TemplateEngine

open TemplateEngine.Action

namespace Output

theorem write_write (o : Output) (s t : String) : (o.write s).write t = o.write (s ++ t) := by
  obtain ⟨⟨ground, above⟩, enabled⟩ := o
  cases enabled <;> cases above <;> simp [write, Stack.modifyTop, String.append_assoc]

/-- What is held while output is off is empty, and so is what is written then. -/
theorem write_held (o : Output) (text : String) :
    o.write (if o.enabled then text else "") = o.write text := by
  obtain ⟨buffers, enabled⟩ := o
  cases enabled <;> rfl

/-- A buffer that is closed holds what was written while it was on top and output was on. -/
theorem pop?_write_push_eq (o : Output) (text : String) :
    (o.push.write text).pop? = some (if o.enabled then text else "", o) := by
  obtain ⟨buffers, enabled⟩ := o
  cases enabled with
  | true => exact pop?_write_push _ text rfl
  | false => rfl

end Output

@[simp] theorem Context.withOutput_output (c : Context) : c.withOutput c.output = c := rfl

namespace Action

variable {α β : Type} {v : Voice}

/-- The action adds one text to the buffer on top, none at all if it is silent, and does the same on
every output that is on, or off, as this one is. -/
def Speaks (v : Voice) (x : Action α) : Prop :=
  ∀ c : Context, ∃ text, (v = .silent → text = "") ∧
    ∀ o : Output, o.enabled = c.output.enabled →
      x (c.withOutput o) = ((x c).1, (x c).2.withOutput (o.write text))

namespace Speaks

/-! ## Putting actions together -/

theorem of_ignoresOutput {x : Action α} (h : x.IgnoresOutput) : x.Speaks v :=
  fun c => ⟨"", fun _ => rfl, fun o _ => by rw [Output.write_empty]; exact h c o⟩

theorem up {x : Action α} (h : x.Speaks .silent) : x.Speaks .writing := fun c =>
  (h c).imp fun _ ht => ⟨nofun, ht.2⟩

theorem writeText (t : String) : (writeText t).Speaks .writing :=
  fun _ => ⟨t, nofun, fun _ _ => rfl⟩

theorem bind {x : Action α} {f : α → Action β} (hx : x.Speaks v) (hf : ∀ a, (f a).Speaks v) :
    (x >>= f).Speaks v := by
  intro c
  obtain ⟨s, hs, hfirst⟩ := hx c
  rcases h : x c with ⟨a | e | _, d⟩ <;> simp only [h] at hfirst
  · have hd : d = d.withOutput (c.output.write s) :=
      congrArg Prod.snd (h.symm.trans (hfirst c.output rfl))
    obtain ⟨t, ht, hrest⟩ := hf a d
    refine ⟨s ++ t, fun hv => by rw [hs hv, ht hv]; rfl, fun o ho => ?_⟩
    have hon : (o.write s).enabled = d.output.enabled := by
      rw [hd, Context.withOutput, Output.enabled_write, Output.enabled_write, ho]
    rw [bind_of_ok h, bind_of_ok (hfirst o ho), hrest _ hon, Output.write_write]
  · exact ⟨s, hs, fun o ho => by rw [bind_of_error h, bind_of_error (hfirst o ho)]⟩
  · exact ⟨s, hs, fun o ho => by rw [bind_of_outOfFuel h, bind_of_outOfFuel (hfirst o ho)]⟩

theorem withSuppression (b : Bool) {x : Action α} (h : x.Speaks v) :
    (withSuppression b x).Speaks v := by
  intro c
  obtain ⟨t, ht, hx⟩ := h { c with suppressed := b }
  refine ⟨t, ht, fun o ho => ?_⟩
  have ho' := hx o ho
  simp only [Action.withSuppression]
  rw [show ({ c.withOutput o with suppressed := b } : Context) =
    ({ c with suppressed := b } : Context).withOutput o from rfl, ho']
  rfl

/-! ## Regions -/

theorem holding {r : Region} {opening : Action Unit} {x : Action α} (hr : r ≠ .output)
    (ho : opening.IgnoresOutput) (hx : x.Speaks v) : (r.holding opening x).Speaks v := by
  intro c
  simp only [Region.holding, between]
  have hopen := ho c
  rcases h : opening c with ⟨u | e | _, d⟩ <;> simp only [h] at hopen
  · have hd : d = d.withOutput c.output := congrArg Prod.snd (h.symm.trans (hopen c.output))
    obtain ⟨t, ht, hbody⟩ := hx d
    refine ⟨t, ht, fun o hon => ?_⟩
    have hbody := hbody o (hon.trans (congrArg (·.output.enabled) hd.symm))
    have hclose := fun d' => ignoresOutput_close hr d' (o.write t)
    rcases h' : x d with ⟨a | e | _, d'⟩ <;> simp only [h'] at hbody <;>
      simp only [hopen, hbody, h', hclose]
    rcases r.close d' with ⟨w | e | _, d''⟩ <;> rfl
  · exact ⟨"", fun _ => rfl, fun o _ => by simp only [hopen, Output.write_empty]⟩
  · exact ⟨"", fun _ => rfl, fun o _ => by simp only [hopen, Output.write_empty]⟩

/-- What is written is the same text, be it to the buffer on top or to one that is opened for it and
held. -/
theorem exists_held {x : Action α} (hx : x.Speaks .writing) (c : Context) :
    ∃ text, ∀ o : Output, o.enabled = c.output.enabled →
      x (c.withOutput o) = ((x c).1, (x c).2.withOutput (o.write text)) ∧
      Region.output.holding pushOutput x (c.withOutput o) =
        ((x c).1.map fun a => (a, Value.text (if o.enabled then text else "")),
          (x c).2.withOutput o) := by
  obtain ⟨text, -, htext⟩ := hx c
  refine ⟨text, fun o ho => ⟨htext o ho, ?_⟩⟩
  have hopen : pushOutput (c.withOutput o) = (.ok (), c.withOutput o.push) := rfl
  have hclose (d : Context) : Region.output.close (d.withOutput (o.push.write text)) =
      (.ok (.text (if o.enabled then text else "")), d.withOutput o) := by
    simp only [Region.close, popOutput, bind_apply, Context.withOutput, Output.pop?_write_push_eq]
    rfl
  have hbody := htext o.push ho
  simp only [Region.holding, between, hopen, hbody]
  rcases x c with ⟨a | e | _, d⟩ <;> simp only [hclose] <;> rfl

theorem output {x : Action α} (hx : x.Speaks .writing) :
    (Region.output.holding pushOutput x).Speaks .silent := by
  intro c
  obtain ⟨text, htext⟩ := hx.exists_held c
  refine ⟨"", fun _ => rfl, fun o ho => ?_⟩
  have hc : Region.output.holding pushOutput x c = _ := (htext c.output rfl).2
  rw [(htext o ho).2, hc, ho, Output.write_empty]
  rfl

/-! ## Loops -/

theorem countedRound {prepare : Action Unit} {body : Action Flow} (hp : prepare.IgnoresOutput)
    (h : body.Speaks .writing) : (Machine.countedRound prepare body).Speaks .writing :=
  .bind (.of_ignoresOutput ignoresOutput_stepLoop) fun _ => .bind (.of_ignoresOutput hp) fun _ => h

theorem whileBody {condition : Action Value} {body : Action Flow} (hc : condition.Speaks .silent)
    (h : body.Speaks .writing) : (Machine.whileBody condition body).Speaks .writing := by
  rw [Machine.whileBody_eq]
  refine .bind hc.up fun v => .bind (.of_ignoresOutput (.inStore _)) ?_
  intro holds
  split
  · exact .bind (countedRound (.pure ()) h) fun _ => .of_ignoresOutput (.pure _)
  · exact .of_ignoresOutput (.pure _)

theorem repeatRound {round : Action (Option Flow)} (h : round.Speaks .writing) (bound : Nat) :
    Speaks .writing (Machine.repeatRound round bound) := by
  induction bound with
  | zero => exact .of_ignoresOutput fun _ _ => rfl
  | succ n ih =>
    rw [Machine.repeatRound_succ]
    refine .bind h ?_
    intro flow
    cases flow with
    | none => exact ih
    | some flow => exact .of_ignoresOutput (.pure flow)

/-- How many rounds are left has nothing to do with the output. -/
theorem whileRounds {condition : Action Value} {body : Action Flow}
    (hc : condition.Speaks .silent) (h : body.Speaks .writing) :
    (Machine.whileRounds condition body).Speaks .writing := fun c =>
  repeatRound (whileBody hc h) (c.limits.loops - c.scopes.iterations + 1) c

end Speaks

end Action

/-! ## Every run -/

/-- Every construct speaks. -/
def Congruence.speaking : Congruence fun _ v _ x _ => x.Speaks v where
  pure a := .of_ignoresOutput (.pure a)
  bind := .bind
  congr hx _ h := hx ▸ h
  up := .up
  primitive h := .of_ignoresOutput h.ignoresOutput
  suppress b _ _ h := h.withSuppression b
  text := .writeText
  function p _ _ h := .holding (by decide) (ignoresOutput_enterFunction p) h
  global model _ _ h := .holding (by decide) (ignoresOutput_pushGlobal model) h
  source name _ _ h := .holding (by decide) (ignoresOutput_pushSource name) h
  output := .output
  loop p _ _ h := .holding (by decide) (ignoresOutput_enterLoop p) h
  round name length item _ _ h := .countedRound (ignoresOutput_bindRound name length item) h
  whileRounds := .whileRounds

theorem speaks_machine (n : Nat) : (∀ b, ((machine .none n).run b).Speaks .writing) ∧
    ∀ f args p, ((machine .none n).native f args p).Speaks .silent := by
  induction n with
  | zero => exact ⟨fun _ => .of_ignoresOutput fun _ _ => rfl,
      fun _ _ _ => .of_ignoresOutput fun _ _ => rfl⟩
  | succ n ih =>
    exact ⟨Congruence.speaking.block (n := machine .none n) ih.1 ih.2,
      fun _ _ _ => .of_ignoresOutput (.fail _)⟩

theorem speaks_block (n : Nat) (b : Block) : (runBlock (machine .none n) b).Speaks .writing :=
  Congruence.speaking.block (n := machine .none n) (speaks_machine n).1 (speaks_machine n).2 b

end TemplateEngine
