import TemplateEngine.Proofs.Evaluation.Congruence
import TemplateEngine.Proofs.Evaluation.Unaware

/-!
# What the flag does not decide

Whether the outermost function is given instead of called is a flag on the context. An action is
blind to it if it ends in the same way whichever way the flag stands, does the same, and leaves the
flag as it is (`Action.Blind`). Setting the flag for a blind action makes no difference
(`Action.Blind.withSuppression_eq`), and an action for which the flag is set is blind to how it
stood before (`Action.Blind.withSuppression`). All primitive actions are blind but the one that
reads the flag, and regions and loops are blind if their bodies are.
-/

namespace TemplateEngine

/-- The context with the flag set. -/
def Context.withSuppressed (c : Context) (b : Bool) : Context := { c with suppressed := b }

namespace Action

variable {α β : Type}

/-- The action neither looks at the flag nor changes it. -/
def Blind (x : Action α) : Prop :=
  ∀ c b, x (c.withSuppressed b) = ((x c).1, (x c).2.withSuppressed b)

namespace Blind

/-- A blind action leaves the flag as it is. -/
theorem suppressed {x : Action α} (h : x.Blind) (c : Context) :
    (x c).2.suppressed = c.suppressed := by
  have hc : x c = ((x c).1, (x c).2.withSuppressed c.suppressed) := h c c.suppressed
  rw [hc]
  rfl

/-- Setting the flag for a blind action makes no difference. -/
theorem withSuppression_eq {x : Action α} (h : x.Blind) (b : Bool) :
    Action.withSuppression b x = x := by
  funext c
  have hb : x { c with suppressed := b } = ((x c).1, (x c).2.withSuppressed b) := h c b
  have hc : (x c).2.withSuppressed c.suppressed = (x c).2 := by
    rw [← h.suppressed c]
    rfl
  simp only [Action.withSuppression, hb]
  exact Prod.ext rfl hc

/-- What the flag is set for does not see how it stood before. -/
theorem withSuppression (b : Bool) (x : Action α) : (Action.withSuppression b x).Blind :=
  fun _ _ => rfl

theorem of_unaware {x : Action α} (h : x.Unaware) : x.Blind := by
  intro c b
  have hf : (x c).2.withSuppressed b =
      (x c).2.withForeground { c.foreground with suppressed := b } := by
    rw [← h.foreground c]
    rfl
  rw [hf]
  exact h c { c.foreground with suppressed := b }

/-! ## Putting actions together -/

theorem pure (a : α) : Blind (pure a : Action α) := fun _ _ => rfl

theorem bind {x : Action α} {f : α → Action β} (hx : x.Blind) (hf : ∀ a, (f a).Blind) :
    (x >>= f).Blind := by
  intro c b
  have hc := hx c b
  rcases h : x c with ⟨a | e | _, d⟩ <;> rw [h] at hc
  · rw [bind_of_ok h, bind_of_ok hc]
    exact hf a d b
  · rw [bind_of_error h, bind_of_error hc]
  · rw [bind_of_outOfFuel h, bind_of_outOfFuel hc]

theorem ite {p : Prop} [Decidable p] {x y : Action α} (hx : x.Blind) (hy : y.Blind) :
    (if p then x else y).Blind := by
  split
  · exact hx
  · exact hy

theorem view {v : Context → α} (h : ∀ c b, v (c.withSuppressed b) = v c) : (view v).Blind := by
  intro c b
  simp only [Action.view, h]

theorem inStore (f : Store → α) : (inStore f).Blind := view fun _ _ => rfl

theorem failAt (p : Position) (fault : ScriptFault) : Blind (failAt p fault : Action α) :=
  fun _ _ => rfl

theorem modify {f : Context → Context}
    (h : ∀ c b, f (c.withSuppressed b) = (f c).withSuppressed b) : (modify f).Blind := by
  intro c b
  simp only [Action.modify, h]

end Blind

/-! ## Names -/

theorem blind_readVariable (ref : VarRef) : (readVariable ref).Blind := by
  cases h : ref.scope with
  | global => exact .of_unaware (unaware_readVariable h)
  | locals =>
    simp only [readVariable, h]
    exact .view fun _ _ => rfl
  | loop =>
    simp only [readVariable, h]
    refine .bind (.view fun _ _ => rfl) ?_
    intro frame
    cases frame with
    | none => exact .failAt _ _
    | some frame => exact .pure _

theorem blind_writeVariable (ref : VarRef) (v : Value) : (writeVariable ref v).Blind := by
  cases h : ref.scope with
  | global => exact .of_unaware (unaware_writeVariable h v)
  | locals =>
    simp only [writeVariable, h]
    refine .bind (.view fun _ _ => rfl) ?_
    intro frame
    cases frame.set ref.name v with
    | ok frame => exact .modify fun _ _ => rfl
    | error e => exact .failAt _ _
  | loop =>
    simp only [writeVariable, h]
    refine .bind (.view fun _ _ => rfl) ?_
    intro frame
    cases frame with
    | none => exact .failAt _ _
    | some frame =>
      dsimp only
      cases frame.set ref.name v with
      | ok frame => exact .modify fun _ _ => rfl
      | error e => exact .failAt _ _

theorem blind_bindParams (names : List String) (args : List Value) :
    (Machine.bindParams names args).Blind := by
  induction names generalizing args with
  | nil => exact .pure ()
  | cons name rest ih => exact .bind (.modify fun _ _ => rfl) fun _ => ih args.tail

/-! ## Regions -/

theorem blind_enterFunction (p : Position) : (enterFunction p).Blind := by
  intro c b
  unfold enterFunction
  by_cases h : c.scopes.depth < c.limits.depth <;> simp [Context.withSuppressed, h]

theorem blind_exitFunction : exitFunction.Blind := by
  intro c b
  unfold exitFunction
  by_cases h : c.scopes.depth = 0
  · simp [Context.withSuppressed, h]
  · simp only [Context.withSuppressed, h, if_false]
    cases c.scopes.popLocal? <;> rfl

theorem blind_pushGlobal (model : Value) : (pushGlobal model).Blind :=
  .ite (fun _ _ => rfl) (.modify fun _ _ => rfl)

theorem blind_popGlobal : popGlobal.Blind := by
  intro c b
  simp only [popGlobal, Context.withSuppressed]
  cases c.scopes.popGlobal? <;> rfl

theorem blind_exitLoop : exitLoop.Blind := by
  intro c b
  simp only [exitLoop, Context.withSuppressed]
  cases c.scopes.popLoop? <;> rfl

theorem blind_close (r : Region) : r.close.Blind := by
  cases r with
  | function => exact .bind blind_exitFunction fun _ => .pure _
  | loop => exact .bind blind_exitLoop fun _ => .pure _
  | global => exact blind_popGlobal
  | output => exact .bind (.of_unaware unaware_popOutput) fun _ => .pure _
  | source => exact .bind (.of_unaware unaware_popSource) fun _ => .pure _

theorem Blind.holding {r : Region} {opening : Action Unit} {x : Action α} (ho : opening.Blind)
    (hx : x.Blind) : (r.holding opening x).Blind := by
  intro c b
  have hopen := ho c b
  unfold Region.holding between
  rcases h : opening c with ⟨u | e | _, d⟩ <;> rw [h] at hopen <;> simp only [hopen]
  have hbody := hx d b
  rcases h' : x d with ⟨a | e | _, d'⟩ <;> rw [h'] at hbody <;> simp only [hbody]
  · have hclose := blind_close r d' b
    rcases h'' : r.close d' with ⟨v | e | _, d''⟩ <;> rw [h''] at hclose <;> simp only [hclose]
  · rw [blind_close r d' b]
  · rw [blind_close r d' b]

theorem Blind.around {r : Region} {opening : Action Unit} {x : Action α} (ho : opening.Blind)
    (hx : x.Blind) : (r.around opening x).Blind :=
  .bind (ho.holding hx) fun _ => .pure _

/-! ## Loops -/

theorem blind_stepLoop : stepLoop.Blind := by
  intro c b
  unfold stepLoop
  by_cases h : c.scopes.iterations < c.limits.loops <;> simp [Context.withSuppressed, h]

theorem blind_bindLoop (name : String) (v : Value) : (bindLoop name v).Blind := by
  intro c b
  simp only [bindLoop, Context.withSuppressed]
  cases c.scopes.loopFrame? <;> rfl

theorem blind_eachRound {round : α → Action (Option Flow)} (h : ∀ a, (round a).Blind)
    (items : List α) : Blind (Machine.eachRound round items) := by
  induction items with
  | nil => exact Blind.pure _
  | cons a rest ih =>
    rw [Machine.eachRound_cons]
    refine .bind (h a) ?_
    intro flow
    cases flow with
    | none => exact ih
    | some flow => exact Blind.pure flow

theorem blind_repeatRound {round : Action (Option Flow)} (h : round.Blind) (bound : Nat) :
    Blind (Machine.repeatRound round bound) := by
  induction bound with
  | zero => exact fun _ _ => rfl
  | succ bound ih =>
    rw [Machine.repeatRound_succ]
    refine .bind h ?_
    intro flow
    cases flow with
    | none => exact ih
    | some flow => exact Blind.pure flow

theorem Blind.inLoop {rounds : Action Flow} (p : Position) (h : rounds.Blind) :
    (Machine.inLoop p rounds).Blind :=
  .around (.modify fun _ _ => rfl) (.bind (.modify fun _ _ => rfl) fun _ => h)

theorem Blind.forEach {body : Action Flow} (name : String) (p : Position) (items : List Value)
    (h : body.Blind) : (Machine.forEach name p items body).Blind := by
  refine .inLoop p (blind_eachRound (fun item => ?_) _)
  exact .bind blind_stepLoop fun _ => .bind (blind_bindLoop _ _) fun _ =>
    .bind (.of_unaware (.onStore _)) fun _ => .bind (blind_bindLoop _ _) fun _ =>
    .bind h fun _ => .pure _

theorem Blind.whileLoop {condition : Action Value} {body : Action Flow} (p : Position)
    (hc : condition.Blind) (h : body.Blind) : (Machine.whileLoop p condition body).Blind := by
  have hround : (Machine.whileBody condition body).Blind :=
    .bind hc fun _ => .bind (.inStore _) fun _ =>
      .ite (.bind blind_stepLoop fun _ => .bind h fun _ => .pure _) (.pure _)
  exact .inLoop p fun c b => blind_repeatRound hround _ c b

end Action

end TemplateEngine
