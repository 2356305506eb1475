import TemplateEngine.Proofs.Isolation.Loading

/-!
# Regions in two runs

Whatever is opened is opened in both runs or in neither, and closed in both. Opening and closing
move the stacks and nothing else (`Action.Shifts`), so what runs between them ends alike outside if
it ends alike inside (`ends_holding`).
-/

namespace TemplateEngine

open TemplateEngine.Action

/-- On contexts that are alike, both actions end alike and leave contexts that are alike, with the
first store as it was. -/
def Action.Shifts (s : Settings) (gap : Nat) (w : Pairing) {α β : Type}
    (A : Pairing → α → β → Prop) (x : Action α) (y : Action β) : Prop :=
  ∀ ⦃v c d⦄, w ≤ v → Context.Alike s gap v c d →
    (x c).1.Alike (A v) (y d).1 ∧ Context.Alike s gap v (x c).2 (y d).2 ∧ (x c).2.store = c.store

variable {s : Settings} {gap : Nat} {w v : Pairing} {α β : Type} {A : Pairing → α → β → Prop}

/-! ## Opening -/

theorem shifts_enterFunction (p : Position) :
    Shifts s gap w (fun _ => Eq) (enterFunction p) (enterFunction p) := by
  intro v c d _ hcd
  have hdepth := hcd.scopes.depth
  have hlimits : c.limits = d.limits := hcd.left.limits.trans hcd.right.limits.symm
  unfold enterFunction
  by_cases hlt : d.scopes.depth < d.limits.depth
  · rw [if_pos hlt, if_pos (by rwa [hdepth, hlimits]), hdepth]
    exact ⟨.ok rfl, hcd.onScopes (hcd.scopes.pushLocal.withDepth _), rfl⟩
  · rw [if_neg hlt, if_neg (by rwa [hdepth, hlimits])]
    exact ⟨hlimits ▸ .error _, hcd, rfl⟩

theorem shifts_enterLoop (p : Position) :
    Shifts s gap w (fun _ => Eq) (enterLoop p) (enterLoop p) :=
  fun _ _ _ _ hcd => ⟨.ok rfl, hcd.onScopes (hcd.scopes.pushLoop p), rfl⟩

theorem shifts_pushGlobal {a b : Value} (hab : a.Alike w b) :
    Shifts s gap w (fun _ => Eq) (pushGlobal a) (pushGlobal b) := by
  intro v c d hv hcd
  unfold pushGlobal
  rw [hab.isAbsent_eq]
  split
  · exact ⟨.error _, hcd, rfl⟩
  · exact ⟨.ok rfl, hcd.onScopes (hcd.scopes.pushGlobal (hab.mono hv)), rfl⟩

theorem shifts_pushOutput : Shifts s gap w (fun _ => Eq) pushOutput pushOutput :=
  fun _ _ _ _ hcd => ⟨.ok rfl, { hcd with
    left := { hcd.left with }
    right := { hcd.right with }
    output := congrArg Output.push hcd.output }, rfl⟩

theorem shifts_pushSource (name : String) :
    Shifts s gap w (fun _ => Eq) (pushSource name) (pushSource name) := by
  intro v c d _ hcd
  unfold pushSource
  split
  · exact ⟨.error _, hcd, rfl⟩
  · exact ⟨.ok rfl, { hcd with
      left := { hcd.left with }
      right := { hcd.right with }
      sources := congrArg (name :: ·) hcd.sources }, rfl⟩

/-! ## Closing -/

theorem Action.Shifts.map {α' β' : Type} {B : Pairing → α' → β' → Prop} {x : Action α}
    {y : Action β} (h : Shifts s gap w A x y) {f : α → α'} {g : β → β'}
    (hfg : ∀ {v a b}, A v a b → B v (f a) (g b)) :
    Shifts s gap w B (x >>= fun a => pure (f a)) (y >>= fun b => pure (g b)) := by
  intro v c d hv hcd
  obtain ⟨hout, hcd', hstore⟩ := h hv hcd
  rcases hx : x c with ⟨a, c'⟩
  rcases hy : y d with ⟨b, d'⟩
  rw [hx, hy] at hout hcd'
  rw [hx] at hstore
  cases hout with
  | ok hab =>
    rw [bind_of_ok hx, bind_of_ok hy]
    exact ⟨.ok (hfg hab), hcd', hstore⟩
  | error e =>
    rw [bind_of_error hx, bind_of_error hy]
    exact ⟨.error e, hcd', hstore⟩
  | outOfFuel =>
    rw [bind_of_outOfFuel hx, bind_of_outOfFuel hy]
    exact ⟨.outOfFuel, hcd', hstore⟩

theorem shifts_exitFunction : Shifts s gap w (fun _ => Eq) exitFunction exitFunction := by
  intro v c d _ hcd
  have hpop := hcd.scopes.popLocal?
  unfold exitFunction
  rw [hcd.scopes.depth]
  split
  · exact ⟨.error _, hcd, rfl⟩
  · generalize c.scopes.popLocal? = x at hpop ⊢
    generalize d.scopes.popLocal? = y at hpop ⊢
    cases hpop with
    | none => exact ⟨.error _, hcd, rfl⟩
    | some ht =>
      exact ⟨.ok rfl, hcd.onScopes (ht.withDepth _), rfl⟩

theorem shifts_exitLoop : Shifts s gap w (fun _ => Eq) exitLoop exitLoop := by
  intro v c d _ hcd
  have hpop := hcd.scopes.popLoop?
  unfold exitLoop
  generalize c.scopes.popLoop? = x at hpop ⊢
  generalize d.scopes.popLoop? = y at hpop ⊢
  cases hpop with
  | none => exact ⟨.error _, hcd, rfl⟩
  | some ht => exact ⟨.ok rfl, hcd.onScopes ht, rfl⟩

theorem shifts_popGlobal : Shifts s gap w Value.Alike popGlobal popGlobal := by
  intro v c d _ hcd
  have hpop := hcd.scopes.popGlobal?
  unfold popGlobal
  generalize c.scopes.popGlobal? = x at hpop ⊢
  generalize d.scopes.popGlobal? = y at hpop ⊢
  cases hpop with
  | none => exact ⟨.error _, hcd, rfl⟩
  | some ht => exact ⟨.ok ht.1, hcd.onScopes ht.2, rfl⟩

theorem shifts_popOutput : Shifts s gap w (fun _ => Eq) popOutput popOutput := by
  intro v c d _ hcd
  unfold popOutput
  rw [hcd.output]
  split
  · exact ⟨.ok rfl, { hcd with
      left := { hcd.left with }
      right := { hcd.right with }
      output := rfl }, rfl⟩
  · exact ⟨.error _, hcd, rfl⟩

theorem shifts_popSource : Shifts s gap w (fun _ => Eq) popSource popSource := by
  intro v c d _ hcd
  unfold popSource
  rw [hcd.sources]
  split
  · exact ⟨.ok rfl, { hcd with
      left := { hcd.left with }
      right := { hcd.right with }
      sources := rfl }, rfl⟩
  · exact ⟨.error _, hcd, rfl⟩

/-- Closing a region hands out what is alike. -/
theorem Region.shifts_close (r : Region) : Shifts s gap w Value.Alike r.close r.close := by
  cases r with
  | function => exact shifts_exitFunction.map fun _ => .undefined
  | loop => exact shifts_exitLoop.map fun _ => .undefined
  | global => exact shifts_popGlobal
  | output => exact shifts_popOutput.map fun h => h ▸ .text _
  | source => exact shifts_popSource.map fun h => h ▸ .text _

/-- Closing counts no loop round. -/
theorem Region.close_iterations (r : Region) (c : Context) :
    (r.close c).2.scopes.iterations = c.scopes.iterations := by
  cases r with
  | function =>
    simp only [Region.close, bind_apply, exitFunction, Scopes.popLocal?]
    by_cases hd : c.scopes.depth = 0
    · simp [hd]
    · cases c.scopes.locals.pop? <;> simp [hd]
  | loop =>
    simp only [Region.close, bind_apply, exitLoop, Scopes.popLoop?]
    cases c.scopes.loops <;> rfl
  | global =>
    simp only [Region.close, popGlobal, Scopes.popGlobal?]
    cases c.scopes.globals.pop? <;> cases c.scopes.locals.pop? <;> rfl
  | output =>
    simp only [Region.close, bind_apply, popOutput]
    cases c.output.pop? <;> rfl
  | source =>
    simp only [Region.close, bind_apply, popSource]
    cases c.sources <;> rfl

/-! ## Regions -/

variable {r : Region} {out : Output → Output → Prop} {opening opening' : Action Unit}
  {x : Action α} {y : Action β}

/-- What runs inside of a region ends alike outside of it if it ends alike inside. -/
theorem ends_holding (hr : r.Restores opening Output.Extends out)
    (hout : ∀ {c d : Context}, c.Kept out d → c.Kept Output.Extends d)
    (ho : Shifts s gap w (fun _ => Eq) opening opening') {c d : Context}
    (hcd : Context.Alike s gap w c d)
    (h : ∀ c₁ d₁, opening c = (.ok (), c₁) → opening' d = (.ok (), d₁) →
      Context.Alike s gap w c₁ d₁ → Ends s gap w A c₁ (x c₁) (y d₁)) :
    Ends s gap w (fun v p q => A v p.1 q.1 ∧ p.2.Alike v q.2) c (r.holding opening x c)
      (r.holding opening' y d) := by
  obtain ⟨hopen, hcd₁, hstore⟩ := ho w.le_refl hcd
  have hrestores := hr c
  rcases hc : opening c with ⟨u, c₁⟩
  rcases hd : opening' d with ⟨u', d₁⟩
  rw [hc, hd] at hopen hcd₁
  rw [hc] at hstore hrestores
  dsimp only at hstore
  have hrefused : (∀ u', u ≠ .ok u') → w.Grows w c.store c₁.store ∧ c.Kept Output.Extends c₁ := by
    intro hu
    rcases hrestores with ⟨_, hkept⟩ | ⟨hok, _⟩
    · exact ⟨hstore ▸ .refl w c₁.store, hout hkept⟩
    · exact absurd hok (hu ())
  cases hopen with
  | error e =>
    obtain ⟨hgrow, hkept⟩ := hrefused (by simp)
    simp only [Region.holding, between, hc, hd]
    exact .alike w hgrow hcd₁ hkept (.error e)
  | outOfFuel =>
    obtain ⟨hgrow, hkept⟩ := hrefused (by simp)
    simp only [Region.holding, between, hc, hd]
    exact .alike w hgrow hcd₁ hkept .outOfFuel
  | ok _ =>
    have hclosed : ∀ c₂, c₁.Kept Output.Extends c₂ → c.Kept Output.Extends (r.close c₂).2 := by
      intro c₂ hkept
      rcases hrestores with ⟨hfail, _⟩ | ⟨_, hclose⟩
      · exact absurd rfl (hfail ())
      · exact hout (hclose c₂ hkept)
    have hends := h c₁ d₁ hc hd hcd₁
    rcases hx : x c₁ with ⟨a, c₂⟩
    rcases hy : y d₁ with ⟨b, d₂⟩
    rw [hx, hy] at hends
    rcases hends with ⟨e, hgap, rfl, hup⟩ | ⟨v, hgrow, hcd₂, hkept, hab⟩
    · refine .usedUp e hgap ?_ ?_
      · simp only [Region.holding, between, hc, hx]
      · simp only [Region.holding, between, hc, hx, r.close_iterations]
        exact hup
    · obtain ⟨hheld, hcd₃, hstore₃⟩ := r.shifts_close v.le_refl hcd₂
      have hkept₃ := hclosed c₂ hkept
      dsimp only at hgrow hcd₂ hab hheld hcd₃ hstore₃
      rw [hstore, ← hstore₃] at hgrow
      cases hab with
      | ok hab =>
        rcases hk : r.close c₂ with ⟨k, c₃⟩
        rcases hl : r.close d₂ with ⟨l, d₃⟩
        rw [hk, hl] at hheld hcd₃
        rw [hk] at hgrow hkept₃
        simp only [Region.holding, between, hc, hd, hx, hy, hk, hl]
        cases hheld with
        | ok hkl => exact .alike v hgrow hcd₃ hkept₃ (.ok ⟨hab, hkl⟩)
        | error e => exact .alike v hgrow hcd₃ hkept₃ (.error e)
        | outOfFuel => exact .alike v hgrow hcd₃ hkept₃ .outOfFuel
      | error e =>
        simp only [Region.holding, between, hc, hd, hx, hy]
        exact .alike v hgrow hcd₃ hkept₃ (.error e)
      | outOfFuel =>
        simp only [Region.holding, between, hc, hd, hx, hy]
        exact .alike v hgrow hcd₃ hkept₃ .outOfFuel

/-- Running something inside of a region of which nothing is kept. -/
theorem ends_around (hr : r.Restores opening Output.Extends Output.Extends)
    (ho : Shifts s gap w (fun _ => Eq) opening opening') {c d : Context}
    (hcd : Context.Alike s gap w c d)
    (h : ∀ c₁ d₁, opening c = (.ok (), c₁) → opening' d = (.ok (), d₁) →
      Context.Alike s gap w c₁ d₁ → Ends s gap w A c₁ (x c₁) (y d₁)) :
    Ends s gap w A c (r.around opening x c) (r.around opening' y d) :=
  (ends_holding hr id ho hcd h).bind fun _ _ _ hab hcd' _ => .same hcd' (.ok hab.1)

/-- Inside of a model that was opened, a template can be rendered. -/
theorem ends_global {a b : Value} (hab : a.Alike w b) {c d : Context}
    (hcd : Context.Alike s gap w c d)
    (h : ∀ c₁ d₁, Context.Alike s gap w c₁ d₁ → c₁.Inner → Ends s gap w A c₁ (x c₁) (y d₁)) :
    Ends s gap w A c (Region.global.around (pushGlobal a) x c)
      (Region.global.around (pushGlobal b) y d) := by
  refine ends_around (Region.restores_global a) (shifts_pushGlobal hab) hcd
    fun c₁ d₁ hc _ hcd₁ => h c₁ d₁ hcd₁ ?_
  unfold pushGlobal at hc
  split at hc <;> cases hc
  exact ⟨by simp [Scopes.pushGlobal, Stack.push], by simp [Scopes.pushGlobal, Stack.push]⟩

theorem sim_global {a b : Value} (hab : a.Alike w b) (h : Sim s gap w A x y) :
    Sim s gap w A (Region.global.around (pushGlobal a) x) (Region.global.around (pushGlobal b) y) :=
  fun _ _ _ hv hcd _ => ends_global (hab.mono hv) hcd fun _ _ hcd₁ hc₁ => h hv hcd₁ hc₁

theorem sim_function (p : Position) (h : Sim s gap w A x y) :
    Sim s gap w A (Region.function.around (enterFunction p) x)
      (Region.function.around (enterFunction p) y) := by
  intro v c d hv hcd hc
  refine ends_around (Region.restores_function p) (shifts_enterFunction p) hcd
    fun c₁ d₁ hc₁ _ hcd₁ => h hv hcd₁ ?_
  unfold enterFunction at hc₁
  split at hc₁ <;> cases hc₁
  exact ⟨hc.globals, by simp [Scopes.pushLocal, Stack.push]⟩

theorem sim_source (name : String) (h : Sim s gap w A x y) :
    Sim s gap w A (Region.source.around (pushSource name) x)
      (Region.source.around (pushSource name) y) := by
  intro v c d hv hcd hc
  refine ends_around (Region.restores_source name) (shifts_pushSource name) hcd
    fun c₁ d₁ hc₁ _ hcd₁ => h hv hcd₁ ?_
  unfold pushSource at hc₁
  split at hc₁ <;> cases hc₁
  exact ⟨hc.globals, hc.locals⟩

theorem sim_loop (p : Position) (h : Sim s gap w A x y) :
    Sim s gap w A (Region.loop.around (enterLoop p) x) (Region.loop.around (enterLoop p) y) := by
  intro v c d hv hcd hc
  refine ends_around (Region.restores_loop p) (shifts_enterLoop p) hcd
    fun c₁ d₁ hc₁ _ hcd₁ => h hv hcd₁ ?_
  cases hc₁
  exact ⟨hc.globals, hc.locals⟩

/-- The text of a buffer comes with the result. -/
theorem sim_output (h : Sim s gap w A x y) :
    Sim s gap w (fun v p q => A v p.1 q.1 ∧ p.2.Alike v q.2)
      (Region.output.holding pushOutput x) (Region.output.holding pushOutput y) := by
  intro v c d hv hcd hc
  refine ends_holding Region.restores_output Context.Kept.extends shifts_pushOutput hcd
    fun c₁ d₁ hc₁ _ hcd₁ => h hv hcd₁ ?_
  cases hc₁
  exact ⟨hc.globals, hc.locals⟩

end TemplateEngine
