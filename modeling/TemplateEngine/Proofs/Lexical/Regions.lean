import TemplateEngine.Proofs.Lexical.Lockstep

/-!
# Regions and rounds in lockstep

A region opens something on both sides and closes it again on every way out (`lockstep_around`).
Inside of a call or of a model the runs are in a new local frame, whatever the frames outside of it
bind, and afterwards both see what they saw before (`lockstep_function`, `lockstep_global`). A loop
takes over the names of the loop around it on both sides; while its rounds go on, the innermost loop
binds at least these names, except for those that the loop itself binds (`ScopeView.Rounds`).
-/

namespace TemplateEngine

open ScopeView

/-! ## Opening and closing -/

/-- Something is opened on both sides, or on neither for the same reason. -/
inductive OpensAlike (P Q : ScopeView → ScopeView → Prop) :
    Outcome Unit × Context → Outcome Unit × Context → Prop
  | opened {c d : Context} : c.Twins Q d → OpensAlike P Q (.ok (), c) (.ok (), d)
  | refused {e : EvalError} {c d : Context} : ¬ e.Stray → c.Twins P d →
    OpensAlike P Q (.error e, c) (.error e, d)

namespace Action

/-- What a run inside of something comes to once this is closed. -/
def closed {α β : Type} (closing : Action β) : Outcome α × Context → Outcome (α × β) × Context
  | (.ok a, c) =>
    match closing c with
    | (.ok b, c) => (.ok (a, b), c)
    | (.error e, c) => (.error e, c)
    | (.outOfFuel, c) => (.outOfFuel, c)
  | (.error e, c) => (.error e, (closing c).2)
  | (.outOfFuel, c) => (.outOfFuel, (closing c).2)

theorem between_of_ok {α β : Type} {opening : Action Unit} {c d : Context}
    (h : opening c = (.ok (), d)) (closing : Action β) (body : Action α) :
    between opening closing body c = closed closing (body d) := by
  simp only [between, h]
  rcases body d with ⟨a | e | _, d'⟩ <;> rfl

theorem between_of_error {α β : Type} {opening : Action Unit} {c d : Context} {e : EvalError}
    (h : opening c = (.error e, d)) (closing : Action β) (body : Action α) :
    between opening closing body c = (.error e, d) := by
  simp only [between, h]

variable {α : Type} {P Q : ScopeView → ScopeView → Prop} {A : α → Prop} {x y : Action α}

theorem endsAlike_closed {β : Type} {B : β → Prop} {closing : Action β}
    (hc : ∀ c d : Context, c.Twins Q d → EndsAlike B P (closing c) (closing d))
    {r s : Outcome α × Context} (h : EndsAlike A Q r s) :
    EndsAlike (fun a : α × β => A a.1 ∧ B a.2) P (closed closing r) (closed closing s) := by
  obtain ⟨o, c⟩ := r
  obtain ⟨o', d⟩ := s
  obtain ⟨rfl, hr, ht⟩ := h
  have hclose := hc c d ht
  cases hr with
  | error he => exact ⟨rfl, .error he, hclose.twins⟩
  | outOfFuel => exact ⟨rfl, .outOfFuel, hclose.twins⟩
  | ok ha =>
    rcases hcc : closing c with ⟨o, c'⟩
    rcases hcd : closing d with ⟨o', d'⟩
    rw [hcc, hcd] at hclose
    obtain ⟨rfl, hcr, hct⟩ := hclose
    simp only [closed, hcc, hcd]
    cases hcr with
    | ok hb => exact ⟨rfl, .ok ⟨ha, hb⟩, hct⟩
    | error he => exact ⟨rfl, .error he, hct⟩
    | outOfFuel => exact ⟨rfl, .outOfFuel, hct⟩

/-- What runs in lockstep inside of a region does so together with opening and closing it. -/
theorem lockstep_holding {r : Region} {opening : Action Unit} {B : Value → Prop}
    (ho : ∀ c d : Context, c.Twins P d → OpensAlike P Q (opening c) (opening d))
    (hc : ∀ c d : Context, c.Twins Q d → EndsAlike B P (r.close c) (r.close d))
    (h : Lockstep Q A x y) :
    Lockstep P (fun a : α × Value => A a.1 ∧ B a.2) (r.holding opening x)
      (r.holding opening y) := by
  intro c d hcd
  have hopen := ho c d hcd
  rcases hoc : opening c with ⟨o, c'⟩
  rcases hod : opening d with ⟨o', d'⟩
  rw [hoc, hod] at hopen
  have hsnd : c = d → c' = d' := fun heq =>
    congrArg Prod.snd (hoc.symm.trans ((congrArg opening heq).trans hod))
  unfold Region.holding
  cases hopen with
  | refused he ht =>
    rw [between_of_error hoc, between_of_error hod]
    exact ⟨⟨rfl, .error he, ht⟩, fun heq => congrArg (Prod.mk _) (hsnd heq)⟩
  | opened hcd' =>
    obtain ⟨hends, hsame⟩ := h c' d' hcd'
    rw [between_of_ok hoc, between_of_ok hod]
    exact ⟨endsAlike_closed hc hends, fun heq => congrArg (closed r.close) (hsame (hsnd heq))⟩

theorem lockstep_around {r : Region} {opening : Action Unit} {B : Value → Prop}
    (ho : ∀ c d : Context, c.Twins P d → OpensAlike P Q (opening c) (opening d))
    (hc : ∀ c d : Context, c.Twins Q d → EndsAlike B P (r.close c) (r.close d))
    (h : Lockstep Q A x y) : Lockstep P A (r.around opening x) (r.around opening y) :=
  .bind (lockstep_holding ho hc h) fun _ ha => .pure ha.1

/-! ## Output and sources -/

theorem lockstep_output (h : Lockstep P A x y) :
    Lockstep P (fun a : α × Value => A a.1 ∧ a.2.Lexical) (Region.output.holding pushOutput x)
      (Region.output.holding pushOutput y) := by
  have hpush : Lockstep P (fun _ => True) pushOutput pushOutput :=
    .of_unaware unaware_pushOutput yields_pushOutput
  have hpop : Lockstep P Value.Lexical Region.output.close Region.output.close :=
    .bind (.of_unaware unaware_popOutput yields_popOutput) fun _ _ => .pure trivial
  refine lockstep_holding (fun c d hcd => ?_) (fun c d hcd => (hpop c d hcd).1) h
  exact .opened (hpush c d hcd).1.twins

theorem lockstep_source (name : String) (h : Lockstep P A x y) :
    Lockstep P A (Region.source.around (pushSource name) x)
      (Region.source.around (pushSource name) y) := by
  have hpop : Lockstep P (fun _ => True) Region.source.close Region.source.close :=
    .bind (.of_unaware unaware_popSource yields_popSource) fun _ _ => .pure trivial
  refine lockstep_around (fun c d hcd => ?_) (fun c d hcd => (hpop c d hcd).1) h
  have hpush : Lockstep P (fun _ => True) (pushSource name) (pushSource name) :=
    .of_unaware (unaware_pushSource name) (yields_pushSource name)
  have ht := (hpush c d hcd).1.twins
  unfold pushSource at ht ⊢
  split
  · exact .refused id hcd
  · next hne =>
    rw [if_neg hne] at ht
    exact .opened ht

/-! ## Calls -/

theorem opens_function (p : Position) {v w : ScopeView} {c d : Context}
    (h : c.Twins (Unmoved v w) d) :
    OpensAlike (Unmoved v w) (Inside v.called w.called) (enterFunction p c)
      (enterFunction p d) := by
  by_cases hlt : c.scopes.depth < c.limits.depth
  · have hlt' : d.scopes.depth < d.limits.depth := by
      rw [← h.depth, ← h.limits]
      exact hlt
    simp only [enterFunction, hlt, hlt', if_true]
    refine .opened (h.onScopes h.globals (congrArg (· + 1) h.depth) h.iterations
      h.lexical.globals h.left.pushLocal h.right.pushLocal ⟨.empty, .empty, ?_, ?_⟩)
    · rw [h.left.view_enter, h.views.1]
      rfl
    · rw [h.right.view_enter, h.views.2]
      rfl
  · have hlt' : ¬ d.scopes.depth < d.limits.depth := by
      rw [← h.depth, ← h.limits]
      exact hlt
    rw [enterFunction, enterFunction, if_neg hlt, if_neg hlt', h.limits]
    exact .refused (e := .script p (.recursionLimit d.limits.depth)) id h

/-- A call ends with what was seen before it. -/
theorem exitFunction_of_view {c : Context} (h : c.scopes.Tidy) {v : ScopeView} {f : Frame}
    (hview : c.scopes.view = v.called.withLocal f) (hv : v.locals ≠ []) :
    ∃ t : Scopes, exitFunction c = (.ok (), { c with scopes := t }) ∧ t.Tidy ∧ t.view = v ∧
      t.globals = c.scopes.globals ∧ t.depth = c.scopes.depth - 1 ∧
      t.iterations = c.scopes.iterations := by
  have hdepth : c.scopes.depth = v.calls + 1 := congrArg ScopeView.calls hview
  have htail : c.scopes.view.locals.tail = v.locals := by rw [hview]; rfl
  obtain ⟨t, hpop, htidy, heq, ht⟩ := h.popLocal (htail ▸ hv)
  refine ⟨{ t with depth := c.scopes.depth - 1 }, ?_, htidy, ?_, ?_, rfl, ?_⟩
  · simp only [exitFunction, hdepth, Nat.add_one_ne_zero, if_false, hpop]
  · have hcalls : c.scopes.depth - 1 = v.calls := by omega
    refine (congrArg (fun v : ScopeView => { v with calls := c.scopes.depth - 1 }) ht).trans ?_
    rw [htail, hview, hcalls]
    rfl
  · rw [heq]
  · rw [heq]

theorem closes_function {v w : ScopeView} (hv : v.locals ≠ []) (hw : w.locals ≠ [])
    {c d : Context} (h : c.Twins (Inside v.called w.called) d) :
    EndsAlike (fun _ => True) (Unmoved v w) (Region.function.close c)
      (Region.function.close d) := by
  obtain ⟨f, -, hcv, hdv⟩ := h.views
  obtain ⟨s, hc, hs, hsv, hsg, hsd, hsi⟩ := exitFunction_of_view h.left hcv hv
  obtain ⟨t, hd, ht, htv, htg, htd, hti⟩ := exitFunction_of_view h.right hdv hw
  simp only [Region.close, bind_of_ok hc, bind_of_ok hd]
  exact ⟨rfl, .ok trivial, h.onScopes (by rw [hsg, htg, h.globals]) (by rw [hsd, htd, h.depth])
    (by rw [hsi, hti, h.iterations]) (hsg ▸ h.lexical.globals) hs ht ⟨hsv, htv⟩⟩

/-- What runs in lockstep in a new local frame is called in lockstep from anywhere. -/
theorem lockstep_function (p : Position) (h : ∀ v w, Lockstep (Inside v w) A x y) :
    Lockstep P A (Region.function.around (enterFunction p) x)
      (Region.function.around (enterFunction p) y) := by
  refine .of_views fun v w _ c d hcd => ?_
  exact lockstep_around (fun _ _ => opens_function p)
    (fun _ _ => closes_function (hcd.views.1 ▸ c.scopes.locals_ne_nil)
      (hcd.views.2 ▸ d.scopes.locals_ne_nil)) (h _ _) c d hcd

/-! ## Models -/

theorem opens_global {model : Value} (hm : model.Lexical) {v w : ScopeView} {c d : Context}
    (h : c.Twins (Unmoved v w) d) :
    OpensAlike (Unmoved v w) (Inside v.modelled w.modelled) (pushGlobal model c)
      (pushGlobal model d) := by
  unfold pushGlobal
  split
  · exact .refused id h
  · refine .opened (h.onScopes (congrArg (Stack.push · _) h.globals) h.depth h.iterations ?_
      (h.left.pushGlobal model) (h.right.pushGlobal model) ⟨.empty, .empty, ?_, ?_⟩)
    · exact List.forall_mem_cons.2 ⟨hm, h.lexical.globals⟩
    · rw [h.left.view_pushGlobal, h.views.1]
      rfl
    · rw [h.right.view_pushGlobal, h.views.2]
      rfl

/-- A model is closed with what was seen before it. -/
theorem popGlobal_of_view {c : Context} (h : c.scopes.Tidy) {v : ScopeView} {f : Frame}
    (hview : c.scopes.view = v.modelled.withLocal f) (hv : v.locals ≠ []) (hm : 0 < v.models) :
    ∃ t : Scopes, popGlobal c = (.ok c.scopes.globals.top.model, { c with scopes := t }) ∧
      t.Tidy ∧ t.view = v ∧ t.globals = ⟨c.scopes.globals.ground, c.scopes.globals.above.tail⟩ ∧
      t.depth = c.scopes.depth ∧ t.iterations = c.scopes.iterations := by
  have hmodels : c.scopes.view.models = v.models + 1 := congrArg ScopeView.models hview
  have htail : c.scopes.view.locals.tail = v.locals := by rw [hview]; rfl
  obtain ⟨t, hpop, htidy, heq, ht⟩ := h.popGlobal (by omega) (htail ▸ hv)
  refine ⟨t, by simp only [popGlobal, hpop], htidy, ?_, ?_, ?_, ?_⟩
  · rw [ht, htail, hview]
    rfl
  all_goals rw [heq]

theorem closes_global {v w : ScopeView} (hv : v.locals ≠ []) (hw : w.locals ≠ [])
    (hvm : 0 < v.models) (hwm : 0 < w.models) {c d : Context}
    (h : c.Twins (Inside v.modelled w.modelled) d) :
    EndsAlike (fun _ => True) (Unmoved v w) (Region.global.close c)
      (Region.global.close d) := by
  obtain ⟨f, -, hcv, hdv⟩ := h.views
  obtain ⟨s, hc, hs, hsv, hsg, hsd, hsi⟩ := popGlobal_of_view h.left hcv hv hvm
  obtain ⟨t, hd, ht, htv, htg, htd, hti⟩ := popGlobal_of_view h.right hdv hw hwm
  simp only [Region.close, hc, hd]
  refine ⟨by rw [h.globals], .ok trivial, h.onScopes (by rw [hsg, htg, h.globals])
    (by rw [hsd, htd, h.depth]) (by rw [hsi, hti, h.iterations]) ?_ hs ht ⟨hsv, htv⟩⟩
  rw [hsg]
  intro g hg
  refine h.lexical.globals g ?_
  simp only [Stack.toList, List.mem_append] at hg ⊢
  exact hg.imp_left List.mem_of_mem_tail

/-- What runs in lockstep in a new local frame does so under a model. -/
theorem lockstep_global {model : Value} (hm : model.Lexical)
    (h : ∀ v w, Lockstep (Inside v w) A x y) :
    Lockstep P A (Region.global.around (pushGlobal model) x)
      (Region.global.around (pushGlobal model) y) := by
  refine .of_views fun v w _ c d hcd => ?_
  have hv : v.locals ≠ [] ∧ 0 < v.models :=
    hcd.views.1 ▸ ⟨c.scopes.locals_ne_nil, Nat.succ_pos _⟩
  have hw : w.locals ≠ [] ∧ 0 < w.models :=
    hcd.views.2 ▸ ⟨d.scopes.locals_ne_nil, Nat.succ_pos _⟩
  exact lockstep_around (fun _ _ => opens_global hm)
    (fun _ _ => closes_global hv.1 hw.1 hv.2 hw.2) (h _ _) c d hcd

end Action

end TemplateEngine
