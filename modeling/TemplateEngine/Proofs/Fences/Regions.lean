import TemplateEngine.Proofs.Fences.Primitives

/-!
# Regions and loops inside of fences

Closing a region gives back frames and a model that are known, and works on nothing else that a
value can refer to. So an action in a region spares what has to stay, if it does so in the context
that opening the region leaves behind (`Region.spared_holding`). Loops are regions in which rounds
bind items and what they know about themselves.
-/

namespace TemplateEngine

open TemplateEngine.Action

variable {F : Fence}

/-! ## Closing -/

namespace Context.Known

variable {c : Context}

theorem with_scopes (h : c.Known F) {scopes : Scopes} (hpool : scopes.pool.Known F)
    (hmodels : ∀ g ∈ scopes.globals.above, g.model.Known F) :
    Context.Known F { c with scopes := scopes } := ⟨h.store, hpool, hmodels, h.members⟩

theorem popGlobal (h : c.Known F) :
    (Action.popGlobal c).2.Known F ∧ ∀ v, (Action.popGlobal c).1 = .ok v → v.Known F := by
  unfold Action.popGlobal Scopes.popGlobal?
  cases hg : c.scopes.globals.pop? with
  | none => exact ⟨h, fun _ => nofun⟩
  | some g =>
    cases hl : c.scopes.locals.pop? with
    | none => exact ⟨h, fun _ => nofun⟩
    | some l =>
      have habove : c.scopes.globals.above = g.1 :: g.2.above := by
        rw [Stack.pop?_eq_some_iff.1 hg]
        rfl
      have hmodels := List.forall_mem_cons.1 (habove ▸ h.models)
      refine ⟨h.with_scopes (h.frames.release _) hmodels.2, ?_⟩
      rintro _ ⟨⟩
      exact hmodels.1

theorem exitFunction (h : c.Known F) : (Action.exitFunction c).2.Known F := by
  unfold Action.exitFunction Scopes.popLocal?
  split
  · exact h
  · cases c.scopes.locals.pop? with
    | none => exact h
    | some l => exact h.with_scopes (h.frames.release _) h.models

theorem exitLoop (h : c.Known F) : (Action.exitLoop c).2.Known F := by
  unfold Action.exitLoop Scopes.popLoop?
  cases c.scopes.loops with
  | nil => exact h
  | cons l rest => exact h.with_scopes (h.frames.release _) h.models

theorem popOutput (h : c.Known F) : (Action.popOutput c).2.Known F := by
  unfold Action.popOutput
  split
  · exact ⟨h.store, h.frames, h.models, h.members⟩
  · exact h

theorem popSource (h : c.Known F) : (Action.popSource c).2.Known F := by
  unfold Action.popSource
  split
  · exact ⟨h.store, h.frames, h.models, h.members⟩
  · exact h

/-- Closing a region leaves a known context behind, and what the region held is known. -/
theorem close (h : c.Known F) (r : Region) :
    (r.close c).2.Known F ∧ ∀ v, (r.close c).1 = .ok v → v.Known F := by
  -- what is put together from the end of a region and a value that refers to nothing
  have hplain {α : Type} {x : Action α} {f : α → Value} (hx : (x c).2.Known F)
      (hf : ∀ a, (f a).ref? = none) : ((x >>= fun a => Pure.pure (f a)) c).2.Known F ∧
        ∀ v, ((x >>= fun a => Pure.pure (f a)) c).1 = .ok v → v.Known F := by
    refine ⟨holds_after_bind (P := Context.Known F) hx fun _ _ hd => hd, fun v hv => ?_⟩
    obtain ⟨a, d, -, hpure⟩ := bind_eq_ok.1 (Prod.ext hv rfl)
    cases hpure
    exact Value.known_of_plain (hf a)
  cases r with
  | function => exact hplain h.exitFunction fun _ => rfl
  | loop => exact hplain h.exitLoop fun _ => rfl
  | global => exact h.popGlobal
  | output => exact hplain h.popOutput fun _ => rfl
  | source => exact hplain h.popSource fun _ => rfl

end Context.Known

/-! ## Regions -/

namespace Region

variable {α : Type} {A : α → Prop}

/-- An action has a result inside of a region if all of its parts have. -/
theorem holding_eq_ok {r : Region} {opening : Action Unit} {x : Action α} {c : Context}
    {y : α × Value} (h : (r.holding opening x c).1 = .ok y) :
    (x (opening c).2).1 = .ok y.1 ∧ (r.close (x (opening c).2).2).1 = .ok y.2 := by
  revert h
  unfold holding between
  rcases opening c with ⟨u | e | _, d⟩
  · dsimp only
    rcases x d with ⟨a | e | _, d'⟩
    · dsimp only
      rcases r.close d' with ⟨v | e | _, d''⟩
      · rintro ⟨⟩
        exact ⟨rfl, rfl⟩
      · nofun
      · nofun
    · nofun
    · nofun
  · nofun
  · nofun

theorem close_leaves_store (r : Region) : r.close.Leaves Context.store :=
  r.close_leaves (fun _ _ => rfl) (fun _ _ => rfl) fun _ _ _ => rfl

/-- What is done in a region spares what has to stay, if opening the region leaves behind a known
context with the same store. -/
theorem spared_holding {r : Region} {opening : Action Unit} {x : Action α} {c : Context}
    (hrestores : r.Restores opening Output.Whatever Output.Whatever)
    (hopened : (opening c).2.Known F) (hstore : (opening c).2.store = c.store)
    (hx : SparedWith F A (opening c).2 (x (opening c).2)) :
    SparedWith F (fun y => A y.1 ∧ y.2.Known F) c (r.holding opening x c) := by
  have hclosed := hx.spared.known.close r
  refine ⟨?_, fun y hy => ?_⟩
  · obtain ⟨hfails, hstands⟩ | ⟨hok, hstands⟩ := hrestores c
    · rw [holding_snd_of_not_ok hfails]
      exact ⟨hopened, hstore ▸ .refl _, hstands⟩
    · rw [holding_snd_of_ok (Prod.ext hok rfl)]
      have hclose : (r.close (x (opening c).2).2).2.store = (x (opening c).2).2.store :=
        r.close_leaves_store _
      exact ⟨hclosed.1, hclose ▸ hstore ▸ hx.spared.stays, hstands _ hx.spared.stands⟩
  · obtain ⟨ha, hv⟩ := holding_eq_ok hy
    exact ⟨hx.gives _ ha, hclosed.2 _ hv⟩

/-- Opening the region leaves behind a known context, whose innermost model may change, with the
same store. -/
structure OpensWithin (F : Fence) (r : Region) (opening : Action Unit) : Prop where
  restores : r.Restores opening Output.Whatever Output.Whatever
  known (c : Context) : c.Known F → (opening c).2.Known F
  isOpen (c : Context) : c.Open F → (opening c).2.Open F
  store (c : Context) : (opening c).2.store = c.store

theorem respects_holding {r : Region} {opening : Action Unit} {x : Action α}
    (h : r.OpensWithin F opening) (hx : x.Respects F A) :
    (r.holding opening x).Respects F fun y => A y.1 ∧ y.2.Known F := fun c hc hopen =>
  spared_holding h.restores (h.known c hc) (h.store c) (hx _ (h.known c hc) (h.isOpen c hopen))

theorem respects_around {r : Region} {opening : Action Unit} {x : Action α}
    (h : r.OpensWithin F opening) (hx : x.Respects F A) : (r.around opening x).Respects F A :=
  .bind (respects_holding h hx) fun _ hy => .pure hy.1

theorem opensWithin_function (p : Position) : function.OpensWithin F (enterFunction p) where
  restores := restores_function p
  known c hc := by
    unfold enterFunction
    split
    · exact hc.with_scopes hc.frames.acquire hc.models
    · exact hc
  isOpen c hc := by
    unfold enterFunction
    split <;> exact hc
  store c := by
    unfold enterFunction
    split <;> rfl

theorem opensWithin_loop (p : Position) : loop.OpensWithin F (enterLoop p) where
  restores := restores_loop p
  known _ hc := hc.with_scopes hc.frames.acquire hc.models
  isOpen _ hc := hc
  store _ := rfl

theorem opensWithin_output : output.OpensWithin F pushOutput where
  restores c := by
    refine .inr ⟨rfl, fun d hd => ?_⟩
    have hclosed : Context.Kept Output.Whatever c (popOutput d).2 := by
      unfold popOutput
      split
      · exact { hd with output := trivial }
      · exact { hd with output := trivial }
    exact holds_after_bind (P := c.Kept Output.Whatever) hclosed fun _ _ h => h
  known _ hc := ⟨hc.store, hc.frames, hc.models, hc.members⟩
  isOpen _ hc := hc
  store _ := rfl

theorem opensWithin_source (name : String) : source.OpensWithin F (pushSource name) where
  restores := restores_source name
  known c hc := by
    unfold pushSource
    split
    · exact hc
    · exact ⟨hc.store, hc.frames, hc.models, hc.members⟩
  isOpen c hc := by
    unfold pushSource
    split <;> exact hc
  store c := by
    unfold pushSource
    split <;> rfl

/-- Once a model is open, it is the innermost one. -/
theorem known_pushGlobal {c : Context} (hc : c.Known F) {model : Value} (hmodel : model.Known F) :
    (pushGlobal model c).2.Known F ∧ (pushGlobal model c).2.store = c.store := by
  unfold pushGlobal
  split
  · exact ⟨hc, rfl⟩
  · exact ⟨hc.with_scopes hc.frames.acquire (List.forall_mem_cons.2 ⟨hmodel, hc.models⟩), rfl⟩

theorem opensWithin_global {model : Value} (hmodel : model.Known F) (houtside : model.Outside F) :
    global.OpensWithin F (pushGlobal model) where
  restores := restores_global model
  known c hc := (known_pushGlobal hc hmodel).1
  isOpen c hc := by
    unfold pushGlobal
    split
    · exact hc
    · exact houtside
  store c := by
    unfold pushGlobal
    split <;> rfl

end Region

/-! ## Loops -/

/-- A value with which control leaves is known. -/
def Flow.Known (F : Fence) : Flow → Prop
  | .leave (some v) => v.Known F
  | .leave none | .normal | .stop | .next => True

/-- A flow that ends a loop is known. -/
def Flow.KnownEnd (F : Fence) (flow : Option Flow) : Prop := ∀ f ∈ flow, f.Known F

theorem Flow.Known.endsLoop {flow : Flow} (h : flow.Known F) : Flow.KnownEnd F flow.endsLoop := by
  rcases flow with _ | _ | _ | v
  · nofun
  · rintro _ ⟨⟩
    trivial
  · nofun
  · rintro _ ⟨⟩
    exact h

/-- A round over an item binds known values. -/
theorem respects_bindRound (name : String) (length : Nat) {item : Value × Nat}
    (h : item.1.Known F) : (Machine.bindRound name length item).Respects F fun _ => True := by
  refine .bind (respects_bindLoop name h) fun _ _ => ?_
  refine .bind (respects_newMap ?_) fun info hinfo => respects_bindLoop "loop" hinfo.1
  refine Dictionary.All.ofList ?_
  simp only [List.forall_mem_cons, List.not_mem_nil, false_implies, implies_true, and_true]
  exact ⟨Value.known_of_plain rfl, Value.known_of_plain rfl, Value.known_of_plain rfl,
    Value.known_of_plain rfl, Value.known_of_plain rfl⟩

variable {body : Action Flow}

theorem respects_countedRound {prepare : Action Unit} (hp : prepare.Respects F fun _ => True)
    (h : body.Respects F (Flow.Known F)) :
    (Machine.countedRound prepare body).Respects F (Flow.Known F) :=
  .bind respects_stepLoop fun _ _ => .bind hp fun _ _ => h

theorem respects_eachRound {α : Type} {round : α → Action (Option Flow)} :
    ∀ {items : List α}, (∀ a ∈ items, (round a).Respects F (Flow.KnownEnd F)) →
      Action.Respects F (Flow.Known F) (Machine.eachRound round items)
  | [], _ => .pure (a := Flow.normal) trivial
  | a :: rest, h => by
    rw [Machine.eachRound_cons]
    refine .bind (h a List.mem_cons_self) fun flow hflow => ?_
    match flow with
    | none => exact respects_eachRound fun b hb => h b (List.mem_cons_of_mem a hb)
    | some flow => exact .pure (hflow flow rfl)

theorem respects_repeatRound {round : Action (Option Flow)}
    (h : round.Respects F (Flow.KnownEnd F)) (bound : Nat) :
    Action.Respects F (Flow.Known F) (Machine.repeatRound round bound) := by
  induction bound with
  | zero => exact .outOfFuel
  | succ n ih =>
    rw [Machine.repeatRound_succ]
    refine .bind h fun flow hflow => ?_
    match flow with
    | none => exact ih
    | some flow => exact .pure (hflow flow rfl)

theorem respects_inLoop (p : Position) {rounds : Action Flow}
    (h : rounds.Respects F (Flow.Known F)) :
    (Machine.inLoop p rounds).Respects F (Flow.Known F) :=
  Region.respects_around (Region.opensWithin_loop p) (.bind respects_inheritLoop fun _ _ => h)

theorem respects_forEach (name : String) (p : Position) {items : List Value}
    (hitems : ∀ v ∈ items, v.Known F) (h : body.Respects F (Flow.Known F)) :
    (Machine.forEach name p items body).Respects F (Flow.Known F) := by
  refine respects_inLoop p (respects_eachRound fun item hitem => ?_)
  have hitem : item.1.Known F := hitems _ (List.fst_mem_of_mem_zipIdx hitem)
  rw [Machine.eachBody_eq]
  exact .bind (respects_countedRound (respects_bindRound name _ hitem) h) fun flow hflow =>
    .pure hflow.endsLoop

theorem respects_whileLoop (p : Position) {condition : Action Value}
    (hc : condition.Respects F (Value.Known F)) (h : body.Respects F (Flow.Known F)) :
    (Machine.whileLoop p condition body).Respects F (Flow.Known F) := by
  have hround : (Machine.whileBody condition body).Respects F (Flow.KnownEnd F) := by
    rw [Machine.whileBody_eq]
    refine .bind hc fun v _ => .bind (A := fun _ => True) (.inStore fun _ _ => trivial) ?_
    intro holds _
    exact .ite (.bind (respects_countedRound (.pure trivial) h) fun flow hflow =>
      .pure hflow.endsLoop) (.pure (by rintro _ ⟨⟩; trivial))
  exact respects_inLoop p fun c => respects_repeatRound hround _ c

end TemplateEngine
