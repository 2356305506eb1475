import TemplateEngine.Proofs.Evaluation.Congruence
import TemplateEngine.Proofs.Fences.Regions
import TemplateEngine.Proofs.Positions.Contexts

/-!
# Machines that agree

Two machines that agree on the bodies that are made of certain statements agree on every render of a
template that is made of them (`Machine.Accord.render`): whatever is met there, in a block, in the
body of a function or in a template that is loaded, is one of these statements. Closing a region
brings no others into the context, and a definition brings the statements of its body, which are
some of those that there are.
-/

namespace TemplateEngine

open TemplateEngine.Action Action.Accord

variable {S : Stmt → Prop}

/-! ## Regions -/

namespace Context.MadeOf

variable {c : Context}

theorem popGlobal (h : c.MadeOf S) : (Action.popGlobal c).2.MadeOf S ∧
    ∀ v, (Action.popGlobal c).1 = .ok v → v.MadeOf S := by
  unfold Action.popGlobal Scopes.popGlobal?
  cases hg : c.scopes.globals.pop? with
  | none => exact ⟨h, fun _ => nofun⟩
  | some g =>
    cases c.scopes.locals.pop? with
    | none => exact ⟨h, fun _ => nofun⟩
    | some l =>
      have hglobals := h.globals
      rw [Stack.pop?_eq_some_iff.1 hg, Stack.toList_push, List.forall_mem_cons] at hglobals
      refine ⟨h.with_scopes (h.released _) hglobals.2, ?_⟩
      rintro _ ⟨⟩
      exact hglobals.1

theorem exitFunction (h : c.MadeOf S) : (Action.exitFunction c).2.MadeOf S := by
  unfold Action.exitFunction Scopes.popLocal?
  split
  · exact h
  · cases c.scopes.locals.pop? with
    | none => exact h
    | some l => exact h.with_scopes (h.released _) h.globals

theorem exitLoop (h : c.MadeOf S) : (Action.exitLoop c).2.MadeOf S := by
  unfold Action.exitLoop Scopes.popLoop?
  cases c.scopes.loops with
  | nil => exact h
  | cons l rest => exact h.with_scopes (h.released _) h.globals

theorem popOutput (h : c.MadeOf S) : (Action.popOutput c).2.MadeOf S := by
  unfold Action.popOutput
  split
  · exact h.same rfl rfl rfl rfl rfl rfl
  · exact h

theorem popSource (h : c.MadeOf S) : (Action.popSource c).2.MadeOf S := by
  unfold Action.popSource
  split
  · exact h.same rfl rfl rfl rfl rfl rfl
  · exact h

end Context.MadeOf

namespace Region

variable {α : Type} {A : α → Prop} {x y : Action α}

theorem stays_close (r : Region) : r.close.Stays S (Value.MadeOf S) := by
  have hplain {β : Type} {z : Action β} {f : β → Value}
      (hz : ∀ c : Context, c.MadeOf S → (z c).2.MadeOf S) (hf : ∀ b, (f b).MadeOf S) :
      (z >>= fun b => Pure.pure (f b)).Stays S (Value.MadeOf S) :=
    .bind (A := fun _ => True) (stays_iff.2 fun c hc => ⟨hz c hc, fun _ _ => trivial⟩)
      fun b _ => .pure (hf b)
  cases r with
  | function => exact hplain (fun _ => .exitFunction) fun _ => trivial
  | loop => exact hplain (fun _ => .exitLoop) fun _ => trivial
  | global => exact stays_iff.2 fun _ hc => hc.popGlobal
  | output => exact hplain (fun _ => .popOutput) fun _ => trivial
  | source => exact hplain (fun _ => .popSource) fun _ => trivial

/-- What agrees inside of a region does so together with opening and closing it. -/
theorem accord_holding (r : Region) {opening : Action Unit}
    (ho : opening.Stays S fun _ => True) (h : Accord S A x y) :
    Accord S (fun z => A z.1 ∧ z.2.MadeOf S) (r.holding opening x) (r.holding opening y) := by
  have hclose := r.stays_close (S := S)
  refine ⟨fun c hc => ?_, fun c hc => ?_, fun c hc z hz => ?_⟩
  · have hopened := ho.leaves c hc
    unfold holding between
    rcases hd : opening c with ⟨u | e | _, d⟩ <;> rw [hd] at hopened
    · dsimp only
      rw [h.same d hopened]
  · have hopened := ho.leaves c hc
    by_cases hok : (opening c).1 = .ok ()
    · rw [holding_snd_of_ok (Prod.ext hok rfl)]
      exact hclose.leaves _ (h.leaves _ hopened)
    · rw [holding_snd_of_not_ok fun _ => hok]
      exact hopened
  · have hopened := ho.leaves c hc
    obtain ⟨ha, hv⟩ := holding_eq_ok hz
    exact ⟨h.gives _ hopened _ ha, hclose.gives _ (h.leaves _ hopened) _ hv⟩

theorem accord_around (r : Region) {opening : Action Unit}
    (ho : opening.Stays S fun _ => True) (h : Accord S A x y) :
    Accord S A (r.around opening x) (r.around opening y) :=
  .bind (r.accord_holding ho h) fun _ hz => .pure hz.1

theorem stays_enterFunction (p : Position) : (enterFunction p).Stays S fun _ => True := by
  refine stays_iff.2 fun c hc => ⟨?_, fun _ _ => trivial⟩
  unfold enterFunction
  split
  · exact hc.with_scopes hc.acquired hc.globals
  · exact hc

theorem stays_enterLoop (p : Position) : (enterLoop p).Stays S fun _ => True :=
  .modify fun _ hc => hc.with_scopes hc.acquired hc.globals

theorem stays_pushOutput : pushOutput.Stays S fun _ => True :=
  .modify fun _ hc => hc.same rfl rfl rfl rfl rfl rfl

theorem stays_pushSource (name : String) : (pushSource name).Stays S fun _ => True :=
  .ite (.fail _) (.modify fun _ hc => hc.same rfl rfl rfl rfl rfl rfl)

theorem stays_pushGlobal {model : Value} (hmodel : model.MadeOf S) :
    (pushGlobal model).Stays S fun _ => True :=
  .ite (.fail _) (.modify fun _ hc =>
    hc.with_scopes hc.acquired (List.forall_mem_cons.2 ⟨hmodel, hc.globals⟩))

end Region

/-! ## Loops -/

/-- The value with which control leaves is made of such statements. -/
def Flow.MadeOf (S : Stmt → Prop) : Flow → Prop
  | .leave (some v) => v.MadeOf S
  | .leave none | .normal | .stop | .next => True

theorem Flow.MadeOf.endsLoop {flow : Flow} (h : flow.MadeOf S) :
    ∀ f ∈ flow.endsLoop, f.MadeOf S := by
  rcases flow with _ | _ | _ | v
  · nofun
  · rintro _ ⟨⟩
    trivial
  · nofun
  · rintro _ ⟨⟩
    exact h

variable {f g : Action Flow}

theorem stays_bindRound (name : String) (length : Nat) {item : Value × Nat}
    (h : item.1.MadeOf S) : (Machine.bindRound name length item).Stays S fun _ => True := by
  refine .bind (stays_bindLoop name h) fun _ _ => ?_
  refine .bind (stays_newMap ?_) fun info hinfo => stays_bindLoop "loop" hinfo
  refine Dictionary.All.ofList ?_
  simp only [List.forall_mem_cons, List.not_mem_nil, false_implies, implies_true, and_true]
  exact ⟨trivial, trivial, trivial, trivial, trivial⟩

theorem accord_countedRound {prepare : Action Unit} (hp : prepare.Stays S fun _ => True)
    (h : Accord S (Flow.MadeOf S) f g) :
    Accord S (Flow.MadeOf S) (Machine.countedRound prepare f) (Machine.countedRound prepare g) :=
  .bind stays_stepLoop fun _ _ => .bind hp fun _ _ => h

theorem accord_eachRound {α : Type} {f g : α → Action (Option Flow)} : ∀ {items : List α},
    (∀ a ∈ items, Accord S (fun o => ∀ f ∈ o, f.MadeOf S) (f a) (g a)) →
      Accord S (Flow.MadeOf S) (Machine.eachRound f items) (Machine.eachRound g items)
  | [], _ => .pure (a := Flow.normal) trivial
  | a :: rest, h => by
    rw [Machine.eachRound_cons, Machine.eachRound_cons]
    refine .bind (h a List.mem_cons_self) fun flow hflow => ?_
    match flow with
    | none => exact accord_eachRound fun b hb => h b (List.mem_cons_of_mem a hb)
    | some flow => exact .pure (hflow flow rfl)

theorem accord_repeatRound {f g : Action (Option Flow)}
    (h : Accord S (fun o => ∀ f ∈ o, f.MadeOf S) f g) (bound : Nat) :
    Accord S (Flow.MadeOf S) (Machine.repeatRound f bound) (Machine.repeatRound g bound) := by
  induction bound with
  | zero => exact .outOfFuel
  | succ n ih =>
    rw [Machine.repeatRound_succ, Machine.repeatRound_succ]
    refine .bind h fun flow hflow => ?_
    match flow with
    | none => exact ih
    | some flow => exact .pure (hflow flow rfl)

theorem accord_inLoop (p : Position) (h : Accord S (Flow.MadeOf S) f g) :
    Accord S (Flow.MadeOf S) (Machine.inLoop p f) (Machine.inLoop p g) :=
  Region.accord_around .loop (Region.stays_enterLoop p) (.bind stays_inheritLoop fun _ _ => h)

theorem accord_forEach (name : String) (p : Position) {items : List Value}
    (hitems : ∀ v ∈ items, v.MadeOf S) (h : Accord S (Flow.MadeOf S) f g) :
    Accord S (Flow.MadeOf S) (Machine.forEach name p items f) (Machine.forEach name p items g) := by
  refine accord_inLoop p (accord_eachRound fun item hitem => ?_)
  have hitem : item.1.MadeOf S := hitems _ (List.fst_mem_of_mem_zipIdx hitem)
  rw [Machine.eachBody_eq, Machine.eachBody_eq]
  exact .bind (accord_countedRound (stays_bindRound name _ hitem) h) fun flow hflow =>
    .pure hflow.endsLoop

theorem accord_whileLoop (p : Position) {a b : Action Value} (hab : Accord S (Value.MadeOf S) a b)
    (h : Accord S (Flow.MadeOf S) f g) :
    Accord S (Flow.MadeOf S) (Machine.whileLoop p a f) (Machine.whileLoop p b g) := by
  have hround : Accord S (fun o => ∀ f ∈ o, f.MadeOf S) (Machine.whileBody a f)
      (Machine.whileBody b g) := by
    rw [Machine.whileBody_eq, Machine.whileBody_eq]
    refine .bind hab fun v _ => .bind (A := fun _ => True) (.inStore fun _ _ => trivial) ?_
    intro holds _
    exact .ite (.bind (accord_countedRound (.pure trivial) h) fun flow hflow =>
      .pure hflow.endsLoop) (.pure (by rintro _ ⟨⟩; trivial))
  refine accord_inLoop p ⟨fun c => ?_, fun c => ?_, fun c => ?_⟩
  · exact (accord_repeatRound hround _).same c
  · exact (accord_repeatRound hround _).leaves c
  · exact (accord_repeatRound hround _).gives c

/-- What comes after a statement that gives nothing. -/
theorem Action.Accord.normally {α : Type} {A : α → Prop} {x y : Action α} (h : Accord S A x y) :
    Accord S (Flow.MadeOf S) (x >>= fun _ => Pure.pure Flow.normal)
      (y >>= fun _ => Pure.pure Flow.normal) := .bind h fun _ _ => .pure trivial

/-! ## Calls -/

/-- Whatever the machines are asked for they agree on, if it is made of such statements. -/
structure Machine.Accord (S : Stmt → Prop) (m n : Machine) : Prop where
  run {b : Block} : b.Everywhere S → Action.Accord S (Flow.MadeOf S) (m.run b) (n.run b)
  native (f : Native) {args : List Value} (p : Position) : (∀ v ∈ args, v.MadeOf S) →
    Action.Accord S (Value.MadeOf S) (m.native f args p) (n.native f args p)

namespace Machine.Accord

variable {m n : Machine}

theorem stays_bindParams : ∀ (names : List String) {args : List Value}, (∀ v ∈ args, v.MadeOf S) →
    (Machine.bindParams names args).Stays S fun _ => True
  | [], _, _ => .pure trivial
  | name :: rest, args, h => by
    have hhead : (args.head?.getD .undefined).MadeOf S :=
      Value.carries_getD fun v hv => h v (List.mem_of_mem_head? hv)
    exact .bind (stays_bindLocal name hhead) fun _ _ =>
      stays_bindParams rest fun v hv => h v (List.mem_of_mem_tail hv)

theorem callDefined (h : m.Accord S n) {d : FunctionDef} (hd : d.MadeOf S) {args : List Value}
    (hargs : ∀ v ∈ args, v.MadeOf S) (p : Position) :
    Action.Accord S (Value.MadeOf S) (m.callDefined d args p) (n.callDefined d args p) := by
  refine .ite (.failAt _ _) <| Region.accord_around .function (Region.stays_enterFunction p) <|
    .bind (stays_bindParams d.params hargs) fun _ _ =>
    .bind (Region.accord_holding .output Region.stays_pushOutput (h.run hd)) ?_
  rintro ⟨flow, text⟩ ⟨hflow, htext⟩
  rcases flow with _ | _ | _ | ⟨_ | v⟩
  · exact .pure htext
  · exact .pure htext
  · exact .pure htext
  · exact .pure htext
  · exact .pure (a := v) hflow

theorem call (h : m.Accord S n) {f : Function} (hf : f.Carries (FunctionDef.MadeOf S))
    {args : List Value} (hargs : ∀ v ∈ args, v.MadeOf S) (p : Position) :
    Action.Accord S (Value.MadeOf S) (m.call f args p) (n.call f args p) := by
  cases f with
  | builtin b => exact stays_builtin b hargs p
  | native f => exact h.native f p hargs
  | defined d => exact h.callDefined hf hargs p

theorem settle (h : m.Accord S n) (outermost : Bool) (p : Position) {v : Value}
    (hv : v.MadeOf S) :
    Action.Accord S (Value.MadeOf S) (m.settle outermost p v) (n.settle outermost p v) := by
  cases v with
  | function f =>
    exact .viewing fun _ _ => .ite (.pure hv) (h.call hv (List.forall_mem_nil _) p)
  | _ => exact .pure hv

theorem callValue (h : m.Accord S n) {v : Value} (hv : v.MadeOf S) {args : List Value}
    (hargs : ∀ v ∈ args, v.MadeOf S) (callee : Expr) (p : Position) :
    Action.Accord S (Value.MadeOf S) (m.callValue v args callee p)
      (n.callValue v args callee p) := by
  cases v with
  | function f => exact h.call hv hargs p
  | _ => exact .viewing fun _ _ => .failAt _ _

/-! ## Expressions -/

theorem settled (h : m.Accord S n) (outermost : Bool) (p : Position) {x y : Action Value}
    (hx : Action.Accord S (Value.MadeOf S) x y) :
    Action.Accord S (Value.MadeOf S) (x >>= fun v => m.settle outermost p v)
      (y >>= fun v => n.settle outermost p v) :=
  .bind hx fun _ hv => h.settle outermost p hv

mutual

/-- Expressions, by induction on the syntax. -/
theorem reach (h : m.Accord S n) : ∀ (e : Expr) (outermost : Bool),
    Action.Accord S (Value.MadeOf S) (e.reach m outermost) (e.reach n outermost)
  | .literal v p, o => h.settle o p (Value.carries_ofLiteral v)
  | .var ref, o => h.settled o _ (stays_readVariable ref)
  | .member target name p, o =>
    .bind (reach h target false) fun object _ =>
    .bind (stays_ofMember object name target p) fun place _ => h.settled o p (stays_read place)
  | .index target key p, o =>
    .bind (reach h target false) fun object _ =>
    .ite (.failAt _ _) <|
    .bind ((reach h key true).withSuppression false) fun k _ =>
    .bind (stays_ofKey object k key.position target p) fun place _ =>
    h.settled o p (stays_read place)
  | .call callee args p, o =>
    .bind ((reach h callee true).withSuppression true) fun _ hf =>
    .bind (items h args) fun _ hvs => h.settled o p (h.callValue hf hvs callee p)
  | .list es p, o =>
    .bind (items h es) fun _ hvs => h.settled o p (stays_newList hvs)
  | .map es p, o =>
    .bind (entries h es) fun _ hvs => h.settled o p (stays_newMap (Dictionary.All.ofList hvs))
  | .unary _ operand p, o =>
    .bind ((reach h operand true).withSuppression false) fun _ _ =>
    h.settled o p (.tryView p fun _ _ _ hv => Store.carries_unary hv)
  | .binary .and left right p, o =>
    .bind ((reach h left true).withSuppression false) fun _ ha =>
    .viewing fun _ _ =>
    .ite (h.settled o p ((reach h right true).withSuppression false)) (h.settled o p (.pure ha))
  | .binary .or left right p, o =>
    .bind ((reach h left true).withSuppression false) fun _ ha =>
    .viewing fun _ _ =>
    .ite (h.settled o p (.pure ha)) (h.settled o p ((reach h right true).withSuppression false))
  | .binary .add left right p, o | .binary .sub left right p, o | .binary .mul left right p, o
  | .binary .div left right p, o | .binary .rem left right p, o | .binary .concat left right p, o
  | .binary .eq left right p, o | .binary .ne left right p, o | .binary .lt left right p, o
  | .binary .gt left right p, o | .binary .le left right p, o | .binary .ge left right p, o =>
    .bind ((reach h left true).withSuppression false) fun _ ha =>
    .bind ((reach h right true).withSuppression false) fun _ hb =>
    h.settled o p (.tryStore p fun _ hs _ _ ht => hs.binary ha hb ht)

theorem items (h : m.Accord S n) : ∀ es : List Expr,
    Action.Accord S (fun vs => ∀ v ∈ vs, v.MadeOf S) (evaluateItems m es) (evaluateItems n es)
  | [] => .pure (List.forall_mem_nil _)
  | e :: rest =>
    .bind ((reach h e true).withSuppression false) fun _ hv =>
    .bind (items h rest) fun _ hvs => .pure (List.forall_mem_cons.2 ⟨hv, hvs⟩)

theorem entries (h : m.Accord S n) : ∀ es : List (String × Expr),
    Action.Accord S (fun vs => ∀ x ∈ vs, x.2.MadeOf S) (evaluateEntries m es)
      (evaluateEntries n es)
  | [] => .pure (List.forall_mem_nil _)
  | (_, e) :: rest =>
    .bind ((reach h e true).withSuppression false) fun _ hv =>
    .bind (entries h rest) fun _ hvs => .pure (List.forall_mem_cons.2 ⟨hv, hvs⟩)

end

theorem evaluate (h : m.Accord S n) (e : Expr) :
    Action.Accord S (Value.MadeOf S) (e.evaluate m) (e.evaluate n) :=
  (h.reach e true).withSuppression false

theorem assign (h : m.Accord S n) (e : Expr) {v : Value} (hv : v.MadeOf S) :
    Action.Accord S (fun _ => True) (e.assign m v) (e.assign n v) := by
  refine Action.Accord.withSuppression false ?_
  cases e with
  | var ref => exact stays_writeVariable ref hv
  | member target name p =>
    exact .bind (h.reach target false) fun object _ =>
      .bind (stays_ofMember object name target p) fun place _ => stays_write place hv
  | index target key p =>
    exact .bind (h.reach target false) fun object _ => .ite (.failAt _ _) <|
      .bind (h.evaluate key) fun k _ =>
      .bind (stays_ofKey object k key.position target p) fun place _ => stays_write place hv
  | _ => exact .failAt _ _

/-! ## Statements -/

theorem includedModel (h : m.Accord S n) (path : String) (model : Option Expr) :
    Action.Accord S (fun o => ∀ v ∈ o, v.MadeOf S) (TemplateEngine.includedModel m path model)
      (TemplateEngine.includedModel n path model) := by
  cases model with
  | none => exact .pure (fun _ => nofun)
  | some e =>
    refine .bind (h.evaluate e) fun v hv => .ite (.failAt _ _) (.pure ?_)
    rintro _ ⟨⟩
    exact hv

theorem runIncluded (h : m.Accord S n) {t : Template} (ht : t.MadeOf S) {model : Option Value}
    (hmodel : ∀ v ∈ model, v.MadeOf S) (p : Position) :
    Action.Accord S (fun _ => True) (TemplateEngine.runIncluded m t model p)
      (TemplateEngine.runIncluded n t model p) := by
  refine Region.accord_around .function (Region.stays_enterFunction p) <|
    Region.accord_around .source (Region.stays_pushSource t.name) ?_
  cases model with
  | none => exact .bind (h.run ht) fun _ _ => .pure trivial
  | some v =>
    exact .bind (Region.accord_around .global (Region.stays_pushGlobal (hmodel v rfl)) (h.run ht))
      fun _ _ => .pure trivial

mutual

/-- Statements, by induction on the syntax. -/
theorem statement (h : m.Accord S n) : ∀ s : Stmt, (∀ x ∈ s.blocks, x.2.Everywhere S) →
      Action.Accord S (Flow.MadeOf S) (s.run m) (s.run n)
  | .text t, _ => normally (stays_writeText t)
  | .output e, _ =>
    .bind (h.evaluate e) fun v _ => normally (stays_writeValue v _)
  | .assign target e, _ =>
    .bind (h.evaluate e) fun _ hv => normally (h.assign target hv)
  | .assignGlobal ref e, _ =>
    .bind (h.evaluate e) fun _ hv => normally (stays_writeVariable ref hv)
  | .choose bs none, hb =>
    .bind (branches h bs fun x hx =>
      hb (.plain, x.2) (List.mem_append_left _ (List.mem_map_of_mem hx))) fun
      | some _, hflow => .pure (hflow _ rfl)
      | none, _ => .pure trivial
  | .choose bs (some b), hb =>
    .bind (branches h bs fun x hx =>
      hb (.plain, x.2) (List.mem_append_left _ (List.mem_map_of_mem hx))) fun
      | some _, hflow => .pure (hflow _ rfl)
      | none, _ => block h b (hb (.plain, b) (by simp [Stmt.blocks]))
  | .each ref e body none p, hb =>
    .bind (h.evaluate e) fun _ _ =>
    .bind (.tryView _ fun _ hs _ hxs => hs.iterationItems hxs) fun
      | [], _ => .pure trivial
      | _ :: _, hxs => accord_forEach ref.name p hxs (block h body (hb _ List.mem_cons_self))
  | .each ref e body (some b) p, hb =>
    .bind (h.evaluate e) fun _ _ =>
    .bind (.tryView _ fun _ hs _ hxs => hs.iterationItems hxs) fun
      | [], _ => block h b (hb (.plain, b) (by simp [Stmt.blocks]))
      | _ :: _, hxs => accord_forEach ref.name p hxs (block h body (hb _ List.mem_cons_self))
  | .repeatWhile e body p, hb =>
    accord_whileLoop p (h.evaluate e) (block h body (hb _ List.mem_cons_self))
  | .define _ name _ body _, hb =>
    have hbody : Block.Everywhere S body := hb _ List.mem_cons_self
    normally (stays_writeVariable name hbody)
  | .leave none _, _ => .pure trivial
  | .leave (some e) _, _ => .bind (h.evaluate e) fun _ hv => .pure hv
  | .stop _, _ => .pure trivial
  | .next _, _ => .pure trivial
  | .capture target body, hb =>
    .bind (Region.accord_holding .output Region.stays_pushOutput
      (block h body (hb _ List.mem_cons_self))) fun _ hy =>
    .bind (h.assign target hy.2) fun _ _ => .pure hy.1
  | .include path model p, _ =>
    .bind (h.evaluate path) fun v _ => .bind (.toText v _) fun name _ =>
    .bind (stays_loadTemplate name p) fun _ ht =>
    .bind (h.includedModel name model) fun _ hv => normally (h.runIncluded ht hv p)

theorem block (h : m.Accord S n) : ∀ b : List Stmt, Block.Everywhere S b →
    Action.Accord S (Flow.MadeOf S) (runBlock m b) (runBlock n b)
  | [], _ => .pure trivial
  | s :: rest, hb =>
    have ⟨⟨_, hblocks⟩, hrest⟩ := Block.everywhere_cons.1 hb
    .bind (statement h s hblocks) fun flow hflow =>
      match flow with
      | .normal => block h rest hrest
      | .stop => .pure hflow
      | .next => .pure hflow
      | .leave _ => .pure hflow

theorem branches (h : m.Accord S n) : ∀ bs : List (Expr × List Stmt),
    (∀ x ∈ bs, Block.Everywhere S x.2) →
      Action.Accord S (fun o => ∀ f ∈ o, f.MadeOf S) (runBranches m bs) (runBranches n bs)
  | [], _ => .pure nofun
  | (e, body) :: rest, hbs =>
    have ⟨hbody, hrest⟩ := List.forall_mem_cons.1 hbs
    .bind (h.evaluate e) fun _ _ => .viewing fun _ _ =>
    .ite (.bind (block h body hbody) fun _ hflow => .pure (by rintro _ ⟨⟩; exact hflow))
      (branches h rest hrest)

end

/-! ## Renders -/

theorem rendering (name : String) (h : Action.Accord S (Flow.MadeOf S) f g) {model : Value}
    (hmodel : model.MadeOf S) : Action.Accord S (fun _ => True)
      (TemplateEngine.rendering name f model) (TemplateEngine.rendering name g model) := by
  refine Region.accord_around .global (Region.stays_pushGlobal hmodel) ?_
  refine .bind (A := Value.MadeOf S) (.onStore fun s hs => ?_) fun names hnames =>
    Region.accord_around .global (Region.stays_pushGlobal hnames) <|
    Region.accord_around .source (Region.stays_pushSource name) <|
    .bind (Region.accord_holding .output Region.stays_pushOutput h) fun _ _ => .pure trivial
  exact ⟨trivial, hs.alloc (c := .names .empty) .empty⟩

/-- A template that is made of such statements is rendered the same. -/
theorem render (h : m.Accord S n) {t : Template} (ht : t.MadeOf S) {model : Value}
    (hmodel : model.MadeOf S) :
    Action.Accord S (fun _ => True) (t.render m model) (t.render n model) := by
  have hbody := h.block t.body ht
  rw [Template.render_eq, Template.render_eq]
  exact .ite (.bind (stays_newMap .empty) fun _ hv => rendering _ hbody hv)
    (rendering _ hbody hmodel)

end Machine.Accord

end TemplateEngine
