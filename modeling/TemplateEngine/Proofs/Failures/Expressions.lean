import TemplateEngine.Proofs.Failures.Regions

/-!
# Failures of expressions

Loops and calls fail fairly if what runs in them does: rounds run in loops only, where the names of
the loop can be bound, and a call closes what it opened. So does the evaluation of expressions, by
induction on the syntax (`Machine.Fair.evaluate`), on a machine that is fair where evaluation leaves
the syntax. Fair failures are no `Congruence`: that would ask for regions to be fair under any name
and with any model, and for rounds to be so outside of loops.
-/

namespace TemplateEngine

open TemplateEngine.Action Action.Fair

variable {s : Surroundings} {l : Bool}

/-! ## Loops -/

theorem fair_stepLoop : stepLoop.Fair s l .silent where
  keeps := keeps_stepLoop
  stays c hc := by
    unfold stepLoop
    dsimp only
    split <;> exact ⟨hc.loader, hc.named, hc.loop⟩
  fails c _ e he := by
    unfold stepLoop at he
    dsimp only at he
    split at he
    · cases he
    · cases he
      exact .inl rfl

/-- A name of a loop can be bound where a loop is open. -/
theorem fair_bindLoop (name : String) (v : Value) : (bindLoop name v).Fair s true .silent where
  keeps := (quiet_bindLoop name v).keeps
  stays c hc := by
    refine hc.of_still (quiet_bindLoop name v c).2 ?_
    unfold bindLoop
    split <;> rfl
  fails c hc e he := by
    unfold bindLoop Scopes.loopFrame? at he
    cases hloops : c.scopes.loops with
    | nil => exact absurd hloops (hc.loop rfl)
    | cons frame rest =>
      rw [hloops] at he
      cases he

theorem fair_bindRound (name : String) (length : Nat) (item : Value × Nat) :
    (Machine.bindRound name length item).Fair s true .silent :=
  .bind (fair_bindLoop _ _) fun _ => .bind (.plain (.onStore _) (.onStore _)) fun _ =>
    fair_bindLoop _ _

theorem fair_countedRound {prepare : Action Unit} {body : Action Flow}
    (hp : prepare.Fair s true .silent) (h : body.Fair s true .writing) :
    (Machine.countedRound prepare body).Fair s true .writing :=
  .bind fair_stepLoop.up fun _ => .bind hp.up fun _ => h

theorem fair_eachRound {α : Type} {round : α → Action (Option Flow)}
    (h : ∀ a, (round a).Fair s true .writing) :
    ∀ items : List α, Action.Fair s true .writing (Machine.eachRound round items)
  | [] => .up (.pure Flow.normal)
  | a :: rest => by
    rw [Machine.eachRound_cons]
    refine .bind (h a) fun flow => ?_
    match flow with
    | none => exact fair_eachRound h rest
    | some flow => exact .up (.pure flow)

theorem fair_repeatRound {round : Action (Option Flow)} (h : round.Fair s true .writing)
    (bound : Nat) : Action.Fair s true .writing (Machine.repeatRound round bound) := by
  induction bound with
  | zero => exact .outOfFuel
  | succ n ih =>
    rw [Machine.repeatRound_succ]
    refine .bind h fun flow => ?_
    match flow with
    | none => exact ih
    | some flow => exact .up (.pure flow)

theorem fair_inLoop (p : Position) {rounds : Action Flow} (h : rounds.Fair s true .writing) :
    (Machine.inLoop p rounds).Fair s false .writing :=
  .first <| Region.fair_holding (Region.closes_loop p) <|
    .bind (.up (.plain quiet_inheritLoop fun _ => ⟨fun _ => nofun, rfl⟩)) fun _ => h

theorem fair_forEach (name : String) (p : Position) (items : List Value) {body : Action Flow}
    (h : body.Fair s false .writing) :
    (Machine.forEach name p items body).Fair s false .writing := by
  refine fair_inLoop p (fair_eachRound (fun item => ?_) _)
  rw [Machine.eachBody_eq]
  exact .bind (fair_countedRound (fair_bindRound name _ item) h.inner) fun _ => .up (.pure _)

theorem fair_whileLoop (p : Position) {condition : Action Value} {body : Action Flow}
    (hc : condition.Fair s false .silent) (h : body.Fair s false .writing) :
    (Machine.whileLoop p condition body).Fair s false .writing := by
  have hround : (Machine.whileBody condition body).Fair s true .writing := by
    rw [Machine.whileBody_eq]
    refine .bind hc.inner.up fun v => .bind (.up (.plain (.view _) (.view _))) fun holds => ?_
    exact .ite (.bind (fair_countedRound (.pure ()) h.inner) fun _ => .up (.pure _))
      (.up (.pure _))
  exact fair_inLoop p ⟨fun c => (fair_repeatRound hround _).keeps c,
    fun c => (fair_repeatRound hround _).stays c, fun c => (fair_repeatRound hround _).fails c⟩

/-! ## Calls -/

/-- Whatever the machine is asked for is fair. -/
structure Machine.Fair (s : Surroundings) (m : Machine) : Prop where
  run (b : Block) : (m.run b).Fair s false .writing
  native (f : Native) (args : List Value) (p : Position) : (m.native f args p).Fair s false .silent

namespace Machine.Fair

variable {m : Machine}

theorem bindParams : ∀ (names : List String) (args : List Value),
    (Machine.bindParams names args).Fair s l .silent
  | [], _ => .pure _
  | _ :: rest, args =>
    .bind (.plain (quiet_setLocalFrame _) fun _ => ⟨fun _ => nofun, rfl⟩) fun _ =>
    bindParams rest args.tail

theorem callDefined (h : m.Fair s) (d : FunctionDef) (args : List Value) (p : Position) :
    (m.callDefined d args p).Fair s false .silent := by
  refine .ite (.plain (.failAt _ _) (.failAt _ _)) <| .first <|
    Region.fair_holding (Region.closes_function p .silent) <|
    .bind (bindParams d.params args) fun _ =>
    .bind (Region.fair_holding Region.closes_output (h.run d.body)) fun (flow, _) => ?_
  rcases flow with _ | _ | _ | ⟨_ | _⟩ <;> exact .pure _

theorem call (h : m.Fair s) (f : Function) (args : List Value) (p : Position) :
    (m.call f args p).Fair s false .silent := by
  cases f with
  | builtin b => exact .plain (quiet_builtin b args p) (plain_builtin b args p)
  | native f => exact h.native f args p
  | defined d => exact h.callDefined d args p

theorem settle (h : m.Fair s) (outermost : Bool) (p : Position) (v : Value) :
    (m.settle outermost p v).Fair s false .silent := by
  cases v with
  | function f =>
    exact .bind (.plain (.view _) (.view _)) fun _ => .ite (.pure _) (h.call f [] p)
  | _ => exact .pure _

theorem callValue (h : m.Fair s) (v : Value) (args : List Value) (callee : Expr) (p : Position) :
    (m.callValue v args callee p).Fair s false .silent := by
  cases v with
  | function f => exact h.call f args p
  | _ =>
    exact .bind (.plain (.view _) (.view _)) fun _ => .plain (.failAt _ _) (.failAt _ _)

/-! ## Expressions -/

theorem settled (h : m.Fair s) (outermost : Bool) (p : Position) {x : Action Value}
    (hx : x.Fair s false .silent) :
    (x >>= fun v => m.settle outermost p v).Fair s false .silent :=
  .bind hx fun v => h.settle outermost p v

mutual

/-- Expressions, by induction on the syntax. -/
theorem reach (h : m.Fair s) :
    ∀ (e : Expr) (outermost : Bool), (e.reach m outermost).Fair s false .silent
  | .literal v p, o => h.settle o p (.ofLiteral v)
  | .var ref, o => h.settled o _ (.plain (quiet_readVariable ref) (plain_readVariable ref))
  | .member target name p, o =>
    .bind (reach h target false) fun object =>
    .bind (.plain (quiet_ofMember object name target p) (plain_ofMember object name target p))
      fun place => h.settled o p (.plain (quiet_read place) (plain_read place))
  | .index target key p, o =>
    .bind (reach h target false) fun object =>
    .ite (.plain (.failAt _ _) (.failAt _ _)) <|
    .bind ((reach h key true).withSuppression false) fun k =>
    .bind (.plain (quiet_ofKey object k key.position target p)
      (plain_ofKey object k key.position target p)) fun place =>
    h.settled o p (.plain (quiet_read place) (plain_read place))
  | .call callee args p, o =>
    .bind ((reach h callee true).withSuppression true) fun f =>
    .bind (items h args) fun vs => h.settled o p (h.callValue f vs callee p)
  | .list es p, o =>
    .bind (items h es) fun _ => h.settled o p (.plain (.onStore _) (.onStore _))
  | .map es p, o =>
    .bind (entries h es) fun _ => h.settled o p (.plain (.onStore _) (.onStore _))
  | .unary _ operand p, o =>
    .bind ((reach h operand true).withSuppression false) fun _ =>
    h.settled o p (.plain (.tryView p _) (.tryView p _))
  | .binary .and left right p, o =>
    .bind ((reach h left true).withSuppression false) fun a =>
    .bind (.plain (.view _) (.view _)) fun _ =>
    .ite (h.settled o p ((reach h right true).withSuppression false)) (h.settled o p (.pure a))
  | .binary .or left right p, o =>
    .bind ((reach h left true).withSuppression false) fun a =>
    .bind (.plain (.view _) (.view _)) fun _ =>
    .ite (h.settled o p (.pure a)) (h.settled o p ((reach h right true).withSuppression false))
  | .binary .add left right p, o | .binary .sub left right p, o | .binary .mul left right p, o
  | .binary .div left right p, o | .binary .rem left right p, o | .binary .concat left right p, o
  | .binary .eq left right p, o | .binary .ne left right p, o | .binary .lt left right p, o
  | .binary .gt left right p, o | .binary .le left right p, o | .binary .ge left right p, o =>
    .bind ((reach h left true).withSuppression false) fun _ =>
    .bind ((reach h right true).withSuppression false) fun _ =>
    h.settled o p (.plain (.tryStore p _) (.tryStore p _))

theorem items (h : m.Fair s) : ∀ es : List Expr, (evaluateItems m es).Fair s false .silent
  | [] => .pure _
  | e :: rest =>
    .bind ((reach h e true).withSuppression false) fun _ => .bind (items h rest) fun _ => .pure _

theorem entries (h : m.Fair s) :
    ∀ es : List (String × Expr), (evaluateEntries m es).Fair s false .silent
  | [] => .pure _
  | (_, e) :: rest =>
    .bind ((reach h e true).withSuppression false) fun _ => .bind (entries h rest) fun _ =>
    .pure _

end

theorem evaluate (h : m.Fair s) (e : Expr) : (e.evaluate m).Fair s false .silent :=
  (h.reach e true).withSuppression false

theorem assign (h : m.Fair s) (e : Expr) (v : Value) : (e.assign m v).Fair s false .silent := by
  refine Action.Fair.withSuppression false ?_
  cases e with
  | var ref => exact .plain (quiet_writeVariable ref v) (plain_writeVariable ref v)
  | member target name p =>
    exact .bind (h.reach target false) fun object =>
      .bind (.plain (quiet_ofMember object name target p) (plain_ofMember object name target p))
        fun place => .plain (quiet_write v place) (plain_write v place)
  | index target key p =>
    exact .bind (h.reach target false) fun object =>
      .ite (.plain (.failAt _ _) (.failAt _ _)) <|
      .bind (h.evaluate key) fun k =>
      .bind (.plain (quiet_ofKey object k key.position target p)
        (plain_ofKey object k key.position target p)) fun place =>
      .plain (quiet_write v place) (plain_write v place)
  | _ => exact .plain (.failAt _ _) (.failAt _ _)

end Machine.Fair

end TemplateEngine
