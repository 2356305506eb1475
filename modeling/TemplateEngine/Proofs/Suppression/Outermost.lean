import TemplateEngine.Proofs.Suppression.Blind

/-!
# Suppression touches only the outermost node

The value of an expression is reached in two steps: first what the expression says itself
(`Expr.arrive`), and then the call of a function that came out, which the flag can prevent
(`Machine.settle`). The first step is blind to the flag, since everything inside of an expression is
evaluated with a flag of its own or on the way to a member or an item, where the flag does not
count. So are the bodies of functions and templates, by induction on the levels of calls, as long as
the operations of the host are. An expression with its function called is then the same as the
expression with its function given, and the function called after it
(`suppression_touches_outermost_only`).
-/

namespace TemplateEngine

open TemplateEngine.Action

/-! ## Two steps -/

/-- Calls a function without arguments; another value is given as it is. -/
def Machine.invoke (m : Machine) (p : Position) : Value → Action Value
  | .function f => m.call f [] p
  | v => pure v

/-- What an expression says itself: its value, before a function that comes out is called. -/
def Expr.arrive (m : Machine) : Expr → Action Value
  | .literal value _ => pure (.ofLiteral value)
  | .var ref => readVariable ref
  | .member target name p => do
    let object ← target.reach m false
    let place ← Place.ofMember object name target p
    place.read
  | .index target key p => do
    let object ← target.reach m false
    if object.isAbsent then failAt p (.indexOfNull target.display)
    else
      let k ← key.evaluate m
      let place ← Place.ofKey object k key.position target p
      place.read
  | .call callee args p => do
    let f ← callee.evaluateUninvoked m
    let vs ← evaluateItems m args
    m.callValue f vs callee p
  | .list items _ => do
    let vs ← evaluateItems m items
    onStore fun s => s.newList vs
  | .map entries _ => do
    let es ← evaluateEntries m entries
    onStore fun s => s.newMap (.ofList es)
  | .unary op operand p => do
    let x ← operand.evaluate m
    tryView p fun s => s.unary op x
  | .binary .and left right _ => do
    let a ← left.evaluate m
    let holds ← inStore fun s => s.isTruthy a
    if holds then right.evaluate m else pure a
  | .binary .or left right _ => do
    let a ← left.evaluate m
    let holds ← inStore fun s => s.isTruthy a
    if holds then pure a else right.evaluate m
  | .binary op left right p => do
    let a ← left.evaluate m
    let b ← right.evaluate m
    tryStore p fun s => s.binary op a b

theorem Action.ite_bind {α β : Type} {p : Prop} [Decidable p] (x y : Action α)
    (f : α → Action β) : (if p then x else y) >>= f = if p then x >>= f else y >>= f := by
  split <;> rfl

theorem Action.failAt_bind {α β : Type} (p : Position) (fault : ScriptFault)
    (f : α → Action β) : (failAt p fault : Action α) >>= f = failAt p fault := rfl

/-- What comes out is settled at the end, and only there. -/
theorem Expr.reach_eq (m : Machine) (outermost : Bool) (e : Expr) :
    e.reach m outermost = e.arrive m >>= m.settle outermost e.position := by
  cases e with
  | literal value p => rfl
  | var ref => rfl
  | binary op left right p =>
    cases op <;> simp only [Expr.reach, Expr.arrive, Expr.position, Expr.evaluate, bind_assoc,
      ite_bind]
  | _ =>
    simp only [Expr.reach, Expr.arrive, Expr.position, Expr.evaluate, Expr.evaluateUninvoked,
      bind_assoc, ite_bind, failAt_bind]

/-! ## Settling -/

/-- On the way to a member or an item a function is called, however the flag stands. -/
theorem Machine.settle_inner (m : Machine) (p : Position) (v : Value) :
    m.settle false p v = m.invoke p v := by
  cases v <;> rfl

/-- At the end the flag decides whether a function is called. -/
theorem Machine.settle_outermost (m : Machine) (p : Position) (v : Value) {c : Context} {b : Bool}
    (h : c.suppressed = b) :
    m.settle true p v c = (if b then pure v else m.invoke p v) c := by
  subst h
  cases v with
  | function f =>
    simp only [settle, invoke, bind_apply, view, Bool.true_and]
  | _ =>
    cases c.suppressed <;> rfl

/-- After a blind action the flag still stands as it was set. -/
theorem Action.Blind.withSuppression_bind {α β : Type} {x : Action α} (hx : x.Blind) {b : Bool}
    {f g : α → Action β} (h : ∀ a c, c.suppressed = b → f a c = g a c) :
    Action.withSuppression b (x >>= f) = Action.withSuppression b (x >>= g) := by
  funext c
  have hflag : (x { c with suppressed := b }).2.suppressed = b := hx.suppressed _
  simp only [Action.withSuppression]
  rcases hc : x { c with suppressed := b } with ⟨a | e | _, d⟩ <;> rw [hc] at hflag
  · rw [bind_of_ok hc, bind_of_ok hc, h a d hflag]
  · rw [bind_of_error hc, bind_of_error hc]
  · rw [bind_of_outOfFuel hc, bind_of_outOfFuel hc]

/-! ## Calls -/

/-- The bodies that a machine runs and the operations that it has are blind. -/
structure Machine.Blind (m : Machine) : Prop where
  run (b : Block) : (m.run b).Blind
  native (f : Native) (args : List Value) (p : Position) : (m.native f args p).Blind

/-- No operation of the host reads the flag, unless the evaluation that it asks for does. -/
def Host.Blind (host : Host) : Prop :=
  ∀ (f : Native) (m : Machine), m.Blind → ∀ (args : List Value) (p : Position),
    (host f m args p).Blind

namespace Machine.Blind

variable {m : Machine} (h : m.Blind)

include h

theorem callDefined (d : FunctionDef) (args : List Value) (p : Position) :
    (m.callDefined d args p).Blind := by
  refine .ite (.failAt _ _) (.around (blind_enterFunction p) ?_)
  refine .bind (blind_bindParams _ _) fun _ =>
    .bind (.holding (.modify fun _ _ => rfl) (h.run _)) ?_
  rintro ⟨flow, text⟩
  cases flow with
  | leave value => cases value <;> exact .pure _
  | _ => exact .pure _

theorem call (f : Function) (args : List Value) (p : Position) : (m.call f args p).Blind := by
  cases f with
  | builtin b => exact .of_unaware (unaware_builtin b args p)
  | native f => exact h.native f args p
  | defined d => exact h.callDefined d args p

theorem invoke (p : Position) (v : Value) : (m.invoke p v).Blind := by
  cases v with
  | function f => exact h.call f [] p
  | _ => exact .pure _

theorem callValue (v : Value) (args : List Value) (callee : Expr) (p : Position) :
    (m.callValue v args callee p).Blind := by
  cases v with
  | function f => exact h.call f args p
  | _ => exact .bind (.inStore _) fun _ => .failAt _ _

/-! ## Expressions -/

omit h in
theorem items (es : List Expr) : (evaluateItems m es).Blind := by
  induction es with
  | nil =>
    rw [evaluateItems]
    exact .pure _
  | cons e rest ih =>
    rw [evaluateItems]
    exact .bind (.withSuppression _ _) fun _ => .bind ih fun _ => .pure _

omit h in
theorem entries (es : List (String × Expr)) : (evaluateEntries m es).Blind := by
  induction es with
  | nil =>
    rw [evaluateEntries]
    exact .pure _
  | cons e rest ih =>
    rw [evaluateEntries]
    exact .bind (.withSuppression _ _) fun _ => .bind ih fun _ => .pure _

/-- On the way to a member or an item, a function that comes out is called however the flag
stands. -/
theorem reach_of_arrive {e : Expr} (he : (e.arrive m).Blind) : (e.reach m false).Blind := by
  rw [Expr.reach_eq]
  refine .bind he fun v => ?_
  rw [settle_inner]
  exact h.invoke _ v

/-- What an expression says itself, by induction on the targets of its members and items. -/
theorem arrive (e : Expr) : (e.arrive m).Blind := by
  cases e with
  | literal => exact .pure _
  | var ref => exact blind_readVariable ref
  | member target =>
    exact .bind (h.reach_of_arrive (arrive target)) fun _ =>
      .bind (.of_unaware (unaware_ofMember _ _ _ _)) fun place => .of_unaware (unaware_read place)
  | index target =>
    exact .bind (h.reach_of_arrive (arrive target)) fun _ =>
      .ite (.failAt _ _) <| .bind (.withSuppression _ _) fun _ =>
        .bind (.of_unaware (unaware_ofKey _ _ _ _ _)) fun place => .of_unaware (unaware_read place)
  | call _ args =>
    exact .bind (.withSuppression _ _) fun _ => .bind (items args) fun _ => h.callValue _ _ _ _
  | list es => exact .bind (items es) fun _ => .of_unaware (.onStore _)
  | map es => exact .bind (entries es) fun _ => .of_unaware (.onStore _)
  | unary => exact .bind (.withSuppression _ _) fun _ => .of_unaware (.tryView _ _)
  | binary op =>
    cases op with
    | and =>
      exact .bind (.withSuppression _ _) fun _ => .bind (.inStore _) fun _ =>
        .ite (.withSuppression _ _) (.pure _)
    | or =>
      exact .bind (.withSuppression _ _) fun _ => .bind (.inStore _) fun _ =>
        .ite (.pure _) (.withSuppression _ _)
    | _ =>
      exact .bind (.withSuppression _ _) fun _ => .bind (.withSuppression _ _) fun _ =>
        .of_unaware (.tryStore _ _)

/-- With the flag set, the outermost function is given; without it, the function is called after all
else is done. -/
theorem withSuppression_reach (b : Bool) (e : Expr) :
    withSuppression b (e.reach m true) =
      e.arrive m >>= fun v => if b then pure v else m.invoke e.position v := by
  -- the flag is looked at only where the value is settled, and until then it stands as it was set
  rw [Expr.reach_eq,
    (h.arrive e).withSuppression_bind fun v _ hc => m.settle_outermost e.position v hc]
  have hblind :
      Action.Blind (e.arrive m >>= fun v => if b then pure v else m.invoke e.position v) :=
    .bind (h.arrive e) fun v => .ite (.pure v) (h.invoke e.position v)
  exact hblind.withSuppression_eq b

theorem evaluateUninvoked_eq (e : Expr) : e.evaluateUninvoked m = e.arrive m := by
  rw [Expr.evaluateUninvoked, h.withSuppression_reach true e]
  exact bind_pure _

/-- The value of an expression is what it gives when it is not called, and the call after it. -/
theorem evaluate_eq (e : Expr) :
    e.evaluate m = e.evaluateUninvoked m >>= m.invoke e.position := by
  rw [Expr.evaluate, h.withSuppression_reach false e, h.evaluateUninvoked_eq e]
  rfl

theorem write (v : Value) (e : Expr) : (e.write m v).Blind := by
  cases e with
  | var ref => exact blind_writeVariable ref v
  | member target name p =>
    exact .bind (h.reach_of_arrive (h.arrive target)) fun _ =>
      .bind (.of_unaware (unaware_ofMember _ _ _ _)) fun place =>
      .of_unaware (unaware_write v place)
  | index target key p =>
    exact .bind (h.reach_of_arrive (h.arrive target)) fun _ => .ite (.failAt _ _) <|
      .bind (.withSuppression _ _) fun _ => .bind (.of_unaware (unaware_ofKey _ _ _ _ _))
        fun place => .of_unaware (unaware_write v place)
  | _ => exact .failAt _ _

/-! ## Statements -/

omit h in
theorem includedModel (path : String) (e : Option Expr) :
    (TemplateEngine.includedModel m path e).Blind := by
  cases e with
  | none => exact .pure _
  | some e => exact .bind (.withSuppression _ _) fun _ => .ite (.failAt _ _) (.pure _)

theorem runIncluded (t : Template) (model : Option Value) (p : Position) :
    (TemplateEngine.runIncluded m t model p).Blind := by
  refine .around (blind_enterFunction p) (.around (.of_unaware (unaware_pushSource _)) ?_)
  cases model with
  | none => exact .bind (h.run t.body) fun _ => .pure ()
  | some v => exact .bind (.around (blind_pushGlobal v) (h.run t.body)) fun _ => .pure ()

omit h

mutual

theorem statement (h : m.Blind) : ∀ s : Stmt, (s.run m).Blind
  | .text _ => .bind (.modify fun _ _ => rfl) fun _ => .pure _
  | .output _ => .bind (.withSuppression _ _) fun v =>
    .bind (.of_unaware (unaware_writeValue v _)) fun _ => .pure _
  | .assign _ _ => .bind (.withSuppression _ _) fun _ =>
    .bind (.withSuppression _ _) fun _ => .pure _
  | .assignGlobal ref _ => .bind (.withSuppression _ _) fun v =>
    .bind (blind_writeVariable ref v) fun _ => .pure _
  | .choose bs none => .bind (branches h bs) fun flow =>
    match flow with
    | some _ => .pure _
    | none => .pure _
  | .choose bs (some b) => .bind (branches h bs) fun flow =>
    match flow with
    | some _ => .pure _
    | none => block h b
  | .each ref _ body none p => .bind (.withSuppression _ _) fun _ =>
    .bind (.of_unaware (.tryView _ _)) fun xs =>
    match xs with
    | [] => .pure _
    | x :: xs => .forEach ref.name p (x :: xs) (block h body)
  | .each ref _ body (some b) p => .bind (.withSuppression _ _) fun _ =>
    .bind (.of_unaware (.tryView _ _)) fun xs =>
    match xs with
    | [] => block h b
    | x :: xs => .forEach ref.name p (x :: xs) (block h body)
  | .repeatWhile _ body p => .whileLoop p (.withSuppression _ _) (block h body)
  | .define _ name _ _ _ => .bind (blind_writeVariable name _) fun _ => .pure _
  | .leave none _ => .pure _
  | .leave (some _) _ => .bind (.withSuppression _ _) fun _ => .pure _
  | .stop _ => .pure _
  | .next _ => .pure _
  | .capture _ body => .bind (.holding (.modify fun _ _ => rfl) (block h body)) fun _ =>
    .bind (.withSuppression _ _) fun _ => .pure _
  | .include _ _ _ => .bind (.withSuppression _ _) fun _ =>
    .bind (.of_unaware (.toText _ _)) fun _ =>
    .bind (.of_unaware (unaware_loadTemplate _ _)) fun t =>
    .bind (includedModel _ _) fun v => .bind (h.runIncluded t v _) fun _ => .pure _

theorem block (h : m.Blind) : ∀ b : List Stmt, (runBlock m b).Blind
  | [] => .pure _
  | s :: rest => .bind (statement h s) fun flow =>
    match flow with
    | .normal => block h rest
    | .stop | .next | .leave _ => .pure _

theorem branches (h : m.Blind) : ∀ bs : List (Expr × List Stmt), (runBranches m bs).Blind
  | [] => .pure _
  | (_, body) :: rest => .bind (.withSuppression _ _) fun _ => .bind (.inStore _) fun _ =>
    .ite (.bind (block h body) fun _ => .pure _) (branches h rest)

end

end Machine.Blind

/-! ## Every run -/

/-- Whatever a machine runs is blind, by induction on the levels of calls. -/
theorem Host.Blind.machine {host : Host} (h : host.Blind) (n : Nat) : (machine host n).Blind := by
  induction n with
  | zero => exact ⟨fun _ _ _ => rfl, fun _ _ _ _ _ => rfl⟩
  | succ n ih => exact ⟨ih.block, fun f args p => h f _ ih args p⟩

/-- With a host the operations of which do not read the flag: evaluating an expression is evaluating
it without calling the function that comes out, and then calling that function without arguments at
the place of the expression; what comes before the call is the same whichever way the flag is set.
And everything that is evaluated on the way is blind to the flag: targets, keys, operands,
arguments, items and entries, assignments, calls, and the statements of bodies. -/
theorem suppression_touches_outermost_only {host : Host} (h : host.Blind) (n : Nat) :
    let m := machine host n
    (∀ e : Expr, e.evaluate m = e.evaluateUninvoked m >>= fun v =>
      match v with
      | .function f => m.call f [] e.position
      | v => pure v) ∧
    (∀ (e : Expr) (b : Bool), withSuppression b (e.reach m true) =
      e.arrive m >>= fun v => if b then pure v else m.invoke e.position v) ∧
    (∀ e : Expr, (e.arrive m).Blind ∧ (e.reach m false).Blind ∧ (e.evaluate m).Blind ∧
      (e.evaluateUninvoked m).Blind ∧ ∀ v, (e.assign m v).Blind) ∧
    (∀ es, (evaluateItems m es).Blind) ∧ (∀ es, (evaluateEntries m es).Blind) ∧
    (∀ f args p, (m.call f args p).Blind) ∧
    (∀ s : Stmt, (s.run m).Blind) ∧ ∀ b : Block, (runBlock m b).Blind := by
  intro m
  have hm : m.Blind := h.machine n
  exact ⟨hm.evaluate_eq, fun e b => hm.withSuppression_reach b e,
    fun e => ⟨hm.arrive e, hm.reach_of_arrive (hm.arrive e), .withSuppression _ _,
      .withSuppression _ _, fun _ => .withSuppression _ _⟩,
    Machine.Blind.items, Machine.Blind.entries, hm.call, hm.statement, hm.block⟩

/-- A host with one operation, which calls the function that it is given with the other
arguments. -/
def Host.applying : Host := fun _ m args p =>
  match args with
  | .function f :: rest => m.call f rest p
  | _ => pure .undefined

theorem Host.applying_blind : Host.applying.Blind := by
  intro f m hm args p
  unfold Host.applying
  split
  · exact hm.call _ _ p
  · exact .pure _

theorem applying_touches_outermost_only :
    let p : Position := ⟨1, 1⟩
    let m := machine Host.applying 2
    let e : Expr := .member (.var ⟨"user", .global, p⟩) "greet" p
    Host.applying.Blind ∧ e.evaluate m = e.evaluateUninvoked m >>= fun v =>
      match v with
      | .function f => m.call f [] e.position
      | v => pure v :=
  ⟨Host.applying_blind, (suppression_touches_outermost_only Host.applying_blind 2).1 _⟩

end TemplateEngine
