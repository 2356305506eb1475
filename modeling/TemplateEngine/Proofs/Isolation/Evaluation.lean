import TemplateEngine.Proofs.Isolation.Rounds

/-!
# Evaluation in two runs

Expressions, statements and templates end alike on contexts that are alike, by induction on the
syntax and, where a function is called or a template is included, on the levels of calls
(`Machine.Uniform`). Expressions are the same in both runs; statements may define functions under
other numbers.
-/

namespace TemplateEngine

open TemplateEngine.Action

/-- What evaluation asks for where it leaves the syntax ends alike in both runs and leaves the
context standing. -/
structure Machine.Uniform (s : Settings) (gap : Nat) (m : Machine) : Prop where
  run {w : Pairing} {b b' : Block} : BlockAlike w b b' →
    Sim s gap w Flow.Alike (m.run b) (m.run b')
  native {w : Pairing} (i j : Nat) (name operation : String) (xs ys : List Value) (p : Position) :
    Sim s gap w Value.Alike (m.native ⟨i, name, operation⟩ xs p)
      (m.native ⟨j, name, operation⟩ ys p)
  keepsRun (b : Block) : (m.run b).Keeps Output.Extends
  keepsNative (f : Native) (args : List Value) (p : Position) : (m.native f args p).Keeps Eq

variable {s : Settings} {gap : Nat} {w v : Pairing} {a b : Value}

/-! ## Operators -/

theorem sim_unary (op : UnaryOp) (hab : a.Alike w b) (p : Position) :
    Sim s gap w Value.Alike (tryView p fun s => s.unary op a)
      (tryView p fun s => s.unary op b) := by
  refine .tryView p ?_
  intro v s t hv h
  rw [← h.unary_eq op (hab.mono hv)]
  cases hx : s.unary op a with
  | ok x => exact .ok (Store.Alike.alike_of_unary hx)
  | error e => exact .error e

theorem sim_binary (op : BinaryOp) (hab : a.Alike w b) {a' b' : Value} (hab' : a'.Alike w b')
    (p : Position) :
    Sim s gap w Value.Alike (tryStore p fun s => s.binary op a a')
      (tryStore p fun s => s.binary op b b') :=
  .tryStore p fun hv h => h.gives_binary op (hab.mono hv) (hab'.mono hv)

/-! ## Calls -/

theorem sim_bindLocal (name : String) (hab : a.Alike w b) :
    Sim s gap w (fun _ => Eq) (bindLocal name a) (bindLocal name b) := by
  intro v c d hv hcd hc
  have hkept := ((quiet_setLocalFrame fun c => c.scopes.localFrame.define name a false) c).2.kept
  have hframe := (hcd.scopes.localFrame hc.locals).define name (hab.mono hv) false
  exact .rescoped hcd (hcd.scopes.setLocalFrame hc.locals hframe) hkept.extends rfl

theorem sim_bindParams (names : List String) {xs ys : List Value}
    (h : List.Forall₂ (Value.Alike w) xs ys) :
    Sim s gap w (fun _ => Eq) (Machine.bindParams names xs) (Machine.bindParams names ys) := by
  induction names generalizing w xs ys with
  | nil => exact .pure fun _ => rfl
  | cons name rest ih =>
    cases h with
    | nil => exact .bind (sim_bindLocal name .undefined) fun _ _ => ih .nil
    | cons hxy hrest =>
      exact .bind (sim_bindLocal name hxy) fun hv _ => ih (forall₂_mono hrest hv)

section

variable {m : Machine} (hm : m.Uniform s gap)

include hm

theorem sim_callDefined {d d' : FunctionDef} (hd : d.Alike w d') {xs ys : List Value}
    (h : List.Forall₂ (Value.Alike w) xs ys) (p : Position) :
    Sim s gap w Value.Alike (m.callDefined d xs p) (m.callDefined d' ys p) := by
  unfold Machine.callDefined
  rw [hd.params, hd.name, h.length_eq]
  refine .ite Iff.rfl (.failAt _ _) (sim_function p ?_)
  refine .bind (sim_bindParams d'.params h) fun hv _ => ?_
  refine .bind (sim_output (hm.run (hd.body.mono hv))) ?_
  intro _ r r' _ hr
  obtain ⟨flow, text⟩ := r
  obtain ⟨flow', text'⟩ := r'
  obtain ⟨hflow, htext⟩ := hr
  cases hflow with
  | normal | stop | next => exact .pure fun hu => htext.mono hu
  | leave h =>
    cases h with
    | none => exact .pure fun hu => htext.mono hu
    | some h => exact .pure fun hu => h.mono hu

theorem sim_call {f g : Function} (hfg : f.Alike w g) {xs ys : List Value}
    (h : List.Forall₂ (Value.Alike w) xs ys) (p : Position) :
    Sim s gap w Value.Alike (m.call f xs p) (m.call g ys p) := by
  cases hfg with
  | builtin b => exact sim_builtin h p b
  | native name operation _ => exact hm.native _ _ name operation xs ys p
  | defined hd => exact sim_callDefined hm hd h p

theorem sim_settle (outermost : Bool) (p : Position) (hab : a.Alike w b) :
    Sim s gap w Value.Alike (m.settle outermost p a) (m.settle outermost p b) := by
  have hpure : Sim s gap w Value.Alike (pure a) (pure b) := .pure fun hv => hab.mono hv
  cases hab with
  | function hfg =>
    refine .bind (.view (A := fun _ => Eq) fun _ hcd _ => hcd.suppressed) fun hv hsup => ?_
    rw [hsup]
    exact .ite Iff.rfl (hpure.mono hv) (sim_call hm (hfg.mono hv) .nil p)
  | undefined | null | bool | int | float | text | list | array | map | object | record =>
    exact hpure

theorem sim_callValue (hab : a.Alike w b) {xs ys : List Value}
    (h : List.Forall₂ (Value.Alike w) xs ys) (callee : Expr) (p : Position) :
    Sim s gap w Value.Alike (m.callValue a xs callee p) (m.callValue b ys callee p) := by
  have hfail : Sim s gap w Value.Alike
      (do let kind ← inStore fun s => s.typeName a
          failAt p (.notCallable callee.display kind))
      (do let kind ← inStore fun s => s.typeName b
          failAt p (.notCallable callee.display kind)) :=
    sim_failTyped hab p fun kind => .notCallable callee.display kind
  cases hab with
  | function hfg => exact sim_call hm hfg h p
  | undefined | null | bool | int | float | text | list | array | map | object | record =>
    exact hfail

/-! ## Expressions -/

variable (hs : s.shapes.Uniform)

include hs

/-- A value is found in a place, and called if it is a function. -/
theorem sim_readPlace {x y : Action Place} (h : Sim s gap w Place.Alike x y) (outermost : Bool)
    (p : Position) :
    Sim s gap w Value.Alike (do let place ← x; let v ← place.read; m.settle outermost p v)
      (do let place ← y; let v ← place.read; m.settle outermost p v) :=
  .bind h fun _ hplace => .bind (sim_read hs hplace) fun _ hab => sim_settle hm outermost p hab

set_option linter.unusedSectionVars false in
mutual

/-- Expressions, outermost or on the way. -/
theorem sim_reach (w : Pairing) : ∀ (e : Expr) (outermost : Bool),
    Sim s gap w Value.Alike (e.reach m outermost) (e.reach m outermost)
  | .literal v p, o => sim_settle hm o p (Value.alike_ofLiteral w v)
  | .var ref, o => .bind (sim_readVariable hs ref) fun _ hab => sim_settle hm o _ hab
  | .member target name p, o =>
    .bind (sim_reach w target false) fun _ hab =>
    sim_readPlace hm hs (sim_ofMember hab name target p) o p
  | .index target key p, o =>
    .bind (sim_reach w target false) fun {v _ _} _ hab =>
    .ite (by rw [hab.isAbsent_eq]) (.failAt _ _) <|
    .bind (.withSuppression false (sim_reach v key true)) fun hu hkey =>
    sim_readPlace hm hs (sim_ofKey (hab.mono hu) hkey _ target p) o p
  | .call callee args p, o =>
    .bind (.withSuppression true (sim_reach w callee true)) fun {v _ _} _ hf =>
    .bind (sim_items v args) fun hu hargs =>
    .bind (sim_callValue hm (hf.mono hu) hargs callee p) fun _ hab => sim_settle hm o p hab
  | .list es p, o =>
    .bind (sim_items w es) fun _ hvs =>
    .bind (.onStore fun ht h => h.gives_newList (forall₂_mono hvs ht)) fun _ hab =>
    sim_settle hm o p hab
  | .map es p, o =>
    .bind (sim_entries w es) fun _ hvs =>
    .bind (.onStore fun ht h => h.gives_newMap
      ((Dictionary.Alike.ofList hvs).mono fun hxy => hxy.mono ht)) fun _ hab =>
    sim_settle hm o p hab
  | .unary op operand p, o =>
    .bind (.withSuppression false (sim_reach w operand true)) fun _ hab =>
    .bind (sim_unary op hab p) fun _ hab => sim_settle hm o p hab
  | .binary .and left right p, o =>
    .bind (.withSuppression false (sim_reach w left true)) fun {v _ _} hv hab =>
    .bind (sim_isTruthy hab) fun {u _ _} hu hholds => hholds ▸ .ite Iff.rfl
      (.bind (.withSuppression false (sim_reach u right true)) fun _ hab => sim_settle hm o p hab)
      (.bind (.pure fun ht => hab.mono (Pairing.le_trans hu ht)) fun _ hab => sim_settle hm o p hab)
  | .binary .or left right p, o =>
    .bind (.withSuppression false (sim_reach w left true)) fun {v _ _} hv hab =>
    .bind (sim_isTruthy hab) fun {u _ _} hu hholds => hholds ▸ .ite Iff.rfl
      (.bind (.pure fun ht => hab.mono (Pairing.le_trans hu ht)) fun _ hab => sim_settle hm o p hab)
      (.bind (.withSuppression false (sim_reach u right true)) fun _ hab => sim_settle hm o p hab)
  | .binary .add left right p, o | .binary .sub left right p, o | .binary .mul left right p, o
  | .binary .div left right p, o | .binary .rem left right p, o | .binary .concat left right p, o
  | .binary .eq left right p, o | .binary .ne left right p, o | .binary .lt left right p, o
  | .binary .gt left right p, o | .binary .le left right p, o | .binary .ge left right p, o =>
    .bind (.withSuppression false (sim_reach w left true)) fun {v _ _} _ ha =>
    .bind (.withSuppression false (sim_reach v right true)) fun hu hb =>
    .bind (sim_binary _ (ha.mono hu) hb p) fun _ hab => sim_settle hm o p hab

/-- The values of expressions, each in turn. -/
theorem sim_items (w : Pairing) : ∀ es : List Expr,
    Sim s gap w (fun v => List.Forall₂ (Value.Alike v)) (evaluateItems m es) (evaluateItems m es)
  | [] => .pure fun _ => .nil
  | e :: rest =>
    .bind (.withSuppression false (sim_reach w e true)) fun {v _ _} _ hab =>
    .bind (sim_items v rest) fun hu hvs =>
    .pure fun ht => .cons (hab.mono (Pairing.le_trans hu ht)) (forall₂_mono hvs ht)

/-- The entries of map literals, each in turn. -/
theorem sim_entries (w : Pairing) : ∀ es : List (String × Expr),
    Sim s gap w (fun v => List.Forall₂ fun x y => x.1 = y.1 ∧ x.2.Alike v y.2)
      (evaluateEntries m es) (evaluateEntries m es)
  | [] => .pure fun _ => .nil
  | (_, e) :: rest =>
    .bind (.withSuppression false (sim_reach w e true)) fun {v _ _} _ hab =>
    .bind (sim_entries v rest) fun hu hvs =>
    .pure fun ht => .cons ⟨rfl, hab.mono (Pairing.le_trans hu ht)⟩
      (hvs.imp fun _ _ hxy => ⟨hxy.1, hxy.2.mono ht⟩)

end

theorem sim_evaluate (w : Pairing) (e : Expr) :
    Sim s gap w Value.Alike (e.evaluate m) (e.evaluate m) :=
  .withSuppression false (sim_reach hm hs w e true)

theorem sim_writeTarget (e : Expr) (hab : a.Alike w b) :
    Sim s gap w (fun _ => Eq) (e.write m a) (e.write m b) := by
  cases e with
  | var ref => exact sim_writeVariable hs ref hab
  | member target name p =>
    refine .bind (sim_reach hm hs w target false) fun hv hobject => ?_
    refine .bind (sim_ofMember hobject name target p) fun hu hplace => ?_
    exact sim_write hs hplace (hab.mono (Pairing.le_trans hv hu))
  | index target key p =>
    refine .bind (sim_reach hm hs w target false) ?_
    intro v _ _ hv hobject
    refine .ite (by rw [hobject.isAbsent_eq]) (.failAt _ _) ?_
    refine .bind (sim_evaluate hm hs v key) fun hu hkey => ?_
    refine .bind (sim_ofKey (hobject.mono hu) hkey _ target p) fun ht hplace => ?_
    exact sim_write hs hplace (hab.mono (Pairing.le_trans hv (Pairing.le_trans hu ht)))
  | literal | call | list | map | unary | binary => exact .failAt _ _

theorem sim_assign (e : Expr) (hab : a.Alike w b) :
    Sim s gap w (fun _ => Eq) (e.assign m a) (e.assign m b) :=
  .withSuppression false (sim_writeTarget hm hs e hab)

/-! ## Statements -/

omit hm hs in
theorem sim_writeText (text : String) :
    Sim s gap w (fun _ => Eq) (writeText text) (writeText text) :=
  fun v c _ _ hcd _ => .alike v (.refl v c.store)
    { hcd with
      left := { hcd.left with }
      right := { hcd.right with }
      output := congrArg (·.write text) hcd.output }
    (keeps_writeText text c) (.ok rfl)

omit hm hs in
theorem sim_writeValue (hab : a.Alike w b) (p : Position) :
    Sim s gap w (fun _ => Eq) (writeValue a p) (writeValue b p) := by
  refine .ite (by rw [hab.isAbsent_eq]) (.pure fun _ => rfl) ?_
  exact .bind (sim_toText hab p) fun _ ht => ht ▸ sim_writeText _

theorem sim_includedModel (w : Pairing) (path : String) (model : Option Expr) :
    Sim s gap w (fun v => Option.Rel (Value.Alike v)) (includedModel m path model)
      (includedModel m path model) := by
  cases model with
  | none => exact .pure fun _ => .none
  | some e =>
    refine .bind (sim_evaluate hm hs w e) fun _ hab => ?_
    exact .ite (by rw [hab.isAbsent_eq]) (.failAt _ _) (.pure fun hu => .some (hab.mono hu))

omit hs in
theorem sim_runIncluded {t u : Template} (htu : t.Alike w u) {x y : Option Value}
    (hxy : Option.Rel (Value.Alike w) x y) (p : Position) :
    Sim s gap w (fun _ => Eq) (runIncluded m t x p) (runIncluded m u y p) := by
  unfold runIncluded
  rw [htu.name]
  refine sim_function p (sim_source u.name ?_)
  cases hxy with
  | none => exact .bind (hm.run htu.body) fun _ _ => .pure fun _ => rfl
  | some hab => exact .bind (sim_global hab (hm.run htu.body)) fun _ _ => .pure fun _ => rfl

omit hs in
theorem keeps_condition (e : Expr) : (e.evaluate m).Keeps Eq :=
  Congruence.keeping.evaluate (n := m) hm.keepsRun hm.keepsNative e

omit hs in
theorem keeps_body (b : Block) : Action.Keeps Output.Extends (runBlock m b) :=
  Congruence.keeping.block (n := m) hm.keepsRun hm.keepsNative b

/-- A loop over what a value lists, with another block if that is nothing. -/
theorem sim_each (ref : VarRef) (e : Expr) (p : Position) {x y : Action Flow} {f g : Action Flow}
    (h : Sim s gap w Flow.Alike x y) (hfg : Sim s gap w Flow.Alike f g) :
    Sim s gap w Flow.Alike
      (do let v ← e.evaluate m
          let xs ← tryView e.position fun s => s.iterationItems v
          match xs with
          | [] => f
          | xs => Machine.forEach ref.name p xs x)
      (do let v ← e.evaluate m
          let xs ← tryView e.position fun s => s.iterationItems v
          match xs with
          | [] => g
          | xs => Machine.forEach ref.name p xs y) := by
  refine .bind (sim_evaluate hm hs w e) fun hv hab => ?_
  refine .bind (.tryView _ fun ht h => h.iterationItems (hab.mono ht)) fun hu hxs => ?_
  have hle := Pairing.le_trans hv hu
  cases hxs with
  | nil => exact hfg.mono hle
  | cons hxy hrest => exact sim_forEach ref.name p (.cons hxy hrest) (h.mono hle)

theorem sim_include (w : Pairing) (path : Expr) (model : Option Expr) (p : Position) :
    Sim s gap w Flow.Alike ((Stmt.include path model p).run m)
      ((Stmt.include path model p).run m) := by
  refine .bind (sim_evaluate hm hs w path) fun _ hab => .bind (sim_toText hab _) fun _ hname => ?_
  rw [hname]
  refine .bind (sim_loadTemplate _ p) ?_
  intro v _ _ _ htu
  refine .bind (sim_includedModel hm hs v _ model) fun hu hmodel => ?_
  exact .bind (sim_runIncluded hm (htu.mono hu) hmodel p) fun _ _ => .pure fun _ => .normal

set_option linter.unusedSectionVars false in
mutual

/-- Statements that differ in the numbers of functions only. -/
theorem sim_statement : ∀ {t u : Stmt}, StmtAlike w t u →
    Sim s gap w Flow.Alike (t.run m) (u.run m)
  | _, _, .text t => .bind (sim_writeText t) fun _ _ => .pure fun _ => .normal
  | _, _, .output e => .bind (sim_evaluate hm hs w e) fun _ hab =>
    .bind (sim_writeValue hab _) fun _ _ => .pure fun _ => .normal
  | _, _, .assign target e => .bind (sim_evaluate hm hs w e) fun _ hab =>
    .bind (sim_assign hm hs target hab) fun _ _ => .pure fun _ => .normal
  | _, _, .assignGlobal ref e => .bind (sim_evaluate hm hs w e) fun _ hab =>
    .bind (sim_writeVariable hs ref hab) fun _ _ => .pure fun _ => .normal
  | _, _, .choose hbs .none => .bind (sim_branches hbs) fun _ hflow => by
    cases hflow with
    | none => exact .pure fun _ => .normal
    | some hflow => exact .pure fun hu => hflow.mono hu
  | _, _, .choose hbs (.some hb) => .bind (sim_branches hbs) fun hv hflow => by
    cases hflow with
    | none => exact (sim_block hb).mono hv
    | some hflow => exact .pure fun hu => hflow.mono hu
  | _, _, .each ref e p hb .none =>
    sim_each hm hs ref e p (sim_block hb) (.pure fun _ => .normal)
  | _, _, .each ref e p hb (.some ho) => sim_each hm hs ref e p (sim_block hb) (sim_block ho)
  | _, _, .repeatWhile e p hb =>
    sim_whileLoop p (sim_evaluate hm hs w e) (sim_block hb) (keeps_condition hm e)
      (keeps_condition hm e) (keeps_body hm _) (keeps_body hm _)
  | _, _, .define name params p hi hb =>
    .bind (sim_writeVariable hs name (.function (.defined ⟨hi, rfl, rfl, hb, rfl⟩))) fun _ _ =>
    .pure fun _ => .normal
  | _, _, .leave none _ => .pure fun _ => .leave .none
  | _, _, .leave (some e) _ => .bind (sim_evaluate hm hs w e) fun _ hab =>
    .pure fun hu => .leave (.some (hab.mono hu))
  | _, _, .stop _ => .pure fun _ => .stop
  | _, _, .next _ => .pure fun _ => .next
  | _, _, .capture target hb => .bind (sim_output (sim_block hb)) fun {_ r r'} _ hr => by
    obtain ⟨flow, text⟩ := r
    obtain ⟨flow', text'⟩ := r'
    exact .bind (sim_assign hm hs target hr.2) fun hu _ =>
      .pure fun ht => hr.1.mono (Pairing.le_trans hu ht)
  | _, _, .include path model p => sim_include hm hs w path model p

/-- Blocks. -/
theorem sim_block : ∀ {b b' : List Stmt}, BlockAlike w b b' →
    Sim s gap w Flow.Alike (runBlock m b) (runBlock m b')
  | _, _, .nil => .pure fun _ => .normal
  | _, _, .cons ht hb => .bind (sim_statement ht) fun hv hflow => by
    cases hflow with
    | normal => exact (sim_block hb).mono hv
    | stop => exact .pure fun _ => .stop
    | next => exact .pure fun _ => .next
    | leave h => exact .pure fun hu => (Flow.Alike.leave h).mono hu

/-- Branches. -/
theorem sim_branches : ∀ {bs bs' : List (Expr × List Stmt)}, BranchesAlike w bs bs' →
    Sim s gap w (fun v => Option.Rel (Flow.Alike v)) (runBranches m bs) (runBranches m bs')
  | _, _, .nil => .pure fun _ => .none
  | _, _, .cons e hb hbs => .bind (sim_evaluate hm hs w e) fun hv hab =>
    .bind (sim_isTruthy hab) fun hu hholds => hholds ▸ .ite Iff.rfl
      (.bind ((sim_block hb).mono (Pairing.le_trans hv hu)) fun _ hflow =>
        .pure fun ht => .some (hflow.mono ht))
      ((sim_branches hbs).mono (Pairing.le_trans hv hu))

end

end

/-! ## Levels of calls -/

theorem sim_native (n i j : Nat) (name operation : String) (xs ys : List Value) (p : Position) :
    Sim s gap w Value.Alike ((machine .none n).native ⟨i, name, operation⟩ xs p)
      ((machine .none n).native ⟨j, name, operation⟩ ys p) := by
  cases n with
  | zero => exact fun _ _ _ _ hcd _ => .same hcd .outOfFuel
  | succ n => exact .fail _

/-- However many levels of calls there are, evaluation ends alike. -/
theorem uniform_machine (hs : s.shapes.Uniform) (gap n : Nat) :
    (machine .none n).Uniform s gap := by
  induction n with
  | zero =>
    exact ⟨fun _ _ _ _ _ hcd _ => .same hcd .outOfFuel, sim_native 0, keeps_run 0, keeps_native 0⟩
  | succ n ih =>
    exact ⟨fun h => sim_block ih hs h, sim_native (n + 1), keeps_run (n + 1), keeps_native (n + 1)⟩

/-! ## Templates -/

theorem bufferText_eq (hab : a.Alike w b) : bufferText a = bufferText b := by
  cases hab <;> rfl

/-- Bodies that are rendered. No template need be rendered around them. -/
theorem ends_rendering (name : String) {x y : Action Flow} (h : Sim s gap w Flow.Alike x y)
    (hab : a.Alike w b) {c d : Context} (hcd : Context.Alike s gap w c d) :
    Ends s gap w (fun _ => Eq) c (rendering name x a c) (rendering name y b d) := by
  refine ends_global hab hcd fun c₁ d₁ hcd₁ hc₁ => ?_
  have hinside : Sim s gap w (fun _ => Eq)
      (do let names ← onStore fun s => s.newNamespace .empty
          Region.global.around (pushGlobal names) <| Region.source.around (pushSource name) do
            let r ← Region.output.holding pushOutput x
            pure (bufferText r.2))
      (do let names ← onStore fun s => s.newNamespace .empty
          Region.global.around (pushGlobal names) <| Region.source.around (pushSource name) do
            let r ← Region.output.holding pushOutput y
            pure (bufferText r.2)) := by
    refine .bind (.onStore fun _ h => h.gives_newNamespace (.empty _)) fun hv hnames => ?_
    refine sim_global hnames (sim_source name (.bind (sim_output (h.mono hv)) fun _ hr => ?_))
    exact .pure fun _ => bufferText_eq hr.2
  exact hinside w.le_refl hcd₁ hc₁

section

variable {m : Machine} (hm : m.Uniform s gap) (hs : s.shapes.Uniform) (hab : a.Alike w b)
  {c d : Context} (hcd : Context.Alike s gap w c d)

include hm hs hab hcd

theorem ends_render {t u : Template} (htu : t.Alike w u) :
    Ends s gap w (fun _ => Eq) c (t.render m a c) (u.render m b d) := by
  have hbody := sim_block hm hs htu.body
  rw [Template.render_eq, Template.render_eq, htu.name, hab.isAbsent_eq]
  dsimp only
  by_cases habsent : b.isAbsent
  · rw [if_pos habsent, if_pos habsent]
    have hmodel : Ends s gap w Value.Alike c (onStore (fun s => s.newMap .empty) c)
        (onStore (fun s => s.newMap .empty) d) := .stored hcd (hcd.store.gives_newMap .empty)
    exact hmodel.bind fun _ _ hv hab' hcd' _ => ends_rendering _ (hbody.mono hv) hab' hcd'
  · rw [if_neg habsent, if_neg habsent]
    exact ends_rendering _ hbody hab hcd

theorem ends_renderPath (path : String) :
    Ends s gap w (fun _ => Eq) c (renderPath m path a c) (renderPath m path b d) :=
  (ends_loadTemplate hcd path .unknown).bind fun _ _ hv htu hcd' _ =>
    ends_render hm hs (hab.mono hv) hcd' htu

end

end TemplateEngine
