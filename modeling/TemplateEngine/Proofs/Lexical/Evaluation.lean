import TemplateEngine.Proofs.Lexical.Rounds

/-!
# Evaluation in lockstep

Lexical code runs in lockstep by evaluation and by evaluation in sight of the loops around it, as
long as the machines that run calls do (`Machine.Lockstep`) and the reader is faithful. The proof is
an induction over the syntax, with one case for each kind of expression and of statement. What
carries it is what a place sees (`Standpoint`): a `for` runs its body where its own names are
added, a function or a template where there are none. By induction on the levels of calls, all
machines over a host that itself runs in lockstep are related (`Host.Discreet.machine`).
-/

namespace TemplateEngine

open TemplateEngine.Action ScopeView

/-! ## Calls -/

/-- Bodies and operations of the host run in lockstep on two machines. -/
structure Machine.Lockstep (m m' : Machine) : Prop where
  run {b : Block} : Block.Lexical noName b → ∀ v w : ScopeView,
    Action.Lockstep (Inside v w) Flow.Lexical (m.run b) (m'.run b)
  native (f : Native) {args : List Value} (p : Position) : (∀ v ∈ args, v.Lexical) →
    ∀ P : ScopeView → ScopeView → Prop,
      Action.Lockstep P Value.Lexical (m.native f args p) (m'.native f args p)

section

variable {P : ScopeView → ScopeView → Prop} {v w : ScopeView}

theorem lockstep_bindLocal (name : String) {u : Value} (hu : u.Lexical) :
    Action.Lockstep (Inside v w) (fun _ => True) (bindLocal name u) (bindLocal name u) := by
  intro c d hcd
  refine ⟨?_, fun heq => congrArg _ heq⟩
  obtain ⟨hsame, hlexical⟩ := (Inside.sees (LoopNames.held_none v) (LoopNames.held_none w)
    _ _ hcd.views).localFrame
  simp only [bindLocal, Action.modify, hsame]
  rw [hsame] at hlexical
  exact ⟨rfl, .ok trivial, twins_setLocalFrame hcd (hlexical.define name hu false)⟩

theorem lockstep_bindParams : ∀ (names : List String) {args : List Value},
    (∀ u ∈ args, u.Lexical) → Action.Lockstep (Inside v w) (fun _ => True)
      (Machine.bindParams names args) (Machine.bindParams names args)
  | [], _, _ => .pure trivial
  | name :: rest, args, h => by
    have hhead : (args.head?.getD .undefined).Lexical :=
      Value.lexical_getD fun u hu => h u (List.mem_of_head? hu)
    exact .bind (lockstep_bindLocal name hhead) fun _ _ =>
      lockstep_bindParams rest fun u hu => h u (List.mem_of_mem_tail hu)

end

namespace Machine.Lockstep

variable {m m' : Machine} (h : m.Lockstep m') (P : ScopeView → ScopeView → Prop)

include h

theorem callDefined {d : FunctionDef} (hd : d.Lexical) {args : List Value}
    (hargs : ∀ u ∈ args, u.Lexical) (p : Position) :
    Action.Lockstep P Value.Lexical (m.callDefined d args p) (m'.callDefined d args p) := by
  refine .ite (.failAt _ id) (lockstep_function p fun v w => ?_)
  refine .bind (lockstep_bindParams d.params hargs) fun _ _ => ?_
  refine .bind (lockstep_output (h.run hd v w)) ?_
  rintro ⟨flow, text⟩ ⟨hflow, htext⟩
  match flow, hflow with
  | .leave (some _), hflow => exact .pure hflow
  | .leave none, _ | .normal, _ | .stop, _ | .next, _ => exact .pure htext

theorem call {f : Function} (hf : f.Lexical) {args : List Value} (hargs : ∀ u ∈ args, u.Lexical)
    (p : Position) : Action.Lockstep P Value.Lexical (m.call f args p) (m'.call f args p) := by
  cases f with
  | builtin b => exact .of_unaware (unaware_builtin b args p) (yields_builtin b hargs p)
  | native f => exact h.native f p hargs P
  | defined d => exact h.callDefined P hf hargs p

theorem settle (outermost : Bool) (p : Position) {u : Value} (hu : u.Lexical) :
    Action.Lockstep P Value.Lexical (m.settle outermost p u) (m'.settle outermost p u) := by
  cases u with
  | function f =>
    exact .bind (A := fun _ => True) (.view fun _ _ hcd => ⟨hcd.suppressed, trivial⟩) fun _ _ =>
      .ite (.pure hu) (h.call P hu (List.forall_mem_nil _) p)
  | _ => exact .pure trivial

theorem callValue {u : Value} (hu : u.Lexical) {args : List Value}
    (hargs : ∀ u ∈ args, u.Lexical) (callee : Expr) (p : Position) :
    Action.Lockstep P Value.Lexical (m.callValue u args callee p)
      (m'.callValue u args callee p) := by
  cases u with
  | function f => exact h.call P hu hargs p
  | _ => exact .bind (A := fun _ => True) (.inStore fun _ _ => trivial) fun _ _ => .failAt _ id

theorem runIncluded {t : Template} (ht : t.Lexical) {model : Option Value}
    (hmodel : ∀ u ∈ model, u.Lexical) (p : Position) :
    Action.Lockstep P (fun _ => True) (runIncluded m t model p) (runIncluded m' t model p) := by
  refine lockstep_function p fun v w => lockstep_source t.name ?_
  cases model with
  | none => exact .bind (h.run ht v w) fun _ _ => .pure trivial
  | some u =>
    exact .bind (lockstep_global (hmodel u rfl) fun v w => h.run ht v w) fun _ _ => .pure trivial

end Machine.Lockstep

/-! ## Expressions -/

/-- What it takes to evaluate in lockstep at a place with such loops around: both runs see the same,
have machines in lockstep for calls, and the reader is faithful. -/
structure Outlook (m m' : Machine) (read : Reader) (names : LoopNames)
    (P : ScopeView → ScopeView → Prop) : Prop where
  machines : m.Lockstep m'
  reader : read.Faithful
  values : names.Lexical
  sees (v w : ScopeView) : P v w → Sees names v w

namespace Outlook

variable {m m' : Machine} {read : Reader} {names : LoopNames} {P : ScopeView → ScopeView → Prop}

mutual

theorem reach (h : Outlook m m' read names P) (outermost : Bool) :
    ∀ {e : Expr}, e.Lexical names.Bound →
    Action.Lockstep P Value.Lexical (e.reach m outermost) (e.reachBy (read names) m' outermost)
  | .literal l p, _ => h.machines.settle P outermost p (Value.lexical_ofLiteral l)
  | .var ref, .var href =>
    .bind (lockstep_read h.reader h.values href h.sees) fun _ hu =>
    h.machines.settle P outermost _ hu
  | .member target name p, .member _ _ ht =>
    .bind (h.reach false ht) fun object _ =>
    .bind (.of_unaware (unaware_ofMember object name target p)
      (yields_ofMember object name target p)) fun place _ =>
    .bind (.of_unaware (unaware_read place) (yields_read place)) fun _ hu =>
    h.machines.settle P outermost p hu
  | .index target key p, .index _ ht hk =>
    .bind (h.reach false ht) fun object _ =>
    .ite (.failAt _ id) <|
    .bind ((h.reach true hk).suppress false) fun k _ =>
    .bind (.of_unaware (unaware_ofKey object k key.position target p)
      (yields_ofKey object k key.position target p)) fun place _ =>
    .bind (.of_unaware (unaware_read place) (yields_read place)) fun _ hu =>
    h.machines.settle P outermost p hu
  | .call callee args p, .call _ hc ha =>
    .bind ((h.reach true hc).suppress true) fun _ hf =>
    .bind (h.items ha) fun _ hvs =>
    .bind (h.machines.callValue P hf hvs callee p) fun _ hu => h.machines.settle P outermost p hu
  | .list items p, .list _ hi =>
    .bind (h.items hi) fun vs hvs =>
    .bind (.of_unaware (.onStore _) (yields_newList hvs)) fun _ hu =>
    h.machines.settle P outermost p hu
  | .map entries p, .map _ he =>
    .bind (h.entries he) fun es hes =>
    .bind (.of_unaware (.onStore _) (yields_newMap (.ofList hes))) fun _ hu =>
    h.machines.settle P outermost p hu
  | .unary op operand p, .unary _ _ ho =>
    .bind ((h.reach true ho).suppress false) fun x _ =>
    .bind (.tryView p fun s _ => s.regular_unary op x) fun _ hu =>
    h.machines.settle P outermost p hu
  | .binary op left right p, .binary _ _ hl hr => by
    have ihl := (h.reach true hl).suppress false
    have ihr := (h.reach true hr).suppress false
    have hsettle {u : Value} (hu : u.Lexical) := h.machines.settle P outermost p hu
    -- only `and` and `or` may leave their second operand alone
    cases op with
    | and =>
      exact .bind ihl fun a ha => .bind (.isTruthy a) fun _ _ =>
        .ite (.bind ihr fun _ => hsettle) (.bind (.pure ha) fun _ => hsettle)
    | or =>
      exact .bind ihl fun a ha => .bind (.isTruthy a) fun _ _ =>
        .ite (.bind (.pure ha) fun _ => hsettle) (.bind ihr fun _ => hsettle)
    | _ =>
      exact .bind ihl fun a ha => .bind ihr fun b hb =>
        .bind (.of_unaware (.tryStore p _) (.tryStore p fun _ hs => hs.binary _ ha hb)) fun _ =>
        hsettle

theorem items (h : Outlook m m' read names P) :
    ∀ {es : List Expr}, (∀ e ∈ es, e.Lexical names.Bound) →
    Action.Lockstep P (fun vs => ∀ v ∈ vs, v.Lexical) (evaluateItems m es)
      (evaluateItemsBy (read names) m' es)
  | [], _ => .pure nofun
  | _ :: _, he =>
    .bind ((h.reach true (List.forall_mem_cons.1 he).1).suppress false) fun _ hv =>
    .bind (h.items (List.forall_mem_cons.1 he).2) fun _ hvs =>
    .pure (List.forall_mem_cons.2 ⟨hv, hvs⟩)

theorem entries (h : Outlook m m' read names P) :
    ∀ {es : List (String × Expr)}, (∀ x ∈ es, x.2.Lexical names.Bound) →
    Action.Lockstep P (fun vs => ∀ x ∈ vs, x.2.Lexical) (evaluateEntries m es)
      (evaluateEntriesBy (read names) m' es)
  | [], _ => .pure nofun
  | (_, _) :: _, he =>
    .bind ((h.reach true (List.forall_mem_cons.1 he).1).suppress false) fun _ hv =>
    .bind (h.entries (List.forall_mem_cons.1 he).2) fun _ hvs =>
    .pure (List.forall_mem_cons.2 ⟨hv, hvs⟩)

end

variable (h : Outlook m m' read names P)

include h

theorem evaluate {e : Expr} (he : e.Lexical names.Bound) :
    Action.Lockstep P Value.Lexical (e.evaluate m) (e.evaluateBy (read names) m') :=
  (h.reach true he).suppress false

theorem includedModel (path : String) {e : Option Expr} (he : ∀ x ∈ e, x.Lexical names.Bound) :
    Action.Lockstep P (fun o => ∀ u ∈ o, u.Lexical) (includedModel m path e)
      (includedModelBy (read names) m' path e) := by
  cases e with
  | none => exact .pure nofun
  | some e =>
    refine .bind (h.evaluate (he e rfl)) fun u hu => .ite (.failAt _ id) (.pure ?_)
    rintro _ ⟨⟩
    exact hu

theorem inclusion {path : Expr} {model : Option Expr} (hpath : path.Lexical names.Bound)
    (hmodel : ∀ x ∈ model, x.Lexical names.Bound) (p : Position) :
    Action.Lockstep P Flow.Lexical ((Stmt.include path model p).run m)
      ((Stmt.include path model p).runBy read m' names) :=
  .bind (h.evaluate hpath) fun u _ =>
  .bind (.toText u path.position) fun name _ =>
  .bind (.of_unaware (unaware_loadTemplate name p) (yields_loadTemplate name p)) fun _ ht =>
  .bind (h.includedModel name hmodel) fun _ hu =>
  .bind (h.machines.runIncluded P ht hu p) fun _ _ => .pure trivial

end Outlook

/-! ## Statements -/

/-- What it takes to run statements in lockstep where these views were seen and with such loops
around. -/
structure Standpoint (m m' : Machine) (read : Reader) (names : LoopNames) (v w : ScopeView) :
    Prop where
  machines : m.Lockstep m'
  reader : read.Faithful
  values : names.Lexical
  left : names.Held v
  right : names.Held w

namespace Standpoint

variable {m m' : Machine} {read : Reader} {names : LoopNames} {v w : ScopeView}

theorem outlook (h : Standpoint m m' read names v w) : Outlook m m' read names (Inside v w) :=
  ⟨h.machines, h.reader, h.values, Inside.sees h.left h.right⟩

/-- The body of a function or of a template begins without loops around. -/
theorem body (hm : m.Lockstep m') (hread : read.Faithful) (v w : ScopeView) :
    Standpoint m m' read .none v w :=
  ⟨hm, hread, LoopNames.lexical_none, LoopNames.held_none v, LoopNames.held_none w⟩

/-- In a round of a `for`. -/
theorem within (h : Standpoint m m' read names v w) (name : String) {item info : Value}
    (hitem : item.Lexical) (hinfo : info.Lexical) {v' w' : ScopeView}
    (hv : (names.within name item info).Held v') (hw : (names.within name item info).Held w') :
    Standpoint m m' read (names.within name item info) v' w' :=
  ⟨h.machines, h.reader, h.values.within name hitem hinfo, hv, hw⟩

/-- In a round of a `while`. -/
theorem again (h : Standpoint m m' read names v w) {v' w' : ScopeView} (hv : names.Held v')
    (hw : names.Held w') : Standpoint m m' read names v' w' :=
  ⟨h.machines, h.reader, h.values, hv, hw⟩

theorem write (h : Standpoint m m' read names v w) {u : Value} (hu : u.Lexical) {e : Expr}
    (he : e.Lexical names.Bound) :
    Action.Lockstep (Inside v w) (fun _ => True) (e.write m u)
      (e.writeBy (read names) m' u) := by
  have ho := h.outlook
  cases he with
  | var href => exact lockstep_write h.left h.right href hu
  | @member target name p ht =>
    exact .bind (ho.reach false ht) fun object _ =>
      .bind (.of_unaware (unaware_ofMember object name target p)
        (yields_ofMember object name target p)) fun place _ =>
      .of_unaware (unaware_write u place) (yields_write hu place)
  | @index target key p ht hk =>
    exact .bind (ho.reach false ht) fun object _ => .ite (.failAt _ id) <|
      .bind (ho.evaluate hk) fun k _ =>
      .bind (.of_unaware (unaware_ofKey object k key.position target p)
        (yields_ofKey object k key.position target p)) fun place _ =>
      .of_unaware (unaware_write u place) (yields_write hu place)
  | _ => exact .failAt _ id

theorem assign (h : Standpoint m m' read names v w) {u : Value} (hu : u.Lexical) {e : Expr}
    (he : e.Lexical names.Bound) :
    Action.Lockstep (Inside v w) (fun _ => True) (e.assign m u)
      (e.assignBy (read names) m' u) := (h.write hu he).suppress false

mutual

theorem statement {names : LoopNames} {v w : ScopeView} (h : Standpoint m m' read names v w) :
    ∀ {s : Stmt}, s.Lexical names.Bound →
    Action.Lockstep (Inside v w) Flow.Lexical (s.run m) (s.runBy read m' names)
  | .text t, _ =>
    .bind (.of_unaware (unaware_writeText t) (yields_writeText t)) fun _ _ => .pure trivial
  | .output e, .output he =>
    .bind (h.outlook.evaluate he) fun u _ =>
    .bind (.of_unaware (unaware_writeValue u e.position) (yields_writeValue u e.position))
      fun _ _ => .pure trivial
  | .assign _ _, .assign ht he =>
    .bind (h.outlook.evaluate he) fun _ hu =>
    .bind (h.assign hu ht) fun _ _ => .pure trivial
  | .assignGlobal _ _, .assignGlobal href he =>
    .bind (h.outlook.evaluate he) fun _ hu =>
    .bind (lockstep_write h.left h.right href hu) fun _ _ => .pure trivial
  | .choose _ none, .choose hc hb _ =>
    .bind (h.branches hc hb) fun flow hflow =>
    match flow, hflow with
    | some _, hflow => .pure (hflow _ rfl)
    | none, _ => .pure trivial
  | .choose _ (some b), .choose hc hb ho =>
    .bind (h.branches hc hb) fun flow hflow =>
    match flow, hflow with
    | some _, hflow => .pure (hflow _ rfl)
    | none, _ => h.block (ho b rfl)
  -- the items and the block for no items stand outside of the loop, the body stands in it
  | .each ref e _ none _, .each _ he hb _ =>
    .bind (h.outlook.evaluate he) fun u _ =>
    .bind (.tryView e.position fun _ hs => hs.iterationItems u) fun xs hxs =>
    match xs, hxs with
    | [], _ => .pure trivial
    | _ :: _, hxs => lockstep_forEach h.left h.right hxs fun item info hitem hinfo _ _ hv hw =>
      (h.within ref.name hitem hinfo hv hw).block
        (names.bound_within ref.name item info ▸ hb)
  | .each ref e _ (some b) _, .each _ he hb ho =>
    .bind (h.outlook.evaluate he) fun u _ =>
    .bind (.tryView e.position fun _ hs => hs.iterationItems u) fun xs hxs =>
    match xs, hxs with
    | [], _ => h.block (ho b rfl)
    | _ :: _, hxs => lockstep_forEach h.left h.right hxs fun item info hitem hinfo _ _ hv hw =>
      (h.within ref.name hitem hinfo hv hw).block
        (names.bound_within ref.name item info ▸ hb)
  -- the condition is evaluated in the loop, too, which has no names of its own
  | .repeatWhile _ _ _, .repeatWhile _ he hb =>
    lockstep_whileLoop h.left h.right fun _ _ hv hw =>
      ⟨(h.again hv hw).outlook.evaluate he, (h.again hv hw).block hb⟩
  | .define i name params body p, .define _ _ _ hname hb =>
    .bind (lockstep_write h.left h.right hname
      (u := .function (.defined ⟨i, name, params, body, p⟩)) hb) fun _ _ => .pure trivial
  | .leave none _, _ => .pure trivial
  | .leave (some e) _, .leave _ he =>
    .bind (h.outlook.evaluate (he e rfl)) fun _ hu => .pure hu
  | .stop _, _ => .pure trivial
  | .next _, _ => .pure trivial
  | .capture _ _, .capture ht hb =>
    .bind (lockstep_output (h.block hb)) fun _ ha =>
    .bind (h.assign ha.2 ht) fun _ _ => .pure ha.1
  | .include _ _ p, .include _ hpath hmodel => h.outlook.inclusion hpath hmodel p

theorem block {names : LoopNames} {v w : ScopeView} (h : Standpoint m m' read names v w) :
    ∀ {b : List Stmt}, Block.Lexical names.Bound b →
    Action.Lockstep (Inside v w) Flow.Lexical (runBlock m b) (runBlockBy read m' names b)
  | [], _ => .pure trivial
  | _ :: _, hb =>
    .bind (h.statement (List.forall_mem_cons.1 hb).1) fun flow hflow =>
    match flow, hflow with
    | .normal, _ => h.block (List.forall_mem_cons.1 hb).2
    | .stop, _ | .next, _ => .pure trivial
    | .leave _, hflow => .pure hflow

theorem branches {names : LoopNames} {v w : ScopeView} (h : Standpoint m m' read names v w) :
    ∀ {bs : List (Expr × List Stmt)}, (∀ x ∈ bs, x.1.Lexical names.Bound) →
    (∀ x ∈ bs, Block.Lexical names.Bound x.2) →
    Action.Lockstep (Inside v w) Flow.LexicalEnd (runBranches m bs)
      (runBranchesBy read m' names bs)
  | [], _, _ => .pure nofun
  | (_, _) :: _, hc, hb =>
    .bind (h.outlook.evaluate (List.forall_mem_cons.1 hc).1) fun u _ =>
    .bind (.isTruthy u) fun _ _ =>
    .ite
      (.bind (h.block (List.forall_mem_cons.1 hb).1) fun flow hflow =>
        .pure (by rintro _ ⟨⟩; exact hflow))
      (h.branches (List.forall_mem_cons.1 hc).2 (List.forall_mem_cons.1 hb).2)

end

end Standpoint

/-! ## Machines and templates -/

/-- The operations of the host give lexical values of lexical ones and do not look at frames, except
that the evaluation which they ask for does. -/
def Host.Discreet (host : Host) : Prop :=
  ∀ (f : Native) (m m' : Machine), m.Lockstep m' → ∀ (args : List Value) (p : Position),
    (∀ u ∈ args, u.Lexical) → ∀ P : ScopeView → ScopeView → Prop,
      Action.Lockstep P Value.Lexical (host f m args p) (host f m' args p)

theorem Host.Discreet.machine {host : Host} (h : host.Discreet) {read : Reader}
    (hread : read.Faithful) : ∀ n, (machine host n).Lockstep (machineBy read host n)
  | 0 => {
      run := fun _ _ _ c d hcd => ⟨⟨rfl, .outOfFuel, hcd⟩, fun heq => by rw [heq]; rfl⟩
      native := fun _ _ _ _ _ c d hcd => ⟨⟨rfl, .outOfFuel, hcd⟩, fun heq => by rw [heq]; rfl⟩ }
  | n + 1 => {
      run := fun hb v w => (Standpoint.body (h.machine hread n) hread v w).block
        (LoopNames.bound_none ▸ hb)
      native := fun f _ p hargs P => h f _ _ (h.machine hread n) _ p hargs P }

theorem lockstep_render {m m' : Machine} (hm : m.Lockstep m') {read : Reader}
    (hread : read.Faithful) {t : Template} (ht : t.Lexical) {model : Value} (hmodel : model.Lexical)
    (P : ScopeView → ScopeView → Prop) :
    Action.Lockstep P (fun _ => True) (t.render m model) (t.renderBy read m' model) := by
  have hbody (v w : ScopeView) := (Standpoint.body hm hread v w).block (b := t.body)
    (LoopNames.bound_none ▸ ht)
  have hrendering (name : String) {u : Value} (hu : u.Lexical) :
      Action.Lockstep P (fun _ => True) (rendering name (runBlock m t.body) u)
        (rendering name (runBlockBy read m' .none t.body) u) := by
    refine lockstep_global hu fun v w => ?_
    refine .bind (.of_unaware (.onStore _) yields_newNamespace) fun names hnames => ?_
    refine lockstep_global hnames fun v w => lockstep_source _ ?_
    exact .bind (lockstep_output (hbody v w)) fun _ _ => .pure trivial
  rw [Template.render_eq]
  unfold Template.renderBy
  dsimp only
  split
  · exact .bind (.of_unaware (.onStore _) (yields_newMap .empty)) fun _ hu => hrendering _ hu
  · exact hrendering _ hmodel

end TemplateEngine
