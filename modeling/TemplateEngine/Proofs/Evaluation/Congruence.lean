import TemplateEngine.Proofs.Evaluation.Primitive

/-!
# What evaluation is put together from

Whatever relates two actions and is kept by each way of putting actions together relates the
evaluation of one expression, statement or block on two machines. A `Congruence` lists these ways
once: going on with a result, the primitive actions, the regions, and the loops. Its families may
be propositions (an invariant of a run, or a comparison of two runs) or data (what a run reports).
Calls, includes, loops and whole templates are derived from the list, and with them everything
that the syntax can say.
-/

namespace TemplateEngine

universe u

open TemplateEngine.Action

/-! ## Parts of loops and of templates -/

namespace Machine

/-- Counts a round, prepares it and runs its body. -/
def countedRound (prepare : Action Unit) (body : Action Flow) : Action Flow := do
  stepLoop
  prepare
  body

/-- Binds what a round over an item can name. -/
def bindRound (name : String) (length : Nat) (item : Value × Nat) : Action Unit := do
  bindLoop name item.1
  let info ← onStore fun s => s.newMap (loopEntries item.2 length)
  bindLoop "loop" info

theorem quiet_bindRound (name : String) (length : Nat) (item : Value × Nat) :
    (bindRound name length item).Quiet :=
  .bind (quiet_bindLoop _ _) fun _ => .bind (.onStore _) fun _ => quiet_bindLoop _ _

theorem eachBody_eq (name : String) (length : Nat) (body : Action Flow) (item : Value × Nat) :
    eachBody name length body item =
      countedRound (bindRound name length item) body >>= fun flow => pure flow.endsLoop := by
  simp only [eachBody, countedRound, bindRound, bind_assoc]

theorem whileBody_eq (condition : Action Value) (body : Action Flow) :
    whileBody condition body = (do
      let v ← condition
      let holds ← inStore fun s => s.isTruthy v
      if holds then
        let flow ← countedRound (pure ()) body
        pure flow.endsLoop
      else pure (some .normal)) := by
  simp only [whileBody, countedRound, bind_assoc, pure_bind]

theorem eachRound_cons {α : Type} (round : α → Action (Option Flow)) (a : α) (rest : List α) :
    eachRound round (a :: rest) = round a >>= fun flow =>
      match flow with
      | none => eachRound round rest
      | some flow => pure flow := by
  funext c
  simp only [eachRound, bind_apply]
  rcases round a c with ⟨(_ | flow) | e | _, d⟩ <;> rfl

theorem repeatRound_succ (round : Action (Option Flow)) (bound : Nat) :
    repeatRound round (bound + 1) = round >>= fun flow =>
      match flow with
      | none => repeatRound round bound
      | some flow => pure flow := by
  funext c
  simp only [repeatRound, bind_apply]
  rcases round c with ⟨(_ | flow) | e | _, d⟩ <;> rfl

/-- The rounds of a loop with a condition, bounded by the rounds that are left. -/
def whileRounds (condition : Action Value) (body : Action Flow) : Action Flow := fun c =>
  repeatRound (whileBody condition body) (c.limits.loops - c.scopes.iterations + 1) c

end Machine

/-- Renders a body under a name, with a model opened and a fresh namespace over it. -/
def rendering (name : String) (body : Action Flow) (model : Value) : Action String :=
  Region.global.around (pushGlobal model) do
    let names ← onStore fun s => s.newNamespace .empty
    Region.global.around (pushGlobal names) <|
      Region.source.around (pushSource name) do
        let (_, text) ← Region.output.holding pushOutput body
        pure (bufferText text)

theorem Template.render_eq (m : Machine) (t : Template) (model : Value) :
    t.render m model =
      let name := if t.name.isEmpty then "<inline>" else t.name
      if model.isAbsent then
        onStore (fun s => s.newMap .empty) >>= rendering name (runBlock m t.body)
      else rendering name (runBlock m t.body) model := rfl

/-! ## The list -/

/-- Where an action stands: in what is being evaluated, or in the body of what that calls. -/
inductive Site
  | here
  | called

/-- Whether an action can write to the buffer on top. -/
inductive Voice
  | silent
  | writing

/-- Families of pairs of actions that every construct of evaluation respects. -/
structure Congruence (R : Site → Voice → ∀ ⦃α : Type⦄, Action α → Action α → Sort u) where
  pure {α : Type} {s : Site} (a : α) : R s .silent (pure a) (pure a)
  bind {α β : Type} {s : Site} {v : Voice} {x y : Action α} {f g : α → Action β} :
    R s v x y → (∀ a, R s v (f a) (g a)) → R s v (x >>= f) (y >>= g)
  /-- Actions may be written in another way. -/
  congr {α : Type} {s : Site} {v : Voice} {x x' y y' : Action α} :
    x' = x → y' = y → R s v x y → R s v x' y'
  /-- What writes nothing may stand where writing is allowed. -/
  up {α : Type} {s : Site} {x y : Action α} : R s .silent x y → R s .writing x y
  primitive {α : Type} {s : Site} {x : Action α} : x.Primitive → R s .silent x x
  suppress {α : Type} {s : Site} (b : Bool) {x y : Action α} :
    R s .silent x y → R s .silent (withSuppression b x) (withSuppression b y)
  text {s : Site} (t : String) : R s .writing (writeText t) (writeText t)
  /-- The inside of a call stands where the bodies of called functions stand. -/
  function {α : Type} {v : Voice} (p : Position) {x y : Action α} : R .called v x y →
    R .here v (Region.function.holding (enterFunction p) x)
      (Region.function.holding (enterFunction p) y)
  global {α : Type} {s : Site} {v : Voice} (model : Value) {x y : Action α} : R s v x y →
    R s v (Region.global.holding (pushGlobal model) x) (Region.global.holding (pushGlobal model) y)
  source {α : Type} {s : Site} {v : Voice} (name : String) {x y : Action α} : R s v x y →
    R s v (Region.source.holding (pushSource name) x) (Region.source.holding (pushSource name) y)
  /-- What is written inside of a buffer is not written outside of it. -/
  output {α : Type} {s : Site} {x y : Action α} : R s .writing x y →
    R s .silent (Region.output.holding pushOutput x) (Region.output.holding pushOutput y)
  loop {α : Type} {s : Site} {v : Voice} (p : Position) {x y : Action α} : R s v x y →
    R s v (Region.loop.holding (enterLoop p) x) (Region.loop.holding (enterLoop p) y)
  round {s : Site} (name : String) (length : Nat) (item : Value × Nat) {x y : Action Flow} :
    R s .writing x y →
    R s .writing (Machine.countedRound (Machine.bindRound name length item) x)
      (Machine.countedRound (Machine.bindRound name length item) y)
  whileRounds {s : Site} {a b : Action Value} {x y : Action Flow} :
    R s .silent a b → R s .writing x y →
    R s .writing (Machine.whileRounds a x) (Machine.whileRounds b y)

namespace Congruence

variable {R : Site → Voice → ∀ ⦃α : Type⦄, Action α → Action α → Sort u} (C : Congruence R)
  {s : Site}

/-- Either of two ways, whichever is taken. -/
def choice {α : Type} {v : Voice} {p : Prop} [h : Decidable p] {x y a b : Action α}
    (hx : R s v x y) (hy : R s v a b) : R s v (if p then x else a) (if p then y else b) :=
  match h with
  | isTrue _ => hx
  | isFalse _ => hy

/-! ## Loops and templates -/

section

variable {α : Type} {v : Voice} {x y : Action α} {f g : Action Flow}

/-- What writes nothing may stand anywhere. -/
def raise : ∀ {v : Voice}, R s .silent x y → R s v x y
  | .silent, h => h
  | .writing, h => C.up h

/-- The result of an action inside of a region, without what the region held. -/
def first {x y : Action (α × Value)} (h : R s v x y) :
    R s v (x >>= fun r => Pure.pure r.1) (y >>= fun r => Pure.pure r.1) :=
  C.bind h fun _ => C.raise (C.pure _)

/-- Loops. -/
def inLoop (p : Position) (h : R s .writing f g) :
    R s .writing (Machine.inLoop p f) (Machine.inLoop p g) :=
  C.first (C.loop p (C.bind (C.up (C.primitive .inheritLoop)) fun _ => h))

/-- Rounds over items. -/
def eachRound {f g : α → Action (Option Flow)} (h : ∀ a, R s .writing (f a) (g a)) :
    ∀ items : List α, R s .writing (Machine.eachRound f items) (Machine.eachRound g items)
  | [] => C.up (C.pure _)
  | a :: rest => C.congr (Machine.eachRound_cons f a rest) (Machine.eachRound_cons g a rest) <|
    C.bind (h a) fun
      | none => eachRound h rest
      | some _ => C.up (C.pure _)

/-- Loops over items. -/
def forEach (name : String) (p : Position) (items : List Value) (h : R s .writing f g) :
    R s .writing (Machine.forEach name p items f) (Machine.forEach name p items g) :=
  C.inLoop p <| C.eachRound (fun item =>
    C.congr (Machine.eachBody_eq name _ f item) (Machine.eachBody_eq name _ g item) <|
      C.bind (C.round _ _ _ h) fun _ => C.up (C.pure _)) _

/-- Loops with a condition. -/
def whileLoop (p : Position) {a b : Action Value} (ha : R s .silent a b) (h : R s .writing f g) :
    R s .writing (Machine.whileLoop p a f) (Machine.whileLoop p b g) :=
  C.inLoop p (C.whileRounds ha h)

/-- Bodies that are rendered. -/
def rendering (name : String) (model : Value) (h : R s .writing f g) :
    R s .silent (TemplateEngine.rendering name f model) (TemplateEngine.rendering name g model) :=
  C.first <| C.global model <| C.bind (C.primitive (.newNamespace .empty)) fun names =>
    C.first <| C.global names <| C.first <| C.source name <| C.bind (C.output h) fun _ => C.pure _

end

/-! ## Calls -/

variable {m n : Machine} (hrun : ∀ b, R .called .writing (m.run b) (n.run b))
  (hnative : ∀ f args p, R .here .silent (m.native f args p) (n.native f args p))

/-- Parameters. -/
def bindParams : ∀ (names : List String) (args : List Value),
    R s .silent (Machine.bindParams names args) (Machine.bindParams names args)
  | [], _ => C.pure _
  | name :: rest, args => C.bind (C.primitive (.bindLocal name _)) fun _ =>
    bindParams rest args.tail

include hrun in
/-- Calls of functions that templates define. -/
def callDefined (d : FunctionDef) (args : List Value) (p : Position) :
    R .here .silent (m.callDefined d args p) (n.callDefined d args p) :=
  choice (C.primitive (.failAt _ _)) <|
  C.first <| C.function p <| C.bind (C.bindParams d.params args) fun _ =>
  C.bind (C.output (hrun d.body)) fun (flow, _) =>
    match flow with
    | .leave (some _) => C.pure _
    | .leave none | .normal | .stop | .next => C.pure _

include hrun in
/-- Includes. -/
def runIncluded (t : Template) (model : Option Value) (p : Position) :
    R .here .writing (TemplateEngine.runIncluded m t model p)
      (TemplateEngine.runIncluded n t model p) :=
  C.first <| C.function p <| C.first <| C.source t.name <|
    match model with
    | some v => C.bind (C.first (C.global v (hrun t.body))) fun _ => C.up (C.pure _)
    | none => C.bind (hrun t.body) fun _ => C.up (C.pure _)

include hrun hnative in
/-- Calls of functions. -/
def call (f : Function) (args : List Value) (p : Position) :
    R .here .silent (m.call f args p) (n.call f args p) :=
  match f with
  | .builtin b => C.primitive (.builtin b args p)
  | .native f => hnative f args p
  | .defined d => C.callDefined hrun d args p

/-- Calls of what comes out of an expression. -/
def settle (outermost : Bool) (p : Position) (v : Value) :
    R .here .silent (m.settle outermost p v) (n.settle outermost p v) :=
  match v with
  | .function f =>
    C.bind (C.primitive .suppressed) fun _ =>
      choice (C.pure _) (C.call hrun hnative f [] p)
  | .undefined | .null | .bool _ | .int _ | .float _ | .text _ | .list _ | .array _ | .map _
  | .object _ | .record _ => C.pure _

/-- Calls of callees with arguments. -/
def callValue (v : Value) (args : List Value) (callee : Expr) (p : Position) :
    R .here .silent (m.callValue v args callee p) (n.callValue v args callee p) :=
  match v with
  | .function f => C.call hrun hnative f args p
  | .undefined | .null | .bool _ | .int _ | .float _ | .text _ | .list _ | .array _ | .map _
  | .object _ | .record _ =>
    C.bind (C.primitive (.inStore _)) fun _ => C.primitive (.failAt _ _)

mutual

/-- The values of expressions, outermost or on the way. -/
def reach : ∀ (e : Expr) (outermost : Bool),
    R .here .silent (e.reach m outermost) (e.reach n outermost)
  | .literal v p, o => C.settle hrun hnative o p (.ofLiteral v)
  | .var ref, o => C.bind (C.primitive (.readVariable ref)) fun v => C.settle hrun hnative o _ v
  | .member target name p, o =>
    C.bind (reach target false) fun object =>
    C.bind (C.primitive (.ofMember object name target p)) fun place =>
    C.bind (C.primitive (.read place)) fun v => C.settle hrun hnative o p v
  | .index target key p, o =>
    C.bind (reach target false) fun object =>
    choice (C.primitive (.failAt _ _)) <|
    C.bind (C.suppress false (reach key true)) fun k =>
    C.bind (C.primitive (.ofKey object k key.position target p)) fun place =>
    C.bind (C.primitive (.read place)) fun v => C.settle hrun hnative o p v
  | .call callee args p, o =>
    C.bind (C.suppress true (reach callee true)) fun f =>
    C.bind (items args) fun vs =>
    C.bind (C.callValue hrun hnative f vs callee p) fun v => C.settle hrun hnative o p v
  | .list es p, o =>
    C.bind (items es) fun vs =>
    C.bind (C.primitive (.newList vs)) fun v => C.settle hrun hnative o p v
  | .map es p, o =>
    C.bind (entries es) fun vs =>
    C.bind (C.primitive (.newMap (.ofList vs))) fun v => C.settle hrun hnative o p v
  | .unary _ operand p, o =>
    C.bind (C.suppress false (reach operand true)) fun _ =>
    C.bind (C.primitive (.tryView p _)) fun v => C.settle hrun hnative o p v
  | .binary .and left right p, o =>
    C.bind (C.suppress false (reach left true)) fun a =>
    C.bind (C.primitive (.inStore _)) fun _ =>
    choice
      (C.bind (C.suppress false (reach right true)) fun v => C.settle hrun hnative o p v)
      (C.bind (C.pure a) fun v => C.settle hrun hnative o p v)
  | .binary .or left right p, o =>
    C.bind (C.suppress false (reach left true)) fun a =>
    C.bind (C.primitive (.inStore _)) fun _ =>
    choice
      (C.bind (C.pure a) fun v => C.settle hrun hnative o p v)
      (C.bind (C.suppress false (reach right true)) fun v => C.settle hrun hnative o p v)
  | .binary .add left right p, o | .binary .sub left right p, o | .binary .mul left right p, o
  | .binary .div left right p, o | .binary .rem left right p, o | .binary .concat left right p, o
  | .binary .eq left right p, o | .binary .ne left right p, o | .binary .lt left right p, o
  | .binary .gt left right p, o | .binary .le left right p, o | .binary .ge left right p, o =>
    C.bind (C.suppress false (reach left true)) fun a =>
    C.bind (C.suppress false (reach right true)) fun b =>
    C.bind (C.primitive (.binary p _ a b)) fun v => C.settle hrun hnative o p v

/-- The values of expressions, each in turn. -/
def items : ∀ es : List Expr, R .here .silent (evaluateItems m es) (evaluateItems n es)
  | [] => C.pure _
  | e :: rest =>
    C.bind (C.suppress false (reach e true)) fun _ => C.bind (items rest) fun _ => C.pure _

/-- The entries of map literals, each in turn. -/
def entries : ∀ es : List (String × Expr),
    R .here .silent (evaluateEntries m es) (evaluateEntries n es)
  | [] => C.pure _
  | (_, e) :: rest =>
    C.bind (C.suppress false (reach e true)) fun _ => C.bind (entries rest) fun _ => C.pure _

end

/-- Values. -/
def evaluate (e : Expr) : R .here .silent (e.evaluate m) (e.evaluate n) :=
  C.suppress false (C.reach hrun hnative e true)

/-- Values, with a function as it is. -/
def evaluateUninvoked (e : Expr) :
    R .here .silent (e.evaluateUninvoked m) (e.evaluateUninvoked n) :=
  C.suppress true (C.reach hrun hnative e true)

/-- Assignments. -/
def write (v : Value) : ∀ e : Expr, R .here .silent (e.write m v) (e.write n v)
  | .var ref => C.primitive (.writeVariable ref v)
  | .member target name p =>
    C.bind (C.reach hrun hnative target false) fun object =>
    C.bind (C.primitive (.ofMember object name target p)) fun place =>
    C.primitive (.write v place)
  | .index target key p =>
    C.bind (C.reach hrun hnative target false) fun object =>
    choice (C.primitive (.failAt _ _)) <|
    C.bind (C.evaluate hrun hnative key) fun k =>
    C.bind (C.primitive (.ofKey object k key.position target p)) fun place =>
    C.primitive (.write v place)
  | .literal _ _ | .call _ _ _ | .list _ _ | .map _ _ | .unary _ _ _ | .binary _ _ _ _ =>
    C.primitive (.failAt _ _)

/-- Assignments from outside. -/
def assign (e : Expr) (v : Value) : R .here .silent (e.assign m v) (e.assign n v) :=
  C.suppress false (C.write hrun hnative v e)

/-! ## Statements -/

/-- Statements that evaluate first. -/
def after {α : Type} (e : Expr) {f g : Value → Action α} (h : ∀ v, R .here .writing (f v) (g v)) :
    R .here .writing (e.evaluate m >>= f) (e.evaluate n >>= g) :=
  C.bind (C.up (C.evaluate hrun hnative e)) h

/-- Models of includes. -/
def includedModel (path : String) :
    ∀ e : Option Expr, R .here .writing (TemplateEngine.includedModel m path e)
      (TemplateEngine.includedModel n path e)
  | none => C.up (C.pure _)
  | some e => C.after hrun hnative e fun _ =>
    C.up (choice (C.primitive (.failAt _ _)) (C.pure _))

/-- Output of values. -/
def value (v : Value) (p : Position) : R .here .writing (writeValue v p) (writeValue v p) :=
  choice (C.up (C.pure ())) <|
  C.bind (C.up (C.primitive (.tryView p _))) fun t => C.text t

mutual

/-- Statements. -/
def statement : ∀ s : Stmt, R .here .writing (s.run m) (s.run n)
  | .text t => C.bind (C.text t) fun _ => C.up (C.pure _)
  | .output e => C.after hrun hnative e fun v =>
    C.bind (C.value v e.position) fun _ => C.up (C.pure _)
  | .assign target e => C.after hrun hnative e fun v =>
    C.up (C.bind (C.assign hrun hnative target v) fun _ => C.pure _)
  | .assignGlobal ref e => C.after hrun hnative e fun v =>
    C.up (C.bind (C.primitive (.writeVariable ref v)) fun _ => C.pure _)
  | .choose bs none => C.bind (branches bs) fun flow =>
    match flow with
    | some _ => C.up (C.pure _)
    | none => C.up (C.pure _)
  | .choose bs (some b) => C.bind (branches bs) fun flow =>
    match flow with
    | some _ => C.up (C.pure _)
    | none => block b
  | .each ref e body none p => C.after hrun hnative e fun _ =>
    C.bind (C.up (C.primitive (.tryView _ _))) fun xs =>
    match xs with
    | [] => C.up (C.pure _)
    | x :: xs => C.forEach ref.name p (x :: xs) (block body)
  | .each ref e body (some b) p => C.after hrun hnative e fun _ =>
    C.bind (C.up (C.primitive (.tryView _ _))) fun xs =>
    match xs with
    | [] => block b
    | x :: xs => C.forEach ref.name p (x :: xs) (block body)
  | .repeatWhile e body p => C.whileLoop p (C.evaluate hrun hnative e) (block body)
  | .define _ name _ _ _ =>
    C.up (C.bind (C.primitive (.writeVariable name _)) fun _ => C.pure _)
  | .leave none _ => C.up (C.pure _)
  | .leave (some e) _ => C.after hrun hnative e fun _ => C.up (C.pure _)
  | .stop _ => C.up (C.pure _)
  | .next _ => C.up (C.pure _)
  | .capture target body => C.up <|
    C.bind (C.output (block body)) fun (_, text) =>
    C.bind (C.assign hrun hnative target text) fun _ => C.pure _
  | .include path model p => C.after hrun hnative path fun _ =>
    C.bind (C.up (C.primitive (.tryView _ _))) fun name =>
    C.bind (C.up (C.primitive (.load name p))) fun t =>
    C.bind (C.includedModel hrun hnative name model) fun v =>
    C.bind (C.runIncluded hrun t v p) fun _ => C.up (C.pure _)

/-- Blocks. -/
def block : ∀ b : List Stmt, R .here .writing (runBlock m b) (runBlock n b)
  | [] => C.up (C.pure _)
  | s :: rest => C.bind (statement s) fun flow =>
    match flow with
    | .normal => block rest
    | .stop | .next | .leave _ => C.up (C.pure _)

/-- Branches. -/
def branches : ∀ bs : List (Expr × List Stmt),
    R .here .writing (runBranches m bs) (runBranches n bs)
  | [] => C.up (C.pure _)
  | (e, body) :: rest => C.after hrun hnative e fun _ =>
    C.bind (C.up (C.primitive (.inStore _))) fun _ =>
    choice (C.bind (block body) fun _ => C.up (C.pure _)) (branches rest)

end

/-! ## Templates -/

/-- Templates. -/
def render (t : Template) (model : Value) : R .here .silent (t.render m model) (t.render n model) :=
  choice (C.bind (C.primitive (.newMap .empty)) fun v =>
      C.rendering _ v (C.block hrun hnative t.body))
    (C.rendering _ model (C.block hrun hnative t.body))

/-- Templates that are loaded first. -/
def renderPath (path : String) (model : Value) :
    R .here .silent (TemplateEngine.renderPath m path model)
      (TemplateEngine.renderPath n path model) :=
  C.bind (C.primitive (.load path .unknown)) fun t => C.render hrun hnative t model

end Congruence

end TemplateEngine
