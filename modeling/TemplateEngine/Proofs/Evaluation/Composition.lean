import TemplateEngine.Proofs.Evaluation.Congruence
import TemplateEngine.Proofs.Evaluation.Lasting

/-!
# What a run does, part by part

Names are bound without regard to locks in two places only: in the frame of a call when the call
begins, and in the frame of a loop when it begins or one of its rounds does. What is true at each
moment of a run depends on that, and so a `Composition` says of one run how it is put together, with
calls and loops as a whole: a call begins with its parameters bound (`Action.beginCall`), a loop
with what the loop around it binds (`Action.beginLoop`). Everything that the syntax can say is
derived from the list once.
-/

namespace TemplateEngine

universe u

open TemplateEngine.Action

/-! ## Beginning with something bound -/

namespace Action

/-- Begins a call and binds its parameters. -/
def beginCall (p : Position) (names : List String) (args : List Value) : Action Unit := do
  enterFunction p
  Machine.bindParams names args

/-- Begins a loop with the bindings of the loop around it. -/
def beginLoop (p : Position) : Action Unit := do
  enterLoop p
  inheritLoop

theorem bindParams_ok (names : List String) (args : List Value) (c : Context) :
    (Machine.bindParams names args c).1 = .ok () := by
  induction names generalizing args c with
  | nil => rfl
  | cons name rest ih => exact ih _ _

theorem beginCall_nil (p : Position) : enterFunction p = beginCall p [] [] := (bind_pure _).symm

end Action

/-- What is done first in a region, and never fails, may as well be part of its opening. -/
theorem Region.holding_opening {α : Type} (r : Region) (opening : Action Unit) {first : Action Unit}
    (h : ∀ c, (first c).1 = .ok ()) (x : Action α) :
    r.holding opening (first >>= fun _ => x) = r.holding (opening >>= fun _ => first) x := by
  funext c
  rcases hopen : opening c with ⟨u | e | _, d⟩
  · obtain ⟨e, hfirst⟩ : ∃ e, first d = (.ok (), e) := ⟨_, Prod.ext (h d) rfl⟩
    simp only [holding, between, bind_of_ok hopen, hopen, bind_of_ok hfirst, hfirst]
  · simp only [holding, between, bind_of_error hopen, hopen]
  · simp only [holding, between, bind_of_outOfFuel hopen, hopen]

theorem Machine.inLoop_eq (p : Position) (rounds : Action Flow) :
    inLoop p rounds =
      Region.loop.holding (beginLoop p) rounds >>= fun r => pure r.1 := by
  rw [beginLoop, ← Region.holding_opening _ _ fun _ => rfl]
  rfl

/-! ## The list -/

/-- A family of actions that has whatever evaluation puts together of its members. -/
structure Composition (R : ∀ ⦃α : Type⦄, Action α → Sort u) where
  pure {α : Type} (a : α) : R (pure a)
  bind {α β : Type} {x : Action α} {f : α → Action β} : R x → (∀ a, R (f a)) → R (x >>= f)
  /-- Actions may be written in another way. -/
  congr {α : Type} {x x' : Action α} : x' = x → R x → R x'
  /-- The primitive actions that let everything last. -/
  primitive {α : Type} {x : Action α} : x.Primitive → x.Lasting → R x
  write (ref : VarRef) (v : Value) : R (writeVariable ref v)
  put (place : Place) (v : Value) : R (place.write v)
  text (t : String) : R (writeText t)
  suppress {α : Type} (b : Bool) {x : Action α} : R x → R (withSuppression b x)
  call {α : Type} (p : Position) (names : List String) (args : List Value) {x : Action α} :
    R x → R (Region.function.holding (beginCall p names args) x)
  global {α : Type} (model : Value) {x : Action α} :
    R x → R (Region.global.holding (pushGlobal model) x)
  source {α : Type} (name : String) {x : Action α} :
    R x → R (Region.source.holding (pushSource name) x)
  output {α : Type} {x : Action α} : R x → R (Region.output.holding pushOutput x)
  each (name : String) (p : Position) (items : List Value) {x : Action Flow} :
    R x → R (Machine.forEach name p items x)
  repeatWhile (p : Position) {a : Action Value} {x : Action Flow} :
    R a → R x → R (Machine.whileLoop p a x)

namespace Composition

variable {R : ∀ ⦃α : Type⦄, Action α → Sort u} (C : Composition R)

/-- Either of two ways, whichever is taken. -/
def choice {α : Type} {p : Prop} [h : Decidable p] {x y : Action α} (hx : R x) (hy : R y) :
    R (if p then x else y) :=
  match h with
  | isTrue _ => hx
  | isFalse _ => hy

section

variable {α : Type} {x : Action α}

/-- Failures. -/
def failAt (p : Position) (fault : ScriptFault) : R (Action.failAt p fault : Action α) :=
  C.primitive (.failAt p fault) (.failAt p fault)

/-- Questions to the store. -/
def inStore (f : Store → α) : R (Action.inStore f) := C.primitive (.inStore f) (.view _)

/-- Questions to the store that can fail. -/
def tryView (p : Position) (f : Store → Except ScriptFault α) : R (Action.tryView p f) :=
  C.primitive (.tryView p f) (.tryView p f)

/-- New lists. -/
def newList (vs : List Value) : R (onStore fun s => s.newList vs) :=
  C.primitive (.newList vs) (.onStore fun s => .alloc s _)

/-- New maps. -/
def newMap (d : Dictionary Value) : R (onStore fun s => s.newMap d) :=
  C.primitive (.newMap d) (.onStore fun s => .alloc s _)

/-- The result of an action inside of a region, without what the region held. -/
def first {x : Action (α × Value)} (h : R x) : R (x >>= fun r => Pure.pure r.1) :=
  C.bind h fun _ => C.pure _

/-- Bodies that are rendered. -/
def rendering (name : String) (model : Value) {f : Action Flow} (h : R f) :
    R (TemplateEngine.rendering name f model) :=
  C.first <| C.global model <|
    C.bind (C.primitive (.newNamespace .empty) (.onStore fun s => .alloc s _)) fun names =>
    C.first <| C.global names <| C.first <| C.source name <| C.bind (C.output h) fun _ => C.pure _

end

/-! ## Calls -/

variable {m : Machine} (hrun : ∀ b, R (m.run b)) (hnative : ∀ f args p, R (m.native f args p))

include hrun in
/-- Calls of functions that templates define. -/
def callDefined (d : FunctionDef) (args : List Value) (p : Position) :
    R (m.callDefined d args p) :=
  choice (C.failAt _ _) <| C.first <|
  C.congr (Region.holding_opening _ _ (bindParams_ok d.params args) _) <|
  C.call p d.params args <| C.bind (C.output (hrun d.body)) fun (flow, _) =>
    match flow with
    | .leave (some _) => C.pure _
    | .leave none | .normal | .stop | .next => C.pure _

include hrun in
/-- Includes. -/
def runIncluded (t : Template) (model : Option Value) (p : Position) :
    R (TemplateEngine.runIncluded m t model p) :=
  C.first <| C.congr (congrArg (fun opening => Region.function.holding opening _)
    (beginCall_nil p)) <| C.call p [] [] <| C.first <| C.source t.name <|
    match model with
    | some v => C.bind (C.first (C.global v (hrun t.body))) fun _ => C.pure _
    | none => C.bind (hrun t.body) fun _ => C.pure _

include hrun hnative in
/-- Calls of functions. -/
def callFunction (f : Function) (args : List Value) (p : Position) : R (m.call f args p) :=
  match f with
  | .builtin b => C.primitive (.builtin b args p) (lasting_builtin b args p)
  | .native f => hnative f args p
  | .defined d => C.callDefined hrun d args p

/-- Calls of what comes out of an expression. -/
def settle (outermost : Bool) (p : Position) (v : Value) : R (m.settle outermost p v) :=
  match v with
  | .function f =>
    C.bind (C.primitive .suppressed (.view _)) fun _ =>
      choice (C.pure _) (C.callFunction hrun hnative f [] p)
  | .undefined | .null | .bool _ | .int _ | .float _ | .text _ | .list _ | .array _ | .map _
  | .object _ | .record _ => C.pure _

/-- Calls of callees with arguments. -/
def callValue (v : Value) (args : List Value) (callee : Expr) (p : Position) :
    R (m.callValue v args callee p) :=
  match v with
  | .function f => C.callFunction hrun hnative f args p
  | .undefined | .null | .bool _ | .int _ | .float _ | .text _ | .list _ | .array _ | .map _
  | .object _ | .record _ => C.bind (C.inStore _) fun _ => C.failAt _ _

/-! ## Expressions -/

/-- Places by name. -/
def ofMember (object : Value) (name : String) (target : Expr) (p : Position) :
    R (Place.ofMember object name target p) :=
  C.primitive (.ofMember object name target p) (lasting_ofMember object name target p)

/-- Places by key. -/
def ofKey (object key : Value) (q : Position) (target : Expr) (p : Position) :
    R (Place.ofKey object key q target p) :=
  C.primitive (.ofKey object key q target p) (lasting_ofKey object key q target p)

/-- What is at a place, called if it is a function. -/
def settleRead (outermost : Bool) (p : Position) (place : Place) :
    R (place.read >>= m.settle outermost p) :=
  C.bind (C.primitive (.read place) (lasting_read place)) fun v =>
    C.settle hrun hnative outermost p v

mutual

/-- The values of expressions, outermost or on the way. -/
def reach : ∀ (e : Expr) (outermost : Bool), R (e.reach m outermost)
  | .literal v p, o => C.settle hrun hnative o p (.ofLiteral v)
  | .var ref, o =>
    C.bind (C.primitive (.readVariable ref) (lasting_readVariable ref)) fun v =>
      C.settle hrun hnative o _ v
  | .member target name p, o =>
    C.bind (reach target false) fun object =>
    C.bind (C.ofMember object name target p) fun place => C.settleRead hrun hnative o p place
  | .index target key p, o =>
    C.bind (reach target false) fun object =>
    choice (C.failAt _ _) <|
    C.bind (C.suppress false (reach key true)) fun k =>
    C.bind (C.ofKey object k key.position target p) fun place =>
    C.settleRead hrun hnative o p place
  | .call callee args p, o =>
    C.bind (C.suppress true (reach callee true)) fun f =>
    C.bind (items args) fun vs =>
    C.bind (C.callValue hrun hnative f vs callee p) fun v => C.settle hrun hnative o p v
  | .list es p, o =>
    C.bind (items es) fun vs => C.bind (C.newList vs) fun v => C.settle hrun hnative o p v
  | .map es p, o =>
    C.bind (entries es) fun vs => C.bind (C.newMap (.ofList vs)) fun v =>
    C.settle hrun hnative o p v
  | .unary _ operand p, o =>
    C.bind (C.suppress false (reach operand true)) fun _ =>
    C.bind (C.tryView p _) fun v => C.settle hrun hnative o p v
  | .binary .and left right p, o =>
    C.bind (C.suppress false (reach left true)) fun a =>
    C.bind (C.inStore _) fun _ =>
    choice
      (C.bind (C.suppress false (reach right true)) fun v => C.settle hrun hnative o p v)
      (C.bind (C.pure a) fun v => C.settle hrun hnative o p v)
  | .binary .or left right p, o =>
    C.bind (C.suppress false (reach left true)) fun a =>
    C.bind (C.inStore _) fun _ =>
    choice
      (C.bind (C.pure a) fun v => C.settle hrun hnative o p v)
      (C.bind (C.suppress false (reach right true)) fun v => C.settle hrun hnative o p v)
  | .binary .add left right p, o | .binary .sub left right p, o | .binary .mul left right p, o
  | .binary .div left right p, o | .binary .rem left right p, o | .binary .concat left right p, o
  | .binary .eq left right p, o | .binary .ne left right p, o | .binary .lt left right p, o
  | .binary .gt left right p, o | .binary .le left right p, o | .binary .ge left right p, o =>
    C.bind (C.suppress false (reach left true)) fun a =>
    C.bind (C.suppress false (reach right true)) fun b =>
    C.bind (C.primitive (.binary p _ a b) (lasting_binary p _ a b)) fun v =>
    C.settle hrun hnative o p v

/-- The values of expressions, each in turn. -/
def items : ∀ es : List Expr, R (evaluateItems m es)
  | [] => C.pure _
  | e :: rest =>
    C.bind (C.suppress false (reach e true)) fun _ => C.bind (items rest) fun _ => C.pure _

/-- The entries of map literals, each in turn. -/
def entries : ∀ es : List (String × Expr), R (evaluateEntries m es)
  | [] => C.pure _
  | (_, e) :: rest =>
    C.bind (C.suppress false (reach e true)) fun _ => C.bind (entries rest) fun _ => C.pure _

end

/-- Values. -/
def evaluate (e : Expr) : R (e.evaluate m) := C.suppress false (C.reach hrun hnative e true)

/-- Values, with a function as it is. -/
def evaluateUninvoked (e : Expr) : R (e.evaluateUninvoked m) :=
  C.suppress true (C.reach hrun hnative e true)

/-- Assignments. -/
def assignment (v : Value) : ∀ e : Expr, R (e.write m v)
  | .var ref => C.write ref v
  | .member target name p =>
    C.bind (C.reach hrun hnative target false) fun object =>
    C.bind (C.ofMember object name target p) fun place => C.put place v
  | .index target key p =>
    C.bind (C.reach hrun hnative target false) fun object =>
    choice (C.failAt _ _) <|
    C.bind (C.evaluate hrun hnative key) fun k =>
    C.bind (C.ofKey object k key.position target p) fun place => C.put place v
  | .literal _ _ | .call _ _ _ | .list _ _ | .map _ _ | .unary _ _ _ | .binary _ _ _ _ =>
    C.failAt _ _

/-- Assignments from outside. -/
def assign (e : Expr) (v : Value) : R (e.assign m v) :=
  C.suppress false (C.assignment hrun hnative v e)

/-! ## Statements -/

/-- Models of includes. -/
def includedModel (path : String) :
    ∀ e : Option Expr, R (TemplateEngine.includedModel m path e)
  | none => C.pure _
  | some e => C.bind (C.evaluate hrun hnative e) fun _ => choice (C.failAt _ _) (C.pure _)

/-- Output of values. -/
def value (v : Value) (p : Position) : R (writeValue v p) :=
  choice (C.pure ()) (C.bind (C.tryView p _) fun t => C.text t)

mutual

/-- Statements. -/
def statement : ∀ s : Stmt, R (s.run m)
  | .text t => C.bind (C.text t) fun _ => C.pure _
  | .output e => C.bind (C.evaluate hrun hnative e) fun v =>
    C.bind (C.value v e.position) fun _ => C.pure _
  | .assign target e => C.bind (C.evaluate hrun hnative e) fun v =>
    C.bind (C.assign hrun hnative target v) fun _ => C.pure _
  | .assignGlobal ref e => C.bind (C.evaluate hrun hnative e) fun v =>
    C.bind (C.write ref v) fun _ => C.pure _
  | .choose bs none => C.bind (branches bs) fun flow =>
    match flow with
    | some _ => C.pure _
    | none => C.pure _
  | .choose bs (some b) => C.bind (branches bs) fun flow =>
    match flow with
    | some _ => C.pure _
    | none => block b
  | .each ref e body none p => C.bind (C.evaluate hrun hnative e) fun _ =>
    C.bind (C.tryView _ _) fun xs =>
    match xs with
    | [] => C.pure _
    | x :: xs => C.each ref.name p (x :: xs) (block body)
  | .each ref e body (some b) p => C.bind (C.evaluate hrun hnative e) fun _ =>
    C.bind (C.tryView _ _) fun xs =>
    match xs with
    | [] => block b
    | x :: xs => C.each ref.name p (x :: xs) (block body)
  | .repeatWhile e body p => C.repeatWhile p (C.evaluate hrun hnative e) (block body)
  | .define _ name _ _ _ => C.bind (C.write name _) fun _ => C.pure _
  | .leave none _ => C.pure _
  | .leave (some e) _ => C.bind (C.evaluate hrun hnative e) fun _ => C.pure _
  | .stop _ => C.pure _
  | .next _ => C.pure _
  | .capture target body =>
    C.bind (C.output (block body)) fun (_, text) =>
    C.bind (C.assign hrun hnative target text) fun _ => C.pure _
  | .include path model p => C.bind (C.evaluate hrun hnative path) fun _ =>
    C.bind (C.tryView _ _) fun name =>
    C.bind (C.primitive (.load name p) (lasting_loadTemplate name p)) fun t =>
    C.bind (C.includedModel hrun hnative name model) fun v =>
    C.bind (C.runIncluded hrun t v p) fun _ => C.pure _

/-- Blocks. -/
def block : ∀ b : List Stmt, R (runBlock m b)
  | [] => C.pure _
  | s :: rest => C.bind (statement s) fun flow =>
    match flow with
    | .normal => block rest
    | .stop | .next | .leave _ => C.pure _

/-- Branches. -/
def branches : ∀ bs : List (Expr × List Stmt), R (runBranches m bs)
  | [] => C.pure _
  | (e, body) :: rest => C.bind (C.evaluate hrun hnative e) fun _ =>
    C.bind (C.inStore _) fun _ =>
    choice (C.bind (block body) fun _ => C.pure _) (branches rest)

end

/-! ## Templates -/

/-- Templates. -/
def render (t : Template) (model : Value) : R (t.render m model) :=
  choice (C.bind (C.newMap .empty) fun v => C.rendering _ v (C.block hrun hnative t.body))
    (C.rendering _ model (C.block hrun hnative t.body))

/-- Templates that are loaded first. -/
def renderPath (path : String) (model : Value) : R (TemplateEngine.renderPath m path model) :=
  C.bind (C.primitive (.load path .unknown) (lasting_loadTemplate path .unknown)) fun t =>
    C.render hrun hnative t model

end Composition

end TemplateEngine
