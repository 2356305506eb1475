import TemplateEngine.Proofs.Includes.Sources
import TemplateEngine.Proofs.Suppression.Outermost

/-!
# Where includes are written

Here statements are run with the template in whose body they stand, their home, and an include
resolves its path against the home of the statement, whatever the stack of sources says
(`Stmt.runIn`, `loadFrom`). The body of a template has that template as its home. The body of a
function has no home of its own: it is run in the template that is being rendered when the function
is called (`Homes.calls`). Running in this way is running (`includes_resolve_at_home`). So an
include outside of functions resolves where it is written; one in a function resolves where the call
is under way, even if the function came from another template (`function_includes_where_called`).
-/

namespace TemplateEngine

open TemplateEngine.Action

/-! ## Running at home -/

/-- Loads the template that a path stands for, as written in another template. -/
def loadFrom (home : Option String) (path : String) (p : Position) : Action Template := do
  let c ← view id
  match c.loader with
  | none => failAt p (.load path .noLoader)
  | some loader =>
    match loader.resolve path home with
    | .error e => failAt p (.load path e)
    | .ok name =>
      match c.templates.get? name with
      | some t => pure t
      | none =>
        match loader.load name c.options with
        | .error e => failAt p (.load path e)
        | .ok t =>
          let t ← identify t
          modify fun c => { c with templates := c.templates.insert name t }
          pure t

/-- What evaluation asks for where it leaves the syntax, with the home that a body is run in. -/
structure Homes where
  run : Option String → Block → Action Flow
  native : Native → List Value → Position → Action Value

namespace Homes

/-- The bodies are run in this home. -/
def «at» (h : Homes) (home : Option String) : Machine := ⟨h.run home, h.native⟩

/-- The bodies of functions are run in the template that is being rendered when they are called. -/
def calls (h : Homes) : Machine := ⟨fun b c => h.run c.source? b c, h.native⟩

end Homes

mutual

/-- Runs a statement that stands in the body of a template. -/
def Stmt.runIn (h : Homes) (home : Option String) : Stmt → Action Flow
  | .text content => do
    writeText content
    pure .normal
  | .output value => do
    let v ← value.evaluate h.calls
    writeValue v value.position
    pure .normal
  | .assign target value => do
    let v ← value.evaluate h.calls
    target.assign h.calls v
    pure .normal
  | .assignGlobal ref value => do
    let v ← value.evaluate h.calls
    writeVariable ref v
    pure .normal
  | .choose branches otherwise => do
    let flow ← runBranchesIn h home branches
    match flow with
    | some flow => pure flow
    | none =>
      match otherwise with
      | none => pure .normal
      | some block => runBlockIn h home block
  | .each ref items body otherwise p => do
    let v ← items.evaluate h.calls
    let xs ← tryView items.position fun s => s.iterationItems v
    match xs with
    | [] =>
      match otherwise with
      | none => pure .normal
      | some block => runBlockIn h home block
    | xs => Machine.forEach ref.name p xs (runBlockIn h home body)
  | .repeatWhile condition body p =>
    Machine.whileLoop p (condition.evaluate h.calls) (runBlockIn h home body)
  | .define identity name params body p => do
    writeVariable name (.function (.defined ⟨identity, name, params, body, p⟩))
    pure .normal
  | .leave none _ => pure (.leave none)
  | .leave (some e) _ => do
    let v ← e.evaluate h.calls
    pure (.leave (some v))
  | .stop _ => pure .stop
  | .next _ => pure .next
  | .capture target body => do
    let (flow, text) ← Region.output.holding pushOutput (runBlockIn h home body)
    target.assign h.calls text
    pure flow
  | .include path model p => do
    let v ← path.evaluate h.calls
    let name ← toText v path.position
    let t ← loadFrom home name p
    let v ← includedModel h.calls name model
    runIncluded (h.at (some t.name)) t v p
    pure .normal

/-- Runs statements in order until one leaves the block. -/
def runBlockIn (h : Homes) (home : Option String) : List Stmt → Action Flow
  | [] => pure .normal
  | s :: rest => do
    let flow ← s.runIn h home
    match flow with
    | .normal => runBlockIn h home rest
    | flow => pure flow

/-- Runs the body of the first branch whose condition holds, if there is one. -/
def runBranchesIn (h : Homes) (home : Option String) :
    List (Expr × List Stmt) → Action (Option Flow)
  | [] => pure none
  | (condition, body) :: rest => do
    let v ← condition.evaluate h.calls
    let holds ← inStore fun s => s.isTruthy v
    if holds then do
      let flow ← runBlockIn h home body
      pure (some flow)
    else runBranchesIn h home rest

end

/-- The homes with so many levels of calls. -/
def homes (host : Host) : Nat → Homes
  | 0 => ⟨fun _ _ => outOfFuel, fun _ _ _ => outOfFuel⟩
  | n + 1 => {
      run := fun home block => runBlockIn (homes host n) home block
      native := fun f args p => host f (homes host n).calls args p }

/-- Renders a template, with that template as the home of its body. -/
def Template.renderIn (h : Homes) (t : Template) (model : Value) : Action String := do
  let model ← if model.isAbsent then onStore fun s => s.newMap .empty else pure model
  let name := if t.name.isEmpty then "<inline>" else t.name
  rendering name (runBlockIn h (some name) t.body) model

/-- Loads a template and renders it. -/
def renderPathIn (h : Homes) (path : String) (model : Value) : Action String := do
  let t ← loadTemplate path .unknown
  t.renderIn h model

/-! ## Running at home is running -/

/-- The second action does the same as the first wherever the home is the template being rendered,
and the first one keeps the sources. -/
structure AtHome (home : Option String) {α : Type} (x y : Action α) : Prop where
  keeps : x.KeepsSources
  same (c : Context) : c.source? = home → x c = y c

namespace AtHome

variable {α β : Type} {home : Option String} {x y : Action α}

theorem refl (h : x.KeepsSources) : AtHome home x x := ⟨h, fun _ _ => rfl⟩

theorem bind {f g : α → Action β} (hx : AtHome home x y) (hf : ∀ a, AtHome home (f a) (g a)) :
    AtHome home (x >>= f) (y >>= g) where
  keeps := hx.keeps.bind fun a => (hf a).keeps
  same c hc := by
    have hsources := hx.keeps c
    rw [bind_apply, bind_apply, ← hx.same c hc]
    rcases h : x c with ⟨a | e | _, d⟩
    · rw [h] at hsources
      exact (hf a).same d ((congrArg List.head? hsources).trans hc)
    · rfl
    · rfl

theorem ite {p : Prop} [Decidable p] {a b : Action α} (hx : AtHome home x y)
    (ha : AtHome home a b) : AtHome home (if p then x else a) (if p then y else b) := by
  split
  · exact hx
  · exact ha

theorem congr {x' y' : Action α} (hx : x' = x) (hy : y' = y) (h : AtHome home x y) :
    AtHome home x' y' := by
  rw [hx, hy]
  exact h

theorem first {x y : Action (α × Value)} (h : AtHome home x y) :
    AtHome home (x >>= fun r => pure r.1) (y >>= fun r => pure r.1) :=
  h.bind fun _ => .refl (.pure _)

/-- The bodies of a region do the same if they do so in what its opening leaves behind. -/
theorem holding_same {r : Region} {opening : Action Unit} {c : Context}
    (h : x (opening c).2 = y (opening c).2) :
    r.holding opening x c = r.holding opening y c := by
  unfold Region.holding between
  rcases ho : opening c with ⟨u | e | _, d⟩
  · rw [ho] at h
    dsimp only at h ⊢
    rw [h]
  · rfl
  · rfl

theorem holding {r : Region} (hr : r ≠ .source) {opening : Action Unit}
    (ho : opening.KeepsSources) (h : AtHome home x y) :
    AtHome home (r.holding opening x) (r.holding opening y) where
  keeps := Region.keepsSources_holding hr ho h.keeps
  same c hc := holding_same (h.same _ ((congrArg List.head? (ho c)).trans hc))

/-- A template that is put on the stack is the home of what runs then. -/
theorem source (name : String) (h : AtHome (some name) x y) :
    AtHome home (Region.source.holding (pushSource name) x)
      (Region.source.holding (pushSource name) y) where
  keeps := Region.keepsSources_source name h.keeps
  same c _ := by
    by_cases hname : name.isEmpty = true
    · have ho : pushSource name c = (.error (.usage .sourceNameMissing), c) := by
        simp [pushSource, hname, misuse, fail]
      unfold Region.holding between
      rw [ho]
    · refine holding_same (h.same _ ?_)
      simp [pushSource, hname, Action.modify, Context.source?]

/-! ### Loops -/

variable {f g : Action Flow}

theorem inLoop (p : Position) (h : AtHome home f g) :
    AtHome home (Machine.inLoop p f) (Machine.inLoop p g) :=
  first <| holding (by decide) (keepsSources_enterLoop p) <|
    bind (.refl quiet_inheritLoop.keepsSources) fun _ => h

theorem countedRound {prepare : Action Unit} (hp : prepare.Quiet) (h : AtHome home f g) :
    AtHome home (Machine.countedRound prepare f) (Machine.countedRound prepare g) :=
  bind (.refl keepsSources_stepLoop) fun _ => bind (.refl hp.keepsSources) fun _ => h

theorem eachRound {f g : α → Action (Option Flow)} (h : ∀ a, AtHome home (f a) (g a)) :
    ∀ items : List α, AtHome home (Machine.eachRound f items) (Machine.eachRound g items)
  | [] => .refl fun _ => rfl
  | a :: rest => congr (Machine.eachRound_cons f a rest) (Machine.eachRound_cons g a rest) <|
    bind (h a) fun
      | none => eachRound h rest
      | some _ => .refl (.pure _)

theorem repeatRound {x y : Action (Option Flow)} (h : AtHome home x y) :
    ∀ bound : Nat, AtHome home (Machine.repeatRound x bound) (Machine.repeatRound y bound)
  | 0 => .refl fun _ => rfl
  | n + 1 => congr (Machine.repeatRound_succ x n) (Machine.repeatRound_succ y n) <|
    bind h fun
      | none => repeatRound h n
      | some _ => .refl (.pure _)

theorem forEach (name : String) (p : Position) (items : List Value) (h : AtHome home f g) :
    AtHome home (Machine.forEach name p items f) (Machine.forEach name p items g) :=
  inLoop p <| eachRound (fun item =>
    congr (Machine.eachBody_eq name _ f item) (Machine.eachBody_eq name _ g item) <|
      bind (countedRound (Machine.quiet_bindRound name _ item) h) fun _ => .refl (.pure _)) _

theorem whileLoop (p : Position) {condition : Action Value} (hc : condition.KeepsSources)
    (h : AtHome home f g) :
    AtHome home (Machine.whileLoop p condition f) (Machine.whileLoop p condition g) := by
  have hround : AtHome home (Machine.whileBody condition f) (Machine.whileBody condition g) :=
    congr (Machine.whileBody_eq condition f) (Machine.whileBody_eq condition g) <|
      bind (.refl hc) fun v => bind (.refl (Quiet.view _).keepsSources) fun _ =>
        ite (bind (countedRound (.pure ()) h) fun _ => .refl (.pure _)) (.refl (.pure _))
  exact inLoop p ⟨fun c => (repeatRound hround _).keeps c,
    fun c hc => (repeatRound hround _).same c hc⟩

end AtHome

/-- At home, what a path stands for is what it stands for in the home. -/
theorem atHome_loadTemplate (home : Option String) (path : String) (p : Position) :
    AtHome home (loadTemplate path p) (loadFrom home path p) where
  keeps := (quiet_loadTemplate path p).keepsSources
  same c hc := by
    subst hc
    rfl

section

variable {h : Homes} (hm : h.calls.KeepsSources)

include hm

/-- A body that runs in the template that is put on the stack runs there with it as its home. -/
theorem atHome_run (home : Option String) (b : Block) :
    AtHome home (h.calls.run b) ((h.at home).run b) where
  keeps := hm.run b
  same c hc := by
    subst hc
    rfl

theorem atHome_runIncluded (home : Option String) (t : Template) (model : Option Value)
    (p : Position) : AtHome home (runIncluded h.calls t model p)
      (runIncluded (h.at (some t.name)) t model p) := by
  refine .first <| .holding (by decide) (keepsSources_enterFunction p) <| .first <|
    .source t.name ?_
  cases model with
  | none => exact .bind (atHome_run hm _ t.body) fun _ => .refl (.pure _)
  | some v =>
    exact .bind (.first <| .holding (by decide) (keepsSources_pushGlobal v) <|
      atHome_run hm _ t.body) fun _ => .refl (.pure _)

theorem keepsSources_evaluate (e : Expr) : (e.evaluate h.calls).KeepsSources :=
  Congruence.sources.evaluate (n := h.calls) hm.run hm.native e

theorem keepsSources_assign (e : Expr) (v : Value) : (e.assign h.calls v).KeepsSources :=
  Congruence.sources.assign (n := h.calls) hm.run hm.native e v

theorem keepsSources_includedModel (path : String) (model : Option Expr) :
    (includedModel h.calls path model).KeepsSources := by
  cases model with
  | none => exact .pure _
  | some e =>
    refine .bind (keepsSources_evaluate hm e) fun v => ?_
    split
    · exact (Quiet.failAt _ _).keepsSources
    · exact .pure _

/-- An expression is evaluated first. -/
theorem AtHome.evaluated {α : Type} {home : Option String} {f g : Value → Action α} (e : Expr)
    (hf : ∀ v, AtHome home (f v) (g v)) :
    AtHome home (e.evaluate h.calls >>= f) (e.evaluate h.calls >>= g) :=
  .bind (.refl (keepsSources_evaluate hm e)) hf

end

variable {h : Homes}

mutual

/-- Statements, by induction on the syntax: what runs before an include keeps the sources, so that
the home is still the template being rendered there. -/
theorem atHome_statement (hm : h.calls.KeepsSources) (home : Option String) :
    ∀ s : Stmt, AtHome home (s.run h.calls) (s.runIn h home)
  | .text content => .refl (.bind (keepsSources_writeText content) fun _ => .pure _)
  | .output value => .evaluated hm value fun v => .refl <|
    .bind (keepsSources_writeValue v value.position) fun _ => .pure _
  | .assign target value => .evaluated hm value fun v => .refl <|
    .bind (keepsSources_assign hm target v) fun _ => .pure _
  | .assignGlobal ref value => .evaluated hm value fun v => .refl <|
    .bind (quiet_writeVariable ref v).keepsSources fun _ => .pure _
  | .choose branches none => .bind (atHome_branches hm home branches) fun
    | some _ => .refl (.pure _)
    | none => .refl (.pure _)
  | .choose branches (some block) => .bind (atHome_branches hm home branches) fun
    | some _ => .refl (.pure _)
    | none => atHome_block hm home block
  | .each ref items body none p => .evaluated hm items fun v =>
    .bind (.refl (Quiet.tryView _ _).keepsSources) fun
    | [] => .refl (.pure _)
    | x :: xs => .forEach ref.name p (x :: xs) (atHome_block hm home body)
  | .each ref items body (some block) p => .evaluated hm items fun v =>
    .bind (.refl (Quiet.tryView _ _).keepsSources) fun
    | [] => atHome_block hm home block
    | x :: xs => .forEach ref.name p (x :: xs) (atHome_block hm home body)
  | .repeatWhile condition body p =>
    .whileLoop p (keepsSources_evaluate hm condition) (atHome_block hm home body)
  | .define _ name _ _ _ =>
    .refl (.bind (quiet_writeVariable name _).keepsSources fun _ => .pure _)
  | .leave none _ => .refl (.pure _)
  | .leave (some e) _ => .evaluated hm e fun _ => .refl (.pure _)
  | .stop _ => .refl (.pure _)
  | .next _ => .refl (.pure _)
  | .capture target body =>
    .bind (.holding (by decide) keepsSources_pushOutput (atHome_block hm home body)) fun r =>
      .refl <| .bind (keepsSources_assign hm target r.2) fun _ => .pure _
  | .include path model p => .evaluated hm path fun v =>
    .bind (.refl (quiet_toText v path.position).keepsSources) fun name =>
    .bind (atHome_loadTemplate home name p) fun t =>
    .bind (.refl (keepsSources_includedModel hm name model)) fun v =>
    .bind (atHome_runIncluded hm home t v p) fun _ => .refl (.pure _)

theorem atHome_block (hm : h.calls.KeepsSources) (home : Option String) :
    ∀ b : List Stmt, AtHome home (runBlock h.calls b) (runBlockIn h home b)
  | [] => .refl (.pure _)
  | s :: rest => .bind (atHome_statement hm home s) fun
    | .normal => atHome_block hm home rest
    | .stop => .refl (.pure _)
    | .next => .refl (.pure _)
    | .leave _ => .refl (.pure _)

theorem atHome_branches (hm : h.calls.KeepsSources) (home : Option String) :
    ∀ bs : List (Expr × List Stmt),
      AtHome home (runBranches h.calls bs) (runBranchesIn h home bs)
  | [] => .refl (.pure _)
  | (condition, body) :: rest => .evaluated hm condition fun _ =>
    .bind (.refl (Quiet.view _).keepsSources) fun _ =>
    .ite (.bind (atHome_block hm home body) fun _ => .refl (.pure _)) (atHome_branches hm home rest)

end

/-- Whatever runs, runs in the template that is being rendered, by induction on the levels of
calls. -/
theorem machine_eq_calls {host : Host} (hhost : host.KeepsSources) (n : Nat) :
    machine host n = (homes host n).calls := by
  induction n with
  | zero => rfl
  | succ n ih =>
    have hm : (homes host n).calls.KeepsSources := ih ▸ hhost.machine n
    have hrun : (machine host (n + 1)).run = (homes host (n + 1)).calls.run := by
      funext b c
      change runBlock (machine host n) b c = runBlockIn (homes host n) c.source? b c
      rw [ih]
      exact (atHome_block hm c.source? b).same c rfl
    have hnative : (machine host (n + 1)).native = (homes host (n + 1)).calls.native := by
      funext f args p
      exact congrArg (host f · args p) ih
    exact congr (congrArg Machine.mk hrun) hnative

/-- A function is called as in the template that is being rendered then. -/
theorem atHome_call {h : Homes} (hm : h.calls.KeepsSources) (home : Option String) (f : Function)
    (args : List Value) (p : Position) :
    AtHome home (h.calls.call f args p) ((h.at home).call f args p) := by
  cases f with
  | builtin b => exact .refl (quiet_builtin b args p).keepsSources
  | native f => exact .refl (hm.native f args p)
  | defined d =>
    have hparams : (Machine.bindParams d.params args).KeepsSources :=
      Congruence.sources.bindParams (s := .called) d.params args
    have hbody : AtHome home (Region.output.holding pushOutput (h.calls.run d.body))
        (Region.output.holding pushOutput ((h.at home).run d.body)) :=
      .holding (by decide) keepsSources_pushOutput (atHome_run hm home d.body)
    refine .ite (.refl (Quiet.failAt _ _).keepsSources) <| .first <|
      .holding (by decide) (keepsSources_enterFunction p) <| .bind (.refl hparams) fun _ =>
      .bind hbody fun (flow, _) => .refl ?_
    rcases flow with _ | _ | _ | ⟨_ | _⟩ <;> exact .pure _

/-- A body that is rendered under a name has that name as its home. -/
theorem AtHome.rendering {home : Option String} {x y : Action Flow} (name : String)
    (model : Value) (h : AtHome (some name) x y) :
    AtHome home (TemplateEngine.rendering name x model) (TemplateEngine.rendering name y model) :=
  .first <| .holding (by decide) (keepsSources_pushGlobal model) <|
    .bind (.refl (Quiet.onStore _).keepsSources) fun names =>
    .first <| .holding (by decide) (keepsSources_pushGlobal names) <|
    .first <| .source name <|
    .bind (.holding (by decide) keepsSources_pushOutput h) fun _ => .refl (.pure _)

theorem atHome_render {h : Homes} (hm : h.calls.KeepsSources) (home : Option String)
    (t : Template) (model : Value) :
    AtHome home (t.render h.calls model) (t.renderIn h model) := by
  have hbody (name : String) (v : Value) :
      AtHome home (rendering name (runBlock h.calls t.body) v)
        (rendering name (runBlockIn h (some name) t.body) v) :=
    .rendering name v (atHome_block hm (some name) t.body)
  rw [Template.render_eq]
  unfold Template.renderIn
  dsimp only
  split
  · exact .bind (.refl (Quiet.onStore _).keepsSources) fun v => hbody _ v
  · exact hbody _ model

theorem atHome_renderPath {h : Homes} (hm : h.calls.KeepsSources) (home : Option String)
    (path : String) (model : Value) :
    AtHome home (renderPath h.calls path model) (renderPathIn h path model) :=
  .bind (.refl (quiet_loadTemplate path .unknown).keepsSources) fun t =>
    atHome_render hm home t model

/-! ## Places on a shelf -/

/-- A path stands for the place that it leads to from the directory of the includer, if there is a
source, and otherwise for the place that it leads to from the root. -/
theorem Shelf.resolve_eq_ok_iff {s : Shelf} {path name : String} {includer : Option String} :
    s.resolve path includer = .ok name ↔ s.sources.contains name = true ∧
      ∃ near, Path.join? includer path = some near ∧
        (name = near ∨ s.sources.contains near = false ∧ Path.join? none path = some name) := by
  unfold Shelf.resolve
  cases hnear : Path.join? includer path with
  | none => simp
  | some near =>
    cases hin : s.sources.contains near with
    | true =>
      simp only [if_true, Except.ok.injEq, Option.some.injEq, exists_eq_left', hin,
        Bool.true_eq_false, false_and, or_false]
      exact ⟨fun h => h ▸ ⟨hin, rfl⟩, fun h => h.2.symm⟩
    | false =>
      have hname : s.sources.contains name = true → name ≠ near := by
        rintro h rfl
        rw [hin] at h
        cases h
      cases hfar : Path.join? none path with
      | none => simpa [hin] using hname
      | some far =>
        by_cases hfound : s.sources.contains far = true
        · simp only [hin, hfound, Bool.false_eq_true, if_false, if_true, Except.ok.injEq,
            Option.some.injEq, exists_eq_left', true_and]
          exact ⟨fun h => h ▸ ⟨hfound, .inr rfl⟩,
            fun h => (h.2.resolve_left (hname h.1)).symm ▸ rfl⟩
        · simp only [hin, hfound, Bool.false_eq_true, if_false, Option.some.injEq,
            exists_eq_left', true_and, reduceCtorEq, false_iff]
          rintro ⟨h, rfl | rfl⟩
          · exact hname h rfl
          · exact hfound h

/-! ## Includes -/

/-- Whatever functions are defined where and called in which order: running is running at home. In
the body of a template, an include resolves its path against that template; in the body of a
function, it resolves it against the template that is being rendered when the function is called. On
a shelf, that is the place to which the path leads from the directory of this template, before the
one to which it leads from the root. -/
theorem includes_resolve_at_home {host : Host} (hhost : host.KeepsSources) (n : Nat) :
    let m := machine host n
    let h := homes host n
    (∀ (t : Template) (model : Value), t.render m model = t.renderIn h model) ∧
    (∀ (path : String) (model : Value), renderPath m path model = renderPathIn h path model) ∧
    (∀ (b : Block) (c : Context), runBlock m b c = runBlockIn h c.source? b c) ∧
    (∀ (f : Function) (args : List Value) (p : Position) (c : Context),
      m.call f args p c = (h.at c.source?).call f args p c) ∧
    ∀ (s : Shelf) (home : Option String) (path name : String),
      s.resolve path home = .ok name ↔ s.sources.contains name = true ∧
        ∃ near, Path.join? home path = some near ∧
          (name = near ∨ s.sources.contains near = false ∧ Path.join? none path = some name) := by
  intro m h
  have hmachine : m = h.calls := machine_eq_calls hhost n
  have hm : h.calls.KeepsSources := hmachine ▸ hhost.machine n
  rw [hmachine]
  refine ⟨fun t model => ?_, fun path model => ?_, fun b c => ?_, fun f args p c => ?_,
    fun s home path name => Shelf.resolve_eq_ok_iff⟩
  · funext c
    exact (atHome_render hm c.source? t model).same c rfl
  · funext c
    exact (atHome_renderPath hm c.source? path model).same c rfl
  · exact (atHome_block hm c.source? b).same c rfl
  · exact (atHome_call hm c.source? f args p).same c rfl

/-! ## An instance and its limits -/

theorem Host.applying_keepsSources : Host.applying.KeepsSources := by
  intro f m hm args p
  unfold Host.applying
  split
  · exact Congruence.sources.call (n := m) hm.run hm.native _ _ p
  · exact .pure _

/-- A template that calls a function of another one, which includes a part by a name that there is
in the directory of either. -/
def sharedParts : Shelf :=
  ((((Shelf.empty.insert "main" "\x7b% include 'lib/defs' %\x7d\x7b\x7b f() \x7d\x7d").insert
    "lib/defs" "\x7b% function f() %\x7d\x7b% include 'part' %\x7d\x7b% endfunction %\x7d").insert
    "lib/part" "near").insert "part" "far")

/-- A context over a shelf. -/
def Shelf.context (s : Shelf) : Context :=
  { Settings.standard id with loader := some s.loader }.newContext

theorem sharedParts_resolve_at_home :
    renderPath (machine .applying 3) "main" .null sharedParts.context =
      renderPathIn (homes .applying 3) "main" .null sharedParts.context :=
  congrFun ((includes_resolve_at_home Host.applying_keepsSources 3).2.1 "main" .null) _

/-- The value that an action comes to. -/
def Outcome.value? {α : Type} : Outcome α → Option α
  | .ok a => some a
  | _ => none

/-- The include is written in `lib/defs`, and the part of this name beside it is there, yet the part
beside `main` is taken, from where the function is called. -/
theorem function_includes_where_called :
    sharedParts.resolve "part" (some "lib/defs") = .ok "lib/part" ∧
      sharedParts.sources.get? "lib/part" = some "near" ∧
      (renderPath (machine .none 3) "main" .null sharedParts.context).1.value? = some "far" := by
  refine ⟨rfl, by decide +kernel, by decide +kernel⟩

end TemplateEngine
