import TemplateEngine.Proofs.Evaluation.Congruence
import TemplateEngine.Proofs.Suppression.Outermost

/-!
# Runs within a permit

A permit says of statements which ones may be run. A run within a permit is the run itself, up to
the first statement that may not be run: there it stops, as if it had no level of calls left, be it
in the template, in a function that it calls or in a template that it includes. So a run that comes
to an end within a permit meets no other statements, and it is then the run without one
(`Template.render_covers`); a permit for all statements is none
(`machineWithin_all`).
-/

namespace TemplateEngine

open TemplateEngine.Action

/-! ## Runs -/

/-- Runs what a statement does if the statement may be run. -/
def Stmt.guarded (permit : Stmt → Bool) (s : Stmt) (x : Action Flow) : Action Flow :=
  if permit s then x else outOfFuel

mutual

/-- Runs a statement within a permit. -/
def Stmt.runWithin (permit : Stmt → Bool) (m : Machine) : Stmt → Action Flow
  | .choose branches otherwise => Stmt.guarded permit (.choose branches otherwise) do
    let flow ← runBranchesWithin permit m branches
    match flow with
    | some flow => pure flow
    | none =>
      match otherwise with
      | none => pure .normal
      | some block => runBlockWithin permit m block
  | .each ref items body otherwise p => Stmt.guarded permit (.each ref items body otherwise p) do
    let v ← items.evaluate m
    let xs ← tryView items.position fun s => s.iterationItems v
    match xs with
    | [] =>
      match otherwise with
      | none => pure .normal
      | some block => runBlockWithin permit m block
    | xs => Machine.forEach ref.name p xs (runBlockWithin permit m body)
  | .repeatWhile condition body p => Stmt.guarded permit (.repeatWhile condition body p) <|
    Machine.whileLoop p (condition.evaluate m) (runBlockWithin permit m body)
  | .capture target body => Stmt.guarded permit (.capture target body) do
    let (flow, text) ← Region.output.holding pushOutput (runBlockWithin permit m body)
    target.assign m text
    pure flow
  | s => Stmt.guarded permit s (s.run m)

/-- Runs a block within a permit. -/
def runBlockWithin (permit : Stmt → Bool) (m : Machine) : List Stmt → Action Flow
  | [] => pure .normal
  | s :: rest => do
    let flow ← s.runWithin permit m
    match flow with
    | .normal => runBlockWithin permit m rest
    | flow => pure flow

/-- Runs the first branch whose condition holds within a permit. -/
def runBranchesWithin (permit : Stmt → Bool) (m : Machine) :
    List (Expr × List Stmt) → Action (Option Flow)
  | [] => pure none
  | (condition, body) :: rest => do
    let v ← condition.evaluate m
    let holds ← inStore fun s => s.isTruthy v
    if holds then do
      let flow ← runBlockWithin permit m body
      pure (some flow)
    else runBranchesWithin permit m rest

end

/-- The machine with so many levels of calls, within a permit. -/
def machineWithin (permit : Stmt → Bool) (host : Host) : Nat → Machine
  | 0 => ⟨fun _ => outOfFuel, fun _ _ _ => outOfFuel⟩
  | n + 1 => {
      run := fun block => runBlockWithin permit (machineWithin permit host n) block
      native := fun f args p => host f (machineWithin permit host n) args p }

/-- Renders a template within a permit. -/
def Template.renderWithin (permit : Stmt → Bool) (m : Machine) (t : Template) (model : Value) :
    Action String := do
  let model ← if model.isAbsent then onStore fun s => s.newMap .empty else pure model
  rendering (if t.name.isEmpty then "<inline>" else t.name) (runBlockWithin permit m t.body) model

theorem Template.renderWithin_eq (permit : Stmt → Bool) (m : Machine) (t : Template)
    (model : Value) :
    t.renderWithin permit m model =
      let name := if t.name.isEmpty then "<inline>" else t.name
      if model.isAbsent then
        onStore (fun s => s.newMap .empty) >>= rendering name (runBlockWithin permit m t.body)
      else rendering name (runBlockWithin permit m t.body) model := rfl

/-- Loads a template and renders it within a permit. -/
def renderPathWithin (permit : Stmt → Bool) (m : Machine) (path : String) (model : Value) :
    Action String := do
  let t ← loadTemplate path .unknown
  t.renderWithin permit m model

/-! ## A permit for all statements -/

theorem Stmt.guarded_all (s : Stmt) (x : Action Flow) : s.guarded (fun _ => true) x = x := rfl

mutual

theorem Stmt.runWithin_all (m : Machine) : ∀ s : Stmt, s.runWithin (fun _ => true) m = s.run m
  | .choose bs none => by
    rw [Stmt.runWithin, Stmt.run, Stmt.guarded_all]
    exact runBranchesWithin_all m bs ▸ rfl
  | .choose bs (some b) => by
    rw [Stmt.runWithin, Stmt.run, Stmt.guarded_all]
    exact runBranchesWithin_all m bs ▸ runBlockWithin_all m b ▸ rfl
  | .each _ _ body none _ => by
    rw [Stmt.runWithin, Stmt.run, Stmt.guarded_all]
    exact runBlockWithin_all m body ▸ rfl
  | .each _ _ body (some b) _ => by
    rw [Stmt.runWithin, Stmt.run, Stmt.guarded_all]
    exact runBlockWithin_all m body ▸ runBlockWithin_all m b ▸ rfl
  | .repeatWhile _ body _ => by
    rw [Stmt.runWithin, Stmt.run, Stmt.guarded_all, runBlockWithin_all m body]
  | .capture _ body => by
    rw [Stmt.runWithin, Stmt.run, Stmt.guarded_all]
    exact runBlockWithin_all m body ▸ rfl
  | .text _ | .output _ | .assign _ _ | .assignGlobal _ _ | .define _ _ _ _ _ | .leave _ _
  | .stop _ | .next _ | .include _ _ _ => by simp only [Stmt.runWithin, Stmt.guarded_all]

theorem runBlockWithin_all (m : Machine) :
    ∀ b : List Stmt, runBlockWithin (fun _ => true) m b = runBlock m b
  | [] => rfl
  | s :: rest => by
    rw [runBlockWithin, runBlock]
    exact Stmt.runWithin_all m s ▸ runBlockWithin_all m rest ▸ rfl

theorem runBranchesWithin_all (m : Machine) :
    ∀ bs : List (Expr × List Stmt), runBranchesWithin (fun _ => true) m bs = runBranches m bs
  | [] => rfl
  | (e, body) :: rest => by
    rw [runBranchesWithin, runBranches, runBlockWithin_all m body, runBranchesWithin_all m rest]

end

/-- A permit for all statements is none. -/
theorem machineWithin_all (host : Host) (n : Nat) :
    machineWithin (fun _ => true) host n = machine host n := by
  induction n with
  | zero => rfl
  | succ n ih => simp only [machineWithin, machine, ih, runBlockWithin_all]

theorem Template.renderWithin_all (m : Machine) (t : Template) (model : Value) :
    t.renderWithin (fun _ => true) m model = t.render m model := by
  simp only [renderWithin, runBlockWithin_all]
  rfl

/-! ## Wider permits -/

namespace Action

variable {α β : Type}

/-- The first action does what the second one does, wherever that comes to an end. -/
def Covers (x y : Action α) : Prop := ∀ c, (y c).1 ≠ .outOfFuel → x c = y c

namespace Covers

theorem refl (x : Action α) : x.Covers x := fun _ _ => rfl

theorem bind {x y : Action α} {f g : α → Action β} (h : x.Covers y)
    (hf : ∀ a, (f a).Covers (g a)) : (x >>= f).Covers (y >>= g) := by
  intro c hc
  have hx := h c
  rcases hy : y c with ⟨a | e | _, d⟩ <;> rw [hy] at hx
  · rw [bind_of_ok hy] at hc ⊢
    rw [bind_of_ok (hx nofun)]
    exact hf a d hc
  · rw [bind_of_error hy, bind_of_error (hx nofun)]
  · rw [bind_of_outOfFuel hy] at hc
    exact absurd rfl hc

theorem withSuppression (b : Bool) {x y : Action α} (h : x.Covers y) :
    (withSuppression b x).Covers (withSuppression b y) := by
  intro c hc
  have hx := h { c with suppressed := b } hc
  unfold Action.withSuppression
  rw [hx]

/-- A region is closed when its body comes to an end. -/
theorem holding (r : Region) (opening : Action Unit) {x y : Action α} (h : x.Covers y) :
    (r.holding opening x).Covers (r.holding opening y) := by
  intro c
  unfold Region.holding between
  rcases opening c with ⟨u | e | _, d⟩
  · dsimp only
    intro hc
    have hx := h d
    rcases hy : y d with ⟨a | e | _, d'⟩ <;> rw [hy] at hx hc
    · rw [hx nofun]
    · rw [hx nofun]
    · exact absurd rfl hc
  · exact fun _ => rfl
  · exact fun _ => rfl

theorem repeatRound {x y : Action (Option Flow)} (h : x.Covers y) (bound : Nat) :
    Action.Covers (Machine.repeatRound x bound) (Machine.repeatRound y bound) := by
  induction bound with
  | zero => exact fun _ _ => rfl
  | succ n ih =>
    rw [Machine.repeatRound_succ, Machine.repeatRound_succ]
    refine .bind h fun flow => ?_
    match flow with
    | none => exact ih
    | some flow => exact .refl _

theorem whileBody {a b : Action Value} {x y : Action Flow} (ha : a.Covers b) (h : x.Covers y) :
    (Machine.whileBody a x).Covers (Machine.whileBody b y) :=
  .bind ha fun _ => .bind (.refl _) fun holds => by
    cases holds with
    | false => exact .refl _
    | true => exact .bind (.refl _) fun _ => .bind h fun _ => .refl _

end Covers

end Action

/-- Every construct does what it does with less, wherever that comes to an end. -/
def Congruence.covering : Congruence fun _ _ _ x y => x.Covers y where
  pure _ := .refl _
  bind := .bind
  congr hx hy h := hx ▸ hy ▸ h
  up h := h
  primitive _ := .refl _
  suppress b _ _ h := h.withSuppression b
  text _ := .refl _
  function _ _ _ h := .holding _ _ h
  global _ _ _ h := .holding _ _ h
  source _ _ _ h := .holding _ _ h
  output h := .holding _ _ h
  loop _ _ _ h := .holding _ _ h
  round _ _ _ _ _ h := .bind (.refl _) fun _ => .bind (.refl _) fun _ => h
  whileRounds ha h c := (Action.Covers.whileBody ha h).repeatRound _ c

/-- Whatever the first machine is asked for does what the second one does, wherever that comes to an
end. -/
structure Machine.Covers (m n : Machine) : Prop where
  run (b : Block) : (m.run b).Covers (n.run b)
  native (f : Native) (args : List Value) (p : Position) :
    (m.native f args p).Covers (n.native f args p)

/-- The operations of the host do the same as long as what they ask for comes to an end. -/
def Host.Steady (host : Host) : Prop :=
  ∀ (f : Native) (m n : Machine), m.Covers n → ∀ args p, (host f m args p).Covers (host f n args p)

theorem Host.none_steady : Host.none.Steady := fun _ _ _ _ _ _ => .refl _

theorem Host.applying_steady : Host.applying.Steady := by
  intro f m n h args p
  unfold Host.applying
  split
  · exact Congruence.covering.call h.run h.native _ _ p
  · exact .refl _

variable {permit wider : Stmt → Bool}

theorem Stmt.guarded_covers (hwider : ∀ s, permit s = true → wider s = true) (s : Stmt)
    {x y : Action Flow} (h : x.Covers y) : (s.guarded wider x).Covers (s.guarded permit y) := by
  unfold Stmt.guarded
  cases hs : permit s with
  | true =>
    rw [hwider s hs]
    exact h
  | false => exact fun _ hend => absurd rfl hend

namespace Machine.Covers

variable {m n : Machine}

mutual

/-- Statements, by induction on the syntax. -/
theorem statement (h : m.Covers n) (hwider : ∀ s, permit s = true → wider s = true) :
    ∀ s : Stmt, (s.runWithin wider m).Covers (s.runWithin permit n)
  | .choose bs none => Stmt.guarded_covers hwider _ <| .bind (branches h hwider bs) fun
    | some _ => .refl _
    | none => .refl _
  | .choose bs (some b) => Stmt.guarded_covers hwider _ <| .bind (branches h hwider bs) fun
    | some _ => .refl _
    | none => block h hwider b
  | .each ref e body none p => Stmt.guarded_covers hwider _ <|
    .bind (Congruence.covering.evaluate h.run h.native e) fun _ => .bind (.refl _) fun
    | [] => .refl _
    | x :: xs => Congruence.covering.forEach (s := .here) ref.name p (x :: xs)
      (block h hwider body)
  | .each ref e body (some b) p => Stmt.guarded_covers hwider _ <|
    .bind (Congruence.covering.evaluate h.run h.native e) fun _ => .bind (.refl _) fun
    | [] => block h hwider b
    | x :: xs => Congruence.covering.forEach (s := .here) ref.name p (x :: xs)
      (block h hwider body)
  | .repeatWhile e body p => Stmt.guarded_covers hwider _ <|
    Congruence.covering.whileLoop (s := .here) p
      (Congruence.covering.evaluate h.run h.native e) (block h hwider body)
  | .capture target body => Stmt.guarded_covers hwider _ <|
    .bind (.holding _ _ (block h hwider body)) fun y =>
    .bind (Congruence.covering.assign h.run h.native target y.2) fun _ => .refl _
  | .text _ | .output _ | .assign _ _ | .assignGlobal _ _ | .define _ _ _ _ _ | .leave _ _
  | .stop _ | .next _ | .include _ _ _ =>
    Stmt.guarded_covers hwider _ (Congruence.covering.statement h.run h.native _)

theorem block (h : m.Covers n) (hwider : ∀ s, permit s = true → wider s = true) :
    ∀ b : List Stmt, (runBlockWithin wider m b).Covers (runBlockWithin permit n b)
  | [] => .refl _
  | s :: rest => .bind (statement h hwider s) fun
    | .normal => block h hwider rest
    | .stop => .refl _
    | .next => .refl _
    | .leave _ => .refl _

theorem branches (h : m.Covers n) (hwider : ∀ s, permit s = true → wider s = true) :
    ∀ bs : List (Expr × List Stmt),
      (runBranchesWithin wider m bs).Covers (runBranchesWithin permit n bs)
  | [] => .refl _
  | (e, body) :: rest =>
    .bind (Congruence.covering.evaluate h.run h.native e) fun _ => .bind (.refl _) fun holds =>
    match holds with
    | true => .bind (block h hwider body) fun _ => .refl _
    | false => branches h hwider rest

end

theorem render (h : m.Covers n) (hwider : ∀ s, permit s = true → wider s = true) (t : Template)
    (model : Value) : (t.renderWithin wider m model).Covers (t.renderWithin permit n model) := by
  have hrendering (v : Value) := Congruence.covering.rendering (s := .here)
    (if t.name.isEmpty then "<inline>" else t.name) v (h.block hwider t.body)
  rw [Template.renderWithin_eq, Template.renderWithin_eq]
  exact Congruence.choice (R := fun _ _ _ x y => x.Covers y) (s := .here) (v := .silent)
    (.bind (.refl _) hrendering) (hrendering model)

end Machine.Covers

/-- With a wider permit the same is done, by induction on the levels of calls. -/
theorem Host.Steady.covers {host : Host} (h : host.Steady)
    (hwider : ∀ s, permit s = true → wider s = true) (n : Nat) :
    (machineWithin wider host n).Covers (machineWithin permit host n) := by
  induction n with
  | zero => exact ⟨fun _ => .refl _, fun _ _ _ => .refl _⟩
  | succ n ih => exact ⟨ih.block hwider, fun f args p => h f _ _ ih args p⟩

/-- Without a permit the same is done. -/
theorem Host.Steady.render_covers {host : Host} (h : host.Steady) (permit : Stmt → Bool) (n : Nat)
    (t : Template) (model : Value) :
    (t.render (machine host n) model).Covers
      (t.renderWithin permit (machineWithin permit host n) model) := by
  have hwider : ∀ s, permit s = true → (fun _ : Stmt => true) s = true := fun _ _ => rfl
  rw [← machineWithin_all, ← Template.renderWithin_all]
  exact (h.covers hwider n).render hwider t model

theorem Host.Steady.renderPath_covers {host : Host} (h : host.Steady) (permit : Stmt → Bool)
    (n : Nat) (path : String) (model : Value) :
    (renderPath (machine host n) path model).Covers
      (renderPathWithin permit (machineWithin permit host n) path model) :=
  .bind (.refl _) fun t => h.render_covers permit n t model

end TemplateEngine
