import TemplateEngine.Proofs.Control.Placement
import TemplateEngine.Proofs.Evaluation.Congruence

/-!
# Loop controls as exits

A second way to run bodies, in which a `break` or a `continue` says which loop it is for. It is an
exit that carries the number of a loop: the loops around a place are numbered from the outermost one
on, afresh in each function body, so the number is known from the source (`Block.exiting`). An exit
leaves everything on its way, and a loop heeds only the exits with its own number. A `return` is an
exit that no loop heeds. Where no control is stray, bodies run like this as they run with flows
(`runBlock_runsAs`).
-/

namespace TemplateEngine

open TemplateEngine.Action

/-! ## Actions that do the same -/

/-- The outcomes are of one kind, and results are related. -/
inductive Outcome.Related {α β : Type} (R : α → β → Prop) : Outcome α → Outcome β → Prop
  | ok {a : α} {b : β} : R a b → Related R (.ok a) (.ok b)
  | error (e : EvalError) : Related R (.error e) (.error e)
  | outOfFuel : Related R .outOfFuel .outOfFuel

/-- The actions do the same to every context, and what they give is related. -/
def Action.Matches {α β : Type} (R : α → β → Prop) (x : Action α) (y : Action β) : Prop :=
  ∀ c, Outcome.Related R (x c).1 (y c).1 ∧ (x c).2 = (y c).2

namespace Action.Matches

variable {α β γ δ : Type} {R : α → β → Prop} {S : γ → δ → Prop}

protected theorem refl (x : Action α) : Matches Eq x x := by
  intro c
  refine ⟨?_, rfl⟩
  cases (x c).1 with
  | ok a => exact .ok rfl
  | error e => exact .error e
  | outOfFuel => exact .outOfFuel

protected theorem pure {a : α} {b : β} (h : R a b) : Matches R (pure a) (pure b) :=
  fun _ => ⟨.ok h, rfl⟩

theorem bind {x : Action α} {y : Action β} {f : α → Action γ} {g : β → Action δ}
    (hx : Matches R x y) (hf : ∀ a b, R a b → Matches S (f a) (g b)) :
    Matches S (x >>= f) (y >>= g) := by
  intro c
  obtain ⟨hr, hd⟩ := hx c
  rcases hxc : x c with ⟨r, d⟩
  rcases hyc : y c with ⟨r', d'⟩
  rw [hxc, hyc] at hr hd
  obtain rfl : d = d' := hd
  cases hr with
  | ok h =>
    rw [bind_of_ok hxc, bind_of_ok hyc]
    exact hf _ _ h d
  | error e =>
    rw [bind_of_error hxc, bind_of_error hyc]
    exact ⟨.error e, rfl⟩
  | outOfFuel =>
    rw [bind_of_outOfFuel hxc, bind_of_outOfFuel hyc]
    exact ⟨.outOfFuel, rfl⟩

/-- Both go on from the same result. -/
theorem after (x : Action α) {f : α → Action γ} {g : α → Action δ}
    (hf : ∀ a, Matches S (f a) (g a)) : Matches S (x >>= f) (x >>= g) :=
  .bind (.refl x) fun a _ h => h ▸ hf a

/-- What is opened for both is closed for both, and what it held is the same. -/
theorem between (opening : Action Unit) (closing : Action γ) {x : Action α} {y : Action β}
    (h : Matches R x y) :
    Matches (fun p q => R p.1 q.1 ∧ p.2 = q.2) (between opening closing x)
      (between opening closing y) := by
  intro c
  unfold Action.between
  rcases opening c with ⟨u | e | _, d⟩
  · obtain ⟨hr, hd⟩ := h d
    rcases hx : x d with ⟨r, c'⟩
    rcases hy : y d with ⟨r', d'⟩
    rw [hx, hy] at hr hd
    obtain rfl : c' = d' := hd
    cases hr with
    | ok hab =>
      simp only [hx, hy]
      rcases closing c' with ⟨v | e | _, e'⟩
      · exact ⟨.ok ⟨hab, rfl⟩, rfl⟩
      · exact ⟨.error e, rfl⟩
      · exact ⟨.outOfFuel, rfl⟩
    | error e =>
      simp only [hx, hy]
      exact ⟨.error e, trivial⟩
    | outOfFuel =>
      simp only [hx, hy]
      exact ⟨.outOfFuel, trivial⟩
  · exact ⟨.error e, rfl⟩
  · exact ⟨.outOfFuel, rfl⟩

/-- The actions are inside of the same region, of which nothing is kept. -/
theorem around (r : Region) (opening : Action Unit) {x : Action α} {y : Action β}
    (h : Matches R x y) : Matches R (r.around opening x) (r.around opening y) :=
  .bind (h.between opening r.close) fun _ _ hab => .pure hab.1

end Action.Matches

/-! ## Exits -/

/-- How a part of a body is left before its end. -/
inductive Exit
  /-- The loop of this number ends. -/
  | stop (loop : Nat)
  /-- This round of the loop of this number ends. -/
  | next (loop : Nat)
  /-- The body ends, with this value. -/
  | leave (value : Option Value)

namespace Exit

/-- The exit ends the loop of this number. -/
def stops (loop : Nat) : Exit → Bool
  | .stop k => k = loop
  | .next _ | .leave _ => false

/-- The exit ends a round of the loop of this number. -/
def skips (loop : Nat) : Exit → Bool
  | .next k => k = loop
  | .stop _ | .leave _ => false

/-- Work that can be left early. -/
abbrev Work := ExceptT Exit Action

/-- Work that is never left early. -/
def straight {α : Type} (x : Action α) : Work α := ExceptT.lift x

/-- Goes on behind the work after an exit that is heeded here. -/
def heeding (heeded : Exit → Bool) (x : Work Unit) : Work Unit :=
  ExceptT.mk do
    let r ← x.run
    match r with
    | .error e => if heeded e then pure (.ok ()) else pure (.error e)
    | .ok () => pure (.ok ())

/-- A round of the loop of this number: it is counted and prepared, and its body runs. -/
def round (loop : Nat) (prepare : Action Unit) (body : Work Unit) : Work Unit := do
  straight stepLoop
  straight prepare
  heeding (skips loop) body

/-- Rounds over items in the loop of this number. -/
def eachRound (loop : Nat) (name : String) (length : Nat) (body : Work Unit) :
    List (Value × Nat) → Work Unit
  | [] => pure ()
  | item :: rest => do
    round loop (Machine.bindRound name length item) body
    eachRound loop name length body rest

/-- Rounds under a condition in the loop of this number, no more than a number of them. -/
def repeatRound (loop : Nat) (condition : Action Value) (body : Work Unit) : Nat → Work Unit
  | 0 => straight outOfFuel
  | n + 1 => do
    let v ← straight condition
    let holds ← straight (inStore fun s => s.isTruthy v)
    if holds then
      round loop (pure ()) body
      repeatRound loop condition body n
    else pure ()

/-- Rounds under a condition in the loop of this number, bounded by the rounds that are left. -/
def whileRounds (loop : Nat) (condition : Action Value) (body : Work Unit) : Work Unit :=
  ExceptT.mk fun c =>
    (repeatRound loop condition body (c.limits.loops - c.scopes.iterations + 1)).run c

/-- The loop of this number, with the names of the loop around it. -/
def inLoop (loop : Nat) (p : Position) (rounds : Work Unit) : Work Unit :=
  ExceptT.mk <| Region.loop.around (enterLoop p) do
    inheritLoop
    (heeding (stops loop) rounds).run

/-- Text that is captured; an exit leaves only after the text has been assigned. -/
def capturing (assign : Value → Action Unit) (body : Work Unit) : Work Unit :=
  ExceptT.mk do
    let (r, text) ← Region.output.holding pushOutput body.run
    assign text
    pure r

end Exit

open Exit in
mutual

/-- Runs a statement that stands in so many loops of its function. -/
def Stmt.exiting (m : Machine) (depth : Nat) : Stmt → Work Unit
  | .choose branches otherwise => do
    let taken ← branchesExiting m depth branches
    if taken then pure ()
    else
      match otherwise with
      | none => pure ()
      | some block => blockExiting m depth block
  | .each ref items body otherwise p => do
    let v ← straight (items.evaluate m)
    let xs ← straight (tryView items.position fun s => s.iterationItems v)
    match xs with
    | [] =>
      match otherwise with
      | none => pure ()
      | some block => blockExiting m depth block
    | xs =>
      inLoop (depth + 1) p <|
        eachRound (depth + 1) ref.name xs.length (blockExiting m (depth + 1) body) xs.zipIdx
  | .repeatWhile condition body p =>
    inLoop (depth + 1) p <|
      whileRounds (depth + 1) (condition.evaluate m) (blockExiting m (depth + 1) body)
  | .leave none _ => throw (.leave none)
  | .leave (some e) _ => do
    let v ← straight (e.evaluate m)
    throw (.leave (some v))
  | .stop _ => throw (.stop depth)
  | .next _ => throw (.next depth)
  | .capture target body => capturing (target.assign m) (blockExiting m depth body)
  | s => do
    let _ ← straight (s.run m)

/-- Runs statements that stand in so many loops of their function. -/
def blockExiting (m : Machine) (depth : Nat) : List Stmt → Work Unit
  | [] => pure ()
  | s :: rest => do
    s.exiting m depth
    blockExiting m depth rest

/-- Runs the body of the first branch whose condition holds, and says if there is one. -/
def branchesExiting (m : Machine) (depth : Nat) : List (Expr × List Stmt) → Work Bool
  | [] => pure false
  | (condition, body) :: rest => do
    let v ← straight (condition.evaluate m)
    let holds ← straight (inStore fun s => s.isTruthy v)
    if holds then do
      blockExiting m depth body
      pure true
    else branchesExiting m depth rest

end

/-! ## Both ways of running -/

/-- The flow and the exit of a part that stands in so many loops are the same. Only where there is a
loop around can there be an exit of a loop, and it is one of the innermost. -/
inductive Exit.Means (depth : Nat) : Flow → Except Exit Unit → Prop
  | normal : Means depth .normal (.ok ())
  | stop : 0 < depth → Means depth .stop (.error (.stop depth))
  | next : 0 < depth → Means depth .next (.error (.next depth))
  | leave (value : Option Value) : Means depth (.leave value) (.error (.leave value))

namespace Exit

variable {depth : Nat}

/-- The action runs as the work does. -/
abbrev RunsAs (depth : Nat) (x : Action Flow) (y : Work Unit) : Prop :=
  x.Matches (Means depth) y.run

theorem RunsAs.pure : RunsAs depth (Pure.pure .normal) (Pure.pure ()) :=
  Action.Matches.pure .normal

theorem RunsAs.after {α : Type} (x : Action α) {f : α → Action Flow} {g : α → Work Unit}
    (h : ∀ a, RunsAs depth (f a) (g a)) : RunsAs depth (x >>= f) (straight x >>= g) := by
  have hrun : (straight x >>= g).run = x >>= fun a => (g a).run := ExceptT.run_bind_lift x g
  rw [RunsAs, hrun]
  exact .after x h

/-- What stands behind a part runs only if the part was not left. -/
theorem RunsAs.andThen {x y : Action Flow} {a b : Work Unit} (h : RunsAs depth x a)
    (k : RunsAs depth y b) :
    RunsAs depth (x >>= fun flow => match flow with
      | .normal => y
      | flow => Pure.pure flow) (a >>= fun _ => b) := by
  rw [RunsAs, ExceptT.run_bind]
  refine .bind h ?_
  intro flow r hr
  cases hr with
  | normal => exact k
  | stop hpos => exact .pure (.stop hpos)
  | next hpos => exact .pure (.next hpos)
  | leave v => exact .pure (.leave v)

/-- A statement that never leaves anything. -/
theorem RunsAs.plain {x : Action Flow} (h : x = x >>= fun _ => Pure.pure .normal) :
    RunsAs depth x (straight x >>= fun _ => Pure.pure ()) := by
  have hafter : RunsAs depth (x >>= fun _ => Pure.pure .normal)
      (straight x >>= fun _ => Pure.pure ()) := RunsAs.after x fun _ => RunsAs.pure
  rwa [← h] at hafter

/-! ### Loops -/

/-- The flow that a loop ends with and the exit from its rounds are the same. An exit of the loop
itself has not been heeded yet. -/
inductive EndsWith (depth : Nat) : Flow → Except Exit Unit → Prop
  | normal : EndsWith depth .normal (.ok ())
  | stop : EndsWith depth .normal (.error (.stop (depth + 1)))
  | leave (value : Option Value) : EndsWith depth (.leave value) (.error (.leave value))

/-- After a round either the rounds go on, or the loop ends. -/
theorem RunsAs.round {x : Action Flow} {y : Work Unit} (h : RunsAs (depth + 1) x y)
    (prepare : Action Unit) {f : Action Flow} {g : Work Unit}
    (k : f.Matches (EndsWith depth) g.run) :
    Action.Matches (EndsWith depth)
      (Machine.countedRound prepare x >>= fun flow => match flow.endsLoop with
        | none => f
        | some flow => Pure.pure flow)
      (Exit.round (depth + 1) prepare y >>= fun _ => g).run := by
  have hround : (Exit.round (depth + 1) prepare y >>= fun _ => g).run =
      stepLoop >>= fun _ => prepare >>= fun _ =>
        (heeding (skips (depth + 1)) y >>= fun _ => g).run := by
    simp only [Exit.round, straight, bind_assoc, ExceptT.run_bind_lift]
  rw [hround]
  simp only [Machine.countedRound, bind_assoc]
  refine .after stepLoop fun _ => .after prepare fun _ => ?_
  simp only [ExceptT.run_bind, heeding, ExceptT.run_mk, bind_assoc]
  refine .bind h ?_
  intro flow r hr
  cases hr with
  | normal => exact k
  | stop hpos =>
    have hskips : skips (depth + 1) (.stop (depth + 1)) = false := rfl
    simp only [hskips, Bool.false_eq_true, if_false, pure_bind]
    exact .pure .stop
  | next hpos =>
    have hskips : skips (depth + 1) (.next (depth + 1)) = true := by simp [skips]
    simp only [hskips, if_true, pure_bind]
    exact k
  | leave v =>
    have hskips : skips (depth + 1) (.leave v) = false := rfl
    simp only [hskips, Bool.false_eq_true, if_false, pure_bind]
    exact .pure (.leave v)

theorem RunsAs.eachRound {x : Action Flow} {y : Work Unit} (h : RunsAs (depth + 1) x y)
    (name : String) (length : Nat) (items : List (Value × Nat)) :
    Action.Matches (EndsWith depth)
      (Machine.eachRound (Machine.eachBody name length x) items)
      (Exit.eachRound (depth + 1) name length y items).run := by
  induction items with
  | nil => exact Action.Matches.pure .normal
  | cons item rest ih =>
    rw [Machine.eachRound_cons, Machine.eachBody_eq, bind_assoc]
    simp only [pure_bind]
    exact h.round _ ih

theorem RunsAs.repeatRound {x : Action Flow} {y : Work Unit} (h : RunsAs (depth + 1) x y)
    (condition : Action Value) (bound : Nat) :
    Action.Matches (EndsWith depth)
      (Machine.repeatRound (Machine.whileBody condition x) bound)
      (Exit.repeatRound (depth + 1) condition y bound).run := by
  induction bound with
  | zero => exact fun c => ⟨.outOfFuel, rfl⟩
  | succ n ih =>
    rw [Machine.repeatRound_succ]
    nth_rewrite 1 [Machine.whileBody_eq]
    simp only [Exit.repeatRound, straight, ExceptT.run_bind_lift, bind_assoc]
    refine .after condition fun v => .after _ fun holds => ?_
    cases holds with
    | false => exact Action.Matches.pure .normal
    | true =>
      simp only [if_true, bind_assoc, pure_bind]
      exact h.round _ ih

theorem RunsAs.whileRounds {x : Action Flow} {y : Work Unit} (h : RunsAs (depth + 1) x y)
    (condition : Action Value) :
    Action.Matches (EndsWith depth) (Machine.whileRounds condition x)
      (Exit.whileRounds (depth + 1) condition y).run :=
  fun c => h.repeatRound condition _ c

/-- A loop heeds what its rounds left it with. -/
theorem RunsAs.inLoop {rounds : Action Flow} {work : Work Unit}
    (h : rounds.Matches (EndsWith depth) work.run) (p : Position) :
    RunsAs depth (Machine.inLoop p rounds) (Exit.inLoop (depth + 1) p work) := by
  refine .around _ _ (.after inheritLoop fun _ => ?_)
  have hbind : rounds = rounds >>= Pure.pure := (bind_pure rounds).symm
  rw [hbind]
  refine .bind h ?_
  intro flow r hr
  cases hr with
  | normal => exact .pure .normal
  | stop =>
    have hstops : stops (depth + 1) (.stop (depth + 1)) = true := by simp [stops]
    simp only [hstops, if_true]
    exact .pure .normal
  | leave v => exact .pure (.leave v)

theorem RunsAs.capturing {x : Action Flow} {y : Work Unit} (h : RunsAs depth x y)
    (assign : Value → Action Unit) :
    RunsAs depth (do
      let (flow, text) ← Region.output.holding pushOutput x
      assign text
      Pure.pure flow) (Exit.capturing assign y) := by
  refine .bind (h.between _ _) ?_
  rintro ⟨flow, text⟩ ⟨r, text'⟩ ⟨hr, htext⟩
  obtain rfl : text = text' := htext
  exact .after (assign text) fun _ => .pure hr

/-- What has been decided about the branches of a choice is the same. -/
inductive Takes (depth : Nat) : Option Flow → Except Exit Bool → Prop
  | none : Takes depth none (.ok false)
  | ended : Takes depth (some .normal) (.ok true)
  | left {flow : Flow} {e : Exit} : Means depth flow (.error e) → Takes depth (some flow) (.error e)

/-- The block behind the branches runs if none of them was taken. -/
theorem RunsAs.choice {branches : Action (Option Flow)} {work : Work Bool} {otherwise : Action Flow}
    {other : Work Unit} (h : branches.Matches (Takes depth) work.run)
    (k : RunsAs depth otherwise other) :
    RunsAs depth (branches >>= fun flow => match flow with
      | some flow => Pure.pure flow
      | .none => otherwise)
      (work >>= fun taken => if taken then Pure.pure () else other) := by
  rw [RunsAs, ExceptT.run_bind]
  refine .bind h ?_
  intro flow r hr
  cases hr with
  | none => exact k
  | ended => exact .pure .normal
  | left hleft => exact .pure hleft

end Exit

/-! ### Statements -/

open Exit

mutual

/-- A statement without stray controls runs as it does with exits. -/
theorem Stmt.runsAs (m : Machine) (depth : Nat) : ∀ s : Stmt,
    s.strayControl? (decide (0 < depth)) = none → RunsAs depth (s.run m) (s.exiting m depth)
  | .text content, _ => .plain (by simp only [Stmt.run, bind_assoc, pure_bind])
  | .output value, _ => .plain (by simp only [Stmt.run, bind_assoc, pure_bind])
  | .assign target value, _ => .plain (by simp only [Stmt.run, bind_assoc, pure_bind])
  | .assignGlobal ref value, _ => .plain (by simp only [Stmt.run, bind_assoc, pure_bind])
  | .define identity name params body p, _ =>
    .plain (by simp only [Stmt.run, bind_assoc, pure_bind])
  | .include path model p, _ => .plain (by simp only [Stmt.run, bind_assoc, pure_bind])
  | .leave none _, _ => Action.Matches.pure (.leave none)
  | .leave (some e) _, _ => .after (e.evaluate m) fun v => Action.Matches.pure (.leave (some v))
  | .stop p, h => by
    have hpos : 0 < depth := by simpa [Stmt.strayControl?, Nat.pos_iff_ne_zero] using h
    exact Action.Matches.pure (.stop hpos)
  | .next p, h => by
    have hpos : 0 < depth := by simpa [Stmt.strayControl?, Nat.pos_iff_ne_zero] using h
    exact Action.Matches.pure (.next hpos)
  | .capture target body, h => (block_runsAs m depth body h).capturing (target.assign m)
  | .repeatWhile condition body p, h => by
    have hbody := block_runsAs m (depth + 1) body h
    exact .inLoop (hbody.whileRounds (condition.evaluate m)) p
  | .each ref items body none p, h => by
    simp only [Stmt.strayControl?, Option.or_none] at h
    refine .after (items.evaluate m) fun v => .after _ fun xs => ?_
    cases xs with
    | nil => exact .pure
    | cons x rest =>
      exact .inLoop ((block_runsAs m (depth + 1) body h).eachRound ref.name _ _) p
  | .each ref items body (some block) p, h => by
    simp only [Stmt.strayControl?, Option.or_eq_none_iff] at h
    refine .after (items.evaluate m) fun v => .after _ fun xs => ?_
    cases xs with
    | nil => exact block_runsAs m depth block h.2
    | cons x rest =>
      exact .inLoop ((block_runsAs m (depth + 1) body h.1).eachRound ref.name _ _) p
  | .choose branches none, h => by
    simp only [Stmt.strayControl?, Option.or_none] at h
    exact .choice (branches_runsAs m depth branches h) .pure
  | .choose branches (some block), h => by
    simp only [Stmt.strayControl?, Option.or_eq_none_iff] at h
    exact .choice (branches_runsAs m depth branches h.1) (block_runsAs m depth block h.2)

/-- A block without stray controls runs as it does with exits. -/
theorem block_runsAs (m : Machine) (depth : Nat) : ∀ b : List Stmt,
    strayControl? (decide (0 < depth)) b = none →
      RunsAs depth (runBlock m b) (blockExiting m depth b)
  | [], _ => .pure
  | s :: rest, h => by
    simp only [strayControl?, Option.or_eq_none_iff] at h
    exact (s.runsAs m depth h.1).andThen (block_runsAs m depth rest h.2)

theorem branches_runsAs (m : Machine) (depth : Nat) : ∀ bs : List (Expr × List Stmt),
    strayInBranches? (decide (0 < depth)) bs = none →
      (runBranches m bs).Matches (Takes depth) (branchesExiting m depth bs).run
  | [], _ => .pure .none
  | (condition, body) :: rest, h => by
    simp only [strayInBranches?, Option.or_eq_none_iff] at h
    simp only [runBranches, branchesExiting, straight, ExceptT.run_bind_lift]
    refine .after _ fun v => .after _ fun holds => ?_
    cases holds with
    | false => exact branches_runsAs m depth rest h.2
    | true =>
      simp only [if_true, ExceptT.run_bind]
      refine .bind (block_runsAs m depth body h.1) ?_
      intro flow r hr
      cases hr with
      | normal => exact .pure .ended
      | stop hpos => exact .pure (.left (.stop hpos))
      | next hpos => exact .pure (.left (.next hpos))
      | leave v => exact .pure (.left (.leave v))

end

end TemplateEngine
