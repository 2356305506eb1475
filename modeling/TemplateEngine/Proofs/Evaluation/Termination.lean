import TemplateEngine.Proofs.Evaluation.Balance

/-!
# Termination

A run never asks for more levels of calls than the context still admits, and a loop never for more
rounds than are left. So there is a number of levels that suffices for a run, and what the run then
does is the same with any greater number (`Action.Agree`). The measure is threefold: the levels go
down where the evaluation leaves the syntax, the rounds that are left go down with each round of a
loop with a condition, and everything else follows the syntax down.
-/

namespace TemplateEngine

/-- The calls that can still be made within each other. -/
def Context.callsLeft (c : Context) : Nat := c.limits.depth - c.scopes.depth

theorem Context.Kept.callsLeft {out : Output → Output → Prop} {c d : Context} (h : c.Kept out d) :
    d.callsLeft = c.callsLeft := by
  rw [Context.callsLeft, Context.callsLeft, h.limits, h.depth]

namespace Action

variable {α β : Type} {n k : Nat} {out : Output → Output → Prop}

/-- Where fewer calls are left than a number, both actions do the same, and they end with a result
or an error. -/
def Agree (n : Nat) (x y : Action α) : Prop :=
  ∀ c : Context, c.callsLeft < n → x c = y c ∧ (x c).1 ≠ .outOfFuel

namespace Agree

theorem of_quiet {x : Action α} (h : x.Quiet) : Agree n x x := fun c _ => ⟨rfl, (h c).1⟩

theorem bind {x y : Action α} {f g : α → Action β} (hkeep : x.Keeps out) (h : Agree n x y)
    (hf : ∀ a, Agree n (f a) (g a)) : Agree n (x >>= f) (y >>= g) := by
  intro c hc
  obtain ⟨hxy, hend⟩ := h c hc
  have hleft := (hkeep c).callsLeft
  rcases hx : x c with ⟨a | e | _, d⟩
  · rw [bind_of_ok hx, bind_of_ok (hxy ▸ hx)]
    rw [hx] at hleft
    exact hf a d (hleft ▸ hc)
  · rw [bind_of_error hx, bind_of_error (hxy ▸ hx)]
    exact ⟨rfl, nofun⟩
  · exact absurd (congrArg Prod.fst hx) hend

theorem withSuppression {x y : Action α} (b : Bool) (h : Agree n x y) :
    Agree n (withSuppression b x) (withSuppression b y) := by
  intro c hc
  obtain ⟨hxy, hend⟩ := h { c with suppressed := b } hc
  refine ⟨?_, hend⟩
  unfold Action.withSuppression
  rw [hxy]

end Agree

end Action

open TemplateEngine.Action

/-! ## Regions -/

/-- The action ends with a result or an error. -/
def Action.Finishes {α : Type} (x : Action α) : Prop := ∀ c, (x c).1 ≠ .outOfFuel

theorem Action.Finishes.bind_pure {α β : Type} {x : Action α} (h : x.Finishes) (f : α → β) :
    (x >>= fun a => pure (f a)).Finishes := by
  intro c
  have hc := h c
  rcases hx : x c with ⟨a | e | _, d⟩
  · rw [bind_of_ok hx]
    simp
  · rw [bind_of_error hx]
    simp
  · exact absurd (congrArg Prod.fst hx) hc

theorem finishes_exitFunction : exitFunction.Finishes := by
  intro c
  unfold exitFunction
  split
  · simp
  · split <;> simp

/-- Closing a region ends with a result or an error. -/
theorem Region.close_finishes (r : Region) : r.close.Finishes := by
  cases r with
  | function => exact finishes_exitFunction.bind_pure fun _ => Value.undefined
  | loop =>
    refine Finishes.bind_pure (x := exitLoop) (fun c => ?_) fun _ => Value.undefined
    unfold exitLoop
    split <;> simp
  | global =>
    intro c
    unfold close popGlobal
    dsimp only
    split <;> simp
  | output =>
    refine Finishes.bind_pure (x := popOutput) (fun c => ?_) Value.text
    unfold popOutput
    split <;> simp
  | source =>
    refine Finishes.bind_pure (x := popSource) (fun c => ?_) Value.text
    unfold popSource
    split <;> simp

/-- Opening ends with a result or an error, and then fewer than `n` calls are left if fewer than `k`
were left before. -/
def Region.Admits (k n : Nat) (opening : Action Unit) : Prop :=
  ∀ c, c.callsLeft < k →
    (opening c).1 ≠ .outOfFuel ∧ ((opening c).1 = .ok () → (opening c).2.callsLeft < n)

namespace Region

variable {α : Type} {n k : Nat} {opening : Action Unit} {x y : Action α}

theorem agree_holding (r : Region) (h : Admits k n opening) (hxy : Agree n x y) :
    Agree k (r.holding opening x) (r.holding opening y) := by
  intro c hc
  obtain ⟨hend, hleft⟩ := h c hc
  simp only [holding, between]
  rcases ho : opening c with ⟨u | e | _, d⟩
  · rw [ho] at hleft
    obtain ⟨hb, hfin⟩ := hxy d (hleft rfl)
    refine ⟨by simp only [hb], ?_⟩
    dsimp only
    rcases hx : x d with ⟨a | e | _, d'⟩
    · have hcl := r.close_finishes d'
      dsimp only
      rcases hr : r.close d' with ⟨v | e | _, d''⟩
      · simp
      · simp
      · exact absurd (congrArg Prod.fst hr) hcl
    · simp
    · exact absurd (congrArg Prod.fst hx) hfin
  · simp
  · exact absurd (congrArg Prod.fst ho) hend

theorem admits_modify {f : Context → Context} (h : ∀ c, (f c).callsLeft = c.callsLeft) :
    Admits n n (modify f) := fun c hc => ⟨nofun, fun _ => (h c).symm ▸ hc⟩

/-- A call uses up one level. -/
theorem admits_function (p : Position) : Admits (n + 1) n (enterFunction p) := by
  intro c hc
  unfold enterFunction
  split
  · refine ⟨nofun, fun _ => ?_⟩
    simp only [Context.callsLeft] at *
    omega
  · exact ⟨nofun, nofun⟩

theorem admits_loop (p : Position) : Admits n n (enterLoop p) := admits_modify fun _ => rfl

theorem admits_output : Admits n n pushOutput := admits_modify fun _ => rfl

theorem admits_global (model : Value) : Admits n n (pushGlobal model) := by
  unfold pushGlobal
  split
  · exact fun _ _ => ⟨nofun, nofun⟩
  · exact admits_modify fun _ => rfl

theorem admits_source (name : String) : Admits n n (pushSource name) := by
  unfold pushSource
  split
  · exact fun _ _ => ⟨nofun, nofun⟩
  · exact admits_modify fun _ => rfl

end Region

/-! ## Loops -/

theorem agree_stepLoop {n : Nat} : Agree n stepLoop stepLoop := by
  refine fun c _ => ⟨rfl, ?_⟩
  unfold stepLoop
  dsimp only
  split <;> nofun

/-- A round that does not end the loop uses up at least one of the rounds that are left. -/
def Machine.Counts (round : Action (Option Flow)) : Prop :=
  ∀ c d : Context, round c = (.ok none, d) →
    c.scopes.iterations < c.limits.loops ∧ c.scopes.iterations < d.scopes.iterations

theorem stepLoop_eq_ok {c d : Context} {u : Unit} (h : stepLoop c = (.ok u, d)) :
    c.scopes.iterations < c.limits.loops ∧ d.scopes.iterations = c.scopes.iterations + 1 := by
  unfold stepLoop at h
  dsimp only at h
  split at h
  · next hlt => cases h; exact ⟨hlt, rfl⟩
  · cases h

theorem counts_whileBody {condition : Action Value} {body : Action Flow}
    (hc : condition.Keeps Eq) (hb : body.Keeps Output.Extends) :
    Machine.Counts (Machine.whileBody condition body) := by
  intro c d h
  obtain ⟨v, c', hv, h⟩ := bind_eq_ok.1 h
  obtain ⟨holds, _, hview, h⟩ := bind_eq_ok.1 h
  cases hview
  split at h
  · obtain ⟨_, c'', hstep, h⟩ := bind_eq_ok.1 h
    obtain ⟨flow, d', hf, h⟩ := bind_eq_ok.1 h
    cases congrArg Prod.snd h
    have hkept := hc c
    have hbody := hb c''
    rw [hv] at hkept
    rw [hf] at hbody
    obtain ⟨hlt, hnext⟩ := stepLoop_eq_ok hstep
    have hlim : c'.limits = c.limits := hkept.limits
    have hle : c.scopes.iterations ≤ c'.scopes.iterations := hkept.iterations
    have hle' : c''.scopes.iterations ≤ d.scopes.iterations := hbody.iterations
    rw [hlim] at hlt
    omega
  · cases h

/-- The rounds of a loop end before their bound is reached, by induction on the bound, which is
greater than the rounds that are left. -/
theorem agree_repeatRound {n : Nat} {x y : Action (Option Flow)} {out : Output → Output → Prop}
    (hkeep : x.Keeps out) (hcount : Machine.Counts x) (h : Agree n x y) (bound : Nat) (c : Context)
    (hc : c.callsLeft < n) (hbound : c.limits.loops - c.scopes.iterations < bound) :
    Machine.repeatRound x bound c = Machine.repeatRound y bound c ∧
      (Machine.repeatRound x bound c).1 ≠ .outOfFuel := by
  induction bound generalizing c with
  | zero => omega
  | succ bound ih =>
    obtain ⟨hxy, hend⟩ := h c hc
    have hkept := hkeep c
    unfold Machine.repeatRound
    rcases hx : x c with ⟨(_ | flow) | e | _, d⟩ <;> rw [← hxy, hx]
    · obtain ⟨hleft, hless⟩ := hcount c d hx
      rw [hx] at hkept
      refine ih d (hkept.callsLeft.symm ▸ hc) ?_
      have hlim : d.limits = c.limits := hkept.limits
      rw [hlim]
      omega
    · exact ⟨rfl, by simp⟩
    · exact ⟨rfl, by simp⟩
    · exact absurd (congrArg Prod.fst hx) hend

/-! ## Every run -/

/-- The actions agree where fewer than `n` calls are left, and the first keeps the context. -/
structure Action.Settled (n : Nat) (out : Output → Output → Prop) {α : Type} (x y : Action α) :
    Prop where
  keeps : x.Keeps out
  agree : Agree n x y

namespace Action.Settled

variable {α β : Type} {n k : Nat} {out body : Output → Output → Prop} {x y : Action α}

theorem of_quiet (h : x.Quiet) : Settled n Eq x x := ⟨h.keeps, .of_quiet h⟩

theorem up [Std.Refl out] (h : Settled n Eq x y) : Settled n out x y := ⟨h.keeps.up, h.agree⟩

theorem bind [Trans out out out] {f g : α → Action β} (h : Settled n out x y)
    (hf : ∀ a, Settled n out (f a) (g a)) : Settled n out (x >>= f) (y >>= g) :=
  ⟨h.keeps.bind fun a => (hf a).keeps, .bind h.keeps h.agree fun a => (hf a).agree⟩

theorem holding {r : Region} {opening : Action Unit} (hr : r.Restores opening body out)
    (ho : Region.Admits k n opening) (h : Settled n body x y) :
    Settled k out (r.holding opening x) (r.holding opening y) :=
  ⟨Region.keeps_holding hr h.keeps, r.agree_holding ho h.agree⟩

theorem countedRound {prepare : Action Unit} {f g : Action Flow} (hp : prepare.Quiet)
    (h : Settled n Output.Extends f g) :
    Settled n Output.Extends (Machine.countedRound prepare f) (Machine.countedRound prepare g) :=
  .bind ⟨keeps_stepLoop.up, agree_stepLoop⟩ fun _ => .bind (of_quiet hp).up fun _ => h

theorem whileBody {a b : Action Value} {f g : Action Flow} (hc : Settled n Eq a b)
    (h : Settled n Output.Extends f g) :
    Settled n Output.Extends (Machine.whileBody a f) (Machine.whileBody b g) := by
  rw [Machine.whileBody_eq, Machine.whileBody_eq]
  refine .bind hc.up fun v => .bind (of_quiet (.view _)).up ?_
  intro holds
  split
  · exact .bind (countedRound (.pure ()) h) fun _ => (of_quiet (.pure _)).up
  · exact (of_quiet (.pure _)).up

theorem whileRounds {a b : Action Value} {f g : Action Flow} (hc : Settled n Eq a b)
    (h : Settled n Output.Extends f g) :
    Settled n Output.Extends (Machine.whileRounds a f) (Machine.whileRounds b g) where
  keeps _ := keeps_repeatRound (keeps_whileBody hc.keeps h.keeps) _ _
  agree c hleft := agree_repeatRound (whileBody hc h).keeps
    (counts_whileBody hc.keeps h.keeps) (whileBody hc h).agree _ c hleft (Nat.lt_succ_self _)

end Action.Settled

/-- The calls that may be left: one less in the body of what is called. -/
def Site.levels (n : Nat) : Site → Nat
  | .here => n + 1
  | .called => n

/-- Every construct is settled with one level more than the bodies it runs. -/
def Congruence.settling (n : Nat) :
    Congruence fun s v _ x y => Settled (s.levels n) v.Change x y where
  pure a := .of_quiet (.pure a)
  bind := .bind
  congr hx hy h := hx ▸ hy ▸ h
  up := .up
  primitive h := .of_quiet h.quiet
  suppress b _ _ h := ⟨h.keeps.withSuppression b, h.agree.withSuppression b⟩
  text t := ⟨keeps_writeText t, fun _ _ => ⟨rfl, nofun⟩⟩
  function p _ _ h := h.holding (Region.restores_function p) (Region.admits_function p)
  global model _ _ h := h.holding (Region.restores_global model) (Region.admits_global model)
  source name _ _ h := h.holding (Region.restores_source name) (Region.admits_source name)
  output h := h.holding Region.restores_output Region.admits_output
  loop p _ _ h := h.holding (Region.restores_loop p) (Region.admits_loop p)
  round name length item _ _ h := .countedRound (Machine.quiet_bindRound name length item) h
  whileRounds := .whileRounds

theorem settled_native (n k : Nat) (f : Native) (args : List Value) (p : Position) :
    Settled (n + 1) Eq ((machine .none (n + 1)).native f args p)
      ((machine .none (n + 1 + k)).native f args p) := by
  rw [Nat.add_right_comm]
  exact .of_quiet (.fail _)

/-- With as many levels as calls are left and one more, the body of a function or a template
settles, by induction on the levels. -/
theorem settled_run (n k : Nat) (b : Block) :
    Settled n Output.Extends ((machine .none (n + 1)).run b)
      ((machine .none (n + 1 + k)).run b) := by
  induction n generalizing b with
  | zero =>
    exact ⟨keeps_run 1 b, fun c hc => absurd hc (Nat.not_lt_zero _)⟩
  | succ n ih =>
    rw [Nat.add_right_comm (n + 1) 1 k]
    exact (Congruence.settling n).block ih (settled_native n k) b

/-- With more levels than calls are left, an action on a context comes to one result or error. -/
theorem Action.Settled.exists_result {α : Type} {out : Output → Output → Prop} {c : Context}
    {x : Nat → Action α} (h : ∀ k, Settled (c.limits.depth + 1) out (x 0) (x k)) :
    ∃ r, r.1 ≠ .outOfFuel ∧ ∀ k, x k c = r := by
  have hleft : c.callsLeft < c.limits.depth + 1 := Nat.lt_succ_of_le (Nat.sub_le _ _)
  exact ⟨x 0 c, ((h 0).agree c hleft).2, fun k => ((h k).agree c hleft).1.symm⟩

/-- Every rendering ends: there is one result or error that it comes to with any number of levels
of calls that is greater than the limit of the context. -/
theorem render_terminates (c : Context) (model : Value) :
    (∀ t : Template, ∃ r, r.1 ≠ .outOfFuel ∧
      ∀ k, t.render (machine .none (c.limits.depth + 1 + k)) model c = r) ∧
    ∀ path : String, ∃ r, r.1 ≠ .outOfFuel ∧
      ∀ k, renderPath (machine .none (c.limits.depth + 1 + k)) path model c = r := by
  let C := Congruence.settling c.limits.depth
  have hrun k := settled_run c.limits.depth k
  have hnative k := settled_native c.limits.depth k
  exact ⟨fun t => Settled.exists_result fun k => C.render (hrun k) (hnative k) t model,
    fun path => Settled.exists_result fun k => C.renderPath (hrun k) (hnative k) path model⟩

end TemplateEngine
