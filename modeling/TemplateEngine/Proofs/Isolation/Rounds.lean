import TemplateEngine.Proofs.Evaluation.Termination
import TemplateEngine.Proofs.Isolation.Regions

/-!
# Loops in two runs

Both runs count a round, or neither does, or the first one has used up its rounds. The loops go
through the same rounds, though the bound that a loop with a condition is given differs between the
runs: neither bound is ever reached.
-/

namespace TemplateEngine

open TemplateEngine.Action

/-- The same way of leaving, with values that are alike. -/
inductive Flow.Alike (w : Pairing) : Flow → Flow → Prop
  | normal : Alike w .normal .normal
  | stop : Alike w .stop .stop
  | next : Alike w .next .next
  | leave {x y : Option Value} : Option.Rel (Value.Alike w) x y → Alike w (.leave x) (.leave y)

section

variable {s : Settings} {gap : Nat} {w v : Pairing}

theorem Flow.Alike.mono (hle : w ≤ v) {f g : Flow} (h : f.Alike w g) : f.Alike v g := by
  cases h with
  | normal => exact .normal
  | stop => exact .stop
  | next => exact .next
  | leave h =>
    cases h with
    | none => exact .leave .none
    | some h => exact .leave (.some (h.mono hle))

theorem Flow.Alike.endsLoop {f g : Flow} (h : f.Alike w g) :
    Option.Rel (Flow.Alike w) f.endsLoop g.endsLoop := by
  cases h with
  | normal | next => exact .none
  | stop => exact .some .normal
  | leave h => exact .some (.leave h)

/-! ## Rounds -/

theorem sim_stepLoop : Sim s gap w (fun _ => Eq) stepLoop stepLoop := by
  intro v c d _ hcd _
  have hiter := hcd.scopes.iterations
  have hloops : c.limits.loops = s.limits.loops := by rw [hcd.left.limits]
  have hloops' : d.limits.loops = s.limits.loops := by rw [hcd.right.limits]
  have hkept := (keeps_stepLoop c).extends
  unfold stepLoop at hkept ⊢
  rw [hloops] at hkept ⊢
  rw [hloops', hcd.scopes.loopPosition_eq]
  rw [hcd.scopes.loopPosition_eq] at hkept
  by_cases hlt : c.scopes.iterations < s.limits.loops
  · rw [if_pos hlt] at hkept ⊢
    rw [if_pos (by omega)]
    exact .rescoped hcd hcd.scopes.count hkept rfl
  · rw [if_neg hlt] at hkept ⊢
    by_cases hgap : gap = 0
    · rw [if_neg (by omega)]
      exact .alike v (.refl v c.store) (hcd.onScopes hcd.scopes.count) hkept (.error _)
    · exact .usedUp _ hgap rfl (by dsimp only; omega)

theorem sim_bindLoop (name : String) {a b : Value} (hab : a.Alike w b) :
    Sim s gap w (fun _ => Eq) (bindLoop name a) (bindLoop name b) := by
  intro v c d hv hcd _
  have hframe := hcd.scopes.loopFrame?
  unfold bindLoop
  generalize c.scopes.loopFrame? = x at hframe
  generalize d.scopes.loopFrame? = y at hframe
  cases hframe with
  | none => exact .same hcd (.error _)
  | some hfg =>
    exact .rescoped hcd (hcd.scopes.setLoopFrame (hfg.define name (hab.mono hv) true))
      (still_setLoopFrame c _).kept.extends rfl

theorem sim_inheritLoop : Sim s gap w (fun _ => Eq) inheritLoop inheritLoop := by
  intro v c d _ hcd _
  exact .rescoped hcd hcd.scopes.inheritLoop (quiet_inheritLoop c).2.kept.extends rfl

theorem alike_loopEntries (w : Pairing) (index length : Nat) :
    (Machine.loopEntries index length).Alike (Value.Alike w) (Machine.loopEntries index length) :=
  .ofList (.cons ⟨rfl, .int _⟩ (.cons ⟨rfl, .int _⟩ (.cons ⟨rfl, .bool _⟩
    (.cons ⟨rfl, .bool _⟩ (.cons ⟨rfl, .int _⟩ .nil)))))

/-- A round says alike whether it ends its loop. -/
abbrev Action.SimRound (s : Settings) (gap : Nat) (w : Pairing) (x y : Action (Option Flow)) :
    Prop := Sim s gap w (fun v => Option.Rel (Flow.Alike v)) x y

variable {x y : Action Flow}

theorem sim_endsLoop (h : Sim s gap w Flow.Alike x y) :
    SimRound s gap w (x >>= fun flow => pure flow.endsLoop)
      (y >>= fun flow => pure flow.endsLoop) :=
  .bind h fun _ hflow => .pure fun hu => (hflow.mono hu).endsLoop

theorem sim_eachBody (name : String) (length : Nat) (h : Sim s gap w Flow.Alike x y) {a b : Value}
    (hab : a.Alike w b) (index : Nat) :
    SimRound s gap w (Machine.eachBody name length x (a, index))
      (Machine.eachBody name length y (b, index)) := by
  refine .bind sim_stepLoop fun hv _ => .bind (sim_bindLoop name (hab.mono hv)) fun hu _ => ?_
  refine .bind (.onStore fun _ hs => hs.gives_newMap (alike_loopEntries _ index length)) ?_
  refine fun ht hinfo => .bind (sim_bindLoop "loop" hinfo) fun hr _ => sim_endsLoop (h.mono ?_)
  exact Pairing.le_trans hv (Pairing.le_trans hu (Pairing.le_trans ht hr))

/-- Rounds over items that are related, by induction on the items that are left. -/
theorem sim_eachRound {α β : Type} {R : α → β → Prop} {f : α → Action (Option Flow)}
    {g : β → Action (Option Flow)} {as : List α} {bs : List β} (h : List.Forall₂ R as bs)
    (hfg : ∀ a b, R a b → SimRound s gap w (f a) (g b)) :
    Sim s gap w Flow.Alike (Machine.eachRound f as) (Machine.eachRound g bs) := by
  induction h with
  | nil => exact .pure fun _ => .normal
  | @cons a b _ _ hab _ ih =>
    rw [Machine.eachRound_cons, Machine.eachRound_cons]
    refine .bind (hfg a b hab) fun hv hflow => ?_
    cases hflow with
    | none => exact ih.mono hv
    | some hflow => exact .pure fun hu => hflow.mono hu

theorem forall₂_zipIdx {α β : Type} {R : α → β → Prop} {as : List α} {bs : List β}
    (h : List.Forall₂ R as bs) (k : Nat) :
    List.Forall₂ (fun p q => R p.1 q.1 ∧ p.2 = q.2) (as.zipIdx k) (bs.zipIdx k) := by
  induction h generalizing k with
  | nil => exact .nil
  | cons hab _ ih => exact .cons ⟨hab, rfl⟩ (ih (k + 1))

/-! ## Loops -/

theorem sim_inLoop (p : Position) (h : Sim s gap w Flow.Alike x y) :
    Sim s gap w Flow.Alike (Machine.inLoop p x) (Machine.inLoop p y) :=
  sim_loop p (.bind sim_inheritLoop fun hv _ => h.mono hv)

theorem sim_forEach (name : String) (p : Position) {as bs : List Value}
    (hab : List.Forall₂ (Value.Alike w) as bs) (h : Sim s gap w Flow.Alike x y) :
    Sim s gap w Flow.Alike (Machine.forEach name p as x) (Machine.forEach name p bs y) := by
  unfold Machine.forEach
  rw [hab.length_eq]
  refine sim_inLoop p (sim_eachRound (forall₂_zipIdx hab 0) fun a b hab => ?_)
  obtain ⟨a, i⟩ := a
  obtain ⟨b, j⟩ := b
  obtain ⟨hab, rfl⟩ := hab
  exact sim_eachBody name _ h hab i

variable {a b : Action Value}

theorem sim_whileBody (hab : Sim s gap w Value.Alike a b) (h : Sim s gap w Flow.Alike x y) :
    SimRound s gap w (Machine.whileBody a x) (Machine.whileBody b y) := by
  refine .bind hab fun hv hab => .bind (sim_isTruthy hab) fun hu hholds => ?_
  rw [hholds]
  refine .ite Iff.rfl (.bind sim_stepLoop fun ht _ => ?_) (.pure fun _ => .some .normal)
  exact sim_endsLoop (h.mono (Pairing.le_trans hv (Pairing.le_trans hu ht)))

/-- Rounds under two bounds that are greater than the rounds that are left, by induction on the
first one. -/
theorem ends_repeatRound {x y : Action (Option Flow)} (hx : Machine.Counts x)
    (hy : Machine.Counts y) (hxlim : ∀ c, (x c).2.limits = c.limits)
    (hylim : ∀ c, (y c).2.limits = c.limits) (h : SimRound s gap w x y) (n m : Nat) {v : Pairing}
    {c d : Context} (hv : w ≤ v) (hcd : Context.Alike s gap v c d) (hc : c.Inner)
    (hn : c.limits.loops - c.scopes.iterations < n)
    (hm : d.limits.loops - d.scopes.iterations < m) :
    Ends s gap v Flow.Alike c (Machine.repeatRound x n c) (Machine.repeatRound y m d) := by
  induction n generalizing m v c d with
  | zero => omega
  | succ n ih =>
    cases m with
    | zero => omega
    | succ m =>
      rw [Machine.repeatRound_succ, Machine.repeatRound_succ]
      refine (h hv hcd hc).bind fun {u f g c' d'} hxc hyd hu hflow hcd' hkept => ?_
      cases hflow with
      | none =>
        obtain ⟨hlt, hless⟩ := hx c c' hxc
        obtain ⟨hlt', hless'⟩ := hy d d' hyd
        have hclim := hxlim c
        have hdlim := hylim d
        rw [hxc] at hclim
        rw [hyd] at hdlim
        dsimp only at hclim hdlim
        refine ih m (Pairing.le_trans hv hu) hcd' (hkept.inner hc) ?_ ?_
        · rw [hclim]
          omega
        · rw [hdlim]
          omega
      | some hflow => exact .same hcd' (.ok hflow)

theorem sim_whileLoop (p : Position) (hab : Sim s gap w Value.Alike a b)
    (h : Sim s gap w Flow.Alike x y) (ha : a.Keeps Eq) (hb : b.Keeps Eq)
    (hx : x.Keeps Output.Extends) (hy : y.Keeps Output.Extends) :
    Sim s gap w Flow.Alike (Machine.whileLoop p a x) (Machine.whileLoop p b y) := by
  refine sim_inLoop p ?_
  intro v c d hv hcd hc
  have hlimits : ∀ c, (Machine.whileBody a x c).2.limits = c.limits :=
    fun c => (keeps_whileBody ha hx c).limits
  have hlimits' : ∀ d, (Machine.whileBody b y d).2.limits = d.limits :=
    fun d => (keeps_whileBody hb hy d).limits
  exact ends_repeatRound (counts_whileBody ha hx) (counts_whileBody hb hy) hlimits hlimits'
    (sim_whileBody hab h) _ _ hv hcd hc (Nat.lt_succ_self _) (Nat.lt_succ_self _)

end

end TemplateEngine
