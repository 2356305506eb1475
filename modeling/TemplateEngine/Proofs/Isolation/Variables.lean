import TemplateEngine.Proofs.Isolation.Contexts

/-!
# Members and variables in two runs

Names, members and items are read and written alike. The root namespace lies under all models and is
read on both sides, though no value refers to it; while a template is rendered it is never the model
that is written to.
-/

namespace TemplateEngine

open TemplateEngine.Action

section

variable {s : Settings} (hs : s.shapes.Uniform) {gap : Nat} {w : Pairing} {a b : Value}

/-! ## What a value is -/

section

variable (hab : a.Alike w b)

include hab

theorem sim_typeName :
    Sim s gap w (fun _ => Eq) (inStore fun s => s.typeName a) (inStore fun s => s.typeName b) :=
  .inStore fun hv h => h.typeName_eq (hab.mono hv)

theorem sim_isTruthy :
    Sim s gap w (fun _ => Eq) (inStore fun s => s.isTruthy a) (inStore fun s => s.isTruthy b) :=
  .inStore fun hv h => h.isTruthy_eq (hab.mono hv)

/-- A failure with a kind of value in its wording. -/
theorem sim_failTyped {α β : Type} {A : Pairing → α → β → Prop} (p : Position)
    (fault : String → ScriptFault) :
    Sim s gap w A (do let kind ← inStore fun s => s.typeName a; failAt p (fault kind))
      (do let kind ← inStore fun s => s.typeName b; failAt p (fault kind)) :=
  .bind (sim_typeName hab) fun _ hkind => hkind ▸ .failAt _ _

end

/-! ## Members -/

include hs in
theorem sim_memberAccessor (hab : a.Alike w b) :
    Sim s gap w (fun _ => MemberAccessor.Alike) (memberAccessor a) (memberAccessor b) := by
  intro v c d hv hcd _
  obtain ⟨hacc, hc, hd⟩ :=
    hcd.left.members.resolve hs hcd.right.members hcd.store (hab.mono hv)
  have hstill : c.Still (memberAccessor a c).2 := rfl
  exact .alike v (.refl v c.store)
    { hcd with left := { hcd.left with members := hc }, right := { hcd.right with members := hd } }
    hstill.kept.extends (.ok hacc)

theorem sim_realise {x y : Answer} (hxy : x.Alike w y) :
    Sim s gap w Value.Alike (realise x) (realise y) := by
  cases hxy with
  | value h => exact .pure fun hv => h.mono hv
  | newFunction name operation => exact .onStore fun _ h => h.gives_newNative name operation

include hs

theorem sim_readMember (hab : a.Alike w b) (name : String) :
    Sim s gap w Value.Alike (readMember a name) (readMember b name) := by
  refine .bind (sim_memberAccessor hs hab) ?_
  intro v p q hv hacc
  refine .bind (.inStore (A := fun v => Answer.Alike v) ?_) fun _ hxy => sim_realise hxy
  intro u t t' hu h
  exact hacc.get h (hab.mono (Pairing.le_trans hv hu)) name

theorem sim_writeMember (hab : a.Alike w b) (name : String) {x y : Value} (hxy : x.Alike w y) :
    Sim s gap w (fun _ => Eq) (writeMember a name x) (writeMember b name y) := by
  refine .bind (sim_memberAccessor hs hab) fun {v p q} hv hacc => .onStore ?_
  intro u t t' hu h
  have hle := Pairing.le_trans hv hu
  have hset := hacc.set h (hab.mono hle) name (hxy.mono hle)
  revert hset
  generalize p.set t a name x = r
  generalize q.set t' b name y = r'
  intro hset
  cases hset with
  | ok hstep => exact ⟨u, hstep, rfl⟩
  | error e => exact ⟨u, h.refl_step, rfl⟩

/-! ## Models -/

omit hs in
/-- The root namespace is read alike. -/
theorem sim_readRoot (name : String) :
    Sim s gap w Value.Alike (readMember (.object 0) name) (readMember (.object 0) name) := by
  have haccessor : Sim s gap w (fun _ p q => p = .object ∧ q = .object)
      (memberAccessor (.object 0)) (memberAccessor (.object 0)) :=
    fun _ _ _ _ hcd _ => .same hcd (.ok ⟨rfl, rfl⟩)
  refine .bind haccessor ?_
  intro v p q hv hpq
  obtain ⟨rfl, rfl⟩ := hpq
  exact .bind (.inStore (A := Answer.Alike) fun _ h => .value (h.rootGet name))
    fun _ hxy => sim_realise hxy

/-- Models that are alike, or the root namespace on both sides. -/
def GlobalFrame.Reads (w : Pairing) (g k : GlobalFrame) : Prop :=
  g.model.Alike w k.model ∨ g.model = .object 0 ∧ k.model = .object 0

theorem sim_readModel {g k : GlobalFrame} (hgk : g.Reads w k) (name : String) :
    Sim s gap w Value.Alike (readMember g.model name) (readMember k.model name) := by
  rcases hgk with hgk | ⟨hg, hk⟩
  · exact sim_readMember hs hgk name
  · rw [hg, hk]
    exact sim_readRoot name

/-- Models are asked in their order, by induction on how many are left. -/
theorem sim_readGlobal (name : String) {gs ks : List GlobalFrame}
    (h : List.Forall₂ (GlobalFrame.Reads w) gs ks) :
    Sim s gap w Value.Alike (readGlobal name gs) (readGlobal name ks) := by
  induction h with
  | nil => exact .pure fun _ => .undefined
  | cons hgk _ ih =>
    refine .bind (sim_readModel hs hgk name) fun hv hab => ?_
    exact .ite (by rw [hab.isUndefined_eq]) (ih.mono hv) (.pure fun hu => hab.mono hu)

omit hs in
theorem Scopes.Alike.reads {t u : Scopes} (h : t.Alike w gap u) :
    List.Forall₂ (GlobalFrame.Reads w) t.globals.toList u.globals.toList :=
  List.rel_append (h.globals.imp fun _ _ hgk => .inl hgk.model)
    (.cons (.inr ⟨h.left.root, h.right.root⟩) .nil)

/-! ## Variables -/

theorem sim_readVariable (ref : VarRef) :
    Sim s gap w Value.Alike (readVariable ref) (readVariable ref) := by
  unfold readVariable
  split
  · exact .bind (.view fun _ hcd _ => hcd.scopes.reads) fun _ h => sim_readGlobal hs _ h
  · exact .view fun _ hcd hc => (hcd.scopes.localFrame hc.locals).get _
  · refine .bind (.view fun _ hcd _ => hcd.scopes.loopFrame?) fun _ hfg => ?_
    cases hfg with
    | none => exact .failAt _ _
    | some hfg => exact .pure fun hu => (hfg.mono hu).get _

omit hs in
theorem sim_setLocalFrame {f g : Frame} (hfg : f.Alike w g) :
    Sim s gap w (fun _ => Eq)
      (modify fun c => { c with scopes := c.scopes.setLocalFrame f })
      (modify fun d => { d with scopes := d.scopes.setLocalFrame g }) := by
  intro v c d hv hcd hc
  have hkept := ((quiet_setLocalFrame fun _ => f) c).2.kept
  exact .rescoped hcd (hcd.scopes.setLocalFrame hc.locals (hfg.mono hv)) hkept.extends rfl

omit hs in
theorem sim_setLoopFrame {f g : Frame} (hfg : f.Alike w g) :
    Sim s gap w (fun _ => Eq)
      (modify fun c => { c with scopes := c.scopes.setLoopFrame f })
      (modify fun d => { d with scopes := d.scopes.setLoopFrame g }) := by
  intro v c d hv hcd _
  have hkept := (still_setLoopFrame c f).kept
  exact .rescoped hcd (hcd.scopes.setLoopFrame (hfg.mono hv)) hkept.extends rfl

theorem sim_writeVariable (ref : VarRef) (hab : a.Alike w b) :
    Sim s gap w (fun _ => Eq) (writeVariable ref a) (writeVariable ref b) := by
  unfold writeVariable
  split
  · refine .bind (.view fun _ hcd hc => hcd.scopes.topGlobal hc.globals) ?_
    intro v g k hv hgk
    refine .ite (by rw [hgk.readOnly]) (.failAt _ _) ?_
    refine .bind (sim_writeMember hs hgk.model ref.name (hab.mono hv)) ?_
    intro u r r' hu hr
    subst hr
    split
    · exact .pure fun _ => rfl
    · exact .failAt _ _
    · exact sim_failTyped (hgk.model.mono hu) _ fun kind => .noSuchMember kind ref.name
  · refine .bind (.view fun _ hcd hc => hcd.scopes.localFrame hc.locals) ?_
    intro v f g hv hfg
    have hset := hfg.set ref.name (hab.mono hv)
    generalize f.set ref.name a = x at hset
    generalize g.set ref.name b = y at hset
    cases hset with
    | ok hfg => exact sim_setLocalFrame hfg
    | error _ => exact .failAt _ _
  · refine .bind (.view fun _ hcd _ => hcd.scopes.loopFrame?) ?_
    intro v x y hv hfg
    cases hfg with
    | none => exact .failAt _ _
    | @some f g hfg =>
      have hset := hfg.set ref.name (hab.mono hv)
      dsimp only
      generalize f.set ref.name a = x at hset
      generalize g.set ref.name b = y at hset
      cases hset with
      | ok hfg => exact sim_setLoopFrame hfg
      | error _ => exact .failAt _ _

end

end TemplateEngine
