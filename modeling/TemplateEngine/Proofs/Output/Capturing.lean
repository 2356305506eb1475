import TemplateEngine.Proofs.Assignments.Entries
import TemplateEngine.Proofs.Output.Speaking
import TemplateEngine.Proofs.Trails.Steps
import TemplateEngine.Proofs.Variables.ReadBack
import TemplateEngine.Proofs.Variables.Refusals

/-!
# Capturing what is written

A block that is captured does what it does when it writes. Templates lock no name of a map or of a
namespace (`Congruence.lockingNothing`), so a name that can be assigned before the block can be
assigned after it, and what it is then bound to is read back.

* `capture_equals_writing` — capturing a block under a name and writing the name comes to the same
  as the block, but for what the name is bound to.
-/

namespace TemplateEngine

open TemplateEngine.Action

/-! ## Names that can be assigned -/

namespace Store

/-- The value is a map, or a namespace in which the name is not locked. -/
def Takes (σ : Store) (name : String) : Value → Prop
  | .map r => σ.Has r fun x => ∃ d, x = .entries d
  | .object r => σ.Has r fun x => ∃ f, x = .names f ∧ f.isReadOnly name = false
  | _ => False

variable {σ τ : Store} {name key : String} {model target : Value}

theorem Takes.adds (h : σ.Takes name model) (hadds : σ.Adds τ) : τ.Takes name model := by
  cases model with
  | map r | object r => exact Has.adds h hadds
  | _ => exact h.elim

/-- A map that is changed stays a map, and a namespace one that locks nothing more. -/
theorem Takes.put {q : Ref} {x y : Cell} (h : σ.Takes name model) (hx : σ.cell? q = some x)
    (hentries : ∀ d, x = .entries d → ∃ e, y = .entries e)
    (hnames : ∀ f, x = .names f → f.isReadOnly name = false →
      ∃ g, y = .names g ∧ g.isReadOnly name = false) : (σ.put q y).Takes name model := by
  cases model with
  | map r => exact Has.put h hx fun _ ⟨d, hd⟩ => hentries d hd
  | object r => exact Has.put h hx fun _ ⟨f, hf, hfree⟩ => hnames f hf hfree
  | _ => exact h.elim

theorem PutsItem.takes (hputs : σ.PutsItem τ) (h : σ.Takes name model) : τ.Takes name model := by
  cases hputs with
  | same => exact h
  | items ys hcell => exact h.put hcell nofun nofun

/-- Writing a member locks no name. -/
theorem Puts.takes (hputs : σ.Puts key target τ) (h : σ.Takes name model) :
    τ.Takes name model := by
  cases hputs with
  | same => exact h
  | entry x hcell => exact h.put hcell (fun _ _ => ⟨_, rfl⟩) nofun
  | name x hcell hfree =>
    refine h.put hcell nofun fun g hg hname => ⟨_, rfl, ?_⟩
    cases hg
    rw [Frame.isReadOnly_define]
    split
    · rfl
    · exact hname
  | record y hcell => exact h.put hcell nofun nofun

end Store

namespace Action

variable {α β : Type}

/-- What could be assigned before still can be. -/
def LocksNothing (x : Action α) : Prop :=
  ∀ (name : String) (model : Value) (c : Context),
    c.store.Takes name model → (x c).2.store.Takes name model

namespace LocksNothing

theorem of_lasting {x : Action α} (h : x.Lasting) : x.LocksNothing :=
  fun _ _ c hc => hc.adds (h c).store

theorem of_leaves {x : Action α} (h : x.Leaves Context.store) : x.LocksNothing :=
  fun _ _ c hc => by rwa [h c]

theorem bind {x : Action α} {f : α → Action β} (hx : x.LocksNothing)
    (hf : ∀ a, (f a).LocksNothing) : (x >>= f).LocksNothing := fun name model c hc =>
  holds_after_bind (P := fun d => d.store.Takes name model) (hx name model c hc)
    fun a d hd => hf a name model d hd

theorem writeVariable (ref : VarRef) (v : Value) : (writeVariable ref v).LocksNothing := by
  cases hscope : ref.scope with
  | global => exact fun _ _ c hc => (puts_writeVariable c hscope v).takes hc
  | locals =>
    refine of_leaves fun c => ?_
    simp only [Action.writeVariable, hscope, bind_apply, view]
    cases c.scopes.localFrame.set ref.name v <;> rfl
  | loop =>
    refine of_leaves fun c => ?_
    simp only [Action.writeVariable, hscope, bind_apply, view]
    cases c.scopes.loopFrame? with
    | none => rfl
    | some frame =>
      dsimp only
      cases frame.set ref.name v <;> rfl

theorem write (v : Value) (place : Place) : (place.write v).LocksNothing := by
  intro name model c hc
  cases place with
  | member object key target p =>
    refine (holds_after_bind (P := fun d => c.store.Puts key object d.store)
      (puts_writeMember c object key v) fun r d hd => ?_).takes hc
    rcases r with (_ | _) | _ <;> exact hd
  | item accessor object index target p =>
    simp only [Place.write, tryStore]
    cases hset : accessor.set c.store object index v with
    | error e => exact hc
    | ok τ => exact (Store.putsItem_setPosition hset).takes hc

theorem primitive {x : Action α} (h : x.Primitive) : x.LocksNothing := by
  cases h with
  | writeVariable ref v => exact writeVariable ref v
  | write v place => exact write v place
  | bindLocal name v => exact of_leaves fun _ => rfl
  | inheritLoop => exact of_leaves fun _ => rfl
  | suppressed | inStore => exact of_lasting (.view _)
  | failAt p fault => exact of_lasting (.failAt p fault)
  | tryView p f => exact of_lasting (.tryView p f)
  | newList | newMap | newNamespace => exact of_lasting (.onStore fun s => .alloc s _)
  | binary p op a b => exact of_lasting (lasting_binary p op a b)
  | readVariable ref => exact of_lasting (lasting_readVariable ref)
  | ofMember object name target p => exact of_lasting (lasting_ofMember object name target p)
  | ofKey object key q target p => exact of_lasting (lasting_ofKey object key q target p)
  | read place => exact of_lasting (lasting_read place)
  | builtin b args p => exact of_lasting (lasting_builtin b args p)
  | load path p => exact of_lasting (lasting_loadTemplate path p)

theorem holding {r : Region} {opening : Action Unit} {x : Action α}
    (ho : opening.Leaves Context.store) (hx : x.LocksNothing) :
    (r.holding opening x).LocksNothing := by
  intro name model c hc
  have hclose : r.close.Leaves Context.store :=
    r.close_leaves (fun _ _ => rfl) (fun _ _ => rfl) fun _ _ _ => rfl
  have hopen := ho c
  rcases h : opening c with ⟨u | e | _, d⟩ <;> rw [h] at hopen
  · rw [Region.holding_snd_of_ok h, hclose]
    exact hx name model d (by rwa [hopen])
  · rw [Region.holding_snd_of_not_ok (by simp [h]), h, hopen]
    exact hc
  · rw [Region.holding_snd_of_not_ok (by simp [h]), h, hopen]
    exact hc

theorem bindRound (name : String) (length : Nat) (item : Value × Nat) :
    (Machine.bindRound name length item).LocksNothing := by
  have hbind (name : String) (v : Value) : (bindLoop name v).LocksNothing := by
    refine of_leaves fun c => ?_
    unfold bindLoop
    split <;> rfl
  exact bind (hbind _ _) fun _ => bind (of_lasting (.onStore fun s => .alloc s _)) fun _ =>
    hbind _ _

theorem countedRound {prepare : Action Unit} {body : Action Flow} (hp : prepare.LocksNothing)
    (h : body.LocksNothing) : (Machine.countedRound prepare body).LocksNothing :=
  bind (of_lasting lasting_stepLoop) fun _ => bind hp fun _ => h

theorem whileBody {condition : Action Value} {body : Action Flow} (hc : condition.LocksNothing)
    (h : body.LocksNothing) : (Machine.whileBody condition body).LocksNothing := by
  rw [Machine.whileBody_eq]
  refine bind hc fun v => bind (of_lasting (.view _)) ?_
  intro holds
  split
  · exact bind (countedRound (of_lasting (.pure ())) h) fun _ => of_lasting (.pure _)
  · exact of_lasting (.pure _)

theorem repeatRound {round : Action (Option Flow)} (h : round.LocksNothing) (bound : Nat) :
    LocksNothing (Machine.repeatRound round bound) := by
  induction bound with
  | zero => exact of_leaves fun _ => rfl
  | succ n ih =>
    rw [Machine.repeatRound_succ]
    refine bind h ?_
    intro flow
    cases flow with
    | none => exact ih
    | some flow => exact of_lasting (.pure flow)

end LocksNothing

end Action

/-- Templates lock nothing that is not local. -/
def Congruence.lockingNothing : Congruence fun _ _ _ x _ => x.LocksNothing where
  pure a := .of_lasting (.pure a)
  bind := .bind
  congr hx _ h := hx ▸ h
  up h := h
  primitive := .primitive
  suppress b _ _ h := fun name model c hc => h name model { c with suppressed := b } hc
  text t := .of_lasting (lasting_writeText t)
  function p _ _ := .holding fun c => by unfold enterFunction; split <;> rfl
  global model _ _ := .holding fun c => by unfold pushGlobal; split <;> rfl
  source name _ _ := .holding fun c => by unfold pushSource; split <;> rfl
  output := .holding fun _ => rfl
  loop p _ _ := .holding fun _ => rfl
  round name length item _ _ := .countedRound (.bindRound name length item)
  whileRounds hc h name model c := Action.LocksNothing.repeatRound (.whileBody hc h)
    (c.limits.loops - c.scopes.iterations + 1) name model c

theorem locksNothing_machine (n : Nat) : (∀ b, ((machine .none n).run b).LocksNothing) ∧
    ∀ f args p, ((machine .none n).native f args p).LocksNothing := by
  induction n with
  | zero => exact ⟨fun _ => .of_leaves fun _ => rfl, fun _ _ _ => .of_leaves fun _ => rfl⟩
  | succ n ih =>
    exact ⟨Congruence.lockingNothing.block (n := machine .none n) ih.1 ih.2,
      fun _ _ _ => .of_lasting (.fail _)⟩

theorem locksNothing_block (n : Nat) (b : Block) : (runBlock (machine .none n) b).LocksNothing :=
  Congruence.lockingNothing.block (n := machine .none n) (locksNothing_machine n).1
    (locksNothing_machine n).2 b

/-! ## Assigning and reading back -/

section

variable {c : Context} {name : String} {model v : Value}

theorem Store.takes_of_free (hmodel : c.store.HoldsNames c.scopes.globals.top.model)
    {p : Position} (hfree : c.isReadOnly ⟨name, .global, p⟩ = false) :
    c.scopes.globals.top.readOnly.contains name = false ∧
      c.store.Takes name c.scopes.globals.top.model := by
  rw [c.isReadOnly_global rfl, Bool.or_eq_false_iff] at hfree
  refine ⟨hfree.1, ?_⟩
  generalize c.scopes.globals.top.model = model at hmodel hfree
  cases model with
  | map r =>
    obtain ⟨d, hd⟩ := hmodel
    exact ⟨_, hd, d, rfl⟩
  | object r =>
    obtain ⟨f, hf⟩ := hmodel
    refine ⟨_, hf, f, rfl, ?_⟩
    simpa [reportsLocked, objectIsReadOnly, hf] using hfree.2
  | _ => exact hmodel.elim

/-- Writing the name succeeds, and what was written is bound there. -/
theorem Store.Takes.exists_written (h : c.store.Takes name model) (v : Value) :
    ∃ r τ, c.store.keyed? model = some r ∧ c.store.Written r (.name name) v τ ∧
      τ.HoldsNames model ∧ τ.bound? name model = some v ∧
      writeMember model name v c = (.ok (.ok ()), { c with store := τ }) := by
  have hset {τ : Store} (ht : (c.members.resolve c.store model).1.set c.store model name v = .ok τ)
      (hsame : (c.members.resolve c.store model).2 = c.members) :
      writeMember model name v c = (.ok (.ok ()), { c with store := τ }) := by
    simp only [writeMember, memberAccessor, onStore, bind_apply, ht, hsame]
  cases model with
  | map r =>
    obtain ⟨_, hcell, d, rfl⟩ := h
    have hkeyed : c.store.keyed? (.map r) = some r := by simp only [keyed?, hcell]
    have hbound := rebound_setEntry hcell name v
    exact ⟨r, _, hkeyed, written_of_setMember (a := c.members) hkeyed rfl,
      hbound.holdsNames (.map r) ⟨d, hcell⟩, hbound.self, hset rfl rfl⟩
  | object r =>
    obtain ⟨_, hcell, f, rfl, hfree⟩ := h
    have hkeyed : c.store.keyed? (.object r) = some r := by simp only [keyed?, hcell]
    have hobject : c.store.objectSet r name v =
        .ok (c.store.put r (.names (f.define name v false))) := by
      simp only [objectSet, hcell, Frame.set, hfree]
      rfl
    have hbound := rebound_objectSet hcell hobject
    exact ⟨r, _, hkeyed, written_of_setMember (a := c.members) hkeyed hobject,
      hbound.holdsNames (.object r) ⟨f, hcell⟩, hbound.self, hset hobject rfl⟩
  | _ => exact h.elim

theorem Store.Takes.exists_assigned (h : c.store.Takes name c.scopes.globals.top.model)
    (hfree : c.scopes.globals.top.readOnly.contains name = false) (v : Value) :
    ∃ r τ, c.store.keyed? c.scopes.globals.top.model = some r ∧
      c.store.Written r (.name name) v τ ∧
      (∀ p, writeVariable ⟨name, .global, p⟩ v c = (.ok (), { c with store := τ })) ∧
      (v ≠ .undefined → ∀ p,
        readVariable ⟨name, .global, p⟩ { c with store := τ } = (.ok v, { c with store := τ })) := by
  obtain ⟨r, τ, hkeyed, hwritten, hholds, hbound, hmember⟩ := h.exists_written v
  refine ⟨r, τ, hkeyed, hwritten, fun p => ?_, fun hv p => ?_⟩
  · simp only [writeVariable, bind_apply, view, hfree, Bool.false_eq_true, if_false, hmember]
    rfl
  · have hread : readMember c.scopes.globals.top.model name { c with store := τ } =
        (.ok v, { c with store := τ }) := by
      rw [readMember_of_holdsNames hholds]
      simp only [hbound, Option.getD_some]
    have hdefined : v.isUndefined = false := by
      cases v with
      | undefined => exact absurd rfl hv
      | _ => rfl
    simp only [readVariable, bind_apply, view]
    rw [Scopes.toList_eq_top_cons, readGlobal, bind_of_ok hread, hdefined]
    rfl

end

/-! ## Capturing -/

section

variable {m : Machine} {c d : Context} {x : String} {b : Block}

/-- Writing a variable that holds a text. -/
theorem run_output_text {ref : VarRef} {text : String}
    (h : readVariable ref { c with suppressed := false } =
      (.ok (.text text), { c with suppressed := false })) :
    (Stmt.output (.var ref)).run m c = (.ok .normal, c.withOutput (c.output.write text)) := by
  have hreach : (Expr.var ref).reach m true { c with suppressed := false } =
      (.ok (.text text), { c with suppressed := false }) := by
    rw [Expr.reach, bind_of_ok h]
    rfl
  have hvalue : (Expr.var ref).evaluate m c = (.ok (.text text), c) := by
    simp only [Expr.evaluate, withSuppression, hreach]
  have hwrite : writeValue (.text text) (Expr.var ref).position c =
      (.ok (), c.withOutput (c.output.write text)) := rfl
  rw [Stmt.run, bind_of_ok hvalue, bind_of_ok hwrite]
  rfl

/-- Capturing a block that ends normally, into a variable that takes the text. -/
theorem run_capture_of_ok {ref : VarRef} {text : String} {τ : Store}
    (hheld : Region.output.holding pushOutput (runBlock m b) c = (.ok (.normal, .text text), d))
    (hassign : writeVariable ref (.text text) { d with suppressed := false } =
      (.ok (), { d with suppressed := false, store := τ })) :
    (Stmt.capture (.var ref) b).run m c = (.ok .normal, { d with store := τ }) := by
  have hassigned : (Expr.var ref).assign m (.text text) d = (.ok (), { d with store := τ }) := by
    simp only [Expr.assign, withSuppression, Expr.write, hassign]
  rw [Stmt.run, bind_of_ok hheld]
  dsimp only
  rw [bind_of_ok hassigned]
  rfl

end

/-- Whatever the block is: if it ends normally, capturing it under a name that can be assigned and
then writing the name comes to the same text, and to the same context but for the one entry of the
innermost model that holds the text. If the block fails, so do both, in the same way. -/
theorem capture_equals_writing (n : Nat) (c : Context) (b : Block) (x : String) (p q : Position)
    (hmodel : c.store.HoldsNames c.scopes.globals.top.model)
    (hfree : c.isReadOnly ⟨x, .global, p⟩ = false) :
    (∀ d, runBlock (machine .none n) b c = (.ok .normal, d) →
      ∃ text r τ, d.output = c.output.write text ∧
        d.store.keyed? c.scopes.globals.top.model = some r ∧
        d.store.Written r (.name x) (.text (if c.output.enabled then text else "")) τ ∧
        runBlock (machine .none n)
          [.capture (.var ⟨x, .global, p⟩) b, .output (.var ⟨x, .global, q⟩)] c =
            (.ok .normal, { d with store := τ })) ∧
    ∀ e d, runBlock (machine .none n) b c = (.error e, d) →
      runBlock (machine .none n)
        [.capture (.var ⟨x, .global, p⟩) b, .output (.var ⟨x, .global, q⟩)] c =
          (.error e, d.withOutput c.output) := by
  obtain ⟨text, htext⟩ := (speaks_block n b).exists_held c
  obtain ⟨hdirect, hheld⟩ := htext c.output rfl
  rw [Context.withOutput_output] at hdirect hheld
  refine ⟨fun d hd => ?_, fun e d hd => ?_⟩
  · rw [hd] at hdirect hheld
    have hout : d.output = c.output.write text := congrArg (·.2.output) hdirect
    have hglobals : d.scopes.globals = c.scopes.globals := by
      have hkept :=
        Congruence.keeping.block (n := machine .none n) (keeps_run n) (keeps_native n) b c
      rw [hd] at hkept
      exact hkept.globals
    obtain ⟨hflag, htakes⟩ := Store.takes_of_free hmodel hfree
    replace htakes := locksNothing_block n b x _ c htakes
    rw [hd, ← hglobals] at htakes
    rw [← hglobals] at hflag
    -- The name is assigned where the block ended, with the output from before the block.
    obtain ⟨r, τ, hkeyed, hwritten, hassign, hread⟩ :=
      Store.Takes.exists_assigned (c := { d.withOutput c.output with suppressed := false }) htakes
        hflag (.text (if c.output.enabled then text else ""))
    refine ⟨text, r, τ, hout, hglobals ▸ hkeyed, hwritten, ?_⟩
    rw [runBlock, bind_of_ok (run_capture_of_ok hheld (hassign p))]
    dsimp only
    rw [runBlock, bind_of_ok (run_output_text (hread (by simp) q))]
    have hwhole : { d.withOutput c.output with store := τ }.withOutput
        (c.output.write (if c.output.enabled then text else "")) = { d with store := τ } := by
      rw [Output.write_held, ← hout]
      rfl
    dsimp only
    rw [runBlock]
    exact congrArg (Prod.mk (Outcome.ok Flow.normal)) hwhole
  · rw [hd] at hheld
    have hcapture : (Stmt.capture (.var ⟨x, .global, p⟩) b).run (machine .none n) c =
        (.error e, d.withOutput c.output) := by
      rw [Stmt.run, bind_of_error hheld]
    rw [runBlock, bind_of_error hcapture]

/-- A block that captures in turn. -/
def nestedCapture : Block :=
  [.text "a", .capture (.var ⟨"y", .global, ⟨1, 1⟩⟩) [.text "b"],
    .output (.var ⟨"y", .global, ⟨1, 2⟩⟩)]

/-- What comes next goes on. -/
def Outcome.isNormal : Outcome Flow → Bool
  | .ok .normal => true
  | _ => false

theorem Outcome.isNormal_iff {o : Outcome Flow} : o.isNormal = true ↔ o = .ok .normal := by
  rcases o with (_ | _ | _ | _) | _ | _ <;> simp [isNormal]

theorem nestedCapture_equals_writing :
    Context.layered.store.HoldsNames Context.layered.scopes.globals.top.model ∧
      Context.layered.isReadOnly ⟨"x", .global, ⟨2, 1⟩⟩ = false ∧ ∃ d τ,
        runBlock (machine .none 0) nestedCapture .layered = (.ok .normal, d) ∧
        d.output.current = "ab" ∧
        runBlock (machine .none 0) [.capture (.var ⟨"x", .global, ⟨2, 1⟩⟩) nestedCapture,
          .output (.var ⟨"x", .global, ⟨2, 2⟩⟩)] .layered = (.ok .normal, { d with store := τ }) := by
  have hmodel : Context.layered.store.HoldsNames Context.layered.scopes.globals.top.model :=
    ⟨_, rfl⟩
  have hfree : Context.layered.isReadOnly ⟨"x", .global, ⟨2, 1⟩⟩ = false := rfl
  have hends : (runBlock (machine .none 0) nestedCapture .layered).1.isNormal = true := by
    decide +kernel
  have hwrites : (runBlock (machine .none 0) nestedCapture .layered).2.output.current = "ab" := by
    decide +kernel
  rcases hrun : runBlock (machine .none 0) nestedCapture .layered with ⟨r, d⟩
  rw [hrun] at hends hwrites
  obtain rfl := Outcome.isNormal_iff.1 hends
  obtain ⟨_, _, τ, -, -, -, hcaptured⟩ :=
    (capture_equals_writing 0 .layered nestedCapture "x" ⟨2, 1⟩ ⟨2, 2⟩ hmodel hfree).1 d hrun
  exact ⟨hmodel, hfree, d, τ, rfl, hwrites, hcaptured⟩

end TemplateEngine
